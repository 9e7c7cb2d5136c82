import MiniSql.Index.FiniteMap

/-!
# Insertion when a node cannot be allocated

`bptree_insert` makes the same calls of `bptree_node_create` as it does when they all
succeed, up to the first that fails. If none fails the two runs are the same; if one
fails the insertion returns 0.
-/

namespace MiniSql.Index

/-- How a run with failing allocations compares to the one without: the same, every
call having succeeded, or failed at one of its calls. -/
def SameOrFailed (mem : Nat → Bool) (allocs : Nat) (r r' : InsertResult) : Prop :=
  allocs ≤ r.allocs ∧
    (r' = r ∧ (∀ i, allocs ≤ i → i < r.allocs → mem i = true) ∨
      r'.report = .failed nodeAllocationFailed ∧ ∃ i, allocs ≤ i ∧ i < r.allocs ∧ mem i = false)

section

variable {mem : Nat → Bool} {allocs : Nat} {r r' failed : InsertResult}

theorem SameOrFailed.noCall (h : r.allocs = allocs) : SameOrFailed mem allocs r r :=
  ⟨h.ge, .inl ⟨rfl, by omega⟩⟩

theorem SameOrFailed.oneCall (h : r.allocs = allocs + 1)
    (hfailed : failed.report = .failed nodeAllocationFailed) :
    SameOrFailed mem allocs r (if mem allocs then r else failed) := by
  refine ⟨by omega, ?_⟩
  cases hmem : mem allocs with
  | true =>
    refine .inl ⟨rfl, fun i hlo hhi => ?_⟩
    obtain rfl : i = allocs := by omega
    exact hmem
  | false => exact .inr ⟨hfailed, allocs, by omega, by omega, hmem⟩

/-- Calls that succeeded may be put in front. -/
theorem SameOrFailed.after {before : Nat} (h : SameOrFailed mem allocs r r') (hle : before ≤ allocs)
    (hmem : ∀ i, before ≤ i → i < allocs → mem i = true) : SameOrFailed mem before r r' := by
  obtain ⟨hallocs, hcases⟩ := h
  refine ⟨Nat.le_trans hle hallocs, ?_⟩
  rcases hcases with ⟨rfl, hall⟩ | ⟨hreport, i, hlo, hhi, hcall⟩
  · refine .inl ⟨rfl, fun i hlo hhi => ?_⟩
    by_cases hi : i < allocs
    · exact hmem i hlo hi
    · exact hall i (by omega) hhi
  · exact .inr ⟨hreport, i, by omega, hhi, hcall⟩

end

theorem insertIntoLeaf_nodes (mem : Nat → Bool) (address : Nat) (es : List (Int × Int))
    (next : Option Nat) (key rowIndex : Int) (allocs : Nat) :
    SameOrFailed mem allocs (insertIntoLeaf allocated address es next key rowIndex allocs)
      (insertIntoLeaf mem address es next key rowIndex allocs) := by
  rcases hsearch : leafSearch es key with ⟨_ | _, slot⟩
  · by_cases hroom : es.length < maxKeys
    · simp only [insertIntoLeaf, hsearch, hroom, if_true]
      exact .noCall rfl
    · simp only [insertIntoLeaf, hsearch, hroom, if_false, allocated_eq, if_true]
      exact .oneCall rfl rfl
  · simp only [insertIntoLeaf, hsearch]
    exact .noCall rfl

theorem absorbSplit_nodes (mem : Nat → Bool) (ks : List Int) (cs : List BPTreeNode) (child : Nat)
    (promoted : Int) (right : BPTreeNode) (allocs : Nat) :
    SameOrFailed mem allocs (absorbSplit allocated ks cs child promoted right allocs)
      (absorbSplit mem ks cs child promoted right allocs) := by
  by_cases hroom : ks.length < maxKeys
  · simp only [absorbSplit, hroom, if_true]
    exact .noCall rfl
  · simp only [absorbSplit, hroom, if_false, allocated_eq, if_true]
    exact .oneCall rfl rfl

theorem insertRecursive_nodes {isRoot : Bool} {h : Nat} {lo hi key : Int} {n : BPTreeNode}
    (hn : Subtree isRoot h lo hi n) (hlo : lo ≤ key) (hhi : key < hi) (mem : Nat → Bool)
    (rowIndex : Int) (allocs : Nat) :
    ∃ r r', insertRecursive allocated key rowIndex n allocs = some r ∧
      insertRecursive mem key rowIndex n allocs = some r' ∧ SameOrFailed mem allocs r r' := by
  induction h generalizing isRoot lo hi n with
  | zero =>
    cases n with
    | branch ks cs => exact hn.elim
    | leaf address es next =>
      simp only [insertRecursive]
      exact ⟨_, _, rfl, rfl, insertIntoLeaf_nodes mem address es next key rowIndex allocs⟩
  | succ h ih =>
    cases n with
    | leaf address es next => exact hn.elim
    | branch ks cs =>
      obtain ⟨before, left, a, c, b, after, right, f, -, hget, -⟩ := descend hn.1 hlo hhi
      obtain ⟨⟨c₁, allocs₁, report⟩, ⟨c₂, allocs₂, report₂⟩, hr, hr', hle, hsame⟩ :=
        ih f.here f.low f.high
      simp only [insertRecursive, insertIntoChild_eq, hget, Option.bind_some, hr, hr']
      rcases hsame with ⟨heq, hmem⟩ | ⟨hfailed, i, hlo, hhi, hcall⟩
      · cases heq
        cases report with
        | failed error => exact ⟨_, _, rfl, rfl, hle, .inl ⟨rfl, hmem⟩⟩
        | done => exact ⟨_, _, rfl, rfl, hle, .inl ⟨rfl, hmem⟩⟩
        | split promoted right' =>
          exact ⟨_, _, rfl, rfl, (absorbSplit_nodes mem ks _ _ promoted right' allocs₁).after hle hmem⟩
      · obtain rfl : report₂ = .failed nodeAllocationFailed := hfailed
        cases report with
        | failed error => exact ⟨_, _, rfl, rfl, hle, .inr ⟨rfl, i, hlo, hhi, hcall⟩⟩
        | done => exact ⟨_, _, rfl, rfl, hle, .inr ⟨rfl, i, hlo, hhi, hcall⟩⟩
        | split promoted right' =>
          have hmore := (absorbSplit_nodes mem ks (cs.set (childIndex ks key) c₁) (childIndex ks key)
            promoted right' allocs₁).1
          exact ⟨_, _, rfl, rfl, Nat.le_trans hle hmore,
            .inr ⟨rfl, i, hlo, Nat.lt_of_lt_of_le hhi hmore, hcall⟩⟩

/-- How many nodes an insertion allocates when it gets all it asks for. -/
def nodesNeeded (tree : BPTree) (key rowIndex : Int) : Nat :=
  match bptreeInsert allocated tree key rowIndex with
  | none => 0
  | some (tree', _) => tree'.allocs - tree.allocs

/-- A new key goes into the tree exactly if every node needed for it is allocated;
otherwise the insertion returns 0. -/
theorem insert_new_nodes {tree : BPTree} {m : Int → Option Int} (ht : Represents tree m)
    {key : Int} (hk : m key = none) (rowIndex : Int) (mem : Nat → Bool) :
    ∃ tree', bptreeInsert allocated tree key rowIndex = some (tree', .ok ()) ∧
      (Represents tree' fun k => if k = key then some rowIndex else m k) ∧
      ((∀ i < nodesNeeded tree key rowIndex, mem (tree.allocs + i) = true) ∧
          bptreeInsert mem tree key rowIndex = some (tree', .ok ()) ∨
        (∃ i < nodesNeeded tree key rowIndex, mem (tree.allocs + i) = false) ∧
          ∃ broken e, bptreeInsert mem tree key rowIndex = some (broken, .error e)) := by
  obtain ⟨tree', hins, hrep⟩ := insert_new ht hk rowIndex
  refine ⟨tree', hins, hrep, ?_⟩
  have hneeded : nodesNeeded tree key rowIndex = tree'.allocs - tree.allocs := by
    simp only [nodesNeeded, hins]
  rw [hneeded]
  obtain ⟨root, allocs⟩ := tree
  cases root with
  | none =>
    simp only [bptreeInsert, allocated_eq, if_true] at hins
    cases hins
    cases hmem : mem allocs with
    | true => simp [bptreeInsert, hmem]
    | false => simp [bptreeInsert, hmem]
  | some root =>
    obtain ⟨⟨h, _, _, hn⟩, -⟩ := ht
    obtain ⟨lo, hi, hn, hlo, hhi⟩ := subtree_around hn key
    obtain ⟨⟨n, allocs₁, report⟩, ⟨n', allocs', report'⟩, hr, hr', hle, hsame⟩ :=
      insertRecursive_nodes hn hlo hhi mem rowIndex allocs
    dsimp only at hle hsame ⊢
    have hmore : allocs₁ ≤ tree'.allocs := by
      cases report with
      | failed error => simp [bptreeInsert, hr] at hins
      | done =>
        simp only [bptreeInsert, hr] at hins
        cases hins
        exact Nat.le_refl _
      | split promoted right =>
        simp only [bptreeInsert, hr, allocated_eq, if_true] at hins
        cases hins
        exact Nat.le_succ _
    rcases hsame with ⟨heq, hmem⟩ | ⟨hfailed, i, hfrom, hto, hcall⟩
    · cases heq
      cases report with
      | failed error => simp [bptreeInsert, hr] at hins
      | done =>
        simp only [bptreeInsert, hr] at hins
        cases hins
        dsimp only
        refine .inl ⟨fun i hi => hmem _ (by omega) (by omega), ?_⟩
        simp only [bptreeInsert, hr']
      | split promoted right =>
        simp only [bptreeInsert, hr, allocated_eq, if_true] at hins
        cases hins
        dsimp only
        -- The call for a new root comes behind those of the descent.
        cases hroot : mem allocs₁ with
        | true =>
          refine .inl ⟨fun i hi => ?_, by simp only [bptreeInsert, hr', hroot, if_true]⟩
          by_cases hlast : allocs + i = allocs₁
          · rw [hlast, hroot]
          · exact hmem _ (by omega) (by omega)
        | false =>
          refine .inr ⟨⟨allocs₁ - allocs, by omega, ?_⟩, ⟨some n, allocs₁ + 1⟩,
            nodeAllocationFailed, by simp [bptreeInsert, hr', hroot]⟩
          rw [show allocs + (allocs₁ - allocs) = allocs₁ by omega, hroot]
    · obtain rfl : report' = .failed nodeAllocationFailed := hfailed
      refine .inr ⟨⟨i - allocs, by omega, ?_⟩, ⟨some n', allocs'⟩, nodeAllocationFailed, ?_⟩
      · rw [show allocs + (i - allocs) = i by omega, hcall]
      · simp only [bptreeInsert, hr']

/-! ## What is left of the tree -/

theorem subtree_asRoot {isRoot : Bool} {h : Nat} {lo hi : Int} {n : BPTreeNode}
    (hn : Subtree isRoot h lo hi n) : Subtree true h lo hi n := by
  cases isRoot with
  | true => exact hn
  | false =>
    cases h with
    | zero =>
      cases n with
      | branch ks cs => exact hn.elim
      | leaf address es next =>
        obtain ⟨hs, hin, hmin, hmax⟩ := hn
        exact ⟨hs, hin, Nat.le_trans (by decide) hmin, hmax⟩
    | succ h =>
      cases n with
      | leaf address es next => exact hn.elim
      | branch ks cs =>
        obtain ⟨hsep, hmin, hmax⟩ := hn
        exact ⟨hsep, Nat.le_trans (by decide) hmin, hmax⟩

/-- A subtree stands for the map of its entries. -/
theorem represents_entries {h : Nat} {lo hi : Int} {root : BPTreeNode}
    (hn : Subtree true h lo hi root) (allocs : Nat) :
    Represents ⟨some root, allocs⟩ fun key => root.entries.lookup key := by
  refine ⟨⟨h, lo, hi, hn⟩, fun key row => ?_⟩
  rw [List.lookup_eq_some_iff]
  constructor
  · intro hmem
    obtain ⟨before, after, hsplit⟩ := List.append_of_mem hmem
    refine ⟨before, after, hsplit, fun e he => ?_⟩
    have hincreasing := (subtree_entries hn).1
    rw [hsplit] at hincreasing
    have hless := (List.pairwise_append.mp hincreasing).2.2 e he (key, row) List.mem_cons_self
    simpa using Ne.symm (Int.ne_of_lt hless)
  · rintro ⟨before, after, hsplit, -⟩
    rw [hsplit]
    exact List.mem_append_right _ List.mem_cons_self

theorem insertIntoLeaf_failed {mem : Nat → Bool} {address : Nat} {es : List (Int × Int)}
    {next : Option Nat} {key rowIndex : Int} {allocs : Nat} {e : SqlError}
    (h : (insertIntoLeaf mem address es next key rowIndex allocs).report = .failed e) :
    (insertIntoLeaf mem address es next key rowIndex allocs).node = .leaf address es next := by
  rcases hsearch : leafSearch es key with ⟨_ | _, slot⟩
  · by_cases hroom : es.length < maxKeys
    · simp [insertIntoLeaf, hsearch, hroom] at h
    · cases hmem : mem allocs with
      | true => simp [insertIntoLeaf, hsearch, hroom, hmem] at h
      | false => simp [insertIntoLeaf, hsearch, hroom, hmem]
  · simp [insertIntoLeaf, hsearch]

theorem absorbSplit_failed {mem : Nat → Bool} {ks : List Int} {cs : List BPTreeNode} {child : Nat}
    {promoted : Int} {right : BPTreeNode} {allocs : Nat} {e : SqlError}
    (h : (absorbSplit mem ks cs child promoted right allocs).report = .failed e) :
    (absorbSplit mem ks cs child promoted right allocs).node = .branch ks cs := by
  by_cases hroom : ks.length < maxKeys
  · simp [absorbSplit, hroom] at h
  · cases hmem : mem allocs with
    | true => simp [absorbSplit, hroom, hmem] at h
    | false => simp [absorbSplit, hroom, hmem]

/-- An insertion that fails for want of a node may lose entries, but what it leaves is
a subtree over the same bounds. -/
theorem insertRecursive_failed {isRoot : Bool} {h : Nat} {lo hi key : Int} {n : BPTreeNode}
    (hn : Subtree isRoot h lo hi n) (hlo : lo ≤ key) (hhi : key < hi)
    (hk : ∀ r, (key, r) ∉ n.entries) {mem : Nat → Bool} {rowIndex : Int} {allocs : Nat}
    {r : InsertResult} {e : SqlError} (hr : insertRecursive mem key rowIndex n allocs = some r)
    (hfailed : r.report = .failed e) : Subtree isRoot h lo hi r.node := by
  induction h generalizing isRoot lo hi n r with
  | zero =>
    cases n with
    | branch ks cs => exact hn.elim
    | leaf address es next =>
      simp only [insertRecursive, Option.some.injEq] at hr
      subst hr
      rw [insertIntoLeaf_failed hfailed]
      exact hn
  | succ h ih =>
    cases n with
    | leaf address es next => exact hn.elim
    | branch ks cs =>
      obtain ⟨hsep, hmin, hmax⟩ := hn
      obtain ⟨before, left, a, c, b, after, right, f, hindex, hget, honly⟩ :=
        descend hsep hlo hhi
      rw [entries_branch] at hk
      have hchild : ∀ r, (key, r) ∉ c.entries := fun r hr => hk r ((honly r).mpr hr)
      obtain ⟨rc, ⟨c', allocs', report⟩, hrc, hrc', -, hsame⟩ :=
        insertRecursive_nodes f.here f.low f.high mem rowIndex allocs
      have hset : cs.set (childIndex ks key) c' = left ++ c' :: right := by
        rw [hindex, f.items]
        simp
      have hplug : Subtree false h a b c' →
          Subtree isRoot (h + 1) lo hi (.branch ks (left ++ c' :: right)) := by
        intro hc'
        have := f.plug (.one hc')
        exact ⟨by simpa [f.seps] using this, hmin, hmax⟩
      simp only [insertRecursive, insertIntoChild_eq, hget, Option.bind_some, hrc', hset] at hr
      cases report with
      | failed error =>
        cases hr
        cases hfailed
        exact hplug (ih f.here f.low f.high hchild hrc' rfl)
      | done =>
        cases hr
        cases hfailed
      | split promoted right' =>
        cases hr
        rw [absorbSplit_failed hfailed]
        -- The child was split, so none of its own calls failed; its right half is lost.
        obtain ⟨rfl, -⟩ := hsame.resolve_right fun h => by cases h.1
        obtain ⟨grown, hgrown, hshape⟩ :=
          insertRecursive_grows f.here f.low f.high hchild rowIndex allocs
        cases hrc.symm.trans hgrown
        cases hshape with
        | split hleft hright => exact hplug (subtree_widen hleft (Int.le_refl a) (subtree_le _ _ _ hright))

/-- Whatever fails, the index stands for some map afterwards. -/
theorem bptreeInsert_represents {tree tree' : BPTree} {m : Int → Option Int}
    (ht : Represents tree m) {mem : Nat → Bool} {key rowIndex : Int} {out : Except SqlError Unit}
    (h : bptreeInsert mem tree key rowIndex = some (tree', out)) : ∃ m', Represents tree' m' := by
  cases hk : m key with
  | some row =>
    rw [insert_duplicate ht hk] at h
    cases h
    exact ⟨m, ht⟩
  | none =>
    obtain ⟨grown, -, hrep, ⟨-, hins⟩ | ⟨-, broken, e, hins⟩⟩ := insert_new_nodes ht hk rowIndex mem
    · cases h.symm.trans hins
      exact ⟨_, hrep⟩
    · cases h.symm.trans hins
      obtain ⟨root, allocs⟩ := tree
      cases root with
      | none =>
        unfold bptreeInsert at hins
        simp only at hins
        split at hins
        · cases hins
        · cases hins
          exact ⟨fun _ => none, fun _ => rfl⟩
      | some root =>
        obtain ⟨⟨height, _, _, hn⟩, hm⟩ := ht
        obtain ⟨lo, hi, hn, hlo, hhi⟩ := subtree_around hn key
        have habsent : ∀ r, (key, r) ∉ root.entries := by
          intro r hr
          rw [(hm key r).mp hr] at hk
          cases hk
        obtain ⟨r, ⟨n', allocs', report⟩, hr, hr', -, hsame⟩ :=
          insertRecursive_nodes hn hlo hhi mem rowIndex allocs
        simp only [bptreeInsert, hr'] at hins
        cases report with
        | failed error =>
          cases hins
          exact ⟨_, represents_entries (insertRecursive_failed hn hlo hhi habsent hr' rfl) _⟩
        | done => cases hins
        | split promoted right =>
          simp only at hins
          split at hins
          · cases hins
          · cases hins
            obtain ⟨rfl, -⟩ := hsame.resolve_right fun h => by cases h.1
            obtain ⟨grown, hgrown, hshape⟩ :=
              insertRecursive_grows hn hlo hhi habsent rowIndex allocs
            cases hr.symm.trans hgrown
            cases hshape with
            | split hleft hright => exact ⟨_, represents_entries (subtree_asRoot hleft) _⟩

end MiniSql.Index
