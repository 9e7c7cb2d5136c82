import MiniSql.Index.NodeFailures

/-!
# What a failed insertion loses

A split is complete before the node above asks for a node of its own, and nothing undoes
it: when that allocation fails, the right half hangs nowhere. An insertion that returns 0
therefore leaves the keys as they were exactly if it fails at the first node it asks for.
-/

namespace MiniSql.Index

/-! ## The nodes an insertion asks for -/

mutual

/-- Whether every node on the path to a key is full, and how many are full at its lower
end without a gap. -/
def fullBelow (key : Int) : BPTreeNode → Bool × Nat
  | .leaf _ entries _ => if entries.length < maxKeys then (false, 0) else (true, 1)
  | .branch keys children =>
    match fullBelowChild key children (childIndex keys key) with
    | (true, count) => if keys.length < maxKeys then (false, count) else (true, count + 1)
    | (false, count) => (false, count)

/-- `fullBelow` in the child at the given index. -/
def fullBelowChild (key : Int) : List BPTreeNode → Nat → Bool × Nat
  | [], _ => (false, 0)
  | c :: _, 0 => fullBelow key c
  | _ :: cs, i + 1 => fullBelowChild key cs i

end

/-- A node for each full one at the end of the path, and a root above a full path. -/
def nodesAsked (tree : BPTree) (key : Int) : Nat :=
  match tree.root with
  | none => 1
  | some root => (fullBelow key root).2 + if (fullBelow key root).1 then 1 else 0

theorem fullBelowChild_eq {key : Int} {cs : List BPTreeNode} {i : Nat} {c : BPTreeNode}
    (h : cs[i]? = some c) : fullBelowChild key cs i = fullBelow key c := by
  induction cs generalizing i with
  | nil => cases h
  | cons d cs ih =>
    cases i with
    | zero =>
      obtain rfl : d = c := by simpa using h
      simp only [fullBelowChild]
    | succ i =>
      simp only [fullBelowChild]
      exact ih (by simpa using h)

/-- What `fullBelow` tells of an insertion that gets all its nodes. -/
structure Asks (key : Int) (n : BPTreeNode) (allocs : Nat) (r : InsertResult) : Prop where
  allocs : r.allocs = allocs + (fullBelow key n).2
  whole : (fullBelow key n).1 = true ↔ ∃ promoted right, r.report = .split promoted right
  some : (fullBelow key n).1 = true → 0 < (fullBelow key n).2

theorem insertIntoLeaf_asks {address : Nat} {es : List (Int × Int)} {next : Option Nat} {key : Int}
    (hs : Increasing es) (hk : ∀ r, (key, r) ∉ es) (rowIndex : Int) (allocs : Nat) :
    Asks key (.leaf address es next) allocs
      (insertIntoLeaf allocated address es next key rowIndex allocs) := by
  rcases leafSearch_spec hs key with ⟨i, r, -, hr⟩ | ⟨slot, hsearch, -⟩
  · exact absurd (List.mem_of_getElem? hr) (hk r)
  · by_cases hroom : es.length < maxKeys
    · constructor <;> simp [insertIntoLeaf, hsearch, hroom, fullBelow]
    · constructor <;> simp [insertIntoLeaf, hsearch, hroom, fullBelow]

theorem insertRecursive_asks {isRoot : Bool} {h : Nat} {lo hi key : Int} {n : BPTreeNode}
    (hn : Subtree isRoot h lo hi n) (hlo : lo ≤ key) (hhi : key < hi)
    (hk : ∀ r, (key, r) ∉ n.entries) (rowIndex : Int) (allocs : Nat) :
    ∃ r, insertRecursive allocated key rowIndex n allocs = some r ∧ Asks key n allocs r := by
  induction h generalizing isRoot lo hi n with
  | zero =>
    cases n with
    | branch ks cs => exact hn.elim
    | leaf address es next =>
      rw [entries_leaf] at hk
      simp only [insertRecursive]
      exact ⟨_, rfl, insertIntoLeaf_asks hn.1 hk rowIndex allocs⟩
  | succ h ih =>
    cases n with
    | leaf address es next => exact hn.elim
    | branch ks cs =>
      obtain ⟨before, left, a, c, b, after, right, f, -, hget, honly⟩ := descend hn.1 hlo hhi
      rw [entries_branch] at hk
      have hchild : ∀ r, (key, r) ∉ c.entries := fun r hr => hk r ((honly r).mpr hr)
      obtain ⟨⟨c', allocs', report⟩, hr, hallocs, hwhole, hsome⟩ := ih f.here f.low f.high hchild
      rcases hc : fullBelow key c with ⟨whole, count⟩
      simp only [hc] at hallocs hwhole hsome
      subst hallocs
      simp only [insertRecursive, insertIntoChild_eq, hget, Option.bind_some, hr]
      cases report with
      | failed error =>
        obtain rfl : whole = false := by simpa using hwhole
        refine ⟨_, rfl, ?_⟩
        constructor <;> simp [fullBelow, fullBelowChild_eq hget, hc]
      | done =>
        obtain rfl : whole = false := by simpa using hwhole
        refine ⟨_, rfl, ?_⟩
        constructor <;> simp [fullBelow, fullBelowChild_eq hget, hc]
      | split promoted right' =>
        obtain rfl : whole = true := hwhole.mpr ⟨_, _, rfl⟩
        refine ⟨_, rfl, ?_⟩
        by_cases hroom : ks.length < maxKeys
        · constructor <;> simp [absorbSplit, fullBelow, fullBelowChild_eq hget, hc, hroom]
        · constructor <;> simp [absorbSplit, fullBelow, fullBelowChild_eq hget, hc, hroom, Nat.add_assoc]

theorem nodesNeeded_eq {tree : BPTree} {m : Int → Option Int} (ht : Represents tree m)
    {key : Int} (hk : m key = none) (rowIndex : Int) :
    nodesNeeded tree key rowIndex = nodesAsked tree key := by
  obtain ⟨root, allocs⟩ := tree
  cases root with
  | none => simp [nodesNeeded, nodesAsked, bptreeInsert]
  | some root =>
    obtain ⟨⟨h, _, _, hn⟩, hm⟩ := ht
    obtain ⟨lo, hi, hn, hlo, hhi⟩ := subtree_around hn key
    have habsent : ∀ r, (key, r) ∉ root.entries := by
      intro r hr
      rw [(hm key r).mp hr] at hk
      cases hk
    obtain ⟨⟨n, allocs', report⟩, hr, hallocs, hwhole, -⟩ :=
      insertRecursive_asks hn hlo hhi habsent rowIndex allocs
    dsimp only at hallocs hwhole
    simp only [nodesNeeded, nodesAsked, bptreeInsert, hr]
    cases report with
    | failed error =>
      have hnot : (fullBelow key root).1 = false := by simpa using hwhole
      simp [hnot, hallocs]
    | done =>
      have hnot : (fullBelow key root).1 = false := by simpa using hwhole
      simp [hnot, hallocs]
    | split promoted right =>
      have hsplit : (fullBelow key root).1 = true := hwhole.mpr ⟨_, _, rfl⟩
      simp [hsplit, hallocs]
      omega

/-! ## What hangs nowhere -/

/-- A node below the root has more than one entry. -/
theorem subtree_two {h : Nat} {lo hi : Int} {n : BPTreeNode} (hn : Subtree false h lo hi n) :
    ∃ x y rest, n.entries = x :: y :: rest := by
  induction h generalizing lo hi n with
  | zero =>
    cases n with
    | branch ks cs => exact hn.elim
    | leaf address es next =>
      obtain ⟨-, -, hmin, -⟩ := hn
      rw [entries_leaf]
      match es, hmin with
      | x :: y :: rest, _ => exact ⟨x, y, rest, rfl⟩
  | succ h ih =>
    cases n with
    | leaf address es next => exact hn.elim
    | branch ks cs =>
      rw [entries_branch]
      cases hn.1 with
      | one hc =>
        obtain ⟨x, y, rest, hxy⟩ := ih hc
        rw [List.flatMap_cons, hxy]
        exact ⟨x, y, _, rfl⟩
      | cons hc hr =>
        obtain ⟨x, y, rest, hxy⟩ := ih hc
        rw [List.flatMap_cons, hxy]
        exact ⟨x, y, _, rfl⟩

/-- The right half of a split took an old entry with it. -/
theorem split_takes {h : Nat} {lo hi promoted : Int} {n right : BPTreeNode}
    {old : List (Int × Int)} {pair : Int × Int} (hleft : Subtree false h lo promoted n)
    (hright : Subtree false h promoted hi right)
    (hgain : (n.entries ++ right.entries).Perm (pair :: old)) : ∃ e ∈ old, e ∉ n.entries := by
  obtain ⟨x, y, rest, hxy⟩ := subtree_two hright
  have hincreasing := (subtree_entries hright).1
  rw [hxy] at hincreasing
  have hless : x.1 < y.1 := (List.pairwise_cons.mp hincreasing).1 y List.mem_cons_self
  have htaken : ∀ e ∈ right.entries, e ≠ pair → ∃ e ∈ old, e ∉ n.entries := by
    intro e he hne
    have hmem := hgain.mem_iff.mp (List.mem_append_right n.entries he)
    refine ⟨e, (List.mem_cons.mp hmem).resolve_left hne, fun hin => ?_⟩
    have hlow := (subtree_entries hright).2 e he
    have hhigh := (subtree_entries hleft).2 e hin
    omega
  by_cases hx : x = pair
  · apply htaken y (by simp [hxy])
    rintro rfl
    rw [hx] at hless
    exact absurd hless (Int.lt_irrefl _)
  · exact htaken x (by simp [hxy]) hx

/-- What a child lost, the node above it lost. -/
theorem branch_loses {isRoot : Bool} {h : Nat} {lo hi : Int} {ks : List Int}
    {left right : List BPTreeNode} {c c' : BPTreeNode} {e : Int × Int}
    (hn : Subtree isRoot h lo hi (.branch ks (left ++ c :: right))) (he : e ∈ c.entries)
    (hlost : e ∉ c'.entries) :
    e ∈ (BPTreeNode.branch ks (left ++ c :: right)).entries ∧
      e ∉ (BPTreeNode.branch ks (left ++ c' :: right)).entries := by
  have hincreasing := (subtree_entries hn).1
  rw [entries_branch, List.flatMap_append, List.flatMap_cons] at hincreasing ⊢
  obtain ⟨-, hrest, hfront⟩ := List.pairwise_append.mp hincreasing
  obtain ⟨-, -, hback⟩ := List.pairwise_append.mp hrest
  constructor
  · exact List.mem_append_right _ (List.mem_append_left _ he)
  · rw [entries_branch, List.flatMap_append, List.flatMap_cons, List.mem_append, List.mem_append]
    rintro (hin | hin | hin)
    · exact absurd (hfront e hin e (List.mem_append_left _ he)) (Int.lt_irrefl _)
    · exact hlost hin
    · exact absurd (hback e he e hin) (Int.lt_irrefl _)

theorem insertIntoLeaf_unallocated {mem : Nat → Bool} {address : Nat} {es : List (Int × Int)}
    {next : Option Nat} {key rowIndex : Int} {allocs : Nat} {e : SqlError} (hs : Increasing es)
    (hk : ∀ r, (key, r) ∉ es)
    (h : (insertIntoLeaf mem address es next key rowIndex allocs).report = .failed e) :
    mem allocs = false := by
  rcases leafSearch_spec hs key with ⟨i, r, -, hr⟩ | ⟨slot, hsearch, -⟩
  · exact absurd (List.mem_of_getElem? hr) (hk r)
  · by_cases hroom : es.length < maxKeys
    · simp [insertIntoLeaf, hsearch, hroom] at h
    · cases hmem : mem allocs with
      | true => simp [insertIntoLeaf, hsearch, hroom, hmem] at h
      | false => rfl

/-- An insertion that fails at its first node changes nothing; one that fails later has
lost an entry. -/
theorem insertRecursive_loses {isRoot : Bool} {h : Nat} {lo hi key : Int} {n : BPTreeNode}
    (hn : Subtree isRoot h lo hi n) (hlo : lo ≤ key) (hhi : key < hi)
    (hk : ∀ r, (key, r) ∉ n.entries) {mem : Nat → Bool} {rowIndex : Int} {allocs : Nat}
    {r : InsertResult} {e : SqlError} (hr : insertRecursive mem key rowIndex n allocs = some r)
    (hfailed : r.report = .failed e) :
    mem allocs = false ∧ r.node = n ∨
      mem allocs = true ∧ ∃ x ∈ n.entries, x ∉ r.node.entries := by
  induction h generalizing isRoot lo hi n r with
  | zero =>
    cases n with
    | branch ks cs => exact hn.elim
    | leaf address es next =>
      rw [entries_leaf] at hk
      simp only [insertRecursive, Option.some.injEq] at hr
      subst hr
      exact .inl ⟨insertIntoLeaf_unallocated hn.1 hk hfailed, insertIntoLeaf_failed hfailed⟩
  | succ h ih =>
    cases n with
    | leaf address es next => exact hn.elim
    | branch ks cs =>
      obtain ⟨before, left, a, c, b, after, right, f, hindex, hget, honly⟩ :=
        descend hn.1 hlo hhi
      obtain rfl : cs = left ++ c :: right := f.items
      rw [entries_branch] at hk
      have hchild : ∀ r, (key, r) ∉ c.entries := fun r hr => hk r ((honly r).mpr hr)
      obtain ⟨rc, ⟨c', allocs', report⟩, hrc, hrc', -, hsame⟩ :=
        insertRecursive_nodes f.here f.low f.high mem rowIndex allocs
      have hset : (left ++ c :: right).set (childIndex ks key) c' = left ++ c' :: right := by
        rw [hindex]
        simp
      simp only [insertRecursive, insertIntoChild_eq, hget, Option.bind_some, hrc', hset] at hr
      cases report with
      | done =>
        cases hr
        cases hfailed
      | failed error =>
        cases hr
        cases hfailed
        obtain ⟨hmem, rfl⟩ | ⟨hmem, x, hx, hlost⟩ := ih f.here f.low f.high hchild hrc' rfl
        · exact .inl ⟨hmem, rfl⟩
        · obtain ⟨hin, hout⟩ := branch_loses hn hx hlost
          exact .inr ⟨hmem, x, hin, hout⟩
      | split promoted right' =>
        cases hr
        rw [absorbSplit_failed hfailed]
        -- The child was split: its calls succeeded, the first of all among them.
        obtain ⟨rfl, hcalls⟩ := hsame.resolve_right fun h => by cases h.1
        obtain ⟨grown, hgrown, hshape⟩ :=
          insertRecursive_grows f.here f.low f.high hchild rowIndex allocs
        obtain ⟨asked, hasked, hallocs, hwhole, hsome⟩ :=
          insertRecursive_asks f.here f.low f.high hchild rowIndex allocs
        cases hrc.symm.trans hgrown
        cases hrc.symm.trans hasked
        have hfirst : allocs < allocs' := by
          have := hsome (hwhole.mpr ⟨_, _, rfl⟩)
          dsimp only at hallocs
          omega
        cases hshape with
        | split hleft hright hgain =>
          obtain ⟨x, hx, hlost⟩ := split_takes hleft hright hgain
          obtain ⟨hin, hout⟩ := branch_loses hn hx hlost
          exact .inr ⟨hcalls allocs le_rfl hfirst, x, hin, hout⟩

/-! ## Whole trees -/

/-- An insertion comes to an end, and if it returns 0 every search answers as before. -/
def LosesNothing (mem : Nat → Bool) (tree : BPTree) (key rowIndex : Int) : Prop :=
  ∃ tree' out, bptreeInsert mem tree key rowIndex = some (tree', out) ∧
    (out ≠ .ok () → ∀ k, bptreeSearch tree' k = bptreeSearch tree k)

theorem search_differs {root root' : BPTreeNode} {allocs allocs' : Nat} {m m' : Int → Option Int}
    (ht : Represents ⟨some root, allocs⟩ m) (ht' : Represents ⟨some root', allocs'⟩ m')
    {e : Int × Int} (he : e ∈ root.entries) (hlost : e ∉ root'.entries) :
    bptreeSearch ⟨some root', allocs'⟩ e.1 ≠ bptreeSearch ⟨some root, allocs⟩ e.1 := by
  rw [search_represents ht, search_represents ht', (ht.2 e.1 e.2).mp he]
  intro hsame
  apply hlost
  apply (ht'.2 e.1 e.2).mpr
  cases hm : m' e.1 with
  | none => simp [hm, found] at hsame
  | some r => simpa [hm, found] using hsame

/-- A failed insertion of a new key keeps all keys exactly if its first node failed. -/
theorem insert_failed_iff {tree tree' : BPTree} {m : Int → Option Int} (ht : Represents tree m)
    {key : Int} (hk : m key = none) {mem : Nat → Bool} {rowIndex : Int} {e : SqlError}
    (h : bptreeInsert mem tree key rowIndex = some (tree', .error e)) :
    (∀ k, bptreeSearch tree' k = bptreeSearch tree k) ↔ mem tree.allocs = false := by
  obtain ⟨m', ht'⟩ := bptreeInsert_represents ht h
  obtain ⟨root, allocs⟩ := tree
  cases root with
  | none =>
    cases hmem : mem allocs with
    | true => simp [bptreeInsert, hmem] at h
    | false =>
      simp only [bptreeInsert, hmem, Bool.false_eq_true, if_false, Option.some.injEq,
        Prod.mk.injEq] at h
      obtain ⟨rfl, -⟩ := h
      simp [bptreeSearch]
  | some root =>
    have hwhole := ht
    obtain ⟨⟨height, _, _, hn⟩, hm⟩ := ht
    obtain ⟨lo, hi, hn, hlo, hhi⟩ := subtree_around hn key
    have habsent : ∀ r, (key, r) ∉ root.entries := by
      intro r hr
      rw [(hm key r).mp hr] at hk
      cases hk
    obtain ⟨r, ⟨n', allocs', report⟩, hr, hr', -, hsame⟩ :=
      insertRecursive_nodes hn hlo hhi mem rowIndex allocs
    have hlater : ∀ {allocs'}, tree' = ⟨some n', allocs'⟩ → mem allocs = true →
        (∃ x ∈ root.entries, x ∉ n'.entries) →
        ((∀ k, bptreeSearch tree' k = bptreeSearch ⟨some root, allocs⟩ k) ↔ mem allocs = false) := by
      rintro allocs' rfl hmem ⟨x, hx, hlost⟩
      constructor
      · intro hall
        exact absurd (hall x.1) (search_differs hwhole ht' hx hlost)
      · intro hnot
        cases hmem.symm.trans hnot
    simp only [bptreeInsert, hr'] at h
    cases report with
    | done => cases h
    | failed error =>
      simp only [Option.some.injEq, Prod.mk.injEq] at h
      obtain ⟨hmem, hsameNode⟩ | ⟨hmem, hlost⟩ := insertRecursive_loses hn hlo hhi habsent hr' rfl
      · obtain rfl : n' = root := hsameNode
        simp [← h.1, bptreeSearch, hmem]
      · exact hlater h.1.symm hmem hlost
    | split promoted right =>
      cases hroot : mem allocs' with
      | true => simp [hroot] at h
      | false =>
        simp only [hroot, Bool.false_eq_true, if_false, Option.some.injEq, Prod.mk.injEq] at h
        obtain ⟨rfl, hcalls⟩ := hsame.resolve_right fun h => by cases h.1
        obtain ⟨grown, hgrown, hshape⟩ := insertRecursive_grows hn hlo hhi habsent rowIndex allocs
        obtain ⟨asked, hasked, hallocs, hsplit, hsome⟩ :=
          insertRecursive_asks hn hlo hhi habsent rowIndex allocs
        cases hr.symm.trans hgrown
        cases hr.symm.trans hasked
        have hfirst : allocs < allocs' := by
          have := hsome (hsplit.mpr ⟨_, _, rfl⟩)
          dsimp only at hallocs
          omega
        cases hshape with
        | split hleft hright hgain =>
          exact hlater h.1.symm (hcalls allocs le_rfl hfirst) (split_takes hleft hright hgain)

/-- **When a failed insertion loses nothing.** For every tree that satisfies the invariant,
every key and row and every pattern of failures, a return of 0 leaves all searches as they
were if and only if the key is there already, the first node asked for cannot be had, or
all nodes asked for can. -/
theorem failed_insert_iff {tree : BPTree} {m : Int → Option Int} (ht : Represents tree m)
    (key rowIndex : Int) (mem : Nat → Bool) :
    LosesNothing mem tree key rowIndex ↔
      m key ≠ none ∨ mem tree.allocs = false ∨
        ∀ i < nodesAsked tree key, mem (tree.allocs + i) = true := by
  cases hk : m key with
  | some row =>
    apply iff_of_true
    · exact ⟨_, _, insert_duplicate ht hk mem rowIndex, fun _ _ => rfl⟩
    · exact .inl (by simp)
  | none =>
    rw [← nodesNeeded_eq ht hk rowIndex]
    obtain ⟨grown, -, -, ⟨hall, hins⟩ | ⟨⟨i, hi, hcall⟩, broken, e, hins⟩⟩ :=
      insert_new_nodes ht hk rowIndex mem
    · apply iff_of_true
      · exact ⟨grown, _, hins, fun hnot => absurd rfl hnot⟩
      · exact .inr (.inr hall)
    · have hiff := insert_failed_iff ht hk hins
      constructor
      · rintro ⟨tree', out, hout, hsearch⟩
        cases hins.symm.trans hout
        exact .inr (.inl (hiff.mp (hsearch (by simp))))
      · rintro (hthere | hfirst | hall)
        · exact absurd rfl hthere
        · exact ⟨broken, _, hins, fun _ => hiff.mpr hfirst⟩
        · cases hcall.symm.trans (hall i hi)

/-- A root that is a full leaf. -/
def fullLeaf : BPTree := ⟨some (.leaf 0 ((List.range 99).map fun i => (Int.ofNat i, Int.ofNat i)) none), 1⟩

theorem fullLeaf_subtree : ∃ root, fullLeaf.root = some root ∧ Subtree true 0 0 99 root := by
  refine ⟨_, rfl, ?_, ?_, ?_, ?_⟩ <;> decide +kernel

theorem failed_insert_fullLeaf : LosesNothing (fun _ => false) fullLeaf 99 99 := by
  obtain ⟨root, hroot, hn⟩ := fullLeaf_subtree
  have hrep : Represents ⟨some root, 1⟩ _ := represents_entries hn 1
  cases hroot
  exact (failed_insert_iff hrep 99 99 fun _ => false).mpr (.inr (.inl rfl))

/-- The leaf is split, the new root cannot be had: key 60 is gone. -/
theorem split_without_root : ¬ LosesNothing (fun n => n == 1) fullLeaf 99 99 := by
  rintro ⟨tree', out, hins, hkept⟩
  have heval : (bptreeInsert (fun n => n == 1) fullLeaf 99 99).map
      (fun r => (r.2.isOk, bptreeSearch r.1 60, bptreeSearch fullLeaf 60)) =
        some (false, some (false, -1), some (true, 60)) := by
    decide +kernel
  simp only [hins, Option.map_some, Option.some.injEq, Prod.mk.injEq] at heval
  obtain ⟨hout, hafter, hbefore⟩ := heval
  have hsame := hkept (by rintro rfl; cases hout) 60
  rw [hafter, hbefore] at hsame
  cases hsame

end MiniSql.Index
