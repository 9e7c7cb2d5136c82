import MiniSql.Index.Invariant

/-!
# The B+ tree as a finite map

`Represents t m` connects a tree to the partial map it stands for; `search` and
`insert` answer from the map alone. A whole run of insertions then stands for
the association list of its arguments, in which the first pair of a key counts.
-/

namespace MiniSql.Index

/-- The tree satisfies the invariant and holds exactly the pairs of `m`. -/
def Represents (tree : BPTree) (m : Int → Option Int) : Prop :=
  match tree.root with
  | none => ∀ k, m k = none
  | some root => (∃ h lo hi, Subtree true h lo hi root) ∧ ∀ k r, (k, r) ∈ root.entries ↔ m k = some r

theorem represents_create : Represents bptreeCreate fun _ => none :=
  fun _ => rfl

/-- The two values `bptree_search` hands back for the row a map holds. -/
def found : Option Int → Bool × Int
  | some r => (true, r)
  | none => (false, -1)

theorem searchNode_spec {isRoot : Bool} {h : Nat} {lo hi key : Int} {n : BPTreeNode}
    (hn : Subtree isRoot h lo hi n) (hlo : lo ≤ key) (hhi : key < hi) :
    (∃ r, (key, r) ∈ n.entries ∧ searchNode key n = some (true, r)) ∨
    ((∀ r, (key, r) ∉ n.entries) ∧ searchNode key n = some (false, -1)) := by
  induction h generalizing isRoot lo hi n with
  | zero =>
    cases n with
    | branch ks cs => exact hn.elim
    | leaf address es next =>
      rw [entries_leaf]
      rcases leafSearch_spec hn.1 key with ⟨i, r, he, hget⟩ | ⟨s, he, hbelow, habove⟩
      · exact .inl ⟨r, List.mem_of_getElem? hget, by simp [searchNode, he, hget]⟩
      · refine .inr ⟨fun r hr => ?_, by simp [searchNode, he]⟩
        rw [← List.take_append_drop s es] at hr
        rcases List.mem_append.mp hr with hr | hr
        · exact absurd (hbelow _ hr) (Int.lt_irrefl key)
        · exact absurd (habove _ hr) (Int.lt_irrefl key)
  | succ h ih =>
    cases n with
    | leaf address es next => exact hn.elim
    | branch ks cs =>
      obtain ⟨before, left, a, c, b, after, right, f, _, hget, honly⟩ := descend hn.1 hlo hhi
      have hsearch : searchNode key (.branch ks cs) = searchNode key c := by
        simp only [searchNode, searchChild_eq, hget, Option.bind_some]
      rw [entries_branch, hsearch]
      simp only [honly]
      exact ih f.here f.low f.high

/-- The bounds of a whole tree can be moved apart to take in any key. -/
theorem subtree_around {h : Nat} {lo hi : Int} {n : BPTreeNode} (hn : Subtree true h lo hi n)
    (key : Int) : ∃ lo hi, Subtree true h lo hi n ∧ lo ≤ key ∧ key < hi :=
  ⟨min lo key, max hi (key + 1), subtree_widen hn (by omega) (by omega), by omega, by omega⟩

theorem search_represents {tree : BPTree} {m : Int → Option Int} (ht : Represents tree m)
    (key : Int) : bptreeSearch tree key = some (found (m key)) := by
  unfold Represents at ht
  unfold bptreeSearch
  cases hroot : tree.root with
  | none =>
    rw [hroot] at ht
    simp only [ht key, found]
  | some root =>
    rw [hroot] at ht
    obtain ⟨⟨h, _, _, hn⟩, hm⟩ := ht
    obtain ⟨lo, hi, hn, hlo, hhi⟩ := subtree_around hn key
    rcases searchNode_spec hn hlo hhi with ⟨r, hr, hs⟩ | ⟨habsent, hs⟩
    · simp only [hs, (hm key r).mp hr, found]
    · have hnone : m key = none := by
        cases hmk : m key with
        | none => rfl
        | some r => exact absurd ((hm key r).mpr hmk) (habsent r)
      simp only [hs, hnone, found]

theorem insert_duplicate {tree : BPTree} {m : Int → Option Int} (ht : Represents tree m)
    {key r : Int} (hk : m key = some r) (mem : Nat → Bool) (rowIndex : Int) :
    bptreeInsert mem tree key rowIndex = some (tree, .error (duplicateId key)) := by
  unfold Represents at ht
  unfold bptreeInsert
  cases tree with
  | mk root allocs =>
    cases root with
    | none => simp [ht key] at hk
    | some root =>
      obtain ⟨⟨h, _, _, hn⟩, hm⟩ := ht
      obtain ⟨lo, hi, hn, hlo, hhi⟩ := subtree_around hn key
      have hdup := insertRecursive_duplicate hn hlo hhi ⟨r, (hm key r).mpr hk⟩ mem rowIndex allocs
      simp only [hdup]

theorem insert_new {tree : BPTree} {m : Int → Option Int} (ht : Represents tree m)
    {key : Int} (hk : m key = none) (rowIndex : Int) :
    ∃ tree', bptreeInsert allocated tree key rowIndex = some (tree', .ok ()) ∧
      Represents tree' fun k => if k = key then some rowIndex else m k := by
  unfold Represents at ht
  unfold bptreeInsert
  cases tree with
  | mk root allocs =>
    cases root with
    | none =>
      refine ⟨_, rfl, ⟨0, key, key + 1, ?_⟩, ?_⟩
      · refine ⟨by simp, ?_, by simp [leafMin], by simp [maxKeys, order]⟩
        intro entry hentry
        rw [List.mem_singleton.mp hentry]
        exact ⟨Int.le_refl key, Int.lt_succ key⟩
      · intro k r
        by_cases hkey : k = key
        · simp [hkey, eq_comm]
        · simp [hkey, ht k]
    | some root =>
      obtain ⟨⟨h, _, _, hn⟩, hm⟩ := ht
      obtain ⟨lo, hi, hn, hlo, hhi⟩ := subtree_around hn key
      have habsent : ∀ r, (key, r) ∉ root.entries := by
        intro r hr
        simp [(hm key r).mp hr] at hk
      -- The new contents, whichever way the root came out.
      have hnew : ∀ {es : List (Int × Int)}, es.Perm ((key, rowIndex) :: root.entries) →
          ∀ k r, (k, r) ∈ es ↔ (if k = key then some rowIndex else m k) = some r := by
        intro es hes k r
        rw [hes.mem_iff, List.mem_cons, hm k r]
        by_cases hkey : k = key
        · simp [hkey, hk, eq_comm]
        · simp [hkey]
      obtain ⟨res, hres, hgrown⟩ := insertRecursive_grows hn hlo hhi habsent rowIndex allocs
      simp only [hres]
      cases hgrown with
      | done hshape hgain => exact ⟨_, rfl, ⟨h, _, _, hshape⟩, hnew hgain⟩
      | split hleft hright hgain =>
        refine ⟨_, rfl, ⟨h + 1, _, _, .cons hleft (.one hright), by simp [branchMin],
          by simp [maxKeys, order]⟩, hnew ?_⟩
        simpa using hgain

/-! ## Whole runs -/

/-- The tree after a sequence of `bptree_insert` calls, failed ones included. -/
def insertAll (tree : BPTree) : List (Int × Int) → Option BPTree
  | [] => some tree
  | (key, rowIndex) :: rest =>
    match bptreeInsert allocated tree key rowIndex with
    | none => none
    | some (tree, _) => insertAll tree rest

theorem represents_congr {tree : BPTree} {m m' : Int → Option Int} (ht : Represents tree m)
    (h : ∀ k, m k = m' k) : Represents tree m' :=
  (funext h : m = m') ▸ ht

theorem lookup_snoc (pairs : List (Int × Int)) (key rowIndex k : Int) :
    (pairs ++ [(key, rowIndex)]).lookup k =
      (pairs.lookup k).or (if k = key then some rowIndex else none) := by
  rw [List.lookup_append, List.lookup_cons, List.lookup_nil]
  by_cases hkey : k = key
  · simp [hkey]
  · simp [hkey, beq_eq_false_iff_ne.mpr hkey]

/-- One insertion continues the association list of the pairs inserted so far. -/
theorem insert_represents {inserted : List (Int × Int)} {tree : BPTree}
    (ht : Represents tree fun k => inserted.lookup k) (key rowIndex : Int) :
    ∃ tree' out, bptreeInsert allocated tree key rowIndex = some (tree', out) ∧
      Represents tree' fun k => (inserted ++ [(key, rowIndex)]).lookup k := by
  cases hk : inserted.lookup key with
  | some r =>
    refine ⟨tree, _, insert_duplicate ht hk allocated rowIndex, represents_congr ht fun k => ?_⟩
    by_cases hkey : k = key
    · simp [lookup_snoc, hkey, hk]
    · simp [lookup_snoc, hkey]
  | none =>
    obtain ⟨tree', hins, hrep⟩ := insert_new ht hk rowIndex
    refine ⟨tree', _, hins, represents_congr hrep fun k => ?_⟩
    by_cases hkey : k = key
    · simp [lookup_snoc, hkey, hk]
    · simp [lookup_snoc, hkey]

/-- A run ends, stands for its association list, and keeps whatever one insertion into
a tree keeps. -/
theorem insertAll_keeps {P : BPTree → Prop}
    (hstep : ∀ {tree tree' m key rowIndex out}, Represents tree m → P tree →
      bptreeInsert allocated tree key rowIndex = some (tree', out) → P tree')
    (inserted pairs : List (Int × Int)) {tree : BPTree}
    (ht : Represents tree fun k => inserted.lookup k) (htree : P tree) :
    ∃ tree', insertAll tree pairs = some tree' ∧
      (Represents tree' fun k => (inserted ++ pairs).lookup k) ∧ P tree' := by
  induction pairs generalizing inserted tree with
  | nil => exact ⟨tree, rfl, by simpa using ht, htree⟩
  | cons pair rest ih =>
    obtain ⟨key, rowIndex⟩ := pair
    obtain ⟨tree', out, hins, hrep⟩ := insert_represents ht key rowIndex
    obtain ⟨final, hfinal, hrep', hkept⟩ :=
      ih (inserted ++ [(key, rowIndex)]) hrep (hstep ht htree hins)
    refine ⟨final, ?_, by simpa using hrep', hkept⟩
    simp only [insertAll, hins, hfinal]

theorem insertAll_represents (inserted pairs : List (Int × Int)) {tree : BPTree}
    (ht : Represents tree fun k => inserted.lookup k) :
    ∃ tree', insertAll tree pairs = some tree' ∧
      Represents tree' fun k => (inserted ++ pairs).lookup k := by
  obtain ⟨tree', hrun, hrep, -⟩ :=
    insertAll_keeps (fun _ _ _ => trivial) inserted pairs ht trivial
  exact ⟨tree', hrun, hrep⟩

theorem lookup_isSome_iff (pairs : List (Int × Int)) (key : Int) :
    (pairs.lookup key).isSome ↔ key ∈ pairs.map Prod.fst := by
  induction pairs with
  | nil => simp
  | cons pair rest ih =>
    obtain ⟨k, r⟩ := pair
    by_cases hkey : key = k
    · simp [hkey]
    · simp only [List.lookup_cons, beq_eq_false_iff_ne.mpr hkey, ih, List.map_cons,
        List.mem_cons, hkey, false_or]

/-- **The tree is a finite map.** After any sequence of insertions into a new
tree, a further insertion fails exactly for a key inserted before and then
leaves the tree as it is, and a search returns the row of the key's first
insertion. -/
theorem bptree_finite_map (pairs : List (Int × Int)) :
    ∃ tree, insertAll bptreeCreate pairs = some tree ∧
      (∀ key rowIndex, ∃ tree' out, bptreeInsert allocated tree key rowIndex = some (tree', out) ∧
        (out ≠ .ok () ↔ key ∈ pairs.map Prod.fst) ∧ (out ≠ .ok () → tree' = tree)) ∧
      ∀ key, bptreeSearch tree key = some (match pairs.lookup key with
        | some rowIndex => (true, rowIndex)
        | none => (false, -1)) := by
  obtain ⟨tree, hrun, hrep⟩ := insertAll_represents [] pairs represents_create
  rw [List.nil_append] at hrep
  refine ⟨tree, hrun, fun key rowIndex => ?_, fun key => ?_⟩
  · have hmem := lookup_isSome_iff pairs key
    cases hk : pairs.lookup key with
    | some r =>
      refine ⟨tree, _, insert_duplicate hrep hk allocated rowIndex, ?_, fun _ => rfl⟩
      simpa [hk] using hmem
    | none =>
      obtain ⟨tree', hins, _⟩ := insert_new hrep hk rowIndex
      refine ⟨tree', _, hins, ?_, by simp⟩
      simpa [hk] using hmem
  · rw [search_represents hrep key]
    cases pairs.lookup key <;> rfl

end MiniSql.Index
