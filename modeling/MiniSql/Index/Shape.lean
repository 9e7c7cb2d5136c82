import MiniSql.Index.FiniteMap

/-!
# The representation invariant

`WellFormed` is the invariant read node by node, without the bounds the proofs
carry along: equal depth of all leaves, filling, increasing keys, one child more
than keys, and each child's keys between the separators at its sides.
-/

namespace MiniSql.Index

/-- A node whose leaves are all `depth` levels below it. -/
inductive WellFormed : Bool → Nat → BPTreeNode → Prop
  | leaf {isRoot : Bool} {address : Nat} {es : List (Int × Int)} {next : Option Nat}
      (increasing : (es.map Prod.fst).Pairwise (· < ·)) (atMost : es.length ≤ maxKeys)
      (atLeast : isRoot = false → 50 ≤ es.length) :
      WellFormed isRoot 0 (.leaf address es next)
  | branch {isRoot : Bool} {depth : Nat} {keys : List Int} {children : List BPTreeNode}
      (increasing : keys.Pairwise (· < ·)) (atMost : keys.length ≤ maxKeys)
      (atLeast : isRoot = false → 49 ≤ keys.length) (nonempty : 1 ≤ keys.length)
      (count : children.length = keys.length + 1)
      (separated : ∀ i c, children[i]? = some c → ∀ e ∈ c.entries,
        (∀ k, 0 < i → keys[i - 1]? = some k → k ≤ e.1) ∧ (∀ k, keys[i]? = some k → e.1 < k))
      (below : ∀ c ∈ children, WellFormed false depth c) :
      WellFormed isRoot (depth + 1) (.branch keys children)

theorem subtree_wellFormed {isRoot : Bool} {h : Nat} {lo hi : Int} {n : BPTreeNode}
    (hn : Subtree isRoot h lo hi n) : WellFormed isRoot h n := by
  induction h generalizing isRoot lo hi n with
  | zero =>
    cases n with
    | branch ks cs => exact hn.elim
    | leaf address es next =>
      obtain ⟨hs, _, hmin, hmax⟩ := hn
      refine .leaf (List.pairwise_map.mpr hs) hmax fun hroot => ?_
      simpa [hroot, leafMin, order] using hmin
  | succ h ih =>
    cases n with
    | leaf address es next => exact hn.elim
    | branch ks cs =>
      obtain ⟨hsep, hmin, hmax⟩ := hn
      refine .branch (hsep.seps_increasing fun _ _ _ => subtree_lt).1 hmax ?_ ?_ hsep.length_eq ?_ ?_
      · intro hroot
        simpa [hroot, branchMin, order] using hmin
      · cases isRoot <;> simp [branchMin, order] at hmin <;> omega
      · intro i c hc e he
        obtain ⟨a, b, ha, hb, hchild⟩ := hsep.between hc
        obtain ⟨hlow, hhigh⟩ := (subtree_entries hchild).2 e he
        constructor
        · intro k hi hk
          obtain ⟨i, rfl⟩ : ∃ j, i = j + 1 := ⟨i - 1, by omega⟩
          have hk : ks[i]? = some k := by simpa using hk
          obtain rfl : k = a := by simpa [hk] using ha
          exact hlow
        · intro k hk
          have hlt := (List.getElem?_eq_some_iff.mp hk).1
          obtain rfl : k = b := by simpa [List.getElem?_append_left hlt, hk] using hb
          exact hhigh
      · intro c hc
        obtain ⟨_, _, _, _, hchild⟩ := (hsep.bounds subtree_le).2 c hc
        exact ih hchild

/-- **The representation invariant.** After any sequence of insertions into a
new tree, the root, once there is one, is well formed at some depth. -/
theorem bptree_wellFormed (pairs : List (Int × Int)) :
    ∃ tree, insertAll bptreeCreate pairs = some tree ∧
      ∀ root, tree.root = some root → ∃ depth, WellFormed true depth root := by
  obtain ⟨tree, hrun, hrep⟩ := insertAll_represents [] pairs represents_create
  refine ⟨tree, hrun, fun root hroot => ?_⟩
  simp only [Represents, hroot] at hrep
  obtain ⟨⟨h, lo, hi, hn⟩, _⟩ := hrep
  exact ⟨h, subtree_wellFormed hn⟩

end MiniSql.Index
