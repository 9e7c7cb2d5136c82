import MiniSql.Index.IndexRuns

/-!
# How deep the index is

The recursion of `src/index/bptree.c` has no limit of its own. Since every node but the
root is at least half full, an index of `n` keys has a height logarithmic in `n`, whatever
was inserted and whichever calls for memory failed: six levels hold all keys of type `int`.
-/

namespace MiniSql.Index

open NodeHeap

/-! ## Half full nodes -/

theorem length_flatMap_ge {α β : Type} {xs : List α} {f : α → List β} {least : Nat}
    (h : ∀ x ∈ xs, least ≤ (f x).length) : xs.length * least ≤ (xs.flatMap f).length := by
  induction xs with
  | nil => simp
  | cons x xs ih =>
    have hx := h x List.mem_cons_self
    have hxs := ih fun y hy => h y (List.mem_cons_of_mem x hy)
    rw [List.flatMap_cons, List.length_append, List.length_cons, Nat.succ_mul]
    omega

theorem subtree_children {isRoot : Bool} {h : Nat} {lo hi : Int} {ks : List Int}
    {cs : List BPTreeNode} (hn : Subtree isRoot (h + 1) lo hi (.branch ks cs)) :
    branchMin isRoot + 1 ≤ cs.length ∧ ∀ c ∈ cs, ∃ a b, Subtree false h a b c := by
  obtain ⟨hsep, hmin, -⟩ := hn
  constructor
  · rw [hsep.length_eq]
    omega
  · intro c hc
    obtain ⟨a, b, -, -, hchild⟩ := (hsep.bounds subtree_le).2 c hc
    exact ⟨a, b, hchild⟩

theorem subtree_length {h : Nat} {lo hi : Int} {n : BPTreeNode} (hn : Subtree false h lo hi n) :
    50 ^ (h + 1) ≤ n.entries.length := by
  induction h generalizing lo hi n with
  | zero =>
    cases n with
    | branch ks cs => exact hn.elim
    | leaf address es next =>
      rw [entries_leaf]
      exact hn.2.2.1
  | succ h ih =>
    cases n with
    | leaf address es next => exact hn.elim
    | branch ks cs =>
      obtain ⟨hcount, hchildren⟩ := subtree_children hn
      have hsum : cs.length * 50 ^ (h + 1) ≤ (cs.flatMap BPTreeNode.entries).length := by
        apply length_flatMap_ge
        intro c hc
        obtain ⟨a, b, hchild⟩ := hchildren c hc
        exact ih hchild
      rw [entries_branch]
      calc 50 ^ (h + 1 + 1) = 50 * 50 ^ (h + 1) := by rw [Nat.pow_succ, Nat.mul_comm]
        _ ≤ cs.length * 50 ^ (h + 1) := Nat.mul_le_mul_right _ hcount
        _ ≤ (cs.flatMap BPTreeNode.entries).length := hsum

theorem root_length {h : Nat} {lo hi : Int} {n : BPTreeNode} (hn : Subtree true (h + 1) lo hi n) :
    2 * 50 ^ (h + 1) ≤ n.entries.length := by
  cases n with
  | leaf address es next => exact hn.elim
  | branch ks cs =>
    obtain ⟨hcount, hchildren⟩ := subtree_children hn
    have hsum : cs.length * 50 ^ (h + 1) ≤ (cs.flatMap BPTreeNode.entries).length := by
      apply length_flatMap_ge
      intro c hc
      obtain ⟨a, b, hchild⟩ := hchildren c hc
      exact subtree_length hchild
    rw [entries_branch]
    exact Nat.le_trans (Nat.mul_le_mul_right _ hcount) hsum

/-- With fewer keys than that the tree has fewer levels. -/
theorem height_lt_levels {h : Nat} {lo hi : Int} {n : BPTreeNode} (hn : Subtree true h lo hi n)
    {levels : Nat} (hlevels : 0 < levels) (hfew : n.entries.length < 2 * 50 ^ levels) :
    h < levels := by
  cases h with
  | zero => exact hlevels
  | succ h =>
    apply Nat.lt_of_not_le
    intro hle
    have hmany := root_length hn
    have hpow : 50 ^ levels ≤ 50 ^ (h + 1) := Nat.pow_le_pow_right (by decide) hle
    omega

/-- Distinct keys in a set are no more than the set has. -/
theorem subtree_card {h : Nat} {lo hi : Int} {n : BPTreeNode} (hn : Subtree true h lo hi n)
    {keys : Finset Int} (hkeys : ∀ e ∈ n.entries, e.1 ∈ keys) : n.entries.length ≤ keys.card := by
  have hnodup : (n.entries.map Prod.fst).Nodup := by
    apply List.Pairwise.imp (R := (· < ·)) Int.ne_of_lt
    exact List.pairwise_map.mpr (subtree_entries hn).1
  have hsubset : (n.entries.map Prod.fst).toFinset ⊆ keys := by
    intro key hkey
    obtain ⟨e, he, rfl⟩ := List.mem_map.mp (List.mem_toFinset.mp hkey)
    exact hkeys e he
  have hcard := Finset.card_le_card hsubset
  rwa [List.toFinset_card_of_nodup hnodup, List.length_map] at hcard

/-! ## The index in memory -/

/-- The memory has the height of the tree it stands for. -/
theorem Rep.height_eq {node : Nat → Option NodeRecord} {height h : Nat} {part : Part}
    (hrep : Rep node height part) {isRoot : Bool} {lo hi : Int}
    (hn : Subtree isRoot h lo hi part.node) : height = h := by
  induction height generalizing h isRoot lo hi part with
  | zero =>
    obtain ⟨address, tree, footprint⟩ := part
    cases tree with
    | branch => exact hrep.elim
    | leaf =>
      cases h with
      | zero => rfl
      | succ h => exact hn.elim
  | succ height ih =>
    obtain ⟨address, tree, footprint⟩ := part
    cases tree with
    | leaf => exact hrep.elim
    | branch keys children =>
      cases h with
      | zero => exact hn.elim
      | succ h =>
        obtain ⟨parts, rfl, rfl, hparts, -⟩ := hrep
        obtain ⟨hcount, hchildren⟩ := subtree_children hn
        rw [List.length_map] at hcount
        obtain ⟨part, hpart⟩ := List.exists_mem_of_length_pos (show 0 < parts.length by omega)
        obtain ⟨a, b, hchild⟩ := hchildren part.node (List.mem_map_of_mem hpart)
        rw [ih (hparts part hpart) hchild]

theorem insertRecursive_deeper {mem : Nat → Bool} {key rowIndex : Int} {depth depth' : Nat}
    (hdepth : depth ≤ depth') {heap : NodeHeap} {address : Nat} {result : NodeHeap × NodeInserted}
    (h : heap.insertRecursive mem key rowIndex depth address = some result) :
    heap.insertRecursive mem key rowIndex depth' address = some result := by
  induction depth generalizing depth' address result with
  | zero => cases h
  | succ depth ih =>
    obtain ⟨depth', rfl⟩ : ∃ deeper, depth' = deeper + 1 := ⟨depth' - 1, by omega⟩
    simp only [NodeHeap.insertRecursive, Option.bind_eq_bind, Option.bind_eq_some_iff] at h ⊢
    obtain ⟨record, hrecord, h⟩ := h
    refine ⟨record, hrecord, ?_⟩
    split at h
    · rename_i hleaf
      rw [if_pos hleaf]
      exact h
    · rename_i hleaf
      rw [if_neg hleaf]
      simp only [Option.bind_eq_some_iff] at h ⊢
      obtain ⟨child, hchild, childAddress, haddress, below, hbelow, h⟩ := h
      exact ⟨child, hchild, childAddress, haddress, below, ih (Nat.le_of_succ_le_succ hdepth) hbelow, h⟩

/-- What the root of an index stands for. -/
theorem PointerTree.Stands.root_rep {tree : PointerTree} {model : BPTree} {footprint : List Nat}
    (h : tree.Stands model footprint) {m : Int → Option Int} (hm : Represents model m) {root : Nat}
    (hroot : tree.root = some root) :
    ∃ height node lo hi, Rep tree.heap.node height ⟨root, node, footprint⟩ ∧
      Subtree true height lo hi node ∧ ∀ key row, (key, row) ∈ node.entries ↔ m key = some row := by
  obtain ⟨modelRoot, allocs⟩ := model
  have hrep := h.root
  rw [hroot] at hrep
  cases modelRoot with
  | none => exact hrep.elim
  | some node =>
    obtain ⟨height, hrep⟩ := hrep
    obtain ⟨⟨height', lo, hi, hn⟩, hentries⟩ := hm
    have hheight := Rep.height_eq hrep hn
    subst hheight
    exact ⟨height, node, lo, hi, hrep, hn, hentries⟩

/-- **The index has logarithmic depth.** After any run of insertions into a new index,
whichever calls for memory fail: while all the keys it finds are among fewer than
`2 * 50 ^ levels`, no operation on it follows more than `levels` nodes from the root. A
search and an insertion give the same result with the recursion limited to that depth,
and the destruction has one. -/
theorem index_depth_log (mem : Nat → Bool) (pairs : List (Int × Int)) :
    ∃ tree outs, PointerTree.create.insertAll mem pairs = some (tree, outs) ∧
      ∀ (keys : Finset Int) (levels : Nat), 0 < levels → keys.card < 2 * 50 ^ levels →
        (∀ key row, tree.search key = some (true, row) → key ∈ keys) →
        ∀ root, tree.root = some root → ∀ key row,
          tree.heap.search key levels root = tree.search key ∧
          tree.heap.insertRecursive mem key row levels root =
            tree.heap.insertRecursive mem key row tree.heap.allocs root ∧
          ∃ heap, tree.heap.destroy levels (some root) = some heap := by
  obtain ⟨tree, model, outs, footprint, hinsert, hmodel, hstands, -, -⟩ :=
    PointerTree.create_stands.insertAll mem pairs
  obtain ⟨m, hm⟩ := bptreeInsertAll_represents represents_create hmodel
  refine ⟨tree, outs, hinsert, ?_⟩
  intro keys levels hlevels hcard hkeys root hroot key row
  obtain ⟨height, node, lo, hi, hrep, hn, hentries⟩ := hstands.root_rep hm hroot
  have hfound : ∀ e ∈ node.entries, e.1 ∈ keys := by
    intro e he
    apply hkeys e.1 e.2
    rw [hstands.search_eq, search_represents hm, (hentries e.1 e.2).mp he]
    rfl
  have hheight : height < levels :=
    height_lt_levels hn hlevels (Nat.lt_of_le_of_lt (subtree_card hn hfound) hcard)
  have hallocs : height < tree.heap.allocs :=
    Nat.lt_of_lt_of_le hrep.height_lt (length_le_of_owned hstands.nodup hstands.owned)
  refine ⟨?_, ?_, ?_⟩
  · rw [NodeHeap.search_eq key hheight hrep, PointerTree.search, hroot]
    exact (NodeHeap.search_eq key hallocs hrep).symm
  · obtain ⟨heap', report, -, -, -, hrun, -⟩ :=
      insertRecursive_simulates mem key row (Nat.lt_succ_self height) hrep hstands.nodup hstands.owned
    rw [insertRecursive_deeper hheight hrun, insertRecursive_deeper hallocs hrun]
  · obtain ⟨heap, hdestroy, -⟩ := destroy_freed hheight hrep hstands.nodup
    exact ⟨heap, hdestroy⟩

/-- The keys of type `int` fit into six levels. -/
example : (Finset.Icc (-2147483648) 2147483647 : Finset Int).card < 2 * 50 ^ 6 := by
  rw [Int.card_Icc]
  decide

end MiniSql.Index
