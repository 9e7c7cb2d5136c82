import MiniSql.Index.NodeRecursion
import MiniSql.Index.NodeFailures

/-!
# The index in memory

The index as a root pointer into the memory of its nodes. Whatever is inserted and
whichever calls for memory fail, every operation has a result and does what the
operation on trees does; and `bptree_destroy` frees each node of the tree once.
-/

namespace MiniSql.Index

open Cells NodeHeap

theorem length_le_of_owned {footprint : List Nat} {bound : Nat} (hnodup : footprint.Nodup)
    (howned : ∀ x ∈ footprint, x < bound) : footprint.length ≤ bound := by
  have hsubset : footprint.toFinset ⊆ Finset.range bound := by
    intro x hx
    exact Finset.mem_range.mpr (howned x (List.mem_toFinset.mp hx))
  have hcard := Finset.card_le_card hsubset
  rwa [List.toFinset_card_of_nodup hnodup, Finset.card_range] at hcard

/-- `struct BPTree`, and the memory of its nodes. -/
structure PointerTree where
  root : Option Nat
  heap : NodeHeap

namespace PointerTree

def create : PointerTree := ⟨none, ⟨fun _ => none, 0⟩⟩

/-- `bptree_insert`. The recursion goes no deeper than there are nodes. -/
def insert (mem : Nat → Bool) (tree : PointerTree) (key rowIndex : Int) :
    Option (PointerTree × Except SqlError Unit) :=
  match tree.root with
  | none =>
    match tree.heap.create mem true with
    | (heap, none) => some (⟨none, heap⟩, .error nodeAllocationFailed)
    | (heap, some root) => do
      let record ← heap.node root
      let keys ← store record.keys 0 key
      let rows ← store record.rowIndexes 0 rowIndex
      some (⟨some root, heap.set root { record with keys := keys, rowIndexes := rows, keyCount := 1 }⟩,
        .ok ())
  | some root => do
    match ← tree.heap.insertRecursive mem key rowIndex tree.heap.allocs root with
    | (heap, .failed error) => some (⟨some root, heap⟩, .error error)
    | (heap, .done) => some (⟨some root, heap⟩, .ok ())
    | (heap, .split promotedKey splitRight) =>
      match heap.create mem false with
      | (heap, none) => some (⟨some root, heap⟩, .error nodeAllocationFailed)
      | (heap, some newRoot) =>
        let record ← heap.node newRoot
        let keys ← store record.keys 0 promotedKey
        let children ← store record.children 0 (some root)
        let children ← store children 1 (some splitRight)
        some (⟨some newRoot, heap.set newRoot
          { record with keys := keys, children := children, keyCount := 1 }⟩, .ok ())

/-- `bptree_search`. -/
def search (tree : PointerTree) (key : Int) : Option (Bool × Int) :=
  match tree.root with
  | none => some (false, -1)
  | some root => tree.heap.search key tree.heap.allocs root

end PointerTree

/-! ## What the root stands for -/

def RootRep (node : Nat → Option NodeRecord) : Option Nat → Option BPTreeNode → List Nat → Prop
  | none, none, footprint => footprint = []
  | some address, some tree, footprint => ∃ height, Rep node height ⟨address, tree, footprint⟩
  | _, _, _ => False

/-- The index in memory stands for a tree, and has these nodes. -/
structure PointerTree.Stands (tree : PointerTree) (model : BPTree) (footprint : List Nat) : Prop where
  allocs : tree.heap.allocs = model.allocs
  root : RootRep tree.heap.node tree.root model.root footprint
  nodup : footprint.Nodup
  owned : ∀ x ∈ footprint, x < tree.heap.allocs
  live : ∀ x, (tree.heap.node x).isSome = true → x < tree.heap.allocs

/-- Every node in memory belongs to the tree. -/
def PointerTree.Tight (tree : PointerTree) (footprint : List Nat) : Prop :=
  ∀ x, (tree.heap.node x).isSome = true → x ∈ footprint

namespace PointerTree

theorem create_stands : create.Stands bptreeCreate [] where
  allocs := rfl
  root := rfl
  nodup := List.nodup_nil
  owned x hx := by cases hx
  live x hx := by cases hx

variable {tree : PointerTree} {model : BPTree} {footprint : List Nat}

theorem Stands.search_eq (h : tree.Stands model footprint) (key : Int) :
    tree.search key = bptreeSearch model key := by
  obtain ⟨root, heap⟩ := tree
  obtain ⟨modelRoot, allocs⟩ := model
  have hroot := h.root
  cases root with
  | none =>
    cases modelRoot with
    | none => rfl
    | some node => exact hroot.elim
  | some address =>
    cases modelRoot with
    | none => exact hroot.elim
    | some node =>
      obtain ⟨height, hrep⟩ := hroot
      have hheight := hrep.height_lt
      have hlength := length_le_of_owned h.nodup h.owned
      exact NodeHeap.search_eq key (Nat.lt_of_lt_of_le hheight hlength) hrep

/-! ## Insertion -/

theorem holds_nil {α : Type} {size : Nat} {cells : List (Option α)} (h : cells.length = size) :
    Holds size [] cells :=
  ⟨h, fun j hj => absurd hj (Nat.not_lt_zero j)⟩

/-- The first node. -/
theorem insert_first (mem : Nat → Bool) (heap : NodeHeap)
    (hlive : ∀ x, (heap.node x).isSome = true → x < heap.allocs) (key rowIndex : Int) :
    ∃ tree' model' out footprint', insert mem ⟨none, heap⟩ key rowIndex = some (tree', out) ∧
      bptreeInsert mem ⟨none, heap.allocs⟩ key rowIndex = some (model', out) ∧
      tree'.Stands model' footprint' ∧ heap.allocs ≤ tree'.heap.allocs ∧
      (Given mem heap tree'.heap → Tight ⟨none, heap⟩ [] → tree'.Tight footprint') := by
  simp only [insert, bptreeInsert, NodeHeap.create]
  cases hmem : mem heap.allocs with
  | false =>
    refine ⟨⟨none, ⟨heap.node, heap.allocs + 1⟩⟩, ⟨none, heap.allocs + 1⟩, .error nodeAllocationFailed,
      [], rfl, rfl, ⟨rfl, rfl, List.nodup_nil, List.forall_mem_nil _, ?_⟩, Nat.le_succ _, ?_⟩
    · intro x hx
      exact Nat.lt_succ_of_lt (hlive x hx)
    · intro _ htight x hx
      exact htight x hx
  | true =>
    obtain ⟨keys, hstoreKeys, hkeys⟩ :=
      (holds_nil (zeroNode_keys true)).concat (show 0 < maxKeys by decide) key
    obtain ⟨rows, hstoreRows, hrows⟩ :=
      (holds_nil (zeroNode_rowIndexes true)).concat (show 0 < maxKeys by decide) rowIndex
    rw [List.length_nil] at hstoreKeys hstoreRows
    simp only [if_true, add_node_self, Option.bind_eq_bind, Option.bind_some, hstoreKeys, hstoreRows,
      add_set]
    refine ⟨_, _, _, [heap.allocs], rfl, rfl, ⟨rfl, ⟨0, rfl, rfl, _, add_node_self _, ?_⟩,
      List.nodup_singleton _, ?_, ?_⟩, Nat.le_succ _, ?_⟩
    · exact ⟨rfl, rfl, hkeys, hrows, rfl⟩
    · intro x hx
      simp only [List.mem_singleton] at hx
      simp only [add_allocs]
      omega
    · intro x hx
      simp only [add_allocs]
      by_cases hfresh : x = heap.allocs
      · omega
      · rw [add_node_of_ne hfresh] at hx
        have hlt := hlive x hx
        omega
    · intro _ htight x hx
      by_cases hfresh : x = heap.allocs
      · simp [hfresh]
      · rw [add_node_of_ne hfresh] at hx
        cases htight x hx

section

variable {mem : Nat → Bool} {heap heap' : NodeHeap} {height root : Nat} {node : BPTreeNode}
  {result : InsertResult} {report : NodeInserted} {extra old : List Nat}

/-- The root stays, with what the insertion below it has left. -/
theorem of_simulates
    (h : Simulates mem heap heap' height ⟨root, node, old⟩ result report footprint extra)
    (howned : ∀ x ∈ old, x < heap.allocs)
    (hlive : ∀ x, (heap.node x).isSome = true → x < heap.allocs) {heap'' : NodeHeap}
    (hnode : heap''.node = heap'.node) (hgrows : heap'.allocs ≤ heap''.allocs) :
    Stands ⟨some root, heap''⟩ ⟨some result.node, heap''.allocs⟩ footprint := by
  have hbound := h.grows
  refine ⟨rfl, ⟨height, ?_⟩, h.nodup.sublist (List.sublist_append_left _ _), ?_, ?_⟩
  · change Rep heap''.node height _
    rw [hnode]
    exact h.rep
  · intro x hx
    change x < heap''.allocs
    rcases h.within x (List.mem_append_left _ hx) with hx | ⟨-, hlt⟩
    · have hlt := howned x hx
      omega
    · omega
  · intro x hx
    change x < heap''.allocs
    change (heap''.node x).isSome = true at hx
    rw [hnode] at hx
    rcases h.live x hx with hx | ⟨-, hlt⟩
    · have hlt := hlive x hx
      omega
    · omega

/-- A new root above the old one and its sibling. -/
theorem of_split {right : Part} {record : NodeRecord} {promotedKey : Int}
    (h : Simulates mem heap heap' height ⟨root, node, old⟩ result report footprint right.footprint)
    (hright : Rep heap'.node height right) (howned : ∀ x ∈ old, x < heap.allocs)
    (hlive : ∀ x, (heap.node x).isSome = true → x < heap.allocs)
    (hfits : BranchFits record [promotedKey] [root, right.address]) :
    Stands ⟨some heap'.allocs, heap'.add record⟩
      ⟨some (.branch [promotedKey] [result.node, right.node]), heap'.allocs + 1⟩
      (heap'.allocs :: (footprint ++ right.footprint)) := by
  have hbound := h.grows
  have hlt : ∀ x ∈ footprint ++ right.footprint, x < heap'.allocs := by
    intro x hx
    rcases h.within x hx with hx | ⟨-, hlt⟩
    · have hlt := howned x hx
      omega
    · exact hlt
  have hrep {part : Part} (hpart : Rep heap'.node height part)
      (hsub : ∀ x ∈ part.footprint, x ∈ footprint ++ right.footprint) :
      Rep (heap'.add record).node height part := by
    apply hpart.congr
    intro x hx
    have hless := hlt x (hsub x hx)
    exact add_node_of_ne (by omega) _
  refine ⟨rfl, ⟨height + 1, [⟨root, result.node, footprint⟩, right], rfl, ?_, ?_, record,
    add_node_self _, hfits⟩, ?_, ?_, ?_⟩
  · simp
  · intro part hpart
    rcases List.mem_cons.mp hpart with rfl | hpart
    · exact hrep h.rep fun x hx => List.mem_append_left _ hx
    · obtain rfl := List.mem_singleton.mp hpart
      exact hrep hright fun x hx => List.mem_append_right _ hx
  · refine List.nodup_cons.mpr ⟨?_, h.nodup⟩
    intro hmem
    exact Nat.lt_irrefl _ (hlt _ hmem)
  · intro x hx
    change x < heap'.allocs + 1
    rcases List.mem_cons.mp hx with rfl | hx
    · omega
    · have hless := hlt x hx
      omega
  · intro x hx
    change x < heap'.allocs + 1
    by_cases hfresh : x = heap'.allocs
    · omega
    · change ((heap'.add record).node x).isSome = true at hx
      rw [add_node_of_ne hfresh] at hx
      rcases h.live x hx with hx | ⟨-, hless⟩
      · have hless := hlive x hx
        omega
      · omega

/-- Where every call for memory succeeded, the nodes in memory are those of the insertion. -/
theorem tight_of_simulates
    (h : Simulates mem heap heap' height ⟨root, node, old⟩ result report footprint extra)
    (hgiven : Given mem heap heap') (htight : Tight ⟨some root, heap⟩ old) {x : Nat}
    (hx : (heap'.node x).isSome = true) : x ∈ footprint ++ extra := by
  apply h.complete hgiven
  rcases h.live x hx with hx | hfresh
  · exact .inl (htight x hx)
  · exact .inr hfresh

end

/-- **One insertion into the index in memory.** -/
theorem Stands.insert (h : tree.Stands model footprint) (mem : Nat → Bool) (key rowIndex : Int) :
    ∃ tree' model' out footprint', tree.insert mem key rowIndex = some (tree', out) ∧
      bptreeInsert mem model key rowIndex = some (model', out) ∧ tree'.Stands model' footprint' ∧
      tree.heap.allocs ≤ tree'.heap.allocs ∧
      (Given mem tree.heap tree'.heap → tree.Tight footprint → tree'.Tight footprint') := by
  obtain ⟨root, heap⟩ := tree
  obtain ⟨modelRoot, allocs⟩ := model
  obtain rfl : heap.allocs = allocs := h.allocs
  have hroot := h.root
  cases root with
  | none =>
    cases modelRoot with
    | some node => exact hroot.elim
    | none =>
      obtain rfl : footprint = [] := hroot
      exact insert_first mem heap h.live key rowIndex
  | some root =>
    cases modelRoot with
    | none => exact hroot.elim
    | some node =>
      obtain ⟨height, hrep⟩ := hroot
      have hdepth := Nat.lt_of_lt_of_le hrep.height_lt (length_le_of_owned h.nodup h.owned)
      obtain ⟨heap', report, ⟨newNode, newAllocs, treeReport⟩, footprint', extra, hrun, htree, hsim⟩ :=
        insertRecursive_simulates mem key rowIndex hdepth hrep h.nodup h.owned
      obtain rfl : heap'.allocs = newAllocs := hsim.allocs
      dsimp only at hrun htree
      simp only [PointerTree.insert, bptreeInsert, hrun, htree, Option.bind_eq_bind, Option.bind_some]
      have hreports := hsim.reports
      dsimp only at hreports
      cases hreports with
      | failed error =>
        refine ⟨_, _, _, footprint', rfl, rfl, of_simulates hsim h.owned h.live rfl (Nat.le_refl _),
          hsim.grows, ?_⟩
        intro hgiven htight x hx
        simpa using tight_of_simulates hsim hgiven htight hx
      | done =>
        refine ⟨_, _, _, footprint', rfl, rfl, of_simulates hsim h.owned h.live rfl (Nat.le_refl _),
          hsim.grows, ?_⟩
        intro hgiven htight x hx
        simpa using tight_of_simulates hsim hgiven htight hx
      | @split promotedKey right hright =>
        simp only [NodeHeap.create]
        cases hmem : mem heap'.allocs with
        | false =>
          simp only [Bool.false_eq_true, if_false]
          refine ⟨_, _, _, footprint', rfl, rfl,
            of_simulates hsim h.owned h.live rfl (Nat.le_succ _), Nat.le_succ_of_le hsim.grows, ?_⟩
          intro hgiven
          have htrue := hgiven heap'.allocs hsim.grows (Nat.lt_succ_self _)
          rw [hmem] at htrue
          cases htrue
        | true =>
          obtain ⟨keys, hstoreKeys, hkeys⟩ :=
            (holds_nil (zeroNode_keys false)).concat (show 0 < maxKeys by decide) promotedKey
          obtain ⟨first, hstoreFirst, hfirst⟩ :=
            (holds_nil (zeroNode_children false)).concat (show 0 < order + 1 by decide) (some root)
          obtain ⟨children, hstoreChildren, hchildren⟩ :=
            hfirst.concat (show 1 < order + 1 by decide) (some right.address)
          rw [List.length_nil] at hstoreKeys hstoreFirst
          rw [List.nil_append, List.length_singleton] at hstoreChildren
          simp only [if_true, add_node_self, Option.bind_some, hstoreKeys, hstoreFirst, hstoreChildren,
            add_set]
          refine ⟨_, _, _, _, rfl, rfl,
            of_split hsim hright h.owned h.live ⟨rfl, rfl, rfl, hkeys, hchildren⟩,
            Nat.le_succ_of_le hsim.grows, ?_⟩
          intro hgiven htight x hx
          by_cases hfresh : x = heap'.allocs
          · simp [hfresh]
          · change ((heap'.add _).node x).isSome = true at hx
            rw [add_node_of_ne hfresh] at hx
            have hgiven' : Given mem heap heap' :=
              fun y hge hlt => hgiven y hge (Nat.lt_succ_of_lt hlt)
            exact List.mem_cons_of_mem _ (tight_of_simulates hsim hgiven' htight hx)

end PointerTree

end MiniSql.Index
