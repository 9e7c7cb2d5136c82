import MiniSql.Index.PointerTree

/-!
# Runs of the index in memory

Any sequence of insertions into a new index, with any pattern of failed calls for
memory, and `bptree_destroy` behind it.
-/

namespace MiniSql.Index

open Cells NodeHeap

/-! ## Insertions -/

/-- The insertions one after the other, and what they return. -/
def PointerTree.insertAll (mem : Nat → Bool) :
    PointerTree → List (Int × Int) → Option (PointerTree × List (Except SqlError Unit))
  | tree, [] => some (tree, [])
  | tree, (key, rowIndex) :: rest => do
    let (tree, out) ← tree.insert mem key rowIndex
    let (tree, outs) ← tree.insertAll mem rest
    some (tree, out :: outs)

/-- The same on trees. -/
def bptreeInsertAll (mem : Nat → Bool) :
    BPTree → List (Int × Int) → Option (BPTree × List (Except SqlError Unit))
  | tree, [] => some (tree, [])
  | tree, (key, rowIndex) :: rest => do
    let (tree, out) ← bptreeInsert mem tree key rowIndex
    let (tree, outs) ← bptreeInsertAll mem tree rest
    some (tree, out :: outs)

theorem PointerTree.Stands.insertAll {tree : PointerTree} {model : BPTree} {footprint : List Nat}
    (h : tree.Stands model footprint) (mem : Nat → Bool) (pairs : List (Int × Int)) :
    ∃ tree' model' outs footprint', tree.insertAll mem pairs = some (tree', outs) ∧
      bptreeInsertAll mem model pairs = some (model', outs) ∧ tree'.Stands model' footprint' ∧
      tree.heap.allocs ≤ tree'.heap.allocs ∧
      (Given mem tree.heap tree'.heap → tree.Tight footprint → tree'.Tight footprint') := by
  induction pairs generalizing tree model footprint with
  | nil => exact ⟨tree, model, [], footprint, rfl, rfl, h, Nat.le_refl _, fun _ htight => htight⟩
  | cons pair rest ih =>
    obtain ⟨key, rowIndex⟩ := pair
    obtain ⟨tree₁, model₁, out, footprint₁, hinsert, hmodel, hstands, hgrows, htight₁⟩ :=
      h.insert mem key rowIndex
    obtain ⟨tree₂, model₂, outs, footprint₂, hinsertAll, hmodelAll, hstands₂, hgrows₂, htight₂⟩ :=
      ih hstands
    refine ⟨tree₂, model₂, out :: outs, footprint₂, ?_, ?_, hstands₂, Nat.le_trans hgrows hgrows₂, ?_⟩
    · simp only [PointerTree.insertAll, hinsert, Option.bind_eq_bind, Option.bind_some, hinsertAll]
    · simp only [bptreeInsertAll, hmodel, Option.bind_eq_bind, Option.bind_some, hmodelAll]
    · intro hgiven htight
      apply htight₂
      · intro x hge hlt
        exact hgiven x (Nat.le_trans hgrows hge) hlt
      · apply htight₁ _ htight
        intro x hge hlt
        exact hgiven x hge (Nat.lt_of_lt_of_le hlt hgrows₂)

/-- Whatever fails, the tree stands for some map. -/
theorem bptreeInsertAll_represents {mem : Nat → Bool} {tree tree' : BPTree} {m : Int → Option Int}
    (ht : Represents tree m) {pairs : List (Int × Int)} {outs : List (Except SqlError Unit)}
    (h : bptreeInsertAll mem tree pairs = some (tree', outs)) : ∃ m', Represents tree' m' := by
  induction pairs generalizing tree m outs with
  | nil =>
    cases h
    exact ⟨m, ht⟩
  | cons pair rest ih =>
    obtain ⟨key, rowIndex⟩ := pair
    simp only [bptreeInsertAll, Option.bind_eq_bind, Option.bind_eq_some_iff] at h
    obtain ⟨⟨tree₁, out⟩, hinsert, ⟨tree₂, outs'⟩, hrest, hresult⟩ := h
    cases hresult
    obtain ⟨m₁, ht₁⟩ := bptreeInsert_represents ht hinsert
    exact ih ht₁ hrest

/-- With memory at hand the run is the one of `insertAll`. -/
theorem bptreeInsertAll_allocated {tree tree' : BPTree} {pairs : List (Int × Int)}
    {outs : List (Except SqlError Unit)}
    (h : bptreeInsertAll allocated tree pairs = some (tree', outs)) :
    Index.insertAll tree pairs = some tree' := by
  induction pairs generalizing tree outs with
  | nil =>
    cases h
    rfl
  | cons pair rest ih =>
    obtain ⟨key, rowIndex⟩ := pair
    simp only [bptreeInsertAll, Option.bind_eq_bind, Option.bind_eq_some_iff] at h
    obtain ⟨⟨tree₁, out⟩, hinsert, ⟨tree₂, outs'⟩, hrest, hresult⟩ := h
    cases hresult
    simp only [Index.insertAll, hinsert]
    exact ih hrest

/-- **The index in memory is safe, and is the tree.** Any run of insertions into a new
index, whichever calls for memory fail, has a result: no array is accessed out of its
bounds or before it was written, no null pointer and no pointer to anything but a node
is followed. The insertions return what those into the tree return, and a search finds
what the tree holds; with memory at hand this is the row of the key's first insertion. -/
theorem index_in_memory_refines (mem : Nat → Bool) (pairs : List (Int × Int)) :
    ∃ tree model outs, PointerTree.create.insertAll mem pairs = some (tree, outs) ∧
      bptreeInsertAll mem bptreeCreate pairs = some (model, outs) ∧
      ∃ m, Represents model m ∧ (∀ key, tree.search key = some (found (m key))) ∧
        (mem = allocated → ∀ key, m key = pairs.lookup key) := by
  obtain ⟨tree, model, outs, footprint, hinsert, hmodel, hstands, -, -⟩ :=
    PointerTree.create_stands.insertAll mem pairs
  refine ⟨tree, model, outs, hinsert, hmodel, ?_⟩
  by_cases hmem : mem = allocated
  · subst hmem
    obtain ⟨tree', hrun, hrep⟩ := insertAll_represents [] pairs represents_create
    cases (bptreeInsertAll_allocated hmodel).symm.trans hrun
    refine ⟨_, hrep, ?_, fun _ _ => rfl⟩
    intro key
    rw [hstands.search_eq key, search_represents hrep key]
  · obtain ⟨m, hrep⟩ := bptreeInsertAll_represents represents_create hmodel
    refine ⟨m, hrep, ?_, fun h => absurd h hmem⟩
    intro key
    rw [hstands.search_eq key, search_represents hrep key]

/-! ## Destruction -/

namespace NodeHeap

/-- `free`. A node that is not there cannot be freed. -/
def free (heap : NodeHeap) (address : Nat) : Option NodeHeap :=
  if (heap.node address).isSome then some { heap with node := Function.update heap.node address none }
  else none

/-- `bptree_node_destroy`, down to so many levels. -/
def destroy : Nat → NodeHeap → Option Nat → Option NodeHeap
  | _, heap, none => some heap
  | 0, _, some _ => none
  | depth + 1, heap, some address => do
    let record ← heap.node address
    let heap ←
      if record.isLeaf then some heap
      else forUp (fun index heap => do
        let record ← heap.node address
        let child ← load record.children index
        destroy depth heap child) 0 (record.keyCount + 1) heap
    heap.free address

end NodeHeap

/-- `bptree_destroy`. -/
def PointerTree.destroy (tree : PointerTree) : Option NodeHeap :=
  tree.heap.destroy tree.heap.allocs tree.root

/-- The memory without some nodes. -/
structure Freed (heap heap' : NodeHeap) (footprint : List Nat) : Prop where
  gone : ∀ x ∈ footprint, heap'.node x = none
  kept : ∀ x, x ∉ footprint → heap'.node x = heap.node x

theorem freed_nil (heap : NodeHeap) : Freed heap heap [] := ⟨List.forall_mem_nil _, fun _ _ => rfl⟩

theorem Freed.append {heap heap₁ heap₂ : NodeHeap} {first second : List Nat}
    (h₁ : Freed heap heap₁ first) (h₂ : Freed heap₁ heap₂ second) :
    Freed heap heap₂ (first ++ second) := by
  constructor
  · intro x hx
    by_cases hsecond : x ∈ second
    · exact h₂.gone x hsecond
    · rw [h₂.kept x hsecond]
      exact h₁.gone x ((List.mem_append.mp hx).resolve_right hsecond)
  · intro x hx
    rw [h₂.kept x fun hsecond => hx (List.mem_append_right _ hsecond),
      h₁.kept x fun hfirst => hx (List.mem_append_left _ hfirst)]

theorem Freed.of_mem_iff {heap heap' : NodeHeap} {footprint footprint' : List Nat}
    (h : Freed heap heap' footprint) (hmem : ∀ x, x ∈ footprint' ↔ x ∈ footprint) :
    Freed heap heap' footprint' :=
  ⟨fun x hx => h.gone x ((hmem x).mp hx), fun x hx => h.kept x fun hx' => hx ((hmem x).mpr hx')⟩

theorem NodeHeap.free_freed (heap : NodeHeap) (address : Nat)
    (h : (heap.node address).isSome = true) :
    ∃ heap', heap.free address = some heap' ∧ Freed heap heap' [address] := by
  refine ⟨_, if_pos h, ?_, ?_⟩
  · intro x hx
    rw [List.mem_singleton.mp hx]
    exact Function.update_self ..
  · intro x hx
    exact Function.update_of_ne (by simpa using hx) ..

/-- The loop over the children. -/
theorem destroyChildren_freed (depth : Nat) {address : Nat} {heap : NodeHeap} {record : NodeRecord}
    {parts : List Part} (hrecord : heap.node address = some record)
    (hchildren : Holds (order + 1) ((parts.map Part.address).map some) record.children)
    (hnodup : (address :: parts.flatMap Part.footprint).Nodup)
    (hdestroy : ∀ part ∈ parts, ∀ heap', (∀ x ∈ part.footprint, heap'.node x = heap.node x) →
      ∃ heap'', heap'.destroy depth (some part.address) = some heap'' ∧
        Freed heap' heap'' part.footprint)
    (before after : List Part) (hparts : before ++ after = parts) (heap₁ : NodeHeap)
    (hfreed : Freed heap heap₁ (before.flatMap Part.footprint)) :
    ∃ heap₂, forUp (fun index heap => do
        let record ← heap.node address
        let child ← load record.children index
        heap.destroy depth child) before.length after.length heap₁ = some heap₂ ∧
      Freed heap heap₂ (parts.flatMap Part.footprint) := by
  induction after generalizing before heap₁ with
  | nil =>
    rw [List.append_nil] at hparts
    subst hparts
    exact ⟨heap₁, rfl, hfreed⟩
  | cons part after ih =>
    have hmem : part ∈ parts := by simp [← hparts]
    have haddress : heap₁.node address = some record := by
      rw [hfreed.kept address, hrecord]
      intro hbefore
      apply (List.nodup_cons.mp hnodup).1
      rw [← hparts, List.flatMap_append]
      exact List.mem_append_left _ hbefore
    have hload : load record.children before.length = some (some part.address) := by
      rw [hchildren.load (by simp [← hparts])]
      simp [← hparts]
    obtain ⟨heap₂, hrun, hfreed₂⟩ := hdestroy part hmem heap₁ (by
      intro x hx
      apply hfreed.kept
      intro hbefore
      have hflat := (List.nodup_cons.mp hnodup).2
      rw [← hparts, List.flatMap_append, List.flatMap_cons] at hflat
      exact (List.nodup_append.mp hflat).2.2 x hbefore x (List.mem_append_left _ hx) rfl)
    obtain ⟨heap₃, hloop, hfreed₃⟩ := ih (before ++ [part]) (by simp [← hparts]) heap₂
      (by simpa [List.flatMap_append] using hfreed.append hfreed₂)
    refine ⟨heap₃, ?_, hfreed₃⟩
    rw [List.length_append, List.length_singleton] at hloop
    simp only [List.length_cons, forUp, haddress, Option.bind_eq_bind, Option.bind_some, hload, hrun]
    exact hloop

theorem destroy_freed {height depth : Nat} (hdepth : height < depth) {heap : NodeHeap} {part : Part}
    (h : Rep heap.node height part) (hnodup : part.footprint.Nodup) :
    ∃ heap', heap.destroy depth (some part.address) = some heap' ∧
      Freed heap heap' part.footprint := by
  induction height generalizing depth part heap with
  | zero =>
    obtain ⟨address, tree, old⟩ := part
    cases tree with
    | branch => exact h.elim
    | leaf leafAddress entries next =>
      obtain ⟨rfl, rfl, record, hrecord, hfits⟩ := h
      cases depth with
      | zero => omega
      | succ depth =>
        simp only [NodeHeap.destroy, hrecord, Option.bind_eq_bind, Option.bind_some, hfits.isLeaf,
          if_true]
        exact free_freed heap _ (by rw [hrecord]; rfl)
  | succ height ih =>
    obtain ⟨address, tree, old⟩ := part
    cases tree with
    | leaf => exact h.elim
    | branch keys children =>
      obtain ⟨parts, rfl, rfl, hparts, record, hrecord, hfits⟩ := h
      cases depth with
      | zero => omega
      | succ depth =>
        have hcount : record.keyCount + 1 = parts.length := by
          have harity := hfits.arity
          rw [List.length_map] at harity
          rw [hfits.count, harity]
        have hflat := (List.nodup_cons.mp hnodup).2
        obtain ⟨heap₁, hloop, hfreed⟩ := destroyChildren_freed depth hrecord hfits.children hnodup
          (fun part hpart heap' hsame => ih (Nat.lt_of_succ_lt_succ hdepth)
            ((hparts part hpart).congr hsame) ((List.nodup_flatMap.mp hflat).1 part hpart))
          [] parts rfl heap (freed_nil heap)
        have hkept : heap₁.node address = heap.node address :=
          hfreed.kept address (List.nodup_cons.mp hnodup).1
        obtain ⟨heap₂, hfree, hfreed₂⟩ := free_freed heap₁ address
          (by rw [hkept, hrecord]; rfl)
        rw [List.length_nil, ← hcount] at hloop
        refine ⟨heap₂, ?_, ?_⟩
        · simp only [NodeHeap.destroy, hrecord, Option.bind_eq_bind, Option.bind_some,
            hfits.isBranch, Bool.false_eq_true, if_false]
          simp only [Option.bind_eq_bind] at hloop
          rw [hloop, Option.bind_some, hfree]
        · exact (hfreed.append hfreed₂).of_mem_iff fun x => by simp [or_comm]

theorem PointerTree.Stands.destroy {tree : PointerTree} {model : BPTree} {footprint : List Nat}
    (h : tree.Stands model footprint) :
    ∃ heap, tree.destroy = some heap ∧ Freed tree.heap heap footprint := by
  obtain ⟨root, heap⟩ := tree
  obtain ⟨modelRoot, allocs⟩ := model
  have hroot := h.root
  cases root with
  | none =>
    cases modelRoot with
    | some node => exact hroot.elim
    | none =>
      cases hroot
      refine ⟨heap, ?_, freed_nil heap⟩
      simp only [PointerTree.destroy, NodeHeap.destroy]
  | some address =>
    cases modelRoot with
    | none => exact hroot.elim
    | some node =>
      obtain ⟨height, hrep⟩ := hroot
      have hlength := length_le_of_owned h.nodup h.owned
      exact destroy_freed (Nat.lt_of_lt_of_le hrep.height_lt hlength) hrep h.nodup

/-- **The index is freed whole.** After any run of insertions `bptree_destroy` has a
result: it follows no pointer to a freed node and frees no node twice. Where no call for
memory failed, no node is left in memory. -/
theorem index_destroyed (mem : Nat → Bool) (pairs : List (Int × Int)) :
    ∃ tree outs heap, PointerTree.create.insertAll mem pairs = some (tree, outs) ∧
      tree.destroy = some heap ∧
      ((∀ n < tree.heap.allocs, mem n = true) → ∀ address, heap.node address = none) := by
  obtain ⟨tree, model, outs, footprint, hinsert, -, hstands, -, htight⟩ :=
    PointerTree.create_stands.insertAll mem pairs
  obtain ⟨heap, hdestroy, hfreed⟩ := hstands.destroy
  refine ⟨tree, outs, heap, hinsert, hdestroy, ?_⟩
  intro hmem address
  by_cases hmember : address ∈ footprint
  · exact hfreed.gone address hmember
  · rw [hfreed.kept address hmember, ← Option.not_isSome_iff_eq_none]
    intro hsome
    apply hmember
    apply htight (fun n _ hlt => hmem n hlt) _ address hsome
    intro x hx
    cases hx

end MiniSql.Index
