import MiniSql.Index.Invariant
import MiniSql.Lib.Cells

/-!
# The nodes of `src/index/bptree.c` in memory

The functions of the index as they run: a node is a record with arrays of fixed sizes
at an address, a child is a pointer, and the loops load and store single cells. A null
pointer that is followed, an address that holds no node and an access outside of an
array or to a cell without a value have no result.

The functions carry the names they have on trees (`insertIntoLeaf`, `insertRecursive`,
…), here in the namespace of the memory they work on. `Rep` tells which tree a
pointer stands for.
-/

namespace MiniSql.Index

open Cells

/-- `struct BPTreeNode`. A pointer is an address or null. -/
structure NodeRecord where
  isLeaf : Bool
  keyCount : Nat
  keys : List (Option Int)
  children : List (Option (Option Nat))
  rowIndexes : List (Option Int)
  next : Option Nat

/-- The nodes, and how often `bptree_node_create` has been called. -/
structure NodeHeap where
  node : Nat → Option NodeRecord
  allocs : Nat

/-- What `calloc` gives. -/
def zeroNode (isLeaf : Bool) : NodeRecord where
  isLeaf := isLeaf
  keyCount := 0
  keys := List.replicate maxKeys (some 0)
  children := List.replicate (order + 1) (some none)
  rowIndexes := List.replicate maxKeys (some 0)
  next := none

namespace NodeHeap

def set (heap : NodeHeap) (address : Nat) (record : NodeRecord) : NodeHeap :=
  { heap with node := Function.update heap.node address (some record) }

/-- A node at the next address. -/
def add (heap : NodeHeap) (record : NodeRecord) : NodeHeap :=
  ⟨Function.update heap.node heap.allocs (some record), heap.allocs + 1⟩

/-- `bptree_node_create`. -/
def create (mem : Nat → Bool) (heap : NodeHeap) (isLeaf : Bool) : NodeHeap × Option Nat :=
  if mem heap.allocs then (heap.add (zeroNode isLeaf), some heap.allocs)
  else (⟨heap.node, heap.allocs + 1⟩, none)

end NodeHeap

/-- The loop of `bptree_child_index`, with so many keys left. -/
def childIndexLoop (keys : List (Option Int)) (key : Int) : Nat → Nat → Option Nat
  | 0, index => some index
  | left + 1, index => do
    let here ← load keys index
    if key ≥ here then childIndexLoop keys key left (index + 1) else some index

/-- The loop of `bptree_leaf_search`. -/
def leafSearchCells (keys : List (Option Int)) (key : Int) (low high : Nat) :
    Option (Bool × Nat) :=
  if low < high then do
    let mid := low + (high - low) / 2
    let here ← load keys mid
    if here = key then some (true, mid)
    else if here < key then leafSearchCells keys key (mid + 1) high
    else leafSearchCells keys key low mid
  else some (false, low)
termination_by high - low

/-- What an insertion reports: a new right sibling is a pointer. -/
inductive NodeInserted
  | failed (error : SqlError)
  | done
  | split (promotedKey : Int) (right : Nat)

namespace NodeHeap

/-- A local array that nothing was stored to. -/
def uninitialized {α : Type} (size : Nat) : List (Option α) := List.replicate size none

def insertIntoLeaf (mem : Nat → Bool) (heap : NodeHeap) (leaf : Nat) (key rowIndex : Int) :
    Option (NodeHeap × NodeInserted) := do
  let record ← heap.node leaf
  let (found, slot) ← leafSearchCells record.keys key 0 record.keyCount
  if found then some (heap, .failed (duplicateId key))
  else if record.keyCount < maxKeys then
    let (keys, rows) ← forDown (inPair moveUp moveUp) slot record.keyCount
      (record.keys, record.rowIndexes)
    let keys ← store keys slot key
    let rows ← store rows slot rowIndex
    some (heap.set leaf
      { record with keys := keys, rowIndexes := rows, keyCount := record.keyCount + 1 }, .done)
  else
    let (tempKeys, tempRows) ← forUp
      (inPair (copyCell record.keys 0 0) (copyCell record.rowIndexes 0 0)) 0 slot
      (uninitialized order, uninitialized order)
    let tempKeys ← store tempKeys slot key
    let tempRows ← store tempRows slot rowIndex
    let (tempKeys, tempRows) ← forUp
      (inPair (copyCell record.keys 0 1) (copyCell record.rowIndexes 0 1)) slot
      (record.keyCount - slot) (tempKeys, tempRows)
    match heap.create mem true with
    | (heap, none) => some (heap, .failed nodeAllocationFailed)
    | (heap, some right) =>
      let rightRecord ← heap.node right
      let splitIndex := order / 2
      let (keys, rows) ← forUp (inPair (copyCell tempKeys 0 0) (copyCell tempRows 0 0)) 0 splitIndex
        (record.keys, record.rowIndexes)
      let (rightKeys, rightRows) ← forUp
        (inPair (copyCell tempKeys splitIndex 0) (copyCell tempRows splitIndex 0)) 0
        (order - splitIndex) (rightRecord.keys, rightRecord.rowIndexes)
      let promotedKey ← load rightKeys 0
      let heap := heap.set right
        { rightRecord with
          keyCount := order - splitIndex
          keys := rightKeys
          rowIndexes := rightRows
          next := record.next }
      some (heap.set leaf
        { record with
          keyCount := splitIndex
          keys := keys
          rowIndexes := rows
          next := some right }, .split promotedKey right)

/-- The loops that fill `temp_keys` and `temp_children`: so many items, with one more at
the slot. -/
def fillTemp {α : Type} (cells : List (Option α)) (count slot : Nat) (item : α) (size : Nat) :
    Option (List (Option α)) := do
  let temp ← forUp (copyCell cells 0 0) 0 slot (uninitialized size)
  let temp ← store temp slot item
  forUp (copyCell cells 0 1) slot (count - slot) temp

/-- A new key and a new child in an internal node that has room for them. -/
def absorb (record : NodeRecord) (child : Nat) (promotedKey : Int) (splitRight : Nat) :
    Option NodeRecord := do
  let keys ← forDown moveUp child record.keyCount record.keys
  let children ← forDown moveUp (child + 1) (record.keyCount + 1) record.children
  let keys ← store keys child promotedKey
  let children ← store children (child + 1) (some splitRight)
  some { record with keys := keys, children := children, keyCount := record.keyCount + 1 }

/-- So many keys, and the children around them, from the temporary arrays into a node. The
last child is stored behind the loop: `temp_children[node->key_count]` on the left,
`temp_children[BPTREE_ORDER]` on the right. -/
def fillBranch (record : NodeRecord) (tempKeys : List (Option Int))
    (tempChildren : List (Option (Option Nat))) (first count : Nat) : Option NodeRecord := do
  let (keys, children) ← forUp (inPair (copyCell tempKeys first 0) (copyCell tempChildren first 0)) 0
    count (record.keys, record.children)
  let last ← load tempChildren (first + count)
  let children ← store children count last
  some { record with keyCount := count, keys := keys, children := children }

/-- The part of `bptree_insert_recursive` behind a recursive call that has split the child. -/
def absorbSplit (mem : Nat → Bool) (heap : NodeHeap) (address child : Nat) (promotedKey : Int)
    (splitRight : Nat) : Option (NodeHeap × NodeInserted) := do
  let record ← heap.node address
  if record.keyCount < maxKeys then
    let record ← absorb record child promotedKey splitRight
    some (heap.set address record, .done)
  else
    let tempKeys ← fillTemp record.keys record.keyCount child promotedKey order
    let tempChildren ← fillTemp record.children (record.keyCount + 1) (child + 1) (some splitRight)
      (order + 1)
    match heap.create mem false with
    | (heap, none) => some (heap, .failed nodeAllocationFailed)
    | (heap, some right) =>
      let rightRecord ← heap.node right
      let splitIndex := order / 2
      let promotedKey ← load tempKeys splitIndex
      let record ← fillBranch record tempKeys tempChildren 0 splitIndex
      let rightRecord ← fillBranch rightRecord tempKeys tempChildren (splitIndex + 1)
        (order - splitIndex - 1)
      some ((heap.set address record).set right rightRecord, .split promotedKey right)

/-- `bptree_insert_recursive`, down to so many levels. -/
def insertRecursive (mem : Nat → Bool) (key rowIndex : Int) :
    Nat → NodeHeap → Nat → Option (NodeHeap × NodeInserted)
  | 0, _, _ => none
  | depth + 1, heap, address => do
    let record ← heap.node address
    if record.isLeaf then heap.insertIntoLeaf mem address key rowIndex
    else
      let child ← childIndexLoop record.keys key record.keyCount 0
      let childAddress ← (load record.children child).join
      match ← insertRecursive mem key rowIndex depth heap childAddress with
      | (heap, .failed error) => some (heap, .failed error)
      | (heap, .done) => some (heap, .done)
      | (heap, .split promotedKey right) => heap.absorbSplit mem address child promotedKey right

/-- The loops of `bptree_search`, down to so many levels. -/
def search (heap : NodeHeap) (key : Int) : Nat → Nat → Option (Bool × Int)
  | 0, _ => none
  | depth + 1, address => do
    let record ← heap.node address
    if record.isLeaf then
      let (found, slot) ← leafSearchCells record.keys key 0 record.keyCount
      if found then
        let row ← load record.rowIndexes slot
        some (true, row)
      else some (false, -1)
    else
      let child ← childIndexLoop record.keys key record.keyCount 0
      let childAddress ← (load record.children child).join
      heap.search key depth childAddress

end NodeHeap

/-! ## What the arrays hold -/

theorem childIndexLoop_eq {size : Nat} {cells : List (Option Int)} (key : Int)
    (before after : List Int) (h : Holds size (before ++ after) cells) :
    childIndexLoop cells key after.length before.length =
      some (before.length + childIndex after key) := by
  induction after generalizing before with
  | nil => rfl
  | cons k after ih =>
    have hload : load cells before.length = some k := by
      rw [h.load (by simp), List.getElem?_append_right (Nat.le_refl _), Nat.sub_self]
      rfl
    rw [List.length_cons, childIndexLoop, hload]
    simp only [Option.bind_eq_bind, Option.bind_some, childIndex]
    split
    · have hnext := ih (before ++ [k]) (by rwa [List.append_assoc, List.singleton_append])
      rw [List.length_append, List.length_singleton] at hnext
      rw [hnext]
      congr 1
      omega
    · rfl

theorem load_keyAt {size : Nat} {cells : List (Option Int)} {entries : List (Int × Int)}
    (h : Holds size (entries.map Prod.fst) cells) {index : Nat} (hindex : index < entries.length) :
    load cells index = some (keyAt entries index) := by
  rw [h.load (by simpa using hindex)]
  simp [keyAt, hindex]

theorem leafSearchCells_eq {size : Nat} {cells : List (Option Int)} {entries : List (Int × Int)}
    (h : Holds size (entries.map Prod.fst) cells) (key : Int) (low high : Nat)
    (hhigh : high ≤ entries.length) :
    leafSearchCells cells key low high = some (leafSearchLoop entries key low high) := by
  have hstep (low high : Nat) (hlt : low < high) (hfits : high ≤ entries.length) :
      leafSearchCells cells key low high =
        if keyAt entries (low + (high - low) / 2) = key then some (true, low + (high - low) / 2)
        else if keyAt entries (low + (high - low) / 2) < key then
          leafSearchCells cells key (low + (high - low) / 2 + 1) high
        else leafSearchCells cells key low (low + (high - low) / 2) := by
    rw [leafSearchCells, if_pos hlt]
    simp only [load_keyAt h (show low + (high - low) / 2 < entries.length by omega),
      Option.bind_eq_bind, Option.bind_some]
  fun_induction leafSearchLoop entries key low high with
  | case1 low high hlt mid hkey => rw [hstep low high hlt hhigh, if_pos hkey]
  | case2 low high hlt mid hne hless ih =>
    rw [hstep low high hlt hhigh, if_neg hne, if_pos hless]
    exact ih hhigh
  | case3 low high hlt mid hne hnless ih =>
    rw [hstep low high hlt hhigh, if_neg hne, if_neg hnless]
    exact ih (by omega)
  | case4 low high hnlt => rw [leafSearchCells, if_neg hnlt]

/-! ## The tree that a pointer stands for -/

structure LeafFits (record : NodeRecord) (entries : List (Int × Int)) (next : Option Nat) : Prop where
  isLeaf : record.isLeaf = true
  count : record.keyCount = entries.length
  keys : Holds maxKeys (entries.map Prod.fst) record.keys
  rows : Holds maxKeys (entries.map Prod.snd) record.rowIndexes
  next : record.next = next

structure BranchFits (record : NodeRecord) (keys : List Int) (addresses : List Nat) : Prop where
  isBranch : record.isLeaf = false
  count : record.keyCount = keys.length
  arity : addresses.length = keys.length + 1
  keys : Holds maxKeys keys record.keys
  children : Holds (order + 1) (addresses.map some) record.children

/-- A child: where it is, what it stands for, and the addresses of its nodes. -/
structure Part where
  address : Nat
  node : BPTreeNode
  footprint : List Nat

/-- At the address there is a tree of the given height with these nodes. -/
def NodeHeap.Rep (node : Nat → Option NodeRecord) : Nat → Part → Prop
  | 0, ⟨address, .leaf leafAddress entries next, footprint⟩ =>
    leafAddress = address ∧ footprint = [address] ∧
      ∃ record, node address = some record ∧ LeafFits record entries next
  | height + 1, ⟨address, .branch keys children, footprint⟩ =>
    ∃ parts : List Part, children = parts.map Part.node ∧
      footprint = address :: parts.flatMap Part.footprint ∧
      (∀ part ∈ parts, Rep node height part) ∧
      ∃ record, node address = some record ∧ BranchFits record keys (parts.map Part.address)
  | _, _ => False

/-- Only the nodes of the tree matter. -/
theorem NodeHeap.Rep.congr {node node' : Nat → Option NodeRecord} {height : Nat} {part : Part}
    (h : Rep node height part) (hsame : ∀ x ∈ part.footprint, node' x = node x) :
    Rep node' height part := by
  induction height generalizing part with
  | zero =>
    obtain ⟨address, tree, footprint⟩ := part
    cases tree with
    | branch => exact h.elim
    | leaf leafAddress entries next =>
      obtain ⟨haddress, hfootprint, record, hrecord, hfits⟩ := h
      refine ⟨haddress, hfootprint, record, ?_, hfits⟩
      rw [hsame address (by simp [hfootprint]), hrecord]
  | succ height ih =>
    obtain ⟨address, tree, footprint⟩ := part
    cases tree with
    | leaf => exact h.elim
    | branch keys children =>
      obtain ⟨parts, hchildren, hfootprint, hparts, record, hrecord, hfits⟩ := h
      refine ⟨parts, hchildren, hfootprint, ?_, record, ?_, hfits⟩
      · intro part hpart
        apply ih (hparts part hpart)
        intro x hx
        apply hsame
        rw [hfootprint]
        exact List.mem_cons_of_mem _ (List.mem_flatMap.mpr ⟨part, hpart, hx⟩)
      · rw [hsame address (by simp [hfootprint]), hrecord]

end MiniSql.Index
