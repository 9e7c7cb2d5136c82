import MiniSql.Text

/-!
# The B+ tree of `src/index/bptree.c`

A node owns its children, so the nodes form an inductive tree. The two parallel
arrays of a leaf are one list of (key, row index) pairs, and a list stands for
the first `key_count` slots of an array. Leaves are also threaded by `next`
independently of the children: a leaf has an address, and `next` holds one.

`mem n` says whether the n-th call of `bptree_node_create` gets its memory;
`allocs` counts these calls and supplies fresh addresses. A result of `none` is
a dereferenced null child, which has no defined behaviour in C.
-/

namespace MiniSql.Index

/-- `BPTREE_ORDER`. -/
def order : Nat := 100

/-- `BPTREE_MAX_KEYS`. -/
def maxKeys : Nat := order - 1

inductive BPTreeNode
  | leaf (address : Nat) (entries : List (Int × Int)) (next : Option Nat)
  | branch (keys : List Int) (children : List BPTreeNode)

structure BPTree where
  root : Option BPTreeNode
  allocs : Nat

/-- Every call of `bptree_node_create` succeeds. -/
def allocated : Nat → Bool := fun _ => true

@[simp] theorem allocated_eq (n : Nat) : allocated n = true := rfl

def bptreeCreate : BPTree := ⟨none, 0⟩

/-- The loop of `bptree_child_index` from its current key on. -/
def childIndex : List Int → Int → Nat
  | [], _ => 0
  | k :: ks, key => if key ≥ k then childIndex ks key + 1 else 0

/-- `leaf->keys[index]`. -/
def keyAt (entries : List (Int × Int)) (index : Nat) : Int := (entries.getD index (0, 0)).1

/-- The binary search of `bptree_leaf_search`: whether the key is there, and
its slot or the slot where it belongs. -/
def leafSearchLoop (entries : List (Int × Int)) (key : Int) (low high : Nat) : Bool × Nat :=
  if low < high then
    let mid := low + (high - low) / 2
    if keyAt entries mid = key then (true, mid)
    else if keyAt entries mid < key then leafSearchLoop entries key (mid + 1) high
    else leafSearchLoop entries key low mid
  else (false, low)
termination_by high - low

def leafSearch (entries : List (Int × Int)) (key : Int) : Bool × Nat :=
  leafSearchLoop entries key 0 entries.length

/-- What an insertion reports to its caller. `failed` is a return of 0; a
return of 1 leaves `*split_right` null or a new right sibling behind. -/
inductive Inserted
  | failed (error : SqlError)
  | done
  | split (promotedKey : Int) (right : BPTreeNode)

/-- The node as the call left it, the allocation count, and the report. -/
structure InsertResult where
  node : BPTreeNode
  allocs : Nat
  report : Inserted

def duplicateId (key : Int) : SqlError := sqlSetError [ascii "duplicate id: ", decimal key]

def nodeAllocationFailed : SqlError := sqlSetError [ascii "failed to allocate B+ tree node"]

/-- `xs` with `x` put at `slot` and everything from there on moved up by one. -/
def insertAt {α : Type} (xs : List α) (slot : Nat) (x : α) : List α :=
  xs.take slot ++ x :: xs.drop slot

def insertIntoLeaf (mem : Nat → Bool) (address : Nat) (entries : List (Int × Int))
    (next : Option Nat) (key rowIndex : Int) (allocs : Nat) : InsertResult :=
  match leafSearch entries key with
  | (true, _) => ⟨.leaf address entries next, allocs, .failed (duplicateId key)⟩
  | (false, slot) =>
    let temp := insertAt entries slot (key, rowIndex)
    if entries.length < maxKeys then ⟨.leaf address temp next, allocs, .done⟩
    else if mem allocs then
      let splitIndex := order / 2
      let rightEntries := (temp.drop splitIndex).take (order - splitIndex)
      ⟨.leaf address (temp.take splitIndex) (some allocs), allocs + 1,
        .split (keyAt rightEntries 0) (.leaf allocs rightEntries next)⟩
    else ⟨.leaf address entries next, allocs + 1, .failed nodeAllocationFailed⟩

/-- The part of `bptree_insert_recursive` behind the recursive call: `children`
already holds the child as the call left it at index `child`. -/
def absorbSplit (mem : Nat → Bool) (keys : List Int) (children : List BPTreeNode) (child : Nat)
    (promotedKey : Int) (right : BPTreeNode) (allocs : Nat) : InsertResult :=
  let tempKeys := insertAt keys child promotedKey
  let tempChildren := insertAt children (child + 1) right
  if keys.length < maxKeys then ⟨.branch tempKeys tempChildren, allocs, .done⟩
  else if mem allocs then
    let splitIndex := order / 2
    let rightCount := order - splitIndex - 1
    ⟨.branch (tempKeys.take splitIndex) (tempChildren.take (splitIndex + 1)), allocs + 1,
      .split (tempKeys.getD splitIndex 0)
        (.branch ((tempKeys.drop (splitIndex + 1)).take rightCount)
          ((tempChildren.drop (splitIndex + 1)).take (rightCount + 1)))⟩
  else ⟨.branch keys children, allocs + 1, .failed nodeAllocationFailed⟩

mutual

def insertRecursive (mem : Nat → Bool) (key rowIndex : Int) :
    BPTreeNode → Nat → Option InsertResult
  | .leaf address entries next, allocs =>
    some (insertIntoLeaf mem address entries next key rowIndex allocs)
  | .branch keys children, allocs =>
    match insertIntoChild mem key rowIndex children (childIndex keys key) allocs with
    | none => none
    | some r =>
      let children := children.set (childIndex keys key) r.node
      match r.report with
      | .failed error => some ⟨.branch keys children, r.allocs, .failed error⟩
      | .done => some ⟨.branch keys children, r.allocs, .done⟩
      | .split promotedKey right =>
        some (absorbSplit mem keys children (childIndex keys key) promotedKey right r.allocs)

/-- `insertRecursive` on the child at the given index. -/
def insertIntoChild (mem : Nat → Bool) (key rowIndex : Int) :
    List BPTreeNode → Nat → Nat → Option InsertResult
  | [], _, _ => none
  | c :: _, 0, allocs => insertRecursive mem key rowIndex c allocs
  | _ :: cs, i + 1, allocs => insertIntoChild mem key rowIndex cs i allocs

end

/-- `bptree_insert`: the tree as the call left it, and 1 or the reason for 0. -/
def bptreeInsert (mem : Nat → Bool) (tree : BPTree) (key rowIndex : Int) :
    Option (BPTree × Except SqlError Unit) :=
  match tree.root with
  | none =>
    if mem tree.allocs then
      some (⟨some (.leaf tree.allocs [(key, rowIndex)] none), tree.allocs + 1⟩, .ok ())
    else some (⟨none, tree.allocs + 1⟩, .error nodeAllocationFailed)
  | some root =>
    match insertRecursive mem key rowIndex root tree.allocs with
    | none => none
    | some r =>
      match r.report with
      | .failed error => some (⟨some r.node, r.allocs⟩, .error error)
      | .done => some (⟨some r.node, r.allocs⟩, .ok ())
      | .split promotedKey right =>
        if mem r.allocs then
          some (⟨some (.branch [promotedKey] [r.node, right]), r.allocs + 1⟩, .ok ())
        else some (⟨some r.node, r.allocs + 1⟩, .error nodeAllocationFailed)

mutual

/-- The descent of `bptree_search` and the search in the leaf it ends in:
the returned flag and `*row_index`. -/
def searchNode (key : Int) : BPTreeNode → Option (Bool × Int)
  | .leaf _ entries _ =>
    match leafSearch entries key with
    | (true, slot) => some (true, (entries.getD slot (0, 0)).2)
    | (false, _) => some (false, -1)
  | .branch keys children => searchChild key children (childIndex keys key)

/-- `searchNode` in the child at the given index. -/
def searchChild (key : Int) : List BPTreeNode → Nat → Option (Bool × Int)
  | [], _ => none
  | c :: _, 0 => searchNode key c
  | _ :: cs, i + 1 => searchChild key cs i

end

def bptreeSearch (tree : BPTree) (key : Int) : Option (Bool × Int) :=
  match tree.root with
  | none => some (false, -1)
  | some root => searchNode key root

end MiniSql.Index
