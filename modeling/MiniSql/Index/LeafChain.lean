import MiniSql.Lib.LinkedCells
import MiniSql.Index.FiniteMap

/-!
# The chain of leaves

The leaves of a tree are linked by `next` independently of the children that the
search descends through. A split puts the new leaf behind the old one in both
orders, so the links pass the leaves from left to right; `bptree_collect_keys`, which
follows them, writes the keys in increasing order.
-/

namespace MiniSql.Index

open Cell

/-- A leaf as its address in memory, its entries and its `next`. -/
abbrev Leaf := Cell Nat (List (Int × Int))

mutual

/-- The leaves of a subtree from left to right. -/
def BPTreeNode.leaves : BPTreeNode → List Leaf
  | .leaf address entries next => [⟨address, entries, next⟩]
  | .branch _ children => leavesAll children

def leavesAll : List BPTreeNode → List Leaf
  | [] => []
  | c :: cs => c.leaves ++ leavesAll cs

end

def BPTree.leaves (tree : BPTree) : List Leaf :=
  match tree.root with
  | none => []
  | some root => root.leaves

/-! ## `bptree_collect_keys` -/

mutual

/-- The descent to the leftmost leaf. -/
def firstLeaf : BPTreeNode → Option Leaf
  | .leaf address entries next => some ⟨address, entries, next⟩
  | .branch _ children => firstLeafOf children

/-- `firstLeaf` in the child 0. -/
def firstLeafOf : List BPTreeNode → Option Leaf
  | [] => none
  | c :: _ => firstLeaf c

end

/-- The loop over the keys of one leaf, behind those written so far: whether they all
had room, and what is written then. -/
def writeKeys (capacity : Int) : List (Int × Int) → List Int → Bool × List Int
  | [], written => (true, written)
  | (key, _) :: rest, written =>
    if (written.length : Int) ≥ capacity then (false, written)
    else writeKeys capacity rest (written ++ [key])

/-- What `bptree_collect_keys` returns, its `*count` and the keys it wrote. -/
structure Collected where
  returned : Bool
  count : Int
  keys : List Int
  deriving DecidableEq, Repr

/-- The loop along `next`, with a bound on the number of its rounds. -/
def collectLoop (leaves : List Leaf) (capacity : Int) :
    Nat → Option Nat → List Int → Option Collected
  | 0, _, _ => none
  | _ + 1, none, written => some ⟨true, written.length, written⟩
  | fuel + 1, some address, written =>
    match at? leaves address with
    | none => none
    | some leaf =>
      match writeKeys capacity leaf.content written with
      | (false, written) => some ⟨false, 0, written⟩
      | (true, written) => collectLoop leaves capacity fuel leaf.next written

/-- `bptree_collect_keys`; the leaves of the tree are the memory it reads. -/
def bptreeCollectKeys (fuel : Nat) (tree : BPTree) (capacity : Int) : Option Collected :=
  match tree.root with
  | none => some ⟨true, 0, []⟩
  | some root =>
    match firstLeaf root with
    | none => none
    | some leaf => collectLoop tree.leaves capacity fuel (some leaf.address) []

/-! ## The leaves of a subtree -/

@[simp] theorem leaves_leaf (address : Nat) (es : List (Int × Int)) (next : Option Nat) :
    (BPTreeNode.leaf address es next).leaves = [⟨address, es, next⟩] := by
  simp only [BPTreeNode.leaves]

@[simp] theorem leaves_branch (ks : List Int) (cs : List BPTreeNode) :
    (BPTreeNode.branch ks cs).leaves = cs.flatMap BPTreeNode.leaves := by
  simp only [BPTreeNode.leaves]
  induction cs with
  | nil => simp only [leavesAll, List.flatMap_nil]
  | cons c cs ih => simp only [leavesAll, List.flatMap_cons, ih]

theorem subtree_leaves {isRoot : Bool} {h : Nat} {lo hi : Int} {n : BPTreeNode}
    (hn : Subtree isRoot h lo hi n) :
    n.leaves.flatMap Cell.content = n.entries ∧
      ∃ first rest, n.leaves = first :: rest ∧ firstLeaf n = some first := by
  induction h generalizing isRoot lo hi n with
  | zero =>
    cases n with
    | branch ks cs => exact hn.elim
    | leaf address es next => exact ⟨by simp, ⟨address, es, next⟩, [], by simp, by simp [firstLeaf]⟩
  | succ h ih =>
    cases n with
    | leaf address es next => exact hn.elim
    | branch ks cs =>
      have hbelow := (hn.1.bounds subtree_le).2
      constructor
      · rw [leaves_branch, entries_branch, List.flatMap_assoc]
        apply List.flatMap_congr
        intro c hc
        obtain ⟨_, _, _, _, hchild⟩ := hbelow c hc
        exact (ih hchild).1
      · cases cs with
        | nil => simpa using hn.1.length_eq
        | cons c cs =>
          obtain ⟨_, _, _, _, hchild⟩ := hbelow c List.mem_cons_self
          obtain ⟨-, first, rest, hleaves, hfirst⟩ := ih hchild
          refine ⟨first, rest ++ cs.flatMap BPTreeNode.leaves, by simp [hleaves], ?_⟩
          simpa [firstLeaf, firstLeafOf] using hfirst

/-! ## One insertion -/

/-- The leaves in a report, right of those in the node. -/
def Inserted.leaves : Inserted → List Leaf
  | .failed _ => []
  | .done => []
  | .split _ right => right.leaves

def InsertResult.leaves (r : InsertResult) : List Leaf := r.node.leaves ++ r.report.leaves

/-- What an insertion does to the leaves: one of them gets other entries, or is split
in two, the right one at a new address. -/
inductive LeafStep (allocs allocs' : Nat) : List Leaf → List Leaf → Prop
  | kept {before after : List Leaf} {address : Nat} {es es' : List (Int × Int)} {next : Option Nat}
      (counted : allocs ≤ allocs') :
      LeafStep allocs allocs' (before ++ [⟨address, es, next⟩] ++ after)
        (before ++ [⟨address, es', next⟩] ++ after)
  | split {before after : List Leaf} {address new : Nat} {es left right : List (Int × Int)}
      {next : Option Nat} (fresh : allocs ≤ new) (counted : new < allocs') :
      LeafStep allocs allocs' (before ++ [⟨address, es, next⟩] ++ after)
        (before ++ [⟨address, left, some new⟩, ⟨new, right, next⟩] ++ after)

theorem LeafStep.within {allocs allocs' : Nat} {leaves leaves' : List Leaf}
    (h : LeafStep allocs allocs' leaves leaves') (outerLeft outerRight : List Leaf) :
    LeafStep allocs allocs' (outerLeft ++ leaves ++ outerRight)
      (outerLeft ++ leaves' ++ outerRight) := by
  cases h with
  | @kept before after address es es' next hcounted =>
    have hstep : LeafStep allocs allocs'
        ((outerLeft ++ before) ++ [⟨address, es, next⟩] ++ (after ++ outerRight))
        ((outerLeft ++ before) ++ [⟨address, es', next⟩] ++ (after ++ outerRight)) :=
      .kept hcounted
    simpa using hstep
  | @split before after address new es left right next hfresh hcounted =>
    have hstep : LeafStep allocs allocs'
        ((outerLeft ++ before) ++ [⟨address, es, next⟩] ++ (after ++ outerRight))
        ((outerLeft ++ before) ++ [⟨address, left, some new⟩, ⟨new, right, next⟩] ++
          (after ++ outerRight)) :=
      .split hfresh hcounted
    simpa using hstep

theorem LeafStep.later {allocs allocs' allocs'' : Nat} {leaves leaves' : List Leaf}
    (h : LeafStep allocs allocs' leaves leaves') (hle : allocs' ≤ allocs'') :
    LeafStep allocs allocs'' leaves leaves' := by
  cases h with
  | kept hcounted => exact .kept (hcounted.trans hle)
  | split hfresh hcounted => exact .split hfresh (hcounted.trans_le hle)

theorem insertIntoLeaf_leaves (address : Nat) (es : List (Int × Int)) (next : Option Nat)
    (key rowIndex : Int) (allocs : Nat) :
    LeafStep allocs (insertIntoLeaf allocated address es next key rowIndex allocs).allocs
      [⟨address, es, next⟩]
      (insertIntoLeaf allocated address es next key rowIndex allocs).leaves := by
  have hkept : ∀ es' : List (Int × Int),
      LeafStep allocs allocs [⟨address, es, next⟩] [⟨address, es', next⟩] := by
    intro es'
    have hstep : LeafStep allocs allocs ([] ++ [⟨address, es, next⟩] ++ [])
        ([] ++ [⟨address, es', next⟩] ++ []) :=
      .kept (Nat.le_refl allocs)
    simpa using hstep
  have hsplit : ∀ left right : List (Int × Int), LeafStep allocs (allocs + 1)
      [⟨address, es, next⟩] [⟨address, left, some allocs⟩, ⟨allocs, right, next⟩] := by
    intro left right
    have hstep : LeafStep allocs (allocs + 1) ([] ++ [⟨address, es, next⟩] ++ [])
        ([] ++ [⟨address, left, some allocs⟩, ⟨allocs, right, next⟩] ++ []) :=
      .split (Nat.le_refl allocs) (Nat.lt_succ_self allocs)
    simpa using hstep
  rcases hsearch : leafSearch es key with ⟨_ | _, slot⟩
  · by_cases hroom : es.length < maxKeys
    · simpa [insertIntoLeaf, hsearch, hroom, InsertResult.leaves, Inserted.leaves] using hkept _
    · simpa [insertIntoLeaf, hsearch, hroom, InsertResult.leaves, Inserted.leaves] using hsplit _ _
  · simpa [insertIntoLeaf, hsearch, InsertResult.leaves, Inserted.leaves] using hkept es

/-- The children of a node that took in a split child are all still there, in it or
in the node split off. -/
theorem absorbSplit_leaves {ks : List Int} {cs : List BPTreeNode} (hmax : ks.length ≤ maxKeys)
    (hcount : cs.length = ks.length + 1) (child : Nat) (promoted : Int) (right : BPTreeNode)
    (allocs : Nat) :
    (absorbSplit allocated ks cs child promoted right allocs).leaves =
        (insertAt cs (child + 1) right).flatMap BPTreeNode.leaves ∧
      allocs ≤ (absorbSplit allocated ks cs child promoted right allocs).allocs := by
  have hlength := insertAt_length cs (child + 1) right
  by_cases hroom : ks.length < maxKeys
  · simp [absorbSplit, hroom, InsertResult.leaves, Inserted.leaves]
  · have hall : ((insertAt cs (child + 1) right).drop (order / 2 + 1)).take
        (order - order / 2 - 1 + 1) = (insertAt cs (child + 1) right).drop (order / 2 + 1) := by
      apply List.take_of_length_le
      rw [List.length_drop]
      simp only [maxKeys, order] at *
      omega
    simp only [absorbSplit, hroom, if_false, allocated_eq, if_true, InsertResult.leaves,
      Inserted.leaves, leaves_branch, hall]
    rw [← List.flatMap_append, List.take_append_drop]
    exact ⟨rfl, Nat.le_succ allocs⟩

theorem insertRecursive_leaves {isRoot : Bool} {h : Nat} {lo hi key : Int} {n : BPTreeNode}
    (hn : Subtree isRoot h lo hi n) (hlo : lo ≤ key) (hhi : key < hi) (rowIndex : Int)
    (allocs : Nat) :
    ∃ r, insertRecursive allocated key rowIndex n allocs = some r ∧
      LeafStep allocs r.allocs n.leaves r.leaves := by
  induction h generalizing isRoot lo hi n with
  | zero =>
    cases n with
    | branch ks cs => exact hn.elim
    | leaf address es next =>
      rw [leaves_leaf]
      exact ⟨_, by simp only [insertRecursive],
        insertIntoLeaf_leaves address es next key rowIndex allocs⟩
  | succ h ih =>
    cases n with
    | leaf address es next => exact hn.elim
    | branch ks cs =>
      obtain ⟨hsep, -, hmax⟩ := hn
      obtain ⟨before, left, a, c, b, after, right, f, hindex, hget, -⟩ := descend hsep hlo hhi
      obtain ⟨⟨c', allocs', report⟩, hr, hstep⟩ := ih f.here f.low f.high
      have hwithin := hstep.within (left.flatMap BPTreeNode.leaves) (right.flatMap BPTreeNode.leaves)
      have hset : cs.set (childIndex ks key) c' = left ++ c' :: right := by
        rw [hindex, f.items]
        simp
      have hcount : (left ++ c' :: right).length = ks.length + 1 := by
        rw [← hset, List.length_set]
        exact hsep.length_eq
      simp only [insertRecursive, insertIntoChild_eq, hget, Option.bind_some, hr, hset]
      rw [leaves_branch, f.items]
      cases report with
      | failed error =>
        refine ⟨_, rfl, ?_⟩
        simpa [InsertResult.leaves, Inserted.leaves] using hwithin
      | done =>
        refine ⟨_, rfl, ?_⟩
        simpa [InsertResult.leaves, Inserted.leaves] using hwithin
      | split promoted right' =>
        obtain ⟨hleaves, hallocs⟩ := absorbSplit_leaves hmax hcount (childIndex ks key) promoted
          right' allocs'
        have hchildren : insertAt (left ++ c' :: right) (childIndex ks key + 1) right' =
            left ++ [c', right'] ++ right := by
          have := insertAt_append (left ++ [c']) right right'
          simpa [hindex] using this
        refine ⟨_, rfl, ?_⟩
        rw [hleaves, hchildren]
        refine LeafStep.later ?_ hallocs
        simpa [InsertResult.leaves, Inserted.leaves] using hwithin

/-! ## Whole runs -/

/-- The links lead through the leaves in their order and end there, and no address is
used twice or still to be given out. -/
structure Threaded (allocs : Nat) (leaves : List Leaf) : Prop where
  linked : ∃ start, Linked start leaves none
  distinct : (leaves.map Cell.address).Nodup
  bounded : ∀ address ∈ leaves.map Cell.address, address < allocs

theorem LeafStep.threaded {allocs allocs' : Nat} {leaves leaves' : List Leaf}
    (h : LeafStep allocs allocs' leaves leaves') (ht : Threaded allocs leaves) :
    Threaded allocs' leaves' := by
  obtain ⟨⟨start, hlinked⟩, hdistinct, hbounded⟩ := ht
  cases h with
  | @kept before after address es es' next hcounted =>
    have hsame : (before ++ [(⟨address, es', next⟩ : Leaf)] ++ after).map Cell.address =
        (before ++ [(⟨address, es, next⟩ : Leaf)] ++ after).map Cell.address := by
      simp
    constructor
    · exact ⟨start, hlinked.exchange fun h => h⟩
    · rwa [hsame]
    · rw [hsame]
      exact fun a ha => (hbounded a ha).trans_le hcounted
  | @split before after address new es left right next hfresh hcounted =>
    have hperm : ((before ++ [(⟨address, left, some new⟩ : Leaf), ⟨new, right, next⟩] ++ after).map
        Cell.address).Perm
          (new :: (before ++ [(⟨address, es, next⟩ : Leaf)] ++ after).map Cell.address) := by
      have hmiddle : ((before.map Cell.address ++ [address]) ++ new :: after.map Cell.address).Perm
          (new :: ((before.map Cell.address ++ [address]) ++ after.map Cell.address)) :=
        List.perm_middle
      simpa using hmiddle
    have hnew : new ∉ (before ++ [(⟨address, es, next⟩ : Leaf)] ++ after).map Cell.address := by
      intro hmem
      exact absurd (hbounded new hmem) (Nat.not_lt.mpr hfresh)
    constructor
    · refine ⟨start, hlinked.exchange ?_⟩
      rintro p q ⟨hp, hq⟩
      exact ⟨hp, rfl, hq⟩
    · rw [hperm.nodup_iff, List.nodup_cons]
      exact ⟨hnew, hdistinct⟩
    · intro a ha
      rcases List.mem_cons.mp (hperm.mem_iff.mp ha) with rfl | ha
      · exact hcounted
      · exact (hbounded a ha).trans_le (hfresh.trans hcounted.le)

theorem bptreeInsert_threaded {tree tree' : BPTree} {m : Int → Option Int} {key rowIndex : Int}
    {out : Except SqlError Unit} (hrep : Represents tree m)
    (ht : Threaded tree.allocs tree.leaves)
    (h : bptreeInsert allocated tree key rowIndex = some (tree', out)) :
    Threaded tree'.allocs tree'.leaves := by
  obtain ⟨root, allocs⟩ := tree
  cases root with
  | none =>
    simp only [bptreeInsert, allocated_eq, if_true] at h
    cases h
    constructor
    · exact ⟨some allocs, by simp [BPTree.leaves, Linked]⟩
    · simp [BPTree.leaves]
    · simp [BPTree.leaves]
  | some root =>
    obtain ⟨⟨height, _, _, hn⟩, -⟩ := hrep
    obtain ⟨lo, hi, hn, hlo, hhi⟩ := subtree_around hn key
    obtain ⟨⟨n, allocs', report⟩, hr, hstep⟩ := insertRecursive_leaves hn hlo hhi rowIndex allocs
    have hthreaded := hstep.threaded ht
    cases report with
    | failed error =>
      simp only [bptreeInsert, hr] at h
      cases h
      simpa [InsertResult.leaves, Inserted.leaves, BPTree.leaves] using hthreaded
    | done =>
      simp only [bptreeInsert, hr] at h
      cases h
      simpa [InsertResult.leaves, Inserted.leaves, BPTree.leaves] using hthreaded
    | split promoted right =>
      simp only [bptreeInsert, hr, allocated_eq, if_true] at h
      cases h
      have hgrown := (hstep.later (Nat.le_succ allocs')).threaded ht
      simpa [InsertResult.leaves, Inserted.leaves, BPTree.leaves] using hgrown

theorem insertAll_threaded (pairs : List (Int × Int)) :
    ∃ tree, insertAll bptreeCreate pairs = some tree ∧
      Represents tree (fun k => pairs.lookup k) ∧ Threaded tree.allocs tree.leaves := by
  have hcreate : Threaded bptreeCreate.allocs bptreeCreate.leaves :=
    ⟨⟨none, rfl⟩, List.nodup_nil, by simp [bptreeCreate, BPTree.leaves]⟩
  obtain ⟨tree, hrun, hrep, hthreaded⟩ :=
    insertAll_keeps (fun hrep ht h => bptreeInsert_threaded hrep ht h) [] pairs represents_create
      hcreate
  exact ⟨tree, hrun, by simpa using hrep, hthreaded⟩

/-! ## Collecting -/

/-- The result for a capacity: all keys, or the first of them. -/
def collected (capacity : Int) (keys : List Int) : Collected :=
  if keys.length ≤ capacity.toNat then ⟨true, keys.length, keys⟩
  else ⟨false, 0, keys.take capacity.toNat⟩

theorem writeKeys_eq {capacity : Int} {es : List (Int × Int)} {written : List Int}
    (hroom : written.length ≤ capacity.toNat) :
    writeKeys capacity es written =
      (decide ((written ++ es.map Prod.fst).length ≤ capacity.toNat),
        (written ++ es.map Prod.fst).take capacity.toNat) := by
  induction es generalizing written with
  | nil => simp [writeKeys, hroom]
  | cons e es ih =>
    obtain ⟨key, row⟩ := e
    rw [writeKeys]
    split
    · rename_i hfull
      have hlength : written.length = capacity.toNat := by omega
      simp [hlength]
    · rename_i hless
      have hnext : (written ++ [key]).length ≤ capacity.toNat := by
        rw [List.length_append, List.length_singleton]
        omega
      rw [ih hnext]
      simp

theorem collectLoop_eq {leaves cells : List Leaf} {capacity : Int} {start : Option Nat}
    {written : List Int} {fuel : Nat} (hdistinct : (leaves.map Cell.address).Nodup)
    (hlinked : Linked start cells none) (hcells : ∀ cell ∈ cells, cell ∈ leaves)
    (hfuel : cells.length < fuel) (hroom : written.length ≤ capacity.toNat) :
    collectLoop leaves capacity fuel start written =
      some (collected capacity (written ++ (cells.flatMap Cell.content).map Prod.fst)) := by
  induction cells generalizing start written fuel with
  | nil =>
    obtain ⟨fuel, rfl⟩ : ∃ n, fuel = n + 1 := ⟨fuel - 1, by omega⟩
    obtain rfl : start = none := hlinked
    simp [collectLoop, collected, hroom]
  | cons leaf cells ih =>
    obtain ⟨fuel, rfl⟩ : ∃ n, fuel = n + 1 := ⟨fuel - 1, by omega⟩
    obtain ⟨rfl, hrest⟩ := hlinked
    obtain ⟨hleaf, hcells⟩ := List.forall_mem_cons.mp hcells
    have hfuel' : cells.length < fuel := Nat.lt_of_succ_lt_succ hfuel
    have hkeys : written ++ ((leaf :: cells).flatMap Cell.content).map Prod.fst =
        (written ++ leaf.content.map Prod.fst) ++ (cells.flatMap Cell.content).map Prod.fst := by
      simp
    simp only [collectLoop, at?_eq_some hdistinct hleaf, writeKeys_eq hroom, hkeys]
    by_cases hfits : (written ++ leaf.content.map Prod.fst).length ≤ capacity.toNat
    · simp only [hfits, decide_true, List.take_of_length_le hfits]
      exact ih hrest hcells hfuel' hfits
    · -- The keys run out of room in this leaf; those behind it are not looked at.
      have hlong : ¬ ((written ++ leaf.content.map Prod.fst) ++
          (cells.flatMap Cell.content).map Prod.fst).length ≤ capacity.toNat := by
        rw [List.length_append]
        omega
      have hcut : ((written ++ leaf.content.map Prod.fst) ++
          (cells.flatMap Cell.content).map Prod.fst).take capacity.toNat =
            (written ++ leaf.content.map Prod.fst).take capacity.toNat :=
        List.take_append_of_le_length (Nat.le_of_not_le hfits)
      simp only [hfits, decide_false, collected, hlong, if_false, hcut]

/-- **The chain of leaves.** After any sequence of insertions into a new tree, failed
ones included, following `next` from the leftmost leaf passes every leaf of the tree
once, from left to right, and ends. `bptree_collect_keys` then writes the distinct keys
in increasing order as far as the capacity goes, and returns 1 and their number if it
goes far enough, and 0 with a count of 0 if not. -/
theorem leaf_chain_in_order (pairs : List (Int × Int)) :
    ∃ tree, insertAll bptreeCreate pairs = some tree ∧
      (∀ root, tree.root = some root → ∃ first, firstLeaf root = some first ∧
        (root.leaves.map Cell.address).Nodup ∧
        ∀ fuel, root.leaves.length < fuel →
          follow root.leaves fuel (some first.address) = some root.leaves) ∧
      ∃ keys : List Int, keys.Pairwise (· < ·) ∧ (∀ key, key ∈ keys ↔ key ∈ pairs.map Prod.fst) ∧
        ∀ fuel, tree.leaves.length < fuel → ∀ capacity : Int,
          bptreeCollectKeys fuel tree capacity =
            some (if keys.length ≤ capacity.toNat then ⟨true, keys.length, keys⟩
              else ⟨false, 0, keys.take capacity.toNat⟩) := by
  obtain ⟨tree, hrun, hrep, ⟨start, hlinked⟩, hdistinct, -⟩ := insertAll_threaded pairs
  obtain ⟨root, allocs⟩ := tree
  refine ⟨_, hrun, ?_⟩
  cases root with
  | none =>
    have hkeys : ∀ key, key ∉ pairs.map Prod.fst := by
      intro key hmem
      have hsome := (lookup_isSome_iff pairs key).mpr hmem
      rw [show pairs.lookup key = none from hrep key] at hsome
      cases hsome
    refine ⟨by simp, [], List.Pairwise.nil, fun key => by simp [hkeys key], fun fuel _ capacity => ?_⟩
    simp [bptreeCollectKeys]
  | some root =>
    obtain ⟨⟨height, lo, hi, hn⟩, hm⟩ := hrep
    obtain ⟨hentries, first, rest, hleaves, hfirst⟩ := subtree_leaves hn
    change Linked start root.leaves none at hlinked
    obtain rfl : start = some first.address := by
      rw [hleaves] at hlinked
      exact hlinked.1
    constructor
    · intro root' hroot
      cases hroot
      exact ⟨first, hfirst, hdistinct, fun fuel hfuel =>
        hlinked.follow hdistinct (fun cell hcell => hcell) hfuel⟩
    · refine ⟨root.entries.map Prod.fst, List.pairwise_map.mpr (subtree_entries hn).1,
        fun key => ?_, fun fuel hfuel capacity => ?_⟩
      · rw [← lookup_isSome_iff pairs, Option.isSome_iff_exists, List.mem_map]
        constructor
        · rintro ⟨⟨k, r⟩, hmem, rfl⟩
          exact ⟨r, (hm k r).mp hmem⟩
        · rintro ⟨r, hr⟩
          exact ⟨(key, r), (hm key r).mpr hr, rfl⟩
      · have hempty : ([] : List Int).length ≤ capacity.toNat := Nat.zero_le _
        have hcollect := collectLoop_eq hdistinct hlinked (fun cell hcell => hcell) hfuel hempty
        rw [List.nil_append, hentries] at hcollect
        simp only [bptreeCollectKeys, hfirst]
        exact hcollect

end MiniSql.Index
