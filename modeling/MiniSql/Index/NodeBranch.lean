import MiniSql.Index.NodeLeaf

/-!
# Insertion into an internal node in memory

Behind the recursive call the child, and its new right sibling if it was split, stand
in memory beside the other children, whose nodes nobody has touched. The internal node
then takes in the new child, or is split itself.
-/

namespace MiniSql.Index

open Cells NodeHeap

/-! ## The arrays of an internal node -/

theorem map_some_insert (addresses : List Nat) (slot address : Nat) :
    (addresses.map some).take slot ++ some address :: (addresses.map some).drop slot =
      (insertAt addresses slot address).map some := by
  simp [insertAt, List.map_take, List.map_drop]

theorem fillTemp_eq {α : Type} {size : Nat} {items : List α} {cells : List (Option α)}
    (h : Holds size items cells) {slot : Nat} (hslot : slot ≤ items.length) (item : α)
    {tempSize : Nat} (hroom : items.length < tempSize) :
    ∃ temp, fillTemp cells items.length slot item tempSize = some temp ∧
      Holds tempSize (insertAt items slot item) temp := by
  have hsize : (uninitialized tempSize : List (Option α)).length = tempSize := List.length_replicate
  obtain ⟨front, mid, temp, hfront, hmid, hback, hholds⟩ :=
    h.insertInto hslot item (show items.length < (uninitialized tempSize).length by rwa [hsize])
  rw [hsize] at hholds
  refine ⟨temp, ?_, hholds⟩
  simp only [fillTemp, hfront, Option.bind_eq_bind, Option.bind_some, hmid, hback]

theorem absorb_fits {record : NodeRecord} {keys : List Int} {addresses : List Nat}
    (hfits : BranchFits record keys addresses) {child : Nat} (hchild : child ≤ keys.length)
    (hroom : keys.length < maxKeys) (promotedKey : Int) (splitRight : Nat) :
    ∃ record', absorb record child promotedKey splitRight = some record' ∧
      BranchFits record' (insertAt keys child promotedKey)
        (insertAt addresses (child + 1) splitRight) := by
  have hsize : (addresses.map some).length = keys.length + 1 := by
    rw [List.length_map, hfits.arity]
  obtain ⟨movedKeys, newKeys, hmoveKeys, hstoreKeys, hkeys⟩ :=
    hfits.keys.insert hchild hroom promotedKey
  obtain ⟨movedChildren, newChildren, hmoveChildren, hstoreChildren, hchildren⟩ :=
    hfits.children.insert (show child + 1 ≤ (addresses.map some).length by omega)
      (by rw [hsize]; simp only [maxKeys] at hroom; omega) (some splitRight)
  rw [hsize] at hmoveChildren
  rw [map_some_insert] at hchildren
  refine ⟨{ record with keys := newKeys, children := newChildren, keyCount := keys.length + 1 }, ?_,
    hfits.isBranch, ?_, ?_, hkeys, hchildren⟩
  · simp only [absorb, hfits.count, hmoveKeys, Option.bind_eq_bind, Option.bind_some, hmoveChildren,
      hstoreKeys, hstoreChildren]
  · simp only [insertAt_length]
  · simp only [insertAt_length, hfits.arity]

theorem fillBranch_fits {record : NodeRecord} (hisLeaf : record.isLeaf = false)
    (hkeysLength : record.keys.length = maxKeys)
    (hchildrenLength : record.children.length = order + 1) {keysSize childrenSize : Nat}
    {keys : List Int} {addresses : List Nat} {tempKeys : List (Option Int)}
    {tempChildren : List (Option (Option Nat))} (hkeys : Holds keysSize keys tempKeys)
    (hchildren : Holds childrenSize (addresses.map some) tempChildren) {first count : Nat}
    (hcount : count ≤ maxKeys) (hfirst : first + count ≤ keys.length)
    (harity : first + count < addresses.length) :
    ∃ record', fillBranch record tempKeys tempChildren first count = some record' ∧
      BranchFits record' ((keys.drop first).take count) ((addresses.drop first).take (count + 1)) := by
  have hmax : maxKeys < order + 1 := by decide
  obtain ⟨newKeys, hcopyKeys, hnewKeys⟩ :=
    hkeys.copyOut first count hfirst record.keys (by omega)
  obtain ⟨someChildren, hcopyChildren, hsomeChildren⟩ :=
    hchildren.copyOut first count (by rw [List.length_map]; omega) record.children (by omega)
  rw [hkeysLength] at hnewKeys
  rw [hchildrenLength, ← List.map_drop, ← List.map_take] at hsomeChildren
  have hlength : (((addresses.drop first).take count).map some).length = count := by
    simp only [List.length_map, List.length_take, List.length_drop]
    omega
  have hlast : load tempChildren (first + count) = some (some addresses[first + count]) := by
    rw [hchildren.load (by rw [List.length_map]; exact harity)]
    simp [harity]
  obtain ⟨newChildren, hstore, hnewChildren⟩ :=
    hsomeChildren.concat (by rw [hlength]; omega) (some addresses[first + count])
  rw [hlength] at hstore
  refine ⟨{ record with keyCount := count, keys := newKeys, children := newChildren }, ?_, hisLeaf,
    ?_, ?_, hnewKeys, ?_⟩
  · simp only [fillBranch, forUp_inPair hcopyKeys hcopyChildren, Option.bind_eq_bind,
      Option.bind_some, hlast, hstore]
  · simp only [List.length_take, List.length_drop]
    omega
  · simp only [List.length_take, List.length_drop]
    omega
  · have hconcat : (addresses.drop first).take (count + 1) =
        (addresses.drop first).take count ++ [addresses[first + count]] := by
      rw [List.take_add_one, List.getElem?_drop, List.getElem?_eq_getElem harity]
      rfl
    rw [hconcat, List.map_append]
    exact hnewChildren

/-- What the part of `bptree_insert_recursive` behind a split of the child does. -/
theorem absorbSplit_run (mem : Nat → Bool) {heap : NodeHeap} {address : Nat} {record : NodeRecord}
    (hrecord : heap.node address = some record) (hlt : address < heap.allocs) {keys : List Int}
    {addresses : List Nat} (hfits : BranchFits record keys addresses) {child : Nat}
    (hchild : child ≤ keys.length) (promotedKey : Int) (splitRight : Nat) :
    let tempKeys := insertAt keys child promotedKey
    let tempAddresses := insertAt addresses (child + 1) splitRight
    if keys.length < maxKeys then
      ∃ record', heap.absorbSplit mem address child promotedKey splitRight =
          some (heap.set address record', .done) ∧ BranchFits record' tempKeys tempAddresses
    else if mem heap.allocs then
      ∃ left right, heap.absorbSplit mem address child promotedKey splitRight =
          some ((heap.add right).set address left,
            .split (tempKeys.getD (order / 2) 0) heap.allocs) ∧
        BranchFits left (tempKeys.take (order / 2)) (tempAddresses.take (order / 2 + 1)) ∧
        BranchFits right ((tempKeys.drop (order / 2 + 1)).take (order - order / 2 - 1))
          ((tempAddresses.drop (order / 2 + 1)).take (order - order / 2 - 1 + 1))
    else heap.absorbSplit mem address child promotedKey splitRight =
      some (⟨heap.node, heap.allocs + 1⟩, .failed nodeAllocationFailed) := by
  intro tempKeys tempAddresses
  have harity := hfits.arity
  unfold NodeHeap.absorbSplit
  simp only [hrecord, Option.bind_eq_bind, Option.bind_some, hfits.count]
  by_cases hroom : keys.length < maxKeys
  · obtain ⟨record', habsorb, hfits'⟩ := absorb_fits hfits hchild hroom promotedKey splitRight
    simp only [if_pos hroom, habsorb, Option.bind_some]
    exact ⟨record', rfl, hfits'⟩
  · have hfull : keys.length = maxKeys := by
      have hle := hfits.keys.le
      omega
    have hsize : (addresses.map some).length = keys.length + 1 := by rw [List.length_map, harity]
    obtain ⟨keyCells, hfillKeys, hkeys⟩ := fillTemp_eq hfits.keys hchild promotedKey
      (show keys.length < order by rw [hfull]; decide)
    obtain ⟨childCells, hfillChildren, hchildren⟩ := fillTemp_eq hfits.children
      (show child + 1 ≤ (addresses.map some).length by omega) (some splitRight)
      (show (addresses.map some).length < order + 1 by rw [hsize, hfull]; decide)
    rw [hsize] at hfillChildren
    rw [insertAt, map_some_insert] at hchildren
    have hkeysLength : tempKeys.length = order := by
      simp only [tempKeys, insertAt_length, hfull]
      rfl
    have haddressesLength : tempAddresses.length = order + 1 := by
      simp only [tempAddresses, insertAt_length, harity, hfull]
      rfl
    simp only [if_neg hroom, hfillKeys, hfillChildren, Option.bind_some, create]
    cases mem heap.allocs with
    | false => simp only [Bool.false_eq_true, if_false]
    | true =>
      obtain ⟨left, hfillLeft, hleft⟩ := fillBranch_fits hfits.isBranch hfits.keys.1
        hfits.children.1 hkeys hchildren (show order / 2 ≤ maxKeys by decide)
        (show 0 + order / 2 ≤ tempKeys.length by rw [hkeysLength]; decide)
        (show 0 + order / 2 < tempAddresses.length by rw [haddressesLength]; decide)
      obtain ⟨right, hfillRight, hright⟩ := fillBranch_fits rfl (zeroNode_keys false)
        (zeroNode_children false) hkeys hchildren (show order - order / 2 - 1 ≤ maxKeys by decide)
        (show order / 2 + 1 + (order - order / 2 - 1) ≤ tempKeys.length by rw [hkeysLength]; decide)
        (show order / 2 + 1 + (order - order / 2 - 1) < tempAddresses.length by
          rw [haddressesLength]
          decide)
      have hpromoted : load keyCells (order / 2) = some (tempKeys.getD (order / 2) 0) := by
        have hin : order / 2 < tempKeys.length := by
          rw [hkeysLength]
          decide
        have hget : tempKeys[order / 2]? = some (tempKeys.getD (order / 2) 0) := by
          rw [List.getD_eq_getElem?_getD, List.getElem?_eq_getElem hin]
          rfl
        exact (hkeys.load hin).trans hget
      simp only [if_true, add_node_self, Option.bind_some, hpromoted, hfillLeft, hfillRight]
      refine ⟨left, right, ?_, hleft, hright⟩
      rw [add_set_set (by omega)]

/-! ## The children behind the recursive call -/

/-- Children that stand in memory beside each other and apart from the node at `address`.
`old` are the nodes of the whole tree before the insertion. -/
structure Children (heap heap' : NodeHeap) (height address : Nat) (old : List Nat)
    (parts : List Part) : Prop where
  grows : heap.allocs ≤ heap'.allocs
  rep : ∀ part ∈ parts, Rep heap'.node height part
  nodup : (address :: parts.flatMap Part.footprint).Nodup
  here : address < heap.allocs ∧ address ∈ old
  within : ∀ x ∈ parts.flatMap Part.footprint, x ∈ old ∨ heap.allocs ≤ x ∧ x < heap'.allocs
  frame : ∀ x, x < heap.allocs → x ∉ old ∨ x = address → heap'.node x = heap.node x
  live : ∀ x, (heap'.node x).isSome = true →
    (heap.node x).isSome = true ∨ heap.allocs ≤ x ∧ x < heap'.allocs

/-- No node was lost. -/
def Children.Complete (heap heap' : NodeHeap) (address : Nat) (old : List Nat) (parts : List Part) :
    Prop :=
  ∀ x, x ∈ old ∨ heap.allocs ≤ x ∧ x < heap'.allocs → x ∈ address :: parts.flatMap Part.footprint

section

variable {mem : Nat → Bool} {heap heap' : NodeHeap} {height address : Nat} {old : List Nat}
  {parts : List Part}

/-- Fewer children. -/
theorem Children.sublist (h : Children heap heap' height address old parts) {parts' : List Part}
    (hparts : parts'.Sublist parts) : Children heap heap' height address old parts' := by
  have hfootprint : (parts'.flatMap Part.footprint).Sublist (parts.flatMap Part.footprint) :=
    hparts.flatMap _
  refine ⟨h.grows, ?_, ?_, h.here, ?_, h.frame, h.live⟩
  · intro part hpart
    exact h.rep part (hparts.subset hpart)
  · exact h.nodup.sublist (hfootprint.cons_cons address)
  · intro x hx
    exact h.within x (hfootprint.subset hx)

/-- A segment of a list without duplicates may be replaced by one that has nothing else
but fresh items. -/
theorem nodup_replace (fresh : Nat) {front middle back new : List Nat}
    (hnodup : (front ++ (middle ++ back)).Nodup) (hnew : new.Nodup)
    (hold : ∀ x ∈ front ++ (middle ++ back), x < fresh)
    (hwithin : ∀ x ∈ new, x ∈ middle ∨ fresh ≤ x) : (front ++ (new ++ back)).Nodup := by
  simp only [List.nodup_append, List.mem_append] at hnodup hold ⊢
  obtain ⟨hfront, ⟨-, hback, hmiddleBack⟩, hfrontRest⟩ := hnodup
  refine ⟨hfront, ⟨hnew, hback, ?_⟩, ?_⟩
  · intro a ha b hb hab
    rcases hwithin a ha with hmiddle | hge
    · exact hmiddleBack a hmiddle b hb hab
    · have hlt := hold b (.inr (.inr hb))
      omega
  · intro a ha b hb hab
    rcases hb with hb | hb
    · rcases hwithin b hb with hmiddle | hge
      · exact hfrontRest a ha b (.inl hmiddle) hab
      · have hlt := hold a (.inl ha)
        omega
    · exact hfrontRest a ha b (.inr hb) hab

/-- The recursive call on one child, seen among all children. -/
theorem Simulates.children (rights : List Part) {before after : List Part} {child : Part}
    {result : InsertResult} {report : NodeInserted} {footprint : List Nat}
    (h : Simulates mem heap heap' height child result report footprint (rights.flatMap Part.footprint))
    (hrights : ∀ part ∈ rights, Rep heap'.node height part)
    (hrep : ∀ part ∈ before ++ child :: after, Rep heap.node height part)
    (hnodup : (address :: (before ++ child :: after).flatMap Part.footprint).Nodup)
    (howned : ∀ x ∈ address :: (before ++ child :: after).flatMap Part.footprint, x < heap.allocs) :
    Children heap heap' height address (address :: (before ++ child :: after).flatMap Part.footprint)
      (before ++ ⟨child.address, result.node, footprint⟩ :: (rights ++ after)) ∧
    (Given mem heap heap' → Children.Complete heap heap' address
      (address :: (before ++ child :: after).flatMap Part.footprint)
      (before ++ ⟨child.address, result.node, footprint⟩ :: (rights ++ after))) := by
  have hflat : address :: (before ++ child :: after).flatMap Part.footprint =
      (address :: before.flatMap Part.footprint) ++
        (child.footprint ++ after.flatMap Part.footprint) := by
    simp [List.flatMap_append]
  have hflat' : address :: (before ++ ⟨child.address, result.node, footprint⟩ ::
        (rights ++ after)).flatMap Part.footprint =
      (address :: before.flatMap Part.footprint) ++
        ((footprint ++ rights.flatMap Part.footprint) ++ after.flatMap Part.footprint) := by
    simp [List.flatMap_append]
  have hapart : ∀ x ∈ child.footprint, x ∉ address :: before.flatMap Part.footprint ∧
      x ∉ after.flatMap Part.footprint := by
    rw [hflat] at hnodup
    obtain ⟨-, hback, hcross⟩ := List.nodup_append.mp hnodup
    obtain ⟨-, -, hcross'⟩ := List.nodup_append.mp hback
    intro x hx
    exact ⟨fun hfront => hcross x hfront x (List.mem_append_left _ hx) rfl,
      fun hlater => hcross' x hx x hlater rfl⟩
  refine ⟨⟨h.grows, ?_, ?_, ⟨howned address List.mem_cons_self, List.mem_cons_self⟩, ?_, ?_, h.live⟩, ?_⟩
  · -- The other children are where they were.
    have hother (part : Part) (hpart : part ∈ before ∨ part ∈ after) : Rep heap'.node height part := by
      have hmem : part ∈ before ++ child :: after := by
        rcases hpart with hpart | hpart
        · exact List.mem_append_left _ hpart
        · exact List.mem_append_right _ (List.mem_cons_of_mem _ hpart)
      apply (hrep part hmem).congr
      intro x hx
      apply h.frame
      · exact howned x (List.mem_cons_of_mem _ (List.mem_flatMap.mpr ⟨part, hmem, hx⟩))
      · intro hchild
        rcases hpart with hpart | hpart
        · exact (hapart x hchild).1
            (List.mem_cons_of_mem _ (List.mem_flatMap.mpr ⟨part, hpart, hx⟩))
        · exact (hapart x hchild).2 (List.mem_flatMap.mpr ⟨part, hpart, hx⟩)
    intro part hpart
    rcases List.mem_append.mp hpart with hpart | hpart
    · exact hother part (.inl hpart)
    · rcases List.mem_cons.mp hpart with rfl | hpart
      · exact h.rep
      · rcases List.mem_append.mp hpart with hpart | hpart
        · exact hrights part hpart
        · exact hother part (.inr hpart)
  · rw [hflat']
    rw [hflat] at hnodup howned
    apply nodup_replace heap.allocs hnodup h.nodup howned
    intro x hx
    rcases h.within x hx with hold | ⟨hge, -⟩
    · exact .inl hold
    · exact .inr hge
  · intro x hx
    have hx' := List.mem_cons_of_mem address hx
    rw [hflat'] at hx'
    rw [hflat]
    rcases List.mem_append.mp hx' with hx' | hx'
    · exact .inl (List.mem_append_left _ hx')
    · rcases List.mem_append.mp hx' with hx' | hx'
      · rcases h.within x hx' with hold | hfresh
        · exact .inl (List.mem_append_right _ (List.mem_append_left _ hold))
        · exact .inr hfresh
      · exact .inl (List.mem_append_right _ (List.mem_append_right _ hx'))
  · intro x hlt hx
    apply h.frame x hlt
    intro hchild
    rcases hx with hx | rfl
    · rw [hflat] at hx
      exact hx (List.mem_append_right _ (List.mem_append_left _ hchild))
    · exact (hapart x hchild).1 List.mem_cons_self
  · intro hgiven x hx
    rw [hflat']
    rw [hflat] at hx
    rcases hx with hx | hfresh
    · rcases List.mem_append.mp hx with hx | hx
      · exact List.mem_append_left _ hx
      · rcases List.mem_append.mp hx with hx | hx
        · exact List.mem_append_right _ (List.mem_append_left _ (h.complete hgiven x (.inl hx)))
        · exact List.mem_append_right _ (List.mem_append_right _ hx)
    · exact List.mem_append_right _ (List.mem_append_left _ (h.complete hgiven x (.inr hfresh)))

/-- The children, and a record of the node with all of them. -/
theorem Children.whole (h : Children heap heap' height address old parts) (heap'' : NodeHeap)
    {record : NodeRecord} {keys : List Int} (hrecord : heap''.node address = some record)
    (hfits : BranchFits record keys (parts.map Part.address))
    (hsame : ∀ x, x ≠ address → heap''.node x = heap'.node x)
    (hgrows : heap'.allocs ≤ heap''.allocs) (hold : (heap.node address).isSome = true)
    {treeReport : Inserted} {report : NodeInserted}
    (hreports : Reports heap''.node (height + 1) treeReport report [])
    (hcomplete : Given mem heap heap'' →
      heap''.allocs = heap'.allocs ∧ Children.Complete heap heap' address old parts)
    (tree : BPTreeNode) :
    Simulates mem heap heap'' (height + 1) ⟨address, tree, old⟩
      ⟨.branch keys (parts.map Part.node), heap''.allocs, treeReport⟩ report
      (address :: parts.flatMap Part.footprint) [] := by
  have hapart : ∀ x ∈ parts.flatMap Part.footprint, x ≠ address := by
    rintro x hx rfl
    exact (List.nodup_cons.mp h.nodup).1 hx
  refine ⟨rfl, Nat.le_trans h.grows hgrows, ?_, hreports, ?_, ?_, ?_, ?_, ?_⟩
  · refine ⟨parts, rfl, rfl, ?_, record, hrecord, hfits⟩
    intro part hpart
    apply (h.rep part hpart).congr
    intro x hx
    exact hsame x (hapart x (List.mem_flatMap.mpr ⟨part, hpart, hx⟩))
  · rw [List.append_nil]
    exact h.nodup
  · intro x hx
    rw [List.append_nil] at hx
    rcases List.mem_cons.mp hx with rfl | hx
    · exact .inl h.here.2
    · rcases h.within x hx with hx | ⟨hge, hlt⟩
      · exact .inl hx
      · exact .inr ⟨hge, Nat.lt_of_lt_of_le hlt hgrows⟩
  · intro x hlt hx
    have hne : x ≠ address := by
      rintro rfl
      exact hx h.here.2
    rw [hsame x hne]
    exact h.frame x hlt (.inl hx)
  · intro x hx
    by_cases hne : x = address
    · exact .inl (by rwa [hne])
    · rw [hsame x hne] at hx
      rcases h.live x hx with hx | ⟨hge, hlt⟩
      · exact .inl hx
      · exact .inr ⟨hge, Nat.lt_of_lt_of_le hlt hgrows⟩
  · intro hgiven x hx
    obtain ⟨hallocs, hall⟩ := hcomplete hgiven
    rw [hallocs] at hx
    rw [List.append_nil]
    exact hall x hx

/-- The children distributed over the node and a fresh sibling. -/
theorem Children.halves {left right : List Part}
    (h : Children heap heap' height address old (left ++ right))
    (hcomplete : Given mem heap heap' → Children.Complete heap heap' address old (left ++ right))
    {leftRecord rightRecord : NodeRecord} {leftKeys rightKeys : List Int}
    (hleft : BranchFits leftRecord leftKeys (left.map Part.address))
    (hright : BranchFits rightRecord rightKeys (right.map Part.address))
    (hold : (heap.node address).isSome = true)
    (howned : ∀ x ∈ old, x < heap.allocs) (promotedKey : Int) (tree : BPTreeNode) :
    Simulates mem heap ((heap'.add rightRecord).set address leftRecord) (height + 1)
      ⟨address, tree, old⟩
      ⟨.branch leftKeys (left.map Part.node), heap'.allocs + 1,
        .split promotedKey (.branch rightKeys (right.map Part.node))⟩
      (.split promotedKey heap'.allocs) (address :: left.flatMap Part.footprint)
      (heap'.allocs :: right.flatMap Part.footprint) := by
  have hgrows := h.grows
  have hne : heap'.allocs ≠ address := by
    have hlt := h.here.1
    omega
  have hapart : ∀ x ∈ (left ++ right).flatMap Part.footprint, x ≠ address ∧ x ≠ heap'.allocs := by
    intro x hx
    constructor
    · rintro rfl
      exact (List.nodup_cons.mp h.nodup).1 hx
    · rcases h.within x hx with hx | ⟨-, hlt⟩
      · have hlt := howned x hx
        omega
      · omega
  have hrep (part : Part) (hpart : part ∈ left ++ right) :
      Rep ((heap'.add rightRecord).set address leftRecord).node height part := by
    apply (h.rep part hpart).congr
    intro x hx
    obtain ⟨hx1, hx2⟩ := hapart x (List.mem_flatMap.mpr ⟨part, hpart, hx⟩)
    rw [set_node_of_ne hx1, add_node_of_ne hx2]
  have hflat : (address :: left.flatMap Part.footprint) ++
      (heap'.allocs :: right.flatMap Part.footprint) =
      (address :: left.flatMap Part.footprint) ++ ([heap'.allocs] ++ right.flatMap Part.footprint) := rfl
  have hflat' : address :: (left ++ right).flatMap Part.footprint =
      (address :: left.flatMap Part.footprint) ++ ([] ++ right.flatMap Part.footprint) := by
    simp [List.flatMap_append]
  refine ⟨rfl, Nat.le_succ_of_le hgrows, ?_, ?_, ?_, ?_, ?_, ?_, ?_⟩
  · exact ⟨left, rfl, rfl, fun part hpart => hrep part (List.mem_append_left _ hpart), leftRecord,
      set_node_self _ _, hleft⟩
  · apply @Reports.split _ _ promotedKey
      ⟨heap'.allocs, .branch rightKeys (right.map Part.node), heap'.allocs :: right.flatMap Part.footprint⟩
    exact ⟨right, rfl, rfl, fun part hpart => hrep part (List.mem_append_right _ hpart), rightRecord,
      by rw [set_node_of_ne hne, add_node_self], hright⟩
  · rw [hflat]
    have hnodup := h.nodup
    rw [hflat'] at hnodup
    apply nodup_replace heap'.allocs hnodup (List.nodup_singleton _)
    · intro x hx
      rw [← hflat'] at hx
      rcases List.mem_cons.mp hx with rfl | hx
      · have hlt := h.here.1
        omega
      · rcases h.within x hx with hx | ⟨-, hlt⟩
        · have hlt := howned x hx
          omega
        · exact hlt
    · intro x hx
      exact .inr (by simp only [List.mem_singleton] at hx; omega)
  · intro x hx
    simp only [set_allocs, add_allocs]
    have hmem : x = heap'.allocs ∨ x ∈ address :: (left ++ right).flatMap Part.footprint := by
      simp only [List.flatMap_append, List.mem_append, List.mem_cons] at hx ⊢
      tauto
    rcases hmem with rfl | hmem
    · omega
    · rcases List.mem_cons.mp hmem with rfl | hmem
      · exact .inl h.here.2
      · rcases h.within x hmem with hx | ⟨hge, hlt⟩
        · exact .inl hx
        · omega
  · intro x hlt hx
    have hne' : x ≠ address := by
      rintro rfl
      exact hx h.here.2
    rw [set_node_of_ne hne', add_node_of_ne (by omega)]
    exact h.frame x hlt (.inl hx)
  · intro x hx
    simp only [set_allocs, add_allocs]
    by_cases haddress : x = address
    · exact .inl (by rwa [haddress])
    · rw [set_node_of_ne haddress] at hx
      by_cases hfresh : x = heap'.allocs
      · omega
      · rw [add_node_of_ne hfresh] at hx
        rcases h.live x hx with hx | ⟨hge, hlt⟩
        · exact .inl hx
        · omega
  · intro hgiven x hx
    simp only [set_allocs, add_allocs] at hx
    by_cases hfresh : x = heap'.allocs
    · exact List.mem_append_right _ (by simp [hfresh])
    · have hgiven' : Given mem heap heap' := fun y hge hlt => hgiven y hge (Nat.lt_succ_of_lt hlt)
      have hmem := hcomplete hgiven' x (hx.imp_right fun hrange => ⟨hrange.1, by omega⟩)
      simp only [List.flatMap_append, List.mem_append, List.mem_cons] at hmem ⊢
      tauto

theorem insertAt_parts {α : Type} (f : Part → α) (before after : List Part) (child right : Part) :
    insertAt ((before ++ child :: after).map f) (before.length + 1) (f right) =
      (before ++ child :: right :: after).map f := by
  have hsplit := insertAt_append ((before ++ [child]).map f) (after.map f) (f right)
  simpa [List.map_append] using hsplit

/-- **The internal node takes in the new child.** `before`, `child` and `after` are the
children behind the recursive call, and `right` is the new sibling of `child`. -/
theorem absorbSplit_simulates {before after : List Part} {child right : Part}
    (h : Children heap heap' height address old (before ++ child :: right :: after))
    (hcomplete : Given mem heap heap' →
      Children.Complete heap heap' address old (before ++ child :: right :: after))
    {record : NodeRecord} {keys : List Int} (hrecord : heap'.node address = some record)
    (hfits : BranchFits record keys ((before ++ child :: after).map Part.address))
    (hchild : before.length ≤ keys.length) (hold : (heap.node address).isSome = true)
    (howned : ∀ x ∈ old, x < heap.allocs) (promotedKey : Int) (tree : BPTreeNode) :
    ∃ heap'' report footprint extra,
      heap'.absorbSplit mem address before.length promotedKey right.address = some (heap'', report) ∧
      Simulates mem heap heap'' (height + 1) ⟨address, tree, old⟩
        (Index.absorbSplit mem keys ((before ++ child :: after).map Part.node) before.length
          promotedKey right.node heap'.allocs) report footprint extra := by
  have hlt : address < heap'.allocs := Nat.lt_of_lt_of_le h.here.1 h.grows
  have hrun := absorbSplit_run mem hrecord hlt hfits hchild promotedKey right.address
  rw [insertAt_parts] at hrun
  unfold Index.absorbSplit
  rw [insertAt_parts]
  by_cases hroom : keys.length < maxKeys
  · simp only [if_pos hroom] at hrun ⊢
    obtain ⟨record', habsorb, hfits'⟩ := hrun
    refine ⟨_, _, _, _, habsorb, h.whole _ (set_node_self _ _) hfits'
      (fun x hx => set_node_of_ne hx _) (Nat.le_refl _) hold .done ?_ tree⟩
    intro hgiven
    exact ⟨rfl, hcomplete hgiven⟩
  · have hfull : keys.length = maxKeys := by
      have hle := hfits.keys.le
      omega
    simp only [if_neg hroom] at hrun ⊢
    cases hmem : mem heap'.allocs with
    | true =>
      simp only [hmem, if_true] at hrun ⊢
      obtain ⟨leftRecord, rightRecord, habsorb, hleft, hright⟩ := hrun
      -- All children are on one side or the other.
      have hlength : (before ++ child :: right :: after).length = order + 1 := by
        have harity := hfits.arity
        simp only [List.length_map, List.length_append, List.length_cons] at harity ⊢
        rw [hfull] at harity
        simp only [maxKeys, order] at harity ⊢
        omega
      generalize before ++ child :: right :: after = parts at *
      have hdrop {α : Type} (f : Part → α) : ((parts.map f).drop (order / 2 + 1)).take
          (order - order / 2 - 1 + 1) = (parts.drop (order / 2 + 1)).map f := by
        rw [List.take_of_length_le, List.map_drop]
        simp only [List.length_drop, List.length_map, hlength]
        decide
      rw [← List.map_take] at hleft
      rw [hdrop] at hright
      rw [hdrop, ← List.map_take]
      have hboth : parts.take (order / 2 + 1) ++ parts.drop (order / 2 + 1) = parts :=
        List.take_append_drop _ _
      rw [← hboth] at h hcomplete
      exact ⟨_, _, _, _, habsorb, h.halves hcomplete hleft hright hold howned _ tree⟩
    | false =>
      simp only [hmem, Bool.false_eq_true, if_false] at hrun ⊢
      have hfewer : (before ++ child :: after).Sublist (before ++ child :: right :: after) :=
        (List.Sublist.refl before).append ((List.sublist_cons_self right after).cons_cons child)
      refine ⟨_, _, _, _, hrun, (h.sublist hfewer).whole ⟨heap'.node, heap'.allocs + 1⟩ hrecord hfits
        (fun _ _ => rfl) (Nat.le_succ _) hold (.failed nodeAllocationFailed) ?_ tree⟩
      intro hgiven
      have htrue := hgiven heap'.allocs h.grows (Nat.lt_succ_self _)
      rw [hmem] at htrue
      cases htrue

end

end MiniSql.Index
