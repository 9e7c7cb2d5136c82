import MiniSql.Index.NodeHeap

/-!
# Insertion into a leaf in memory

What an insertion leaves in memory stands for what the insertion into the tree leaves;
it changes no node outside of the tree, and the nodes it creates are fresh.
-/

namespace MiniSql.Index

open Cells NodeHeap

/-! ## The relation to trees -/

/-- A report of the memory against one of the tree, with the nodes of a new right sibling. -/
inductive Reports (node : Nat → Option NodeRecord) (height : Nat) :
    Inserted → NodeInserted → List Nat → Prop
  | failed (error : SqlError) : Reports node height (.failed error) (.failed error) []
  | done : Reports node height .done .done []
  | split {promotedKey : Int} {right : Part} (rep : Rep node height right) :
      Reports node height (.split promotedKey right.node) (.split promotedKey right.address)
        right.footprint

/-- All calls of `bptree_node_create` between two states got their memory. -/
def NodeHeap.Given (mem : Nat → Bool) (heap heap' : NodeHeap) : Prop :=
  ∀ x, heap.allocs ≤ x → x < heap'.allocs → mem x = true

/-- The memory behind an insertion stands for the result on trees. No node is lost unless a
call for memory failed. -/
structure Simulates (mem : Nat → Bool) (heap heap' : NodeHeap) (height : Nat) (before : Part)
    (result : InsertResult) (report : NodeInserted) (footprint extra : List Nat) : Prop where
  allocs : heap'.allocs = result.allocs
  grows : heap.allocs ≤ heap'.allocs
  rep : Rep heap'.node height ⟨before.address, result.node, footprint⟩
  reports : Reports heap'.node height result.report report extra
  nodup : (footprint ++ extra).Nodup
  within : ∀ x ∈ footprint ++ extra,
    x ∈ before.footprint ∨ heap.allocs ≤ x ∧ x < heap'.allocs
  frame : ∀ x, x < heap.allocs → x ∉ before.footprint → heap'.node x = heap.node x
  live : ∀ x, (heap'.node x).isSome = true →
    (heap.node x).isSome = true ∨ heap.allocs ≤ x ∧ x < heap'.allocs
  complete : Given mem heap heap' → ∀ x,
    x ∈ before.footprint ∨ heap.allocs ≤ x ∧ x < heap'.allocs → x ∈ footprint ++ extra

/-! ## Memory -/

namespace NodeHeap

variable {heap : NodeHeap}

@[simp] theorem set_allocs (address : Nat) (record : NodeRecord) :
    (heap.set address record).allocs = heap.allocs := rfl

theorem set_node_self (address : Nat) (record : NodeRecord) :
    (heap.set address record).node address = some record :=
  Function.update_self ..

theorem set_node_of_ne {address x : Nat} (h : x ≠ address) (record : NodeRecord) :
    (heap.set address record).node x = heap.node x :=
  Function.update_of_ne h ..

theorem set_live {address x : Nat} {record : NodeRecord} (hold : (heap.node address).isSome = true)
    (h : ((heap.set address record).node x).isSome = true) : (heap.node x).isSome = true := by
  by_cases hx : x = address
  · rwa [hx]
  · rwa [set_node_of_ne hx] at h

@[simp] theorem add_allocs (record : NodeRecord) : (heap.add record).allocs = heap.allocs + 1 := rfl

theorem add_node_self (record : NodeRecord) : (heap.add record).node heap.allocs = some record :=
  Function.update_self ..

theorem add_node_of_ne {x : Nat} (h : x ≠ heap.allocs) (record : NodeRecord) :
    (heap.add record).node x = heap.node x :=
  Function.update_of_ne h ..

theorem add_set (record record' : NodeRecord) :
    (heap.add record).set heap.allocs record' = heap.add record' := by
  simp only [add, set, Function.update_idem]

theorem add_set_set {address : Nat} (h : address ≠ heap.allocs) (record left right : NodeRecord) :
    ((heap.add record).set address left).set heap.allocs right =
      (heap.add right).set address left := by
  simp only [add, set, Function.update_comm h, Function.update_idem]

end NodeHeap

theorem zeroNode_keys (isLeaf : Bool) : (zeroNode isLeaf).keys.length = maxKeys :=
  List.length_replicate

theorem zeroNode_rowIndexes (isLeaf : Bool) : (zeroNode isLeaf).rowIndexes.length = maxKeys :=
  List.length_replicate

theorem zeroNode_children (isLeaf : Bool) : (zeroNode isLeaf).children.length = order + 1 :=
  List.length_replicate

/-! ## Leaves -/

theorem leafSearchLoop_slot (entries : List (Int × Int)) (key : Int) {low high : Nat}
    (h : low ≤ high) : (leafSearchLoop entries key low high).2 ≤ high := by
  fun_induction leafSearchLoop entries key low high with
  | case1 low high hlt mid hkey => omega
  | case2 low high hlt mid hne hless ih => exact ih (by omega)
  | case3 low high hlt mid hne hnless ih =>
    have hslot := ih (by omega)
    omega
  | case4 low high hnlt => exact h

theorem insertAt_map {α β : Type} (f : α → β) (xs : List α) (slot : Nat) (x : α) :
    (insertAt xs slot x).map f = (xs.map f).take slot ++ f x :: (xs.map f).drop slot := by
  simp [insertAt, List.map_take, List.map_drop]

/-- The record of a leaf is replaced by another one. -/
theorem Simulates.replaced {mem : Nat → Bool} {heap : NodeHeap} {address : Nat} {before : BPTreeNode}
    {record : NodeRecord} {entries : List (Int × Int)} {next : Option Nat}
    (hold : (heap.node address).isSome = true)
    (hfits : LeafFits record entries next) :
    Simulates mem heap (heap.set address record) 0 ⟨address, before, [address]⟩
      ⟨.leaf address entries next, heap.allocs, .done⟩ .done [address] [] where
  allocs := rfl
  grows := Nat.le_refl _
  rep := ⟨rfl, rfl, record, set_node_self _ _, hfits⟩
  reports := .done
  nodup := List.nodup_singleton _
  within x hx := .inl (by simpa using hx)
  frame x _ hx := set_node_of_ne (by simpa using hx) _
  live x hx := .inl (set_live hold hx)
  complete _ x hx := by
    rcases hx with hx | ⟨hge, hless⟩
    · simpa using hx
    · simp only [set_allocs] at hless
      omega

/-- Nothing was changed but the number of calls for memory. -/
theorem Simulates.unchanged {mem : Nat → Bool} {heap : NodeHeap} {address : Nat} {entries : List (Int × Int)}
    {next : Option Nat} {record : NodeRecord} (hrecord : heap.node address = some record)
    (hfits : LeafFits record entries next) (heap' : NodeHeap) (hnode : heap'.node = heap.node)
    (hgrows : heap.allocs ≤ heap'.allocs)
    (hmem : heap.allocs < heap'.allocs → mem heap.allocs = false) (error : SqlError) :
    Simulates mem heap heap' 0 ⟨address, .leaf address entries next, [address]⟩
      ⟨.leaf address entries next, heap'.allocs, .failed error⟩ (.failed error) [address] [] where
  allocs := rfl
  grows := hgrows
  rep := ⟨rfl, rfl, record, by rw [hnode]; exact hrecord, hfits⟩
  reports := .failed error
  nodup := List.nodup_singleton _
  within x hx := .inl (by simpa using hx)
  frame x _ _ := by rw [hnode]
  live x hx := .inl (by rwa [← hnode])
  complete hgiven x hx := by
    rcases hx with hx | ⟨hge, hlt⟩
    · simpa using hx
    · have hfirst : heap.allocs < heap'.allocs := by omega
      have htrue := hgiven heap.allocs (Nat.le_refl _) hfirst
      rw [hmem hfirst] at htrue
      cases htrue

/-- A leaf is split into itself and a fresh one. -/
theorem Simulates.splitLeaf {mem : Nat → Bool} {heap : NodeHeap} {address : Nat} {before : BPTreeNode}
    {left right : NodeRecord} {entries rightEntries : List (Int × Int)} {next : Option Nat}
    (hlt : address < heap.allocs) (hold : (heap.node address).isSome = true)
    (hleft : LeafFits left entries (some heap.allocs)) (hright : LeafFits right rightEntries next)
    (promotedKey : Int) :
    Simulates mem heap ((heap.add right).set address left) 0 ⟨address, before, [address]⟩
      ⟨.leaf address entries (some heap.allocs), heap.allocs + 1,
        .split promotedKey (.leaf heap.allocs rightEntries next)⟩
      (.split promotedKey heap.allocs) [address] [heap.allocs] := by
  have hne : heap.allocs ≠ address := by omega
  refine ⟨rfl, Nat.le_succ _, ?_, ?_, ?_, ?_, ?_, ?_, ?_⟩
  · exact ⟨rfl, rfl, left, set_node_self _ _, hleft⟩
  · apply @Reports.split _ _ promotedKey ⟨heap.allocs, .leaf heap.allocs rightEntries next, [heap.allocs]⟩
    exact ⟨rfl, rfl, right, by rw [set_node_of_ne hne, add_node_self], hright⟩
  · simpa using hne.symm
  · intro x hx
    rcases List.mem_append.mp hx with hx | hx
    · exact .inl hx
    · simp only [List.mem_singleton] at hx
      simp only [set_allocs, add_allocs]
      omega
  · intro x hx hnot
    rw [set_node_of_ne (by simpa using hnot), add_node_of_ne (by omega)]
  · intro x hx
    by_cases haddress : x = address
    · exact .inl (by rwa [haddress])
    · rw [set_node_of_ne haddress] at hx
      by_cases hfresh : x = heap.allocs
      · simp only [set_allocs, add_allocs]
        omega
      · rw [add_node_of_ne hfresh] at hx
        exact .inl hx
  · intro _ x hx
    rcases hx with hx | ⟨hge, hless⟩
    · exact List.mem_append_left _ hx
    · simp only [set_allocs, add_allocs] at hless
      exact List.mem_append_right _ (by simp; omega)

/-- **Insertion into a leaf in memory.** -/
theorem insertIntoLeaf_simulates (mem : Nat → Bool) {heap : NodeHeap} {address : Nat}
    {entries : List (Int × Int)} {next : Option Nat} {record : NodeRecord}
    (hrecord : heap.node address = some record) (hfits : LeafFits record entries next)
    (hlt : address < heap.allocs) (key rowIndex : Int) :
    ∃ heap' report footprint extra,
      heap.insertIntoLeaf mem address key rowIndex = some (heap', report) ∧
      Simulates mem heap heap' 0 ⟨address, .leaf address entries next, [address]⟩
        (Index.insertIntoLeaf mem address entries next key rowIndex heap.allocs) report footprint
        extra := by
  have hold : (heap.node address).isSome = true := by rw [hrecord]; rfl
  have hsearch := leafSearchCells_eq hfits.keys key 0 entries.length (Nat.le_refl _)
  rw [← hfits.count] at hsearch
  have hslot := leafSearchLoop_slot entries key (Nat.zero_le entries.length)
  unfold NodeHeap.insertIntoLeaf Index.insertIntoLeaf
  simp only [hrecord, Option.bind_eq_bind, Option.bind_some, hsearch]
  unfold leafSearch
  rw [hfits.count]
  generalize leafSearchLoop entries key 0 entries.length = result at hslot ⊢
  obtain ⟨found, slot⟩ := result
  dsimp only at hslot ⊢
  cases found with
  | true =>
    rw [if_pos rfl]
    exact ⟨heap, _, _, _, rfl, Simulates.unchanged hrecord hfits heap rfl (Nat.le_refl _)
      (fun hlt => absurd hlt (Nat.lt_irrefl _)) _⟩
  | false =>
    rw [if_neg (by simp)]
    dsimp only
    by_cases hroom : entries.length < maxKeys
    · rw [if_pos hroom, if_pos hroom]
      obtain ⟨movedKeys, keys, hmoveKeys, hstoreKeys, hkeys⟩ := hfits.keys.insert
        (show slot ≤ (entries.map Prod.fst).length by simpa using hslot) (by simpa using hroom) key
      obtain ⟨movedRows, rows, hmoveRows, hstoreRows, hrows⟩ := hfits.rows.insert
        (show slot ≤ (entries.map Prod.snd).length by simpa using hslot) (by simpa using hroom)
        rowIndex
      rw [List.length_map] at hmoveKeys hmoveRows
      simp only [forDown_inPair hmoveKeys hmoveRows, Option.bind_some, hstoreKeys, hstoreRows]
      refine ⟨_, _, _, _, rfl, Simulates.replaced hold ⟨hfits.isLeaf, ?_, ?_, ?_, hfits.next⟩⟩
      · rw [insertAt_length]
      · rwa [insertAt_map]
      · rwa [insertAt_map]
    · rw [if_neg hroom, if_neg hroom]
      have hfull : entries.length = maxKeys := by
        have hle := hfits.keys.le
        rw [List.length_map] at hle
        omega
      have horder : (uninitialized order : List (Option Int)).length = order := List.length_replicate
      obtain ⟨frontKeys, midKeys, tempKeys, hfrontKeys, hmidKeys, hbackKeys, hkeys⟩ :=
        hfits.keys.insertInto (show slot ≤ (entries.map Prod.fst).length by simpa using hslot) key
          (show (entries.map Prod.fst).length < (uninitialized order).length by
            rw [horder, List.length_map, hfull]
            decide)
      obtain ⟨frontRows, midRows, tempRows, hfrontRows, hmidRows, hbackRows, hrows⟩ :=
        hfits.rows.insertInto (show slot ≤ (entries.map Prod.snd).length by simpa using hslot) rowIndex
          (show (entries.map Prod.snd).length < (uninitialized order).length by
            rw [horder, List.length_map, hfull]
            decide)
      rw [List.length_map] at hbackKeys hbackRows
      rw [← insertAt_map Prod.fst entries slot (key, rowIndex)] at hkeys
      rw [← insertAt_map Prod.snd entries slot (key, rowIndex)] at hrows
      simp only [forUp_inPair hfrontKeys hfrontRows, Option.bind_some, hmidKeys, hmidRows,
        forUp_inPair hbackKeys hbackRows, create]
      cases hmem : mem heap.allocs with
      | false =>
        simp only [Bool.false_eq_true, if_false]
        exact ⟨_, _, _, _, rfl,
          Simulates.unchanged hrecord hfits ⟨heap.node, heap.allocs + 1⟩ rfl (Nat.le_succ _)
            (fun _ => hmem) _⟩
      | true =>
        simp only [if_true, add_node_self, Option.bind_some]
        have hlength : (insertAt entries slot (key, rowIndex)).length = order := by
          rw [insertAt_length, hfull]
          rfl
        generalize insertAt entries slot (key, rowIndex) = temp at hkeys hrows hlength ⊢
        obtain ⟨leftKeys, hcopyLeftKeys, hleftKeys⟩ := hkeys.copyOut 0 (order / 2)
          (by rw [List.length_map, hlength]; decide) record.keys (by rw [hfits.keys.1]; decide)
        obtain ⟨leftRows, hcopyLeftRows, hleftRows⟩ := hrows.copyOut 0 (order / 2)
          (by rw [List.length_map, hlength]; decide) record.rowIndexes (by rw [hfits.rows.1]; decide)
        obtain ⟨rightKeys, hcopyRightKeys, hrightKeys⟩ := hkeys.copyOut (order / 2)
          (order - order / 2) (by rw [List.length_map, hlength]; decide) (zeroNode true).keys
          (by rw [zeroNode_keys]; decide)
        obtain ⟨rightRows, hcopyRightRows, hrightRows⟩ := hrows.copyOut (order / 2)
          (order - order / 2) (by rw [List.length_map, hlength]; decide) (zeroNode true).rowIndexes
          (by rw [zeroNode_rowIndexes]; decide)
        rw [hfits.keys.1, List.drop_zero, ← List.map_take] at hleftKeys
        rw [hfits.rows.1, List.drop_zero, ← List.map_take] at hleftRows
        rw [zeroNode_keys, ← List.map_drop, ← List.map_take] at hrightKeys
        rw [zeroNode_rowIndexes, ← List.map_drop, ← List.map_take] at hrightRows
        have hrightLength : ((temp.drop (order / 2)).take (order - order / 2)).length =
            order - order / 2 := by
          rw [List.length_take, List.length_drop, hlength, Nat.min_self]
        have hpromoted := load_keyAt hrightKeys (show 0 < _ by rw [hrightLength]; decide)
        simp only [forUp_inPair hcopyLeftKeys hcopyLeftRows, Option.bind_some,
          forUp_inPair hcopyRightKeys hcopyRightRows, hpromoted, add_set]
        refine ⟨_, _, _, _, rfl, Simulates.splitLeaf hlt hold ?_ ?_ _⟩
        · refine ⟨hfits.isLeaf, ?_, hleftKeys, hleftRows, rfl⟩
          rw [List.length_take, hlength]
          rfl
        · exact ⟨rfl, hrightLength.symm, hrightKeys, hrightRows, hfits.next⟩

end MiniSql.Index
