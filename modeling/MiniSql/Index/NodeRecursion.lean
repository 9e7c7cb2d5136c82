import MiniSql.Index.NodeBranch

/-!
# Going down in memory

The recursion of `bptree_insert_recursive` and the loop of `bptree_search` follow child
pointers. On memory that stands for a tree they have a result, and do what the functions
on trees do.
-/

namespace MiniSql.Index

open Cells NodeHeap

theorem childIndex_le (keys : List Int) (key : Int) : childIndex keys key ≤ keys.length := by
  induction keys with
  | nil => exact Nat.le_refl _
  | cons k keys ih =>
    simp only [childIndex, List.length_cons]
    split
    · omega
    · omega

/-- The child of a node in memory that the search or the insertion of a key goes down to. -/
theorem BranchFits.child {record : NodeRecord} {keys : List Int} {parts : List Part}
    (h : BranchFits record keys (parts.map Part.address)) (key : Int) :
    ∃ before part after, parts = before ++ part :: after ∧ before.length = childIndex keys key ∧
      childIndexLoop record.keys key record.keyCount 0 = some before.length ∧
      load record.children before.length = some (some part.address) := by
  have hle := childIndex_le keys key
  have hlt : childIndex keys key < parts.length := by
    have harity := h.arity
    rw [List.length_map] at harity
    omega
  have hindex : childIndexLoop record.keys key record.keyCount 0 = some (childIndex keys key) := by
    have hloop := childIndexLoop_eq key [] keys (by simpa using h.keys)
    rw [h.count]
    simpa using hloop
  refine ⟨parts.take (childIndex keys key), parts[childIndex keys key],
    parts.drop (childIndex keys key + 1), ?_, ?_, ?_, ?_⟩
  · rw [List.getElem_cons_drop, List.take_append_drop]
  · rw [List.length_take]
    omega
  · rw [hindex, List.length_take]
    congr 1
    omega
  · rw [List.length_take, Nat.min_eq_left (Nat.le_of_lt hlt),
      h.children.load (by simpa using hlt)]
    simp [hlt]

/-- A key that is found is found in a slot. -/
theorem leafSearchLoop_found (entries : List (Int × Int)) (key : Int) (low high : Nat) :
    (leafSearchLoop entries key low high).1 = true →
      (leafSearchLoop entries key low high).2 < high := by
  fun_induction leafSearchLoop entries key low high with
  | case1 low high hlt mid hkey =>
    intro _
    omega
  | case2 low high hlt mid hne hless ih => exact ih
  | case3 low high hlt mid hne hnless ih =>
    intro hfound
    have hslot := ih hfound
    omega
  | case4 low high hnlt =>
    intro hfound
    cases hfound

/-- **Insertion below a node in memory.** -/
theorem insertRecursive_simulates (mem : Nat → Bool) (key rowIndex : Int) {height depth : Nat}
    (hdepth : height < depth) {heap : NodeHeap} {part : Part} (h : Rep heap.node height part)
    (hnodup : part.footprint.Nodup) (howned : ∀ x ∈ part.footprint, x < heap.allocs) :
    ∃ heap' report result footprint extra,
      heap.insertRecursive mem key rowIndex depth part.address = some (heap', report) ∧
      Index.insertRecursive mem key rowIndex part.node heap.allocs = some result ∧
      Simulates mem heap heap' height part result report footprint extra := by
  induction height generalizing depth part with
  | zero =>
    obtain ⟨address, tree, old⟩ := part
    cases tree with
    | branch => exact h.elim
    | leaf leafAddress entries next =>
      obtain ⟨rfl, rfl, record, hrecord, hfits⟩ := h
      obtain ⟨heap', report, footprint, extra, hrun, hsim⟩ := insertIntoLeaf_simulates mem hrecord
        hfits (howned leafAddress (List.mem_singleton_self _)) key rowIndex
      refine ⟨heap', report, _, footprint, extra, ?_, rfl, hsim⟩
      cases depth with
      | zero => omega
      | succ depth =>
        simp only [NodeHeap.insertRecursive, hrecord, Option.bind_eq_bind, Option.bind_some,
          hfits.isLeaf, if_true, hrun]
  | succ height ih =>
    obtain ⟨address, tree, old⟩ := part
    cases tree with
    | leaf => exact h.elim
    | branch keys children =>
      obtain ⟨parts, rfl, rfl, hparts, record, hrecord, hfits⟩ := h
      obtain ⟨before, child, after, rfl, hbefore, hindex, hload⟩ := hfits.child key
      cases depth with
      | zero => omega
      | succ depth =>
        have hmem : child ∈ before ++ child :: after := by simp
        have hsub : child.footprint.Sublist ((before ++ child :: after).flatMap Part.footprint) := by
          simp [List.flatMap_append]
        obtain ⟨heap', report, ⟨newNode, newAllocs, treeReport⟩, footprint, extra, hrun, htree, hsim⟩ :=
          ih (show height < depth by omega) (hparts child hmem) (hnodup.of_cons.sublist hsub)
            (fun x hx => howned x (List.mem_cons_of_mem _ (hsub.subset hx)))
        obtain rfl : heap'.allocs = newAllocs := hsim.allocs
        have hchild : insertIntoChild mem key rowIndex ((before ++ child :: after).map Part.node)
            (childIndex keys key) heap.allocs = some ⟨newNode, heap'.allocs, treeReport⟩ := by
          rw [insertIntoChild_eq, ← hbefore]
          simpa using htree
        have hset : ((before ++ child :: after).map Part.node).set (childIndex keys key) newNode =
            (before ++ ⟨child.address, newNode, footprint⟩ :: after).map Part.node := by
          rw [← hbefore]
          simp
        have hfits' : BranchFits record keys
            ((before ++ ⟨child.address, newNode, footprint⟩ :: after).map Part.address) := by
          simpa using hfits
        have hold : (heap.node address).isSome = true := by rw [hrecord]; rfl
        simp only [NodeHeap.insertRecursive, hrecord, Option.bind_eq_bind, Option.bind_some,
          hfits.isBranch, Bool.false_eq_true, if_false, hindex, hload, Option.join_some, hrun,
          Index.insertRecursive, hchild, hset]
        have hreports := hsim.reports
        dsimp only at hreports
        cases hreports with
        | failed error =>
          obtain ⟨hchildren, hcomplete⟩ := Simulates.children [] hsim (List.forall_mem_nil _) hparts hnodup howned
          have hsame := hchildren.frame address hchildren.here.1 (.inr rfl)
          exact ⟨_, _, _, _, _, rfl, rfl, hchildren.whole heap' (hsame.trans hrecord) hfits'
            (fun _ _ => rfl) (Nat.le_refl _) hold (.failed error) (fun hgiven => ⟨rfl, hcomplete hgiven⟩) _⟩
        | done =>
          obtain ⟨hchildren, hcomplete⟩ := Simulates.children [] hsim (List.forall_mem_nil _) hparts hnodup howned
          have hsame := hchildren.frame address hchildren.here.1 (.inr rfl)
          exact ⟨_, _, _, _, _, rfl, rfl, hchildren.whole heap' (hsame.trans hrecord) hfits'
            (fun _ _ => rfl) (Nat.le_refl _) hold .done (fun hgiven => ⟨rfl, hcomplete hgiven⟩) _⟩
        | @split promotedKey right hright =>
          obtain ⟨hchildren, hcomplete⟩ := Simulates.children [right] (by simpa using hsim)
            (by simpa using hright) hparts hnodup howned
          have hsame := hchildren.frame address hchildren.here.1 (.inr rfl)
          obtain ⟨heap'', report, footprint', extra, habsorb, hsim'⟩ := absorbSplit_simulates hchildren
            hcomplete (hsame.trans hrecord) hfits' (by rw [hbefore]; exact childIndex_le keys key)
            hold howned promotedKey _
          rw [← hbefore]
          exact ⟨heap'', report, _, footprint', extra, habsorb, rfl, hsim'⟩

/-- **Search below a node in memory.** -/
theorem NodeHeap.search_eq (key : Int) {height depth : Nat} (hdepth : height < depth)
    {heap : NodeHeap} {part : Part} (h : Rep heap.node height part) :
    heap.search key depth part.address = searchNode key part.node := by
  induction height generalizing depth part with
  | zero =>
    obtain ⟨address, tree, old⟩ := part
    cases tree with
    | branch => exact h.elim
    | leaf leafAddress entries next =>
      obtain ⟨rfl, rfl, record, hrecord, hfits⟩ := h
      cases depth with
      | zero => omega
      | succ depth =>
        have hsearch := leafSearchCells_eq hfits.keys key 0 entries.length (Nat.le_refl _)
        simp only [NodeHeap.search, hrecord, Option.bind_eq_bind, Option.bind_some, hfits.isLeaf,
          if_true, hfits.count, hsearch, searchNode, leafSearch]
        have hslot := leafSearchLoop_found entries key 0 entries.length
        generalize leafSearchLoop entries key 0 entries.length = result at hslot ⊢
        obtain ⟨found, slot⟩ := result
        cases found with
        | false => rfl
        | true =>
          have hlt := hslot rfl
          dsimp only at hlt
          have hrow : load record.rowIndexes slot = some (entries.getD slot (0, 0)).2 := by
            rw [hfits.rows.load (by simpa using hlt)]
            simp [hlt]
          simp only [if_true, hrow, Option.bind_some]
  | succ height ih =>
    obtain ⟨address, tree, old⟩ := part
    cases tree with
    | leaf => exact h.elim
    | branch keys children =>
      obtain ⟨parts, rfl, rfl, hparts, record, hrecord, hfits⟩ := h
      obtain ⟨before, child, after, rfl, hbefore, hindex, hload⟩ := hfits.child key
      cases depth with
      | zero => omega
      | succ depth =>
        have hchild : ((before ++ child :: after).map Part.node)[childIndex keys key]? =
            some child.node := by
          rw [← hbefore]
          simp
        simp only [NodeHeap.search, hrecord, Option.bind_eq_bind, Option.bind_some, hfits.isBranch,
          Bool.false_eq_true, if_false, hindex, hload, Option.join_some, searchNode, searchChild_eq,
          hchild]
        exact ih (show height < depth by omega) (hparts child (by simp))

/-- A tree is not higher than it has nodes. -/
theorem NodeHeap.Rep.height_lt {node : Nat → Option NodeRecord} {height : Nat} {part : Part}
    (h : Rep node height part) : height < part.footprint.length := by
  induction height generalizing part with
  | zero =>
    obtain ⟨address, tree, old⟩ := part
    cases tree with
    | branch => exact h.elim
    | leaf leafAddress entries next =>
      obtain ⟨rfl, rfl, -⟩ := h
      exact Nat.one_pos
  | succ height ih =>
    obtain ⟨address, tree, old⟩ := part
    cases tree with
    | leaf => exact h.elim
    | branch keys children =>
      obtain ⟨parts, rfl, rfl, hparts, record, hrecord, hfits⟩ := h
      cases parts with
      | nil => cases hfits.arity
      | cons part parts =>
        have hpart := ih (hparts part List.mem_cons_self)
        simp only [List.flatMap_cons, List.length_cons, List.length_append]
        omega

end MiniSql.Index
