import MiniSql.Lib.Separated
import MiniSql.Index.BPTree

/-!
# What insertion keeps of a B+ tree

`Subtree isRoot h lo hi n` is the inductive invariant: `n` has height `h`, all
its keys lie in `[lo, hi)`, its separators keep the children apart, and every
node below it is at least half full. `insertRecursive_grows` says what one
insertion does to such a node when its allocations succeed.
-/

namespace MiniSql.Index

mutual

/-- The (key, row index) pairs of a subtree from left to right. -/
def BPTreeNode.entries : BPTreeNode → List (Int × Int)
  | .leaf _ entries _ => entries
  | .branch _ children => entriesAll children

def entriesAll : List BPTreeNode → List (Int × Int)
  | [] => []
  | c :: cs => c.entries ++ entriesAll cs

end

@[simp] theorem entries_leaf (address : Nat) (es : List (Int × Int)) (next : Option Nat) :
    (BPTreeNode.leaf address es next).entries = es := by
  simp only [BPTreeNode.entries]

theorem entriesAll_eq (cs : List BPTreeNode) : entriesAll cs = cs.flatMap BPTreeNode.entries := by
  induction cs with
  | nil => simp only [entriesAll, List.flatMap_nil]
  | cons c cs ih => simp only [entriesAll, List.flatMap_cons, ih]

@[simp] theorem entries_branch (ks : List Int) (cs : List BPTreeNode) :
    (BPTreeNode.branch ks cs).entries = cs.flatMap BPTreeNode.entries := by
  simp only [BPTreeNode.entries, entriesAll_eq]

theorem insertIntoChild_eq (mem : Nat → Bool) (key rowIndex : Int) (cs : List BPTreeNode)
    (i allocs : Nat) : insertIntoChild mem key rowIndex cs i allocs =
      cs[i]?.bind fun c => insertRecursive mem key rowIndex c allocs := by
  induction cs generalizing i with
  | nil => simp [insertIntoChild]
  | cons c cs ih =>
    cases i with
    | zero => simp [insertIntoChild]
    | succ i => simp [insertIntoChild, ih]

theorem searchChild_eq (key : Int) (cs : List BPTreeNode) (i : Nat) :
    searchChild key cs i = cs[i]?.bind (searchNode key) := by
  induction cs generalizing i with
  | nil => simp [searchChild]
  | cons c cs ih =>
    cases i with
    | zero => simp [searchChild]
    | succ i => simp [searchChild, ih]

theorem childIndex_eq_route (ks : List Int) (key : Int) :
    childIndex ks key = Separated.route ks key := by
  induction ks with
  | nil => rfl
  | cons k ks ih => simp only [childIndex, Separated.route, ge_iff_le, ih]

/-! ## Searching a leaf -/

abbrev Increasing (es : List (Int × Int)) : Prop := es.Pairwise (·.1 < ·.1)

theorem keyAt_lt {es : List (Int × Int)} (hs : Increasing es) {i j : Nat} (hij : i < j)
    (hj : j < es.length) : keyAt es i < keyAt es j := by
  have hi : i < es.length := by omega
  have := List.pairwise_iff_getElem.mp hs i j hi hj hij
  simpa [keyAt, hi, hj] using this

/-- What the binary search knows of the entries outside its window. -/
structure Window (es : List (Int × Int)) (key : Int) (low high : Nat) : Prop where
  fits : high ≤ es.length
  below : ∀ i, i < low → keyAt es i < key
  above : ∀ i, high ≤ i → i < es.length → key < keyAt es i

theorem leafSearchLoop_spec {es : List (Int × Int)} (hs : Increasing es) (key : Int)
    (low high : Nat) (hle : low ≤ high) (w : Window es key low high) :
    (∃ i, leafSearchLoop es key low high = (true, i) ∧ i < es.length ∧ keyAt es i = key) ∨
    (∃ s, leafSearchLoop es key low high = (false, s) ∧ Window es key s s) := by
  fun_induction leafSearchLoop es key low high with
  | case1 low high hlt mid hkey =>
    have := w.fits
    exact .inl ⟨mid, rfl, by omega, hkey⟩
  | case2 low high hlt mid hne hless ih =>
    have := w.fits
    refine ih (by omega) ⟨w.fits, fun i hi => ?_, w.above⟩
    rcases Nat.lt_or_eq_of_le (Nat.le_of_lt_succ hi) with hi | rfl
    · exact Int.lt_trans (keyAt_lt hs hi (by omega)) hless
    · exact hless
  | case3 low high hlt mid hne hnless ih =>
    have := w.fits
    have hgt : key < keyAt es mid := by omega
    refine ih (by omega) ⟨by omega, w.below, fun i hi hl => ?_⟩
    rcases Nat.lt_or_eq_of_le hi with hi | rfl
    · exact Int.lt_trans hgt (keyAt_lt hs hi hl)
    · exact hgt
  | case4 low high hnlt =>
    obtain rfl : low = high := by omega
    exact .inr ⟨low, rfl, w⟩

theorem leafSearch_spec {es : List (Int × Int)} (hs : Increasing es) (key : Int) :
    (∃ i r, leafSearch es key = (true, i) ∧ es[i]? = some (key, r)) ∨
    (∃ s, leafSearch es key = (false, s) ∧
      (∀ e ∈ es.take s, e.1 < key) ∧ ∀ e ∈ es.drop s, key < e.1) := by
  have hw : Window es key 0 es.length := ⟨Nat.le_refl _, by omega, by omega⟩
  rcases leafSearchLoop_spec hs key 0 es.length (by omega) hw with ⟨i, he, hi, hk⟩ | ⟨s, he, w⟩
  · refine .inl ⟨i, es[i].2, he, ?_⟩
    simp only [keyAt, List.getD_eq_getElem?_getD, hi, List.getElem?_eq_getElem,
      Option.getD_some] at hk
    simp [hi, ← hk]
  · refine .inr ⟨s, he, fun e hm => ?_, fun e hm => ?_⟩
    · obtain ⟨i, hi, rfl⟩ := List.mem_take_iff_getElem.mp hm
      have hi' : i < es.length := by omega
      simpa [keyAt, hi'] using w.below i (by omega)
    · obtain ⟨i, hi, rfl⟩ := List.mem_drop_iff_getElem.mp hm
      have hi' : s + i < es.length := by omega
      simpa [keyAt, hi'] using w.above (s + i) (by omega) (by omega)

theorem insertAt_perm {α : Type} (xs : List α) (slot : Nat) (x : α) :
    (insertAt xs slot x).Perm (x :: xs) := by
  have h : (insertAt xs slot x).Perm (x :: (xs.take slot ++ xs.drop slot)) := List.perm_middle
  rwa [List.take_append_drop] at h

@[simp] theorem insertAt_length {α : Type} (xs : List α) (slot : Nat) (x : α) :
    (insertAt xs slot x).length = xs.length + 1 := by
  simpa using (insertAt_perm xs slot x).length_eq

theorem insertAt_append {α : Type} (xs ys : List α) (x : α) :
    insertAt (xs ++ ys) xs.length x = xs ++ x :: ys := by
  simp [insertAt]

theorem insertAt_increasing {es : List (Int × Int)} (hs : Increasing es) {key : Int}
    {slot : Nat} (rowIndex : Int) (hbelow : ∀ e ∈ es.take slot, e.1 < key)
    (habove : ∀ e ∈ es.drop slot, key < e.1) :
    Increasing (insertAt es slot (key, rowIndex)) := by
  refine List.pairwise_append.mpr ⟨hs.take, List.pairwise_cons.mpr ⟨habove, hs.drop⟩, ?_⟩
  intro e he e' he'
  rcases List.mem_cons.mp he' with rfl | he'
  · exact hbelow e he
  · exact Int.lt_trans (hbelow e he) (habove e' he')

/-! ## The invariant -/

/-- The least number of keys of a leaf, the root being exempt from half filling. -/
def leafMin (isRoot : Bool) : Nat := if isRoot then 1 else order / 2

/-- The least number of keys of an internal node. -/
def branchMin (isRoot : Bool) : Nat := if isRoot then 1 else order / 2 - 1

def Subtree (isRoot : Bool) : Nat → Int → Int → BPTreeNode → Prop
  | 0, lo, hi, .leaf _ es _ =>
    Increasing es ∧ (∀ e ∈ es, lo ≤ e.1 ∧ e.1 < hi) ∧
      leafMin isRoot ≤ es.length ∧ es.length ≤ maxKeys
  | h + 1, lo, hi, .branch ks cs =>
    Separated (Subtree false h) lo ks cs hi ∧ branchMin isRoot ≤ ks.length ∧ ks.length ≤ maxKeys
  | _, _, _, _ => False

theorem leafMin_pos (isRoot : Bool) : 0 < leafMin isRoot := by
  cases isRoot <;> decide

theorem subtree_lt {isRoot : Bool} {h : Nat} {lo hi : Int} {n : BPTreeNode}
    (hn : Subtree isRoot h lo hi n) : lo < hi := by
  induction h generalizing isRoot lo hi n with
  | zero =>
    cases n with
    | branch ks cs => exact hn.elim
    | leaf address es next =>
      obtain ⟨_, hin, hmin, _⟩ := hn
      have hpos := leafMin_pos isRoot
      obtain ⟨e, he⟩ := List.exists_mem_of_length_pos (show 0 < es.length by omega)
      have := hin e he
      omega
  | succ h ih =>
    cases n with
    | leaf address es next => exact hn.elim
    | branch ks cs =>
      obtain ⟨hsep, _⟩ := hn
      cases hsep with
      | one hc => exact ih hc
      | cons hc hr =>
        have := (hr.bounds fun _ _ _ hc => Int.le_of_lt (ih hc)).1
        have := ih hc
        omega

theorem subtree_le {isRoot : Bool} {h : Nat} (lo hi : Int) (n : BPTreeNode)
    (hn : Subtree isRoot h lo hi n) : lo ≤ hi :=
  Int.le_of_lt (subtree_lt hn)

theorem subtree_entries {isRoot : Bool} {h : Nat} {lo hi : Int} {n : BPTreeNode}
    (hn : Subtree isRoot h lo hi n) :
    Increasing n.entries ∧ ∀ e ∈ n.entries, lo ≤ e.1 ∧ e.1 < hi := by
  induction h generalizing isRoot lo hi n with
  | zero =>
    cases n with
    | branch ks cs => exact hn.elim
    | leaf address es next =>
      rw [entries_leaf]
      exact ⟨hn.1, hn.2.1⟩
  | succ h ih =>
    cases n with
    | leaf address es next => exact hn.elim
    | branch ks cs =>
      rw [entries_branch]
      exact hn.1.flatMap_increasing subtree_le fun _ _ _ hc => ih hc

theorem subtree_widen {isRoot : Bool} {h : Nat} {lo hi lo' hi' : Int} {n : BPTreeNode}
    (hn : Subtree isRoot h lo hi n) (hlo : lo' ≤ lo) (hhi : hi ≤ hi') :
    Subtree isRoot h lo' hi' n := by
  induction h generalizing isRoot lo hi lo' hi' n with
  | zero =>
    cases n with
    | branch ks cs => exact hn.elim
    | leaf address es next =>
      refine ⟨hn.1, fun e he => ?_, hn.2.2⟩
      have := hn.2.1 e he
      omega
  | succ h ih =>
    cases n with
    | leaf address es next => exact hn.elim
    | branch ks cs =>
      refine ⟨?_, hn.2⟩
      -- Only the outermost bounds move, so the induction is along the separators.
      have wider : ∀ {lo lo' : Int} {ks : List Int} {cs : List BPTreeNode}, lo' ≤ lo →
          Separated (Subtree false h) lo ks cs hi → Separated (Subtree false h) lo' ks cs hi' := by
        intro lo lo' ks cs hlo hs
        induction ks generalizing lo lo' cs with
        | nil =>
          cases hs with
          | one hc => exact .one (ih hc hlo hhi)
        | cons k ks ihk =>
          cases hs with
          | cons hc hr => exact .cons (ih hc hlo (Int.le_refl k)) (ihk (Int.le_refl k) hr)
      exact wider hlo hn.1

/-! ## One insertion -/

/-- What an insertion of a new pair leaves of a subtree: one grown subtree
over the same bounds, or two that meet at the promoted key. -/
inductive Grown (isRoot : Bool) (h : Nat) (lo hi : Int) (old : List (Int × Int))
    (pair : Int × Int) : InsertResult → Prop
  | done {n : BPTreeNode} {allocs : Nat} (shape : Subtree isRoot h lo hi n)
      (gained : n.entries.Perm (pair :: old)) : Grown isRoot h lo hi old pair ⟨n, allocs, .done⟩
  | split {n right : BPTreeNode} {allocs : Nat} {promoted : Int}
      (left : Subtree false h lo promoted n) (shape : Subtree false h promoted hi right)
      (gained : (n.entries ++ right.entries).Perm (pair :: old)) :
      Grown isRoot h lo hi old pair ⟨n, allocs, .split promoted right⟩

theorem insertIntoLeaf_duplicate {es : List (Int × Int)} (hs : Increasing es) {key : Int}
    (hk : ∃ r, (key, r) ∈ es) (mem : Nat → Bool) (address : Nat) (next : Option Nat)
    (rowIndex : Int) (allocs : Nat) :
    insertIntoLeaf mem address es next key rowIndex allocs =
      ⟨.leaf address es next, allocs, .failed (duplicateId key)⟩ := by
  rcases leafSearch_spec hs key with ⟨i, r, he, _⟩ | ⟨s, he, hbelow, habove⟩
  · simp only [insertIntoLeaf, he]
  · obtain ⟨r, hr⟩ := hk
    rw [← List.take_append_drop s es] at hr
    rcases List.mem_append.mp hr with hr | hr
    · exact absurd (hbelow _ hr) (Int.lt_irrefl key)
    · exact absurd (habove _ hr) (Int.lt_irrefl key)

/-- The two halves of an increasing list, cut where both are nonempty. -/
theorem halves_spec {lo hi : Int} {temp : List (Int × Int)} (hs : Increasing temp)
    (hin : ∀ e ∈ temp, lo ≤ e.1 ∧ e.1 < hi) {n : Nat} (hn : n < temp.length) :
    (∀ e ∈ temp.take n, lo ≤ e.1 ∧ e.1 < keyAt (temp.drop n) 0) ∧
      ∀ e ∈ temp.drop n, keyAt (temp.drop n) 0 ≤ e.1 ∧ e.1 < hi := by
  have hcut : temp.drop n = temp[n] :: temp.drop (n + 1) := List.drop_eq_getElem_cons hn
  have hfirst : keyAt (temp.drop n) 0 = temp[n].1 := by simp [keyAt, hn]
  rw [← List.take_append_drop n temp] at hs
  obtain ⟨_, hright, hcross⟩ := List.pairwise_append.mp hs
  rw [hfirst]
  constructor
  · intro e he
    exact ⟨(hin e (List.mem_of_mem_take he)).1, hcross e he temp[n] (hcut ▸ List.mem_cons_self)⟩
  · intro e he
    refine ⟨?_, (hin e (List.mem_of_mem_drop he)).2⟩
    rw [hcut] at he hright
    rcases List.mem_cons.mp he with rfl | he
    · exact Int.le_refl _
    · exact Int.le_of_lt ((List.pairwise_cons.mp hright).1 e he)

theorem insertIntoLeaf_grows {isRoot : Bool} {lo hi key : Int} {es : List (Int × Int)}
    {address : Nat} {next : Option Nat} (hn : Subtree isRoot 0 lo hi (.leaf address es next))
    (hlo : lo ≤ key) (hhi : key < hi) (hk : ∀ r, (key, r) ∉ es) (rowIndex : Int) (allocs : Nat) :
    Grown isRoot 0 lo hi es (key, rowIndex)
      (insertIntoLeaf allocated address es next key rowIndex allocs) := by
  obtain ⟨hs, hin, hmin, hmax⟩ := hn
  rcases leafSearch_spec hs key with ⟨i, r, _, hr⟩ | ⟨slot, he, hbelow, habove⟩
  · exact absurd (List.mem_of_getElem? hr) (hk r)
  · have hsorted := insertAt_increasing hs rowIndex hbelow habove
    have hperm := insertAt_perm es slot (key, rowIndex)
    have hlength := insertAt_length es slot (key, rowIndex)
    have hbounds : ∀ e ∈ insertAt es slot (key, rowIndex), lo ≤ e.1 ∧ e.1 < hi := by
      intro e hmem
      rcases List.mem_cons.mp (hperm.mem_iff.mp hmem) with rfl | hmem
      · exact ⟨hlo, hhi⟩
      · exact hin e hmem
    simp only [insertIntoLeaf, he]
    generalize insertAt es slot (key, rowIndex) = temp at *
    by_cases hroom : es.length < maxKeys
    · rw [if_pos hroom]
      exact .done ⟨hsorted, hbounds, by omega, by omega⟩ (by simpa using hperm)
    · have hfull : temp.length = order := by simp only [maxKeys, order] at *; omega
      have hright : (temp.drop (order / 2)).take (order - order / 2) = temp.drop (order / 2) :=
        List.take_of_length_le (by simp [hfull])
      obtain ⟨hleft, hrest⟩ := halves_spec (n := order / 2) hsorted hbounds (by rw [hfull]; decide)
      rw [if_neg hroom, if_pos (allocated_eq _), hright]
      refine .split ⟨hsorted.take, hleft, ?_, ?_⟩ ⟨hsorted.drop, hrest, ?_, ?_⟩ ?_
      · simp [hfull, leafMin, order]
      · simp [hfull, maxKeys, order]
      · simp [hfull, leafMin, order]
      · simp [hfull, maxKeys, order]
      · simpa using hperm

/-- A node that took in a split child, given as the separated list that the
enlarged temporary arrays hold. -/
theorem absorbSplit_grows {isRoot : Bool} {h : Nat} {lo hi promoted : Int} {ks : List Int}
    {cs : List BPTreeNode} {child : Nat} {right : BPTreeNode} {old : List (Int × Int)}
    {pair : Int × Int}
    (hsep : Separated (Subtree false h) lo (insertAt ks child promoted)
      (insertAt cs (child + 1) right) hi)
    (hmin : branchMin isRoot ≤ ks.length) (hmax : ks.length ≤ maxKeys)
    (hgain : ((insertAt cs (child + 1) right).flatMap BPTreeNode.entries).Perm (pair :: old))
    (allocs : Nat) :
    Grown isRoot (h + 1) lo hi old pair
      (absorbSplit allocated ks cs child promoted right allocs) := by
  have hlength := insertAt_length ks child promoted
  have hchildren := hsep.length_eq
  simp only [absorbSplit]
  generalize insertAt ks child promoted = tempKeys at *
  generalize insertAt cs (child + 1) right = tempChildren at *
  by_cases hroom : ks.length < maxKeys
  · rw [if_pos hroom]
    exact .done ⟨hsep, by omega, by omega⟩ (by simpa using hgain)
  · have hfull : tempKeys.length = order := by simp only [maxKeys, order] at *; omega
    have hmid : order / 2 < tempKeys.length := by rw [hfull]; decide
    have hpromoted : tempKeys.getD (order / 2) 0 = tempKeys[order / 2] := by simp [hmid]
    have hrightKeys : (tempKeys.drop (order / 2 + 1)).take (order - order / 2 - 1) =
        tempKeys.drop (order / 2 + 1) :=
      List.take_of_length_le (by simp [hfull, order])
    have hrightChildren : (tempChildren.drop (order / 2 + 1)).take (order - order / 2 - 1 + 1) =
        tempChildren.drop (order / 2 + 1) :=
      List.take_of_length_le (by simp [hchildren, hfull, order])
    obtain ⟨hleft, hright⟩ := hsep.cut hmid
    rw [if_neg hroom, if_pos (allocated_eq _), hpromoted, hrightKeys, hrightChildren]
    refine .split ⟨hleft, ?_, ?_⟩ ⟨hright, ?_, ?_⟩ ?_
    · simp [hfull, branchMin, order]
    · simp [hfull, maxKeys, order]
    · simp [hfull, branchMin, order]
    · simp [hfull, maxKeys, order]
    · rw [entries_branch, entries_branch, ← List.flatMap_append, List.take_append_drop]
      exact hgain

/-- The child an insertion descends into, the rest of the node around it, and
what becomes of the key in the other children: nothing, it cannot be there. -/
theorem descend {h : Nat} {lo hi key : Int} {ks : List Int} {cs : List BPTreeNode}
    (hsep : Separated (Subtree false h) lo ks cs hi) (hlo : lo ≤ key) (hhi : key < hi) :
    ∃ before left a c b after right,
      Separated.Focus (Subtree false h) lo ks cs hi key before left a c b after right ∧
      childIndex ks key = left.length ∧ cs[childIndex ks key]? = some c ∧
      ∀ r, (key, r) ∈ cs.flatMap BPTreeNode.entries ↔ (key, r) ∈ c.entries := by
  obtain ⟨before, left, a, c, b, after, right, f⟩ := hsep.focus subtree_le hlo hhi
  have hindex : childIndex ks key = left.length := by
    rw [childIndex_eq_route, f.routed, f.aligned]
  refine ⟨before, left, a, c, b, after, right, f, hindex, by simp [hindex, f.items], fun r => ?_⟩
  constructor
  · intro hmem
    rw [f.items] at hmem
    obtain ⟨d, hd, hr⟩ := List.mem_flatMap.mp hmem
    rcases List.mem_append.mp hd with hd | hd
    · obtain ⟨a', b', hb, hsub⟩ := f.below d hd
      have := (subtree_entries hsub).2 _ hr
      simp only at this
      omega
    · rcases List.mem_cons.mp hd with rfl | hd
      · exact hr
      · obtain ⟨a', b', ha, hsub⟩ := f.above d hd
        have := (subtree_entries hsub).2 _ hr
        simp only at this
        omega
  · intro hr
    exact List.mem_flatMap.mpr ⟨c, by simp [f.items], hr⟩

/-- Inserting a key that is there changes nothing and reports the duplicate. -/
theorem insertRecursive_duplicate {isRoot : Bool} {h : Nat} {lo hi key : Int} {n : BPTreeNode}
    (hn : Subtree isRoot h lo hi n) (hlo : lo ≤ key) (hhi : key < hi)
    (hk : ∃ r, (key, r) ∈ n.entries) (mem : Nat → Bool) (rowIndex : Int) (allocs : Nat) :
    insertRecursive mem key rowIndex n allocs =
      some ⟨n, allocs, .failed (duplicateId key)⟩ := by
  induction h generalizing isRoot lo hi n with
  | zero =>
    cases n with
    | branch ks cs => exact hn.elim
    | leaf address es next =>
      rw [entries_leaf] at hk
      simp only [insertRecursive, insertIntoLeaf_duplicate hn.1 hk]
  | succ h ih =>
    cases n with
    | leaf address es next => exact hn.elim
    | branch ks cs =>
      obtain ⟨before, left, a, c, b, after, right, f, hindex, hget, honly⟩ :=
        descend hn.1 hlo hhi
      obtain ⟨r, hr⟩ := hk
      rw [entries_branch] at hr
      have hchild := ih f.here f.low f.high ⟨r, (honly r).mp hr⟩
      have hset : cs.set (childIndex ks key) c = cs := by
        rw [hindex, f.items]
        simp
      simp only [insertRecursive, insertIntoChild_eq, hget, Option.bind_some, hchild, hset]

theorem perm_gain_between {α : Type} {x : α} {ys zs : List α} (left right : List α)
    (h : zs.Perm (x :: ys)) : (left ++ (zs ++ right)).Perm (x :: (left ++ (ys ++ right))) := by
  have hmid : (left ++ (zs ++ right)).Perm (left ++ (x :: ys ++ right)) :=
    (h.append_right right).append_left left
  exact hmid.trans List.perm_middle

/-- Inserting a new key: the invariant is kept, in one node or in two, and the
pairs are the old ones and the new one. -/
theorem insertRecursive_grows {isRoot : Bool} {h : Nat} {lo hi key : Int} {n : BPTreeNode}
    (hn : Subtree isRoot h lo hi n) (hlo : lo ≤ key) (hhi : key < hi)
    (hk : ∀ r, (key, r) ∉ n.entries) (rowIndex : Int) (allocs : Nat) :
    ∃ r, insertRecursive allocated key rowIndex n allocs = some r ∧
      Grown isRoot h lo hi n.entries (key, rowIndex) r := by
  induction h generalizing isRoot lo hi n with
  | zero =>
    cases n with
    | branch ks cs => exact hn.elim
    | leaf address es next =>
      rw [entries_leaf] at hk ⊢
      exact ⟨_, by simp only [insertRecursive], insertIntoLeaf_grows hn hlo hhi hk rowIndex allocs⟩
  | succ h ih =>
    cases n with
    | leaf address es next => exact hn.elim
    | branch ks cs =>
      obtain ⟨hsep, hmin, hmax⟩ := hn
      obtain ⟨before, left, a, c, b, after, right, f, hindex, hget, honly⟩ :=
        descend hsep hlo hhi
      rw [entries_branch] at hk ⊢
      obtain ⟨r, hr, hgrown⟩ := ih f.here f.low f.high fun r hr => hk r ((honly r).mpr hr)
      have hset : ∀ c', cs.set (childIndex ks key) c' = left ++ c' :: right := by
        intro c'
        rw [hindex, f.items]
        simp
      simp only [insertRecursive, insertIntoChild_eq, hget, Option.bind_some, hr, hset]
      cases hgrown with
      | @done c' allocs' hshape hgain =>
        refine ⟨_, rfl, .done ⟨?_, hmin, hmax⟩ ?_⟩
        · have := f.plug (.one hshape)
          simpa [f.seps] using this
        · rw [entries_branch, f.items]
          simpa using perm_gain_between (left.flatMap _) (right.flatMap _) hgain
      | @split c' right' allocs' promoted hleft hright hgain =>
        have hkeys : insertAt ks (childIndex ks key) promoted = before ++ [promoted] ++ after := by
          rw [hindex, f.aligned, f.seps, insertAt_append]
          simp
        have hchildren : insertAt (left ++ c' :: right) (childIndex ks key + 1) right' =
            left ++ [c', right'] ++ right := by
          have := insertAt_append (left ++ [c']) right right'
          simpa [hindex] using this
        refine ⟨_, rfl, absorbSplit_grows ?_ hmin hmax ?_ allocs'⟩
        · rw [hkeys, hchildren]
          exact f.plug (.cons hleft (.one hright))
        · rw [hchildren, f.items]
          have := perm_gain_between (left.flatMap BPTreeNode.entries)
            (right.flatMap BPTreeNode.entries) hgain
          simpa using this

end MiniSql.Index
