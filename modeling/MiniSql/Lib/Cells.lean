import MiniSql.Lib.Block

/-!
# Arrays and the loops that fill them

An array is the list of its cells, and a cell that was never written holds nothing. A
load from a cell that is not there or was never written has no result, and neither has
a store outside of the array; so a program that has a result does neither. A loop is
described by what its result holds, cell by cell.
-/

namespace Cells

variable {α σ τ : Type*}

def load (cells : List (Option α)) (index : Nat) : Option α := (cells[index]?).join

def store (cells : List (Option α)) (index : Nat) (item : α) : Option (List (Option α)) :=
  Block.store cells index (some item)

/-- `for (index = first; index < first + n; index++)`. -/
def forUp (body : Nat → σ → Option σ) : Nat → Nat → σ → Option σ
  | _, 0, s => some s
  | first, n + 1, s => (body first s).bind (forUp body (first + 1) n)

/-- `for (index = high; index > low; index--)`, from `high` on. -/
def forDown (body : Nat → σ → Option σ) (low : Nat) : Nat → σ → Option σ
  | 0, s => some s
  | high + 1, s => if low < high + 1 then (body (high + 1) s).bind (forDown body low high) else some s

/-! ## Loads behind stores -/

theorem store_of_lt {cells : List (Option α)} {index : Nat} (h : index < cells.length) (item : α) :
    store cells index item = some (cells.set index (some item)) :=
  if_pos h

theorem load_set (cells : List (Option α)) {index : Nat} (h : index < cells.length) (item : α)
    (j : Nat) :
    load (cells.set index (some item)) j = if j = index then some item else load cells j := by
  unfold load
  by_cases hj : j = index
  · subst hj
    simp [h]
  · rw [List.getElem?_set_ne (Ne.symm hj), if_neg hj]

/-! ## Loops over two arrays -/

/-- The body of a loop that does one thing to each of two values. -/
def inPair (f : Nat → σ → Option σ) (g : Nat → τ → Option τ) (index : Nat) (pair : σ × τ) :
    Option (σ × τ) :=
  (f index pair.1).bind fun s => (g index pair.2).map fun t => (s, t)

theorem forUp_inPair {f : Nat → σ → Option σ} {g : Nat → τ → Option τ} {first n : Nat} {s s' : σ}
    {t t' : τ} (hf : forUp f first n s = some s') (hg : forUp g first n t = some t') :
    forUp (inPair f g) first n (s, t) = some (s', t') := by
  induction n generalizing first s t with
  | zero =>
    cases hf
    cases hg
    rfl
  | succ n ih =>
    simp only [forUp, Option.bind_eq_some_iff] at hf hg ⊢
    obtain ⟨s₁, hs₁, hf⟩ := hf
    obtain ⟨t₁, ht₁, hg⟩ := hg
    exact ⟨(s₁, t₁), by rw [inPair, hs₁, Option.bind_some, ht₁]; rfl, ih hf hg⟩

theorem forDown_inPair {f : Nat → σ → Option σ} {g : Nat → τ → Option τ} {low high : Nat}
    {s s' : σ} {t t' : τ} (hf : forDown f low high s = some s')
    (hg : forDown g low high t = some t') :
    forDown (inPair f g) low high (s, t) = some (s', t') := by
  induction high generalizing s t with
  | zero =>
    cases hf
    cases hg
    rfl
  | succ high ih =>
    unfold forDown at hf hg ⊢
    split
    · rename_i hlow
      rw [if_pos hlow, Option.bind_eq_some_iff] at hf hg
      obtain ⟨s₁, hs₁, hf⟩ := hf
      obtain ⟨t₁, ht₁, hg⟩ := hg
      rw [Option.bind_eq_some_iff]
      exact ⟨(s₁, t₁), by rw [inPair, hs₁, Option.bind_some, ht₁]; rfl, ih hf hg⟩
    · rename_i hlow
      rw [if_neg hlow] at hf hg
      cases hf
      cases hg
      rfl

/-! ## Copying -/

/-- `target[to + index] = source[from + index]`. -/
def copyCell (source : List (Option α)) (fromBase toBase index : Nat) (target : List (Option α)) :
    Option (List (Option α)) :=
  (load source (fromBase + index)).bind (store target (toBase + index))

theorem forUp_copy (source : List (Option α)) (fromBase toBase first n : Nat)
    (target : List (Option α))
    (hsource : ∀ i, first ≤ i → i < first + n → (load source (fromBase + i)).isSome = true)
    (hroom : toBase + first + n ≤ target.length) :
    ∃ target', forUp (copyCell source fromBase toBase) first n target = some target' ∧
      target'.length = target.length ∧
      ∀ j, load target' j = if toBase + first ≤ j ∧ j < toBase + first + n
        then load source (j - toBase + fromBase) else load target j := by
  induction n generalizing first target with
  | zero =>
    refine ⟨target, rfl, rfl, ?_⟩
    intro j
    rw [if_neg (by omega)]
  | succ n ih =>
    obtain ⟨item, hitem⟩ := Option.isSome_iff_exists.mp (hsource first (Nat.le_refl _) (by omega))
    have hlt : toBase + first < target.length := by omega
    obtain ⟨target', hloop, hlength, hloads⟩ := ih (first + 1)
      (target.set (toBase + first) (some item))
      (fun i hlow hhigh => hsource i (by omega) (by omega))
      (by rw [List.length_set]; omega)
    refine ⟨target', ?_, by rw [hlength, List.length_set], ?_⟩
    · rw [forUp, copyCell, hitem, Option.bind_some, store_of_lt hlt, Option.bind_some, hloop]
    · intro j
      rw [hloads j, load_set target hlt]
      by_cases hfirst : j = toBase + first
      · subst hfirst
        rw [if_neg (by omega), if_pos rfl, if_pos (by omega), ← hitem]
        congr 1
        omega
      · rw [if_neg hfirst]
        by_cases hin : toBase + first ≤ j ∧ j < toBase + first + (n + 1)
        · rw [if_pos hin, if_pos (by omega)]
        · rw [if_neg hin, if_neg (by omega)]

/-- `cells[index] = cells[index - 1]`. -/
def moveUp (index : Nat) (cells : List (Option α)) : Option (List (Option α)) :=
  (load cells (index - 1)).bind (store cells index)

theorem forDown_moveUp (low high : Nat) (cells : List (Option α))
    (hloads : ∀ i, low ≤ i → i < high → (load cells i).isSome = true)
    (hroom : low < high → high < cells.length) :
    ∃ cells', forDown moveUp low high cells = some cells' ∧ cells'.length = cells.length ∧
      ∀ j, load cells' j = if low < j ∧ j ≤ high then load cells (j - 1) else load cells j := by
  induction high generalizing cells with
  | zero =>
    refine ⟨cells, rfl, rfl, ?_⟩
    intro j
    rw [if_neg (by omega)]
  | succ high ih =>
    by_cases hlow : low < high + 1
    · have hlt := hroom hlow
      obtain ⟨item, hitem⟩ := Option.isSome_iff_exists.mp (hloads high (by omega) (by omega))
      obtain ⟨cells', hloop, hlength, hafter⟩ := ih (cells.set (high + 1) (some item))
        (fun i hi hhigh => by
          rw [load_set cells hlt, if_neg (by omega)]
          exact hloads i hi (by omega))
        (fun _ => by rw [List.length_set]; omega)
      refine ⟨cells', ?_, by rw [hlength, List.length_set], ?_⟩
      · rw [forDown, if_pos hlow, moveUp, Nat.add_sub_cancel, hitem, Option.bind_some,
          store_of_lt hlt, Option.bind_some, hloop]
      · intro j
        rw [hafter j, load_set cells hlt, load_set cells hlt]
        by_cases hlast : j = high + 1
        · subst hlast
          rw [if_neg (by omega), if_pos rfl, if_pos (by omega), Nat.add_sub_cancel, hitem]
        · rw [if_neg hlast]
          by_cases hin : low < j ∧ j ≤ high + 1
          · rw [if_pos hin, if_pos (by omega), if_neg (by omega)]
          · rw [if_neg hin, if_neg (by omega)]
    · refine ⟨cells, by rw [forDown, if_neg hlow], rfl, ?_⟩
      intro j
      rw [if_neg (by omega)]

/-! ## What an array begins with -/

/-- The array begins with the items, and has so many cells. -/
def Holds (size : Nat) (items : List α) (cells : List (Option α)) : Prop :=
  cells.length = size ∧ ∀ j, j < items.length → load cells j = items[j]?

variable {size : Nat} {items : List α} {cells : List (Option α)}

theorem Holds.load (h : Holds size items cells) {j : Nat} (hj : j < items.length) :
    Cells.load cells j = items[j]? :=
  h.2 j hj

theorem Holds.isSome (h : Holds size items cells) {j : Nat} (hj : j < items.length) :
    (Cells.load cells j).isSome = true := by
  rw [h.2 j hj]
  simpa using hj

theorem Holds.le (h : Holds size items cells) : items.length ≤ size := by
  by_contra hlt
  have hsome := h.isSome (show size < items.length by omega)
  have hout : cells[size]? = none := List.getElem?_eq_none (by rw [h.1])
  rw [Cells.load, hout] at hsome
  cases hsome

/-- The items with one more at a slot. -/
theorem getElem?_insert (items : List α) {slot : Nat} (hslot : slot ≤ items.length) (item : α)
    (j : Nat) : (items.take slot ++ item :: items.drop slot)[j]? =
      if j < slot then items[j]? else if j = slot then some item else items[j - 1]? := by
  have hlength : (items.take slot).length = slot := by
    rw [List.length_take]
    omega
  by_cases hlow : j < slot
  · rw [if_pos hlow, List.getElem?_append_left (by omega), List.getElem?_take_of_lt hlow]
  · rw [if_neg hlow, List.getElem?_append_right (by omega), hlength]
    by_cases hhere : j = slot
    · subst hhere
      simp
    · obtain ⟨k, rfl⟩ : ∃ k, j = slot + k + 1 := ⟨j - slot - 1, by omega⟩
      rw [if_neg hhere, show slot + k + 1 - slot = k + 1 by omega, List.getElem?_cons_succ,
        List.getElem?_drop]
      rfl

/-- Moving up what stands behind a slot, and a store into it. -/
theorem Holds.insert (h : Holds size items cells) {slot : Nat} (hslot : slot ≤ items.length)
    (hroom : items.length < size) (item : α) :
    ∃ moved cells', forDown moveUp slot items.length cells = some moved ∧
      store moved slot item = some cells' ∧
      Holds size (items.take slot ++ item :: items.drop slot) cells' := by
  obtain ⟨moved, hloop, hlength, hloads⟩ := forDown_moveUp slot items.length cells
    (fun i _ hi => h.isSome hi) (fun _ => by rw [h.1]; exact hroom)
  have hlt : slot < moved.length := by
    rw [hlength, h.1]
    omega
  refine ⟨moved, _, hloop, store_of_lt hlt item, ?_, ?_⟩
  · rw [List.length_set, hlength, h.1]
  · intro j hj
    simp only [List.length_append, List.length_take, List.length_cons, List.length_drop] at hj
    rw [getElem?_insert items hslot, load_set moved hlt]
    by_cases hhere : j = slot
    · subst hhere
      rw [if_pos rfl, if_neg (Nat.lt_irrefl j), if_pos rfl]
    · rw [if_neg hhere, hloads j]
      by_cases hlow : j < slot
      · rw [if_pos hlow, if_neg (by omega), h.2 j (by omega)]
      · rw [if_neg hlow, if_neg hhere, if_pos (by omega), h.2 (j - 1) (by omega)]

/-- The items with one more at a slot, in an array of its own. -/
theorem Holds.insertInto (h : Holds size items cells) {slot : Nat} (hslot : slot ≤ items.length)
    (item : α) {target : List (Option α)} (hroom : items.length < target.length) :
    ∃ front mid target', forUp (copyCell cells 0 0) 0 slot target = some front ∧
      store front slot item = some mid ∧
      forUp (copyCell cells 0 1) slot (items.length - slot) mid = some target' ∧
      Holds target.length (items.take slot ++ item :: items.drop slot) target' := by
  obtain ⟨front, hfront, hfrontLength, hfrontLoads⟩ := forUp_copy cells 0 0 0 slot target
    (fun i _ hi => by
      rw [Nat.zero_add]
      exact h.isSome (by omega))
    (by omega)
  have hlt : slot < front.length := by omega
  obtain ⟨target', hback, hbackLength, hbackLoads⟩ := forUp_copy cells 0 1 slot
    (items.length - slot) (front.set slot (some item))
    (fun i _ hi => by
      rw [Nat.zero_add]
      exact h.isSome (by omega))
    (by rw [List.length_set]; omega)
  refine ⟨front, _, target', hfront, store_of_lt hlt item, hback, ?_, ?_⟩
  · rw [hbackLength, List.length_set, hfrontLength]
  · intro j hj
    simp only [List.length_append, List.length_take, List.length_cons, List.length_drop] at hj
    rw [getElem?_insert items hslot, hbackLoads j, load_set front hlt]
    by_cases hhere : j = slot
    · subst hhere
      rw [if_neg (by omega), if_pos rfl, if_neg (Nat.lt_irrefl j), if_pos rfl]
    · rw [if_neg hhere, if_neg hhere]
      by_cases hlow : j < slot
      · rw [if_neg (by omega), if_pos hlow, hfrontLoads j, if_pos (by omega)]
        exact h.2 j (by omega)
      · rw [if_pos (by omega), if_neg hlow]
        exact h.2 (j - 1) (by omega)

/-- Some of the items, copied to the front of another array. -/
theorem Holds.copyOut (h : Holds size items cells) (first n : Nat) (hn : first + n ≤ items.length)
    (target : List (Option α)) (hroom : n ≤ target.length) :
    ∃ target', forUp (copyCell cells first 0) 0 n target = some target' ∧
      Holds target.length ((items.drop first).take n) target' := by
  obtain ⟨target', hloop, hlength, hloads⟩ := forUp_copy cells first 0 0 n target
    (fun i _ hi => h.isSome (by omega)) (by omega)
  refine ⟨target', hloop, hlength, ?_⟩
  intro j hj
  simp only [List.length_take, List.length_drop] at hj
  rw [hloads j, if_pos (by omega), List.getElem?_take_of_lt (by omega), List.getElem?_drop,
    h.2 _ (by omega), Nat.sub_zero, Nat.add_comm]

/-- A store behind the items. -/
theorem Holds.concat (h : Holds size items cells) (hroom : items.length < size) (item : α) :
    ∃ cells', store cells items.length item = some cells' ∧ Holds size (items ++ [item]) cells' := by
  have hlt : items.length < cells.length := by
    rw [h.1]
    exact hroom
  refine ⟨_, store_of_lt hlt item, by rw [List.length_set, h.1], ?_⟩
  intro j hj
  rw [List.length_append, List.length_singleton] at hj
  rw [load_set cells hlt]
  by_cases hlast : j = items.length
  · subst hlast
    simp
  · rw [if_neg hlast, List.getElem?_append_left (by omega)]
    exact h.2 j (by omega)

end Cells
