import Mathlib

/-!
# Counting threads

A family of threads has one program point each, and one thread moves at a time.
A counter of a protocol counts the threads at certain points; a move changes the
count by as much as it changes for the thread that moves.
-/

namespace Threads

variable {ι α : Type} [Fintype ι]

/-- How many threads are at a point of the class `p`. -/
def count (p : α → Bool) (pc : ι → α) : Nat :=
  (Finset.univ.filter fun i => p (pc i) = true).card

variable {p : α → Bool} {pc : ι → α}

theorem count_eq_zero : count p pc = 0 ↔ ∀ i, p (pc i) = false := by
  simp [count, Finset.card_eq_zero, Finset.filter_eq_empty_iff]

theorem count_pos {i : ι} (h : p (pc i) = true) : 0 < count p pc :=
  Finset.card_pos.mpr ⟨i, by simpa using h⟩

theorem exists_of_count_pos (h : 0 < count p pc) : ∃ i, p (pc i) = true := by
  obtain ⟨i, hi⟩ := Finset.card_pos.mp h
  exact ⟨i, by simpa using hi⟩

theorem count_le_card (p : α → Bool) (pc : ι → α) : count p pc ≤ Fintype.card ι :=
  Finset.card_le_univ _

theorem eq_of_count_le_one (hone : count p pc ≤ 1) {i j : ι} (hi : p (pc i) = true)
    (hj : p (pc j) = true) : i = j :=
  Finset.card_le_one.mp hone i (by simpa using hi) j (by simpa using hj)

theorem count_update [DecidableEq ι] (p : α → Bool) (pc : ι → α) (i : ι) (a : α) :
    count p (Function.update pc i a) + (p (pc i)).toNat = count p pc + (p a).toNat := by
  have hsum (f : ι → α) :
      count p f = (p (f i)).toNat + ∑ j ∈ Finset.univ.erase i, (p (f j)).toNat := by
    rw [Finset.add_sum_erase _ (fun j => (p (f j)).toNat) (Finset.mem_univ i), count,
      Finset.card_filter]
    apply Finset.sum_congr rfl
    intro j _
    cases p (f j) <;> rfl
  have hrest : ∑ j ∈ Finset.univ.erase i, (p (Function.update pc i a j)).toNat =
      ∑ j ∈ Finset.univ.erase i, (p (pc j)).toNat := by
    apply Finset.sum_congr rfl
    intro j hj
    rw [Function.update_of_ne (Finset.ne_of_mem_erase hj)]
  rw [hsum pc, hsum (Function.update pc i a), hrest, Function.update_self]
  omega

end Threads
