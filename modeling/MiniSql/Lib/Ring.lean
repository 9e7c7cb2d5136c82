import Mathlib

/-!
# Ring buffers

A fixed array of slots holds a list: `count` elements from the slot `head` on,
around the end of the array. Writing the slot behind the last element appends to
the list, and moving `head` on by one takes its first element away.
-/

namespace Ring

variable {α : Type}

/-- The slot with a given number of slots in front of it. -/
def slot (slots : List (Option α)) (head offset : Nat) : Nat := (head + offset) % slots.length

def contents (slots : List (Option α)) (head count : Nat) : List (Option α) :=
  (List.range count).map fun offset => (slots[slot slots head offset]?).join

variable {slots : List (Option α)} {head count : Nat}

@[simp] theorem length_contents : (contents slots head count).length = count := by simp [contents]

/-- Different offsets below the number of slots are different slots. -/
theorem slot_ne (head : Nat) {i j : Nat} (hij : i < j) (hj : j < slots.length) :
    slot slots head i ≠ slot slots head j := by
  intro h
  have hdvd : slots.length ∣ (head + j) - (head + i) :=
    (Nat.modEq_iff_dvd' (by omega)).mp h
  have hle := Nat.le_of_dvd (by omega) hdvd
  omega

theorem contents_push (hroom : count < slots.length) (a : α) :
    contents (slots.set (slot slots head count) (some a)) head (count + 1) =
      contents slots head count ++ [some a] := by
  have hslot (offset : Nat) : slot (slots.set (slot slots head count) (some a)) head offset =
      slot slots head offset := by
    simp only [slot, List.length_set]
  have hlt : slot slots head count < slots.length := Nat.mod_lt _ (by omega)
  rw [contents, List.range_succ, List.map_append, List.map_singleton, hslot,
    List.getElem?_set_self hlt]
  congr 1
  apply List.map_congr_left
  intro offset hoffset
  have hne := slot_ne head (List.mem_range.mp hoffset) hroom
  rw [hslot, List.getElem?_set_ne (Ne.symm hne)]

theorem contents_pop (hhead : head < slots.length) (hcount : count + 1 ≤ slots.length) :
    contents slots head (count + 1) = (slots[head]?).join ::
      contents (slots.set head none) ((head + 1) % slots.length) count := by
  have hfirst : slot slots head 0 = head := Nat.mod_eq_of_lt hhead
  rw [contents, List.range_succ_eq_map, List.map_cons, List.map_map, hfirst]
  congr 1
  apply List.map_congr_left
  intro offset hoffset
  have hnext : slot (slots.set head none) ((head + 1) % slots.length) offset =
      slot slots head (offset + 1) := by
    simp only [slot, List.length_set, Nat.mod_add_mod, Nat.add_assoc, Nat.add_comm 1]
  have hoffset := List.mem_range.mp hoffset
  have hne : head ≠ slot slots head (offset + 1) := by
    have hlt : offset + 1 < slots.length := by omega
    have hne := slot_ne head (Nat.succ_pos offset) hlt
    rwa [hfirst] at hne
  rw [Function.comp_apply, hnext, List.getElem?_set_ne hne]

end Ring
