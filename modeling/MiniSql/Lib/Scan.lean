import Mathlib

/-!
# Searching a text for needles

`find needles text` is the first position of a text where one of some needles stands,
with the length of the needle. A text that grows at its end keeps what was found in it
if no needle begins another one and no needle that the end cuts off holds another one;
both can be checked on the needles.
-/

namespace Scan

variable {α : Type*} [DecidableEq α]

/-- The length of a needle that a text begins with. -/
def here (needles : List (List α)) (text : List α) : Option Nat :=
  (needles.find? (·.isPrefixOf text)).map List.length

def find (needles : List (List α)) : List α → Option (Nat × Nat)
  | [] => (here needles []).map (0, ·)
  | a :: text =>
    match here needles (a :: text) with
    | some n => some (0, n)
    | none => (find needles text).map (Prod.map (· + 1) id)

/-- The one of two findings that stands further in front, the second of two at one place. -/
def earlier (x y : Option (Nat × Nat)) : Option (Nat × Nat) :=
  match x, y with
  | some x, some y => if x.1 < y.1 then some x else some y
  | some x, none => some x
  | none, y => y

variable {needles : List (List α)}

theorem find_here {text : List α} {n : Nat} (h : here needles text = some n) :
    find needles text = some (0, n) := by
  cases text with
  | nil => rw [find, h, Option.map_some]
  | cons a text => simp only [find, h]

theorem find_cons {a : α} {text : List α} (h : here needles (a :: text) = none) :
    find needles (a :: text) = (find needles text).map (Prod.map (· + 1) id) := by
  simp only [find, h]

/-- No needle stands at the begin of the text if none has its first letter there. -/
theorem here_eq_none {a : α} {text : List α} (h : ∀ needle ∈ needles, ∃ b more, needle = b :: more ∧ b ≠ a) :
    here needles (a :: text) = none := by
  rw [here, Option.map_eq_none_iff, List.find?_eq_none]
  intro needle hneedle
  obtain ⟨b, more, rfl, hne⟩ := h needle hneedle
  simp [List.isPrefixOf, hne]

/-- Letters that no needle begins with are passed over. -/
theorem find_skip {before : List α}
    (h : ∀ a ∈ before, ∀ needle ∈ needles, ∃ b more, needle = b :: more ∧ b ≠ a) (text : List α) :
    find needles (before ++ text) = (find needles text).map (Prod.map (· + before.length) id) := by
  induction before with
  | nil => rcases hfind : find needles text with _ | ⟨i, n⟩ <;> simp [hfind]
  | cons a before ih =>
    obtain ⟨ha, hbefore⟩ := List.forall_mem_cons.mp h
    rw [List.cons_append, find_cons (here_eq_none ha), ih hbefore, Option.map_map]
    congr 1

/-- What is found stands inside the text. -/
theorem find_spec {text : List α} {i n : Nat} (h : find needles text = some (i, n)) :
    i ≤ text.length ∧ here needles (text.drop i) = some n := by
  induction text generalizing i with
  | nil =>
    obtain ⟨m, hm, heq⟩ := Option.map_eq_some_iff.mp h
    cases heq
    exact ⟨le_rfl, hm⟩
  | cons a text ih =>
    rcases hhere : here needles (a :: text) with _ | m
    · rw [find_cons hhere] at h
      obtain ⟨⟨j, m⟩, hfind, heq⟩ := Option.map_eq_some_iff.mp h
      cases heq
      obtain ⟨hj, hm⟩ := ih hfind
      exact ⟨Nat.succ_le_succ hj, hm⟩
    · rw [find_here hhere] at h
      cases h
      exact ⟨Nat.zero_le _, hhere⟩

theorem here_of_find_eq_none {text : List α} (h : find needles text = none) (i : Nat) :
    here needles (text.drop i) = none := by
  by_contra hsome
  obtain ⟨n, hn⟩ := Option.ne_none_iff_exists'.mp hsome
  induction text generalizing i with
  | nil =>
    rw [List.drop_nil] at hn
    cases h.symm.trans (find_here hn)
  | cons a text ih =>
    rcases hhere : here needles (a :: text) with _ | m
    · rw [find_cons hhere, Option.map_eq_none_iff] at h
      cases i with
      | zero => cases hhere.symm.trans hn
      | succ i => exact ih h i hsome hn
    · cases h.symm.trans (find_here hhere)

theorem here_begins {text : List α} {n : Nat} (h : here needles text = some n) :
    ∃ needle ∈ needles, needle.length = n ∧ needle <+: text := by
  obtain ⟨needle, hfind, rfl⟩ := Option.map_eq_some_iff.mp h
  have hbegins := List.find?_some hfind
  exact ⟨needle, List.mem_of_find?_eq_some hfind, rfl, List.isPrefixOf_iff_prefix.mp hbegins⟩

theorem here_le {text : List α} {n : Nat} (h : here needles text = some n) : n ≤ text.length := by
  obtain ⟨needle, -, rfl, hbegins⟩ := here_begins h
  exact hbegins.length_le

theorem find_le {text : List α} {found : Nat × Nat} (h : find needles text = some found) :
    found.1 + found.2 ≤ text.length := by
  obtain ⟨hle, hhere⟩ := find_spec h
  have hlength := here_le hhere
  rw [List.length_drop] at hlength
  omega

/-- A search for one needle is told where it stands. -/
theorem find_single {needle text : List α} {found : Nat × Nat} (h : find [needle] text = some found) :
    found.2 = needle.length := by
  obtain ⟨needle', hmem, hlength, -⟩ := here_begins (find_spec h).2
  rw [← hlength, List.mem_singleton.mp hmem]

/-- Two searches at once find what the earlier one of them finds. -/
theorem find_or (p q : List α) (text : List α) :
    find [q, p] text = earlier (find [p] text) (find [q] text) := by
  have hor : ∀ text, here [q, p] text = (here [q] text).or (here [p] text) := by
    intro text
    cases hq : q.isPrefixOf text <;> simp [here, hq]
  induction text with
  | nil =>
    simp only [find, hor]
    cases here [q] [] <;> cases here [p] [] <;> simp [earlier]
  | cons a text ih =>
    have hboth := hor (a :: text)
    rcases hq : here [q] (a :: text) with _ | m
    · rw [find_cons hq]
      rcases hp : here [p] (a :: text) with _ | n
      · rw [hq, hp] at hboth
        rw [find_cons hboth, ih, find_cons hp]
        rcases find [p] text with _ | ⟨i, n⟩ <;> rcases find [q] text with _ | ⟨j, m⟩ <;>
          simp only [earlier, Option.map_none, Option.map_some, Prod.map]
        by_cases hij : i < j <;> simp [hij]
      · rw [hq, hp] at hboth
        rw [find_here hboth, find_here hp]
        rcases find [q] text with _ | ⟨j, m⟩ <;> simp [earlier]
    · rw [hq, Option.some_or] at hboth
      rw [find_here hboth, find_here hq]
      rcases find [p] (a :: text) with _ | ⟨i, n⟩ <;> simp [earlier]

/-! ## Texts that grow -/

/-- Needles of which none begins another one or holds one before its end. -/
structure Apart (needles : List (List α)) : Prop where
  begins : ∀ m ∈ needles, ∀ n ∈ needles, m <+: n → m = n
  holds : ∀ n ∈ needles, ∀ part ∈ n.inits, part ≠ n → find needles part = none

namespace Apart

variable (hneedles : Apart needles)
include hneedles

theorem here_iff {text : List α} {n : Nat} :
    here needles text = some n ↔ ∃ needle ∈ needles, needle.length = n ∧ needle <+: text := by
  refine ⟨here_begins, ?_⟩
  rintro ⟨needle, hmem, rfl, hbegins⟩
  rcases hhere : here needles text with _ | n
  · rw [here, Option.map_eq_none_iff] at hhere
    exact absurd ( List.isPrefixOf_iff_prefix.mpr hbegins) (List.find?_eq_none.mp hhere needle hmem)
  · obtain ⟨other, hother, rfl, hbegins'⟩ := here_begins hhere
    have heq : other = needle := by
      rcases List.prefix_or_prefix_of_prefix hbegins' hbegins with h | h
      · exact hneedles.begins other hother needle hmem h
      · exact (hneedles.begins needle hmem other hother h).symm
    rw [heq]

theorem here_append {text : List α} {n : Nat} (h : here needles text = some n) (more : List α) :
    here needles (text ++ more) = some n := by
  obtain ⟨needle, hmem, hlength, hbegins⟩ := hneedles.here_iff.mp h
  exact hneedles.here_iff.mpr ⟨needle, hmem, hlength, hbegins.trans (List.prefix_append text more)⟩

theorem here_of_append {text more : List α} {n : Nat} (h : here needles (text ++ more) = some n)
    (hinside : n ≤ text.length) : here needles text = some n := by
  obtain ⟨needle, hmem, rfl, hbegins⟩ := hneedles.here_iff.mp h
  have htext : needle <+: text :=
    List.prefix_of_prefix_length_le hbegins (List.prefix_append text more) hinside
  exact hneedles.here_iff.mpr ⟨needle, hmem, rfl, htext⟩

/-- A text that ends inside a needle is a part of it. -/
theorem find_eq_none_of_cut {text more : List α} (h : here needles text = none)
    (hnew : here needles (text ++ more) ≠ none) : find needles text = none := by
  obtain ⟨n, hn⟩ := Option.ne_none_iff_exists'.mp hnew
  obtain ⟨needle, hmem, hlength, hbegins⟩ := hneedles.here_iff.mp hn
  have hnot : ¬ needle <+: text := by
    intro hold
    cases h.symm.trans (hneedles.here_iff.mpr ⟨needle, hmem, hlength, hold⟩)
  have hcases : needle <+: text ∨ text <+: needle :=
    List.prefix_or_prefix_of_prefix hbegins (List.prefix_append text more)
  refine hneedles.holds needle hmem text ((List.mem_inits _ _).mpr (hcases.resolve_left hnot)) ?_
  rintro rfl
  exact hnot (List.prefix_refl _)

/-- What is found stays found when the text goes on. -/
theorem find_append {text : List α} {found : Nat × Nat} (h : find needles text = some found)
    (more : List α) : find needles (text ++ more) = some found := by
  induction text generalizing found with
  | nil =>
    obtain ⟨n, hn, heq⟩ := Option.map_eq_some_iff.mp h
    rw [find_here (hneedles.here_append hn more), heq]
  | cons a text ih =>
    rcases hhere : here needles (a :: text) with _ | n
    · -- A needle that begins here now was cut off before, so nothing was found.
      have hnone : here needles (a :: (text ++ more)) = none := by
        by_contra hnew
        rw [hneedles.find_eq_none_of_cut hhere hnew] at h
        cases h
      rw [find_cons hhere] at h
      obtain ⟨found', hfind, rfl⟩ := Option.map_eq_some_iff.mp h
      rw [List.cons_append, find_cons hnone, ih hfind, Option.map_some]
    · rw [find_here hhere] at h
      rw [find_here (hneedles.here_append hhere more), ← h]

/-- What is found in a text is found in a part of it that holds it. -/
theorem find_of_append {text more : List α} {found : Nat × Nat}
    (h : find needles (text ++ more) = some found) (hinside : found.1 + found.2 ≤ text.length) :
    find needles text = some found := by
  induction text generalizing found with
  | nil =>
    obtain ⟨i, n⟩ := found
    obtain ⟨rfl, rfl⟩ : i = 0 ∧ n = 0 := by simpa using hinside
    exact find_here (hneedles.here_of_append (find_spec h).2 le_rfl)
  | cons a text ih =>
    rcases hhere : here needles (a :: (text ++ more)) with _ | n
    · have hnone : here needles (a :: text) = none := by
        by_contra hsome
        obtain ⟨n, hn⟩ := Option.ne_none_iff_exists'.mp hsome
        cases hhere.symm.trans (hneedles.here_append hn more)
      rw [List.cons_append, find_cons hhere] at h
      obtain ⟨found', hfind, rfl⟩ := Option.map_eq_some_iff.mp h
      have hinside' : found'.1 + found'.2 ≤ text.length := by
        simp only [Prod.map_fst, Prod.map_snd, id_eq, List.length_cons] at hinside
        omega
      rw [find_cons hnone, ih hfind hinside', Option.map_some]
    · rw [List.cons_append, find_here hhere] at h
      cases h
      exact find_here (hneedles.here_of_append hhere (by simpa using hinside))

end Apart

end Scan
