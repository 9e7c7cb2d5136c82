import Mathlib

/-!
# Lists with separators between their items

`Separated P lo seps items hi` says that consecutive items are kept apart by the
separators: an item `c` with separators `a` and `b` on its two sides (`lo` and
`hi` at the ends) satisfies `P a b c`. It is the shape of a node of any search
tree with many children, whatever `P` says of the children.

* `route` counts the separators that are not above a key;
* `focus` names the item a key is routed to and lets it be replaced by any
  separated list over the same bounds;
* `Separated.append_iff` cuts a separated list at a separator.
-/

inductive Separated {K C : Type} (P : K → K → C → Prop) : K → List K → List C → K → Prop
  | one {lo hi : K} {c : C} : P lo hi c → Separated P lo [] [c] hi
  | cons {lo s hi : K} {c : C} {ss : List K} {cs : List C} :
      P lo s c → Separated P s ss cs hi → Separated P lo (s :: ss) (c :: cs) hi

namespace Separated

section
variable {K C : Type} {P : K → K → C → Prop} {lo hi : K} {ss : List K} {cs : List C}

theorem length_eq (h : Separated P lo ss cs hi) : cs.length = ss.length + 1 := by
  induction h with
  | one _ => rfl
  | cons _ _ ih => simp [ih]

/-- A separated list falls apart at any of its separators, and back together. -/
theorem append_iff {s : K} {ss₁ ss₂ : List K} {cs₁ cs₂ : List C}
    (hl : cs₁.length = ss₁.length + 1) :
    Separated P lo (ss₁ ++ s :: ss₂) (cs₁ ++ cs₂) hi ↔
      Separated P lo ss₁ cs₁ s ∧ Separated P s ss₂ cs₂ hi := by
  induction ss₁ generalizing lo cs₁ with
  | nil =>
    obtain ⟨c, rfl⟩ := List.length_eq_one_iff.mp hl
    constructor
    · intro h
      cases h with
      | cons hc hr => exact ⟨.one hc, hr⟩
    · rintro ⟨hc, hr⟩
      cases hc with
      | one hc => exact .cons hc hr
  | cons t ts ih =>
    cases cs₁ with
    | nil => simp at hl
    | cons c cs₁ =>
      have hl' : cs₁.length = ts.length + 1 := by simpa using hl
      constructor
      · intro h
        cases h with
        | cons hc hr =>
          obtain ⟨hleft, hright⟩ := (ih hl').mp hr
          exact ⟨.cons hc hleft, hright⟩
      · rintro ⟨hleft, hright⟩
        cases hleft with
        | cons hc hr => exact .cons hc ((ih hl').mpr ⟨hr, hright⟩)

/-- Cutting at position `n`: the separator there goes to neither half. -/
theorem cut (h : Separated P lo ss cs hi) {n : Nat} (hn : n < ss.length) :
    Separated P lo (ss.take n) (cs.take (n + 1)) ss[n] ∧
      Separated P ss[n] (ss.drop (n + 1)) (cs.drop (n + 1)) hi := by
  have hc := h.length_eq
  have hs : ss = ss.take n ++ ss[n] :: ss.drop (n + 1) := by simp
  rw [hs, ← List.take_append_drop (n + 1) cs] at h
  exact (append_iff (by simp; omega)).mp h

/-- The two separators at an item's sides, with `lo` and `hi` at the ends. -/
theorem between (h : Separated P lo ss cs hi) {i : Nat} {c : C} (hc : cs[i]? = some c) :
    ∃ a b, (lo :: ss)[i]? = some a ∧ (ss ++ [hi])[i]? = some b ∧ P a b c := by
  induction h generalizing i with
  | @one lo hi d hd =>
    cases i with
    | zero =>
      obtain rfl : d = c := by simpa using hc
      exact ⟨lo, hi, rfl, rfl, hd⟩
    | succ i => simp at hc
  | @cons lo s hi d ss cs hd _ ih =>
    cases i with
    | zero =>
      obtain rfl : d = c := by simpa using hc
      exact ⟨lo, s, rfl, rfl, hd⟩
    | succ i =>
      obtain ⟨a, b, ha, hb, hp⟩ := ih (by simpa using hc)
      exact ⟨a, b, by simpa using ha, by simpa using hb, hp⟩

end

section
variable {K C : Type} [LinearOrder K] {P : K → K → C → Prop} {lo hi : K} {ss : List K}
  {cs : List C}

/-- The bounds of each item lie inside the outer bounds. -/
theorem bounds (hP : ∀ a b c, P a b c → a ≤ b) (h : Separated P lo ss cs hi) :
    lo ≤ hi ∧ ∀ c ∈ cs, ∃ a b, lo ≤ a ∧ b ≤ hi ∧ P a b c := by
  induction h with
  | @one lo hi c hc =>
    refine ⟨hP _ _ _ hc, fun d hd => ?_⟩
    obtain rfl : d = c := by simpa using hd
    exact ⟨lo, hi, le_refl _, le_refl _, hc⟩
  | @cons lo s hi c ss cs hc _ ih =>
    obtain ⟨hs, hcs⟩ := ih
    refine ⟨le_trans (hP _ _ _ hc) hs, fun d hd => ?_⟩
    rcases List.mem_cons.mp hd with rfl | hd
    · exact ⟨lo, s, le_refl _, hs, hc⟩
    · obtain ⟨a, b, ha, hb, hd⟩ := hcs d hd
      exact ⟨a, b, le_trans (hP _ _ _ hc) ha, hb, hd⟩

/-- Where no item fits between equal bounds, the separators increase. -/
theorem seps_increasing (hP : ∀ a b c, P a b c → a < b) (h : Separated P lo ss cs hi) :
    ss.Pairwise (· < ·) ∧ ∀ s ∈ ss, lo < s ∧ s < hi := by
  induction h with
  | one _ => exact ⟨.nil, by simp⟩
  | @cons lo s hi c ss cs hc hr ih =>
    obtain ⟨hsorted, hbetween⟩ := ih
    have hlo := hP _ _ _ hc
    refine ⟨.cons (fun t ht => (hbetween t ht).1) hsorted, fun t ht => ?_⟩
    rcases List.mem_cons.mp ht with rfl | ht
    · refine ⟨hlo, ?_⟩
      cases hr with
      | one hc => exact hP _ _ _ hc
      | cons hc _ => exact lt_trans (hP _ _ _ hc) (hbetween _ (by simp)).2
    · exact ⟨lt_trans hlo (hbetween t ht).1, (hbetween t ht).2⟩

/-- How many leading separators are not above `x`. -/
def route : List K → K → Nat
  | [], _ => 0
  | s :: ss, x => if s ≤ x then route ss x + 1 else 0

/-- The item `c` that `x` is routed to, with its bounds `a` and `b` and the
separators and items on its two sides. -/
structure Focus (P : K → K → C → Prop) (lo : K) (ss : List K) (cs : List C) (hi x : K)
    (before : List K) (left : List C) (a : K) (c : C) (b : K) (after : List K)
    (right : List C) : Prop where
  seps : ss = before ++ after
  items : cs = left ++ c :: right
  aligned : left.length = before.length
  routed : route ss x = before.length
  low : a ≤ x
  high : x < b
  here : P a b c
  below : ∀ d ∈ left, ∃ a' b', b' ≤ x ∧ P a' b' d
  above : ∀ d ∈ right, ∃ a' b', x < a' ∧ P a' b' d
  plug : ∀ {ts ms}, Separated P a ts ms b →
    Separated P lo (before ++ ts ++ after) (left ++ ms ++ right) hi

theorem focus (hP : ∀ a b c, P a b c → a ≤ b) (h : Separated P lo ss cs hi) {x : K}
    (hlo : lo ≤ x) (hhi : x < hi) : ∃ before left a c b after right,
      Focus P lo ss cs hi x before left a c b after right := by
  induction h with
  | @one lo hi c hc =>
    refine ⟨[], [], lo, c, hi, [], [], rfl, rfl, rfl, rfl, hlo, hhi, hc, by simp, by simp, ?_⟩
    intro ts ms hm
    simpa using hm
  | @cons lo s hi c ss cs hc hr ih =>
    by_cases hs : s ≤ x
    · obtain ⟨before, left, a, d, b, after, right, f⟩ := ih hs hhi
      refine ⟨s :: before, c :: left, a, d, b, after, right, by simp [f.seps], by simp [f.items],
        by simp [f.aligned], by simp [route, hs, f.routed], f.low, f.high, f.here, ?_, f.above, ?_⟩
      · intro e he
        rcases List.mem_cons.mp he with rfl | he
        · exact ⟨lo, s, hs, hc⟩
        · exact f.below e he
      · intro ts ms hm
        exact .cons hc (f.plug hm)
    · have hxs := lt_of_not_ge hs
      refine ⟨[], [], lo, c, s, s :: ss, cs, rfl, rfl, rfl, by simp [route, hs], hlo, hxs, hc,
        by simp, ?_, ?_⟩
      · intro e he
        obtain ⟨a, b, ha, _, he⟩ := (hr.bounds hP).2 e he
        exact ⟨a, b, lt_of_lt_of_le hxs ha, he⟩
      · intro ts ms hm
        exact (append_iff hm.length_eq).mpr ⟨hm, hr⟩

/-- What is collected from the items increases when it does in each item and
stays between the item's bounds. -/
theorem flatMap_increasing {β : Type} {key : β → K} {f : C → List β}
    (hP : ∀ a b c, P a b c → a ≤ b)
    (hf : ∀ a b c, P a b c → (f c).Pairwise (key · < key ·) ∧ ∀ e ∈ f c, a ≤ key e ∧ key e < b)
    (h : Separated P lo ss cs hi) :
    (cs.flatMap f).Pairwise (key · < key ·) ∧
      ∀ e ∈ cs.flatMap f, lo ≤ key e ∧ key e < hi := by
  induction h with
  | one hc => simpa using hf _ _ _ hc
  | @cons lo s hi c ss cs hc hr ih =>
    obtain ⟨hsorted, hin⟩ := hf _ _ _ hc
    obtain ⟨hsorted', hin'⟩ := ih
    have hlo := hP _ _ _ hc
    have hhi := (hr.bounds hP).1
    rw [List.flatMap_cons]
    constructor
    · refine List.pairwise_append.mpr ⟨hsorted, hsorted', fun e he e' he' => ?_⟩
      exact lt_of_lt_of_le (hin e he).2 (hin' e' he').1
    · intro e he
      rcases List.mem_append.mp he with he | he
      · exact ⟨(hin e he).1, lt_of_lt_of_le (hin e he).2 hhi⟩
      · exact ⟨le_trans hlo (hin' e he).1, (hin' e he).2⟩

end

end Separated
