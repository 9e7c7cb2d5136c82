import Mathlib

/-!
# Steps that are local to a key

A machine whose steps each concern one key: a step reads and changes the view of its key
and nothing else of the state. A run then is, for each key, the run of the steps of this
key alone, and the order between steps of different keys does not matter.
-/

namespace MiniSql.Isolation

variable {S Q O K V : Type}

/-- The steps one after the other, with their answers. -/
def run (step : Q → S → Option (S × O)) : S → List Q → Option (S × List O)
  | s, [] => some (s, [])
  | s, q :: qs => do
    let (s, out) ← step q s
    let (s, outs) ← run step s qs
    some (s, out :: outs)

theorem run_cons_some {step : Q → S → Option (S × O)} {s s' : S} {q : Q} {qs : List Q}
    {outs : List O} (h : run step s (q :: qs) = some (s', outs)) :
    ∃ s₁ out outs₁, step q s = some (s₁, out) ∧ run step s₁ qs = some (s', outs₁) ∧
      outs = out :: outs₁ := by
  simp only [run, Option.bind_eq_bind, Option.bind_eq_some_iff, Option.some.injEq,
    Prod.mk.injEq] at h
  obtain ⟨⟨s₁, out⟩, hstep, ⟨s₂, outs₁⟩, hrun, rfl, rfl⟩ := h
  exact ⟨s₁, out, outs₁, hstep, hrun, rfl⟩

theorem run_cons {step : Q → S → Option (S × O)} {s s₁ s' : S} {q : Q} {qs : List Q} {out : O}
    {outs : List O} (hstep : step q s = some (s₁, out)) (hrun : run step s₁ qs = some (s', outs)) :
    run step s (q :: qs) = some (s', out :: outs) := by
  simp only [run, hstep, hrun, Option.bind_eq_bind, Option.bind_some]

/-- The steps of one key. -/
def concerning [DecidableEq K] (key : Q → K) (k : K) (qs : List Q) : List Q := qs.filter (key · = k)

/-- The answers to the steps of one key. -/
def answers [DecidableEq K] (key : Q → K) (k : K) : List Q → List O → List O
  | q :: qs, out :: outs => if key q = k then out :: answers key k qs outs else answers key k qs outs
  | _, _ => []

/-- Each step acts on the view of its key as `localStep` does, and leaves the others alone. -/
structure Isolated (Valid : S → Prop) (step : Q → S → Option (S × O)) (key : Q → K)
    (view : K → S → V) (localStep : K → Q → V → Option (V × O)) : Prop where
  valid : ∀ {s s' q out}, Valid s → step q s = some (s', out) → Valid s'
  acts : ∀ {s q}, Valid s →
    (step q s).map (fun next => (view (key q) next.1, next.2)) = localStep (key q) q (view (key q) s)
  frame : ∀ {s s' q out k}, Valid s → step q s = some (s', out) → k ≠ key q → view k s' = view k s

namespace Isolated

variable {Valid : S → Prop} {step : Q → S → Option (S × O)} {key : Q → K} {view : K → S → V}
  {localStep : K → Q → V → Option (V × O)}

theorem local_of_step (h : Isolated Valid step key view localStep) {s s' : S} {q : Q} {out : O}
    (hs : Valid s) (hstep : step q s = some (s', out)) :
    localStep (key q) q (view (key q) s) = some (view (key q) s', out) := by
  rw [← h.acts hs, hstep, Option.map_some]

theorem step_of_local (h : Isolated Valid step key view localStep) {s : S} {q : Q} {v : V} {out : O}
    (hs : Valid s) (hlocal : localStep (key q) q (view (key q) s) = some (v, out)) :
    ∃ s', step q s = some (s', out) ∧ view (key q) s' = v := by
  rw [← h.acts hs, Option.map_eq_some_iff] at hlocal
  obtain ⟨⟨s', out'⟩, hstep, heq⟩ := hlocal
  cases heq
  exact ⟨s', hstep, rfl⟩

variable [DecidableEq K]

/-- A run is, for each key, the run of the steps of this key alone. -/
theorem project (h : Isolated Valid step key view localStep) (k : K) {s s' : S} (hs : Valid s)
    {qs : List Q} {outs : List O} (hrun : run step s qs = some (s', outs)) :
    run (localStep k) (view k s) (concerning key k qs) = some (view k s', answers key k qs outs) := by
  induction qs generalizing s outs with
  | nil =>
    cases hrun
    rfl
  | cons q qs ih =>
    obtain ⟨s₁, out, outs₁, hstep, hrest, rfl⟩ := run_cons_some hrun
    have hlater := ih (h.valid hs hstep) hrest
    by_cases hkey : key q = k
    · subst hkey
      simp only [concerning, List.filter_cons, decide_true, if_true, answers]
      exact run_cons (h.local_of_step hs hstep) hlater
    · rw [h.frame hs hstep (Ne.symm hkey)] at hlater
      simpa only [concerning, List.filter_cons, hkey, decide_false, Bool.false_eq_true, if_false,
        answers] using hlater

/-- The runs of the keys come together to one run. -/
theorem compose (h : Isolated Valid step key view localStep) {s : S} (hs : Valid s) (qs : List Q)
    (hlocal : ∀ k, (run (localStep k) (view k s) (concerning key k qs)).isSome = true) :
    ∃ s' outs, run step s qs = some (s', outs) := by
  induction qs generalizing s with
  | nil => exact ⟨s, [], rfl⟩
  | cons q qs ih =>
    have hq := hlocal (key q)
    obtain ⟨⟨v, localOuts⟩, hrun⟩ := Option.isSome_iff_exists.mp hq
    simp only [concerning, List.filter_cons, decide_true, if_true] at hrun
    obtain ⟨v₁, out, outs₁, hfirst, hrest, -⟩ := run_cons_some hrun
    obtain ⟨s₁, hstep, rfl⟩ := h.step_of_local hs hfirst
    have hnext : ∀ k, (run (localStep k) (view k s₁) (concerning key k qs)).isSome = true := by
      intro k
      by_cases hkey : key q = k
      · subst hkey
        exact Option.isSome_iff_exists.mpr ⟨_, hrest⟩
      · rw [h.frame hs hstep (Ne.symm hkey)]
        simpa only [concerning, List.filter_cons, hkey, decide_false, Bool.false_eq_true,
          if_false] using hlocal k
    obtain ⟨s', outs, hlater⟩ := ih (h.valid hs hstep) hnext
    exact ⟨s', out :: outs, run_cons hstep hlater⟩

/-- **Steps of different keys commute.** Another order of the steps that keeps the order
of each key gives every key the same answers and leaves it the same view. -/
theorem reorder (h : Isolated Valid step key view localStep) {s s' : S} (hs : Valid s)
    {qs qs' : List Q} {outs : List O} (hrun : run step s qs = some (s', outs))
    (horder : ∀ k, concerning key k qs' = concerning key k qs) :
    ∃ s'' outs', run step s qs' = some (s'', outs') ∧
      ∀ k, view k s'' = view k s' ∧ answers key k qs' outs' = answers key k qs outs := by
  obtain ⟨s'', outs', hrun'⟩ := h.compose hs qs' (by
    intro k
    rw [horder k, h.project k hs hrun]
    rfl)
  refine ⟨s'', outs', hrun', ?_⟩
  intro k
  have hsame := h.project k hs hrun'
  rw [horder k, h.project k hs hrun, Option.some.injEq, Prod.mk.injEq] at hsame
  exact ⟨hsame.1.symm, hsame.2.symm⟩

end Isolated

end MiniSql.Isolation
