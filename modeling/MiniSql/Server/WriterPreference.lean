import MiniSql.Server.DbGuard

/-!
# Writers are preferred

Once a writer has executed its increment of `writers_waiting`, no reader gets past
its last check of that counter until the writer hands over to `writer_active`; and
from then on until its unlock the writer keeps out every reader that would still
have to make that check.
-/

namespace MiniSql.Server

variable {ι : Type}

/-- A writer between its increment of `writers_waiting` and its unlock. -/
def Pc.claims (pc : Pc) : Bool := pc.acquiring || pc == .writing

theorem dbGuardStep_claims (choice : Choice) (guard : DbGuard) {pc : Pc} (h : pc.claims = true)
    (hunlock : pc ≠ .writing) : (dbGuardStep choice guard pc).2.claims = true := by
  cases pc with
  | writeExchangeActive =>
    simp only [dbGuardStep]
    split <;> rfl
  | writeLoadReaders =>
    simp only [dbGuardStep]
    split <;> rfl
  | writeSubWaiting => rfl
  | writeStoreActive => rfl
  | writing => exact absurd rfl hunlock
  | _ => cases h

/-- `db_guard_lock_read` returns behind a load of 0 from `writers_waiting`. -/
theorem dbGuardStep_reading {choice : Choice} {guard : DbGuard} {pc : Pc}
    (h : (dbGuardStep choice guard pc).2 = .reading) :
    pc = .readReloadWaiting ∧ guard.writersWaiting = 0 := by
  cases pc with
  | readReloadWaiting =>
    refine ⟨rfl, ?_⟩
    by_contra hwaiting
    simp [dbGuardStep, hwaiting] at h
  | _ =>
    simp only [dbGuardStep] at h
    revert h
    (try split) <;> simp

namespace GuardState

variable [DecidableEq ι]

variable {s : GuardState ι} {w r : ι}

theorem step_claims (hw : (s.pc w).claims = true) {i : ι} (choice : Choice)
    (hunlock : i = w → s.pc w ≠ .writing) : ((s.step i choice).pc w).claims = true := by
  by_cases hwi : w = i
  · subst hwi
    simp only [step, Function.update_self]
    exact dbGuardStep_claims choice s.guard hw (hunlock rfl)
  · simpa only [step, Function.update_of_ne hwi] using hw

variable [Fintype ι]

/-- No thread starts to read beside a writer that claims the guard. -/
theorem Invariant.step_reading (h : s.Invariant) (hw : (s.pc w).claims = true)
    (hr : s.pc r ≠ .reading) (i : ι) (choice : Choice) : (s.step i choice).pc r ≠ .reading := by
  intro hreading
  by_cases hri : r = i
  · subst hri
    simp only [GuardState.step, Function.update_self] at hreading
    obtain ⟨hpc, hwaiting⟩ := dbGuardStep_reading hreading
    rcases Bool.or_eq_true_iff.mp hw with hacquiring | hwriting
    · have hpos := Threads.count_pos hacquiring
      have hcount := h.waiting
      omega
    · have hadmitted : (s.pc w).admitted = true := by
        rw [eq_of_beq hwriting]
        rfl
      have hentered := h.apart w r hadmitted
      rw [hpc] at hentered
      cases hentered
  · simp only [GuardState.step, Function.update_of_ne hri] at hreading
    exact hr hreading

/-- While no unlock of the writer is among the steps, nobody starts to read. -/
theorem Invariant.unlock_before_reading (h : s.Invariant) (hw : (s.pc w).claims = true)
    (hr : s.pc r ≠ .reading) (during : List (ι × Choice))
    (hreturns : (s.run during).pc r = .reading) :
    ∃ first choice rest, during = first ++ (w, choice) :: rest ∧ (s.run first).pc w = .writing := by
  induction during generalizing s with
  | nil => exact absurd hreturns hr
  | cons turn during ih =>
    by_cases hunlock : turn.1 = w ∧ s.pc w = .writing
    · exact ⟨[], turn.2, during, by rw [← hunlock.1]; rfl, hunlock.2⟩
    · have hclaims : ((s.step turn.1 turn.2).pc w).claims = true :=
        step_claims hw turn.2 fun hturn hwriting => hunlock ⟨hturn, hwriting⟩
      obtain ⟨first, choice, rest, rfl, hwriting⟩ :=
        ih (h.step turn.1 turn.2) hclaims (h.step_reading hw hr turn.1 turn.2) hreturns
      exact ⟨turn :: first, choice, rest, rfl, hwriting⟩

end GuardState

/-- **Writers are preferred.** Take any state in which a writer has executed its
increment of `writers_waiting` and not yet its unlock, and any thread that does not
hold the read lock there. If that thread has returned from `db_guard_lock_read` in
a later state, the writer has acquired the lock and executed its
`db_guard_unlock_write` in between. -/
theorem db_guard_writer_preference [Fintype ι] [DecidableEq ι] (before during : List (ι × Choice))
    (w r : ι) :
    let s : GuardState ι := GuardState.initial.run before
    (s.pc w).claims = true → s.pc r ≠ .reading → (s.run during).pc r = .reading →
    ∃ first choice rest, during = first ++ (w, choice) :: rest ∧ (s.run first).pc w = .writing := by
  intro s hw hr hreturns
  have h : s.Invariant := GuardState.invariant_initial.run before
  exact h.unlock_before_reading hw hr during hreturns

/-- A writer waits, and a reader begins and returns. -/
theorem db_guard_writer_preference_run :
    let write : Fin 2 × Choice := (0, ⟨true, false⟩)
    let read : Fin 2 × Choice := (1, ⟨false, false⟩)
    let s := GuardState.initial.run [write, write]
    let during := read :: List.replicate 4 write ++ List.replicate 5 read
    s.pc 0 = .writeExchangeActive ∧ s.pc 1 = .outside ∧ (s.run during).pc 1 = .reading ∧
    ∃ first choice rest, during = first ++ (0, choice) :: rest ∧ (s.run first).pc 0 = .writing := by
  intro write read s during
  have hreading : (s.run during).pc 1 = .reading := by decide
  exact ⟨by decide, by decide, hreading,
    db_guard_writer_preference [write, write] during 0 1 (by decide) (by decide) hreading⟩

end MiniSql.Server
