import MiniSql.Lib.Threads

/-!
# The readers-writer lock of `src/server/concurrency/db_guard.c`

Any number of threads call the lock and unlock functions, each any number of
times. Every atomic operation is one step of one thread, in a sequentially
consistent interleaving. The `atomic_int`s are unbounded integers here: no
counter exceeds the number of threads (`GuardState.Invariant.bounded`).
-/

namespace MiniSql.Server

structure DbGuard where
  readerCount : Int
  writerActive : Int
  writersWaiting : Int
  deriving DecidableEq, Repr

def dbGuardCreate : DbGuard := ⟨0, 0, 0⟩

/-- Where a thread is: in front of an atomic operation of `db_guard_lock_read` or
`db_guard_lock_write`, inside its section (in front of the unlock), or outside
the guard. -/
inductive Pc
  | outside
  | readLoadActive
  | readLoadWaiting
  | readAddReader
  | readReloadActive
  | readReloadWaiting
  | readSubReader
  | reading
  | writeAddWaiting
  | writeExchangeActive
  | writeLoadReaders
  | writeSubWaiting
  | writeStoreActive
  | writing
  deriving DecidableEq, Repr

/-- What the program does not determine: which lock a thread outside calls for,
and whether a weak compare-exchange fails although the values agree. -/
structure Choice where
  write : Bool
  spurious : Bool
  deriving DecidableEq, Repr

/-- The next step of a thread. -/
def dbGuardStep (choice : Choice) (guard : DbGuard) : Pc → DbGuard × Pc
  | .outside => (guard, if choice.write then .writeAddWaiting else .readLoadActive)
  -- db_guard_lock_read
  | .readLoadActive =>
    (guard, if guard.writerActive ≠ 0 then .readLoadActive else .readLoadWaiting)
  | .readLoadWaiting =>
    (guard, if guard.writersWaiting ≠ 0 then .readLoadActive else .readAddReader)
  | .readAddReader => ({ guard with readerCount := guard.readerCount + 1 }, .readReloadActive)
  | .readReloadActive =>
    (guard, if guard.writerActive = 0 then .readReloadWaiting else .readSubReader)
  | .readReloadWaiting =>
    (guard, if guard.writersWaiting = 0 then .reading else .readSubReader)
  | .readSubReader => ({ guard with readerCount := guard.readerCount - 1 }, .readLoadActive)
  -- db_guard_unlock_read
  | .reading => ({ guard with readerCount := guard.readerCount - 1 }, .outside)
  -- db_guard_lock_write
  | .writeAddWaiting =>
    ({ guard with writersWaiting := guard.writersWaiting + 1 }, .writeExchangeActive)
  | .writeExchangeActive =>
    if guard.writerActive = 0 ∧ choice.spurious = false then
      ({ guard with writerActive := 1 }, .writeLoadReaders)
    else (guard, .writeExchangeActive)
  | .writeLoadReaders =>
    (guard, if guard.readerCount = 0 then .writeSubWaiting else .writeStoreActive)
  | .writeSubWaiting => ({ guard with writersWaiting := guard.writersWaiting - 1 }, .writing)
  | .writeStoreActive => ({ guard with writerActive := 0 }, .writeExchangeActive)
  -- db_guard_unlock_write
  | .writing => ({ guard with writerActive := 0 }, .outside)

/-! ## What the counters count -/

/-- A reader between its increment and its decrement of `reader_count`. -/
def Pc.counted : Pc → Bool
  | .readReloadActive | .readReloadWaiting | .readSubReader | .reading => true
  | _ => false

/-- A writer that is still acquiring the lock. -/
def Pc.acquiring : Pc → Bool
  | .writeExchangeActive | .writeLoadReaders | .writeSubWaiting | .writeStoreActive => true
  | _ => false

/-- A writer that has set `writer_active`. -/
def Pc.active : Pc → Bool
  | .writeLoadReaders | .writeSubWaiting | .writeStoreActive | .writing => true
  | _ => false

/-- A writer that saw no reader once it was active. -/
def Pc.admitted : Pc → Bool
  | .writeSubWaiting | .writing => true
  | _ => false

/-- A reader that saw no active writer once it was counted. -/
def Pc.entered : Pc → Bool
  | .readReloadWaiting | .reading => true
  | _ => false

theorem Pc.active_of_admitted {pc : Pc} (h : pc.admitted = true) : pc.active = true := by
  cases pc <;> first | rfl | cases h

theorem Pc.counted_of_entered {pc : Pc} (h : pc.entered = true) : pc.counted = true := by
  cases pc <;> first | rfl | cases h

theorem Pc.not_entered_of_admitted {pc : Pc} (h : pc.admitted = true) : pc.entered = false := by
  cases pc <;> first | rfl | cases h

/-- What a step of a thread may do: the counters go with the places they count, and
nobody becomes active, is admitted or enters against the value it has to see. -/
structure Moves (guard : DbGuard) (pc : Pc) (guard' : DbGuard) (pc' : Pc) : Prop where
  readers : guard'.readerCount + pc.counted.toNat = guard.readerCount + pc'.counted.toNat
  waiting : guard'.writersWaiting + pc.acquiring.toNat = guard.writersWaiting + pc'.acquiring.toNat
  writer : guard'.writerActive + pc.active.toNat = guard.writerActive + pc'.active.toNat
  active : pc'.active = true → pc.active = true ∨ guard.writerActive = 0
  admitted : pc'.admitted = true → pc.admitted = true ∨ guard.readerCount = 0
  entered : pc'.entered = true → pc.entered = true ∨ guard.writerActive = 0

/-- The stores of 0 to `writer_active` take back a 1 of the same thread. -/
theorem dbGuardStep_moves (choice : Choice) (guard : DbGuard) (pc : Pc)
    (hone : pc.active = true → guard.writerActive = 1) :
    Moves guard pc (dbGuardStep choice guard pc).1 (dbGuardStep choice guard pc).2 := by
  constructor
  · cases pc <;> simp only [dbGuardStep] <;> (try split) <;> simp [Pc.counted]
  · cases pc <;> simp only [dbGuardStep] <;> (try split) <;> simp [Pc.acquiring]
  · cases pc <;> simp only [dbGuardStep] <;> (try split) <;> simp_all [Pc.active]
  · cases pc <;> simp only [dbGuardStep] <;> (try split) <;> simp_all [Pc.active]
  · cases pc <;> simp only [dbGuardStep] <;> (try split) <;> simp_all [Pc.admitted]
  · cases pc <;> simp only [dbGuardStep] <;> (try split) <;> simp_all [Pc.entered]

/-! ## Runs -/

section

variable {ι : Type}

/-- The guard and where each thread is. -/
structure GuardState (ι : Type) where
  guard : DbGuard
  pc : ι → Pc

def GuardState.initial : GuardState ι := ⟨dbGuardCreate, fun _ => .outside⟩

def GuardState.step [DecidableEq ι] (s : GuardState ι) (i : ι) (choice : Choice) : GuardState ι :=
  ⟨(dbGuardStep choice s.guard (s.pc i)).1,
    Function.update s.pc i (dbGuardStep choice s.guard (s.pc i)).2⟩

/-- A run: the threads take their steps in the order of the schedule. -/
def GuardState.run [DecidableEq ι] (s : GuardState ι) (schedule : List (ι × Choice)) : GuardState ι :=
  schedule.foldl (fun s turn => s.step turn.1 turn.2) s

variable [Fintype ι]

/-- The inductive invariant: the counters count, one writer is active at most,
and an admitted writer excludes the readers that have entered. -/
structure GuardState.Invariant (s : GuardState ι) : Prop where
  readers : s.guard.readerCount = Threads.count Pc.counted s.pc
  waiting : s.guard.writersWaiting = Threads.count Pc.acquiring s.pc
  active : s.guard.writerActive = Threads.count Pc.active s.pc
  one : Threads.count Pc.active s.pc ≤ 1
  apart : ∀ i j, (s.pc i).admitted = true → (s.pc j).entered = false

namespace GuardState

theorem invariant_initial : (initial : GuardState ι).Invariant := by
  have hzero (p : Pc → Bool) (hp : p .outside = false) :
      Threads.count p (initial : GuardState ι).pc = 0 :=
    Threads.count_eq_zero.mpr fun _ => hp
  refine ⟨?_, ?_, ?_, ?_, ?_⟩
  · rw [hzero _ rfl]
    rfl
  · rw [hzero _ rfl]
    rfl
  · rw [hzero _ rfl]
    rfl
  · rw [hzero _ rfl]
    exact Nat.zero_le 1
  · intro i j h
    cases h

variable {s : GuardState ι}

theorem Invariant.writerActive_of_active (h : s.Invariant) {i : ι} (hi : (s.pc i).active = true) :
    s.guard.writerActive = 1 := by
  have hpos := Threads.count_pos hi
  have hone := h.one
  rw [h.active]
  omega

/-- A writer inside its section is alone there. -/
theorem Invariant.exclusion (h : s.Invariant) {i j : ι} (hi : s.pc i = .writing) (hne : i ≠ j) :
    s.pc j ≠ .writing ∧ s.pc j ≠ .reading := by
  constructor
  · intro hj
    exact hne (Threads.eq_of_count_le_one h.one (by rw [hi]; rfl) (by rw [hj]; rfl))
  · intro hj
    have hapart := h.apart i j (by rw [hi]; rfl)
    rw [hj] at hapart
    cases hapart

/-- No counter exceeds the number of threads. -/
theorem Invariant.bounded (h : s.Invariant) :
    0 ≤ s.guard.readerCount ∧ s.guard.readerCount ≤ Fintype.card ι ∧
    0 ≤ s.guard.writersWaiting ∧ s.guard.writersWaiting ≤ Fintype.card ι ∧
    0 ≤ s.guard.writerActive ∧ s.guard.writerActive ≤ 1 := by
  have hreaders := Threads.count_le_card Pc.counted s.pc
  have hwaiting := Threads.count_le_card Pc.acquiring s.pc
  have hone := h.one
  rw [h.readers, h.waiting, h.active]
  omega

variable [DecidableEq ι]

theorem Invariant.moves_one (h : s.Invariant) {i : ι} {guard : DbGuard} {pc : Pc}
    (hmoves : Moves s.guard (s.pc i) guard pc) :
    Threads.count Pc.active (Function.update s.pc i pc) ≤ 1 := by
  have hcount := Threads.count_update Pc.active s.pc i pc
  have hone := h.one
  cases hnew : pc.active with
  | false =>
    rw [hnew] at hcount
    simp only [Bool.toNat_false] at hcount
    omega
  | true =>
    rw [hnew] at hcount
    rcases hmoves.active hnew with hold | hzero
    · rw [hold] at hcount
      omega
    · -- The exchange succeeded, so no thread was active.
      have hnone := h.active
      rw [hzero] at hnone
      simp only [Bool.toNat_true] at hcount
      omega

theorem Invariant.moves_apart (h : s.Invariant) {i : ι} {guard : DbGuard} {pc : Pc}
    (hmoves : Moves s.guard (s.pc i) guard pc) (a b : ι)
    (ha : (Function.update s.pc i pc a).admitted = true) :
    (Function.update s.pc i pc b).entered = false := by
  by_contra hb
  simp only [Bool.not_eq_false] at hb
  have hne : a ≠ b := by
    rintro rfl
    rw [Pc.not_entered_of_admitted ha] at hb
    cases hb
  by_cases hai : a = i
  · subst hai
    rw [Function.update_of_ne hne.symm] at hb
    rw [Function.update_self] at ha
    rcases hmoves.admitted ha with hold | hzero
    · simp [h.apart a b hold] at hb
    · have hpos := Threads.count_pos (Pc.counted_of_entered hb)
      have hreaders := h.readers
      omega
  · rw [Function.update_of_ne hai] at ha
    by_cases hbi : b = i
    · subst hbi
      rw [Function.update_self] at hb
      rcases hmoves.entered hb with hold | hzero
      · simp [h.apart a b ha] at hold
      · have hactive := h.writerActive_of_active (Pc.active_of_admitted ha)
        omega
    · rw [Function.update_of_ne hbi] at hb
      simp [h.apart a b ha] at hb

theorem Invariant.moves (h : s.Invariant) {i : ι} {guard : DbGuard} {pc : Pc}
    (hmoves : Moves s.guard (s.pc i) guard pc) :
    GuardState.Invariant ⟨guard, Function.update s.pc i pc⟩ := by
  refine ⟨?_, ?_, ?_, h.moves_one hmoves, h.moves_apart hmoves⟩
  · have hcount := Threads.count_update Pc.counted s.pc i pc
    have hstep := hmoves.readers
    have hold := h.readers
    change guard.readerCount = Threads.count Pc.counted (Function.update s.pc i pc)
    omega
  · have hcount := Threads.count_update Pc.acquiring s.pc i pc
    have hstep := hmoves.waiting
    have hold := h.waiting
    change guard.writersWaiting = Threads.count Pc.acquiring (Function.update s.pc i pc)
    omega
  · have hcount := Threads.count_update Pc.active s.pc i pc
    have hstep := hmoves.writer
    have hold := h.active
    change guard.writerActive = Threads.count Pc.active (Function.update s.pc i pc)
    omega

theorem Invariant.step (h : s.Invariant) (i : ι) (choice : Choice) :
    (s.step i choice).Invariant :=
  h.moves (dbGuardStep_moves choice s.guard (s.pc i) h.writerActive_of_active)

theorem Invariant.run (h : s.Invariant) (schedule : List (ι × Choice)) :
    (s.run schedule).Invariant := by
  induction schedule generalizing s with
  | nil => exact h
  | cons turn schedule ih => exact ih (h.step turn.1 turn.2)

end GuardState

/-- **The guard is a readers-writer lock.** In every state of every run a writer
inside its section is alone; `reader_count` is the number of readers between
their increment and their decrement and `writers_waiting` the number of writers
still acquiring. All three counters are 0 when every thread is outside. -/
theorem db_guard_excludes [DecidableEq ι] (schedule : List (ι × Choice)) :
    let s := GuardState.initial.run schedule
    (∀ i j, s.pc i = .writing → i ≠ j → s.pc j ≠ .writing ∧ s.pc j ≠ .reading) ∧
    s.guard.readerCount = Threads.count Pc.counted s.pc ∧
    s.guard.writersWaiting = Threads.count Pc.acquiring s.pc ∧
    ((∀ i, s.pc i = .outside) → s.guard = ⟨0, 0, 0⟩) := by
  intro s
  have h : s.Invariant := GuardState.invariant_initial.run schedule
  refine ⟨fun i j => h.exclusion, h.readers, h.waiting, ?_⟩
  intro houtside
  have hzero (p : Pc → Bool) (hp : p .outside = false) : Threads.count p s.pc = 0 := by
    apply Threads.count_eq_zero.mpr
    intro i
    rw [houtside i, hp]
  have hreaders := h.readers
  have hwaiting := h.waiting
  have hactive := h.active
  rw [hzero _ rfl] at hreaders hwaiting hactive
  cases hg : s.guard with
  | mk readerCount writerActive writersWaiting =>
    rw [hg] at hreaders hwaiting hactive
    simp only [DbGuard.mk.injEq]
    exact ⟨hreaders, hactive, hwaiting⟩

end

end MiniSql.Server
