import MiniSql.Lib.ReleaseAcquire
import MiniSql.Server.DbGuard

/-!
# The guard under the memory orders of its source

The same lock and unlock functions, with each atomic operation as release/acquire
memory carries it out. A reader that has counted itself may still be shown the
`writer_active` from before the exchange of a writer, while that writer is still
shown the `reader_count` from before: no order relates the two variables. Where
both are shown a value that the newest one bears out, the guard excludes as it does
under sequential consistency.
-/

namespace MiniSql.Server

open ReleaseAcquire

inductive GuardVar
  | readerCount
  | writerActive
  | writersWaiting
  deriving DecidableEq, Repr

/-- What the program does not determine: the choices of `Choice`, and which message
a load returns. -/
structure WeakChoice extends Choice where
  index : Nat
  deriving DecidableEq, Repr

structure WeakThread where
  pc : Pc
  view : View GuardVar

namespace WeakThread

variable (thread : WeakThread) (memory : Memory GuardVar)

def load (x : GuardVar) (index : Nat) (next : Int → Pc) : Memory GuardVar × WeakThread :=
  let (value, view) := memory.load thread.view x index
  (memory, ⟨next value, view⟩)

def modify (x : GuardVar) (order : Order) (f : Int → Int) (next : Pc) :
    Memory GuardVar × WeakThread :=
  let (memory, view) := memory.modify thread.view x order f
  (memory, ⟨next, view⟩)

def store (x : GuardVar) (value : Int) (next : Pc) : Memory GuardVar × WeakThread :=
  let (memory, view) := memory.store thread.view x value
  (memory, ⟨next, view⟩)

end WeakThread

/-- The next step of a thread. -/
def weakGuardStep (choice : WeakChoice) (memory : Memory GuardVar) (thread : WeakThread) :
    Memory GuardVar × WeakThread :=
  match thread.pc with
  | .outside =>
    (memory, { thread with pc := if choice.write then .writeAddWaiting else .readLoadActive })
  -- db_guard_lock_read
  | .readLoadActive =>
    thread.load memory .writerActive choice.index fun value =>
      if value ≠ 0 then .readLoadActive else .readLoadWaiting
  | .readLoadWaiting =>
    thread.load memory .writersWaiting choice.index fun value =>
      if value ≠ 0 then .readLoadActive else .readAddReader
  | .readAddReader => thread.modify memory .readerCount .acquire (· + 1) .readReloadActive
  | .readReloadActive =>
    thread.load memory .writerActive choice.index fun value =>
      if value = 0 then .readReloadWaiting else .readSubReader
  | .readReloadWaiting =>
    thread.load memory .writersWaiting choice.index fun value =>
      if value = 0 then .reading else .readSubReader
  | .readSubReader => thread.modify memory .readerCount .release (· - 1) .readLoadActive
  -- db_guard_unlock_read
  | .reading => thread.modify memory .readerCount .release (· - 1) .outside
  -- db_guard_lock_write
  | .writeAddWaiting => thread.modify memory .writersWaiting .acqRel (· + 1) .writeExchangeActive
  | .writeExchangeActive =>
    if memory.latest .writerActive = 0 ∧ choice.spurious = false then
      thread.modify memory .writerActive .acqRel (fun _ => 1) .writeLoadReaders
    else thread.load memory .writerActive choice.index fun _ => .writeExchangeActive
  | .writeLoadReaders =>
    thread.load memory .readerCount choice.index fun value =>
      if value = 0 then .writeSubWaiting else .writeStoreActive
  | .writeSubWaiting => thread.modify memory .writersWaiting .acqRel (· - 1) .writing
  | .writeStoreActive => thread.store memory .writerActive 0 .writeExchangeActive
  -- db_guard_unlock_write
  | .writing => thread.store memory .writerActive 0 .outside

section

variable {ι : Type}

structure WeakState (ι : Type) where
  memory : Memory GuardVar
  threads : ι → WeakThread

def WeakState.initial : WeakState ι :=
  ⟨.initial fun _ => 0, fun _ => ⟨.outside, fun _ => 0⟩⟩

variable [DecidableEq ι]

def WeakState.step (s : WeakState ι) (i : ι) (choice : WeakChoice) : WeakState ι :=
  ⟨(weakGuardStep choice s.memory (s.threads i)).1,
    Function.update s.threads i (weakGuardStep choice s.memory (s.threads i)).2⟩

def WeakState.run (s : WeakState ι) (schedule : List (ι × WeakChoice)) : WeakState ι :=
  schedule.foldl (fun s turn => s.step turn.1 turn.2) s

/-- **The orders of the source do not exclude.** The writer exchanges
`writer_active` and the reader increments `reader_count`; then each loads the
variable of the other as it was before, and both are inside. -/
theorem weak_guard_store_buffering :
    ∃ (schedule : List (Fin 2 × WeakChoice)),
      ((WeakState.initial.run schedule).threads 0).pc = .reading ∧
      ((WeakState.initial.run schedule).threads 1).pc = .writing := by
  let read : Fin 2 × WeakChoice := (0, ⟨⟨false, false⟩, 0⟩)
  let write : Fin 2 × WeakChoice := (1, ⟨⟨true, false⟩, 0⟩)
  exact ⟨[read, read, read, write, write, write, read, write, write, read, read],
    by decide, by decide⟩

end

/-! ## Where the newest values decide -/

/-- The newest values, as a guard of the sequentially consistent model. -/
def newestGuard (memory : Memory GuardVar) : DbGuard :=
  ⟨memory.latest .readerCount, memory.latest .writerActive, memory.latest .writersWaiting⟩

/-- A load that returns 0 does so only if the newest value is 0. -/
def BornOut (memory : Memory GuardVar) (view : View GuardVar) (x : GuardVar) (index : Nat) : Prop :=
  (memory.load view x index).1 = 0 → memory.latest x = 0

/-- The two loads that decide who gets in are borne out: the second load of
`writer_active` in `db_guard_lock_read` and the load of `reader_count` in
`db_guard_lock_write`. -/
def FreshStep (choice : WeakChoice) (memory : Memory GuardVar) (thread : WeakThread) : Prop :=
  (thread.pc = .readReloadActive → BornOut memory thread.view .writerActive choice.index) ∧
  (thread.pc = .writeLoadReaders → BornOut memory thread.view .readerCount choice.index)

instance (memory : Memory GuardVar) (view : View GuardVar) (x : GuardVar) (index : Nat) :
    Decidable (BornOut memory view x index) := inferInstanceAs (Decidable (_ → _))

instance (choice : WeakChoice) (memory : Memory GuardVar) (thread : WeakThread) :
    Decidable (FreshStep choice memory thread) := inferInstanceAs (Decidable (_ ∧ _))

/-- In front of a load, or of an exchange that may fail. -/
def Pc.loads : Pc → Bool
  | .readLoadActive | .readLoadWaiting | .readReloadActive | .readReloadWaiting
  | .writeExchangeActive | .writeLoadReaders => true
  | _ => false

section

variable {memory : Memory GuardVar}

/-- A thread that changes nothing and gets nowhere. -/
theorem Moves.stay {guard : DbGuard} {pc pc' : Pc} (hcounted : pc'.counted = pc.counted)
    (hacquiring : pc'.acquiring = pc.acquiring) (hactive : pc'.active = pc.active)
    (hadmitted : pc'.admitted = true → pc.admitted = true ∨ guard.readerCount = 0)
    (hentered : pc'.entered = true → pc.entered = true ∨ guard.writerActive = 0) :
    Moves guard pc guard pc' where
  readers := by rw [hcounted]
  waiting := by rw [hacquiring]
  writer := by rw [hactive]
  active := fun h => .inl (hactive ▸ h)
  admitted := hadmitted
  entered := hentered

variable (choice : WeakChoice) (view : View GuardVar)

/-- Where no load decides, release/acquire memory makes the step of the
sequentially consistent model on the newest values. -/
theorem weakGuardStep_newest {pc : Pc} (hpc : pc.loads = false) :
    newestGuard (weakGuardStep choice memory ⟨pc, view⟩).1 =
      (dbGuardStep choice.toChoice (newestGuard memory) pc).1 ∧
    (weakGuardStep choice memory ⟨pc, view⟩).2.pc =
      (dbGuardStep choice.toChoice (newestGuard memory) pc).2 := by
  cases pc <;> first
    | exact absurd hpc (by decide)
    | simp [weakGuardStep, dbGuardStep, WeakThread.modify, WeakThread.store, newestGuard,
        Memory.latest_modify, Memory.latest_store]

theorem weakGuardStep_exchange :
    Moves (newestGuard memory) .writeExchangeActive
      (newestGuard (weakGuardStep choice memory ⟨.writeExchangeActive, view⟩).1)
      (weakGuardStep choice memory ⟨.writeExchangeActive, view⟩).2.pc := by
  by_cases hwins : memory.latest .writerActive = 0 ∧ choice.spurious = false
  · have hstep := dbGuardStep_moves choice.toChoice (newestGuard memory) .writeExchangeActive nofun
    simpa [weakGuardStep, hwins, dbGuardStep, WeakThread.modify, newestGuard,
      Memory.latest_modify] using hstep
  · simp only [weakGuardStep, if_neg hwins]
    exact .stay rfl rfl rfl .inl .inl

/-- Every step whose deciding load is borne out is one that the invariant of the
sequentially consistent model allows. -/
theorem weakGuardStep_moves {thread : WeakThread}
    (hone : thread.pc.active = true → (newestGuard memory).writerActive = 1)
    (hfresh : FreshStep choice memory thread) :
    Moves (newestGuard memory) thread.pc (newestGuard (weakGuardStep choice memory thread).1)
      (weakGuardStep choice memory thread).2.pc := by
  obtain ⟨pc, view⟩ := thread
  have hsame (hpc : pc.loads = false) : Moves (newestGuard memory) pc
      (newestGuard (weakGuardStep choice memory ⟨pc, view⟩).1)
      (weakGuardStep choice memory ⟨pc, view⟩).2.pc := by
    rw [(weakGuardStep_newest choice view hpc).1, (weakGuardStep_newest choice view hpc).2]
    exact dbGuardStep_moves choice.toChoice (newestGuard memory) pc hone
  cases pc with
  | readLoadActive =>
    simp only [weakGuardStep, WeakThread.load]
    split <;> exact .stay rfl rfl rfl nofun nofun
  | readLoadWaiting =>
    simp only [weakGuardStep, WeakThread.load]
    split <;> exact .stay rfl rfl rfl nofun nofun
  | readReloadActive =>
    simp only [weakGuardStep, WeakThread.load]
    split
    · rename_i hzero
      exact .stay rfl rfl rfl nofun fun _ => .inr (hfresh.1 rfl hzero)
    · exact .stay rfl rfl rfl nofun nofun
  | readReloadWaiting =>
    simp only [weakGuardStep, WeakThread.load]
    split
    · exact .stay rfl rfl rfl nofun fun _ => .inl rfl
    · exact .stay rfl rfl rfl nofun nofun
  | writeExchangeActive => exact weakGuardStep_exchange choice view
  | writeLoadReaders =>
    simp only [weakGuardStep, WeakThread.load]
    split
    · rename_i hzero
      exact .stay rfl rfl rfl (fun _ => .inr (hfresh.2 rfl hzero)) nofun
    · exact .stay rfl rfl rfl nofun nofun
  | _ => exact hsame rfl

end

/-! ## Runs -/

section

variable {ι : Type}

/-- The newest values and where each thread is. -/
def WeakState.newest (s : WeakState ι) : GuardState ι :=
  ⟨newestGuard s.memory, fun i => (s.threads i).pc⟩

variable [DecidableEq ι]

def WeakState.Fresh (s : WeakState ι) : List (ι × WeakChoice) → Prop
  | [] => True
  | turn :: schedule =>
    FreshStep turn.2 s.memory (s.threads turn.1) ∧ (s.step turn.1 turn.2).Fresh schedule

instance WeakState.decidableFresh :
    (s : WeakState ι) → (schedule : List (ι × WeakChoice)) → Decidable (s.Fresh schedule)
  | _, [] => .isTrue trivial
  | s, turn :: schedule =>
    have := decidableFresh (s.step turn.1 turn.2) schedule
    inferInstanceAs (Decidable (_ ∧ _))

variable [Fintype ι]

theorem WeakState.step_invariant {s : WeakState ι} (h : s.newest.Invariant) {i : ι}
    {choice : WeakChoice} (hfresh : FreshStep choice s.memory (s.threads i)) :
    (s.step i choice).newest.Invariant := by
  have hmoves := weakGuardStep_moves choice h.writerActive_of_active hfresh
  have hnext := h.moves (i := i) hmoves
  have heq : (s.step i choice).newest = ⟨newestGuard (weakGuardStep choice s.memory (s.threads i)).1,
      Function.update s.newest.pc i (weakGuardStep choice s.memory (s.threads i)).2.pc⟩ := by
    simp only [WeakState.newest, WeakState.step, GuardState.mk.injEq, true_and]
    funext j
    by_cases hj : j = i
    · subst hj
      simp
    · simp [hj]
  rw [heq]
  exact hnext

theorem WeakState.run_invariant {s : WeakState ι} (h : s.newest.Invariant)
    {schedule : List (ι × WeakChoice)} (hfresh : s.Fresh schedule) :
    (s.run schedule).newest.Invariant := by
  induction schedule generalizing s with
  | nil => exact h
  | cons turn schedule ih => exact ih (step_invariant h hfresh.1) hfresh.2

/-- **The guard excludes where the newest values decide.** In every state that is
reached by steps whose deciding loads are borne out, a writer inside its section is
alone. -/
theorem weak_guard_excludes (schedule : List (ι × WeakChoice))
    (hfresh : (WeakState.initial : WeakState ι).Fresh schedule) (i j : ι)
    (hwriting : ((WeakState.initial.run schedule).threads i).pc = .writing) (hne : i ≠ j) :
    ((WeakState.initial.run schedule).threads j).pc ≠ .writing ∧
    ((WeakState.initial.run schedule).threads j).pc ≠ .reading := by
  have hinitial : (WeakState.initial : WeakState ι).newest.Invariant := GuardState.invariant_initial
  exact (WeakState.run_invariant hinitial hfresh).exclusion hwriting hne

/-- A reader has left and a writer comes in. -/
theorem weak_guard_excludes_run :
    ∃ schedule : List (Fin 2 × WeakChoice),
      (WeakState.initial : WeakState (Fin 2)).Fresh schedule ∧
      ((WeakState.initial.run schedule).threads 1).pc = .writing ∧
      ((WeakState.initial.run schedule).threads 0).pc ≠ .reading := by
  let read : Fin 2 × WeakChoice := (0, ⟨⟨false, false⟩, 0⟩)
  let write : Fin 2 × WeakChoice := (1, ⟨⟨true, false⟩, 2⟩)
  let schedule := List.replicate 7 read ++ List.replicate 5 write
  have hfresh : (WeakState.initial : WeakState (Fin 2)).Fresh schedule := by decide
  have hwriting : ((WeakState.initial.run schedule).threads 1).pc = .writing := by decide
  exact ⟨schedule, hfresh, hwriting,
    (weak_guard_excludes schedule hfresh 1 0 hwriting (by decide)).2⟩

end

end MiniSql.Server
