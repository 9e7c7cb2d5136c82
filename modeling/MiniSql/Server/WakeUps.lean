import MiniSql.Lib.Threads
import MiniSql.Server.QueueThreads

/-!
# No wake-up is lost

A push signals one consumer and a pop one producer, and a newcomer may take what
the woken thread was woken for. Still there are always as many threads awake
behind a condition variable as can proceed, as long as somebody is asleep on it.
-/

namespace MiniSql.Server

variable {ι δ : Type}

def QueuePc.wokenFrom (cond : Cond) : QueuePc δ → Bool
  | .woken call => call.cond = cond
  | _ => false

/-- How many calls that wait for a condition could proceed. -/
def JobQueue.ready (queue : JobQueue δ) : Cond → Nat
  | .notEmpty => queue.count
  | .notFull => queue.capacity - queue.count

/-- Whoever is asleep can rely on those that are woken already, and nobody is
asleep at a closed queue. -/
structure QueueState.Awake [Fintype ι] (s : QueueState ι δ) : Prop where
  woken : ∀ cond, (∃ i, (s.pc i).asleepOn cond = true) →
    s.queue.ready cond ≤ Threads.count (QueuePc.wokenFrom cond) s.pc
  closed : s.queue.closed = true → ∀ i call, s.pc i ≠ .asleep call

section

variable [DecidableEq ι] {cond : Cond} {pc : ι → QueuePc δ} {i : ι}

/-- A thread that does not fall asleep adds no sleeper. -/
theorem asleepOn_of_update {next : QueuePc δ} (hnext : next.asleepOn cond = false) {j : ι}
    (h : (Function.update pc i next j).asleepOn cond = true) : (pc j).asleepOn cond = true := by
  by_cases hj : j = i
  · subst hj
    rw [Function.update_self, hnext] at h
    cases h
  · rwa [Function.update_of_ne hj] at h

theorem QueuePc.asleepOn_wake (pc : QueuePc δ) : pc.wake.asleepOn cond = false := by
  cases pc <;> rfl

theorem QueuePc.wokenFrom_wake {pc : QueuePc δ} (h : pc.asleepOn cond = true) (other : Cond) :
    pc.wake.wokenFrom other = decide (cond = other) := by
  cases pc with
  | asleep call =>
    have hcond : call.cond = cond := by simpa [QueuePc.asleepOn] using h
    simp [QueuePc.wake, QueuePc.wokenFrom, hcond]
  | _ => cases h

theorem QueuePc.wokenFrom_of_asleepOn {pc : QueuePc δ} (h : pc.asleepOn cond = true) (other : Cond) :
    pc.wokenFrom other = false := by
  cases pc with
  | asleep call => rfl
  | _ => cases h

theorem QueuePc.wokenFrom_ready {pc : QueuePc δ} {call : Call δ} (h : pc.ready = some call)
    (hcond : call.cond ≠ cond) : pc.wokenFrom cond = false := by
  cases pc with
  | woken other =>
    cases h
    simpa [QueuePc.wokenFrom] using hcond
  | _ => rfl

theorem QueuePc.asleep_of_asleepOn {pc : QueuePc δ} (h : pc.asleepOn cond = true) :
    ∃ call, pc = .asleep call := by
  cases pc with
  | asleep call => exact ⟨call, rfl⟩
  | _ => cases h

/-- A call waits only at an open queue, when nobody like it could proceed. -/
theorem Call.section_waits {call : Call δ} {queue : JobQueue δ} (h : call.section queue = .waits) :
    queue.closed = false ∧ queue.ready call.cond = 0 := by
  cases call with
  | push job =>
    rcases hsection : pushSection queue job with _ | ⟨queue₁, e | u⟩
    · obtain ⟨hopen, hfull⟩ := pushSection_waits hsection
      exact ⟨hopen, Nat.sub_eq_zero_of_le (Nat.le_of_eq hfull.symm)⟩
    · simp only [Call.section, hsection, reduceCtorEq] at h
    · simp only [Call.section, hsection, reduceCtorEq] at h
  | pop =>
    rcases hsection : popSection queue with _ | ⟨queue₁, _ | job⟩
    · exact popSection_waits hsection
    · simp only [Call.section, hsection, reduceCtorEq] at h
    · simp only [Call.section, hsection, reduceCtorEq] at h

variable [Fintype ι]

/-- A signal adds no sleeper and takes nobody's wake-up back; if there is still
somebody asleep behind it, one more thread is awake. -/
theorem CondSignal.spec {pc' : ι → QueuePc δ} (h : CondSignal cond pc pc') :
    (∀ other j, (pc' j).asleepOn other = true → (pc j).asleepOn other = true) ∧
    (∀ other, Threads.count (QueuePc.wokenFrom other) pc ≤
      Threads.count (QueuePc.wokenFrom other) pc') ∧
    ((∃ j, (pc' j).asleepOn cond = true) →
      Threads.count (QueuePc.wokenFrom cond) pc' = Threads.count (QueuePc.wokenFrom cond) pc + 1) := by
  rcases h with ⟨hnone, rfl⟩ | ⟨i, hi, rfl⟩
  · refine ⟨fun _ _ h => h, fun _ => Nat.le_refl _, ?_⟩
    rintro ⟨j, hj⟩
    rw [hnone j] at hj
    cases hj
  · have hcount (other : Cond) :=
      Threads.count_update (QueuePc.wokenFrom other) pc i (pc i).wake
    refine ⟨fun other j hj => asleepOn_of_update (QueuePc.asleepOn_wake _) hj, fun other => ?_,
      fun _ => ?_⟩
    · have hcount := hcount other
      rw [QueuePc.wokenFrom_of_asleepOn hi, Bool.toNat_false] at hcount
      omega
    · have hcount := hcount cond
      rw [QueuePc.wokenFrom_of_asleepOn hi, QueuePc.wokenFrom_wake hi] at hcount
      simpa using hcount

end

namespace QueueState.Awake

variable [Fintype ι] [DecidableEq ι] {s : QueueState ι δ} {i : ι}

/-- A call that gets through makes one step possible behind the other condition,
and signals it. -/
theorem proceed (h : s.Awake) {call : Call δ} (hready : (s.pc i).ready = some call)
    {queue : JobQueue δ} {other : Cond} (hother : call.cond ≠ other)
    (hmore : queue.ready other ≤ s.queue.ready other + 1)
    (hless : queue.ready call.cond ≤ s.queue.ready call.cond - 1)
    (hclosed : queue.closed = s.queue.closed) {pc : ι → QueuePc δ}
    (hsignal : CondSignal other (Function.update s.pc i .idle) pc) (log : List (QueueEvent δ)) :
    (⟨queue, pc, log⟩ : QueueState ι δ).Awake := by
  obtain ⟨hsleepers, hwoken, hone⟩ := hsignal.spec
  have hbefore {cond : Cond} {j : ι} (hj : (pc j).asleepOn cond = true) :
      (s.pc j).asleepOn cond = true :=
    asleepOn_of_update rfl (hsleepers cond j hj)
  have hcount (cond : Cond) := Threads.count_update (QueuePc.wokenFrom cond) s.pc i .idle
  constructor
  · rintro cond ⟨j, hj⟩
    have hold := h.woken cond ⟨j, hbefore hj⟩
    have hcount := hcount cond
    have hnew : (QueuePc.idle : QueuePc δ).wokenFrom cond = false := rfl
    rw [hnew, Bool.toNat_false, Nat.add_zero] at hcount
    change queue.ready cond ≤ Threads.count _ pc
    by_cases hcond : cond = other
    · subst hcond
      have hnow := hone ⟨j, hj⟩
      rw [QueuePc.wokenFrom_ready hready hother, Bool.toNat_false] at hcount
      omega
    · -- The thread itself may have been one of those that were woken.
      have hown : cond = call.cond := by
        revert hcond hother
        cases cond <;> cases other <;> cases call <;> simp [Call.cond]
      have hmono := hwoken cond
      have htaken := Bool.toNat_le ((s.pc i).wokenFrom cond)
      rw [← hown] at hless
      omega
  · intro hnow j call' hasleep
    have hj : (pc j).asleepOn call'.cond = true := by
      rw [show pc j = .asleep call' from hasleep]
      simp [QueuePc.asleepOn]
    obtain ⟨call'', hasleep''⟩ := QueuePc.asleep_of_asleepOn (hbefore hj)
    exact h.closed (hclosed.symm.trans hnow) j call'' hasleep''

/-- A thread that does not fall asleep, and was not woken or has nobody behind it,
changes nothing. -/
theorem move (h : s.Awake) {next : QueuePc δ} (hasleep : ∀ cond, next.asleepOn cond = false)
    (hwoken : ∀ cond, (s.pc i).wokenFrom cond = true → next.wokenFrom cond = true)
    (log : List (QueueEvent δ)) :
    (⟨s.queue, Function.update s.pc i next, log⟩ : QueueState ι δ).Awake := by
  constructor
  · rintro cond ⟨j, hj⟩
    have hold := h.woken cond ⟨j, asleepOn_of_update (hasleep cond) hj⟩
    have hcount := Threads.count_update (QueuePc.wokenFrom cond) s.pc i next
    have hkept : ((s.pc i).wokenFrom cond).toNat ≤ (next.wokenFrom cond).toNat := by
      cases hpc : (s.pc i).wokenFrom cond with
      | false => exact Nat.zero_le _
      | true => rw [hwoken cond hpc]
    change s.queue.ready cond ≤ Threads.count _ (Function.update s.pc i next)
    omega
  · intro hclosed j call hj
    have hj' : (Function.update s.pc i next j).asleepOn call.cond = true := by
      rw [show Function.update s.pc i next j = .asleep call from hj]
      simp [QueuePc.asleepOn]
    obtain ⟨call', hcall⟩ := QueuePc.asleep_of_asleepOn (asleepOn_of_update (hasleep _) hj')
    exact h.closed hclosed j call' hcall

/-- At a closed queue all that matters is that nobody goes to sleep. -/
theorem of_closed (h : s.Awake) (hclosed : s.queue.closed = true) {queue : JobQueue δ}
    (log : List (QueueEvent δ)) :
    (⟨queue, Function.update s.pc i .idle, log⟩ : QueueState ι δ).Awake := by
  have hnobody (j : ι) (call : Call δ) : Function.update s.pc i .idle j ≠ .asleep call := by
    by_cases hj : j = i
    · subst hj
      rw [Function.update_self]
      simp
    · rw [Function.update_of_ne hj]
      exact h.closed hclosed j call
  constructor
  · rintro cond ⟨j, hj⟩
    obtain ⟨call, hcall⟩ := QueuePc.asleep_of_asleepOn hj
    exact absurd hcall (hnobody j call)
  · intro _
    exact hnobody

omit [DecidableEq ι] in
theorem initial (queue : JobQueue δ) : (QueueState.initial queue : QueueState ι δ).Awake := by
  constructor
  · rintro cond ⟨j, hj⟩
    cases hj
  · intro _ j call hj
    cases hj

/-- Whoever goes to sleep does so when nobody like it could proceed. -/
theorem wait (h : s.Awake) {call : Call δ} (hready : (s.pc i).ready = some call)
    (hwaits : call.section s.queue = .waits) :
    (⟨s.queue, Function.update s.pc i (.asleep call), s.log⟩ : QueueState ι δ).Awake := by
  obtain ⟨hopen, hnone⟩ := Call.section_waits hwaits
  constructor
  · rintro cond ⟨j, hj⟩
    change s.queue.ready cond ≤ Threads.count _ (Function.update s.pc i (.asleep call))
    by_cases hcond : call.cond = cond
    · rw [← hcond, hnone]
      exact Nat.zero_le _
    · have hnext : (QueuePc.asleep call).asleepOn cond = false := by
        simpa [QueuePc.asleepOn] using hcond
      have hold := h.woken cond ⟨j, asleepOn_of_update hnext hj⟩
      have hcount := Threads.count_update (QueuePc.wokenFrom cond) s.pc i (.asleep call)
      rw [QueuePc.wokenFrom_ready hready hcond] at hcount
      exact hold.trans (Nat.le_of_eq hcount.symm)
  · intro hclosed
    rw [show s.queue.closed = true from hclosed] at hopen
    cases hopen

theorem finish (h : s.Awake) (hvalid : s.queue.Valid) {call : Call δ}
    (hready : (s.pc i).ready = some call) {queue : JobQueue δ} {event : QueueEvent δ}
    (hreturns : call.section s.queue = .returns queue event) {pc : ι → QueuePc δ}
    (hsignals : event.Signals (Function.update s.pc i .idle) pc) :
    (⟨queue, pc, s.log ++ [event]⟩ : QueueState ι δ).Awake := by
  rcases Call.section_returns hvalid hreturns with ⟨job, -, rfl, hclosed, -⟩ |
    ⟨job, rfl, rfl, hopen, hopen', -, hcapacity, hcount, -⟩ | ⟨-, rfl, hclosed, -, -⟩ |
    ⟨job, rfl, rfl, hclosed, -, hcapacity, hcount, -⟩
  · have hpc : pc = _ := hsignals
    rw [hpc]
    exact h.of_closed hclosed _
  · refine h.proceed hready (by simp [Call.cond]) ?_ ?_ (hopen'.trans hopen.symm) hsignals _
    · exact Nat.le_of_eq hcount
    · change queue.capacity - queue.count ≤ s.queue.capacity - s.queue.count - 1
      omega
  · have hpc : pc = _ := hsignals
    rw [hpc]
    exact h.of_closed hclosed _
  · refine h.proceed hready (by simp [Call.cond]) ?_ ?_ hclosed hsignals _
    · change queue.capacity - queue.count ≤ s.queue.capacity - s.queue.count + 1
      omega
    · change queue.count ≤ s.queue.count - 1
      omega

theorem step (h : s.Awake) (hvalid : s.queue.Valid) {s' : QueueState ι δ}
    (hstep : QueueStep s s') : s'.Awake := by
  cases hstep with
  | callPush hidle _ _ =>
    refine h.move (fun _ => rfl) (fun cond hwoken => ?_) _
    rw [hidle] at hwoken
    cases hwoken
  | callPop hidle =>
    refine h.move (fun _ => rfl) (fun cond hwoken => ?_) _
    rw [hidle] at hwoken
    cases hwoken
  | reject _ _ _ => exact ⟨h.woken, h.closed⟩
  | wait hready hwaits => exact h.wait hready hwaits
  | finish hready hreturns hsignals => exact h.finish hvalid hready hreturns hsignals
  | close _ =>
    have hnobody (j : ι) (cond : Cond) : ((s.pc j).wake).asleepOn cond = false :=
      QueuePc.asleepOn_wake _
    constructor
    · rintro cond ⟨j, hj⟩
      exact absurd hj (by simp [hnobody])
    · intro _ j call hj
      have hfalse := hnobody j call.cond
      rw [show (s.pc j).wake = .asleep call from hj] at hfalse
      simp [QueuePc.asleepOn] at hfalse
  | spurious hasleep =>
    refine h.move (fun _ => rfl) (fun cond hwoken => ?_) _
    rw [hasleep] at hwoken
    cases hwoken

theorem run (h : s.Awake) (hinvariant : s.Invariant) {s' : QueueState ι δ}
    (hrun : Relation.ReflTransGen QueueStep s s') : s'.Awake := by
  induction hrun with
  | refl => exact h
  | tail hbefore hstep ih => exact ih.step (hinvariant.run hbefore).valid hstep

end QueueState.Awake

/-- **No wake-up is lost.** In every state of a run, if a consumer is asleep then
as many consumers as there are jobs are woken and have not resumed; if a producer
is asleep then as many producers as there are free slots; and nobody is asleep at
a closed queue. So whenever there is a job, or room, or the queue is closed, and
somebody sleeps who could proceed, another one like it is awake. -/
theorem job_queue_no_lost_wake_up [Fintype ι] [DecidableEq ι] {capacity : Int} {queue : JobQueue δ}
    (hcreate : jobQueueCreate capacity = .ok queue) {s : QueueState ι δ}
    (hrun : Relation.ReflTransGen QueueStep (.initial queue) s) :
    ((∃ i, s.pc i = .asleep .pop) →
      s.queue.count ≤ Threads.count (QueuePc.wokenFrom .notEmpty) s.pc) ∧
    ((∃ i job, s.pc i = .asleep (.push job)) →
      s.queue.capacity - s.queue.count ≤
        Threads.count (QueuePc.wokenFrom .notFull) s.pc) ∧
    (s.queue.closed = true → ∀ i call, s.pc i ≠ .asleep call) ∧
    (∀ i call, s.pc i = .asleep call → 0 < s.queue.ready call.cond →
      ∃ j call', call'.cond = call.cond ∧ s.pc j = .woken call') := by
  have h : s.Awake := (QueueState.Awake.initial queue).run (.initial hcreate) hrun
  have hasleepOn {i : ι} {call : Call δ} (hi : s.pc i = .asleep call) :
      (s.pc i).asleepOn call.cond = true := by
    rw [hi]
    simp [QueuePc.asleepOn]
  refine ⟨?_, ?_, h.closed, ?_⟩
  · rintro ⟨i, hi⟩
    exact h.woken .notEmpty ⟨i, hasleepOn hi⟩
  · rintro ⟨i, job, hi⟩
    exact h.woken .notFull ⟨i, hasleepOn hi⟩
  · intro i call hi hready
    have hcount := h.woken call.cond ⟨i, hasleepOn hi⟩
    obtain ⟨j, hj⟩ := Threads.exists_of_count_pos (Nat.lt_of_lt_of_le hready hcount)
    cases hpc : s.pc j with
    | woken call' =>
      rw [hpc] at hj
      exact ⟨j, call', by simpa [QueuePc.wokenFrom] using hj, hpc⟩
    | _ =>
      rw [hpc] at hj
      cases hj

/-- Two consumers sleep, a producer pushes a job and signals one of them: the other sleeps
beside a job, and as many consumers as there are jobs are awake. -/
theorem job_queue_no_lost_wake_up_sleeper :
    ∃ s : QueueState (Fin 3) Nat, s.queue.count = 1 ∧ s.pc 1 = .asleep .pop ∧
      1 ≤ Threads.count (QueuePc.wokenFrom .notEmpty) s.pc ∧
      ∃ j call, call.cond = .notEmpty ∧ s.pc j = .woken call := by
  have hcreate : jobQueueCreate 1 = .ok (⟨1, 0, 0, 0, false, [none]⟩ : JobQueue Nat) := rfl
  have hsignal (pc : Fin 3 → QueuePc Nat) (h : (pc 0).asleepOn .notEmpty = true) :
      QueueEvent.Signals pc (Function.update pc 0 (pc 0).wake) (.pushed ⟨true, true, 7⟩) :=
    .inr ⟨0, h, rfl⟩
  have h0 : Relation.ReflTransGen QueueStep (QueueState.initial ⟨1, 0, 0, 0, false, [none]⟩)
      (QueueState.initial ⟨1, 0, 0, 0, false, [none]⟩ : QueueState (Fin 3) Nat) := .refl
  have h1 := h0.tail (.callPop (i := 0) rfl)
  have h2 := h1.tail (.wait (i := 0) rfl rfl)
  have h3 := h2.tail (.callPop (i := 1) rfl)
  have h4 := h3.tail (.wait (i := 1) rfl rfl)
  have h5 := h4.tail (.callPush (i := 2) rfl ⟨true, true, 7⟩ rfl)
  have h6 := h5.tail (.finish (i := 2) rfl rfl (hsignal _ rfl))
  obtain ⟨hpop, -, -, hwoken⟩ := job_queue_no_lost_wake_up hcreate h6
  exact ⟨_, rfl, rfl, hpop ⟨1, rfl⟩, hwoken 1 .pop rfl (by decide)⟩

end MiniSql.Server
