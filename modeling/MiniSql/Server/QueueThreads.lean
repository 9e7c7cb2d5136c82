import MiniSql.Server.JobQueue

/-!
# Threads at the job queue

Any number of threads call `job_queue_push`, `job_queue_pop` and
`job_queue_close`, each any number of times and with any jobs. The log records
what the calls did, in the order of their last critical sections.
-/

namespace MiniSql.Server

variable {ι δ : Type}

/-! ## Steps -/

/-- A call that may have to wait. -/
inductive Call (δ : Type)
  | push (job : Job δ)
  | pop
  deriving DecidableEq, Repr

/-- Where a thread is: outside the queue, in front of the mutex, asleep on the
condition variable of its call, or woken and about to lock the mutex again. -/
inductive QueuePc (δ : Type)
  | idle
  | arrived (call : Call δ)
  | asleep (call : Call δ)
  | woken (call : Call δ)
  deriving DecidableEq, Repr

inductive QueueEvent (δ : Type)
  | pushed (job : Job δ)
  | refused (job : Job δ) (error : SqlError)
  | popped (job : Option (Job δ))
  /-- `job_queue_pop` returned 0 -/
  | drained
  | closed
  deriving DecidableEq, Repr

structure QueueState (ι δ : Type) where
  queue : JobQueue δ
  pc : ι → QueuePc δ
  log : List (QueueEvent δ)

def QueueState.initial (queue : JobQueue δ) : QueueState ι δ := ⟨queue, fun _ => .idle, []⟩

/-- The call whose critical section a thread can run next. -/
def QueuePc.ready : QueuePc δ → Option (Call δ)
  | .arrived call | .woken call => some call
  | .idle | .asleep _ => none

def QueuePc.wake : QueuePc δ → QueuePc δ
  | .asleep call => .woken call
  | pc => pc

/-- The critical section of a call, with the event that it logs. -/
def Call.section (queue : JobQueue δ) : Call δ → SectionEnd δ (QueueEvent δ)
  | .push job =>
    match pushSection queue job with
    | .waits => .waits
    | .returns queue (.ok _) => .returns queue (.pushed job)
    | .returns queue (.error e) => .returns queue (.refused job e)
  | .pop =>
    match popSection queue with
    | .waits => .waits
    | .returns queue none => .returns queue .drained
    | .returns queue (some job) => .returns queue (.popped job)

/-- The condition variables. -/
inductive Cond
  | notEmpty
  | notFull
  deriving DecidableEq, Repr

/-- The condition that a call waits for. -/
def Call.cond : Call δ → Cond
  | .push _ => .notFull
  | .pop => .notEmpty

def QueuePc.asleepOn (cond : Cond) : QueuePc δ → Bool
  | .asleep call => call.cond = cond
  | _ => false

/-- `pthread_cond_signal`. -/
def CondSignal [DecidableEq ι] (cond : Cond) (pc pc' : ι → QueuePc δ) : Prop :=
  ((∀ i, (pc i).asleepOn cond = false) ∧ pc' = pc) ∨
    ∃ i, (pc i).asleepOn cond = true ∧ pc' = Function.update pc i (pc i).wake

/-- What a critical section signals before it unlocks. -/
def QueueEvent.Signals [DecidableEq ι] (pc pc' : ι → QueuePc δ) : QueueEvent δ → Prop
  | .pushed _ => CondSignal .notEmpty pc pc'
  | .popped _ => CondSignal .notFull pc pc'
  | .refused _ _ | .drained | .closed => pc' = pc

inductive QueueStep [DecidableEq ι] : QueueState ι δ → QueueState ι δ → Prop
  | callPush {s : QueueState ι δ} {i : ι} (idle : s.pc i = .idle) (job : Job δ)
      (execute : job.execute = true) :
      QueueStep s { s with pc := Function.update s.pc i (.arrived (.push job)) }
  | callPop {s : QueueState ι δ} {i : ι} (idle : s.pc i = .idle) :
      QueueStep s { s with pc := Function.update s.pc i (.arrived .pop) }
  /-- a job without `execute` is refused before the lock -/
  | reject {s : QueueState ι δ} {i : ι} (idle : s.pc i = .idle) (job : Job δ)
      (execute : job.execute = false) :
      QueueStep s { s with log := s.log ++ [.refused job nullExecute] }
  | wait {s : QueueState ι δ} {i : ι} {call : Call δ} (ready : (s.pc i).ready = some call)
      (waits : call.section s.queue = .waits) :
      QueueStep s { s with pc := Function.update s.pc i (.asleep call) }
  | finish {s : QueueState ι δ} {i : ι} {call : Call δ} (ready : (s.pc i).ready = some call)
      {queue : JobQueue δ} {event : QueueEvent δ}
      (returns : call.section s.queue = .returns queue event) {pc : ι → QueuePc δ}
      (signals : event.Signals (Function.update s.pc i .idle) pc) :
      QueueStep s ⟨queue, pc, s.log ++ [event]⟩
  | close {s : QueueState ι δ} {i : ι} (idle : s.pc i = .idle) :
      QueueStep s ⟨closeSection s.queue, fun j => (s.pc j).wake, s.log ++ [.closed]⟩
  | spurious {s : QueueState ι δ} {i : ι} {call : Call δ} (asleep : s.pc i = .asleep call) :
      QueueStep s { s with pc := Function.update s.pc i (.woken call) }

/-! ## The log and the queue -/

def QueueEvent.pushed? : QueueEvent δ → Option (Job δ)
  | .pushed job => some job
  | _ => none

def QueueEvent.popped? : QueueEvent δ → Option (Option (Job δ))
  | .popped job => some job
  | _ => none

def pushedJobs (log : List (QueueEvent δ)) : List (Job δ) := log.filterMap QueueEvent.pushed?

def poppedJobs (log : List (QueueEvent δ)) : List (Option (Job δ)) := log.filterMap QueueEvent.popped?

@[simp] theorem pushedJobs_concat (log : List (QueueEvent δ)) (event : QueueEvent δ) :
    pushedJobs (log ++ [event]) = pushedJobs log ++ event.pushed?.toList := by
  rw [pushedJobs, List.filterMap_append]
  cases event <;> rfl

@[simp] theorem poppedJobs_concat (log : List (QueueEvent δ)) (event : QueueEvent δ) :
    poppedJobs (log ++ [event]) = poppedJobs log ++ event.popped?.toList := by
  rw [poppedJobs, List.filterMap_append]
  cases event <;> rfl

/-- What has to be logged before an event. -/
def QueueEvent.Follows (before : List (QueueEvent δ)) : QueueEvent δ → Prop
  | .pushed _ => .closed ∉ before
  | .drained => .closed ∈ before ∧ poppedJobs before = (pushedJobs before).map some
  | .refused _ _ | .popped _ | .closed => True

/-- What was pushed is what was popped and what is queued. -/
structure QueueState.Invariant (s : QueueState ι δ) : Prop where
  valid : s.queue.Valid
  closed : s.queue.closed = true ↔ .closed ∈ s.log
  fifo : (pushedJobs s.log).map some = poppedJobs s.log ++ s.queue.contents
  order : History.Each (fun before event => event.Follows before) s.log

/-- What the critical section of a call can do to a queue. -/
theorem Call.section_returns {queue queue' : JobQueue δ} (hvalid : queue.Valid) {call : Call δ}
    {event : QueueEvent δ} (h : call.section queue = .returns queue' event) :
    (∃ job, call = .push job ∧ event = .refused job queueClosed ∧ queue.closed = true ∧
      queue' = queue) ∨
    (∃ job, call = .push job ∧ event = .pushed job ∧ queue.closed = false ∧
      queue'.closed = false ∧ queue'.Valid ∧ queue'.capacity = queue.capacity ∧
      queue'.count = queue.count + 1 ∧ queue'.contents = queue.contents ++ [some job]) ∨
    (call = .pop ∧ event = .drained ∧ queue.closed = true ∧ queue.contents = [] ∧
      queue' = queue) ∨
    (∃ job, call = .pop ∧ event = .popped job ∧ queue'.closed = queue.closed ∧ queue'.Valid ∧
      queue'.capacity = queue.capacity ∧ queue'.count + 1 = queue.count ∧
      queue.contents = job :: queue'.contents) := by
  cases call with
  | push job =>
    rcases hsection : pushSection queue job with _ | ⟨queue₁, e | u⟩
    · simp only [Call.section, hsection, reduceCtorEq] at h
    · simp only [Call.section, hsection, SectionEnd.returns.injEq] at h
      obtain ⟨rfl, rfl⟩ := h
      rcases pushSection_returns hvalid hsection with ⟨hresult, hrefused⟩ | ⟨hresult, -⟩
      · cases hresult
        exact .inl ⟨job, rfl, rfl, hrefused⟩
      · cases hresult
    · simp only [Call.section, hsection, SectionEnd.returns.injEq] at h
      obtain ⟨rfl, rfl⟩ := h
      rcases pushSection_returns hvalid hsection with ⟨hresult, -⟩ | ⟨-, hpushed⟩
      · cases hresult
      · exact .inr (.inl ⟨job, rfl, rfl, hpushed⟩)
  | pop =>
    rcases hsection : popSection queue with _ | ⟨queue₁, _ | job⟩
    · simp only [Call.section, hsection, reduceCtorEq] at h
    · simp only [Call.section, hsection, SectionEnd.returns.injEq] at h
      obtain ⟨rfl, rfl⟩ := h
      rcases popSection_returns hvalid hsection with ⟨-, hdrained⟩ | ⟨job, hresult, -⟩
      · exact .inr (.inr (.inl ⟨rfl, rfl, hdrained⟩))
      · cases hresult
    · simp only [Call.section, hsection, SectionEnd.returns.injEq] at h
      obtain ⟨rfl, rfl⟩ := h
      rcases popSection_returns hvalid hsection with ⟨hresult, -⟩ | ⟨job', hresult, hpopped⟩
      · cases hresult
      · cases hresult
        exact .inr (.inr (.inr ⟨job, rfl, rfl, hpopped⟩))

namespace QueueState.Invariant

theorem initial {capacity : Int} {queue : JobQueue δ} (h : jobQueueCreate capacity = .ok queue) :
    (QueueState.initial queue : QueueState ι δ).Invariant := by
  obtain ⟨hvalid, -, hcontents, hopen⟩ := jobQueueCreate_valid h
  refine ⟨hvalid, ?_, ?_, History.each_nil⟩
  · simp [QueueState.initial, hopen]
  · simp [QueueState.initial, hcontents, pushedJobs, poppedJobs]

variable {s : QueueState ι δ}

/-- An event that is about no job leaves the queue as it is. -/
theorem log_other (h : s.Invariant) (event : QueueEvent δ) (hfollows : event.Follows s.log)
    (hpushed : event.pushed? = none) (hpopped : event.popped? = none) (hclosed : event ≠ .closed)
    (pc : ι → QueuePc δ) : (⟨s.queue, pc, s.log ++ [event]⟩ : QueueState ι δ).Invariant := by
  refine ⟨h.valid, ?_, ?_, h.order.concat hfollows⟩
  · rw [h.closed]
    simp [Ne.symm hclosed]
  · simpa [hpushed, hpopped] using h.fifo

theorem finish (h : s.Invariant) {call : Call δ} {queue : JobQueue δ} {event : QueueEvent δ}
    (hreturns : call.section s.queue = .returns queue event) (pc : ι → QueuePc δ) :
    (⟨queue, pc, s.log ++ [event]⟩ : QueueState ι δ).Invariant := by
  rcases Call.section_returns h.valid hreturns with ⟨job, -, rfl, -, rfl⟩ |
    ⟨job, -, rfl, hopen, hopen', hvalid, -, -, hcontents⟩ | ⟨-, rfl, hclosed, hempty, rfl⟩ |
    ⟨job, -, rfl, hclosed, hvalid, -, -, hcontents⟩
  · exact h.log_other (.refused job queueClosed) trivial rfl rfl (by simp) pc
  · have hnot : .closed ∉ s.log := by
      rw [← h.closed, hopen]
      simp
    refine ⟨hvalid, ?_, ?_, h.order.concat hnot⟩
    · simp [hopen', hnot]
    · simp [QueueEvent.pushed?, QueueEvent.popped?, h.fifo, hcontents]
  · have hall : poppedJobs s.log = (pushedJobs s.log).map some := by
      rw [h.fifo, hempty, List.append_nil]
    exact h.log_other .drained ⟨h.closed.mp hclosed, hall⟩ rfl rfl (by simp) pc
  · refine ⟨hvalid, ?_, ?_, h.order.concat trivial⟩
    · simp [hclosed, h.closed]
    · simp [QueueEvent.pushed?, QueueEvent.popped?, h.fifo, hcontents]

theorem close (h : s.Invariant) (pc : ι → QueuePc δ) :
    (⟨closeSection s.queue, pc, s.log ++ [.closed]⟩ : QueueState ι δ).Invariant := by
  obtain ⟨hpositive, hslots, hhead, hcount, htail⟩ := h.valid
  refine ⟨⟨hpositive, hslots, hhead, hcount, htail⟩, ?_, ?_, h.order.concat trivial⟩
  · simp [closeSection]
  · have hcontents : (closeSection s.queue).contents = s.queue.contents := rfl
    simpa [QueueEvent.pushed?, QueueEvent.popped?, hcontents] using h.fifo

variable [DecidableEq ι]

theorem step (h : s.Invariant) {s' : QueueState ι δ} (hstep : QueueStep s s') : s'.Invariant := by
  cases hstep with
  | callPush _ _ _ => exact ⟨h.valid, h.closed, h.fifo, h.order⟩
  | callPop _ => exact ⟨h.valid, h.closed, h.fifo, h.order⟩
  | reject _ job _ => exact h.log_other (.refused job nullExecute) trivial rfl rfl (by simp) s.pc
  | wait _ _ => exact ⟨h.valid, h.closed, h.fifo, h.order⟩
  | finish _ hreturns _ => exact h.finish hreturns _
  | close _ => exact h.close _
  | spurious _ => exact ⟨h.valid, h.closed, h.fifo, h.order⟩

theorem run (h : s.Invariant) {s' : QueueState ι δ} (hrun : Relation.ReflTransGen QueueStep s s') :
    s'.Invariant := by
  induction hrun with
  | refl => exact h
  | tail _ hstep ih => exact ih.step hstep

end QueueState.Invariant

theorem QueueStep.capacity [DecidableEq ι] {s s' : QueueState ι δ} (h : QueueStep s s')
    (hinvariant : s.Invariant) : s'.queue.capacity = s.queue.capacity := by
  cases h with
  | finish _ hreturns _ =>
    rcases Call.section_returns hinvariant.valid hreturns with ⟨job, -, -, -, rfl⟩ |
      ⟨job, -, -, -, -, -, hcapacity, -⟩ | ⟨-, -, -, -, rfl⟩ | ⟨job, -, -, -, -, hcapacity, -⟩
    · rfl
    · exact hcapacity
    · rfl
    · exact hcapacity
  | _ => rfl

/-- **The queue is a bounded FIFO that drains on close.** In every run the count
is at most the capacity and the indices fit each other; the jobs that were popped
are the first ones that were pushed; no push succeeds behind a close; and a pop
returns 0 only behind a close, when every job that was pushed has been popped. -/
theorem job_queue_fifo [DecidableEq ι] {capacity : Int} {queue : JobQueue δ}
    (hcreate : jobQueueCreate capacity = .ok queue) {s : QueueState ι δ}
    (hrun : Relation.ReflTransGen QueueStep (.initial queue) s) :
    s.queue.capacity = capacity ∧ s.queue.count ≤ s.queue.capacity ∧
    s.queue.tail = (s.queue.head + s.queue.count) % s.queue.capacity ∧
    poppedJobs s.log <+: (pushedJobs s.log).map some ∧
    (∀ before job after, s.log = before ++ .pushed job :: after → .closed ∉ before) ∧
    (∀ before after, s.log = before ++ .drained :: after →
      .closed ∈ before ∧ poppedJobs before = (pushedJobs before).map some) := by
  have hstart : (QueueState.initial queue : QueueState ι δ).Invariant := .initial hcreate
  have h := hstart.run hrun
  refine ⟨?_, h.valid.count_le, h.valid.tail_eq, ⟨s.queue.contents, h.fifo.symm⟩, ?_, ?_⟩
  · have hcapacity : s.queue.capacity = queue.capacity := by
      induction hrun with
      | refl => rfl
      | tail hbefore hstep ih =>
        have hinvariant := hstart.run hbefore
        exact (hstep.capacity hinvariant).trans (ih hinvariant)
    rw [hcapacity]
    exact (jobQueueCreate_valid hcreate).2.1
  · intro before job after hlog
    exact h.order before (.pushed job) after hlog
  · intro before after hlog
    exact h.order before .drained after hlog

/-- A thread pushes a job, closes the queue and pops twice. -/
theorem job_queue_fifo_one_job :
    ∃ s : QueueState (Fin 1) Nat,
      s.log = [.pushed ⟨true, true, 7⟩, .closed, .popped (some ⟨true, true, 7⟩), .drained] ∧
      s.queue.count ≤ s.queue.capacity ∧ poppedJobs s.log <+: (pushedJobs s.log).map some := by
  have hnone {cond : Cond} {pc : Fin 1 → QueuePc Nat} (h : (pc 0).asleepOn cond = false) :
      CondSignal cond pc pc :=
    .inl ⟨fun i => Subsingleton.elim 0 i ▸ h, rfl⟩
  have hpushed (pc : Fin 1 → QueuePc Nat) (h : (pc 0).asleepOn .notEmpty = false) :
      QueueEvent.Signals pc pc (.pushed ⟨true, true, 7⟩) := hnone h
  have hpopped (pc : Fin 1 → QueuePc Nat) (h : (pc 0).asleepOn .notFull = false) :
      QueueEvent.Signals pc pc (.popped (some ⟨true, true, 7⟩)) := hnone h
  have hdrained (pc : Fin 1 → QueuePc Nat) : QueueEvent.Signals pc pc .drained := rfl
  have h0 : Relation.ReflTransGen QueueStep (QueueState.initial ⟨1, 0, 0, 0, false, [none]⟩)
      (QueueState.initial ⟨1, 0, 0, 0, false, [none]⟩ : QueueState (Fin 1) Nat) := .refl
  have h1 := h0.tail (.callPush (i := 0) rfl ⟨true, true, 7⟩ rfl)
  have h2 := h1.tail (.finish (i := 0) rfl rfl (hpushed _ rfl))
  have h3 := h2.tail (.close (i := 0) rfl)
  have h4 := h3.tail (.callPop (i := 0) rfl)
  have h5 := h4.tail (.finish (i := 0) rfl rfl (hpopped _ rfl))
  have h6 := h5.tail (.callPop (i := 0) rfl)
  have h7 := h6.tail (.finish (i := 0) rfl rfl (hdrained _))
  have hcreate : jobQueueCreate 1 = .ok (⟨1, 0, 0, 0, false, [none]⟩ : JobQueue Nat) := rfl
  obtain ⟨-, hcount, -, hpopped, -⟩ := job_queue_fifo hcreate h7
  exact ⟨_, rfl, hcount, hpopped⟩

end MiniSql.Server
