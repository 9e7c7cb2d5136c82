import MiniSql.Server.JobQueue

/-!
# The thread pool

`thread_pool.c`, with any number of calls of `thread_pool_submit` and
`thread_pool_stop`, a fixed number of workers and one `thread_pool_destroy`, one
step of one thread at a time. A critical section of the queue is one step. A call
that waits on a condition looks at the queue again whenever it wakes up, and
changes nothing until it can proceed.

A call of `thread_pool_stop` or `thread_pool_destroy` begins only when no other one is
going on, and none begins behind `thread_pool_destroy`: two calls of `pthread_join` for
one worker, and a call on a pool that is being freed, have no defined meaning.
-/

namespace MiniSql.Server

variable {ι σ δ : Type} {n : Nat}

structure ThreadPool (δ : Type) where
  workerCount : Nat
  started : Bool
  queue : JobQueue δ
  deriving Repr

def threadPoolCreate (workerCount queueCapacity : Int) : Except SqlError (ThreadPool δ) :=
  if workerCount ≤ 0 then .error (sqlSetError [ascii "worker count must be positive"])
  else if queueCapacity ≤ 0 then .error (sqlSetError [ascii "queue capacity must be positive"])
  else do
    let queue ← jobQueueCreate queueCapacity
    return ⟨workerCount.toNat, false, queue⟩

/-- `thread_pool_start`, given which calls of `pthread_create` succeed. Where one
fails the workers before it are stopped again. -/
def threadPoolStart (pool : ThreadPool δ) (created : Nat → Bool) :
    ThreadPool δ × Except SqlError Unit :=
  if pool.started = true then (pool, .ok ())
  else
    match (List.range pool.workerCount).find? fun index => !created index with
    | none => ({ pool with started := true }, .ok ())
    | some index =>
      (⟨index, false, closeSection pool.queue⟩,
        .error (sqlSetError [ascii "failed to start worker thread"]))

/-! ## The threads -/

/-- Which callbacks are not null in the jobs that are submitted. The data of a job
is the call of `thread_pool_submit` it is passed to. -/
structure Callbacks (ι : Type) where
  execute : ι → Bool
  cleanup : ι → Bool

def Callbacks.job (callbacks : Callbacks ι) (call : ι) : Job ι :=
  ⟨callbacks.execute call, callbacks.cleanup call, call⟩

inductive PoolEvent (ι : Type)
  | executed (call : ι)
  | cleaned (call : ι)
  deriving DecidableEq, Repr

/-- `if (job.cleanup != NULL) job.cleanup(job.data)`. -/
def cleanupJob (job : Job ι) : List (PoolEvent ι) := if job.cleanup then [.cleaned job.data] else []

inductive SubmitPc
  | notCalled
  | checking
  | pushing
  | failing (error : SqlError)
  | returned (result : Except SqlError Unit)

/-- The checks of `thread_pool_submit`. -/
def submitChecks (started : Bool) (job : Job ι) : SubmitPc :=
  if started = false then .failing (sqlSetError [ascii "thread pool is not started"])
  else if job.execute = false then .failing nullExecute
  else .pushing

def SubmitPc.pushed : Except SqlError Unit → SubmitPc
  | .ok _ => .returned (.ok ())
  | .error e => .failing e

inductive WorkerPc (ι : Type)
  | popping
  | executing (job : Option (Job ι))
  | cleaning (job : Job ι)
  | exited

def WorkerPc.popped : Option (Option (Job ι)) → WorkerPc ι
  | none => .exited
  | some job => .executing job

def WorkerPc.executed (job : Job ι) : WorkerPc ι := if job.cleanup then .cleaning job else .popping

inductive StopPc
  | notCalled
  | closing
  | checking
  | joining (index : Nat)
  | returned
  deriving DecidableEq, Repr

/-- `thread_pool_stop`. A join returns once the worker has exited. -/
inductive StopStep (workers : Fin n → WorkerPc ι) :
    JobQueue ι × Bool × StopPc → JobQueue ι × Bool × StopPc → Prop
  | close {queue : JobQueue ι} {started : Bool} :
      StopStep workers (queue, started, .closing) (closeSection queue, started, .checking)
  | notStarted {queue : JobQueue ι} :
      StopStep workers (queue, false, .checking) (queue, false, .returned)
  | started {queue : JobQueue ι} :
      StopStep workers (queue, true, .checking) (queue, true, .joining 0)
  | join {queue : JobQueue ι} {started : Bool} {index : Fin n}
      (exited : workers index = .exited) :
      StopStep workers (queue, started, .joining index) (queue, started, .joining (index + 1))
  | clear {queue : JobQueue ι} {started : Bool} :
      StopStep workers (queue, started, .joining n) (queue, false, .returned)

inductive DestroyPc
  | notCalled
  | stopping (stop : StopPc)
  | cleaning
  | returned

/-- The loop of `job_queue_destroy` over the jobs that are left. -/
def destroySection (queue : JobQueue ι) : List (PoolEvent ι) :=
  (List.range queue.count).flatMap fun index =>
    ((queue.jobs[(queue.head + index) % queue.capacity]?).join.map cleanupJob).getD []

structure PoolState (ι σ : Type) (n : Nat) where
  queue : JobQueue ι
  started : Bool
  submits : ι → SubmitPc
  workers : Fin n → WorkerPc ι
  stops : σ → StopPc
  destroy : DestroyPc
  log : List (PoolEvent ι)

/-- The pool as it is when `thread_pool_start` has created the workers. -/
def PoolState.initial (pool : ThreadPool ι) : PoolState ι σ pool.workerCount :=
  ⟨pool.queue, pool.started, fun _ => .notCalled, fun _ => .popping, fun _ => .notCalled,
    .notCalled, []⟩

/-- No call of `thread_pool_stop` is going on. -/
def PoolState.NotStopping (s : PoolState ι σ n) : Prop :=
  ∀ k, s.stops k = .notCalled ∨ s.stops k = .returned

inductive PoolStep [DecidableEq ι] [DecidableEq σ] (callbacks : Callbacks ι) :
    PoolState ι σ n → PoolState ι σ n → Prop
  | submit {s : PoolState ι σ n} {c : ι} (called : s.submits c = .notCalled)
      (alive : s.destroy = .notCalled) :
      PoolStep callbacks s { s with submits := Function.update s.submits c .checking }
  | check {s : PoolState ι σ n} {c : ι} (checking : s.submits c = .checking) :
      PoolStep callbacks s
        { s with
          submits := Function.update s.submits c (submitChecks s.started (callbacks.job c)) }
  | push {s : PoolState ι σ n} {c : ι} (pushing : s.submits c = .pushing) {queue : JobQueue ι}
      {result : Except SqlError Unit}
      (returns : pushSection s.queue (callbacks.job c) = .returns queue result) :
      PoolStep callbacks s
        { s with queue := queue, submits := Function.update s.submits c (.pushed result) }
  | fail {s : PoolState ι σ n} {c : ι} {error : SqlError} (failing : s.submits c = .failing error) :
      PoolStep callbacks s
        { s with
          submits := Function.update s.submits c (.returned (.error error))
          log := s.log ++ cleanupJob (callbacks.job c) }
  | pop {s : PoolState ι σ n} {w : Fin n} (popping : s.workers w = .popping) {queue : JobQueue ι}
      {result : Option (Option (Job ι))} (returns : popSection s.queue = .returns queue result) :
      PoolStep callbacks s
        { s with queue := queue, workers := Function.update s.workers w (.popped result) }
  | execute {s : PoolState ι σ n} {w : Fin n} {job : Job ι}
      (executing : s.workers w = .executing (some job)) (execute : job.execute = true) :
      PoolStep callbacks s
        { s with
          workers := Function.update s.workers w (.executed job)
          log := s.log ++ [.executed job.data] }
  | clean {s : PoolState ι σ n} {w : Fin n} {job : Job ι} (cleaning : s.workers w = .cleaning job) :
      PoolStep callbacks s
        { s with
          workers := Function.update s.workers w .popping
          log := s.log ++ [.cleaned job.data] }
  | stop {s : PoolState ι σ n} {k : σ} (called : s.stops k = .notCalled)
      (alone : s.NotStopping) (alive : s.destroy = .notCalled) :
      PoolStep callbacks s { s with stops := Function.update s.stops k .closing }
  | stopping {s : PoolState ι σ n} {k : σ} {queue : JobQueue ι} {started : Bool} {pc : StopPc}
      (step : StopStep s.workers (s.queue, s.started, s.stops k) (queue, started, pc)) :
      PoolStep callbacks s
        { s with queue := queue, started := started, stops := Function.update s.stops k pc }
  /-- `thread_pool_destroy` is called when every call of `thread_pool_submit` and
  `thread_pool_stop` has returned -/
  | destroy {s : PoolState ι σ n} (called : s.destroy = .notCalled) (alone : s.NotStopping)
      (submitted : ∀ c, s.submits c = .notCalled ∨ ∃ result, s.submits c = .returned result) :
      PoolStep callbacks s { s with destroy := .stopping .closing }
  | destroyStopping {s : PoolState ι σ n} {pc : StopPc} (stopping : s.destroy = .stopping pc)
      {queue : JobQueue ι} {started : Bool} {pc' : StopPc}
      (step : StopStep s.workers (s.queue, s.started, pc) (queue, started, pc')) :
      PoolStep callbacks s
        { s with queue := queue, started := started, destroy := .stopping pc' }
  | destroyClosing {s : PoolState ι σ n} (stopped : s.destroy = .stopping .returned) :
      PoolStep callbacks s { s with queue := closeSection s.queue, destroy := .cleaning }
  | destroyCleaning {s : PoolState ι σ n} (cleaning : s.destroy = .cleaning) :
      PoolStep callbacks s
        { s with destroy := .returned, log := s.log ++ destroySection s.queue }

end MiniSql.Server
