import MiniSql.Server.ExactlyOnce
import MiniSql.Server.SocketServer

/-!
# Connections

`server_socket_handle_client` for any number of connections, together with the pool
that their jobs are submitted to. The descriptor and the request buffer of a
connection pass from the accepting thread to the job, and with it to a worker. Every
call of the operating system and every allocation may fail, and a read may end in any
way. The log records what is done with the descriptor and the buffer of each
connection.
-/

namespace MiniSql.Server

variable {ι σ : Type} {n : Nat}

/-! ## Job data -/

/-- `ServerJobData`: `raw_request` is null or the text with its length. -/
structure ServerJobData where
  clientFd : Int
  rawRequest : Option Bytes
  requestHandler : Bool
  deriving DecidableEq, Repr

def serverJobDataValidate (jobData : ServerJobData) : Except SqlError Unit :=
  if jobData.clientFd < 0 then
    .error (sqlSetError [ascii "server_job_data client_fd must be valid"])
  else if jobData.rawRequest.getD [] = [] then
    .error (sqlSetError [ascii "server_job_data raw_request must not be empty"])
  else if jobData.requestHandler = false then
    .error (sqlSetError [ascii "server_job_data request_handler must not be null"])
  else .ok ()

/-- What is done with a connection: `malloc` and `free` of the buffer, `send` and
`close` on the descriptor. -/
inductive Action
  | allocated
  | sent
  | closed
  | released
  deriving DecidableEq, Repr

/-- `server_job_cleanup`. -/
def serverJobCleanup (jobData : ServerJobData) : List Action :=
  (if 0 ≤ jobData.clientFd then [.closed] else []) ++
    if jobData.rawRequest.isSome then [.released] else []

/-! ## Steps -/

/-- Where `server_socket_handle_client` is. -/
inductive ClientPc
  | notAccepted
  /-- in front of the socket options -/
  | accepted
  /-- in front of the allocation of the buffer -/
  | reading
  | receiving
  /-- `SERVER_REQUEST_READ_OK` -/
  | dispatching (buffer : Bytes)
  /-- in `thread_pool_submit` -/
  | submitting
  /-- in front of `close`, and the response to a request that could not be read -/
  | replying
  | returned
  deriving DecidableEq, Repr

structure SocketState (ι σ : Type) (n : Nat) where
  pool : PoolState ι σ n
  clients : ι → ClientPc
  jobData : ι → Option ServerJobData
  log : List (ι × Action)

/-- The callbacks of `server_job_build`. -/
def serverCallbacks : Callbacks ι := ⟨fun _ => true, fun _ => true⟩

def SocketState.initial (pool : ThreadPool ι) : SocketState ι σ pool.workerCount :=
  ⟨.initial pool, fun _ => .notAccepted, fun _ => none, []⟩

/-- Actions on a connection. -/
def on (c : ι) (actions : List Action) : List (ι × Action) := actions.map (c, ·)

/-- The cleanup of a connection's job. -/
def SocketState.cleanup (s : SocketState ι σ n) (c : ι) : List Action :=
  ((s.jobData c).map serverJobCleanup).getD []

/-- What an event of the pool does with a connection. -/
def SocketState.actions (s : SocketState ι σ n) : PoolEvent ι → List (ι × Action)
  | .executed _ => []
  | .cleaned c => on c (s.cleanup c)

/-- The end of `server_socket_read_request`: it frees the buffer unless it returns it. -/
def ReadResult.next : ReadResult → ClientPc × List Action
  | .ok buffer => (.dispatching buffer, [])
  | .empty | .tooLarge _ | .error _ => (.replying, [.released])

inductive SocketStep [DecidableEq ι] [DecidableEq σ] (fd : ι → Int) :
    SocketState ι σ n → SocketState ι σ n → Prop
  | accept {s : SocketState ι σ n} {c : ι} (waits : s.clients c = .notAccepted)
      (alive : s.pool.destroy = .notCalled) :
      SocketStep fd s { s with clients := Function.update s.clients c .accepted }
  /-- a socket option cannot be set -/
  | refuse {s : SocketState ι σ n} {c : ι} (accepted : s.clients c = .accepted) :
      SocketStep fd s
        { s with
          clients := Function.update s.clients c .returned
          log := s.log ++ on c [.closed] }
  | configure {s : SocketState ι σ n} {c : ι} (accepted : s.clients c = .accepted) :
      SocketStep fd s { s with clients := Function.update s.clients c .reading }
  | noBuffer {s : SocketState ι σ n} {c : ι} (reading : s.clients c = .reading) :
      SocketStep fd s { s with clients := Function.update s.clients c .replying }
  | allocate {s : SocketState ι σ n} {c : ι} (reading : s.clients c = .reading) :
      SocketStep fd s
        { s with
          clients := Function.update s.clients c .receiving
          log := s.log ++ on c [.allocated] }
  | read {s : SocketState ι σ n} {c : ι} (receiving : s.clients c = .receiving)
      (result : ReadResult) :
      SocketStep fd s
        { s with
          clients := Function.update s.clients c result.next.1
          log := s.log ++ on c result.next.2 }
  /-- `server_socket_create_job_data` cannot allocate the job data -/
  | noJob {s : SocketState ι σ n} {c : ι} {buffer : Bytes}
      (dispatching : s.clients c = .dispatching buffer) :
      SocketStep fd s
        { s with
          clients := Function.update s.clients c .returned
          log := s.log ++ on c [.released, .closed] }
  | invalidJob {s : SocketState ι σ n} {c : ι} {buffer : Bytes} {error : SqlError}
      (dispatching : s.clients c = .dispatching buffer)
      (invalid : serverJobDataValidate ⟨fd c, some buffer, true⟩ = .error error) :
      SocketStep fd s
        { s with
          clients := Function.update s.clients c .returned
          log := s.log ++ on c (serverJobCleanup ⟨fd c, some buffer, true⟩) }
  | createJob {s : SocketState ι σ n} {c : ι} {buffer : Bytes}
      (dispatching : s.clients c = .dispatching buffer)
      (valid : serverJobDataValidate ⟨fd c, some buffer, true⟩ = .ok ()) :
      SocketStep fd s
        { s with
          clients := Function.update s.clients c .submitting
          jobData := Function.update s.jobData c (some ⟨fd c, some buffer, true⟩) }
  /-- a step of the pool. A job is submitted once, by the thread that handles the
  connection; the pool is destroyed when `server_start` has returned -/
  | pool {s : SocketState ι σ n} {pool : PoolState ι σ n} {later : List (PoolEvent ι)}
      (step : PoolStep serverCallbacks s.pool pool) (logged : pool.log = s.pool.log ++ later)
      (submits : ∀ c, s.pool.submits c = .notCalled → pool.submits c ≠ .notCalled →
        s.clients c = .submitting)
      (destroys : s.pool.destroy = .notCalled → pool.destroy ≠ .notCalled →
        ∀ c, s.clients c = .notAccepted ∨ s.clients c = .returned) :
      SocketStep fd s { s with pool := pool, log := s.log ++ later.flatMap s.actions }
  | submitted {s : SocketState ι σ n} {c : ι} {result : Except SqlError Unit}
      (submitting : s.clients c = .submitting) (returned : s.pool.submits c = .returned result) :
      SocketStep fd s { s with clients := Function.update s.clients c .returned }
  /-- a call of `send` in `server_socket_execute_request_job` -/
  | respond {s : SocketState ι σ n} {w : Fin n} {job : Job ι}
      (executing : s.pool.workers w = .executing (some job)) :
      SocketStep fd s { s with log := s.log ++ on job.data [.sent] }
  /-- a call of `send` in `server_socket_handle_client` -/
  | reply {s : SocketState ι σ n} {c : ι} (replying : s.clients c = .replying) :
      SocketStep fd s { s with log := s.log ++ on c [.sent] }
  | close {s : SocketState ι σ n} {c : ι} (replying : s.clients c = .replying) :
      SocketStep fd s
        { s with
          clients := Function.update s.clients c .returned
          log := s.log ++ on c [.closed] }

/-- What has been done with a connection. -/
def trace [DecidableEq ι] (c : ι) (log : List (ι × Action)) : List Action :=
  (log.filter (·.1 = c)).map Prod.snd

/-! ## Traces -/

namespace Trace

/-- The descriptor is open and there is no buffer. -/
def Open (actions : List Action) : Prop :=
  ∃ sends, actions = List.replicate sends .sent ∨
    actions = [.allocated, .released] ++ List.replicate sends .sent

/-- The descriptor is open and there is a buffer. -/
def Held (actions : List Action) : Prop := ∃ sends, actions = .allocated :: List.replicate sends .sent

/-- The descriptor is closed and the buffer has been released. -/
def Done (actions : List Action) : Prop :=
  (∃ early, Open early ∧ actions = early ++ [.closed]) ∨
  ∃ early, Held early ∧
    (actions = early ++ [.closed, .released] ∨ actions = early ++ [.released, .closed])

theorem Open.sent {actions : List Action} (h : Open actions) : Open (actions ++ [.sent]) := by
  obtain ⟨sends, rfl | rfl⟩ := h
  · exact ⟨sends + 1, .inl List.replicate_succ'.symm⟩
  · exact ⟨sends + 1, .inr (by rw [List.replicate_succ', List.append_assoc])⟩

theorem Held.sent {actions : List Action} (h : Held actions) : Held (actions ++ [.sent]) := by
  obtain ⟨sends, rfl⟩ := h
  exact ⟨sends + 1, by rw [List.replicate_succ', List.cons_append]⟩

theorem open_nil : Open [] := ⟨0, .inl rfl⟩

theorem held_allocated : Held [.allocated] := ⟨0, rfl⟩

/-- Nothing is closed or released twice, and nothing is sent behind a close. -/
structure Safe (actions : List Action) : Prop where
  closed : actions.count .closed ≤ 1
  allocated : actions.count .allocated ≤ 1
  released : actions.count .released ≤ actions.count .allocated
  silent : .sent ∉ actions.dropWhile (· ≠ .closed)

theorem Open.safe {actions : List Action} (h : Open actions) : Safe actions := by
  obtain ⟨sends, rfl | rfl⟩ := h <;>
    exact ⟨by simp [List.count_replicate], by simp [List.count_replicate],
      by simp [List.count_replicate], by simp⟩

theorem Held.safe {actions : List Action} (h : Held actions) : Safe actions := by
  obtain ⟨sends, rfl⟩ := h
  exact ⟨by simp [List.count_replicate], by simp [List.count_replicate],
    by simp [List.count_replicate], by simp⟩

theorem Done.settled {actions : List Action} (h : Done actions) :
    actions.count .closed = 1 ∧ actions.count .released = actions.count .allocated := by
  rcases h with ⟨early, ⟨sends, rfl | rfl⟩, rfl⟩ | ⟨early, ⟨sends, rfl⟩, rfl | rfl⟩ <;>
    simp [List.count_replicate]

theorem Done.safe {actions : List Action} (h : Done actions) : Safe actions := by
  obtain ⟨hclosed, hreleased⟩ := h.settled
  refine ⟨hclosed.le, ?_, hreleased.le, ?_⟩
  · rcases h with ⟨early, hearly, rfl⟩ | ⟨early, hearly, rfl | rfl⟩ <;>
      simpa using hearly.safe.allocated
  · rcases h with ⟨early, ⟨sends, rfl | rfl⟩, rfl⟩ | ⟨early, ⟨sends, rfl⟩, rfl | rfl⟩ <;>
      simp

end Trace

/-! ## The invariant -/

open Trace

section

variable [DecidableEq ι]

theorem trace_on (c c' : ι) (log : List (ι × Action)) (actions : List Action) :
    trace c (log ++ on c' actions) = trace c log ++ if c' = c then actions else [] := by
  rw [trace, trace, List.filter_append, List.map_append]
  by_cases hc : c' = c
  · simp [on, hc, List.filter_map, Function.comp_def]
  · simp [on, hc, List.filter_map, Function.comp_def]

theorem trace_on_of_ne {c c' : ι} (hc : c ≠ c') (log : List (ι × Action)) (actions : List Action) :
    trace c (log ++ on c' actions) = trace c log := by
  rw [trace_on, if_neg (Ne.symm hc), List.append_nil]

/-- What `server_socket_handle_client` has done, as long as the job was not passed on. -/
def ClientPc.Fits (pc : ClientPc) (submit : SubmitPc) (actions : List Action) : Prop :=
  match pc with
  | .notAccepted | .accepted | .reading => actions = []
  | .receiving | .dispatching _ => actions = [.allocated]
  | .replying => Open actions
  | .submitting => submit = .notCalled → Held actions
  | .returned => submit = .notCalled → Done actions

omit [DecidableEq ι] in
/-- Once the job was passed on, the thread has no part in what is done. -/
theorem ClientPc.fits_called {pc : ClientPc} {submit : SubmitPc} (hcalled : submit ≠ .notCalled)
    (hpc : pc = .submitting ∨ pc = .returned) (actions : List Action) : pc.Fits submit actions := by
  rcases hpc with rfl | rfl
  · exact fun hnot => absurd hnot hcalled
  · exact fun hnot => absurd hnot hcalled

structure SocketState.Invariant (fd : ι → Int) (s : SocketState ι σ n) : Prop where
  pool : s.pool.Invariant serverCallbacks
  client : ∀ c, (s.clients c).Fits (s.pool.submits c) (trace c s.log)
  passed : ∀ c, s.pool.submits c ≠ .notCalled → s.clients c = .submitting ∨ s.clients c = .returned
  held : ∀ c, s.pool.submits c ≠ .notCalled → s.pool.log.count (.cleaned c) = 0 → Held (trace c s.log)
  done : ∀ c, s.pool.log.count (.cleaned c) ≠ 0 → Done (trace c s.log)
  jobData : ∀ c, s.clients c = .submitting ∨ s.pool.submits c ≠ .notCalled →
    ∃ buffer, s.jobData c = some ⟨fd c, some buffer, true⟩
  ended : s.pool.destroy ≠ .notCalled → ∀ c, s.clients c = .notAccepted ∨ s.clients c = .returned

/-- A job that was not submitted, or is being submitted, has not been cleaned up. -/
theorem Ledger.not_cleaned {callbacks : Callbacks ι} {contents : List (Option (Job ι))}
    {workers : Fin n → WorkerPc ι} {submits : ι → SubmitPc} {log : List (PoolEvent ι)}
    (h : Ledger callbacks contents workers submits log) {c : ι}
    (hsubmit : ∀ result, submits c ≠ .returned result) : log.count (.cleaned c) = 0 := by
  have haccepted : (submits c).accepted = false ∧ (submits c).refused = false := by
    cases hpc : submits c with
    | returned result => exact absurd hpc (hsubmit result)
    | _ => exact ⟨rfl, rfl⟩
  have hexecuted := h.executed c
  have hcleaned := h.cleaned c
  rw [haccepted.1] at hexecuted
  rw [haccepted.2] at hcleaned
  simp only [Bool.toNat_false] at hexecuted hcleaned
  split at hcleaned <;> omega

theorem Ledger.cleaned_le_one {callbacks : Callbacks ι} {contents : List (Option (Job ι))}
    {workers : Fin n → WorkerPc ι} {submits : ι → SubmitPc} {log : List (PoolEvent ι)}
    (h : Ledger callbacks contents workers submits log) (c : ι) : log.count (.cleaned c) ≤ 1 := by
  have hone : (submits c).accepted.toNat + (submits c).refused.toNat ≤ 1 := by
    cases submits c with
    | returned result => cases result <;> simp [SubmitPc.accepted, SubmitPc.refused]
    | _ => simp [SubmitPc.accepted, SubmitPc.refused]
  have hexecuted := h.executed c
  have hcleaned := h.cleaned c
  split at hcleaned <;> omega

/-- A worker that executes a job has not cleaned it up yet, and nobody else has. -/
theorem Ledger.executing {callbacks : Callbacks ι} {contents : List (Option (Job ι))}
    {workers : Fin n → WorkerPc ι} {submits : ι → SubmitPc} {log : List (PoolEvent ι)}
    (h : Ledger callbacks contents workers submits log) {w : Fin n} {job : Job ι}
    (hw : workers w = .executing (some job)) :
    submits job.data ≠ .notCalled ∧ log.count (.cleaned job.data) = 0 := by
  have hexecuted := h.executed job.data
  have hcleaned := h.cleaned job.data
  have hcount : 0 < Threads.count (WorkerPc.executes job.data) workers :=
    Threads.count_pos (i := w) (by simp [hw, WorkerPc.executes, holds])
  cases hpc : submits job.data with
  | returned result =>
    cases result with
    | ok _ =>
      rw [hpc] at hexecuted hcleaned
      simp only [SubmitPc.accepted, SubmitPc.refused, Bool.toNat_true, Bool.toNat_false] at hexecuted hcleaned
      constructor
      · intro hcalled
        cases hcalled
      · split at hcleaned <;> omega
    | error e =>
      rw [hpc] at hexecuted
      simp only [SubmitPc.accepted, Bool.toNat_false] at hexecuted
      omega
  | _ =>
    rw [hpc] at hexecuted
    simp only [SubmitPc.accepted, Bool.toNat_false] at hexecuted
    omega

/-- A step of the pool moves at most one call of `thread_pool_submit`; a new call has
to check its job first. -/
theorem PoolStep.submits_cases [DecidableEq σ] {callbacks : Callbacks ι} {s s' : PoolState ι σ n}
    (hstep : PoolStep callbacks s s') :
    s'.submits = s.submits ∨ ∃ c pc, s'.submits = Function.update s.submits c pc ∧
      pc ≠ .notCalled ∧ (s.submits c = .notCalled → pc = .checking) := by
  cases hstep with
  | @submit c => exact .inr ⟨c, .checking, rfl, nofun, fun _ => rfl⟩
  | @check c hchecking =>
    refine .inr ⟨c, _, rfl, ?_, fun hcalled => ?_⟩
    · unfold submitChecks
      split
      · nofun
      · split <;> nofun
    · cases hchecking.symm.trans hcalled
  | @push c hpushing _ result =>
    refine .inr ⟨c, _, rfl, ?_, fun hcalled => ?_⟩
    · cases result <;> nofun
    · cases hpushing.symm.trans hcalled
  | @fail c error hfailing =>
    refine .inr ⟨c, _, rfl, nofun, fun hcalled => ?_⟩
    cases hfailing.symm.trans hcalled
  | _ => exact .inl rfl

theorem PoolStep.stays_called [DecidableEq σ] {callbacks : Callbacks ι} {s s' : PoolState ι σ n}
    (hstep : PoolStep callbacks s s') {c : ι} (h : s.submits c ≠ .notCalled) :
    s'.submits c ≠ .notCalled := by
  rcases hstep.submits_cases with hsame | ⟨c', pc, hmoved, hpc, -⟩
  · rwa [hsame]
  · rw [hmoved]
    by_cases hc : c = c'
    · subst hc
      rwa [Function.update_self]
    · rwa [Function.update_of_ne hc]

/-- A call that begins with this step has not returned. -/
theorem PoolStep.not_returned [DecidableEq σ] {callbacks : Callbacks ι} {s s' : PoolState ι σ n}
    (hstep : PoolStep callbacks s s') {c : ι} (h : s.submits c = .notCalled)
    (result : Except SqlError Unit) : s'.submits c ≠ .returned result := by
  rcases hstep.submits_cases with hsame | ⟨c', pc, hmoved, -, hchecking⟩
  · simp [hsame, h]
  · rw [hmoved]
    by_cases hc : c = c'
    · subst hc
      rw [Function.update_self, hchecking h]
      nofun
    · rw [Function.update_of_ne hc, h]
      nofun

namespace SocketState.Invariant

variable {fd : ι → Int} {s : SocketState ι σ n}

theorem initial {pool : ThreadPool ι} (hvalid : pool.queue.Valid)
    (hempty : pool.queue.contents = []) (hstarted : pool.started = true) :
    (SocketState.initial pool : SocketState ι σ pool.workerCount).Invariant fd where
  pool := .initial hvalid hempty hstarted
  client := fun _ => rfl
  passed := fun _ h => absurd rfl h
  held := fun _ h => absurd rfl h
  done := fun _ h => absurd rfl h
  jobData := by
    rintro c (h | h)
    · cases h
    · exact absurd rfl h
  ended := fun h => absurd rfl h

/-- The thread that handles a connection does something with it. -/
theorem handle (h : s.Invariant fd) (halive : s.pool.destroy = .notCalled) {c : ι}
    (hcalled : s.pool.submits c = .notCalled) (pc : ClientPc) (actions : List Action)
    {log : List (ι × Action)} (hlog : log = s.log ++ on c actions)
    (hfits : pc.Fits .notCalled (trace c s.log ++ actions)) {jobData : ι → Option ServerJobData}
    (hdata : pc = .submitting → ∃ buffer, jobData c = some ⟨fd c, some buffer, true⟩)
    (hother : ∀ c', c' ≠ c → jobData c' = s.jobData c') :
    SocketState.Invariant fd ⟨s.pool, Function.update s.clients c pc, jobData, log⟩ := by
  subst hlog
  refine ⟨h.pool, fun c' => ?_, fun c' hc' => ?_, fun c' hc' hcleaned => ?_, fun c' hcleaned => ?_,
    fun c' hc' => ?_, fun hdestroy => absurd halive hdestroy⟩
  · dsimp only
    by_cases hc : c' = c
    · subst hc
      rw [Function.update_self, hcalled, trace_on, if_pos rfl]
      exact hfits
    · rw [Function.update_of_ne hc, trace_on_of_ne hc]
      exact h.client c'
  · have hc : c' ≠ c := fun hc => hc' (hc ▸ hcalled)
    dsimp only
    rw [Function.update_of_ne hc]
    exact h.passed c' hc'
  · have hc : c' ≠ c := fun hc => hc' (hc ▸ hcalled)
    dsimp only
    rw [trace_on_of_ne hc]
    exact h.held c' hc' hcleaned
  · have hc : c' ≠ c := by
      rintro rfl
      exact hcleaned (h.pool.ledger.not_cleaned (by simp [hcalled]))
    dsimp only
    rw [trace_on_of_ne hc]
    exact h.done c' hcleaned
  · dsimp only at hc' ⊢
    by_cases hc : c' = c
    · subst hc
      rw [Function.update_self] at hc'
      exact hdata (hc'.resolve_right (not_not_intro hcalled))
    · rw [Function.update_of_ne hc] at hc'
      rw [hother c' hc]
      exact h.jobData c' hc'

/-- A connection that is being handled: the server is not stopped yet, and unless the
job has been created it has not been submitted. -/
theorem active (h : s.Invariant fd) {c : ι} {pc : ClientPc} (hpc : s.clients c = pc)
    (hactive : pc ≠ .notAccepted ∧ pc ≠ .returned) :
    s.pool.destroy = .notCalled ∧ (pc ≠ .submitting → s.pool.submits c = .notCalled) := by
  constructor
  · by_contra hdestroy
    rcases h.ended hdestroy c with hc | hc
    · exact hactive.1 (hpc.symm.trans hc)
    · exact hactive.2 (hpc.symm.trans hc)
  · intro hsubmitting
    by_contra hcalled
    rcases h.passed c hcalled with hc | hc
    · exact hsubmitting (hpc.symm.trans hc)
    · exact hactive.2 (hpc.symm.trans hc)

/-- A connection's job is cleaned up as often as the pool logs it. -/
theorem trace_actions (s : SocketState ι σ n) (c : ι) (later : List (PoolEvent ι))
    (log : List (ι × Action)) :
    trace c (log ++ later.flatMap s.actions) =
      trace c log ++ (List.replicate (later.count (.cleaned c)) (s.cleanup c)).flatten := by
  induction later generalizing log with
  | nil => simp
  | cons event later ih =>
    rw [List.flatMap_cons, ← List.append_assoc, ih]
    cases event with
    | executed c' => simp [SocketState.actions]
    | cleaned c' =>
      rw [SocketState.actions, trace_on]
      by_cases hc : c' = c
      · subst hc
        rw [if_pos rfl, List.count_cons_self, List.replicate_succ, List.flatten_cons,
          List.append_assoc]
      · rw [if_neg hc, List.append_nil, List.count_cons_of_ne (by simpa using hc)]

theorem cleanup_eq (h : s.Invariant fd) (hfd : ∀ c, 0 ≤ fd c) {c : ι}
    (hcalled : s.pool.submits c ≠ .notCalled) : s.cleanup c = [.closed, .released] := by
  obtain ⟨buffer, hdata⟩ := h.jobData c (.inr hcalled)
  simp [SocketState.cleanup, hdata, serverJobCleanup, hfd c]

/-- A step of the pool. -/
theorem poolStep [DecidableEq σ] (h : s.Invariant fd) (hfd : ∀ c, 0 ≤ fd c) (hworkers : 0 < n)
    {pool : PoolState ι σ n} {later : List (PoolEvent ι)}
    (hstep : PoolStep serverCallbacks s.pool pool) (hlogged : pool.log = s.pool.log ++ later)
    (hsubmits : ∀ c, s.pool.submits c = .notCalled → pool.submits c ≠ .notCalled →
      s.clients c = .submitting)
    (hdestroys : s.pool.destroy = .notCalled → pool.destroy ≠ .notCalled →
      ∀ c, s.clients c = .notAccepted ∨ s.clients c = .returned) :
    SocketState.Invariant fd { s with pool := pool, log := s.log ++ later.flatMap s.actions } := by
  have hpool : pool.Invariant serverCallbacks := h.pool.step hworkers hstep
  have hcount (c : ι) : pool.log.count (.cleaned c) =
      s.pool.log.count (.cleaned c) + later.count (.cleaned c) := by rw [hlogged, List.count_append]
  have hsame {c : ι} (hlater : later.count (.cleaned c) = 0) :
      trace c (s.log ++ later.flatMap s.actions) = trace c s.log := by
    rw [trace_actions, hlater]
    exact List.append_nil _
  have hpassed (c : ι) (hc : pool.submits c ≠ .notCalled) :
      s.clients c = .submitting ∨ s.clients c = .returned := by
    by_cases hbefore : s.pool.submits c = .notCalled
    · exact .inl (hsubmits c hbefore hc)
    · exact h.passed c hbefore
  refine ⟨hpool, fun c => ?_, hpassed, fun c hc hzero => ?_, fun c hc => ?_, fun c hc => ?_,
    fun hdestroy => ?_⟩
  · dsimp only
    by_cases hc : pool.submits c = .notCalled
    · have hbefore : s.pool.submits c = .notCalled := by
        by_contra hcalled
        exact hstep.stays_called hcalled hc
      have hzero := hpool.ledger.not_cleaned (c := c) (by simp [hc])
      have hclient := h.client c
      rw [hsame (by rw [hcount] at hzero; omega), hc, ← hbefore]
      exact hclient
    · exact ClientPc.fits_called hc (hpassed c hc) _
  · rw [hcount] at hzero
    dsimp only
    rw [hsame (by omega)]
    by_cases hbefore : s.pool.submits c = .notCalled
    · have hclient := h.client c
      rw [hsubmits c hbefore hc] at hclient
      exact hclient hbefore
    · exact h.held c hbefore (by omega)
  · have hle := hpool.ledger.cleaned_le_one c
    rw [hcount] at hc hle
    dsimp only
    by_cases hbefore : s.pool.log.count (.cleaned c) = 0
    · -- The job is cleaned up in this step.
      have hcalled : s.pool.submits c ≠ .notCalled := by
        intro hnot
        have hzero := hpool.ledger.not_cleaned (hstep.not_returned hnot)
        rw [hcount] at hzero
        omega
      have hlater : later.count (.cleaned c) = 1 := by omega
      rw [trace_actions, hlater, h.cleanup_eq hfd hcalled]
      exact .inr ⟨_, h.held c hcalled hbefore, .inl rfl⟩
    · rw [hsame (by omega)]
      exact h.done c hbefore
  · apply h.jobData c
    rcases hc with hc | hc
    · exact .inl hc
    · by_cases hbefore : s.pool.submits c = .notCalled
      · exact .inl (hsubmits c hbefore hc)
      · exact .inr hbefore
  · by_cases hbefore : s.pool.destroy = .notCalled
    · exact hdestroys hbefore hdestroy
    · exact h.ended hbefore

/-- A worker sends something. -/
theorem respond (h : s.Invariant fd) {w : Fin n} {job : Job ι}
    (hw : s.pool.workers w = .executing (some job)) :
    SocketState.Invariant fd { s with log := s.log ++ on job.data [.sent] } := by
  obtain ⟨hcalled, hcleaned⟩ := h.pool.ledger.executing hw
  refine ⟨h.pool, fun c => ?_, h.passed, fun c hc hzero => ?_, fun c hc => ?_, h.jobData, h.ended⟩
  · by_cases hc : c = job.data
    · subst hc
      exact ClientPc.fits_called hcalled (h.passed _ hcalled) _
    · dsimp only
      rw [trace_on_of_ne hc]
      exact h.client c
  · by_cases hdata : c = job.data
    · subst hdata
      dsimp only
      rw [trace_on, if_pos rfl]
      exact (h.held _ hcalled hcleaned).sent
    · dsimp only
      rw [trace_on_of_ne hdata]
      exact h.held c hc hzero
  · have hdata : c ≠ job.data := fun hdata => hc (hdata ▸ hcleaned)
    dsimp only
    rw [trace_on_of_ne hdata]
    exact h.done c hc

/-- `thread_pool_submit` returns to the thread that called it. -/
theorem submitted (h : s.Invariant fd) {c : ι} {result : Except SqlError Unit}
    (hsubmitting : s.clients c = .submitting) (hreturned : s.pool.submits c = .returned result) :
    SocketState.Invariant fd { s with clients := Function.update s.clients c .returned } := by
  have hcalled : s.pool.submits c ≠ .notCalled := by simp [hreturned]
  have halive := (h.active hsubmitting (by simp)).1
  refine ⟨h.pool, fun c' => ?_, fun c' hc' => ?_, h.held, h.done, fun c' hc' => ?_,
    fun hdestroy => absurd halive hdestroy⟩
  · by_cases hc : c' = c
    · subst hc
      dsimp only
      rw [Function.update_self]
      exact ClientPc.fits_called hcalled (.inr rfl) _
    · dsimp only
      rw [Function.update_of_ne hc]
      exact h.client c'
  · by_cases hc : c' = c
    · subst hc
      exact .inr (Function.update_self _ _ _)
    · dsimp only
      rw [Function.update_of_ne hc]
      exact h.passed c' hc'
  · apply h.jobData c'
    by_cases hc : c' = c
    · subst hc
      exact .inr hcalled
    · dsimp only at hc'
      rwa [Function.update_of_ne hc] at hc'

/-- A step of the thread that handles a connection, before the job is submitted. -/
theorem handling (h : s.Invariant fd) {c : ι} {before : ClientPc} (hpc : s.clients c = before)
    (hactive : before ≠ .notAccepted ∧ before ≠ .returned ∧ before ≠ .submitting) (pc : ClientPc)
    (actions : List Action) {log : List (ι × Action)} (hlog : log = s.log ++ on c actions)
    (hfits : before.Fits .notCalled (trace c s.log) → pc.Fits .notCalled (trace c s.log ++ actions))
    {jobData : ι → Option ServerJobData}
    (hdata : pc = .submitting → ∃ buffer, jobData c = some ⟨fd c, some buffer, true⟩)
    (hother : ∀ c', c' ≠ c → jobData c' = s.jobData c') :
    SocketState.Invariant fd ⟨s.pool, Function.update s.clients c pc, jobData, log⟩ := by
  obtain ⟨halive, hcalled⟩ := h.active hpc ⟨hactive.1, hactive.2.1⟩
  have hclient := h.client c
  rw [hpc, hcalled hactive.2.2] at hclient
  exact h.handle halive (hcalled hactive.2.2) pc actions hlog (hfits hclient) hdata hother

theorem step [DecidableEq σ] (h : s.Invariant fd) (hfd : ∀ c, 0 ≤ fd c) (hworkers : 0 < n)
    {s' : SocketState ι σ n} (hstep : SocketStep fd s s') : s'.Invariant fd := by
  have hquiet (c : ι) : s.log = s.log ++ on c [] := (List.append_nil _).symm
  cases hstep with
  | @accept c hwaits halive =>
    have hcalled : s.pool.submits c = .notCalled := by
      by_contra hcalled
      rcases h.passed c hcalled with hc | hc <;> cases hwaits.symm.trans hc
    have hclient := h.client c
    rw [hwaits] at hclient
    refine h.handle halive hcalled .accepted [] (hquiet c) ?_ nofun fun _ _ => rfl
    rw [hclient]
    rfl
  | @refuse c haccepted =>
    refine h.handling haccepted (by simp) .returned [.closed] rfl (fun hnone _ => ?_) nofun fun _ _ => rfl
    rw [hnone]
    exact .inl ⟨[], open_nil, rfl⟩
  | @configure c haccepted =>
    refine h.handling haccepted (by simp) .reading [] (hquiet c) (fun hnone => ?_) nofun fun _ _ => rfl
    rw [hnone]
    rfl
  | @noBuffer c hreading =>
    refine h.handling hreading (by simp) .replying [] (hquiet c) (fun hnone => ?_) nofun fun _ _ => rfl
    rw [hnone]
    exact open_nil
  | @allocate c hreading =>
    refine h.handling hreading (by simp) .receiving [.allocated] rfl (fun hnone => ?_) nofun fun _ _ => rfl
    rw [hnone]
    rfl
  | @read c hreceiving result =>
    refine h.handling hreceiving (by simp) _ _ rfl (fun hallocated => ?_) ?_ fun _ _ => rfl
    · have hfreed : Open (trace c s.log ++ [.released]) := by
        rw [hallocated]
        exact ⟨0, .inr rfl⟩
      cases result with
      | ok buffer => exact (List.append_nil _).trans hallocated
      | empty | tooLarge _ | error _ => exact hfreed
    · cases result <;> nofun
  | @noJob c buffer hdispatching =>
    refine h.handling hdispatching (by simp) .returned _ rfl (fun hallocated _ => ?_) nofun fun _ _ => rfl
    rw [hallocated]
    exact .inr ⟨_, held_allocated, .inr rfl⟩
  | @invalidJob c buffer _ hdispatching =>
    refine h.handling hdispatching (by simp) .returned _ rfl (fun hallocated _ => ?_) nofun fun _ _ => rfl
    rw [hallocated, serverJobCleanup, if_pos (hfd c)]
    exact .inr ⟨_, held_allocated, .inl rfl⟩
  | @createJob c buffer hdispatching =>
    refine h.handling hdispatching (by simp) .submitting [] (hquiet c) (fun hallocated _ => ?_)
      (fun _ => ⟨buffer, Function.update_self _ _ _⟩) fun c' hc => Function.update_of_ne hc _ _
    rw [hallocated]
    exact held_allocated
  | pool hstep hlogged hsubmits hdestroys =>
    exact h.poolStep hfd hworkers hstep hlogged hsubmits hdestroys
  | submitted hsubmitting hreturned => exact h.submitted hsubmitting hreturned
  | respond hw => exact h.respond hw
  | @reply c hreplying =>
    have hnew := h.handling hreplying (by simp) .replying [.sent] rfl (fun hopen => hopen.sent)
      nofun fun _ _ => rfl
    rwa [← hreplying, Function.update_eq_self] at hnew
  | @close c hreplying =>
    exact h.handling hreplying (by simp) .returned [.closed] rfl
      (fun hopen _ => .inl ⟨_, hopen, rfl⟩) nofun fun _ _ => rfl

theorem run [DecidableEq σ] (h : s.Invariant fd) (hfd : ∀ c, 0 ≤ fd c) (hworkers : 0 < n)
    {s' : SocketState ι σ n} (hrun : Relation.ReflTransGen (SocketStep fd) s s') :
    s'.Invariant fd := by
  induction hrun with
  | refl => exact h
  | tail _ hstep ih => exact ih.step hfd hworkers hstep

/-- What is done with a connection is safe at any time. -/
theorem safe (h : s.Invariant fd) (c : ι) : Safe (trace c s.log) := by
  have hclient := h.client c
  by_cases hcalled : s.pool.submits c = .notCalled
  · rw [hcalled] at hclient
    cases hpc : s.clients c with
    | notAccepted | accepted | reading =>
      rw [hpc] at hclient
      rw [hclient]
      exact open_nil.safe
    | receiving | dispatching buffer =>
      rw [hpc] at hclient
      rw [hclient]
      exact held_allocated.safe
    | replying =>
      rw [hpc] at hclient
      exact Open.safe hclient
    | submitting =>
      rw [hpc] at hclient
      exact (hclient rfl).safe
    | returned =>
      rw [hpc] at hclient
      exact (hclient rfl).safe
  · by_cases hcleaned : s.pool.log.count (.cleaned c) = 0
    · exact (h.held c hcalled hcleaned).safe
    · exact (h.done c hcleaned).safe

/-- When the pool has been destroyed, every connection that was accepted is done with. -/
theorem settled (h : s.Invariant fd) (hworkers : 0 < n) (hdestroy : s.pool.destroy = .returned) {c : ι}
    (haccepted : s.clients c ≠ .notAccepted) : Done (trace c s.log) := by
  have hreturned : s.clients c = .returned :=
    (h.ended (by simp [hdestroy]) c).resolve_left haccepted
  by_cases hcalled : s.pool.submits c = .notCalled
  · have hclient := h.client c
    rw [hreturned] at hclient
    exact hclient hcalled
  · apply h.done c
    have hcleaned := (h.pool.settled hworkers hdestroy c).2
    rcases h.pool.submitted (by simp [hdestroy]) c with hc | ⟨result, hc⟩
    · exact absurd hc hcalled
    · have hexecuted := (h.pool.settled hworkers hdestroy c).1
      rw [hc] at hexecuted hcleaned
      have hone : s.pool.log.count (.cleaned c) = 1 := by
        rw [hcleaned, hexecuted]
        cases result <;> rfl
      omega

end SocketState.Invariant

/-- **Every connection is closed exactly once.** In a started server, whatever the
socket calls, the reads, the allocations and the submits come to, and however the
threads interleave: nothing is ever sent on a descriptor that has been closed, no
descriptor is closed and no buffer released twice, and when the pool has been
destroyed every connection that was accepted has been closed, and its buffer released
if there was one. -/
theorem connection_closed_once [DecidableEq σ] {workerCount queueCapacity : Int}
    {pool started : ThreadPool ι} {created : Nat → Bool}
    (hcreate : threadPoolCreate workerCount queueCapacity = .ok pool)
    (hstart : threadPoolStart pool created = (started, .ok ())) {fd : ι → Int}
    (hfd : ∀ c, 0 ≤ fd c) {s : SocketState ι σ started.workerCount}
    (hrun : Relation.ReflTransGen (SocketStep fd) (.initial started) s) (c : ι) :
    Safe (trace c s.log) ∧
    (s.pool.destroy = .returned → s.clients c ≠ .notAccepted →
      (trace c s.log).count .closed = 1 ∧
      (trace c s.log).count .released = (trace c s.log).count .allocated) := by
  obtain ⟨hworkers, hstopped, hvalid, hempty⟩ := threadPoolCreate_ok hcreate
  cases threadPoolStart_ok hstopped hstart
  have hinitial : (SocketState.initial { pool with started := true } :
      SocketState ι σ pool.workerCount).Invariant fd := .initial hvalid hempty rfl
  have h : s.Invariant fd := hinitial.run hfd hworkers hrun
  constructor
  · exact h.safe c
  · intro hdestroy haccepted
    exact (h.settled hworkers hdestroy haccepted).settled

end

/-- The request of one connection is read and submitted; a worker answers it, and the pool
is destroyed. -/
theorem connection_closed_once_request :
    ∃ s : SocketState (Fin 1) Empty 1, s.pool.destroy = .returned ∧
      s.pool.submits 0 = .returned (.ok ()) ∧
      trace 0 s.log = [.allocated, .sent, .closed, .released] ∧
      (trace 0 s.log).count .closed = 1 ∧ (trace 0 s.log).count .released = 1 := by
  let pool : ThreadPool (Fin 1) := ⟨1, false, ⟨1, 0, 0, 0, false, [none]⟩⟩
  have hcreate : threadPoolCreate 1 1 = .ok pool := rfl
  have hstart : threadPoolStart pool (fun _ => true) = ({ pool with started := true }, .ok ()) := rfl
  let fd : Fin 1 → Int := fun _ => 4
  let raw : Bytes := ascii "GET / HTTP/1.1\x0d\x0a\x0d\x0a"
  -- A step of the pool, while the accepting thread is in a call or done.
  have hpool {s : SocketState (Fin 1) Empty 1}
      (h : Relation.ReflTransGen (SocketStep fd) (.initial { pool with started := true }) s)
      {next : PoolState (Fin 1) Empty 1} (step : PoolStep serverCallbacks s.pool next)
      (later : List (PoolEvent (Fin 1))) (logged : next.log = s.pool.log ++ later)
      (submits : s.clients 0 = .submitting ∨ s.pool.submits 0 ≠ .notCalled)
      (destroys : s.clients 0 = .returned ∨ next.destroy = .notCalled) :
      Relation.ReflTransGen (SocketStep fd) (.initial { pool with started := true })
        { s with pool := next, log := s.log ++ later.flatMap s.actions } := by
    apply h.tail
    apply SocketStep.pool step logged
    · intro c hnot _
      rw [Subsingleton.elim c 0] at hnot ⊢
      exact submits.resolve_right fun hcalled => hcalled hnot
    · intro _ hcalled c
      rw [Subsingleton.elim c 0]
      exact .inr (destroys.resolve_right hcalled)
  have h0 : Relation.ReflTransGen (SocketStep fd) (.initial { pool with started := true })
      (.initial { pool with started := true } : SocketState (Fin 1) Empty 1) := .refl
  have h1 := h0.tail (.accept (c := 0) rfl rfl)
  have h2 := h1.tail (.configure (c := 0) rfl)
  have h3 := h2.tail (.allocate (c := 0) rfl)
  have h4 := h3.tail (.read (c := 0) rfl (.ok raw))
  have h5 := h4.tail (.createJob (c := 0) rfl rfl)
  have h6 := hpool h5 (.submit (c := 0) rfl rfl) [] rfl (.inl rfl) (.inr rfl)
  have h7 := hpool h6 (.check (c := 0) rfl) [] rfl (.inl rfl) (.inr rfl)
  have h8 := hpool h7 (.push (c := 0) rfl rfl) [] rfl (.inl rfl) (.inr rfl)
  have h9 := h8.tail (.submitted (c := 0) rfl rfl)
  have h10 := hpool h9 (.pop (w := 0) rfl rfl) [] rfl (.inr nofun) (.inr rfl)
  have h11 := h10.tail (.respond (w := 0) rfl)
  have h12 := hpool h11 (.execute (w := 0) rfl rfl) [.executed 0] rfl (.inr nofun) (.inr rfl)
  have h13 := hpool h12 (.clean (w := 0) rfl) [.cleaned 0] rfl (.inr nofun) (.inr rfl)
  have h14 := hpool h13
    (.destroy rfl (fun k => k.elim) fun c => .inr ⟨.ok (), Subsingleton.elim 0 c ▸ rfl⟩) [] rfl
    (.inr nofun) (.inl rfl)
  have h15 := hpool h14 (.destroyStopping rfl .close) [] rfl (.inr nofun) (.inl rfl)
  have h16 := hpool h15 (.destroyStopping rfl .started) [] rfl (.inr nofun) (.inl rfl)
  have h17 := hpool h16 (.pop (w := 0) rfl rfl) [] rfl (.inr nofun) (.inl rfl)
  have h18 := hpool h17 (.destroyStopping rfl (@StopStep.join _ _ _ _ _ 0 rfl)) [] rfl (.inr nofun)
    (.inl rfl)
  have h19 := hpool h18 (.destroyStopping rfl .clear) [] rfl (.inr nofun) (.inl rfl)
  have h20 := hpool h19 (.destroyClosing rfl) [] rfl (.inr nofun) (.inl rfl)
  have h21 := hpool h20 (.destroyCleaning rfl) [] rfl (.inr nofun) (.inl rfl)
  have hdone {s : SocketState (Fin 1) Empty 1}
      (h : Relation.ReflTransGen (SocketStep fd) (.initial { pool with started := true }) s)
      (hdestroyed : s.pool.destroy = .returned) (hclient : s.clients 0 = .returned)
      (hsubmitted : s.pool.submits 0 = .returned (.ok ()))
      (htrace : trace 0 s.log = [.allocated, .sent, .closed, .released]) :
      ∃ s : SocketState (Fin 1) Empty 1, s.pool.destroy = .returned ∧
      s.pool.submits 0 = .returned (.ok ()) ∧
      trace 0 s.log = [.allocated, .sent, .closed, .released] ∧
      (trace 0 s.log).count .closed = 1 ∧ (trace 0 s.log).count .released = 1 := by
    obtain ⟨hclosed, hreleased⟩ :=
      (connection_closed_once hcreate hstart (fun _ => by decide) h 0).2 hdestroyed (by simp [hclient])
    refine ⟨s, hdestroyed, hsubmitted, htrace, hclosed, hreleased.trans ?_⟩
    rw [htrace]
    rfl
  exact hdone h21 rfl rfl rfl (by decide +kernel)

end MiniSql.Server
