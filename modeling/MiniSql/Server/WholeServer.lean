import MiniSql.Server.Connections
import MiniSql.Server.OneResponse
import MiniSql.Server.Serializable

/-!
# The whole server is linearizable

The accepting thread, the thread pool, the guard and the database in one system. A
worker of the pool that executes the job of a connection takes the steps of
`request_handler_handle` for the request of that connection, one atomic operation or
one access to the database at a time, and leaves the job when it has an answer.
Whatever the interleaving, the accepted requests behave as if they had been handled
one at a time, in an order that agrees with real time.
-/

namespace MiniSql.Server

open Storage Index Query

variable {ι σ : Type} {n : Nat}

/-! ## The system -/

/-- What comes in on a connection: the text that is read from it, if it can be read,
and whether the body of the request can be allocated. -/
structure Incoming where
  rawRequest : Bytes
  bodyAllocated : Bool
  deriving DecidableEq, Repr

/-- `http_parse_request` in the job of the connection. -/
def Incoming.parse (incoming : Incoming) : Except SqlError HttpRequest :=
  RequestJob.parse ⟨incoming.rawRequest, none, incoming.bodyAllocated, false⟩

def Incoming.request (incoming : Incoming) : HttpRequest :=
  incoming.parse.toOption.getD ⟨[], [], none⟩

structure WholeState (ι σ : Type) (n : Nat) where
  socket : SocketState ι σ n
  handling : ServerState ι

def WholeState.initial (incoming : ι → Incoming) (scratch : ι → List BPTree) (db : Db)
    (pool : ThreadPool ι) : WholeState ι σ pool.workerCount :=
  ⟨.initial pool, .initial (fun c => (incoming c).request) scratch db⟩

/-- There is an answer: the request was not understood, or `request_handler_handle` has
returned. -/
def WholeState.Answered (incoming : ι → Incoming) (s : WholeState ι σ n) (c : ι) : Prop :=
  (∃ error, (incoming c).parse = .error error) ∨ (s.handling.response c).isSome = true

section

variable [DecidableEq ι] [DecidableEq σ]

inductive WholeStep (fd : ι → Int) (incoming : ι → Incoming) :
    WholeState ι σ n → WholeState ι σ n → Prop
  /-- a step of the accepting thread or of the pool. What is read is what comes in, and
  `server_socket_execute_request_job` returns behind the answer -/
  | socket {s : WholeState ι σ n} {socket : SocketState ι σ n} (step : SocketStep fd s.socket socket)
      (reads : ∀ c buffer, s.socket.clients c ≠ .dispatching buffer →
        socket.clients c = .dispatching buffer → buffer = (incoming c).rawRequest)
      (answers : ∀ c, socket.pool.log.count (.executed c) ≠ s.socket.pool.log.count (.executed c) →
        s.Answered incoming c) :
      WholeStep fd incoming s { s with socket := socket }
  /-- a step of `request_handler_handle` in a worker -/
  | handle {s : WholeState ι σ n} {w : Fin n} {job : Job ι} {data : ServerJobData} {raw : Bytes}
      {request : HttpRequest} (executing : s.socket.pool.workers w = .executing (some job))
      (jobData : s.socket.jobData job.data = some data) (rawRequest : data.rawRequest = some raw)
      (parses : RequestJob.parse ⟨raw, none, (incoming job.data).bodyAllocated, false⟩ = .ok request)
      (spurious : Bool) :
      WholeStep fd incoming s
        { s with handling := s.handling.step (fun _ => request) job.data spurious }

/-- A run, with the states it has passed, the last one first. -/
inductive WholeRun (fd : ι → Int) (incoming : ι → Incoming) (start : WholeState ι σ n) :
    List (WholeState ι σ n) → WholeState ι σ n → Prop
  | start : WholeRun fd incoming start [] start
  | next {past : List (WholeState ι σ n)} {s s' : WholeState ι σ n}
      (run : WholeRun fd incoming start past s) (step : WholeStep fd incoming s s') :
      WholeRun fd incoming start (s :: past) s'

end

/-! ## Frame lemmas -/

section

variable [DecidableEq ι]

theorem SocketStep.jobData_cases [DecidableEq σ] {fd : ι → Int} {s s' : SocketState ι σ n}
    (h : SocketStep fd s s') :
    s'.jobData = s.jobData ∨ ∃ c buffer, s.clients c = .dispatching buffer ∧
      s'.jobData = Function.update s.jobData c (some ⟨fd c, some buffer, true⟩) := by
  cases h with
  | @createJob c buffer hdispatching => exact .inr ⟨c, buffer, hdispatching, rfl⟩
  | _ => exact .inl rfl

theorem SocketStep.pool_cases [DecidableEq σ] {fd : ι → Int} {s s' : SocketState ι σ n}
    (h : SocketStep fd s s') : s'.pool = s.pool ∨ PoolStep serverCallbacks s.pool s'.pool := by
  cases h with
  | pool step => exact .inr step
  | _ => exact .inl rfl

/-- A job that was accepted stays accepted. -/
theorem PoolStep.accepted [DecidableEq σ] {callbacks : Callbacks ι} {s s' : PoolState ι σ n}
    (h : PoolStep callbacks s s') {c : ι} (haccepted : (s.submits c).accepted = true) :
    (s'.submits c).accepted = true := by
  have hmoved {c' : ι} {pc : SubmitPc} (hbefore : (s.submits c').accepted = false) :
      (Function.update s.submits c' pc c).accepted = true := by
    have hne : c ≠ c' := by
      rintro rfl
      rw [haccepted] at hbefore
      cases hbefore
    rwa [Function.update_of_ne hne]
  cases h with
  | submit hcalled => exact hmoved (by rw [hcalled]; rfl)
  | check hchecking => exact hmoved (by rw [hchecking]; rfl)
  | push hpushing => exact hmoved (by rw [hpushing]; rfl)
  | fail hfailing => exact hmoved (by rw [hfailing]; rfl)
  | _ => exact haccepted

namespace ServerState

variable {requests : ι → HttpRequest} {s : ServerState ι} {i j : ι}

theorem step_congr {requests' : ι → HttpRequest} (h : requests i = requests' i) (spurious : Bool) :
    s.step requests i spurious = s.step requests' i spurious := by
  unfold ServerState.step
  rw [h]

/-- A step of one worker leaves the others where they are. -/
theorem step_other (hj : j ≠ i) (spurious : Bool) :
    (s.step requests i spurious).response j = s.response j ∧
    (s.step requests i spurious).guard.pc j = s.guard.pc j := by
  have hwork : (s.workStep i spurious).response j = s.response j ∧
      (s.workStep i spurious).guard.pc j = s.guard.pc j := by
    unfold workStep
    split
    · exact ⟨rfl, rfl⟩
    · exact ⟨Function.update_of_ne hj _ _, step_pc_of_ne hj _⟩
  unfold step
  split
  · split
    · exact ⟨rfl, rfl⟩
    · split
      · exact ⟨Function.update_of_ne hj _ _, rfl⟩
      · exact ⟨rfl, step_pc_of_ne hj _⟩
  · exact hwork
  · exact hwork
  · exact ⟨rfl, step_pc_of_ne hj _⟩

/-- An answer is not taken back. -/
theorem step_answered (spurious : Bool) (h : (s.response j).isSome = true) :
    ((s.step requests i spurious).response j).isSome = true := by
  have hupdate (response : Option HttpResponse) :
      (Function.update s.response i (some response) j).isSome = true := by
    by_cases hj : j = i
    · subst hj
      rw [Function.update_self]
      rfl
    · rwa [Function.update_of_ne hj]
  have hwork : ((s.workStep i spurious).response j).isSome = true := by
    unfold workStep
    split
    · exact h
    · exact hupdate _
  unfold step
  split
  · split
    · exact h
    · split
      · exact hupdate _
      · exact h
  · exact hwork
  · exact hwork
  · exact h

end ServerState

end

/-! ## Handling and the pool -/

/-- A request is handled only for an accepted job, and the job is left behind the answer. -/
structure WholeState.Coupled [DecidableEq ι] (incoming : ι → Incoming) (s : WholeState ι σ n) :
    Prop where
  dispatching : ∀ c buffer, s.socket.clients c = .dispatching buffer →
    buffer = (incoming c).rawRequest
  jobData : ∀ c data, s.socket.jobData c = some data →
    data.rawRequest = some (incoming c).rawRequest
  started : ∀ c, (s.handling.response c).isSome = true ∨ s.handling.guard.pc c ≠ .outside →
    (∃ request, (incoming c).parse = .ok request) ∧ (s.socket.pool.submits c).accepted = true
  executed : ∀ c, .executed c ∈ s.socket.pool.log → s.Answered incoming c

namespace WholeState.Coupled

variable [DecidableEq ι] {incoming : ι → Incoming} {s : WholeState ι σ n}

theorem initial (scratch : ι → List BPTree) (db : Db) (pool : ThreadPool ι) :
    (WholeState.initial incoming scratch db pool : WholeState ι σ pool.workerCount).Coupled
      incoming where
  dispatching c buffer h := by cases h
  jobData c data h := by cases h
  started c h := by
    rcases h with hsome | hpc
    · cases hsome
    · exact absurd rfl hpc
  executed c h := by cases h

theorem socketStep [DecidableEq σ] (h : s.Coupled incoming) {fd : ι → Int}
    {socket : SocketState ι σ n} (hstep : SocketStep fd s.socket socket)
    (hreads : ∀ c buffer, s.socket.clients c ≠ .dispatching buffer →
      socket.clients c = .dispatching buffer → buffer = (incoming c).rawRequest)
    (hanswers : ∀ c, socket.pool.log.count (.executed c) ≠ s.socket.pool.log.count (.executed c) →
      s.Answered incoming c) :
    WholeState.Coupled incoming { s with socket := socket } := by
  refine ⟨?_, ?_, ?_, ?_⟩
  · intro c buffer hnow
    by_cases hbefore : s.socket.clients c = .dispatching buffer
    · exact h.dispatching c buffer hbefore
    · exact hreads c buffer hbefore hnow
  · intro c data hdata
    change socket.jobData c = some data at hdata
    rcases hstep.jobData_cases with hsame | ⟨c', buffer, hdispatching, hcreated⟩
    · rw [hsame] at hdata
      exact h.jobData c data hdata
    · rw [hcreated] at hdata
      by_cases hc : c = c'
      · subst hc
        rw [Function.update_self] at hdata
        cases hdata
        rw [h.dispatching c buffer hdispatching]
      · rw [Function.update_of_ne hc] at hdata
        exact h.jobData c data hdata
  · intro c hstarted
    obtain ⟨hparses, haccepted⟩ := h.started c hstarted
    refine ⟨hparses, ?_⟩
    change (socket.pool.submits c).accepted = true
    rcases hstep.pool_cases with hsame | hpool
    · rwa [hsame]
    · exact hpool.accepted haccepted
  · intro c hmem
    change .executed c ∈ socket.pool.log at hmem
    by_cases hcount : socket.pool.log.count (.executed c) = s.socket.pool.log.count (.executed c)
    · apply h.executed c
      have hpos := List.count_pos_iff.mpr hmem
      rw [hcount] at hpos
      exact List.count_pos_iff.mp hpos
    · exact hanswers c hcount

/-- What a worker handles is the request of an accepted job. -/
theorem request_eq (h : s.Coupled incoming) {c : ι} {data : ServerJobData} {raw : Bytes}
    {request : HttpRequest} (hdata : s.socket.jobData c = some data)
    (hraw : data.rawRequest = some raw)
    (hparses : RequestJob.parse ⟨raw, none, (incoming c).bodyAllocated, false⟩ = .ok request) :
    (incoming c).parse = .ok request ∧ (incoming c).request = request := by
  have hsame : raw = (incoming c).rawRequest := by
    have hboth := hraw.symm.trans (h.jobData c data hdata)
    exact Option.some.inj hboth
  subst hsame
  have hparse : (incoming c).parse = .ok request := hparses
  refine ⟨hparse, ?_⟩
  rw [Incoming.request, hparse]
  rfl

theorem handle (h : s.Coupled incoming) (hpool : s.socket.pool.Invariant serverCallbacks) {w : Fin n}
    {job : Job ι} (hw : s.socket.pool.workers w = .executing (some job)) {request : HttpRequest}
    (hparses : (incoming job.data).parse = .ok request) (requests : ι → HttpRequest)
    (spurious : Bool) :
    WholeState.Coupled incoming
      { s with handling := s.handling.step requests job.data spurious } := by
  refine ⟨h.dispatching, h.jobData, ?_, ?_⟩
  · intro c hstarted
    by_cases hc : c = job.data
    · subst hc
      refine ⟨⟨request, hparses⟩, ?_⟩
      have hexecuted := hpool.ledger.executed job.data
      have hcount : 0 < Threads.count (WorkerPc.executes job.data) s.socket.pool.workers :=
        Threads.count_pos (i := w) (by simp [hw, WorkerPc.executes, holds])
      cases haccepted : (s.socket.pool.submits job.data).accepted with
      | true => rfl
      | false =>
        rw [haccepted] at hexecuted
        simp only [Bool.toNat_false] at hexecuted
        omega
    · apply h.started c
      have hother : (s.handling.step requests job.data spurious).response c = s.handling.response c ∧
          (s.handling.step requests job.data spurious).guard.pc c = s.handling.guard.pc c :=
        ServerState.step_other hc spurious
      rwa [← hother.1, ← hother.2]
  · intro c hmem
    rcases h.executed c hmem with herror | hsome
    · exact .inl herror
    · exact .inr (ServerState.step_answered spurious hsome)

end WholeState.Coupled

/-! ## Going on with a run -/

section

variable [DecidableEq ι] [DecidableEq σ] {fd : ι → Int} {incoming : ι → Incoming}
  {start s : WholeState ι σ n} {past : List (WholeState ι σ n)}

/-- A step of `server_socket_handle_client`. -/
theorem WholeRun.client (h : WholeRun fd incoming start past s) {socket : SocketState ι σ n} {c : ι}
    {pc : ClientPc} (step : SocketStep fd s.socket socket)
    (moved : socket.clients = Function.update s.socket.clients c pc)
    (reads : ∀ buffer, pc = .dispatching buffer → buffer = (incoming c).rawRequest)
    (pool : socket.pool = s.socket.pool) :
    WholeRun fd incoming start (s :: past) { s with socket := socket } := by
  refine .next h (.socket step ?_ fun d hcount => absurd (by rw [pool]) hcount)
  intro d buffer hbefore hnow
  rw [moved] at hnow
  by_cases hd : d = c
  · subst hd
    rw [Function.update_self] at hnow
    exact reads buffer hnow
  · rw [Function.update_of_ne hd] at hnow
    exact absurd hnow hbefore

/-- A step of the pool. -/
theorem WholeRun.pool (h : WholeRun fd incoming start past s) {next : PoolState ι σ n}
    (step : PoolStep serverCallbacks s.socket.pool next) (later : List (PoolEvent ι))
    (logged : next.log = s.socket.pool.log ++ later)
    (submits : ∀ c, next.submits c = s.socket.pool.submits c ∨ s.socket.clients c = .submitting)
    (destroys : next.destroy = .notCalled ∨ ∀ c, s.socket.clients c = .returned)
    (answers : ∀ c, .executed c ∈ later → s.Answered incoming c) :
    WholeRun fd incoming start (s :: past) { s with socket :=
      { s.socket with pool := next, log := s.socket.log ++ later.flatMap s.socket.actions } } := by
  refine .next h (.socket (.pool step logged ?_ ?_) (fun c buffer hbefore hnow => absurd hnow hbefore) ?_)
  · intro c hnot hcalled
    rcases submits c with hsame | hsubmitting
    · exact absurd (hsame.trans hnot) hcalled
    · exact hsubmitting
  · intro _ hcalled c
    exact .inr (destroys.resolve_left hcalled c)
  · intro c hcount
    apply answers c
    apply List.count_pos_iff.mp
    change next.log.count _ ≠ _ at hcount
    rw [logged, List.count_append] at hcount
    omega

end

/-! ## Runs -/

section

variable [DecidableEq ι] [Fintype ι]

/-- The parts of the system, each with its own invariant. -/
structure WholeState.Invariant (fd : ι → Int) (incoming : ι → Incoming) (scratch : ι → List BPTree)
    (s : WholeState ι σ n) : Prop where
  socket : s.socket.Invariant fd
  handling : s.handling.Consistent (fun c => (incoming c).request) scratch
  coupled : s.Coupled incoming

variable {fd : ι → Int} {incoming : ι → Incoming} {scratch : ι → List BPTree} {s s' : WholeState ι σ n}

/-- A step of the whole server is a step of the sections, or none that they see. -/
theorem WholeState.Invariant.step [DecidableEq σ] (h : s.Invariant fd incoming scratch)
    (hfd : ∀ c, 0 ≤ fd c) (hworkers : 0 < n) (hstep : WholeStep fd incoming s s') :
    s'.Invariant fd incoming scratch ∧
    (s'.handling.sections = s.handling.sections ∨
      Sections.Step (task (fun c => (incoming c).request) scratch) s.handling.sections
        s'.handling.sections) := by
  cases hstep with
  | socket hsocket hreads hanswers =>
    exact ⟨⟨h.socket.step hfd hworkers hsocket, h.handling,
      h.coupled.socketStep hsocket hreads hanswers⟩, .inl rfl⟩
  | @handle w job data raw request hw hdata hraw hparses spurious =>
    obtain ⟨hparse, hrequest⟩ := h.coupled.request_eq hdata hraw hparses
    have hcongr : s.handling.step (fun _ => request) job.data spurious =
        s.handling.step (fun c => (incoming c).request) job.data spurious :=
      ServerState.step_congr hrequest.symm spurious
    rw [hcongr]
    obtain ⟨hconsistent, hsections⟩ := h.handling.step job.data spurious
    exact ⟨⟨h.socket, hconsistent, h.coupled.handle h.socket.pool hw hparse _ spurious⟩, hsections⟩

/-- Along a run the serial order of the requests that have started only grows. -/
theorem WholeRun.serialized [DecidableEq σ] {start : WholeState ι σ n} {db : Db} {I : Db → Prop}
    (hstart : start.Invariant fd incoming scratch)
    (hsections : start.handling.sections = ⟨db, fun _ => .waiting⟩) (hI : I db)
    (hsafe : ∀ c, (task (fun c => (incoming c).request) scratch c).Safe I)
    (hfd : ∀ c, 0 ≤ fd c) (hworkers : 0 < n) {past : List (WholeState ι σ n)}
    (hrun : WholeRun fd incoming start past s) :
    s.Invariant fd incoming scratch ∧ ∃ order,
      Sections.Serialized (task (fun c => (incoming c).request) scratch) I db s.handling.sections order ∧
      ∀ earlier ∈ past, earlier.Invariant fd incoming scratch ∧ ∃ order', order' <+: order ∧
        Sections.Serialized (task (fun c => (incoming c).request) scratch) I db
          earlier.handling.sections order' := by
  induction hrun with
  | start =>
    refine ⟨hstart, [], ?_, nofun⟩
    rw [hsections]
    exact Sections.serialized_initial hI
  | @next past s s' _ hstep ih =>
    obtain ⟨hinvariant, order, horder, hpast⟩ := ih
    obtain ⟨hnext, hsame | hmoved⟩ := hinvariant.step hfd hworkers hstep
    · refine ⟨hnext, order, by rwa [hsame], ?_⟩
      intro earlier hmem
      rcases List.mem_cons.mp hmem with rfl | hmem
      · exact ⟨hinvariant, order, List.prefix_refl _, horder⟩
      · exact hpast earlier hmem
    · obtain ⟨order', hgrows, horder'⟩ := horder.step hsafe hmoved
      refine ⟨hnext, order', horder', ?_⟩
      intro earlier hmem
      rcases List.mem_cons.mp hmem with rfl | hmem
      · exact ⟨hinvariant, order, hgrows, horder⟩
      · obtain ⟨hearlier, before, hprefixes, hbefore⟩ := hpast earlier hmem
        exact ⟨hearlier, before, hprefixes.trans hgrows, hbefore⟩

namespace WholeState.Invariant

end WholeState.Invariant

end

end MiniSql.Server
