import MiniSql.Server.JobLedger

/-!
# Every job runs exactly once

The workers exit only when the queue is closed and empty, and a call of
`thread_pool_stop` returns only when they have exited. So `thread_pool_destroy`
finds no job left, and the ledger says that each one has been executed and
cleaned up, or refused and cleaned up.
-/

namespace MiniSql.Server

variable {ι σ : Type} {n : Nat}

/-! ## Stopping -/

theorem closeSection_valid {queue : JobQueue ι} (h : queue.Valid) : (closeSection queue).Valid :=
  ⟨h.positive, h.slots, h.head_lt, h.count_le, h.tail_eq⟩

/-- What a call of `thread_pool_stop` has joined. -/
def StopPc.Joined (workers : Fin n → WorkerPc ι) : StopPc → Prop
  | .joining index => ∀ w, w.val < index → workers w = .exited
  | .returned => ∀ w, workers w = .exited
  | .notCalled | .closing | .checking => True

def DestroyPc.Joined (workers : Fin n → WorkerPc ι) : DestroyPc → Prop
  | .stopping stop => stop.Joined workers
  | .cleaning | .returned => ∀ w, workers w = .exited
  | .notCalled => True

theorem StopPc.Joined.mono {workers workers' : Fin n → WorkerPc ι} {pc : StopPc}
    (h : pc.Joined workers) (hkeeps : ∀ w, workers w = .exited → workers' w = .exited) :
    pc.Joined workers' := by
  cases pc with
  | joining index => exact fun w hw => hkeeps w (h w hw)
  | returned => exact fun w => hkeeps w (h w)
  | _ => trivial

theorem DestroyPc.Joined.mono {workers workers' : Fin n → WorkerPc ι} {pc : DestroyPc}
    (h : pc.Joined workers) (hkeeps : ∀ w, workers w = .exited → workers' w = .exited) :
    pc.Joined workers' := by
  cases pc with
  | stopping stop => exact StopPc.Joined.mono h hkeeps
  | cleaning => exact fun w => hkeeps w (h w)
  | returned => exact fun w => hkeeps w (h w)
  | notCalled => trivial

/-- The workers exit at a closed and empty queue, and the pool counts as stopped
only when they have. -/
structure PoolState.Shutdown (s : PoolState ι σ n) : Prop where
  valid : s.queue.Valid
  drained : ∀ w, s.workers w = .exited → s.queue.closed = true ∧ s.queue.contents = []
  stopped : s.started = false → ∀ w, s.workers w = .exited
  stops : ∀ k, (s.stops k).Joined s.workers
  destroy : s.destroy.Joined s.workers

namespace PoolState.Shutdown

variable {s : PoolState ι σ n}

/-- A worker that has not exited may change its state. -/
theorem keeps {w : Fin n} (hw : s.workers w ≠ .exited) (pc : WorkerPc ι) (w' : Fin n)
    (hexited : s.workers w' = .exited) : Function.update s.workers w pc w' = .exited := by
  rwa [Function.update_of_ne]
  rintro rfl
  exact hw hexited

theorem exited_of_update {w : Fin n} {pc : WorkerPc ι} (hpc : pc ≠ .exited) {w' : Fin n}
    (hexited : Function.update s.workers w pc w' = .exited) : s.workers w' = .exited := by
  by_cases hw : w' = w
  · subst hw
    exact absurd ((Function.update_self _ _ _).symm.trans hexited) hpc
  · rwa [Function.update_of_ne hw] at hexited

/-- A step of a call of `thread_pool_submit` or of a worker. -/
theorem work (h : s.Shutdown) {queue : JobQueue ι} (hvalid : queue.Valid)
    {workers : Fin n → WorkerPc ι} (hkeeps : ∀ w, s.workers w = .exited → workers w = .exited)
    (hdrained : ∀ w, workers w = .exited → queue.closed = true ∧ queue.contents = [])
    (submits : ι → SubmitPc) (log : List (PoolEvent ι)) :
    (⟨queue, s.started, submits, workers, s.stops, s.destroy, log⟩ :
      PoolState ι σ n).Shutdown where
  valid := hvalid
  drained := hdrained
  stopped := fun hstarted w => hkeeps w (h.stopped hstarted w)
  stops := fun k => (h.stops k).mono hkeeps
  destroy := h.destroy.mono hkeeps

/-- A step of `thread_pool_stop`. -/
theorem stop (h : s.Shutdown) {pc pc' : StopPc} (hjoined : pc.Joined s.workers)
    {queue : JobQueue ι} {started : Bool}
    (hstep : StopStep s.workers (s.queue, s.started, pc) (queue, started, pc')) :
    pc'.Joined s.workers ∧ queue.contents = s.queue.contents ∧
    (⟨queue, started, s.submits, s.workers, s.stops, s.destroy, s.log⟩ :
      PoolState ι σ n).Shutdown := by
  generalize hfrom : (s.queue, s.started, pc) = before at hstep
  generalize hback : (queue, started, pc') = after at hstep
  cases hstep with
  | close =>
    cases hfrom
    cases hback
    exact ⟨trivial, rfl, closeSection_valid h.valid, fun w hw => ⟨rfl, (h.drained w hw).2⟩,
      h.stopped, h.stops, h.destroy⟩
  | notStarted =>
    simp only [Prod.mk.injEq] at hfrom hback
    obtain ⟨rfl, hstarted, rfl⟩ := hfrom
    obtain ⟨rfl, rfl, rfl⟩ := hback
    exact ⟨h.stopped hstarted, rfl, h.valid, h.drained, fun _ => h.stopped hstarted, h.stops, h.destroy⟩
  | started =>
    simp only [Prod.mk.injEq] at hfrom hback
    obtain ⟨rfl, hstarted, rfl⟩ := hfrom
    obtain ⟨rfl, rfl, rfl⟩ := hback
    exact ⟨fun w hw => absurd hw (Nat.not_lt_zero _), rfl, h.valid, h.drained, nofun, h.stops,
      h.destroy⟩
  | @join _ _ index exited =>
    cases hfrom
    cases hback
    refine ⟨fun w hw => ?_, rfl, h⟩
    rcases Nat.lt_succ_iff_lt_or_eq.mp hw with hlt | heq
    · exact hjoined w hlt
    · rw [Fin.ext heq]
      exact exited
  | clear =>
    simp only [Prod.mk.injEq] at hfrom hback
    obtain ⟨rfl, -, rfl⟩ := hfrom
    obtain ⟨rfl, rfl, rfl⟩ := hback
    have hall (w : Fin n) : s.workers w = .exited := hjoined w w.isLt
    exact ⟨hall, rfl, h.valid, h.drained, fun _ => hall, h.stops, h.destroy⟩

theorem set_stop [DecidableEq σ] (h : s.Shutdown) {k : σ} {pc : StopPc}
    (hjoined : pc.Joined s.workers) :
    PoolState.Shutdown { s with stops := Function.update s.stops k pc } := by
  refine ⟨h.valid, h.drained, h.stopped, fun k' => ?_, h.destroy⟩
  by_cases hk : k' = k
  · subst hk
    change (Function.update s.stops k' pc k').Joined s.workers
    rwa [Function.update_self]
  · change (Function.update s.stops k pc k').Joined s.workers
    rw [Function.update_of_ne hk]
    exact h.stops k'

end PoolState.Shutdown

/-! ## Runs -/

structure PoolState.Invariant [DecidableEq ι] (callbacks : Callbacks ι) (s : PoolState ι σ n) :
    Prop where
  ledger : Ledger callbacks s.queue.contents s.workers s.submits s.log
  shutdown : s.Shutdown
  checked : ∀ c, s.submits c = .pushing → callbacks.execute c = true
  submitted : s.destroy ≠ .notCalled →
    ∀ c, s.submits c = .notCalled ∨ ∃ result, s.submits c = .returned result

namespace PoolState.Invariant

variable [DecidableEq ι] {callbacks : Callbacks ι} {s : PoolState ι σ n}

/-- Nothing but the state of one call changes. -/
theorem submit_only (h : s.Invariant callbacks) {c : ι} {pc : SubmitPc}
    (hold : ∀ result, s.submits c ≠ .returned result) (hnew : ∀ result, pc ≠ .returned result)
    (hchecked : pc = .pushing → callbacks.execute c = true)
    (halive : s.submits c = .notCalled → s.destroy = .notCalled) :
    PoolState.Invariant callbacks { s with submits := Function.update s.submits c pc } := by
  have haccepted {pc : SubmitPc} (hpc : ∀ result, pc ≠ .returned result) :
      pc.accepted = false ∧ pc.refused = false := by
    cases pc with
    | returned result => exact absurd rfl (hpc result)
    | _ => exact ⟨rfl, rfl⟩
  constructor
  · exact h.ledger.proceed ((haccepted hold).1.trans (haccepted hnew).1.symm)
      ((haccepted hold).2.trans (haccepted hnew).2.symm)
  · exact h.shutdown.work h.shutdown.valid (fun _ hw => hw) h.shutdown.drained _ _
  · intro c' hc'
    by_cases hc : c' = c
    · subst hc
      exact hchecked ((Function.update_self _ _ _).symm.trans hc')
    · exact h.checked c' ((Function.update_of_ne hc _ _).symm.trans hc')
  · intro hdestroy
    rcases h.submitted hdestroy c with hcalled | ⟨result, hresult⟩
    · exact absurd (halive hcalled) hdestroy
    · exact absurd hresult (hold result)

/-- A call that is on its way keeps `thread_pool_destroy` from being called. -/
theorem alive (h : s.Invariant callbacks) {c : ι} (hcalled : s.submits c ≠ .notCalled)
    (hactive : ∀ result, s.submits c ≠ .returned result) : s.destroy = .notCalled := by
  by_contra hdestroy
  rcases h.submitted hdestroy c with hc | ⟨result, hc⟩
  · exact hcalled hc
  · exact hactive result hc

theorem check (h : s.Invariant callbacks) {c : ι} (hchecking : s.submits c = .checking) :
    PoolState.Invariant callbacks
      { s with
        submits := Function.update s.submits c (submitChecks s.started (callbacks.job c)) } := by
  have hold (result : Except SqlError Unit) : s.submits c ≠ .returned result := by simp [hchecking]
  refine h.submit_only hold ?_ ?_ fun hcalled => by simp [hchecking] at hcalled
  · intro result
    unfold submitChecks
    split
    · simp
    · split <;> simp
  · intro hpushing
    unfold submitChecks at hpushing
    split at hpushing
    · cases hpushing
    · split at hpushing
      · cases hpushing
      · rename_i hexecute
        simpa [Callbacks.job] using hexecute

theorem push (h : s.Invariant callbacks) {c : ι} (hpushing : s.submits c = .pushing)
    {queue : JobQueue ι} {result : Except SqlError Unit}
    (hreturns : pushSection s.queue (callbacks.job c) = .returns queue result) :
    PoolState.Invariant callbacks
      { s with queue := queue, submits := Function.update s.submits c (.pushed result) } := by
  have hold (result : Except SqlError Unit) : s.submits c ≠ .returned result := by simp [hpushing]
  rcases pushSection_returns h.shutdown.valid hreturns with ⟨rfl, -, rfl⟩ |
    ⟨rfl, hopen, -, hvalid, -, -, hcontents⟩
  · exact h.submit_only hold nofun nofun fun hcalled => by simp [hpushing] at hcalled
  · constructor
    · change Ledger callbacks queue.contents _ _ _
      rw [hcontents]
      exact h.ledger.push hpushing (h.checked c hpushing)
    · refine h.shutdown.work hvalid (fun _ hw => hw) (fun w hw => ?_) _ _
      -- Nobody has exited yet: the queue is open.
      rw [(h.shutdown.drained w hw).1] at hopen
      cases hopen
    · intro c' hc'
      by_cases hc : c' = c
      · subst hc
        exact h.checked c' hpushing
      · exact h.checked c' ((Function.update_of_ne hc _ _).symm.trans hc')
    · intro hdestroy
      exact absurd (h.alive (by simp [hpushing]) hold) hdestroy

theorem fail (h : s.Invariant callbacks) {c : ι} {error : SqlError}
    (hfailing : s.submits c = .failing error) :
    PoolState.Invariant callbacks
      { s with
        submits := Function.update s.submits c (.returned (.error error))
        log := s.log ++ cleanupJob (callbacks.job c) } := by
  constructor
  · exact h.ledger.fail hfailing
  · exact h.shutdown.work h.shutdown.valid (fun _ hw => hw) h.shutdown.drained _ _
  · intro c' hc'
    by_cases hc : c' = c
    · subst hc
      have hreturned := (Function.update_self _ _ _).symm.trans hc'
      cases hreturned
    · exact h.checked c' ((Function.update_of_ne hc _ _).symm.trans hc')
  · intro hdestroy
    have hactive (result : Except SqlError Unit) : s.submits c ≠ .returned result := by
      simp [hfailing]
    exact absurd (h.alive (by simp [hfailing]) hactive) hdestroy

theorem pop (h : s.Invariant callbacks) {w : Fin n} (hpopping : s.workers w = .popping)
    {queue : JobQueue ι} {result : Option (Option (Job ι))}
    (hreturns : popSection s.queue = .returns queue result) :
    PoolState.Invariant callbacks
      { s with queue := queue, workers := Function.update s.workers w (.popped result) } := by
  have hw : s.workers w ≠ .exited := by simp [hpopping]
  rcases popSection_returns h.shutdown.valid hreturns with ⟨rfl, hclosed, hempty, rfl⟩ |
    ⟨slot, rfl, hclosed, hvalid, -, -, hcontents⟩
  · exact ⟨h.ledger.exit hpopping,
      h.shutdown.work h.shutdown.valid (Shutdown.keeps hw _) (fun _ _ => ⟨hclosed, hempty⟩) _ _,
      h.checked, h.submitted⟩
  · refine ⟨?_, h.shutdown.work hvalid (Shutdown.keeps hw _) (fun w' hw' => ?_) _ _, h.checked, h.submitted⟩
    · have hledger := h.ledger
      rw [hcontents] at hledger
      exact hledger.pop hpopping
    · -- A worker exits only at an empty queue.
      have hempty := (h.shutdown.drained w' (Shutdown.exited_of_update (by simp [WorkerPc.popped]) hw')).2
      rw [hcontents] at hempty
      cases hempty

theorem execute (h : s.Invariant callbacks) {w : Fin n} {job : Job ι}
    (hexecuting : s.workers w = .executing (some job)) :
    PoolState.Invariant callbacks
      { s with
        workers := Function.update s.workers w (.executed job)
        log := s.log ++ [.executed job.data] } := by
  have hpc : WorkerPc.executed job ≠ .exited := by
    unfold WorkerPc.executed
    split <;> simp
  exact ⟨h.ledger.execute hexecuting,
    h.shutdown.work h.shutdown.valid (Shutdown.keeps (by simp [hexecuting]) _)
      (fun w' hw' => h.shutdown.drained w' (Shutdown.exited_of_update hpc hw')) _ _,
    h.checked, h.submitted⟩

theorem clean (h : s.Invariant callbacks) {w : Fin n} {job : Job ι}
    (hcleaning : s.workers w = .cleaning job) :
    PoolState.Invariant callbacks
      { s with
        workers := Function.update s.workers w .popping
        log := s.log ++ [.cleaned job.data] } :=
  ⟨h.ledger.clean hcleaning,
    h.shutdown.work h.shutdown.valid (Shutdown.keeps (by simp [hcleaning]) _)
      (fun w' hw' => h.shutdown.drained w' (Shutdown.exited_of_update (by simp) hw')) _ _,
    h.checked, h.submitted⟩

theorem stop [DecidableEq σ] (h : s.Invariant callbacks) {k : σ} :
    PoolState.Invariant callbacks { s with stops := Function.update s.stops k .closing } :=
  ⟨h.ledger, h.shutdown.set_stop trivial, h.checked, h.submitted⟩

theorem stopping [DecidableEq σ] (h : s.Invariant callbacks) {k : σ} {queue : JobQueue ι}
    {started : Bool} {pc : StopPc}
    (hstep : StopStep s.workers (s.queue, s.started, s.stops k) (queue, started, pc)) :
    PoolState.Invariant callbacks
      { s with queue := queue, started := started, stops := Function.update s.stops k pc } := by
  obtain ⟨hjoined, hcontents, hshutdown⟩ := h.shutdown.stop (h.shutdown.stops k) hstep
  refine ⟨?_, hshutdown.set_stop hjoined, h.checked, h.submitted⟩
  change Ledger callbacks queue.contents _ _ _
  rw [hcontents]
  exact h.ledger

theorem destroyStopping (h : s.Invariant callbacks) {pc : StopPc}
    (hstopping : s.destroy = .stopping pc) {queue : JobQueue ι} {started : Bool} {pc' : StopPc}
    (hstep : StopStep s.workers (s.queue, s.started, pc) (queue, started, pc')) :
    PoolState.Invariant callbacks
      { s with queue := queue, started := started, destroy := .stopping pc' } := by
  have hpc := h.shutdown.destroy
  rw [hstopping] at hpc
  obtain ⟨hjoined, hcontents, hshutdown⟩ := h.shutdown.stop hpc hstep
  refine ⟨?_, ⟨hshutdown.valid, hshutdown.drained, hshutdown.stopped, hshutdown.stops, hjoined⟩,
    h.checked, fun _ => h.submitted (by simp [hstopping])⟩
  change Ledger callbacks queue.contents _ _ _
  rw [hcontents]
  exact h.ledger

theorem destroyClosing (h : s.Invariant callbacks) (hstopped : s.destroy = .stopping .returned) :
    PoolState.Invariant callbacks
      { s with queue := closeSection s.queue, destroy := .cleaning } := by
  have hexited := h.shutdown.destroy
  rw [hstopped] at hexited
  exact ⟨h.ledger,
    ⟨closeSection_valid h.shutdown.valid, fun w hw => ⟨rfl, (h.shutdown.drained w hw).2⟩,
      h.shutdown.stopped, h.shutdown.stops, hexited⟩,
    h.checked, fun _ => h.submitted (by simp [hstopped])⟩

/-- There is no job left for `job_queue_destroy`. -/
theorem destroyCleaning (h : s.Invariant callbacks) (hworkers : 0 < n)
    (hcleaning : s.destroy = .cleaning) :
    PoolState.Invariant callbacks
      { s with destroy := .returned, log := s.log ++ destroySection s.queue } := by
  have hexited := h.shutdown.destroy
  rw [hcleaning] at hexited
  have hempty := (h.shutdown.drained ⟨0, hworkers⟩ (hexited _)).2
  have hcount : s.queue.count = 0 := by
    have hlength : s.queue.contents.length = s.queue.count := Ring.length_contents
    rw [← hlength, hempty]
    rfl
  have hnothing : s.log ++ destroySection s.queue = s.log := by simp [destroySection, hcount]
  rw [hnothing]
  exact ⟨h.ledger,
    ⟨h.shutdown.valid, h.shutdown.drained, h.shutdown.stopped, h.shutdown.stops, hexited⟩,
    h.checked, fun _ => h.submitted (by simp [hcleaning])⟩

theorem step [DecidableEq σ] (h : s.Invariant callbacks) (hworkers : 0 < n)
    {s' : PoolState ι σ n} (hstep : PoolStep callbacks s s') : s'.Invariant callbacks := by
  cases hstep with
  | submit hcalled halive =>
    exact h.submit_only (by simp [hcalled]) nofun nofun fun _ => halive
  | check hchecking => exact h.check hchecking
  | push hpushing hreturns => exact h.push hpushing hreturns
  | fail hfailing => exact h.fail hfailing
  | pop hpopping hreturns => exact h.pop hpopping hreturns
  | execute hexecuting _ => exact h.execute hexecuting
  | clean hcleaning => exact h.clean hcleaning
  | stop _ _ _ => exact h.stop
  | stopping hstep => exact h.stopping hstep
  | destroy _ _ hsubmitted =>
    exact ⟨h.ledger, ⟨h.shutdown.valid, h.shutdown.drained, h.shutdown.stopped, h.shutdown.stops,
      trivial⟩, h.checked, fun _ => hsubmitted⟩
  | destroyStopping hstopping hstep => exact h.destroyStopping hstopping hstep
  | destroyClosing hstopped => exact h.destroyClosing hstopped
  | destroyCleaning hcleaning => exact h.destroyCleaning hworkers hcleaning

theorem run [DecidableEq σ] (h : s.Invariant callbacks) (hworkers : 0 < n) {s' : PoolState ι σ n}
    (hrun : Relation.ReflTransGen (PoolStep callbacks) s s') : s'.Invariant callbacks := by
  induction hrun with
  | refl => exact h
  | tail _ hstep ih => exact ih.step hworkers hstep

/-- When the pool has been destroyed the ledger has no open entries. -/
theorem settled (h : s.Invariant callbacks) (hworkers : 0 < n) (hdestroy : s.destroy = .returned)
    (c : ι) :
    s.log.count (.executed c) = (s.submits c).accepted.toNat ∧
    s.log.count (.cleaned c) =
      if callbacks.cleanup c then s.log.count (.executed c) + (s.submits c).refused.toNat else 0 := by
  have hexited := h.shutdown.destroy
  rw [hdestroy] at hexited
  have hnobody (p : WorkerPc ι → Bool) (hp : p .exited = false) : Threads.count p s.workers = 0 :=
    Threads.count_eq_zero.mpr fun w => by rw [hexited w, hp]
  have hexecuted := h.ledger.executed c
  have hcleaned := h.ledger.cleaned c
  rw [(h.shutdown.drained ⟨0, hworkers⟩ (hexited _)).2, hnobody _ rfl] at hexecuted
  rw [hnobody _ rfl, Nat.zero_add] at hcleaned
  exact ⟨by simpa using hexecuted, hcleaned⟩

theorem initial {pool : ThreadPool ι} (hvalid : pool.queue.Valid)
    (hempty : pool.queue.contents = []) (hstarted : pool.started = true) :
    (PoolState.initial pool : PoolState ι σ pool.workerCount).Invariant callbacks := by
  refine ⟨?_, ⟨hvalid, nofun, ?_, fun _ => trivial, trivial⟩, nofun, fun _ _ => .inl rfl⟩
  · change Ledger callbacks pool.queue.contents _ _ _
    rw [hempty]
    exact .initial
  · intro hstopped
    rw [show pool.started = false from hstopped] at hstarted
    cases hstarted

end PoolState.Invariant

theorem threadPoolCreate_ok {workerCount queueCapacity : Int} {pool : ThreadPool ι}
    (h : threadPoolCreate workerCount queueCapacity = .ok pool) :
    0 < pool.workerCount ∧ pool.started = false ∧ pool.queue.Valid ∧ pool.queue.contents = [] := by
  unfold threadPoolCreate at h
  split at h
  · cases h
  · rename_i hworkers
    split at h
    · cases h
    · rcases hcreate : (jobQueueCreate queueCapacity : Except SqlError (JobQueue ι)) with e | queue
      · rw [hcreate] at h
        cases h
      · rw [hcreate] at h
        cases h
        obtain ⟨hvalid, -, hempty, -⟩ := jobQueueCreate_valid hcreate
        refine ⟨?_, rfl, hvalid, hempty⟩
        change 0 < workerCount.toNat
        omega

theorem threadPoolStart_ok {pool pool' : ThreadPool ι} {created : Nat → Bool}
    (hstopped : pool.started = false) (h : threadPoolStart pool created = (pool', .ok ())) :
    pool' = { pool with started := true } := by
  unfold threadPoolStart at h
  rw [if_neg (by simp [hstopped])] at h
  split at h
  · exact (Prod.mk.inj h).1.symm
  · exact absurd (Prod.mk.inj h).2 (by simp)

/-- **Every job runs exactly once.** Whatever the submitting threads, the workers
and the calls of `thread_pool_stop`, one at a time, do, no worker ever calls a null callback, and
when `thread_pool_destroy` returns every call of `thread_pool_submit` has returned;
the cleanup of its job has run exactly once if there is one; and the job has been
executed exactly once, and before the cleanup, if the call returned 1, and never
otherwise. -/
theorem thread_pool_exactly_once [DecidableEq ι] [DecidableEq σ]
    {workerCount queueCapacity : Int} {pool started : ThreadPool ι} {created : Nat → Bool}
    (hcreate : threadPoolCreate workerCount queueCapacity = .ok pool)
    (hstart : threadPoolStart pool created = (started, .ok ())) (callbacks : Callbacks ι)
    {s : PoolState ι σ started.workerCount}
    (hrun : Relation.ReflTransGen (PoolStep callbacks) (.initial started) s) :
    (∀ w slot, s.workers w = .executing slot → ∃ job, slot = some job ∧ job.execute = true) ∧
    (s.destroy = .returned → ∀ c, s.submits c ≠ .notCalled → ∃ result,
      s.submits c = .returned result ∧
      s.log.count (.cleaned c) = (if callbacks.cleanup c then 1 else 0) ∧
      s.log.count (.executed c) = (if result = .ok () then 1 else 0) ∧
      (result = .ok () → ∀ before after, s.log = before ++ .cleaned c :: after →
        .executed c ∈ before)) := by
  obtain ⟨hworkers, hstopped, hvalid, hempty⟩ := threadPoolCreate_ok hcreate
  cases threadPoolStart_ok hstopped hstart
  have hinitial : (PoolState.initial { pool with started := true } :
      PoolState ι σ pool.workerCount).Invariant callbacks := .initial hvalid hempty rfl
  have h : s.Invariant callbacks := hinitial.run hworkers hrun
  constructor
  · intro w slot hw
    have hruns := h.ledger.runs w
    rw [hw] at hruns
    obtain ⟨c, hslot, hexecute⟩ := hruns
    exact ⟨callbacks.job c, hslot, hexecute⟩
  · intro hdestroy c hcalled
    obtain ⟨hexecuted, hcleaned⟩ := h.settled hworkers hdestroy c
    rcases h.submitted (by simp [hdestroy]) c with hc | ⟨result, hc⟩
    · exact absurd hc hcalled
    · have hexecuted : s.log.count (.executed c) = if result = .ok () then 1 else 0 := by
        rw [hc] at hexecuted
        cases result <;> simpa [SubmitPc.accepted] using hexecuted
      refine ⟨result, hc, ?_, hexecuted, ?_⟩
      · rw [hexecuted, hc] at hcleaned
        rw [hcleaned]
        cases result <;> simp [SubmitPc.refused]
      · intro hok before after hlog
        rcases h.ledger.order before _ after hlog c rfl with hbefore | hrefused
        · exact hbefore
        · rw [hc, hok] at hrefused
          cases hrefused

/-- One worker runs one job and exits, and the pool is destroyed. -/
theorem thread_pool_exactly_once_one_job :
    ∃ s : PoolState (Fin 1) Empty 1, s.destroy = .returned ∧ s.log = [.executed 0, .cleaned 0] ∧
      ∃ result, s.submits 0 = .returned result ∧ s.log.count (.cleaned 0) = 1 := by
  let callbacks : Callbacks (Fin 1) := ⟨fun _ => true, fun _ => true⟩
  let pool : ThreadPool (Fin 1) := ⟨1, false, ⟨1, 0, 0, 0, false, [none]⟩⟩
  have hcreate : threadPoolCreate 1 1 = .ok pool := rfl
  have hstart : threadPoolStart pool (fun _ => true) = ({ pool with started := true }, .ok ()) := rfl
  have h0 : Relation.ReflTransGen (PoolStep callbacks) (.initial { pool with started := true })
      (.initial { pool with started := true } : PoolState (Fin 1) Empty 1) := .refl
  have h1 := h0.tail (.submit (c := 0) rfl rfl)
  have h2 := h1.tail (.check (c := 0) rfl)
  have h3 := h2.tail (.push (c := 0) rfl rfl)
  have h4 := h3.tail (.pop (w := 0) rfl rfl)
  have h5 := h4.tail (.execute (w := 0) rfl rfl)
  have h6 := h5.tail (.clean (w := 0) rfl)
  have h7 := h6.tail (.destroy rfl (fun k => k.elim) fun c => .inr ⟨.ok (), Subsingleton.elim 0 c ▸ rfl⟩)
  have h8 := h7.tail (.destroyStopping rfl .close)
  have h9 := h8.tail (.destroyStopping rfl .started)
  have h10 := h9.tail (.pop (w := 0) rfl rfl)
  have h11 := h10.tail (.destroyStopping rfl (@StopStep.join _ _ _ _ _ 0 rfl))
  have h12 := h11.tail (.destroyStopping rfl .clear)
  have h13 := h12.tail (.destroyClosing rfl)
  have h14 := h13.tail (.destroyCleaning rfl)
  have hcalled (pc : SubmitPc) (h : pc = .returned (.ok ())) : pc ≠ .notCalled := by simp [h]
  obtain ⟨result, hresult, hcleaned, -⟩ :=
    (thread_pool_exactly_once hcreate hstart callbacks h14).2 rfl 0 (hcalled _ rfl)
  exact ⟨_, rfl, rfl, result, hresult, hcleaned⟩

end MiniSql.Server
