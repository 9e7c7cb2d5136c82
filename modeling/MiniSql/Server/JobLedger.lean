import MiniSql.Lib.Threads
import MiniSql.Lib.History
import MiniSql.Server.ThreadPool

/-!
# Where the jobs of the pool are

A job that was accepted is queued, or in the hands of a worker, or has been
executed, and in one of these places only. Its cleanup belongs to the worker that
executes it; the cleanup of a job that was refused belongs to the call that
submitted it.
-/

namespace MiniSql.Server

variable {ι : Type} {n : Nat}

def SubmitPc.accepted : SubmitPc → Bool
  | .returned (.ok _) => true
  | _ => false

def SubmitPc.refused : SubmitPc → Bool
  | .returned (.error _) => true
  | _ => false

section

variable [DecidableEq ι]

/-- A slot of the queue holds the job of a call. -/
def holds (c : ι) : Option (Job ι) → Bool
  | some job => job.data = c
  | none => false

def WorkerPc.executes (c : ι) : WorkerPc ι → Bool
  | .executing slot => holds c slot
  | _ => false

def WorkerPc.cleans (c : ι) : WorkerPc ι → Bool
  | .cleaning job => job.data = c
  | _ => false

theorem WorkerPc.executes_executed (c : ι) (job : Job ι) :
    (WorkerPc.executed job).executes c = false := by
  unfold WorkerPc.executed
  split <;> rfl

theorem WorkerPc.cleans_executed (c : ι) (job : Job ι) :
    (WorkerPc.executed job).cleans c = (job.cleanup && decide (job.data = c)) := by
  unfold WorkerPc.executed
  split <;> simp [WorkerPc.cleans, *]

end

/-- A slot holds a job that passed the checks of `thread_pool_submit`. -/
def Callbacks.Checked (callbacks : Callbacks ι) (slot : Option (Job ι)) : Prop :=
  ∃ c, slot = some (callbacks.job c) ∧ callbacks.execute c = true

/-- A worker holds a job that it may run; it cleans up what was executed. -/
def WorkerPc.Runs (callbacks : Callbacks ι) (log : List (PoolEvent ι)) : WorkerPc ι → Prop
  | .executing slot => callbacks.Checked slot
  | .cleaning job =>
    ∃ c, job = callbacks.job c ∧ callbacks.cleanup c = true ∧ .executed c ∈ log
  | .popping | .exited => True

theorem WorkerPc.Runs.mono {callbacks : Callbacks ι} {log : List (PoolEvent ι)} {pc : WorkerPc ι}
    (h : pc.Runs callbacks log) (later : List (PoolEvent ι)) :
    pc.Runs callbacks (log ++ later) := by
  cases pc with
  | cleaning job =>
    obtain ⟨c, hjob, hcleanup, hexecuted⟩ := h
    exact ⟨c, hjob, hcleanup, List.mem_append_left _ hexecuted⟩
  | _ => exact h

/-- Where the jobs are. -/
structure Ledger [DecidableEq ι] (callbacks : Callbacks ι) (contents : List (Option (Job ι)))
    (workers : Fin n → WorkerPc ι) (submits : ι → SubmitPc) (log : List (PoolEvent ι)) : Prop where
  queued : ∀ slot ∈ contents, callbacks.Checked slot
  runs : ∀ w, (workers w).Runs callbacks log
  executed : ∀ c, contents.countP (holds c) + Threads.count (WorkerPc.executes c) workers +
    log.count (.executed c) = (submits c).accepted.toNat
  cleaned : ∀ c, Threads.count (WorkerPc.cleans c) workers + log.count (.cleaned c) =
    if callbacks.cleanup c then log.count (.executed c) + (submits c).refused.toNat else 0
  order : History.Each (fun before event => ∀ c, event = .cleaned c →
    .executed c ∈ before ∨ (submits c).refused = true) log

namespace Ledger

variable [DecidableEq ι] {callbacks : Callbacks ι} {contents : List (Option (Job ι))}
  {workers : Fin n → WorkerPc ι} {submits : ι → SubmitPc} {log : List (PoolEvent ι)} {c : ι}
  {w : Fin n}

theorem initial : Ledger callbacks [] (fun _ : Fin n => .popping) (fun _ => .notCalled) [] := by
  have hzero (p : WorkerPc ι → Bool) (hp : p .popping = false) :
      Threads.count p (fun _ : Fin n => .popping) = 0 :=
    Threads.count_eq_zero.mpr fun _ => hp
  refine ⟨by simp, fun _ => trivial, fun c => ?_, fun c => ?_, History.each_nil⟩
  · simp [hzero (WorkerPc.executes c) rfl, SubmitPc.accepted]
  · simp [hzero (WorkerPc.cleans c) rfl, SubmitPc.refused]

/-- A call that goes on without an answer. -/
theorem proceed (h : Ledger callbacks contents workers submits log) {pc : SubmitPc}
    (haccepted : (submits c).accepted = pc.accepted) (hrefused : (submits c).refused = pc.refused) :
    Ledger callbacks contents workers (Function.update submits c pc) log := by
  have hsame {α : Type} (f : SubmitPc → α) (hf : f (submits c) = f pc) (c' : ι) :
      f (Function.update submits c pc c') = f (submits c') := by
    by_cases hc : c' = c
    · subst hc
      rw [Function.update_self, hf]
    · rw [Function.update_of_ne hc]
  refine ⟨h.queued, h.runs, fun c' => ?_, fun c' => ?_, ?_⟩
  · rw [hsame _ haccepted]
    exact h.executed c'
  · rw [hsame _ hrefused]
    exact h.cleaned c'
  · intro before event after hlog c' hevent
    rw [hsame _ hrefused]
    exact h.order before event after hlog c' hevent

/-- A job is accepted by being queued. -/
theorem push (h : Ledger callbacks contents workers submits log)
    (hpushing : submits c = .pushing) (hexecute : callbacks.execute c = true) :
    Ledger callbacks (contents ++ [some (callbacks.job c)]) workers
      (Function.update submits c (.returned (.ok ()))) log := by
  have hrefused (c' : ι) : (Function.update submits c (.returned (.ok ())) c').refused =
      (submits c').refused := by
    by_cases hc : c' = c
    · subst hc
      rw [Function.update_self, hpushing]
      rfl
    · rw [Function.update_of_ne hc]
  refine ⟨fun slot hslot => ?_, h.runs, fun c' => ?_, fun c' => ?_, ?_⟩
  · rcases List.mem_append.mp hslot with hslot | hslot
    · exact h.queued slot hslot
    · exact ⟨c, by simpa using hslot, hexecute⟩
  · have hold := h.executed c'
    rw [List.countP_append, List.countP_singleton]
    by_cases hc : c' = c
    · subst hc
      rw [hpushing] at hold
      have hdata : holds c' (some (callbacks.job c')) = true := by simp [holds, Callbacks.job]
      rw [Function.update_self, hdata]
      simp only [SubmitPc.accepted, Bool.toNat_false, Bool.toNat_true, ↓reduceIte] at hold ⊢
      omega
    · have hdata : holds c' (some (callbacks.job c)) = false := by
        simp [holds, Callbacks.job, Ne.symm hc]
      rw [Function.update_of_ne hc, hdata]
      exact hold
  · rw [hrefused]
    exact h.cleaned c'
  · intro before event after hlog c' hevent
    rw [hrefused]
    exact h.order before event after hlog c' hevent

/-- A call that refuses a job cleans it up itself. -/
theorem fail (h : Ledger callbacks contents workers submits log) {error : SqlError}
    (hfailing : submits c = .failing error) :
    Ledger callbacks contents workers (Function.update submits c (.returned (.error error)))
      (log ++ cleanupJob (callbacks.job c)) := by
  have hexecuted (c' : ι) : (cleanupJob (callbacks.job c)).count (.executed c') = 0 := by
    unfold cleanupJob
    split <;> simp
  have hcleaned (c' : ι) : (cleanupJob (callbacks.job c)).count (.cleaned c') =
      if callbacks.cleanup c = true ∧ c = c' then 1 else 0 := by
    by_cases hcleanup : callbacks.cleanup c = true <;>
      simp [cleanupJob, Callbacks.job, hcleanup, List.count_singleton]
  have hgrows (c' : ι) (hrefused : (submits c').refused = true) :
      (Function.update submits c (.returned (.error error)) c').refused = true := by
    by_cases hc : c' = c
    · subst hc
      rw [Function.update_self]
      rfl
    · rwa [Function.update_of_ne hc]
  refine ⟨h.queued, fun w => (h.runs w).mono _, fun c' => ?_, fun c' => ?_, ?_⟩
  · have hold := h.executed c'
    rw [List.count_append, hexecuted, Nat.add_zero]
    by_cases hc : c' = c
    · subst hc
      rw [Function.update_self]
      rwa [hfailing] at hold
    · rwa [Function.update_of_ne hc]
  · have hold := h.cleaned c'
    rw [List.count_append, List.count_append, hexecuted, hcleaned, Nat.add_zero]
    by_cases hc : c' = c
    · subst hc
      rw [hfailing] at hold
      rw [Function.update_self]
      by_cases hcleanup : callbacks.cleanup c' = true
      · simp only [hcleanup, ↓reduceIte, SubmitPc.refused, Bool.toNat_false, Bool.toNat_true,
          and_self] at hold ⊢
        omega
      · rw [if_neg hcleanup] at hold ⊢
        rw [if_neg (fun hboth => hcleanup hboth.1)]
        exact hold
    · rw [Function.update_of_ne hc, if_neg (fun hboth => hc hboth.2.symm)]
      exact hold
  · have hmono : History.Each (fun before event => ∀ c', event = .cleaned c' → .executed c' ∈ before ∨
        (Function.update submits c (.returned (.error error)) c').refused = true) log := by
      intro before event after hlog c' hevent
      exact (h.order before event after hlog c' hevent).imp_right (hgrows c')
    unfold cleanupJob
    split
    · refine hmono.concat fun c' hevent => .inr ?_
      cases hevent
      change (Function.update submits c _ c).refused = true
      rw [Function.update_self]
      rfl
    · rwa [List.append_nil]

/-- A worker that takes jobs from the queue, holds another job than before or logs
something, if the numbers agree. -/
theorem work (taken : List (Option (Job ι)))
    (h : Ledger callbacks (taken ++ contents) workers submits log) (pc : WorkerPc ι)
    (later : List (PoolEvent ι)) (hruns : pc.Runs callbacks (log ++ later))
    (hexecuted : ∀ c, (pc.executes c).toNat + later.count (.executed c) =
      ((workers w).executes c).toNat + taken.countP (holds c))
    (hcleaned : ∀ c, (pc.cleans c).toNat + later.count (.cleaned c) =
      ((workers w).cleans c).toNat + if callbacks.cleanup c then later.count (.executed c) else 0)
    (horder : History.Each (fun before event => ∀ c, event = .cleaned c →
      .executed c ∈ before ∨ (submits c).refused = true) (log ++ later)) :
    Ledger callbacks contents (Function.update workers w pc) submits (log ++ later) := by
  refine ⟨fun slot hslot => h.queued slot (List.mem_append_right _ hslot), fun w' => ?_,
    fun c => ?_, fun c => ?_, horder⟩
  · by_cases hw : w' = w
    · subst hw
      rwa [Function.update_self]
    · rw [Function.update_of_ne hw]
      exact (h.runs w').mono later
  · have hold := h.executed c
    have hcount := Threads.count_update (WorkerPc.executes c) workers w pc
    have hnew := hexecuted c
    rw [List.countP_append] at hold
    rw [List.count_append]
    omega
  · have hold := h.cleaned c
    have hcount := Threads.count_update (WorkerPc.cleans c) workers w pc
    have hnew := hcleaned c
    rw [List.count_append, List.count_append]
    split at hold <;> rename_i hcleanup
    · rw [if_pos hcleanup] at hnew ⊢
      omega
    · rw [if_neg hcleanup] at hnew ⊢
      omega

/-- A worker takes the first job. -/
theorem pop {slot : Option (Job ι)} (h : Ledger callbacks (slot :: contents) workers submits log)
    (hpopping : workers w = .popping) :
    Ledger callbacks contents (Function.update workers w (.executing slot)) submits log := by
  have hslot : callbacks.Checked slot := h.queued slot List.mem_cons_self
  have hwork := work [slot] (w := w) h (.executing slot) [] hslot
    (fun c => ?_) (fun c => ?_) (by simpa using h.order)
  · simpa using hwork
  · rw [hpopping]
    cases hholds : holds c slot <;> simp [WorkerPc.executes, hholds]
  · rw [hpopping]
    simp [WorkerPc.cleans]

theorem exit (h : Ledger callbacks contents workers submits log) (hpopping : workers w = .popping) :
    Ledger callbacks contents (Function.update workers w .exited) submits log := by
  have hwork := work [] (w := w) h .exited [] trivial
    (fun c => ?_) (fun c => ?_) (by simpa using h.order)
  · simpa using hwork
  · rw [hpopping]
    simp [WorkerPc.executes]
  · rw [hpopping]
    simp [WorkerPc.cleans]

/-- A worker that has executed a job owes its cleanup. -/
theorem execute (h : Ledger callbacks contents workers submits log) {job : Job ι}
    (hexecuting : workers w = .executing (some job)) :
    Ledger callbacks contents (Function.update workers w (.executed job)) submits
      (log ++ [.executed job.data]) := by
  have hruns := h.runs w
  rw [hexecuting] at hruns
  obtain ⟨c, hjob, hexecute⟩ := hruns
  cases hjob
  refine work [] h _ [.executed c] ?_ (fun c' => ?_) (fun c' => ?_) ?_
  · unfold WorkerPc.executed
    split
    · rename_i hcleanup
      exact ⟨c, rfl, hcleanup, by simp⟩
    · trivial
  · rw [hexecuting, WorkerPc.executes_executed]
    by_cases hc : c = c' <;> simp [WorkerPc.executes, Callbacks.job, holds, hc]
  · rw [hexecuting, WorkerPc.cleans_executed]
    by_cases hc : c = c'
    · subst hc
      cases hcleanup : callbacks.cleanup c <;> simp [WorkerPc.cleans, Callbacks.job, hcleanup]
    · simp [WorkerPc.cleans, Callbacks.job, hc]
  · refine h.order.concat fun c' hevent => ?_
    cases hevent

theorem clean (h : Ledger callbacks contents workers submits log) {job : Job ι}
    (hcleaning : workers w = .cleaning job) :
    Ledger callbacks contents (Function.update workers w .popping) submits
      (log ++ [.cleaned job.data]) := by
  have hruns := h.runs w
  rw [hcleaning] at hruns
  obtain ⟨c, rfl, hcleanup, hexecuted⟩ := hruns
  refine work [] h .popping [.cleaned c] trivial (fun c' => ?_) (fun c' => ?_) ?_
  · rw [hcleaning]
    simp [WorkerPc.executes]
  · rw [hcleaning]
    by_cases hc : c = c' <;> simp [WorkerPc.cleans, Callbacks.job, hc]
  · refine h.order.concat fun c' hevent => .inl ?_
    cases hevent
    exact hexecuted

end Ledger

end MiniSql.Server
