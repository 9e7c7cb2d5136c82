import MiniSql.Server.DbGuard
import MiniSql.Server.Requests

/-!
# Concurrent workers

Any number of workers handle a request each. A step of the server is a step of
one worker: an atomic operation of the guard, or inside the section a single
access to the database. Seen without the guard, these are the interleaved
sections of `Sections`, since the guard lets nobody in beside a writer.
-/

namespace MiniSql.Server

open Storage Index Query

/-! ## The server -/

section

variable {ι : Type}

/-- The guard, the database, and for each worker what is left of its work and
the response. -/
structure ServerState (ι : Type) where
  guard : GuardState ι
  db : Db
  work : ι → Prog Db (Option HttpResponse)
  response : ι → Option (Option HttpResponse)

variable (requests : ι → HttpRequest) (scratch : ι → List BPTree)

def ServerState.initial (db : Db) : ServerState ι :=
  ⟨.initial, db, fun i => sqlWork (scratch i) (requests i).sqlText, fun _ => none⟩

variable [DecidableEq ι]

/-- A step inside a section: an access to the database, or behind the last one
the unlock and the response. -/
def ServerState.workStep (s : ServerState ι) (i : ι) (spurious : Bool) : ServerState ι :=
  match s.work i with
  | .access change next =>
    { s with db := change s.db, work := Function.update s.work i (next s.db) }
  | .ret response =>
    { s with
      guard := s.guard.step i ⟨false, spurious⟩
      response := Function.update s.response i (some response) }

/-- One step of the worker `i` in `request_handler_handle`. -/
def ServerState.step (s : ServerState ι) (i : ι) (spurious : Bool) : ServerState ι :=
  match s.guard.pc i with
  | .outside =>
    if (s.response i).isSome then s
    else
      match requestOperation (requests i) with
      | .error response => { s with response := Function.update s.response i (some (some response)) }
      | .ok operation => { s with guard := s.guard.step i ⟨operation = .write, spurious⟩ }
  | .reading | .writing => s.workStep i spurious
  | _ => { s with guard := s.guard.step i ⟨false, spurious⟩ }

/-- The workers take their steps in the order of the schedule; the flag tells
whether a compare-exchange fails spuriously. -/
def ServerState.run (s : ServerState ι) (schedule : List (ι × Bool)) : ServerState ι :=
  schedule.foldl (fun s turn => s.step requests turn.1 turn.2) s

end

/-! ## The sides of the guard -/

/-- Inside a section. -/
def Pc.inside : Pc → Bool
  | .reading | .writing => true
  | _ => false

/-- On the way through `db_guard_execute_write`. -/
def Pc.writes : Pc → Bool
  | .writeAddWaiting | .writeExchangeActive | .writeLoadReaders | .writeSubWaiting
  | .writeStoreActive | .writing => true
  | _ => false

/-- Before and between the sections a thread stays on its side. -/
theorem step_side (choice : Choice) (guard : DbGuard) {pc : Pc} (houtside : pc ≠ .outside)
    (hinside : pc.inside = false) :
    (dbGuardStep choice guard pc).2 ≠ .outside ∧
      (dbGuardStep choice guard pc).2.writes = pc.writes := by
  cases pc <;> simp only [dbGuardStep] <;> (try split) <;> simp_all [Pc.inside, Pc.writes]

theorem Pc.eq_of_inside {pc : Pc} (h : pc.inside = true) :
    pc = if pc.writes then .writing else .reading := by
  cases pc <;> first | rfl | cases h

theorem requestOperation_kind {request : HttpRequest} {operation : SqlOperationKind}
    (h : requestOperation request = .ok operation) :
    operation = if operation = .write then .write else .read := by
  cases operation with
  | unknown =>
    unfold requestOperation at h
    repeat' split at h
    all_goals
      cases h
      try contradiction
  | read => rfl
  | write => rfl

/-! ## The server as sections -/

section

variable {ι : Type} {requests : ι → HttpRequest} {scratch : ι → List BPTree}

/-- What a worker has to do, seen from outside the guard. -/
def ServerState.phase (s : ServerState ι) (i : ι) : Sections.Phase Db (Option HttpResponse) :=
  match s.response i with
  | some response => .finished response
  | none => if (s.guard.pc i).inside then .inside (s.work i) else .waiting

def ServerState.sections (s : ServerState ι) : Sections.State ι Db (Option HttpResponse) :=
  ⟨s.db, s.phase⟩

def task (requests : ι → HttpRequest) (scratch : ι → List BPTree) (i : ι) :
    Sections.Task Db (Option HttpResponse) :=
  requestTask (scratch i) (requests i)

/-- The guard is in order; a worker in the guard is on the side of its operation
and has not answered; the work begins inside. -/
structure ServerState.Consistent [Fintype ι] (requests : ι → HttpRequest)
    (scratch : ι → List BPTree) (s : ServerState ι) : Prop where
  guard : s.guard.Invariant
  side : ∀ i, s.guard.pc i ≠ .outside → s.response i = none ∧
    requestOperation (requests i) = .ok (if (s.guard.pc i).writes then .write else .read)
  fresh : ∀ i, (s.guard.pc i).inside = false → s.response i = none →
    s.work i = sqlWork (scratch i) (requests i).sqlText

theorem ServerState.phase_inside {s : ServerState ι} {i : ι} {rest : Prog Db (Option HttpResponse)} :
    s.phase i = .inside rest ↔
      s.response i = none ∧ (s.guard.pc i).inside = true ∧ s.work i = rest := by
  unfold phase
  cases s.response i with
  | some response => simp
  | none => cases (s.guard.pc i).inside <;> simp

theorem ServerState.phase_waiting {s : ServerState ι} {i : ι} :
    s.phase i = .waiting ↔ s.response i = none ∧ (s.guard.pc i).inside = false := by
  unfold phase
  cases s.response i with
  | some response => simp
  | none => cases (s.guard.pc i).inside <;> simp

/-- A step of one worker changes the phase of that worker only. -/
theorem ServerState.phase_eq_update [DecidableEq ι] {s s' : ServerState ι} {i : ι}
    (hresponse : ∀ j, j ≠ i → s'.response j = s.response j)
    (hpc : ∀ j, j ≠ i → s'.guard.pc j = s.guard.pc j) (hwork : ∀ j, j ≠ i → s'.work j = s.work j) :
    s'.phase = Function.update s.phase i (s'.phase i) := by
  funext j
  by_cases hj : j = i
  · subst hj
    rw [Function.update_self]
  · rw [Function.update_of_ne hj, ServerState.phase, ServerState.phase, hresponse j hj, hpc j hj,
      hwork j hj]

/-- Nobody sees a step of a worker that waits before and behind it. -/
theorem ServerState.sections_eq_of_waiting [DecidableEq ι] {s s' : ServerState ι} {i : ι}
    (hupdate : s'.phase = Function.update s.phase i (s'.phase i)) (hdb : s'.db = s.db)
    (hwaits : s.phase i = .waiting) (hwaits' : s'.phase i = .waiting) : s'.sections = s.sections := by
  rw [hwaits', ← hwaits, Function.update_eq_self] at hupdate
  rw [sections, sections, hdb, hupdate]

theorem step_pc_of_ne [DecidableEq ι] {s : GuardState ι} {i j : ι} (hj : j ≠ i) (choice : Choice) :
    (s.step i choice).pc j = s.pc j :=
  Function.update_of_ne hj _ _

theorem step_pc_self [DecidableEq ι] {s : GuardState ι} (i : ι) (choice : Choice) :
    (s.step i choice).pc i = (dbGuardStep choice s.guard (s.pc i)).2 :=
  Function.update_self ..

namespace ServerState.Consistent

variable [Fintype ι] {s : ServerState ι} {i : ι}

theorem side_of_inside (h : s.Consistent requests scratch) (hinside : (s.guard.pc i).inside = true) :
    s.response i = none ∧
      requestOperation (requests i) = .ok (if (s.guard.pc i).writes then .write else .read) := by
  apply h.side i
  intro houtside
  rw [houtside] at hinside
  cases hinside

theorem writing_of_isWriter (h : s.Consistent requests scratch)
    (hinside : (s.guard.pc i).inside = true) (hwriter : (task requests scratch i).isWriter = true) :
    s.guard.pc i = .writing := by
  have hpc := Pc.eq_of_inside hinside
  obtain ⟨-, hop⟩ := h.side_of_inside hinside
  cases hside : (s.guard.pc i).writes with
  | false =>
    rw [hside] at hop
    rw [task, requestTask, hop] at hwriter
    cases hwriter
  | true => rwa [hside] at hpc

variable [DecidableEq ι]

/-- A request that is refused is answered without a lock. -/
theorem refuse (h : s.Consistent requests scratch) (hpc : s.guard.pc i = .outside)
    (hnone : s.response i = none) {response : HttpResponse}
    (hop : requestOperation (requests i) = .error response) :
    let s' : ServerState ι := { s with response := Function.update s.response i (some (some response)) }
    s'.Consistent requests scratch ∧ Sections.Step (task requests scratch) s.sections s'.sections := by
  intro s'
  have hother : ∀ j, j ≠ i → s'.response j = s.response j := fun j hj => Function.update_of_ne hj _ _
  refine ⟨⟨h.guard, ?_, ?_⟩, ?_⟩
  · intro j hj
    have hji : j ≠ i := by
      rintro rfl
      exact hj hpc
    rw [hother j hji]
    exact h.side j hj
  · intro j hj hresponse
    have hji : j ≠ i := by
      rintro rfl
      simp [s'] at hresponse
    rw [hother j hji] at hresponse
    exact h.fresh j hj hresponse
  · have hphase : s'.sections = ⟨s.db, Function.update s.phase i (.finished (some response))⟩ := by
      rw [sections, phase_eq_update hother (fun _ _ => rfl) fun _ _ => rfl]
      simp [s', phase]
    rw [hphase]
    apply Sections.Step.answer
    · exact phase_waiting.mpr ⟨hnone, by rw [hpc]; rfl⟩
    · rw [task, requestTask, hop]

/-- A worker calls for its lock. -/
theorem call (h : s.Consistent requests scratch) (hpc : s.guard.pc i = .outside)
    (hnone : s.response i = none) {operation : SqlOperationKind}
    (hop : requestOperation (requests i) = .ok operation) (spurious : Bool) :
    let s' : ServerState ι := { s with guard := s.guard.step i ⟨operation = .write, spurious⟩ }
    s'.Consistent requests scratch ∧ s'.sections = s.sections := by
  intro s'
  have hpc' : s'.guard.pc i = if operation = .write then .writeAddWaiting else .readLoadActive := by
    rw [step_pc_self, hpc]
    simp [dbGuardStep]
  have hinside : (s'.guard.pc i).inside = false := by
    rw [hpc']
    split
    · rfl
    · rfl
  refine ⟨⟨h.guard.step i _, ?_, ?_⟩, ?_⟩
  · intro j hj
    by_cases hji : j = i
    · subst hji
      refine ⟨hnone, ?_⟩
      rw [hop, requestOperation_kind hop, hpc']
      by_cases hwrite : operation = .write
      · simp [hwrite, Pc.writes]
      · simp [hwrite, Pc.writes]
    · have hsame : s'.guard.pc j = s.guard.pc j := step_pc_of_ne hji _
      rw [hsame] at hj ⊢
      exact h.side j hj
  · intro j hj hresponse
    by_cases hji : j = i
    · subst hji
      exact h.fresh j (by rw [hpc]; rfl) hresponse
    · have hsame : s'.guard.pc j = s.guard.pc j := step_pc_of_ne hji _
      rw [hsame] at hj
      exact h.fresh j hj hresponse
  · have hupdate : s'.phase = Function.update s.phase i (s'.phase i) :=
      phase_eq_update (fun _ _ => rfl) (fun j hj => step_pc_of_ne hj _) fun _ _ => rfl
    apply sections_eq_of_waiting hupdate rfl
    · exact phase_waiting.mpr ⟨hnone, by rw [hpc]; rfl⟩
    · exact phase_waiting.mpr ⟨hnone, hinside⟩

/-- One access to the database from inside a section. -/
theorem access (h : s.Consistent requests scratch) (hinside : (s.guard.pc i).inside = true)
    {change : Db → Db} {next : Db → Prog Db (Option HttpResponse)}
    (hwork : s.work i = .access change next) :
    let s' : ServerState ι :=
      { s with db := change s.db, work := Function.update s.work i (next s.db) }
    s'.Consistent requests scratch ∧ Sections.Step (task requests scratch) s.sections s'.sections := by
  intro s'
  have hother : ∀ j, j ≠ i → s'.work j = s.work j := fun j hj => Function.update_of_ne hj _ _
  have hnone := (h.side_of_inside hinside).1
  refine ⟨⟨h.guard, h.side, ?_⟩, ?_⟩
  · intro j hj hresponse
    have hji : j ≠ i := by
      rintro rfl
      rw [hinside] at hj
      cases hj
    rw [hother j hji]
    exact h.fresh j hj hresponse
  · have hphase : s'.sections =
        ⟨change s.db, Function.update s.phase i (.inside (next s.db))⟩ := by
      have hupdate : s'.phase = Function.update s.phase i (s'.phase i) :=
        phase_eq_update (fun _ _ => rfl) (fun _ _ => rfl) hother
      have hnow : s'.phase i = .inside (next s.db) :=
        phase_inside.mpr ⟨hnone, hinside, Function.update_self ..⟩
      rw [sections, hupdate, hnow]
    rw [hphase]
    exact Sections.Step.access (phase_inside.mpr ⟨hnone, hinside, hwork⟩)

/-- The worker has its result, unlocks and answers. -/
theorem leave (h : s.Consistent requests scratch) (hinside : (s.guard.pc i).inside = true)
    {response : Option HttpResponse} (hwork : s.work i = .ret response) (spurious : Bool) :
    let s' : ServerState ι :=
      { s with
        guard := s.guard.step i ⟨false, spurious⟩
        response := Function.update s.response i (some response) }
    s'.Consistent requests scratch ∧ Sections.Step (task requests scratch) s.sections s'.sections := by
  intro s'
  have hother : ∀ j, j ≠ i → s'.response j = s.response j := fun j hj => Function.update_of_ne hj _ _
  have hpcs : ∀ j, j ≠ i → s'.guard.pc j = s.guard.pc j := fun j hj => step_pc_of_ne hj _
  have hpc : s'.guard.pc i = .outside := by
    rw [step_pc_self, Pc.eq_of_inside hinside]
    split
    · rfl
    · rfl
  have hnone := (h.side_of_inside hinside).1
  refine ⟨⟨h.guard.step i _, ?_, ?_⟩, ?_⟩
  · intro j hj
    have hji : j ≠ i := by
      rintro rfl
      exact hj hpc
    rw [hpcs j hji] at hj ⊢
    rw [hother j hji]
    exact h.side j hj
  · intro j hj hresponse
    have hji : j ≠ i := by
      rintro rfl
      simp [s'] at hresponse
    rw [hpcs j hji] at hj
    rw [hother j hji] at hresponse
    exact h.fresh j hj hresponse
  · have hphase : s'.sections = ⟨s.db, Function.update s.phase i (.finished response)⟩ := by
      have hupdate : s'.phase = Function.update s.phase i (s'.phase i) :=
        phase_eq_update hother hpcs fun _ _ => rfl
      rw [sections, hupdate]
      simp [s', phase]
    rw [hphase]
    exact Sections.Step.leave (phase_inside.mpr ⟨hnone, hinside, hwork⟩)

/-- The worker is let in by the guard behind the step: its exclusion is what `Sections`
asks for. -/
theorem enter (h : s.Consistent requests scratch) (hinside : (s.guard.pc i).inside = false)
    (hnone : s.response i = none) {guard : GuardState ι} (hguard : guard.Invariant)
    (hpcs : ∀ j, j ≠ i → guard.pc j = s.guard.pc j) (hentered : (guard.pc i).inside = true)
    (hop : requestOperation (requests i) = .ok (if (guard.pc i).writes then .write else .read)) :
    Sections.Step (task requests scratch) s.sections
      ⟨s.db, Function.update s.phase i (.inside (sqlWork (scratch i) (requests i).sqlText))⟩ := by
  have hwaits : s.phase i = .waiting := phase_waiting.mpr ⟨hnone, hinside⟩
  have hpc := Pc.eq_of_inside hentered
  have hne {j : ι} (hj : (s.guard.pc j).inside = true) : j ≠ i := by
    rintro rfl
    rw [hinside] at hj
    cases hj
  cases hside : (guard.pc i).writes with
  | false =>
    rw [hside] at hop hpc
    apply Sections.Step.enterRead hwaits
    · rw [task, requestTask, hop]
      rfl
    · intro j rest hwriter hj
      obtain ⟨-, hjin, -⟩ := phase_inside.mp hj
      have hwriting := h.writing_of_isWriter hjin hwriter
      rw [← hpcs j (hne hjin)] at hwriting
      exact (hguard.exclusion hwriting (hne hjin)).2 hpc
  | true =>
    rw [hside] at hop hpc
    apply Sections.Step.enterWrite hwaits
    · rw [task, requestTask, hop]
      rfl
    · intro j rest hj
      obtain ⟨-, hjin, -⟩ := phase_inside.mp hj
      obtain ⟨hnotWriting, hnotReading⟩ := hguard.exclusion hpc (hne hjin).symm
      rw [hpcs j (hne hjin), Pc.eq_of_inside hjin] at hnotWriting hnotReading
      cases hjside : (s.guard.pc j).writes with
      | false =>
        rw [hjside] at hnotReading
        exact hnotReading rfl
      | true =>
        rw [hjside] at hnotWriting
        exact hnotWriting rfl

/-- A step of the lock functions. If it is the last one, the worker enters its
section. -/
theorem acquire (h : s.Consistent requests scratch) (houtside : s.guard.pc i ≠ .outside)
    (hinside : (s.guard.pc i).inside = false) (spurious : Bool) :
    let s' : ServerState ι := { s with guard := s.guard.step i ⟨false, spurious⟩ }
    s'.Consistent requests scratch ∧ (s'.sections = s.sections ∨
      Sections.Step (task requests scratch) s.sections s'.sections) := by
  intro s'
  have hpcs : ∀ j, j ≠ i → s'.guard.pc j = s.guard.pc j := fun j hj => step_pc_of_ne hj _
  obtain ⟨hnone, hop⟩ := h.side i houtside
  obtain ⟨houtside', hwrites⟩ : s'.guard.pc i ≠ .outside ∧
      (s'.guard.pc i).writes = (s.guard.pc i).writes := by
    rw [step_pc_self]
    exact step_side _ _ houtside hinside
  have hguard : s'.guard.Invariant := h.guard.step i _
  have hwork := h.fresh i hinside hnone
  have hupdate : s'.phase = Function.update s.phase i (s'.phase i) :=
    phase_eq_update (fun _ _ => rfl) hpcs fun _ _ => rfl
  have hwaits : s.phase i = .waiting := phase_waiting.mpr ⟨hnone, hinside⟩
  refine ⟨⟨hguard, ?_, ?_⟩, ?_⟩
  · intro j hj
    by_cases hji : j = i
    · subst hji
      rw [hwrites]
      exact ⟨hnone, hop⟩
    · rw [hpcs j hji] at hj ⊢
      exact h.side j hj
  · intro j hj hresponse
    by_cases hji : j = i
    · subst hji
      exact hwork
    · rw [hpcs j hji] at hj
      exact h.fresh j hj hresponse
  · cases hentered : (s'.guard.pc i).inside with
    | false =>
      left
      exact sections_eq_of_waiting hupdate rfl hwaits (phase_waiting.mpr ⟨hnone, hentered⟩)
    | true =>
      right
      have hnow : s'.phase i = .inside (sqlWork (scratch i) (requests i).sqlText) :=
        phase_inside.mpr ⟨hnone, hentered, hwork⟩
      have hsections : s'.sections = ⟨s.db, Function.update s.phase i
          (.inside (sqlWork (scratch i) (requests i).sqlText))⟩ := by
        rw [sections, hupdate, hnow]
      rw [hsections]
      rw [← hwrites] at hop
      exact h.enter hinside hnone hguard hpcs hentered hop

theorem workStep (h : s.Consistent requests scratch) (hinside : (s.guard.pc i).inside = true)
    (spurious : Bool) : (s.workStep i spurious).Consistent requests scratch ∧
      Sections.Step (task requests scratch) s.sections (s.workStep i spurious).sections := by
  unfold ServerState.workStep
  split
  · rename_i hwork
    exact h.access hinside hwork
  · rename_i hwork
    exact h.leave hinside hwork spurious

theorem step (h : s.Consistent requests scratch) (i : ι) (spurious : Bool) :
    (s.step requests i spurious).Consistent requests scratch ∧
      ((s.step requests i spurious).sections = s.sections ∨
        Sections.Step (task requests scratch) s.sections (s.step requests i spurious).sections) := by
  unfold ServerState.step
  split
  · rename_i hpc
    cases hresponse : s.response i with
    | some response => exact ⟨h, .inl rfl⟩
    | none =>
      rw [if_neg (by simp)]
      split
      · rename_i hop
        obtain ⟨hnext, hstep⟩ := h.refuse hpc hresponse hop
        exact ⟨hnext, .inr hstep⟩
      · rename_i hop
        obtain ⟨hnext, hsame⟩ := h.call hpc hresponse hop spurious
        exact ⟨hnext, .inl hsame⟩
  · rename_i hpc
    obtain ⟨hnext, hstep⟩ := h.workStep (by rw [hpc]; rfl) spurious
    exact ⟨hnext, .inr hstep⟩
  · rename_i hpc
    obtain ⟨hnext, hstep⟩ := h.workStep (by rw [hpc]; rfl) spurious
    exact ⟨hnext, .inr hstep⟩
  · rename_i houtside hreading hwriting
    have hinside : (s.guard.pc i).inside = false := by
      cases hpc : (s.guard.pc i).inside with
      | false => rfl
      | true =>
        have heq := Pc.eq_of_inside hpc
        split at heq
        · exact absurd heq hwriting
        · exact absurd heq hreading
    exact h.acquire houtside hinside spurious

end ServerState.Consistent

variable [Fintype ι]

theorem ServerState.consistent_initial (db : Db) :
    (ServerState.initial requests scratch db).Consistent requests scratch := by
  refine ⟨GuardState.invariant_initial, ?_, ?_⟩
  · intro i hi
    exact absurd rfl hi
  · intro i _ _
    rfl

/-- A run of the server is a run of its sections. -/
theorem ServerState.run_sections [DecidableEq ι] (requests : ι → HttpRequest)
    (scratch : ι → List BPTree) (db : Db) (schedule : List (ι × Bool)) :
    Sections.Reachable (task requests scratch) db
      ((ServerState.initial requests scratch db).run requests schedule).sections := by
  have hrun (s : ServerState ι) (h : s.Consistent requests scratch)
      (hreach : Sections.Reachable (task requests scratch) db s.sections) :
      Sections.Reachable (task requests scratch) db (s.run requests schedule).sections := by
    induction schedule generalizing s with
    | nil => exact hreach
    | cons turn schedule ih =>
      obtain ⟨hnext, hstep⟩ := h.step turn.1 turn.2
      apply ih _ hnext
      rcases hstep with hsame | hstep
      · rw [hsame]
        exact hreach
      · exact .step hreach hstep
  exact hrun _ (ServerState.consistent_initial db) .initial

end

end MiniSql.Server
