import MiniSql.Lib.Prog

/-!
# Sections under a readers-writer lock are serializable

Tasks run in sections on a shared state, each once. A writing task is inside
alone; reading tasks may be inside together and leave the state alone. Their
accesses interleave freely. The order in which the tasks start is then a serial
order: run one at a time in that order they give the same results and the same
state.
-/

namespace Sections

variable {ι σ α : Type}

inductive Task (σ α : Type)
  /-- needs no section -/
  | answer (result : α)
  | reader (work : Prog σ α)
  | writer (work : Prog σ α)

def Task.eval : Task σ α → σ → α × σ
  | .answer a, s => (a, s)
  | .reader p, s => p.eval s
  | .writer p, s => p.eval s

def Task.isWriter : Task σ α → Bool
  | .writer _ => true
  | _ => false

/-- Run tasks one at a time: their results, and the state they leave. -/
def serial (task : ι → Task σ α) : List ι → σ → List α × σ
  | [], s => ([], s)
  | i :: order, s =>
    (((task i).eval s).1 :: (serial task order ((task i).eval s).2).1,
      (serial task order ((task i).eval s).2).2)

theorem serial_concat (task : ι → Task σ α) (order : List ι) (i : ι) (s : σ) :
    serial task (order ++ [i]) s =
      ((serial task order s).1 ++ [((task i).eval (serial task order s).2).1],
        ((task i).eval (serial task order s).2).2) := by
  induction order generalizing s with
  | nil => rfl
  | cons j order ih => simp [serial, ih]

inductive Phase (σ α : Type)
  | waiting
  | inside (rest : Prog σ α)
  | finished (result : α)

structure State (ι σ α : Type) where
  shared : σ
  phase : ι → Phase σ α

variable [DecidableEq ι]

/-- The lock is in the conditions for entering: a reader waits for the writer, a
writer for everybody. -/
inductive Step (task : ι → Task σ α) : State ι σ α → State ι σ α → Prop
  | answer {s : State ι σ α} {i : ι} {a : α} (waits : s.phase i = .waiting)
      (isAnswer : task i = .answer a) :
      Step task s ⟨s.shared, Function.update s.phase i (.finished a)⟩
  | enterRead {s : State ι σ α} {i : ι} {p : Prog σ α} (waits : s.phase i = .waiting)
      (isReader : task i = .reader p)
      (noWriter : ∀ j rest, (task j).isWriter = true → s.phase j ≠ .inside rest) :
      Step task s ⟨s.shared, Function.update s.phase i (.inside p)⟩
  | enterWrite {s : State ι σ α} {i : ι} {p : Prog σ α} (waits : s.phase i = .waiting)
      (isWriter : task i = .writer p) (nobody : ∀ j rest, s.phase j ≠ .inside rest) :
      Step task s ⟨s.shared, Function.update s.phase i (.inside p)⟩
  | access {s : State ι σ α} {i : ι} {change : σ → σ} {next : σ → Prog σ α}
      (inside : s.phase i = .inside (.access change next)) :
      Step task s ⟨change s.shared, Function.update s.phase i (.inside (next s.shared))⟩
  | leave {s : State ι σ α} {i : ι} {a : α} (inside : s.phase i = .inside (.ret a)) :
      Step task s ⟨s.shared, Function.update s.phase i (.finished a)⟩

/-- The result of a task that has started: the one it has, or the one it would
get if it ran on alone. -/
def State.outcome (s : State ι σ α) (i : ι) : Option α :=
  match s.phase i with
  | .waiting => none
  | .inside rest => some (rest.eval s.shared).1
  | .finished a => some a

omit [DecidableEq ι] in
theorem State.outcome_congr {s s' : State ι σ α} {i : ι} (hphase : s'.phase i = s.phase i)
    (hshared : s'.shared = s.shared ∨ ∀ rest, s.phase i ≠ .inside rest) :
    s'.outcome i = s.outcome i := by
  unfold State.outcome
  rw [hphase]
  rcases hshared with hshared | hout
  · rw [hshared]
  · cases h : s.phase i with
    | waiting => rfl
    | inside rest => exact absurd h (hout rest)
    | finished a => rfl

/-- What the lock asks of the rest of a task's work. -/
def Task.Allows (I : σ → Prop) : Task σ α → Prog σ α → Prop
  | .answer _, _ => False
  | .reader _, rest => rest.ReadsOnly I fun _ => True
  | .writer _, rest => rest.Keeps I fun _ => True

theorem Task.Allows.access {I : σ → Prop} {task : Task σ α} {change : σ → σ} {next : σ → Prog σ α}
    (h : task.Allows I (.access change next)) {s : σ} (hs : I s) :
    I (change s) ∧ task.Allows I (next s) := by
  cases task with
  | answer a => exact h.elim
  | reader p =>
    obtain ⟨hsame, hnext⟩ := h s hs
    exact ⟨hsame.symm ▸ hs, hnext⟩
  | writer p => exact h s hs

/-- The whole work of a task is as the lock asks. -/
def Task.Safe (I : σ → Prop) : Task σ α → Prop
  | .answer _ => True
  | .reader p => p.ReadsOnly I fun _ => True
  | .writer p => p.Keeps I fun _ => True

/-- `order` is a serial order of the tasks that have started. The state it leads
to is the present one, once a writer inside has run on to its end. -/
structure Serialized (task : ι → Task σ α) (I : σ → Prop) (start : σ) (s : State ι σ α)
    (order : List ι) : Prop where
  nodup : order.Nodup
  started : ∀ i, i ∈ order ↔ s.phase i ≠ .waiting
  invariant : I s.shared
  allowed : ∀ i rest, s.phase i = .inside rest → (task i).Allows I rest
  alone : ∀ i j rest rest', (task i).isWriter = true → s.phase i = .inside rest →
    s.phase j = .inside rest' → i = j
  results : (serial task order start).1.map some = order.map s.outcome
  writing : ∀ i rest, (task i).isWriter = true → s.phase i = .inside rest →
    (serial task order start).2 = (rest.eval s.shared).2
  resting : (∀ i rest, (task i).isWriter = true → s.phase i ≠ .inside rest) →
    (serial task order start).2 = s.shared

section

variable {task : ι → Task σ α} {I : σ → Prop} {start : σ} {s : State ι σ α} {order : List ι}

omit [DecidableEq ι] in
theorem serialized_initial (hI : I start) :
    Serialized task I start ⟨start, fun _ => .waiting⟩ [] where
  nodup := List.nodup_nil
  started i := by simp
  invariant := hI
  allowed i rest h := by cases h
  alone i j rest rest' _ h := by cases h
  results := rfl
  writing i rest _ h := by cases h
  resting _ := rfl

namespace Serialized

/-- A task that starts goes to the end of the order. -/
theorem concat (h : Serialized task I start s order) {i : ι} (waits : s.phase i = .waiting)
    (phase : Phase σ α) {s' : State ι σ α} (hs' : s' = ⟨s.shared, Function.update s.phase i phase⟩)
    (hphase : phase ≠ .waiting)
    (hout : s'.outcome i = some ((task i).eval (serial task order start).2).1) :
    (order ++ [i]).Nodup ∧ (∀ j, j ∈ order ++ [i] ↔ s'.phase j ≠ .waiting) ∧
      (serial task (order ++ [i]) start).1.map some = (order ++ [i]).map s'.outcome := by
  have hnot : i ∉ order := fun hi => (h.started i).mp hi waits
  refine ⟨?_, ?_, ?_⟩
  · rw [List.nodup_append]
    refine ⟨h.nodup, List.nodup_singleton i, ?_⟩
    rintro a ha b hb rfl
    exact hnot (List.mem_singleton.mp hb ▸ ha)
  · intro j
    subst hs'
    by_cases hj : j = i
    · subst hj
      simpa using hphase
    · simp [hj, h.started j]
  · have hsame : order.map s'.outcome = order.map s.outcome := by
      apply List.map_congr_left
      intro j hj
      have hne : j ≠ i := fun heq => hnot (heq ▸ hj)
      subst hs'
      exact State.outcome_congr (Function.update_of_ne hne _ _) (.inl rfl)
    rw [serial_concat, List.map_append, h.results, List.map_append, hsame, List.map_singleton,
      List.map_singleton, hout]

theorem answer (h : Serialized task I start s order) {i : ι} {a : α} (waits : s.phase i = .waiting)
    (isAnswer : task i = .answer a) :
    Serialized task I start ⟨s.shared, Function.update s.phase i (.finished a)⟩ (order ++ [i]) := by
  have hinside {j : ι} {rest : Prog σ α} :
      Function.update s.phase i (.finished a) j = .inside rest ↔ s.phase j = .inside rest := by
    by_cases hji : j = i
    · subst hji
      simp [waits]
    · rw [Function.update_of_ne hji]
  have hserial : (serial task (order ++ [i]) start).2 = (serial task order start).2 := by
    rw [serial_concat, isAnswer]
    rfl
  obtain ⟨hnodup, hstarted, hresults⟩ := h.concat waits (.finished a) rfl (by simp)
    (by simp [State.outcome, isAnswer, Task.eval])
  refine ⟨hnodup, hstarted, h.invariant, ?_, ?_, hresults, ?_, ?_⟩
  · intro j rest hj
    exact h.allowed j rest (hinside.mp hj)
  · intro j k rest rest' hw hj hk
    exact h.alone j k rest rest' hw (hinside.mp hj) (hinside.mp hk)
  · intro j rest hw hj
    rw [hserial]
    exact h.writing j rest hw (hinside.mp hj)
  · intro hnone
    rw [hserial]
    apply h.resting
    intro j rest hw hj
    exact hnone j rest hw (hinside.mpr hj)

theorem enterRead (h : Serialized task I start s order) {i : ι} {p : Prog σ α}
    (waits : s.phase i = .waiting) (isReader : task i = .reader p)
    (safe : p.ReadsOnly I fun _ => True)
    (noWriter : ∀ j rest, (task j).isWriter = true → s.phase j ≠ .inside rest) :
    Serialized task I start ⟨s.shared, Function.update s.phase i (.inside p)⟩ (order ++ [i]) := by
  have hrest := h.resting noWriter
  have hnoWriter (j : ι) (rest : Prog σ α) (hw : (task j).isWriter = true) :
      Function.update s.phase i (.inside p) j ≠ .inside rest := by
    have hji : j ≠ i := by
      rintro rfl
      simp [isReader, Task.isWriter] at hw
    rw [Function.update_of_ne hji]
    exact noWriter j rest hw
  obtain ⟨hnodup, hstarted, hresults⟩ := h.concat waits (.inside p) rfl (by simp)
    (by simp [State.outcome, isReader, Task.eval, hrest])
  refine ⟨hnodup, hstarted, h.invariant, ?_, ?_, hresults, ?_, ?_⟩
  · intro j rest hj
    by_cases hji : j = i
    · subst hji
      simp only [Function.update_self, Phase.inside.injEq] at hj
      rw [isReader, ← hj]
      exact safe
    · exact h.allowed j rest (by simpa [Function.update_of_ne hji] using hj)
  · intro j k rest rest' hw hj
    exact absurd hj (hnoWriter j rest hw)
  · intro j rest hw hj
    exact absurd hj (hnoWriter j rest hw)
  · intro _
    rw [serial_concat, isReader, hrest]
    exact (safe.eval h.invariant).1

theorem enterWrite (h : Serialized task I start s order) {i : ι} {p : Prog σ α}
    (waits : s.phase i = .waiting) (isWriter : task i = .writer p)
    (safe : p.Keeps I fun _ => True) (nobody : ∀ j rest, s.phase j ≠ .inside rest) :
    Serialized task I start ⟨s.shared, Function.update s.phase i (.inside p)⟩ (order ++ [i]) := by
  have hrest := h.resting fun j rest _ => nobody j rest
  have honly {j : ι} {rest : Prog σ α}
      (hj : Function.update s.phase i (.inside p) j = .inside rest) : j = i ∧ rest = p := by
    by_cases hji : j = i
    · subst hji
      simpa [eq_comm] using hj
    · exact absurd (by simpa [Function.update_of_ne hji] using hj) (nobody j rest)
  obtain ⟨hnodup, hstarted, hresults⟩ := h.concat waits (.inside p) rfl (by simp)
    (by simp [State.outcome, isWriter, Task.eval, hrest])
  refine ⟨hnodup, hstarted, h.invariant, ?_, ?_, hresults, ?_, ?_⟩
  · intro j rest hj
    obtain ⟨rfl, rfl⟩ := honly hj
    rw [isWriter]
    exact safe
  · intro j k rest rest' _ hj hk
    rw [(honly hj).1, (honly hk).1]
  · intro j rest _ hj
    obtain ⟨rfl, rfl⟩ := honly hj
    rw [serial_concat, isWriter, hrest]
    rfl
  · intro hnone
    exact absurd (Function.update_self i _ s.phase) (hnone i p (by rw [isWriter]; rfl))

/-- A task inside goes on or comes out: it has started all the same. -/
theorem started_update (h : Serialized task I start s order) {i : ι} {rest : Prog σ α}
    (inside : s.phase i = .inside rest) {phase : Phase σ α} (hphase : phase ≠ .waiting) (j : ι) :
    j ∈ order ↔ Function.update s.phase i phase j ≠ .waiting := by
  by_cases hji : j = i
  · subst hji
    simp [h.started j, inside, hphase]
  · simp [hji, h.started j]

omit [DecidableEq ι] in
/-- An access of a reader changes nothing; during one of a writer nobody else is
inside. -/
theorem same_or_alone (h : Serialized task I start s order) {i : ι} {change : σ → σ}
    {next : σ → Prog σ α} (inside : s.phase i = .inside (.access change next)) :
    change s.shared = s.shared ∨
      (task i).isWriter = true ∧ ∀ j, j ≠ i → ∀ rest, s.phase j ≠ .inside rest := by
  have hallowed := h.allowed i _ inside
  cases htask : task i with
  | answer a =>
    rw [htask] at hallowed
    exact hallowed.elim
  | reader p =>
    rw [htask] at hallowed
    exact .inl (hallowed _ h.invariant).1
  | writer p =>
    refine .inr ⟨rfl, ?_⟩
    intro j hji rest hj
    exact hji (h.alone i j _ rest (by rw [htask]; rfl) inside hj).symm

theorem access (h : Serialized task I start s order) {i : ι} {change : σ → σ}
    {next : σ → Prog σ α} (inside : s.phase i = .inside (.access change next)) :
    Serialized task I start
      ⟨change s.shared, Function.update s.phase i (.inside (next s.shared))⟩ order := by
  have hallowed := h.allowed i _ inside
  have hother := h.same_or_alone inside
  have hrun : ∀ j rest, Function.update s.phase i (.inside (next s.shared)) j = .inside rest →
      ∃ rest', s.phase j = .inside rest' ∧ rest.eval (change s.shared) = rest'.eval s.shared := by
    intro j rest hj
    by_cases hji : j = i
    · subst hji
      simp only [Function.update_self, Phase.inside.injEq] at hj
      exact ⟨_, inside, by rw [← hj]; rfl⟩
    · rw [Function.update_of_ne hji] at hj
      rcases hother with hsame | ⟨-, hout⟩
      · exact ⟨rest, hj, by rw [hsame]⟩
      · exact absurd hj (hout j hji rest)
  refine ⟨h.nodup, h.started_update inside (by simp), ?_, ?_, ?_, ?_, ?_, ?_⟩
  · exact (hallowed.access h.invariant).1
  · intro j rest hj
    by_cases hji : j = i
    · subst hji
      simp only [Function.update_self, Phase.inside.injEq] at hj
      rw [← hj]
      exact (hallowed.access h.invariant).2
    · exact h.allowed j rest (by simpa [Function.update_of_ne hji] using hj)
  · intro j k rest rest' hw hj hk
    obtain ⟨_, hj', -⟩ := hrun j rest hj
    obtain ⟨_, hk', -⟩ := hrun k rest' hk
    exact h.alone j k _ _ hw hj' hk'
  · rw [h.results]
    apply List.map_congr_left
    intro j _
    by_cases hji : j = i
    · subst hji
      simp [State.outcome, inside]
    · symm
      apply State.outcome_congr (Function.update_of_ne hji _ _)
      rcases hother with hsame | ⟨-, hout⟩
      · exact .inl hsame
      · exact .inr (hout j hji)
  · intro j rest hw hj
    obtain ⟨rest', hj', heval⟩ := hrun j rest hj
    rw [h.writing j rest' hw hj', heval]
  · intro hnone
    rcases hother with hsame | ⟨hw, -⟩
    · rw [hsame]
      apply h.resting
      intro j rest hw hj
      by_cases hji : j = i
      · subst hji
        exact hnone j _ hw (Function.update_self ..)
      · exact hnone j rest hw (by simpa [Function.update_of_ne hji] using hj)
    · exact absurd (Function.update_self ..) (hnone i _ hw)

theorem leave (h : Serialized task I start s order) {i : ι} {a : α}
    (inside : s.phase i = .inside (.ret a)) :
    Serialized task I start ⟨s.shared, Function.update s.phase i (.finished a)⟩ order := by
  have hinside {j : ι} {rest : Prog σ α}
      (hj : Function.update s.phase i (.finished a) j = .inside rest) : s.phase j = .inside rest := by
    by_cases hji : j = i
    · subst hji
      simp at hj
    · rwa [Function.update_of_ne hji] at hj
  refine ⟨h.nodup, h.started_update inside (by simp), h.invariant, ?_, ?_, ?_, ?_, ?_⟩
  · intro j rest hj
    exact h.allowed j rest (hinside hj)
  · intro j k rest rest' hw hj hk
    exact h.alone j k rest rest' hw (hinside hj) (hinside hk)
  · rw [h.results]
    apply List.map_congr_left
    intro j _
    by_cases hji : j = i
    · subst hji
      simp [State.outcome, inside]
    · symm
      exact State.outcome_congr (Function.update_of_ne hji _ _) (.inl rfl)
  · intro j rest hw hj
    exact h.writing j rest hw (hinside hj)
  · intro hnone
    cases hw : (task i).isWriter with
    | true => exact h.writing i _ hw inside
    | false =>
      apply h.resting
      intro j rest hj hphase
      have hji : j ≠ i := by
        rintro rfl
        rw [hw] at hj
        cases hj
      exact hnone j rest hj (by simpa [Function.update_of_ne hji] using hphase)

/-- The order only grows. -/
theorem step (h : Serialized task I start s order) (safe : ∀ i, (task i).Safe I)
    {s' : State ι σ α} (hstep : Step task s s') :
    ∃ order', order <+: order' ∧ Serialized task I start s' order' := by
  cases hstep with
  | answer waits isAnswer => exact ⟨_, List.prefix_append _ _, h.answer waits isAnswer⟩
  | @enterRead i p waits isReader noWriter =>
    have hsafe := safe i
    rw [isReader] at hsafe
    exact ⟨_, List.prefix_append _ _, h.enterRead waits isReader hsafe noWriter⟩
  | @enterWrite i p waits isWriter nobody =>
    have hsafe := safe i
    rw [isWriter] at hsafe
    exact ⟨_, List.prefix_append _ _, h.enterWrite waits isWriter hsafe nobody⟩
  | access inside => exact ⟨_, List.prefix_refl _, h.access inside⟩
  | leave inside => exact ⟨_, List.prefix_refl _, h.leave inside⟩

omit [DecidableEq ι] in
/-- Nobody is inside any more: the serial run gives the results and the state. -/
theorem finished (h : Serialized task I start s order) {result : ι → α}
    (hdone : ∀ i ∈ order, s.phase i = .finished (result i)) :
    serial task order start = (order.map result, s.shared) := by
  apply Prod.ext
  · have hout : order.map s.outcome = (order.map result).map some := by
      rw [List.map_map]
      apply List.map_congr_left
      intro i hi
      rw [State.outcome, hdone i hi]
      rfl
    have hresults := h.results
    rw [hout] at hresults
    exact List.map_injective_iff.mpr (Option.some_injective α) hresults
  · apply h.resting
    intro i rest _ hinside
    have hi : i ∈ order := (h.started i).mpr (by simp [hinside])
    rw [hdone i hi] at hinside
    cases hinside

end Serialized

/-- The states that interleaved tasks lead to. -/
inductive Reachable (task : ι → Task σ α) (start : σ) : State ι σ α → Prop
  | initial : Reachable task start ⟨start, fun _ => .waiting⟩
  | step {s s' : State ι σ α} (before : Reachable task start s) (step : Step task s s') :
      Reachable task start s'

theorem Reachable.serialized (safe : ∀ i, (task i).Safe I) (hI : I start)
    (h : Reachable task start s) : ∃ order, Serialized task I start s order := by
  induction h with
  | initial => exact ⟨[], serialized_initial hI⟩
  | step _ hstep ih =>
    obtain ⟨order, horder⟩ := ih
    obtain ⟨order', -, horder'⟩ := horder.step safe hstep
    exact ⟨order', horder'⟩

/-- **Sections are serializable.** When all tasks have finished, running them one
at a time in some order gives the same results and the same state. -/
theorem Reachable.serial_order (safe : ∀ i, (task i).Safe I) (hI : I start)
    (h : Reachable task start s) {result : ι → α} (hdone : ∀ i, s.phase i = .finished (result i)) :
    ∃ order : List ι, order.Nodup ∧ (∀ i, i ∈ order) ∧
      serial task order start = (order.map result, s.shared) := by
  obtain ⟨order, horder⟩ := h.serialized safe hI
  refine ⟨order, horder.nodup, ?_, horder.finished fun i _ => hdone i⟩
  intro i
  rw [horder.started i, hdone i]
  simp

end

end Sections
