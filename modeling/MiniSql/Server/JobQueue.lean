import MiniSql.Lib.History
import MiniSql.Lib.Ring
import MiniSql.Text

/-!
# The job queue of `src/server/pool/job_queue.c`

The mutex makes a critical section one step: from the lock to the wait, or from
the lock, or the end of a wait, to the unlock. A condition variable is the set of
threads asleep on it: `pthread_cond_signal` wakes one of them if there is one,
`pthread_cond_broadcast` all, and any of them may wake for no reason. A thread
that is awake has to run its section again.
-/

namespace MiniSql.Server

/-- `Job`: which of the callbacks it has, and its data. -/
structure Job (δ : Type) where
  execute : Bool
  cleanup : Bool
  data : δ
  deriving DecidableEq, Repr

/-- The fields of `JobQueue` that the mutex protects. A slot that holds no job
is `none`. -/
structure JobQueue (δ : Type) where
  capacity : Nat
  count : Nat
  head : Nat
  tail : Nat
  closed : Bool
  jobs : List (Option (Job δ))
  deriving DecidableEq, Repr

variable {ι δ : Type}

def jobQueueCreate (capacity : Int) : Except SqlError (JobQueue δ) :=
  if capacity ≤ 0 then .error (sqlSetError [ascii "job queue capacity must be positive"])
  else .ok ⟨capacity.toNat, 0, 0, 0, false, List.replicate capacity.toNat none⟩

/-! ## Critical sections -/

/-- How a critical section ends. -/
inductive SectionEnd (δ α : Type)
  | waits
  | returns (queue : JobQueue δ) (result : α)

def queueClosed : SqlError := sqlSetError [ascii "job queue is closed"]

def nullExecute : SqlError := sqlSetError [ascii "job execute callback must not be null"]

/-- The critical section of `job_queue_push`. -/
def pushSection (queue : JobQueue δ) (job : Job δ) : SectionEnd δ (Except SqlError Unit) :=
  if queue.closed = false ∧ queue.count = queue.capacity then .waits
  else if queue.closed = true then .returns queue (.error queueClosed)
  else
    .returns
      { queue with
        jobs := queue.jobs.set queue.tail (some job)
        tail := (queue.tail + 1) % queue.capacity
        count := queue.count + 1 }
      (.ok ())

/-- The critical section of `job_queue_pop`: no job for a return of 0, or what
was in the slot at `head`. -/
def popSection (queue : JobQueue δ) : SectionEnd δ (Option (Option (Job δ))) :=
  if queue.closed = false ∧ queue.count = 0 then .waits
  else if queue.count = 0 then .returns queue none
  else
    .returns
      { queue with
        jobs := queue.jobs.set queue.head none
        head := (queue.head + 1) % queue.capacity
        count := queue.count - 1 }
      (some (queue.jobs[queue.head]?).join)

/-- The critical section of `job_queue_close`, less the broadcasts. -/
def closeSection (queue : JobQueue δ) : JobQueue δ := { queue with closed := true }

/-! ## The queue as a list -/

/-- The jobs that are queued, the oldest first. -/
def JobQueue.contents (queue : JobQueue δ) : List (Option (Job δ)) :=
  Ring.contents queue.jobs queue.head queue.count

/-- The indices fit each other and the array. -/
structure JobQueue.Valid (queue : JobQueue δ) : Prop where
  positive : 0 < queue.capacity
  slots : queue.jobs.length = queue.capacity
  head_lt : queue.head < queue.capacity
  count_le : queue.count ≤ queue.capacity
  tail_eq : queue.tail = (queue.head + queue.count) % queue.capacity

theorem jobQueueCreate_valid {capacity : Int} {queue : JobQueue δ}
    (h : jobQueueCreate capacity = .ok queue) :
    queue.Valid ∧ queue.capacity = capacity ∧ queue.contents = [] ∧ queue.closed = false := by
  unfold jobQueueCreate at h
  split at h
  · cases h
  · cases h
    have hpos : 0 < capacity.toNat := by omega
    refine ⟨⟨hpos, List.length_replicate, hpos, Nat.zero_le _, (Nat.zero_mod _).symm⟩, ?_, rfl, rfl⟩
    change (capacity.toNat : Int) = capacity
    omega

/-- A push refuses once the queue is closed; otherwise it appends. -/
theorem pushSection_returns {queue queue' : JobQueue δ} (hvalid : queue.Valid) {job : Job δ}
    {result : Except SqlError Unit} (h : pushSection queue job = .returns queue' result) :
    (result = .error queueClosed ∧ queue.closed = true ∧ queue' = queue) ∨
    (result = .ok () ∧ queue.closed = false ∧ queue'.closed = false ∧ queue'.Valid ∧
      queue'.capacity = queue.capacity ∧ queue'.count = queue.count + 1 ∧
      queue'.contents = queue.contents ++ [some job]) := by
  unfold pushSection at h
  split at h
  · cases h
  · rename_i hroom
    split at h
    · rename_i hclosed
      cases h
      exact .inl ⟨rfl, hclosed, rfl⟩
    · rename_i hopen
      have hopen : queue.closed = false := by simpa using hopen
      have hlt : queue.count < queue.capacity := by
        have := hvalid.count_le
        simp only [hopen, true_and] at hroom
        omega
      have hslots := hvalid.slots
      have htail : queue.tail = Ring.slot queue.jobs queue.head queue.count := by
        rw [hvalid.tail_eq, Ring.slot, hslots]
      cases h
      refine .inr ⟨rfl, hopen, hopen, ⟨hvalid.positive, ?_, hvalid.head_lt, hlt, ?_⟩, rfl, rfl, ?_⟩
      · simpa using hslots
      · rw [hvalid.tail_eq, Nat.mod_add_mod, Nat.add_assoc]
      · rw [JobQueue.contents, htail, Ring.contents_push (by omega)]
        rfl

theorem pushSection_waits {queue : JobQueue δ} {job : Job δ} (h : pushSection queue job = .waits) :
    queue.closed = false ∧ queue.count = queue.capacity := by
  unfold pushSection at h
  split at h
  · assumption
  · split at h <;> cases h

theorem popSection_waits {queue : JobQueue δ} (h : popSection queue = .waits) :
    queue.closed = false ∧ queue.count = 0 := by
  unfold popSection at h
  split at h
  · assumption
  · split at h <;> cases h

/-- A pop returns 0 on a closed queue without jobs; otherwise it takes the first
job. -/
theorem popSection_returns {queue queue' : JobQueue δ} (hvalid : queue.Valid)
    {result : Option (Option (Job δ))} (h : popSection queue = .returns queue' result) :
    (result = none ∧ queue.closed = true ∧ queue.contents = [] ∧ queue' = queue) ∨
    ∃ job, result = some job ∧ queue'.closed = queue.closed ∧ queue'.Valid ∧
      queue'.capacity = queue.capacity ∧ queue'.count + 1 = queue.count ∧
      queue.contents = job :: queue'.contents := by
  unfold popSection at h
  split at h
  · cases h
  · rename_i hwait
    split at h
    · rename_i hempty
      cases h
      have hclosed : queue.closed = true := by simpa [hempty] using hwait
      exact .inl ⟨rfl, hclosed, by rw [JobQueue.contents, hempty]; rfl, rfl⟩
    · rename_i hsome
      obtain ⟨count, hcount⟩ := Nat.exists_eq_succ_of_ne_zero hsome
      have hle := hvalid.count_le
      have hslots := hvalid.slots
      have hhead := hvalid.head_lt
      cases h
      refine .inr ⟨_, rfl, rfl, ⟨hvalid.positive, ?_, Nat.mod_lt _ hvalid.positive, ?_, ?_⟩, rfl, ?_, ?_⟩
      · simpa using hslots
      · change queue.count - 1 ≤ queue.capacity
        omega
      · change queue.tail = ((queue.head + 1) % queue.capacity + (queue.count - 1)) % queue.capacity
        rw [hvalid.tail_eq, Nat.mod_add_mod, hcount]
        congr 1
        omega
      · change queue.count - 1 + 1 = queue.count
        omega
      · rw [JobQueue.contents, hcount, Ring.contents_pop (by omega) (by omega), hslots]
        simp only [JobQueue.contents, Nat.succ_sub_one]

end MiniSql.Server
