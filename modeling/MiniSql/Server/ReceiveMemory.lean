import MiniSql.Lib.Block
import MiniSql.Server.SocketServer

/-!
# The memory of the receive loop

`server_socket_read_request` once more, with the memory it receives into: `recv` stores
into a block, and so does the terminator at the end; a store outside has no result. The
loop goes step by step, and what it is called with is left open: allocations may fail,
and a call of `recv` may be answered with bytes, as many as were asked for at most, with
0, or with an error.
-/

namespace MiniSql.Server

/-- The variables of `server_socket_read_request`; `buffer` is all of the memory. -/
structure Receiver where
  buffer : Bytes
  capacity : Nat
  length : Nat
  headers : Option Headers

def bufferFailed : ReadResult := .error (sqlSetError [ascii "failed to allocate request buffer"])

def growFailed : ReadResult := .error (sqlSetError [ascii "failed to grow request buffer"])

def receiveFailed : ReadResult := .error (sqlSetError [ascii "failed to receive request bytes"])

def nextCapacity (capacity : Nat) : Nat :=
  if capacity * 2 > serverRequestMaxCapacity then serverRequestMaxCapacity else capacity * 2

/-- The head of the loop. -/
def Receiver.grow (realloc : Block.Allocator UInt8) (r : Receiver) : Except ReadResult Receiver :=
  if r.headers.any fun headers => headers.total > serverRequestMaxCapacity then .error requestTooLarge
  else if r.length = r.capacity then
    if r.capacity ≥ serverRequestMaxCapacity then .error requestTooLarge
    else
      match realloc.get (nextCapacity r.capacity + 1) with
      | none => .error growFailed
      | some fresh =>
        .ok { r with buffer := Block.resize r.buffer fresh, capacity := nextCapacity r.capacity }
  else .ok r

/-- `capacity - length`, what `recv` is asked for. -/
def Receiver.asks (r : Receiver) : Nat := (2 ^ 64 + r.capacity - r.length) % 2 ^ 64

/-- `recv` has stored bytes behind those that were there. -/
def Receiver.receive (r : Receiver) (chunk : Bytes) : Option (Except ReadResult Receiver) := do
  let buffer ← Block.storeAll r.buffer r.length chunk
  let length := r.length + chunk.length
  match r.headers, readHeaders (buffer.take length) with
  | some _, _ | none, none => return .ok { r with buffer := buffer, length := length }
  | none, some (.error e) => return .error (.error e)
  | none, some (.ok headers) =>
    return .ok { r with buffer := buffer, length := length, headers := some headers }

def Receiver.complete (r : Receiver) : Bool := r.headers.any fun headers => r.length ≥ headers.total

/-- Behind the loop; a request that is returned gets a terminator. -/
def Receiver.finish (r : Receiver) : Option ReadResult :=
  if r.length = 0 then some .empty
  else
    match r.headers with
    | none => some headersIncomplete
    | some headers =>
      if r.length < headers.total then some bodyIncomplete
      else do
        let buffer ← Block.store r.buffer r.length 0
        return .ok (buffer.take r.length)

/-! ## Steps -/

/-- Where the function is: at the head of the loop, at the call of `recv`, behind the
loop, or back. -/
inductive ReadPc
  | head (r : Receiver)
  | receiving (r : Receiver)
  | behind (r : Receiver)
  | returned (result : ReadResult)

/-- The function and its socket; `received` counts the bytes of all calls of `recv`. -/
structure ReadState (σ : Type) where
  pc : ReadPc
  socket : σ
  received : Nat

variable {σ : Type}

def readStart (malloc : Block.Allocator UInt8) (socket : σ) : ReadState σ :=
  match malloc.get (serverRequestInitialCapacity + 1) with
  | none => ⟨.returned bufferFailed, socket, 0⟩
  | some buffer => ⟨.head ⟨buffer, serverRequestInitialCapacity, 0, none⟩, socket, 0⟩

section

variable (realloc : Block.Allocator UInt8) (answer : Nat → σ → Received × σ)

/-- A call of `recv`. -/
def receiveStep (r : Receiver) (s : ReadState σ) : Option (ReadState σ) :=
  match answer r.asks s.socket with
  | (.bytes chunk, socket) => do
    match ← r.receive chunk with
    | .error result => return ⟨.returned result, socket, s.received + chunk.length⟩
    | .ok r => return ⟨if r.complete then .behind r else .head r, socket, s.received + chunk.length⟩
  | (.closed, socket) | (.timedOut, socket) => some ⟨.behind r, socket, s.received⟩
  | (.interrupted, socket) => some ⟨.head r, socket, s.received⟩
  | (.failed, socket) => some ⟨.returned receiveFailed, socket, s.received⟩

def readStep (s : ReadState σ) : Option (ReadState σ) :=
  match s.pc with
  | .head r =>
    match r.grow realloc with
    | .error result => some { s with pc := .returned result }
    | .ok r => some { s with pc := .receiving r }
  | .receiving r => receiveStep answer r s
  | .behind r => r.finish.map fun result => { s with pc := .returned result }
  | .returned _ => some s

def readRun : Nat → ReadState σ → Option (ReadState σ)
  | 0, s => some s
  | n + 1, s => (readStep realloc answer s).bind (readRun n)

end

/-- What `recv` may answer: it gives at least one byte and no more than it was asked for, or none. -/
def Answers (answer : Nat → σ → Received × σ) : Prop :=
  ∀ room socket chunk, (answer room socket).1 = .bytes chunk → chunk ≠ [] ∧ chunk.length ≤ room

/-! ## What the parts of a step keep -/

/-- The bytes that were received are in the memory, and the memory has its size. -/
structure Receiver.Fits (r : Receiver) (received : Nat) : Prop where
  length : r.length = received
  within : r.length ≤ r.capacity
  least : serverRequestInitialCapacity ≤ r.capacity
  limit : r.capacity ≤ serverRequestMaxCapacity
  memory : r.buffer.length = r.capacity + 1

/-- The variables of the loop without the memory. -/
def Receiver.reader (r : Receiver) : Reader := ⟨r.buffer.take r.length, r.capacity, r.headers⟩

@[simp] theorem Receiver.reader_headers (r : Receiver) : r.reader.headers = r.headers := rfl

@[simp] theorem Receiver.reader_capacity (r : Receiver) : r.reader.capacity = r.capacity := rfl

theorem nextCapacity_eq_min (capacity : Nat) :
    nextCapacity capacity = min (capacity * 2) serverRequestMaxCapacity := by
  unfold nextCapacity
  split <;> omega

section

variable {r : Receiver} {received : Nat}

theorem Receiver.Fits.received_le (h : r.Fits received) : received ≤ serverRequestMaxCapacity :=
  h.length ▸ h.within.trans h.limit

theorem Receiver.Fits.length_reader (h : r.Fits received) : r.reader.buffer.length = r.length := by
  have hmemory := h.memory
  have hwithin := h.within
  simp only [Receiver.reader, List.length_take]
  omega

theorem Receiver.Fits.holds (h : r.Fits received) :
    Block.Holds (r.capacity + 1) r.reader.buffer r.buffer :=
  ⟨List.take_prefix _ _, h.memory⟩

theorem Receiver.Fits.asks_eq (h : r.Fits received) (hroom : r.length < r.capacity) :
    r.asks = r.capacity - r.length := by
  have hlimit := h.limit
  simp only [serverRequestMaxCapacity] at hlimit
  simp only [Receiver.asks]
  omega

theorem Receiver.Fits.reader_asks (h : r.Fits received) (hroom : r.length < r.capacity) :
    r.asks = r.reader.capacity - r.reader.buffer.length := by
  rw [h.asks_eq hroom, h.length_reader, Receiver.reader_capacity]

/-- A block that was given in place of the memory, with room for at least one byte more. -/
theorem Receiver.Fits.resize (h : r.Fits received) (hfull : r.length = r.capacity)
    (hmax : ¬ r.capacity ≥ serverRequestMaxCapacity) {fresh : Bytes}
    (hfresh : fresh.length = nextCapacity r.capacity + 1) :
    Receiver.Fits ⟨Block.resize r.buffer fresh, nextCapacity r.capacity, r.length, r.headers⟩ received ∧
      r.length < nextCapacity r.capacity ∧
      (Block.resize r.buffer fresh).take r.length = r.reader.buffer := by
  have hnext := nextCapacity_eq_min r.capacity
  have hleast := h.least
  simp only [serverRequestInitialCapacity] at hleast
  have hlength := h.length_reader
  have hholds := h.holds.resize fresh (by omega)
  have htake := hholds.take_length
  rw [hlength] at htake
  refine ⟨⟨h.length, ?_, ?_, ?_, ?_⟩, ?_, htake⟩
  · show r.length ≤ nextCapacity r.capacity
    omega
  · show serverRequestInitialCapacity ≤ nextCapacity r.capacity
    simp only [serverRequestInitialCapacity]
    omega
  · show nextCapacity r.capacity ≤ serverRequestMaxCapacity
    omega
  · exact (Block.length_resize _ _).trans hfresh
  · omega

/-- The head of the loop refuses, as it does without the memory or since none was given,
or there is room for a byte behind it. -/
theorem Receiver.Fits.grow (h : r.Fits received) (realloc : Block.Allocator UInt8) :
    (∃ result, r.grow realloc = .error result ∧
      ((∃ n, realloc.get n = none) ∨ r.reader.grow = .error result)) ∨
    ∃ grown, r.grow realloc = .ok grown ∧ grown.Fits received ∧ grown.length < grown.capacity ∧
      r.reader.grow = .ok grown.reader := by
  have hlength := h.length_reader
  by_cases hany : r.headers.any fun headers => headers.total > serverRequestMaxCapacity
  · refine .inl ⟨requestTooLarge, if_pos hany, .inr (if_pos hany)⟩
  by_cases hfull : r.length = r.capacity
  · have hfullReader : r.reader.buffer.length = r.reader.capacity := hlength.trans hfull
    by_cases hmax : r.capacity ≥ serverRequestMaxCapacity
    · refine .inl ⟨requestTooLarge, ?_, .inr ?_⟩
      · rw [Receiver.grow, if_neg hany, if_pos hfull, if_pos hmax]
      · rw [Reader.grow, Receiver.reader_headers, if_neg hany, if_pos hfullReader,
          Receiver.reader_capacity, if_pos hmax]
    · cases hget : realloc.get (nextCapacity r.capacity + 1) with
      | none =>
        refine .inl ⟨growFailed, ?_, .inl ⟨_, hget⟩⟩
        rw [Receiver.grow, if_neg hany, if_pos hfull, if_neg hmax, hget]
      | some fresh =>
        obtain ⟨hfits, hroom, htake⟩ := h.resize hfull hmax (realloc.size hget)
        refine .inr ⟨_, ?_, hfits, hroom, ?_⟩
        · rw [Receiver.grow, if_neg hany, if_pos hfull, if_neg hmax, hget]
        · rw [Reader.grow, Receiver.reader_headers, if_neg hany, if_pos hfullReader,
            Receiver.reader_capacity, if_neg hmax, ← nextCapacity_eq_min, ← htake]
          rfl
  · refine .inr ⟨r, ?_, h, lt_of_le_of_ne h.within hfull, ?_⟩
    · rw [Receiver.grow, if_neg hany, if_neg hfull]
    · rw [Reader.grow, Receiver.reader_headers, if_neg hany, if_neg]
      exact fun heq => hfull (hlength.symm.trans heq)

/-- Bytes for which there is room are stored inside the memory. -/
theorem Receiver.Fits.receive (h : r.Fits received) {chunk : Bytes}
    (hroom : chunk.length ≤ r.capacity - r.length) :
    (∃ result, r.receive chunk = some (.error result) ∧ r.reader.receive chunk = .error result) ∨
    ∃ next, r.receive chunk = some (.ok next) ∧ next.Fits (received + chunk.length) ∧
      r.reader.receive chunk = .ok next.reader := by
  have hlength := h.length_reader
  have hwithin := h.within
  obtain ⟨buffer, hstore, hholds⟩ := h.holds.storeAll chunk (by omega)
  have htake := hholds.take_length
  rw [hlength] at hstore
  rw [List.length_append, hlength] at htake
  -- both outcomes keep the memory and count the bytes, whatever the headers are
  have hfits : ∀ headers, Receiver.Fits ⟨buffer, r.capacity, r.length + chunk.length, headers⟩
      (received + chunk.length) := by
    intro headers
    refine ⟨congrArg (· + chunk.length) h.length, ?_, h.least, h.limit, hholds.2⟩
    show r.length + chunk.length ≤ r.capacity
    omega
  have hreader : ∀ headers,
      Receiver.reader ⟨buffer, r.capacity, r.length + chunk.length, headers⟩ =
        ⟨r.reader.buffer ++ chunk, r.capacity, headers⟩ := by
    intro headers
    simp only [Receiver.reader, htake]
  simp only [Receiver.receive, hstore, htake, Option.bind_eq_bind, Option.bind_some, Reader.receive]
  cases hheaders : r.headers with
  | some headers =>
    exact .inr ⟨_, rfl, hfits _, by rw [Receiver.reader_headers, hheaders, hreader]; rfl⟩
  | none =>
    rw [Receiver.reader_headers, hheaders]
    rcases readHeaders (r.reader.buffer ++ chunk) with _ | e | headers
    · exact .inr ⟨_, rfl, hfits _, by rw [hreader]; rfl⟩
    · exact .inl ⟨_, rfl, rfl⟩
    · exact .inr ⟨_, rfl, hfits _, by rw [hreader]; rfl⟩

theorem Receiver.Fits.complete (h : r.Fits received) : r.complete = r.reader.complete := by
  rw [Receiver.complete, Reader.complete, h.length_reader]
  rfl

/-- The terminator is stored inside the memory. -/
theorem Receiver.Fits.finish (h : r.Fits received) : r.finish = some r.reader.finish := by
  have hlength := h.length_reader
  have hwithin := h.within
  obtain ⟨buffer, hstore, hholds⟩ := h.holds.store (by omega) 0
  have htake := hholds.shorter.take_length
  rw [hlength] at hstore htake
  simp only [Receiver.finish, Reader.finish, hlength, hstore, Option.bind_eq_bind, Option.bind_some,
    htake]
  rw [Receiver.reader_headers]
  split
  · rfl
  · cases r.headers with
    | none => rfl
    | some headers => exact (apply_ite some _ _ _).symm

end

end MiniSql.Server
