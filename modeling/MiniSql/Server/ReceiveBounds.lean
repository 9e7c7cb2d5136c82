import MiniSql.Server.ReceiveMemory

/-!
# The bounds of the receive loop

Over all runs of `server_socket_read_request`, whatever `recv` answers: the bounds hold at
every step, and each call that is not interrupted gives a byte or is the last one.
-/

namespace MiniSql.Server

variable {σ : Type}

/-! ## What a step keeps -/

/-- The bounds at each point of the function. -/
def ReadState.Bounded (s : ReadState σ) : Prop :=
  match s.pc with
  | .head r | .behind r => r.Fits s.received
  | .receiving r => r.Fits s.received ∧ 1 ≤ r.asks ∧ r.asks = r.capacity - r.length
  | .returned _ => s.received ≤ serverRequestMaxCapacity

/-- At the head of the loop, or at a call of `recv` that is interrupted. -/
def ReadState.Interrupted (answer : Nat → σ → Received × σ) (s : ReadState σ) : Prop :=
  match s.pc with
  | .head _ => True
  | .receiving r => (answer r.asks s.socket).1 = .interrupted
  | .behind _ | .returned _ => False

/-- Out of the loop. -/
def ReadPc.Left : ReadPc → Prop
  | .head _ | .receiving _ => False
  | .behind _ | .returned _ => True

theorem ReadState.Bounded.received_le {s : ReadState σ} (h : s.Bounded) :
    s.received ≤ serverRequestMaxCapacity := by
  obtain ⟨pc, socket, received⟩ := s
  cases pc with
  | head r => exact Receiver.Fits.received_le h
  | receiving r => exact Receiver.Fits.received_le h.1
  | behind r => exact Receiver.Fits.received_le h
  | returned result => exact h

theorem initial_fits {buffer : Bytes} (h : buffer.length = serverRequestInitialCapacity + 1) :
    Receiver.Fits ⟨buffer, serverRequestInitialCapacity, 0, none⟩ 0 := by
  refine ⟨rfl, Nat.zero_le _, le_rfl, ?_, h⟩
  show serverRequestInitialCapacity ≤ serverRequestMaxCapacity
  decide

theorem readStart_bounded (malloc : Block.Allocator UInt8) (socket : σ) :
    (readStart malloc socket).Bounded := by
  unfold readStart
  cases hget : malloc.get (serverRequestInitialCapacity + 1) with
  | none => exact Nat.zero_le _
  | some buffer => exact initial_fits (malloc.size hget)

section

variable {realloc : Block.Allocator UInt8} {answer : Nat → σ → Received × σ}

/-- A call of `recv` that is not interrupted gives bytes or is the last one. -/
theorem receiveStep_bounded (hanswer : Answers answer) {r : Receiver} {s : ReadState σ}
    (h : r.Fits s.received) (hasks : r.asks = r.capacity - r.length) :
    ∃ next, receiveStep answer r s = some next ∧ next.Bounded ∧ s.received ≤ next.received ∧
      ((answer r.asks s.socket).1 ≠ .interrupted → s.received < next.received ∨ next.pc.Left) := by
  rcases hcall : answer r.asks s.socket with ⟨_ | _ | _ | _ | _, socket⟩
  case bytes chunk =>
    obtain ⟨hne, hroom⟩ := hanswer r.asks s.socket chunk (by rw [hcall])
    have hpos := List.length_pos_iff.mpr hne
    rw [hasks] at hroom
    have hlength := h.length
    have hwithin := h.within
    have hlimit := h.limit
    rcases h.receive hroom with ⟨result, hreceive, -⟩ | ⟨after, hreceive, hfits, -⟩
    · refine ⟨⟨.returned result, socket, s.received + chunk.length⟩, ?_, ?_,
        Nat.le_add_right _ _, ?_⟩
      · simp only [receiveStep, hcall, hreceive]
        rfl
      · show s.received + chunk.length ≤ serverRequestMaxCapacity
        omega
      · intro _
        exact .inl (Nat.lt_add_of_pos_right hpos)
    · refine ⟨⟨if after.complete then .behind after else .head after, socket,
        s.received + chunk.length⟩, ?_, ?_, Nat.le_add_right _ _, ?_⟩
      · simp only [receiveStep, hcall, hreceive]
        rfl
      · cases after.complete with
        | true => exact hfits
        | false => exact hfits
      · intro _
        exact .inl (Nat.lt_add_of_pos_right hpos)
  case closed | timedOut =>
    exact ⟨⟨.behind r, socket, s.received⟩, by simp only [receiveStep, hcall], h, le_rfl,
      fun _ => .inr trivial⟩
  case interrupted =>
    exact ⟨⟨.head r, socket, s.received⟩, by simp only [receiveStep, hcall], h, le_rfl,
      fun hnot => absurd rfl hnot⟩
  case failed =>
    exact ⟨⟨.returned receiveFailed, socket, s.received⟩, by simp only [receiveStep, hcall],
      h.received_le, le_rfl, fun _ => .inr trivial⟩

/-- Each step has a result and keeps the bounds. -/
theorem readStep_bounded (realloc : Block.Allocator UInt8) (hanswer : Answers answer)
    {s : ReadState σ} (h : s.Bounded) :
    ∃ next, readStep realloc answer s = some next ∧ next.Bounded ∧ s.received ≤ next.received ∧
      (¬ s.Interrupted answer → s.received < next.received ∨ next.pc.Left) := by
  obtain ⟨pc, socket, received⟩ := s
  cases pc with
  | head r =>
    rcases Receiver.Fits.grow h realloc with ⟨result, hgrow, -⟩ | ⟨grown, hgrow, hfits, hroom, -⟩
    · exact ⟨⟨.returned result, socket, received⟩, by simp only [readStep, hgrow],
        Receiver.Fits.received_le h, le_rfl, fun hnot => absurd trivial hnot⟩
    · have hasks := hfits.asks_eq hroom
      exact ⟨⟨.receiving grown, socket, received⟩, by simp only [readStep, hgrow],
        ⟨hfits, by omega, hasks⟩, le_rfl, fun hnot => absurd trivial hnot⟩
  | receiving r => exact receiveStep_bounded hanswer h.1 h.2.2
  | behind r =>
    exact ⟨⟨.returned r.reader.finish, socket, received⟩,
      by simp only [readStep, Receiver.Fits.finish h, Option.map_some],
      Receiver.Fits.received_le h, le_rfl, fun _ => .inr trivial⟩
  | returned result =>
    exact ⟨⟨.returned result, socket, received⟩, rfl, h, le_rfl, fun _ => .inr trivial⟩

/-! ## Runs -/

theorem readRun_add (m n : Nat) (s : ReadState σ) :
    readRun realloc answer (m + n) s = (readRun realloc answer m s).bind (readRun realloc answer n) := by
  induction m generalizing s with
  | zero => rw [Nat.zero_add, readRun, Option.bind_some]
  | succ m ih =>
    rw [Nat.add_right_comm, readRun, readRun]
    cases readStep realloc answer s with
    | none => rfl
    | some next => exact ih next

theorem readRun_bounded (realloc : Block.Allocator UInt8) (hanswer : Answers answer)
    {s : ReadState σ} (h : s.Bounded) (n : Nat) :
    ∃ next, readRun realloc answer n s = some next ∧ next.Bounded ∧ s.received ≤ next.received := by
  induction n generalizing s with
  | zero => exact ⟨s, rfl, h, le_rfl⟩
  | succ n ih =>
    obtain ⟨next, hstep, hnext, hle, -⟩ := readStep_bounded realloc hanswer h
    obtain ⟨last, hrun, hlast, hle'⟩ := ih hnext
    exact ⟨last, by rw [readRun, hstep, Option.bind_some, hrun], hlast, hle.trans hle'⟩

theorem readRun_returned {s : ReadState σ} {result : ReadResult} (h : s.pc = .returned result)
    (n : Nat) : readRun realloc answer n s = some s := by
  induction n with
  | zero => rfl
  | succ n ih =>
    have hstep : readStep realloc answer s = some s := by simp only [readStep, h]
    rw [readRun, hstep, Option.bind_some, ih]

end

section

variable (realloc : Block.Allocator UInt8) (answer : Nat → σ → Received × σ)

def ReturnsWith (s : ReadState σ) (result : ReadResult) : Prop :=
  ∃ n next, readRun realloc answer n s = some next ∧ next.pc = .returned result

def Returns (s : ReadState σ) : Prop := ∃ result, ReturnsWith realloc answer s result

/-- From some point on every call of `recv` is interrupted. -/
def Stalls (s : ReadState σ) : Prop :=
  ∃ n, ∀ m, n ≤ m → ∃ next, readRun realloc answer m s = some next ∧ next.Interrupted answer

end

section

variable {realloc : Block.Allocator UInt8} {answer : Nat → σ → Received × σ} {s next : ReadState σ}

theorem ReturnsWith.of_run {result : ReadResult} {n : Nat}
    (hrun : readRun realloc answer n s = some next)
    (h : ReturnsWith realloc answer next result) : ReturnsWith realloc answer s result := by
  obtain ⟨m, last, hlast, hpc⟩ := h
  refine ⟨n + m, last, ?_, hpc⟩
  rw [readRun_add, hrun, Option.bind_some, hlast]

theorem ReturnsWith.of_step {result : ReadResult} (next : ReadState σ)
    (hstep : readStep realloc answer s = some next)
    (h : ReturnsWith realloc answer next result) : ReturnsWith realloc answer s result :=
  ReturnsWith.of_run (n := 1) (by rw [readRun, hstep, Option.bind_some, readRun]) h

theorem Stalls.of_run {n : Nat} (hrun : readRun realloc answer n s = some next)
    (h : Stalls realloc answer next) : Stalls realloc answer s := by
  obtain ⟨k, hk⟩ := h
  refine ⟨n + k, ?_⟩
  intro m hm
  obtain ⟨last, hlast, hinterrupted⟩ := hk (m - n) (by omega)
  refine ⟨last, ?_, hinterrupted⟩
  rw [← Nat.add_sub_cancel' (Nat.le_of_add_right_le hm), readRun_add, hrun, Option.bind_some, hlast]

theorem Receiver.Fits.behind_returns {r : Receiver} {received : Nat} (h : r.Fits received) (socket : σ) :
    ReturnsWith realloc answer ⟨.behind r, socket, received⟩ r.reader.finish := by
  apply ReturnsWith.of_step ⟨.returned r.reader.finish, socket, received⟩
  · simp only [readStep, h.finish, Option.map_some]
  · exact ⟨0, _, rfl, rfl⟩

theorem ReadState.Bounded.left_returns (realloc : Block.Allocator UInt8)
    (answer : Nat → σ → Received × σ) (h : s.Bounded) (hleft : s.pc.Left) :
    Returns realloc answer s := by
  obtain ⟨pc, socket, received⟩ := s
  cases pc with
  | head r => exact hleft.elim
  | receiving r => exact hleft.elim
  | behind r => exact ⟨_, Receiver.Fits.behind_returns h socket⟩
  | returned result => exact ⟨result, 0, _, rfl, rfl⟩

/-- Each call that is not interrupted takes a byte of those that may still come, so only
interrupted calls can go on forever. -/
theorem ReadState.Bounded.returns_or_stalls (realloc : Block.Allocator UInt8)
    (hanswer : Answers answer) (h : s.Bounded) :
    Returns realloc answer s ∨ Stalls realloc answer s := by
  generalize hleft : serverRequestMaxCapacity - s.received = left
  induction left using Nat.strongRecOn generalizing s with
  | ind left ih =>
    by_cases hall : ∀ m, ∃ next, readRun realloc answer m s = some next ∧ next.Interrupted answer
    · exact .inr ⟨0, fun m _ => hall m⟩
    · push Not at hall
      obtain ⟨m, hm⟩ := hall
      obtain ⟨before, hrun, hbefore, hle⟩ := readRun_bounded realloc hanswer h m
      obtain ⟨after, hstep, hafter, -, hprogress⟩ :=
        readStep_bounded realloc hanswer hbefore
      have hsucc : readRun realloc answer (m + 1) s = some after := by
        rw [readRun_add, hrun, Option.bind_some, readRun, hstep, Option.bind_some, readRun]
      rcases hprogress (hm before hrun) with hlt | hout
      · have hmax := hafter.received_le
        rcases ih _ (by omega) hafter rfl with ⟨result, hreturns⟩ | hstalls
        · exact .inl ⟨result, hreturns.of_run hsucc⟩
        · exact .inr (hstalls.of_run hsucc)
      · obtain ⟨result, hreturns⟩ := hafter.left_returns realloc answer hout
        exact .inl ⟨result, hreturns.of_run hsucc⟩

theorem Returns.not_stalls (h : Returns realloc answer s) : ¬ Stalls realloc answer s := by
  rintro ⟨n, hn⟩
  obtain ⟨result, m, last, hlast, hpc⟩ := h
  obtain ⟨next, hrun, hinterrupted⟩ := hn (m + n) (Nat.le_add_left _ _)
  rw [readRun_add, hlast, Option.bind_some, readRun_returned hpc, Option.some.injEq] at hrun
  rw [← hrun, ReadState.Interrupted, hpc] at hinterrupted
  exact hinterrupted

end

/-! ## The list of events -/

theorem recv_answers : Answers recv := by
  intro room events chunk h
  rcases events with _ | ⟨⟨first, more⟩ | _ | _ | _, events⟩
  case cons.packet =>
    cases room with
    | zero => cases h
    | succ room =>
      have hchunk : first :: more.take room = chunk := by
        rcases hdrop : more.drop room with _ | ⟨next, rest⟩
        · simpa only [recv, hdrop, Received.bytes.injEq] using h
        · simpa only [recv, hdrop, Received.bytes.injEq] using h
      rw [← hchunk]
      refine ⟨List.cons_ne_nil _ _, ?_⟩
      rw [List.length_cons, List.length_take]
      omega
  all_goals cases h

/-- With room for a byte, 0 is the end of the stream. -/
theorem recv_closed {room : Nat} {events : List RecvEvent} (hroom : 1 ≤ room)
    (h : (recv room events).1 = .closed) : events = [] := by
  rcases events with _ | ⟨⟨first, more⟩ | _ | _ | _, events⟩
  case nil => rfl
  case cons.packet =>
    obtain ⟨room, rfl⟩ := Nat.exists_eq_add_of_le' hroom
    rcases hdrop : more.drop room with _ | ⟨next, rest⟩
    · simp [recv, hdrop] at h
    · simp [recv, hdrop] at h
  all_goals cases h

/-- A call that gives bytes: it returns as the loop without the memory does, if that is so
at the head of the loop behind it. -/
theorem Receiver.Fits.readLoop_bytes {realloc : Block.Allocator UInt8} {r grown : Receiver}
    {received : Nat} {events rest : List RecvEvent} {chunk : Bytes} (h : grown.Fits received)
    (hroom : grown.length < grown.capacity) (hreader : r.reader.grow = .ok grown.reader)
    (hcall : recv grown.asks events = (.bytes chunk, rest))
    (hrest : ∀ after : Receiver, after.Fits (received + chunk.length) →
      ReturnsWith realloc recv ⟨.head after, rest, received + chunk.length⟩ (readLoop after.reader rest)) :
    ReturnsWith realloc recv ⟨.receiving grown, events, received⟩ (readLoop r.reader events) := by
  have hchunk := (recv_answers _ _ chunk (by rw [hcall])).2
  rw [h.asks_eq hroom] at hchunk
  have hsameCall := hcall
  rw [h.reader_asks hroom] at hsameCall
  rcases h.receive hchunk with ⟨result, hreceive, hsame⟩ | ⟨after, hreceive, hafter, hsame⟩
  · rw [readLoop_bytes_error hreader hsameCall hsame]
    refine ⟨1, ⟨.returned result, rest, received + chunk.length⟩, ?_, rfl⟩
    simp only [readRun, readStep, receiveStep, hcall, hreceive]
    rfl
  · rw [Server.readLoop_bytes hreader hsameCall hsame, ← hafter.complete]
    apply ReturnsWith.of_step
      ⟨if after.complete then .behind after else .head after, rest, received + chunk.length⟩
    · simp only [readStep, receiveStep, hcall, hreceive]
      rfl
    · cases after.complete with
      | true => exact hafter.behind_returns rest
      | false => exact hrest after hafter

/-- From the head of the loop the steps return what the loop without the memory does. -/
theorem Receiver.Fits.readLoop {realloc : Block.Allocator UInt8} (hrealloc : ∀ n, realloc.get n ≠ none)
    {r : Receiver} {received : Nat} (h : r.Fits received) (events : List RecvEvent) :
    ReturnsWith realloc recv ⟨.head r, events, received⟩ (readLoop r.reader events) := by
  generalize hleft : pending events = left
  induction left using Nat.strongRecOn generalizing r received events with
  | ind left ih =>
    rcases h.grow realloc with ⟨result, hgrow, ⟨n, hnone⟩ | hrefused⟩ |
      ⟨grown, hgrow, hfits, hroom, hreader⟩
    · exact absurd hnone (hrealloc n)
    · rw [readLoop_refused hrefused]
      refine ⟨1, ⟨.returned result, events, received⟩, ?_, rfl⟩
      simp only [readRun, readStep, hgrow, Option.bind_some]
    · apply ReturnsWith.of_step ⟨.receiving grown, events, received⟩
      · simp only [readStep, hgrow]
      have hasks := hfits.reader_asks hroom
      rcases hcall : recv grown.asks events with ⟨_ | _ | _ | _ | _, rest⟩
      case bytes chunk =>
        apply hfits.readLoop_bytes hroom hreader hcall
        intro after hafter
        exact ih _ (hleft ▸ recv_pending hcall (by simp)) hafter rest rfl
      case closed =>
        apply ReturnsWith.of_step ⟨.behind grown, rest, received⟩
        · simp only [readStep, receiveStep, hcall]
        · rw [readLoop_closed hreader (hasks ▸ hcall)]
          exact hfits.behind_returns rest
      case interrupted =>
        apply ReturnsWith.of_step ⟨.head grown, rest, received⟩
        · simp only [readStep, receiveStep, hcall]
        · rw [readLoop_interrupted hreader (hasks ▸ hcall)]
          exact ih _ (hleft ▸ recv_pending hcall (by simp)) hfits rest rfl
      case timedOut =>
        apply ReturnsWith.of_step ⟨.behind grown, rest, received⟩
        · simp only [readStep, receiveStep, hcall]
        · rw [readLoop_timedOut hreader (hasks ▸ hcall)]
          exact hfits.behind_returns rest
      case failed =>
        rw [readLoop_failed hreader (hasks ▸ hcall)]
        refine ⟨1, ⟨.returned receiveFailed, rest, received⟩, ?_, rfl⟩
        simp only [readRun, readStep, receiveStep, hcall, Option.bind_some]

/-- **The memory changes nothing.** Where it can be had, the function returns what
`serverSocketReadRequest` does. -/
theorem readRun_serverSocketReadRequest {malloc realloc : Block.Allocator UInt8}
    (hmalloc : ∀ n, malloc.get n ≠ none) (hrealloc : ∀ n, realloc.get n ≠ none)
    (events : List RecvEvent) :
    ReturnsWith realloc recv (readStart malloc events) (serverSocketReadRequest events) := by
  obtain ⟨buffer, hget⟩ := Option.ne_none_iff_exists'.mp (hmalloc (serverRequestInitialCapacity + 1))
  simp only [readStart, hget]
  exact (initial_fits (malloc.size hget)).readLoop hrealloc events

/-! ## The bounds -/

/-- **The receive loop keeps to its memory.** Whatever `recv` answers and whichever
allocations fail, no step stores outside the memory and the bounds hold at each. The
function returns unless `recv` is interrupted forever, and 0 is the end of the stream. -/
theorem receive_loop_bounds (malloc realloc : Block.Allocator UInt8)
    (answer : Nat → σ → Received × σ) (hanswer : Answers answer) (socket : σ) :
    (∀ n, ∃ s, readRun realloc answer n (readStart malloc socket) = some s ∧ s.Bounded) ∧
    (Returns realloc answer (readStart malloc socket) ↔
      ¬ Stalls realloc answer (readStart malloc socket)) ∧
    ∀ events n s r, readRun realloc recv n (readStart malloc events) = some s →
      s.pc = .receiving r → (recv r.asks s.socket).1 = .closed → s.socket = [] := by
  have hstart := readStart_bounded malloc socket
  refine ⟨?_, ?_, ?_⟩
  · intro n
    obtain ⟨s, hrun, hs, -⟩ := readRun_bounded realloc hanswer hstart n
    exact ⟨s, hrun, hs⟩
  · constructor
    · exact Returns.not_stalls
    · intro hnot
      rcases hstart.returns_or_stalls realloc hanswer with hreturns | hstalls
      · exact hreturns
      · exact absurd hstalls hnot
  · intro events n s r hrun hpc hclosed
    obtain ⟨s', hrun', hs, -⟩ :=
      readRun_bounded realloc recv_answers (readStart_bounded malloc events) n
    cases hrun.symm.trans hrun'
    rw [ReadState.Bounded, hpc] at hs
    exact recv_closed hs.2.1 hclosed

/-- Memory that can always be had. -/
def zeros : Block.Allocator UInt8 := ⟨fun n => some (List.replicate n 0), by
  rintro n _ ⟨⟩
  exact List.length_replicate⟩

theorem receive_loop_bounds_packet :
    Answers recv ∧ ∀ n, ∃ s, readRun zeros recv n
      (readStart zeros [.packet 0x47 [], .interrupted, .timedOut]) = some s ∧ s.Bounded :=
  ⟨recv_answers, (receive_loop_bounds zeros zeros recv recv_answers _).1⟩

def alwaysInterrupted (_room : Nat) (socket : Unit) : Received × Unit := (.interrupted, socket)

/-- The loop goes back and forth between its head and the call. -/
theorem alwaysInterrupted_run {r : Receiver} (hgrow : r.grow zeros = .ok r) (n : Nat) :
    readRun zeros alwaysInterrupted n ⟨.head r, (), 0⟩ = some ⟨.head r, (), 0⟩ ∨
      readRun zeros alwaysInterrupted n ⟨.head r, (), 0⟩ = some ⟨.receiving r, (), 0⟩ := by
  induction n with
  | zero => exact .inl rfl
  | succ n ih =>
    rcases ih with hhead | hreceiving
    · right
      rw [readRun_add, hhead, Option.bind_some]
      simp only [readRun, readStep, hgrow, Option.bind_some]
    · left
      rw [readRun_add, hreceiving, Option.bind_some]
      rfl

theorem alwaysInterrupted_stalls : Stalls zeros alwaysInterrupted (readStart zeros ()) := by
  refine ⟨0, ?_⟩
  intro m _
  rcases alwaysInterrupted_run (r := ⟨_, serverRequestInitialCapacity, 0, none⟩) rfl m with hrun | hrun
  · exact ⟨_, hrun, trivial⟩
  · exact ⟨_, hrun, rfl⟩

/-- A `recv` that is interrupted each time, which `EINTR` lets happen: the function does
not return. -/
theorem interrupted_forever_not_returns :
    Answers alwaysInterrupted ∧ ¬ Returns zeros alwaysInterrupted (readStart zeros ()) := by
  constructor
  · intro room socket chunk h
    cases h
  · intro hreturns
    exact hreturns.not_stalls alwaysInterrupted_stalls

end MiniSql.Server
