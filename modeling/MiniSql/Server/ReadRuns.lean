import MiniSql.Server.Framing

/-!
# What a stream is read as

Whatever the packets are, the result of `server_socket_read_request` is given by the
stream alone, except for one thing: how many bytes behind a request that is complete
the last `recv` has brought with it.
-/

namespace MiniSql.Server

/-! ## Streams -/

/-- A client that sends some bytes and closes: packets and interrupted calls. -/
structure Sends (bytes : Bytes) (events : List RecvEvent) : Prop where
  quiet : ∀ event ∈ events, event ≠ .timedOut ∧ event ≠ .failed
  stream : stream events = bytes

/-- What `recv` does where there is room. -/
inductive RecvSends (room : Nat) (bytes : Bytes) (events : List RecvEvent) :
    Received × List RecvEvent → Prop
  | closed (nothing : bytes = []) : RecvSends room bytes events (.closed, [])
  | interrupted {rest : List RecvEvent} (sends : Sends bytes rest)
      (fewer : rest.length ≤ events.length) : RecvSends room bytes events (.interrupted, rest)
  | bytes {chunk more : Bytes} {rest : List RecvEvent} (split : bytes = chunk ++ more)
      (sends : Sends more rest) (nonempty : chunk ≠ []) (fits : chunk.length ≤ room)
      (fewer : rest.length ≤ events.length) (full : chunk.length = room ∨ rest.length < events.length) :
      RecvSends room bytes events (.bytes chunk, rest)

theorem recv_sends {bytes : Bytes} {events : List RecvEvent} (h : Sends bytes events) {room : Nat}
    (hroom : 0 < room) : RecvSends room bytes events (recv room events) := by
  obtain ⟨hquiet, rfl⟩ := h
  rcases events with _ | ⟨event, events⟩
  · exact .closed rfl
  obtain ⟨⟨htimedOut, hfailed⟩, hrest⟩ := List.forall_mem_cons.mp hquiet
  cases event with
  | timedOut => exact absurd rfl htimedOut
  | failed => exact absurd rfl hfailed
  | interrupted => exact .interrupted ⟨hrest, rfl⟩ (Nat.le_succ _)
  | packet first more =>
    obtain ⟨room, rfl⟩ := Nat.exists_eq_add_one_of_ne_zero (Nat.ne_zero_of_lt hroom)
    rcases hdrop : more.drop room with _ | ⟨next, left⟩
    · have hshort : more.length ≤ room := List.drop_eq_nil_iff.mp hdrop
      simp only [recv, hdrop, List.take_of_length_le hshort]
      exact .bytes rfl ⟨hrest, rfl⟩ (by simp) (by simpa using hshort) (by simp) (.inr (by simp))
    · have hlong := congrArg List.length hdrop
      simp only [List.length_drop, List.length_cons] at hlong
      have hsplit : stream (.packet first more :: events) =
          (first :: more.take room) ++ stream (.packet next left :: events) := by
        have hmore := List.take_append_drop room more
        rw [hdrop] at hmore
        rw [stream, List.flatMap_cons, RecvEvent.bytes]
        nth_rewrite 1 [← hmore]
        simp [stream, RecvEvent.bytes]
      have hfull : (first :: more.take room).length = room + 1 := by
        simp only [List.length_cons, List.length_take]
        omega
      simp only [recv, hdrop]
      exact .bytes hsplit ⟨List.forall_mem_cons.mpr ⟨⟨by simp, by simp⟩, hrest⟩, rfl⟩ (by simp)
        hfull.le (by simp) (.inl hfull)

/-! ## The verdict -/

/-- Where the reader stops at the earliest. -/
def Headers.stop (headers : Headers) : Nat := max headers.headerLength headers.total

/-- What a stream is read as: a result, or a request with its headers. -/
inductive Verdict
  | settled (result : ReadResult)
  | accepted (headers : Headers)

def verdict (bytes : Bytes) : Verdict :=
  match readHeaders (bytes.take serverRequestMaxCapacity) with
  | none =>
    if bytes = [] then .settled .empty
    else if bytes.length < serverRequestMaxCapacity then .settled headersIncomplete
    else .settled requestTooLarge
  | some (.error e) => .settled (.error e)
  | some (.ok headers) =>
    if headers.total > serverRequestMaxCapacity then .settled requestTooLarge
    else if bytes.length < headers.total then .settled bodyIncomplete
    else .accepted headers

/-- How much is read of a request: no less than belongs to it and no more than there
is room for at the time. From a single packet the room is filled. -/
structure Stops (bytes : Bytes) (headers : Headers) (events : List RecvEvent) (n : Nat) : Prop where
  reached : headers.stop ≤ n
  within : n ≤ bytes.length
  room : ∀ k, headers.stop ≤ 1024 * 2 ^ k → n ≤ 1024 * 2 ^ k
  filled : events.length ≤ 1 → n = bytes.length ∨ ∃ k, n = 1024 * 2 ^ k

/-- The results that a verdict allows. -/
def Verdict.Allows (bytes : Bytes) (events : List RecvEvent) : Verdict → ReadResult → Prop
  | .settled expected, result => result = expected
  | .accepted headers, result => ∃ n, Stops bytes headers events n ∧ result = .ok (bytes.take n)

/-! ## The loop -/

/-- The variables of the loop at its head. -/
structure Reading (bytes : Bytes) (start : List RecvEvent) (reader : Reader)
    (events : List RecvEvent) : Prop where
  sends : ∃ rest, bytes = reader.buffer ++ rest ∧ Sends rest events
  capacity : ∃ k ≤ 6, reader.capacity = 1024 * 2 ^ k
  fits : reader.buffer.length ≤ reader.capacity
  least : ∀ k, reader.buffer.length < 1024 * 2 ^ k → reader.capacity ≤ 1024 * 2 ^ k
  headers : reader.headers.map .ok = readHeaders reader.buffer
  incomplete : ∀ headers, reader.headers = some headers → reader.buffer.length < headers.total
  single : start.length ≤ 1 → events.length ≤ 1

theorem capacity_le {k : Nat} (h : k ≤ 6) : 1024 * 2 ^ k ≤ serverRequestMaxCapacity :=
  Nat.mul_le_mul_left 1024 (Nat.pow_le_pow_right (by decide) h)

theorem Reading.limit {bytes : Bytes} {start : List RecvEvent} {reader : Reader}
    {events : List RecvEvent} (h : Reading bytes start reader events) :
    reader.capacity ≤ serverRequestMaxCapacity := by
  obtain ⟨k, hk, hcapacity⟩ := h.capacity
  exact hcapacity ▸ capacity_le hk

/-- Headers that are in a buffer are those of the stream. -/
theorem readHeaders_take {buffer : Bytes} {headers : Except SqlError Headers}
    (h : readHeaders buffer = some headers) (hfits : buffer.length ≤ serverRequestMaxCapacity)
    (rest : Bytes) : readHeaders ((buffer ++ rest).take serverRequestMaxCapacity) = some headers := by
  rw [List.take_append, List.take_of_length_le hfits]
  exact readHeaders_append h _

section

variable {bytes : Bytes} {start events : List RecvEvent} {reader : Reader}

theorem Reading.verdict_of_total (h : Reading bytes start reader events) {headers : Headers}
    (hheaders : reader.headers = some headers) (htotal : headers.total > serverRequestMaxCapacity) :
    verdict bytes = .settled requestTooLarge := by
  obtain ⟨rest, rfl, -⟩ := h.sends
  have hread := h.headers
  rw [hheaders, Option.map_some] at hread
  simp [verdict, readHeaders_take hread.symm (h.fits.trans h.limit) rest, htotal]

/-- In a buffer that cannot grow there are no headers yet: with them the request would
be complete. -/
theorem Reading.verdict_of_full (h : Reading bytes start reader events)
    (hfull : reader.buffer.length = serverRequestMaxCapacity)
    (htotal : ∀ headers, reader.headers = some headers → headers.total ≤ serverRequestMaxCapacity) :
    verdict bytes = .settled requestTooLarge := by
  obtain ⟨rest, rfl, -⟩ := h.sends
  have hread := h.headers
  have hnone : reader.headers = none := by
    by_contra hsome
    obtain ⟨headers, hheaders⟩ := Option.ne_none_iff_exists'.mp hsome
    have hless := h.incomplete headers hheaders
    have hmost := htotal headers hheaders
    omega
  have htake : (reader.buffer ++ rest).take serverRequestMaxCapacity = reader.buffer := by
    rw [← hfull, List.take_left']
    rfl
  have hne : reader.buffer ++ rest ≠ [] := by
    intro hnil
    rw [(List.append_eq_nil_iff.mp hnil).1] at hfull
    cases hfull
  rw [hnone, Option.map_none] at hread
  rw [verdict, htake, ← hread]
  simp only [hne, if_false, List.length_append, hfull]
  rw [if_neg (by omega)]

theorem Reading.double (h : Reading bytes start reader events)
    (hfull : reader.buffer.length = reader.capacity)
    (hmax : reader.capacity < serverRequestMaxCapacity) :
    reader.buffer.length < min (reader.capacity * 2) serverRequestMaxCapacity ∧
    Reading bytes start
      { reader with capacity := min (reader.capacity * 2) serverRequestMaxCapacity } events := by
  obtain ⟨k, hk, hcapacity⟩ := h.capacity
  have hk6 : k ≠ 6 := by
    rintro rfl
    exact absurd hcapacity.ge (Nat.not_le.mpr hmax)
  have hdouble : min (reader.capacity * 2) serverRequestMaxCapacity = 1024 * 2 ^ (k + 1) := by
    rw [hcapacity, mul_assoc, ← pow_succ]
    exact min_eq_left (capacity_le (by omega))
  have hless : reader.buffer.length < 1024 * 2 ^ (k + 1) := by
    rw [hfull, hcapacity]
    exact Nat.mul_lt_mul_of_pos_left (Nat.pow_lt_pow_right (by decide) (Nat.lt_succ_self k)) (by decide)
  rw [hdouble]
  refine ⟨hless, h.sends, ⟨k + 1, by omega, rfl⟩, hless.le, fun m hm => ?_, h.headers, h.incomplete,
    h.single⟩
  rw [hfull, hcapacity] at hm
  have hkm : k < m := (Nat.pow_lt_pow_iff_right (by decide)).mp (Nat.lt_of_mul_lt_mul_left hm)
  exact Nat.mul_le_mul_left 1024 (Nat.pow_le_pow_right (by decide) hkm)

/-- The head of the loop refuses a request that is too large, or makes room. -/
theorem Reading.grow (h : Reading bytes start reader events) :
    (reader.grow = .error requestTooLarge ∧ verdict bytes = .settled requestTooLarge) ∨
    ∃ grown, reader.grow = .ok grown ∧ Reading bytes start grown events ∧
      grown.buffer.length < grown.capacity ∧
      ∀ headers, grown.headers = some headers → headers.total ≤ serverRequestMaxCapacity := by
  by_cases hlarge : ∃ headers, reader.headers = some headers ∧ headers.total > serverRequestMaxCapacity
  · obtain ⟨headers, hheaders, htotal⟩ := hlarge
    exact .inl ⟨by simp [Reader.grow, hheaders, htotal], h.verdict_of_total hheaders htotal⟩
  have htotal : ∀ headers, reader.headers = some headers → headers.total ≤ serverRequestMaxCapacity :=
    fun headers hheaders => Nat.le_of_not_lt fun hover => hlarge ⟨headers, hheaders, hover⟩
  have hany : (reader.headers.any fun headers => headers.total > serverRequestMaxCapacity) = false := by
    cases hheaders : reader.headers with
    | none => rfl
    | some headers => simpa using htotal headers hheaders
  by_cases hfull : reader.buffer.length = reader.capacity
  · by_cases hmax : reader.capacity ≥ serverRequestMaxCapacity
    · refine .inl ⟨?_, h.verdict_of_full (by have := h.limit; omega) htotal⟩
      simp only [Reader.grow, hany, hfull, hmax, if_true, if_false, Bool.false_eq_true]
    · obtain ⟨hless, hdouble⟩ := h.double hfull (by omega)
      refine .inr ⟨_, ?_, hdouble, hless, htotal⟩
      simp only [Reader.grow, hany, hfull, hmax, if_true, if_false, Bool.false_eq_true]
  · refine .inr ⟨reader, ?_, h, lt_of_le_of_ne h.fits hfull, htotal⟩
    simp only [Reader.grow, hany, hfull, if_false, Bool.false_eq_true]

/-- A buffer whose request is not complete ends before the reader may stop. -/
theorem Reading.lt_stop (h : Reading bytes start reader events) {more : Bytes} {headers : Headers}
    (hheaders : readHeaders (reader.buffer ++ more) = some (.ok headers)) :
    reader.buffer.length < headers.stop := by
  cases hreader : reader.headers with
  | none =>
    have hnone := h.headers
    rw [hreader, Option.map_none] at hnone
    refine lt_max_of_lt_left (Nat.lt_of_not_le fun hinside => ?_)
    cases hnone.trans (readHeaders_of_append hheaders hinside)
  | some found =>
    have hfound := h.headers
    rw [hreader, Option.map_some] at hfound
    have heq : found = headers := by
      simpa using (readHeaders_append hfound.symm more).symm.trans hheaders
    exact lt_max_of_lt_right (heq ▸ h.incomplete found hreader)

theorem Reader.receive_cases (hheaders : reader.headers.map .ok = readHeaders reader.buffer)
    (chunk : Bytes) :
    (∃ e, readHeaders (reader.buffer ++ chunk) = some (.error e) ∧
      reader.receive chunk = .error (.error e)) ∨
    ∃ headers, headers.map .ok = readHeaders (reader.buffer ++ chunk) ∧
      reader.receive chunk = .ok ⟨reader.buffer ++ chunk, reader.capacity, headers⟩ := by
  cases hreader : reader.headers with
  | some found =>
    rw [hreader, Option.map_some] at hheaders
    refine .inr ⟨some found, (readHeaders_append hheaders.symm chunk).symm, ?_⟩
    simp only [Reader.receive, hreader]
  | none =>
    rcases hread : readHeaders (reader.buffer ++ chunk) with _ | e | headers
    · refine .inr ⟨none, rfl, ?_⟩
      simp only [Reader.receive, hreader, hread]
    · exact .inl ⟨e, rfl, by simp only [Reader.receive, hreader, hread]⟩
    · refine .inr ⟨some headers, rfl, ?_⟩
      simp only [Reader.receive, hreader, hread]

/-- Where the client has closed, the loop ends without a request. -/
theorem Reading.closed (h : Reading bytes start reader events)
    (hroom : reader.buffer.length < reader.capacity)
    (htotal : ∀ headers, reader.headers = some headers → headers.total ≤ serverRequestMaxCapacity)
    (hall : bytes = reader.buffer) : verdict bytes = .settled reader.finish := by
  subst hall
  have hlength : reader.buffer.length < serverRequestMaxCapacity := hroom.trans_le h.limit
  have hread := h.headers
  rw [verdict, List.take_of_length_le hlength.le, ← hread]
  cases hheaders : reader.headers with
  | none =>
    by_cases hnil : reader.buffer = []
    · simp [Reader.finish, hnil]
    · simp [Reader.finish, hnil, hheaders, hlength]
  | some headers =>
    have hless := h.incomplete headers hheaders
    have hne : reader.buffer ≠ [] := by
      intro hnil
      rw [hheaders, hnil] at hread
      cases hread
    have hmost := Nat.not_lt.mpr (htotal headers hheaders)
    simp [Reader.finish, hheaders, hne, hless, hmost]

/-- A loop that ends because the client closed does not return a request. -/
theorem Reading.finish_ne_ok (h : Reading bytes start reader events) (buffer : Bytes) :
    reader.finish ≠ .ok buffer := by
  by_cases hnil : reader.buffer.length = 0
  · simp [Reader.finish, hnil]
  · cases hheaders : reader.headers with
    | none => simp [Reader.finish, hnil, hheaders, headersIncomplete]
    | some headers =>
      have hless := h.incomplete headers hheaders
      simp [Reader.finish, hnil, hheaders, hless, bodyIncomplete]

section

-- A chunk arrives that fits, and fills the room or ends a packet.
variable (h : Reading bytes start reader events) (hroom : reader.buffer.length < reader.capacity)
  {chunk more : Bytes} {rest : List RecvEvent} (hbytes : bytes = reader.buffer ++ chunk ++ more)
  (hsends : Sends more rest) (hfits : chunk.length ≤ reader.capacity - reader.buffer.length)
  (hfull : chunk.length = reader.capacity - reader.buffer.length ∨ rest.length < events.length)
include h hroom hbytes hsends hfits hfull

/-- The bytes that make a request complete end where a reader may stop. -/
theorem Reading.stops {headers : Headers} (hread : readHeaders (reader.buffer ++ chunk) = some (.ok headers))
    (hdone : headers.total ≤ (reader.buffer ++ chunk).length) :
    Stops bytes headers start (reader.buffer ++ chunk).length where
  reached := max_le (readHeaders_le hread) hdone
  within := hbytes ▸ (List.prefix_append _ more).length_le
  room := by
    intro k hk
    have hcapacity := h.least k ((h.lt_stop hread).trans_le hk)
    rw [List.length_append]
    omega
  filled := by
    intro hstart
    have hevents := h.single hstart
    rcases hfull with hfull | hfewer
    · obtain ⟨k, -, hcapacity⟩ := h.capacity
      refine .inr ⟨k, ?_⟩
      rw [List.length_append]
      omega
    · obtain rfl : rest = [] := List.length_eq_zero_iff.mp (by omega)
      obtain rfl : [] = more := hsends.stream
      rw [hbytes, List.append_nil]
      exact .inl rfl

/-- Bytes arrive: they show that the length cannot be read, or the request is complete,
or the loop goes on. -/
theorem Reading.receive (hchunk : chunk ≠ []) (hfewer : rest.length ≤ events.length) :
    (∃ e, reader.receive chunk = .error (.error e) ∧ verdict bytes = .settled (.error e)) ∨
    ∃ next, reader.receive chunk = .ok next ∧
      (next.complete = true → (verdict bytes).Allows bytes start next.finish) ∧
      (next.complete = false → Reading bytes start next rest) := by
  have hlimit := h.limit
  have hlength : (reader.buffer ++ chunk).length ≤ reader.capacity := by
    rw [List.length_append]
    omega
  rcases Reader.receive_cases h.headers chunk with ⟨e, hread, hreceive⟩ | ⟨headers, hread, hreceive⟩
  · refine .inl ⟨e, hreceive, ?_⟩
    rw [hbytes, verdict, readHeaders_take hread (hlength.trans hlimit)]
  · refine .inr ⟨_, hreceive, fun hcomplete => ?_, fun hincomplete => ?_⟩
    · obtain ⟨found, rfl, hdone⟩ : ∃ found, headers = some found ∧
          found.total ≤ (reader.buffer ++ chunk).length := by
        cases headers with
        | none => cases hcomplete
        | some found => exact ⟨found, rfl, by simpa [Reader.complete] using hcomplete⟩
      have hstops := h.stops hroom hbytes hsends hfits hfull hread.symm hdone
      have hverdict : verdict bytes = .accepted found := by
        have hless := hdone.trans hstops.within
        rw [hbytes, verdict, readHeaders_take hread.symm (hlength.trans hlimit), ← hbytes]
        simp [Nat.not_lt.mpr (hdone.trans (hlength.trans hlimit)), Nat.not_lt.mpr hless]
      rw [hverdict]
      refine ⟨_, hstops, ?_⟩
      rw [hbytes, List.take_left' rfl]
      have hsome : (reader.buffer ++ chunk).length ≠ 0 := by simp [hchunk]
      simp only [Reader.finish, hsome, if_false]
      rw [if_neg (Nat.not_lt.mpr hdone)]
    · refine ⟨⟨more, hbytes, hsends⟩, h.capacity, hlength, fun k hk => h.least k ?_, hread,
        fun found hfound => ?_, fun hstart => hfewer.trans (h.single hstart)⟩
      · rw [List.length_append] at hk
        omega
      · subst hfound
        simpa [Reader.complete] using hincomplete

end

theorem recv_append {room : Nat} (hevents : events ≠ []) (later : List RecvEvent) :
    recv room (events ++ later) = ((recv room events).1, (recv room events).2 ++ later) := by
  rcases events with _ | ⟨event, events⟩
  · exact absurd rfl hevents
  cases event with
  | packet first more =>
    cases room with
    | zero => rfl
    | succ room => rcases hdrop : more.drop room with _ | ⟨next, left⟩ <;> simp [recv, hdrop]
  | interrupted => rfl
  | timedOut => rfl
  | failed => rfl

/-- One turn of the loop, with other events behind those of the client. Only a turn
that finds the connection closed depends on there being none. -/
inductive Turn (bytes : Bytes) (start : List RecvEvent) (reader : Reader) (events : List RecvEvent) :
    Prop
  | ends {result : ReadResult} (loop : ∀ later, readLoop reader (events ++ later) = result)
      (allowed : (verdict bytes).Allows bytes start result)
  | closed {result : ReadResult} (loop : readLoop reader events = result)
      (noRequest : ∀ buffer, result ≠ .ok buffer) (settled : verdict bytes = .settled result)
  | goesOn {next : Reader} {rest : List RecvEvent}
      (loop : ∀ later, readLoop reader (events ++ later) = readLoop next (rest ++ later))
      (reading : Reading bytes start next rest) (fewer : pending rest < pending events)

theorem Reading.turn (h : Reading bytes start reader events) : Turn bytes start reader events := by
  rcases h.grow with ⟨hgrow, hverdict⟩ | ⟨grown, hgrow, hgrown, hroom, htotal⟩
  · refine .ends (fun later => readLoop_refused hgrow) ?_
    rw [hverdict]
    rfl
  obtain ⟨left, hbytes, hsends⟩ := hgrown.sends
  rcases hrecv : recv (grown.capacity - grown.buffer.length) events with ⟨received, rest⟩
  have hcases := recv_sends hsends (Nat.sub_pos_of_lt hroom)
  rw [hrecv] at hcases
  have hlater (hreceived : received ≠ .closed) (later : List RecvEvent) :
      recv (grown.capacity - grown.buffer.length) (events ++ later) = (received, rest ++ later) := by
    have hevents : events ≠ [] := by
      rintro rfl
      exact hreceived (Prod.mk.inj hrecv).1.symm
    rw [recv_append hevents, hrecv]
  cases hcases with
  | closed hnothing =>
    rw [hnothing, List.append_nil] at hbytes
    exact .closed (readLoop_closed hgrow hrecv) hgrown.finish_ne_ok
      (hgrown.closed hroom htotal hbytes)
  | interrupted hsends' hfewer =>
    refine .goesOn (fun later => readLoop_interrupted hgrow (hlater (by simp) later)) ?_
      (recv_pending hrecv (by simp))
    exact { hgrown with
      sends := ⟨left, hbytes, hsends'⟩
      single := fun hstart => hfewer.trans (hgrown.single hstart) }
  | bytes hsplit hsends' hchunk hfits hfewer hfull =>
    rw [hsplit, ← List.append_assoc] at hbytes
    rcases hgrown.receive hroom hbytes hsends' hfits hfull hchunk hfewer with
      ⟨e, hreceive, hverdict⟩ | ⟨next, hreceive, hcomplete, hincomplete⟩
    · refine .ends (fun later => readLoop_bytes_error hgrow (hlater (by simp) later) hreceive) ?_
      rw [hverdict]
      rfl
    · cases hnext : next.complete with
      | true =>
        refine .ends (fun later => ?_) (hcomplete hnext)
        rw [readLoop_bytes hgrow (hlater (by simp) later) hreceive, if_pos hnext]
      | false =>
        refine .goesOn (fun later => ?_) (hincomplete hnext) (recv_pending hrecv (by simp))
        rw [readLoop_bytes hgrow (hlater (by simp) later) hreceive, if_neg (by simp [hnext])]

/-- The loop by its turns: each one leaves less to come. -/
theorem readLoop_verdict (h : Reading bytes start reader events) :
    (verdict bytes).Allows bytes start (readLoop reader events) ∧
    ∀ buffer, readLoop reader events = .ok buffer →
      ∀ later, readLoop reader (events ++ later) = .ok buffer := by
  induction hpending : pending events using Nat.strong_induction_on generalizing reader events with
  | _ n ih =>
    subst hpending
    cases h.turn with
    | ends hloop hallowed =>
      have hnow := hloop []
      rw [List.append_nil] at hnow
      rw [hnow]
      exact ⟨hallowed, fun buffer hok later => (hloop later).trans hok⟩
    | closed hloop hnone hsettled =>
      rw [hloop, hsettled]
      exact ⟨rfl, fun buffer hok => absurd hok (hnone buffer)⟩
    | goesOn hloop hreading hfewer =>
      have hnow := hloop []
      rw [List.append_nil, List.append_nil] at hnow
      rw [hnow]
      obtain ⟨hallows, hlater⟩ := ih _ hfewer hreading rfl
      exact ⟨hallows, fun buffer hok later => (hloop later).trans (hlater buffer hok later)⟩

end

theorem reading_initial {events : List RecvEvent} {bytes : Bytes} (h : Sends bytes events) :
    Reading bytes events ⟨[], serverRequestInitialCapacity, none⟩ events where
  sends := ⟨bytes, rfl, h⟩
  capacity := ⟨0, by decide, rfl⟩
  fits := by decide
  least := fun k _ => Nat.le_mul_of_pos_right 1024 (Nat.two_pow_pos k)
  headers := rfl
  incomplete := by simp
  single := id

/-- **One verdict for every split.** However the bytes of a client come in, reading them
has a result that the verdict on the stream allows. -/
theorem serverSocketReadRequest_verdict {events : List RecvEvent} {bytes : Bytes}
    (h : Sends bytes events) :
    (verdict bytes).Allows bytes events (serverSocketReadRequest events) :=
  (readLoop_verdict (reading_initial h)).1

/-- A request is returned when it is complete, whatever the socket does behind it. -/
theorem serverSocketReadRequest_append {events : List RecvEvent} {bytes buffer : Bytes}
    (h : Sends bytes events) (hok : serverSocketReadRequest events = .ok buffer)
    (later : List RecvEvent) : serverSocketReadRequest (events ++ later) = .ok buffer :=
  (readLoop_verdict (reading_initial h)).2 buffer hok later

end MiniSql.Server
