import MiniSql.Server.HttpProtocol

/-!
# Reading a request from a socket

`server_socket_read_request`. What the socket will do is a list of events: packets
of at least one byte, interrupted calls, a receive timeout, an error; at the end of
the list the client has closed. A call of `recv` takes at most as much of the first
packet as there is room for, and leaves the rest to the next call. `size_t` has 64
bits; the buffers can be had.
-/

namespace MiniSql.Server

/-! ## Headers -/

def serverAsciiCaseEquals (left right : Bytes) : Bool := left.map tolower == right.map tolower

/-- The offset and the length of the first terminator. -/
def serverFindRequestTerminator (buffer : Bytes) : Option (Nat × Nat) :=
  Scan.find [ascii "\n\n", crlf ++ crlf] buffer

def isLineBreak (c : UInt8) : Bool := c == carriageReturn || c == newline

/-- What stands behind the colon of a line that is named Content-Length. -/
def contentLengthField (line : Bytes) : Option Bytes :=
  match line.dropWhile (· != colon) with
  | [] => none
  | _ :: value =>
    if serverAsciiCaseEquals (line.takeWhile (· != colon)) (ascii "Content-Length") then some value
    else none

/-- The digits and the blanks behind them, with the number and whether there was a digit. -/
def contentLengthDigits (parsedLength : Nat) (sawDigit : Bool) :
    Bytes → Except SqlError (Nat × Bool)
  | [] => .ok (parsedLength, sawDigit)
  | c :: value =>
    if isdigit c then
      contentLengthDigits ((parsedLength * 10 + (c.toNat - 0x30)) % 2 ^ 64) true value
    else if isBlank c && value.all isBlank then .ok (parsedLength, sawDigit)
    else .error (sqlSetError [ascii "Content-Length header is invalid"])

def contentLengthValue (value : Bytes) : Except SqlError Nat := do
  let (parsedLength, sawDigit) ← contentLengthDigits 0 false (value.dropWhile isBlank)
  if sawDigit then .ok parsedLength
  else .error (sqlSetError [ascii "Content-Length header is missing a numeric value"])

theorem dropWhile_length_lt {p : UInt8 → Bool} {s : Bytes} (h : s.takeWhile p ≠ []) :
    (s.dropWhile p).length < s.length := by
  have hlength := congrArg List.length (List.takeWhile_append_dropWhile (p := p) (l := s))
  rw [List.length_append] at hlength
  have hpos := List.length_pos_iff.mpr h
  omega

/-- The lines from the cursor on, up to the one that is named Content-Length. -/
def serverParseContentLength (cursor : Bytes) : Except SqlError Nat :=
  if _hline : cursor.takeWhile (fun c => !isLineBreak c) = [] then .ok 0
  else
    match contentLengthField (cursor.takeWhile fun c => !isLineBreak c) with
    | some value => contentLengthValue value
    | none =>
      serverParseContentLength ((cursor.dropWhile fun c => !isLineBreak c).dropWhile isLineBreak)
termination_by cursor.length
decreasing_by
  exact lt_of_le_of_lt (List.length_dropWhile_le _ _) (dropWhile_length_lt _hline)

/-- `header_length` and `content_length`. -/
structure Headers where
  headerLength : Nat
  contentLength : Nat
  deriving DecidableEq, Repr

/-- `header_length + content_length`. -/
def Headers.total (headers : Headers) : Nat := (headers.headerLength + headers.contentLength) % 2 ^ 64

/-- The headers of a buffer, once their terminator is there. -/
def readHeaders (buffer : Bytes) : Option (Except SqlError Headers) :=
  (serverFindRequestTerminator buffer).map fun found =>
    (serverParseContentLength (buffer.take (found.1 + found.2))).map (⟨found.1 + found.2, ·⟩)

/-! ## Receiving -/

/-- What becomes of calls of `recv`; a packet is given by its first byte and the others. -/
inductive RecvEvent
  | packet (first : UInt8) (more : Bytes)
  | interrupted
  | timedOut
  | failed
  deriving DecidableEq, Repr

/-- What a call of `recv` returns: bytes, 0, or an error by its class. -/
inductive Received
  | bytes (chunk : Bytes)
  | closed
  | interrupted
  | timedOut
  | failed
  deriving DecidableEq, Repr

/-- `recv` with room for some bytes. -/
def recv (room : Nat) (events : List RecvEvent) : Received × List RecvEvent :=
  match events with
  | [] => (.closed, [])
  | .interrupted :: events => (.interrupted, events)
  | .timedOut :: events => (.timedOut, events)
  | .failed :: events => (.failed, events)
  | .packet first more :: events =>
    match room with
    | 0 => (.closed, .packet first more :: events)
    | room + 1 =>
      match more.drop room with
      | [] => (.bytes (first :: more.take room), events)
      | next :: rest => (.bytes (first :: more.take room), .packet next rest :: events)

/-- The bytes of the packets. -/
def RecvEvent.bytes : RecvEvent → Bytes
  | .packet first more => first :: more
  | _ => []

def stream (events : List RecvEvent) : Bytes := events.flatMap RecvEvent.bytes

/-- How much there is still to come, interrupted calls included. -/
def pending (events : List RecvEvent) : Nat := events.length + (stream events).length

theorem recv_pending {room : Nat} {events rest : List RecvEvent} {received : Received}
    (h : recv room events = (received, rest)) (hnot : received ≠ .closed) :
    pending rest < pending events := by
  rcases events with _ | ⟨_ | _ | _ | _, events⟩
  case nil => exact absurd (Prod.mk.inj h).1.symm hnot
  case cons.packet first more =>
    cases room with
    | zero => exact absurd (Prod.mk.inj h).1.symm hnot
    | succ room =>
      rcases hdrop : more.drop room with _ | ⟨next, left⟩
      · simp only [recv, hdrop, Prod.mk.injEq] at h
        rw [← h.2]
        simp [pending, stream, RecvEvent.bytes]
        omega
      · simp only [recv, hdrop, Prod.mk.injEq] at h
        have hlength := congrArg List.length hdrop
        simp only [List.length_drop, List.length_cons] at hlength
        rw [← h.2]
        simp [pending, stream, RecvEvent.bytes]
        omega
  all_goals
    rw [← (Prod.mk.inj h).2]
    simp [pending, stream, RecvEvent.bytes]

/-! ## The loop -/

def serverRequestInitialCapacity : Nat := 1024

def serverRequestMaxCapacity : Nat := 65536

/-- `ServerRequestReadStatus`, with the buffer of a request that was read and the error. -/
inductive ReadResult
  | ok (buffer : Bytes)
  | empty
  | tooLarge (e : SqlError)
  | error (e : SqlError)
  deriving DecidableEq, Repr

def requestTooLarge : ReadResult :=
  .tooLarge (sqlSetError [ascii "request exceeded the maximum supported size"])

def headersIncomplete : ReadResult :=
  .error (sqlSetError [ascii "HTTP request headers are incomplete"])

def bodyIncomplete : ReadResult :=
  .error (sqlSetError [ascii "HTTP request body is incomplete"])

/-- The variables of the loop; there are headers when `headers_complete` is set. -/
structure Reader where
  buffer : Bytes
  capacity : Nat
  headers : Option Headers

/-- The head of the loop: the limit, and room for at least one byte. -/
def Reader.grow (reader : Reader) : Except ReadResult Reader :=
  if reader.headers.any fun headers => headers.total > serverRequestMaxCapacity then
    .error requestTooLarge
  else if reader.buffer.length = reader.capacity then
    if reader.capacity ≥ serverRequestMaxCapacity then .error requestTooLarge
    else .ok { reader with capacity := min (reader.capacity * 2) serverRequestMaxCapacity }
  else .ok reader

/-- Bytes that arrived; the headers are looked for until they are complete. -/
def Reader.receive (reader : Reader) (chunk : Bytes) : Except ReadResult Reader :=
  match reader.headers, readHeaders (reader.buffer ++ chunk) with
  | some _, _ | none, none => .ok { reader with buffer := reader.buffer ++ chunk }
  | none, some (.error e) => .error (.error e)
  | none, some (.ok headers) =>
    .ok { reader with buffer := reader.buffer ++ chunk, headers := some headers }

def Reader.complete (reader : Reader) : Bool :=
  reader.headers.any fun headers => reader.buffer.length ≥ headers.total

/-- Behind the loop. -/
def Reader.finish (reader : Reader) : ReadResult :=
  if reader.buffer.length = 0 then .empty
  else
    match reader.headers with
    | none => headersIncomplete
    | some headers =>
      if reader.buffer.length < headers.total then bodyIncomplete else .ok reader.buffer

def readLoop (reader : Reader) (events : List RecvEvent) : ReadResult :=
  match reader.grow with
  | .error result => result
  | .ok reader =>
    match _hrecv : recv (reader.capacity - reader.buffer.length) events with
    | (.bytes chunk, events) =>
      match reader.receive chunk with
      | .error result => result
      | .ok reader => if reader.complete then reader.finish else readLoop reader events
    | (.closed, _) => reader.finish
    | (.interrupted, events) => readLoop reader events
    | (.timedOut, _) => reader.finish
    | (.failed, _) => .error (sqlSetError [ascii "failed to receive request bytes"])
termination_by pending events
decreasing_by
  all_goals exact recv_pending _hrecv (by simp)

section

variable {reader grown next : Reader} {events rest : List RecvEvent} {chunk : Bytes}
  {result : ReadResult}

theorem readLoop_refused (hgrow : reader.grow = .error result) : readLoop reader events = result := by
  rw [readLoop, hgrow]

theorem readLoop_closed (hgrow : reader.grow = .ok grown)
    (hrecv : recv (grown.capacity - grown.buffer.length) events = (.closed, rest)) :
    readLoop reader events = grown.finish := by
  rw [readLoop]
  simp only [hgrow]
  split <;> simp_all

theorem readLoop_timedOut (hgrow : reader.grow = .ok grown)
    (hrecv : recv (grown.capacity - grown.buffer.length) events = (.timedOut, rest)) :
    readLoop reader events = grown.finish := by
  rw [readLoop]
  simp only [hgrow]
  split <;> simp_all

theorem readLoop_failed (hgrow : reader.grow = .ok grown)
    (hrecv : recv (grown.capacity - grown.buffer.length) events = (.failed, rest)) :
    readLoop reader events = .error (sqlSetError [ascii "failed to receive request bytes"]) := by
  rw [readLoop]
  simp only [hgrow]
  split <;> simp_all

theorem readLoop_interrupted (hgrow : reader.grow = .ok grown)
    (hrecv : recv (grown.capacity - grown.buffer.length) events = (.interrupted, rest)) :
    readLoop reader events = readLoop grown rest := by
  rw [readLoop]
  simp only [hgrow]
  split <;> simp_all

theorem readLoop_bytes (hgrow : reader.grow = .ok grown)
    (hrecv : recv (grown.capacity - grown.buffer.length) events = (.bytes chunk, rest))
    (hreceive : grown.receive chunk = .ok next) :
    readLoop reader events = if next.complete then next.finish else readLoop next rest := by
  rw [readLoop]
  simp only [hgrow]
  split <;> simp_all

theorem readLoop_bytes_error (hgrow : reader.grow = .ok grown)
    (hrecv : recv (grown.capacity - grown.buffer.length) events = (.bytes chunk, rest))
    (hreceive : grown.receive chunk = .error result) : readLoop reader events = result := by
  rw [readLoop]
  simp only [hgrow]
  split <;> simp_all

end

def serverSocketReadRequest (events : List RecvEvent) : ReadResult :=
  readLoop ⟨[], serverRequestInitialCapacity, none⟩ events

end MiniSql.Server
