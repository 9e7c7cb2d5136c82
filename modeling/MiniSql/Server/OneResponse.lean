import MiniSql.Server.HttpProtocol

/-!
# Answering a request

`server_socket_execute_request_job` and what it sends. What the socket will do is a
list of events, one for each call of `send`: it takes at least one byte, or none, or
is interrupted, or fails (a timeout included). At the end of the list the call has
not returned yet.

The job sends the response that is due. A write that fails is reported like a failure
before anything was written, and the job then sends a response of its own.
-/

namespace MiniSql.Server

/-! ## Writing -/

inductive SendEvent
  /-- one byte and `more`, or what is left -/
  | sent (more : Nat)
  | zero
  | interrupted
  | failed
  deriving DecidableEq, Repr

/-- What was sent, the value that was returned if the call has returned, and the
events of later calls. -/
structure Writing where
  sent : Bytes
  result : Option Bool
  events : List SendEvent
  deriving DecidableEq, Repr

def Writing.behind (sent : Bytes) (writing : Writing) : Writing :=
  { writing with sent := sent ++ writing.sent }

def serverSocketWriteAll : Bytes → List SendEvent → Writing
  | [], events => ⟨[], some true, events⟩
  | _ :: _, [] => ⟨[], none, []⟩
  | c :: buffer, .sent more :: events =>
    (serverSocketWriteAll (buffer.drop more) events).behind (c :: buffer.take more)
  | _ :: _, .zero :: events => ⟨[], some false, events⟩
  | c :: buffer, .interrupted :: events => serverSocketWriteAll (c :: buffer) events
  | _ :: _, .failed :: events => ⟨[], some false, events⟩

/-- A call that goes on after a call that succeeded. -/
def Writing.andThen (writing : Writing) (next : List SendEvent → Writing) : Writing :=
  match writing.result with
  | some true => (next writing.events).behind writing.sent
  | _ => writing

/-! ## Responses -/

/-- The text of an error, or another if there is none; `message` has 256 bytes. -/
def errorText (error : SqlError) (otherwise : Bytes) : Bytes :=
  let message := cString (error.message.take 255)
  if message = [] then otherwise else message

def plainHeader (status : Bytes) (bodyLength : Nat) : Bytes :=
  ascii "HTTP/1.1 " ++ status ++ crlf ++ ascii "Content-Type: text/plain; charset=utf-8" ++ crlf ++
    ascii "Content-Length: " ++ decimalNat bodyLength ++ crlf ++ ascii "Connection: close" ++ crlf ++
    crlf

def serverSocketSendPlainResponse (status body : Bytes) (events : List SendEvent) : Writing :=
  if (plainHeader status body.length).length ≥ 256 then ⟨[], some false, events⟩
  else
    (serverSocketWriteAll (plainHeader status body.length) events).andThen
      (serverSocketWriteAll body)

def httpReasonPhrase (statusCode : Nat) : Bytes :=
  match statusCode with
  | 200 => ascii "OK"
  | 400 => ascii "Bad Request"
  | 404 => ascii "Not Found"
  | 405 => ascii "Method Not Allowed"
  | 500 => ascii "Internal Server Error"
  | 503 => ascii "Service Unavailable"
  | _ => ascii "Unknown"

/-- `http_serialize_response`, given whether the buffer can be had. -/
def httpSerializeResponse (malloc : Bool) (response : HttpResponse) : Except SqlError Bytes :=
  if malloc then
    .ok (ascii "HTTP/1.1 " ++ decimalNat response.statusCode ++ ascii " " ++
      httpReasonPhrase response.statusCode ++ crlf ++ ascii "Content-Type: " ++
      response.contentType ++ crlf ++ ascii "Content-Length: " ++
      decimalNat response.body.length ++ crlf ++ ascii "Connection: close" ++ crlf ++ crlf ++
      response.body)
  else .error (sqlSetError [ascii "failed to allocate HTTP response buffer"])

/-! ## The job -/

/-- A request job: the request, what `request_handler_handle` makes of it (with the
error if its response cannot be allocated) if there is a handler, and whether the
request's body and the text of the response can be allocated. -/
structure RequestJob where
  rawRequest : Bytes
  handler : Option (HttpRequest → Except SqlError HttpResponse)
  bodyAllocated : Bool
  responseAllocated : Bool

def noError : SqlError := ⟨0, 0, []⟩

def notInitialized : SqlError := sqlSetError [ascii "server request job is not initialized"]

def RequestJob.parse (job : RequestJob) : Except SqlError HttpRequest := do
  let request ← httpParseRequest (cString job.rawRequest)
  if request.body.isSome && !job.bodyAllocated then
    .error (sqlSetError [ascii "failed to allocate HTTP request body"])
  else return request

def badRequest : Bytes := ascii "400 Bad Request"

def internalServerError : Bytes := ascii "500 Internal Server Error"

/-- `server_socket_process_request`, with the error that it leaves. -/
def serverSocketProcessRequest (job : RequestJob) (events : List SendEvent) : Writing × SqlError :=
  match job.handler with
  | none => (⟨[], some false, events⟩, notInitialized)
  | some handle =>
    match job.parse with
    | .error e =>
      (serverSocketSendPlainResponse badRequest
        (errorText e (ascii "failed to parse HTTP request\n")) events, e)
    | .ok request =>
      match handle request with
      | .error e =>
        (serverSocketSendPlainResponse internalServerError
          (errorText e (ascii "failed to handle HTTP request\n")) events, e)
      | .ok response =>
        match httpSerializeResponse job.responseAllocated response with
        | .error e =>
          (serverSocketSendPlainResponse internalServerError
            (errorText e (ascii "failed to serialize HTTP response\n")) events, e)
        | .ok serialized => (serverSocketWriteAll (cString serialized) events, noError)

/-- What `server_socket_process_request` sent, and what was sent behind it. -/
structure Answer where
  processed : Bytes
  failure : Bytes
  deriving DecidableEq, Repr

/-- The bytes that the client gets. -/
def Answer.bytes (answer : Answer) : Bytes := answer.processed ++ answer.failure

def serverSocketExecuteRequestJob (job : RequestJob) (events : List SendEvent) : Answer :=
  let (writing, error) := serverSocketProcessRequest job events
  match writing.result with
  | some false =>
    ⟨writing.sent, (serverSocketSendPlainResponse internalServerError
      (errorText error (ascii "request processing failed\n")) writing.events).sent⟩
  | _ => ⟨writing.sent, []⟩

/-! ## Buffers

A response is written as one or two buffers, none of them empty. -/

def writeBuffers : List Bytes → List SendEvent → Writing
  | [], events => ⟨[], some true, events⟩
  | buffer :: buffers, events => (serverSocketWriteAll buffer events).andThen (writeBuffers buffers)

/-- The buffers that are left when a call of `send` has taken bytes of the first one. -/
def advance (more : Nat) : List Bytes → List Bytes
  | [] => []
  | buffer :: buffers =>
    if buffer.drop (more + 1) = [] then buffers else buffer.drop (more + 1) :: buffers

/-- The buffers that are left after some calls of `send`. -/
def unsent (buffers : List Bytes) : List SendEvent → List Bytes
  | [] => buffers
  | .sent more :: events => unsent (advance more buffers) events
  | _ :: events => unsent buffers events

/-- The writer goes on after the call. -/
def SendEvent.goesOn : SendEvent → Bool
  | .sent _ | .interrupted => true
  | .zero | .failed => false

def SendEvent.takes : SendEvent → Bool
  | .sent _ => true
  | _ => false

/-- The first call that is not interrupted takes bytes. -/
def resumes (events : List SendEvent) : Bool := (events.find? (· != .interrupted)).any SendEvent.takes

section

variable {buffer : Bytes} {buffers : List Bytes} {events : List SendEvent}

theorem Writing.andThen_behind (sent : Bytes) (writing : Writing)
    (next : List SendEvent → Writing) :
    (writing.behind sent).andThen next = (writing.andThen next).behind sent := by
  rcases writing with ⟨early, result, events⟩
  rcases result with _ | _ | _ <;> simp [Writing.andThen, Writing.behind]

theorem advance_flatten (more : Nat) (buffer : Bytes) (buffers : List Bytes) :
    buffer.take (more + 1) ++ (advance more (buffer :: buffers)).flatten =
      (buffer :: buffers).flatten := by
  rw [advance]
  split
  · rename_i hend
    have hall := List.take_append_drop (more + 1) buffer
    rw [hend, List.append_nil] at hall
    rw [hall, List.flatten_cons]
  · rw [List.flatten_cons, List.flatten_cons, ← List.append_assoc, List.take_append_drop]

theorem advance_nonempty (more : Nat) (hbuffers : ∀ b ∈ buffers, b ≠ []) :
    ∀ b ∈ advance more buffers, b ≠ [] := by
  cases buffers with
  | nil => exact hbuffers
  | cons buffer buffers =>
    obtain ⟨-, hrest⟩ := List.forall_mem_cons.mp hbuffers
    rw [advance]
    split
    · exact hrest
    · rename_i hleft
      exact List.forall_mem_cons.mpr ⟨hleft, hrest⟩

theorem unsent_nil (events : List SendEvent) : unsent [] events = [] := by
  induction events with
  | nil => rfl
  | cons event events ih => cases event <;> exact ih

theorem writeBuffers_single (buffer : Bytes) (events : List SendEvent) :
    writeBuffers [buffer] events = serverSocketWriteAll buffer events := by
  rw [writeBuffers]
  rcases serverSocketWriteAll buffer events with ⟨sent, result, rest⟩
  rcases result with _ | _ | _ <;> simp [Writing.andThen, Writing.behind, writeBuffers]

theorem writeBuffers_waits (hbuffer : buffer ≠ []) :
    writeBuffers (buffer :: buffers) [] = ⟨[], none, []⟩ := by
  obtain ⟨c, cs, rfl⟩ := List.exists_cons_of_ne_nil hbuffer
  rfl

theorem writeBuffers_stops (hbuffer : buffer ≠ []) {event : SendEvent} (hstop : event.goesOn = false) :
    writeBuffers (buffer :: buffers) (event :: events) = ⟨[], some false, events⟩ := by
  obtain ⟨c, cs, rfl⟩ := List.exists_cons_of_ne_nil hbuffer
  cases event with
  | zero | failed => rfl
  | sent | interrupted => cases hstop

theorem writeBuffers_interrupted (hbuffer : buffer ≠ []) :
    writeBuffers (buffer :: buffers) (.interrupted :: events) =
      writeBuffers (buffer :: buffers) events := by
  obtain ⟨c, cs, rfl⟩ := List.exists_cons_of_ne_nil hbuffer
  rfl

theorem writeBuffers_sent (hbuffer : buffer ≠ []) (more : Nat) :
    writeBuffers (buffer :: buffers) (.sent more :: events) =
      (writeBuffers (advance more (buffer :: buffers)) events).behind (buffer.take (more + 1)) := by
  obtain ⟨c, cs, rfl⟩ := List.exists_cons_of_ne_nil hbuffer
  have hwrite : serverSocketWriteAll (c :: cs) (.sent more :: events) =
      (serverSocketWriteAll (cs.drop more) events).behind ((c :: cs).take (more + 1)) := rfl
  rw [writeBuffers, hwrite, Writing.andThen_behind]
  congr 1
  rw [advance, List.drop_succ_cons]
  split
  · rename_i hend
    rw [hend, serverSocketWriteAll]
    rfl
  · rfl

/-- What is sent is a prefix of the response. -/
theorem writeBuffers_prefix (hbuffers : ∀ b ∈ buffers, b ≠ []) (events : List SendEvent) :
    (writeBuffers buffers events).sent <+: buffers.flatten := by
  induction events generalizing buffers with
  | nil =>
    cases buffers with
    | nil => exact List.prefix_rfl
    | cons buffer buffers =>
      rw [writeBuffers_waits (hbuffers buffer List.mem_cons_self)]
      exact List.nil_prefix
  | cons event events ih =>
    cases buffers with
    | nil => exact List.prefix_rfl
    | cons buffer buffers =>
      have hbuffer := hbuffers buffer List.mem_cons_self
      cases event with
      | sent more =>
        rw [writeBuffers_sent hbuffer, ← advance_flatten more]
        exact (List.prefix_append_right_inj _).mpr (ih (advance_nonempty more hbuffers))
      | interrupted =>
        rw [writeBuffers_interrupted hbuffer]
        exact ih hbuffers
      | zero | failed =>
        rw [writeBuffers_stops hbuffer rfl]
        exact List.nil_prefix

/-- A write fails at a call that takes nothing, with buffers left. -/
theorem writeBuffers_fails (hbuffers : ∀ b ∈ buffers, b ≠ []) {rest : List SendEvent} {sent : Bytes}
    (h : writeBuffers buffers events = ⟨sent, some false, rest⟩) :
    ∃ before stop, events = before ++ stop :: rest ∧ before.all SendEvent.goesOn = true ∧
      stop.goesOn = false ∧ unsent buffers before ≠ [] ∧
      (sent ≠ [] → before.any SendEvent.takes = true) := by
  induction events generalizing buffers sent with
  | nil =>
    cases buffers with
    | nil => cases h
    | cons buffer buffers =>
      rw [writeBuffers_waits (hbuffers buffer List.mem_cons_self)] at h
      cases h
  | cons event events ih =>
    cases buffers with
    | nil => cases h
    | cons buffer buffers =>
      have hbuffer := hbuffers buffer List.mem_cons_self
      cases event with
      | sent more =>
        rw [writeBuffers_sent hbuffer] at h
        rcases hnext : writeBuffers (advance more (buffer :: buffers)) events with ⟨later, result, rest'⟩
        rw [hnext] at h
        cases h
        obtain ⟨before, stop, rfl, hgo, hstop, hleft, -⟩ := ih (advance_nonempty more hbuffers) hnext
        exact ⟨.sent more :: before, stop, rfl, hgo, hstop, hleft, fun _ => rfl⟩
      | interrupted =>
        rw [writeBuffers_interrupted hbuffer] at h
        obtain ⟨before, stop, rfl, hgo, hstop, hleft, htakes⟩ := ih hbuffers h
        exact ⟨.interrupted :: before, stop, rfl, hgo, hstop, hleft, htakes⟩
      | zero | failed =>
        rw [writeBuffers_stops hbuffer rfl] at h
        cases h
        exact ⟨[], _, rfl, rfl, rfl, by simp [unsent], fun hsent => absurd rfl hsent⟩

/-- With buffers left a call that takes nothing ends the write. -/
theorem writeBuffers_of_stop (hbuffers : ∀ b ∈ buffers, b ≠ []) {before : List SendEvent}
    {stop : SendEvent} (hgo : before.all SendEvent.goesOn = true) (hstop : stop.goesOn = false)
    (hleft : unsent buffers before ≠ []) (rest : List SendEvent) :
    ∃ sent, writeBuffers buffers (before ++ stop :: rest) = ⟨sent, some false, rest⟩ ∧
      (before.any SendEvent.takes = true → sent ≠ []) := by
  induction before generalizing buffers with
  | nil =>
    obtain ⟨buffer, rest, rfl⟩ := List.exists_cons_of_ne_nil hleft
    exact ⟨[], writeBuffers_stops (hbuffers buffer List.mem_cons_self) hstop, nofun⟩
  | cons event before ih =>
    simp only [List.all_cons, Bool.and_eq_true] at hgo
    cases buffers with
    | nil => exact absurd (unsent_nil _) hleft
    | cons buffer buffers =>
      have hbuffer := hbuffers buffer List.mem_cons_self
      cases event with
      | sent more =>
        obtain ⟨sent, hwrite, -⟩ := ih (advance_nonempty more hbuffers) hgo.2 hleft
        refine ⟨buffer.take (more + 1) ++ sent, ?_, fun _ => ?_⟩
        · rw [List.cons_append, writeBuffers_sent hbuffer, hwrite]
          rfl
        · obtain ⟨c, cs, rfl⟩ := List.exists_cons_of_ne_nil hbuffer
          simp
      | interrupted =>
        obtain ⟨sent, hwrite, htakes⟩ := ih hbuffers hgo.2 hleft
        refine ⟨sent, ?_, htakes⟩
        rw [List.cons_append, writeBuffers_interrupted hbuffer, hwrite]
      | zero | failed => cases hgo.1

/-- Something is sent if the first call that is not interrupted takes bytes. -/
theorem writeBuffers_sent_iff (hbuffers : ∀ b ∈ buffers, b ≠ []) (hne : buffers ≠ [])
    (events : List SendEvent) : (writeBuffers buffers events).sent ≠ [] ↔ resumes events = true := by
  obtain ⟨buffer, buffers, rfl⟩ := List.exists_cons_of_ne_nil hne
  have hbuffer := hbuffers buffer List.mem_cons_self
  induction events with
  | nil =>
    rw [writeBuffers_waits hbuffer]
    simp [resumes]
  | cons event events ih =>
    cases event with
    | sent more =>
      obtain ⟨c, cs, rfl⟩ := List.exists_cons_of_ne_nil hbuffer
      rw [writeBuffers_sent hbuffer]
      simp [Writing.behind, resumes, SendEvent.takes]
    | interrupted =>
      rw [writeBuffers_interrupted hbuffer]
      exact ih
    | zero | failed =>
      rw [writeBuffers_stops hbuffer rfl]
      simp [resumes, SendEvent.takes]

end

/-! ## One response -/

def plainResponse (status body : Bytes) : List Bytes := [plainHeader status body.length, body]

/-- The response that is due, as the buffers it is written in, and the error that
`server_socket_process_request` leaves. -/
def RequestJob.due (job : RequestJob) : Option (List Bytes) × SqlError :=
  match job.handler with
  | none => (none, notInitialized)
  | some handle =>
    match job.parse with
    | .error e =>
      (some (plainResponse badRequest (errorText e (ascii "failed to parse HTTP request\n"))), e)
    | .ok request =>
      match handle request with
      | .error e =>
        (some (plainResponse internalServerError
          (errorText e (ascii "failed to handle HTTP request\n"))), e)
      | .ok response =>
        match httpSerializeResponse job.responseAllocated response with
        | .error e =>
          (some (plainResponse internalServerError
            (errorText e (ascii "failed to serialize HTTP response\n"))), e)
        | .ok serialized => (some [cString serialized], noError)

/-- The job's own response to a failure. -/
def RequestJob.failureResponse (job : RequestJob) : List Bytes :=
  plainResponse internalServerError (errorText job.due.2 (ascii "request processing failed\n"))

/-- The bytes that were sent are a prefix of one response, and of one only. -/
def OneResponse (job : RequestJob) (answer : Answer) : Prop :=
  (answer.failure = [] ∧ ∃ response, job.due.1 = some response ∧
    answer.processed <+: response.flatten) ∨
  (answer.processed = [] ∧ answer.failure <+: job.failureResponse.flatten)

/-- A call of `send` fails between the bytes of a response, and the next one that is
not interrupted takes bytes again. -/
def BreaksOff (response : List Bytes) (events : List SendEvent) : Prop :=
  ∃ before stop later, events = before ++ stop :: later ∧ before.all SendEvent.goesOn = true ∧
    stop.goesOn = false ∧ before.any SendEvent.takes = true ∧ unsent response before ≠ [] ∧
    resumes later = true

theorem errorText_length (error : SqlError) {otherwise : Bytes} (h : otherwise.length ≤ 255)
    (hne : otherwise ≠ []) :
    (errorText error otherwise).length ≤ 255 ∧ errorText error otherwise ≠ [] := by
  unfold errorText
  dsimp only
  split
  · exact ⟨h, hne⟩
  · rename_i hmessage
    have hcut : (cString (error.message.take 255)).length ≤ (error.message.take 255).length :=
      (List.takeWhile_prefix _).length_le
    rw [List.length_take] at hcut
    exact ⟨by omega, hmessage⟩

theorem decimalNat_length {n : Nat} (h : n < 1000) : (decimalNat n).length ≤ 3 := by
  have hone {n : Nat} (h : n < 10) : (decimalNat n).length = 1 := by
    rw [decimalNat, if_pos h]
    rfl
  have htwo {n : Nat} (h : n < 100) : (decimalNat n).length ≤ 2 := by
    by_cases hn : n < 10
    · rw [hone hn]
      decide
    · rw [decimalNat, if_neg hn, List.length_append, hone (by omega), List.length_singleton]
  by_cases hn : n < 10
  · rw [hone hn]
    decide
  · have htail := htwo (n := n / 10) (by omega)
    rw [decimalNat, if_neg hn, List.length_append, List.length_singleton]
    omega

/-- The header of a plain response fits its array. -/
theorem serverSocketSendPlainResponse_eq {status body : Bytes} (hstatus : status.length ≤ 25)
    (hbody : body.length ≤ 255) (events : List SendEvent) :
    serverSocketSendPlainResponse status body events = writeBuffers (plainResponse status body) events := by
  have hheader : (plainHeader status body.length).length < 256 := by
    have hdigits := decimalNat_length (n := body.length) (by omega)
    have hfixed : (ascii "HTTP/1.1 ").length + crlf.length +
        (ascii "Content-Type: text/plain; charset=utf-8").length + crlf.length +
        (ascii "Content-Length: ").length + crlf.length + (ascii "Connection: close").length +
        crlf.length + crlf.length = 91 := by decide
    simp only [plainHeader, List.length_append]
    omega
  have hbodyOnly : writeBuffers [body] = serverSocketWriteAll body := funext (writeBuffers_single body)
  rw [serverSocketSendPlainResponse, if_neg (by omega), plainResponse, writeBuffers, hbodyOnly]

theorem plainResponse_nonempty (status : Bytes) {body : Bytes} (hbody : body ≠ []) :
    ∀ b ∈ plainResponse status body, b ≠ [] := by
  intro b hb
  simp only [plainResponse, List.mem_cons, List.not_mem_nil, or_false] at hb
  rcases hb with rfl | rfl
  · simp [plainHeader, ascii]
  · exact hbody

theorem httpSerializeResponse_nonempty {malloc : Bool} {response : HttpResponse} {serialized : Bytes}
    (h : httpSerializeResponse malloc response = .ok serialized) : cString serialized ≠ [] := by
  unfold httpSerializeResponse at h
  split at h
  · obtain ⟨tail, htail⟩ : ∃ tail, serialized = 0x48 :: tail := by
      cases h
      exact ⟨_, rfl⟩
    simp [htail, cString]
  · cases h

/-- `server_socket_process_request` writes the response that is due, if there is one. -/
theorem serverSocketProcessRequest_cases (job : RequestJob) (events : List SendEvent) :
    (job.due.1 = none ∧
      serverSocketProcessRequest job events = (⟨[], some false, events⟩, job.due.2)) ∨
    ∃ response, job.due.1 = some response ∧ (∀ b ∈ response, b ≠ []) ∧
      serverSocketProcessRequest job events = (writeBuffers response events, job.due.2) := by
  have hplain (status : Bytes) (hstatus : status.length ≤ 25) (e : SqlError) (otherwise : Bytes)
      (hlength : otherwise.length ≤ 255) (hne : otherwise ≠ []) :
      (∀ b ∈ plainResponse status (errorText e otherwise), b ≠ []) ∧
        serverSocketSendPlainResponse status (errorText e otherwise) events =
          writeBuffers (plainResponse status (errorText e otherwise)) events := by
    obtain ⟨htext, htextNe⟩ := errorText_length e hlength hne
    exact ⟨plainResponse_nonempty status htextNe, serverSocketSendPlainResponse_eq hstatus htext events⟩
  unfold RequestJob.due serverSocketProcessRequest
  rcases job.handler with _ | handle
  · exact .inl ⟨rfl, rfl⟩
  · refine .inr ?_
    rcases job.parse with e | request
    · obtain ⟨hne, hsend⟩ := hplain badRequest (by decide) e
        (ascii "failed to parse HTTP request\n") (by decide) (by decide)
      exact ⟨_, rfl, hne, congrArg (·, e) hsend⟩
    · dsimp only
      rcases handle request with e | response
      · obtain ⟨hne, hsend⟩ := hplain internalServerError (by decide) e
          (ascii "failed to handle HTTP request\n") (by decide) (by decide)
        exact ⟨_, rfl, hne, congrArg (·, e) hsend⟩
      · dsimp only
        rcases hserialize : httpSerializeResponse job.responseAllocated response with e | serialized
        · obtain ⟨hne, hsend⟩ := hplain internalServerError (by decide) e
            (ascii "failed to serialize HTTP response\n") (by decide) (by decide)
          exact ⟨_, rfl, hne, congrArg (·, e) hsend⟩
        · refine ⟨_, rfl, ?_, congrArg (·, noError) (writeBuffers_single _ events).symm⟩
          simpa using httpSerializeResponse_nonempty hserialize

theorem failureResponse_nonempty (job : RequestJob) : ∀ b ∈ job.failureResponse, b ≠ [] :=
  plainResponse_nonempty _ (errorText_length _ (by decide) (by decide)).2

/-- A failure is answered by the job's own response. -/
theorem serverSocketExecuteRequestJob_failed {job : RequestJob} {events rest : List SendEvent}
    {sent : Bytes}
    (h : serverSocketProcessRequest job events = (⟨sent, some false, rest⟩, job.due.2)) :
    serverSocketExecuteRequestJob job events =
      ⟨sent, (writeBuffers job.failureResponse rest).sent⟩ := by
  have htext : (errorText job.due.2 (ascii "request processing failed\n")).length ≤ 255 :=
    (errorText_length _ (by decide) (by decide)).1
  simp only [serverSocketExecuteRequestJob, h]
  rw [serverSocketSendPlainResponse_eq (by decide) htext, RequestJob.failureResponse]

theorem serverSocketExecuteRequestJob_kept {job : RequestJob} {events : List SendEvent}
    {writing : Writing} (h : serverSocketProcessRequest job events = (writing, job.due.2))
    (hresult : writing.result ≠ some false) :
    serverSocketExecuteRequestJob job events = ⟨writing.sent, []⟩ := by
  rcases writing with ⟨sent, _ | _ | _, rest⟩
  case some.false => exact absurd rfl hresult
  all_goals simp only [serverSocketExecuteRequestJob, h]

/-- **One response.** What a request job sends is a prefix of one response exactly
when its response does not break off and sending resumes. -/
theorem one_response_iff (job : RequestJob) (events : List SendEvent) :
    OneResponse job (serverSocketExecuteRequestJob job events) ↔
      ¬ ∃ response, job.due.1 = some response ∧ BreaksOff response events := by
  have hfailure := failureResponse_nonempty job
  have hown : job.failureResponse ≠ [] := by simp [RequestJob.failureResponse, plainResponse]
  rcases serverSocketProcessRequest_cases job events with ⟨hdue, hprocess⟩ |
    ⟨response, hdue, hne, hprocess⟩
  · -- Nothing is due: the failure is all that is sent.
    rw [serverSocketExecuteRequestJob_failed hprocess]
    constructor
    · rintro - ⟨response, hresponse, -⟩
      rw [hdue] at hresponse
      cases hresponse
    · intro _
      exact .inr ⟨rfl, writeBuffers_prefix hfailure _⟩
  · rcases hwriting : writeBuffers response events with ⟨sent, result, rest⟩
    have hbegins : sent <+: response.flatten := by
      have := writeBuffers_prefix hne events
      rwa [hwriting] at this
    rw [hwriting] at hprocess
    by_cases hresult : result = some false
    · subst hresult
      rw [serverSocketExecuteRequestJob_failed hprocess]
      obtain ⟨before, stop, rfl, hgo, hstop, hleft, htakes⟩ := writeBuffers_fails hne hwriting
      constructor
      · rintro hone ⟨response', hdue', before', stop', later, hevents, hgo', hstop', htakes', hleft',
          hresumes⟩
        cases hdue.symm.trans hdue'
        obtain ⟨sent', hwrite, hsent⟩ := writeBuffers_of_stop hne hgo' hstop' hleft' later
        rw [← hevents, hwriting] at hwrite
        cases hwrite
        rcases hone with ⟨hnone, -⟩ | ⟨hnone, -⟩
        · exact (writeBuffers_sent_iff hfailure hown rest).mpr hresumes hnone
        · exact hsent htakes' hnone
      · intro hunbroken
        by_cases hsent : sent = []
        · exact .inr ⟨hsent, writeBuffers_prefix hfailure rest⟩
        · have hsilent : (writeBuffers job.failureResponse rest).sent = [] := by
            by_contra hsome
            apply hunbroken
            exact ⟨response, hdue, before, stop, rest, rfl, hgo, hstop, htakes hsent, hleft,
              (writeBuffers_sent_iff hfailure hown rest).mp hsome⟩
          exact .inl ⟨hsilent, response, hdue, hbegins⟩
    · rw [serverSocketExecuteRequestJob_kept hprocess hresult]
      constructor
      · rintro - ⟨response', hdue', before, stop, later, rfl, hgo, hstop, -, hleft, -⟩
        cases hdue.symm.trans hdue'
        -- The write would have failed there.
        obtain ⟨sent', hwrite, -⟩ := writeBuffers_of_stop hne hgo hstop hleft later
        cases hwriting.symm.trans hwrite
        exact hresult rfl
      · intro _
        exact .inl ⟨rfl, response, hdue, hbegins⟩

/-- A request that is answered with an empty object. -/
def emptyObject : RequestJob :=
  ⟨ascii "POST / HTTP/1.1\r\n\r\nselect", some fun _ => .ok (setJsonResponse 200 (ascii "\x7b\x7d")), true,
    true⟩

/-- A send timeout behind the first line of the response: a second response follows. -/
theorem second_response_follows :
    (serverSocketExecuteRequestJob emptyObject [.sent 16, .failed, .sent 35]).bytes =
      ascii "HTTP/1.1 200 OK\r\nHTTP/1.1 500 Internal Server Error\r\n" ∧
    ¬ OneResponse emptyObject
      (serverSocketExecuteRequestJob emptyObject [.sent 16, .failed, .sent 35]) := by
  have hanswer : serverSocketExecuteRequestJob emptyObject [.sent 16, .failed, .sent 35] =
      ⟨ascii "HTTP/1.1 200 OK\r\n", ascii "HTTP/1.1 500 Internal Server Error\r\n"⟩ := by
    decide +kernel
  rw [hanswer]
  refine ⟨by decide +kernel, ?_⟩
  rintro (⟨hnone, -⟩ | ⟨hnone, -⟩)
  · cases hnone
  · cases hnone

end MiniSql.Server
