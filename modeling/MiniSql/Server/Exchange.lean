import MiniSql.JsonQuote
import MiniSql.Server.JsonPayload
import MiniSql.Server.OneResponse
import MiniSql.Server.ReceivePipeline
import MiniSql.Storage.NumberText

/-!
# A request and its response, from bytes to bytes

What a client sends as one request is received in any packets, parsed, executed,
serialized and sent in any pieces. What the client then holds is framed the way the
server itself frames requests, so that it can tell the response from its length, and its
body is the payload of the SQL text.
-/

namespace MiniSql.Server

open Storage Index Query

/-! ## Payloads hold no NUL -/

theorem intercalate_nulFree {texts : List Bytes} (h : ∀ text ∈ texts, 0 ∉ text) :
    0 ∉ [comma].intercalate texts := by
  induction texts with
  | nil => exact List.not_mem_nil
  | cons first texts ih =>
    have hfirst := h first List.mem_cons_self
    have hrest := ih fun text htext => h text (List.mem_cons_of_mem _ htext)
    cases texts with
    | nil => simpa using hfirst
    | cons second texts =>
      rw [List.intercalate_cons_cons]
      exact List.not_mem_append (List.not_mem_append hfirst (by decide)) hrest

theorem memberText_nulFree {column : ColumnDef} {field : Bytes} (h : matchesType column field = true) :
    0 ∉ memberText column field := by
  refine List.not_mem_append
    (List.not_mem_append (sqlJsonQuote_nulFree column.name) (by decide)) ?_
  split
  · exact sqlJsonQuote_nulFree field
  · rename_i htype
    intro hzero
    exact absurd ((isNumberChar_field h htype).2 0 hzero) (by decide)

theorem objectText_nulFree {schema : Schema} {row : Row} (h : WellTyped schema row) :
    0 ∉ objectText schema row := by
  have hmembers : ∀ text ∈ List.zipWith memberText schema.columns row, 0 ∉ text := by
    intro text htext
    have hzip : schema.columns.zipWith memberText row =
        (schema.columns.zip row).map fun entry => memberText entry.1 entry.2 := by
      rw [List.zip, List.map_zipWith]
    rw [hzip] at htext
    obtain ⟨entry, hentry, rfl⟩ := List.mem_map.mp htext
    exact memberText_nulFree (List.forall₂_iff_zip.mp h |>.2 hentry)
  exact List.not_mem_append (List.not_mem_append (by decide) (intercalate_nulFree hmembers)) (by decide)

theorem selectPayload_nulFree (tableName : Bytes) {objects : List Bytes}
    (h : ∀ object ∈ objects, 0 ∉ object) : 0 ∉ selectPayload tableName objects :=
  List.not_mem_append (List.not_mem_append (List.not_mem_append
    (List.not_mem_append (by decide) (sqlJsonQuote_nulFree tableName)) (by decide))
    (intercalate_nulFree h)) (by decide)

theorem buildErrorPayload_nulFree (message : Bytes) : 0 ∉ buildErrorPayload message :=
  List.not_mem_append (List.not_mem_append (by decide) (sqlJsonQuote_nulFree _)) (by decide)

theorem payload_nulFree {db : Db} (hdb : Valid db) {sqlText : Bytes} {db' : Db}
    {result : SqlServiceResult} (h : sqlServiceExecute sqlText db = some (db', result)) :
    0 ∉ result.payload := by
  cases sqlServiceExecute_served h with
  | unparsed => exact buildErrorPayload_nulFree _
  | @inserted query _ out hparse htype hexecute =>
    cases out with
    | error e => exact buildErrorPayload_nulFree _
    | ok printed =>
      exact List.not_mem_append (List.not_mem_append (List.not_mem_append (List.not_mem_append
        (by decide) (sqlJsonQuote_nulFree _)) (by decide)) (sqlJsonQuote_nulFree _)) (by decide)
  | @selected query _ out hparse htype hbuild =>
    obtain ⟨selected, hselection, rfl⟩ := selection_of_build hdb hbuild
    cases selected with
    | error e => exact buildErrorPayload_nulFree _
    | ok selected =>
      obtain ⟨table, indices⟩ := selected
      apply selectPayload_nulFree
      intro object hobject
      obtain ⟨row, hrow, rfl⟩ := List.mem_map.mp hobject
      exact objectText_nulFree ((selection_valid hdb hselection).keyed.typed row (rowsAt_mem hrow))

/-! ## The frame of a response -/

def statusLine (statusCode : Nat) : Bytes :=
  ascii "HTTP/1.1 " ++ decimalNat statusCode ++ ascii " " ++ httpReasonPhrase statusCode

/-- The lines in front of the body. -/
def responseLines (response : HttpResponse) : List Bytes :=
  [statusLine response.statusCode, ascii "Content-Type: " ++ response.contentType,
    ascii "Content-Length: " ++ decimalNat response.body.length, ascii "Connection: close"]

theorem httpSerializeResponse_lines (response : HttpResponse) :
    httpSerializeResponse true response =
      .ok (linesText (responseLines response) ++ crlf ++ response.body) := by
  simp only [httpSerializeResponse, if_true, responseLines, statusLine, linesText, List.flatMap_cons,
    List.flatMap_nil, List.append_assoc, List.append_nil]

/-- The bytes of a status line. -/
def isStatusByte (c : UInt8) : Bool := isLineByte c && c != colon

theorem statusLine_bytes (statusCode : Nat) : ∀ c ∈ statusLine statusCode, isStatusByte c = true := by
  have hdigits : ∀ c ∈ decimalNat statusCode, isStatusByte c = true := by
    intro c hc
    have hdigit := List.all_eq_true.mp (decimalNat_spec statusCode).2.1 c hc
    exact forall_byte (p := fun c => isdigit c = true → isStatusByte c = true) (by decide +kernel) c
      hdigit
  have hreason : ∀ c ∈ httpReasonPhrase statusCode, isStatusByte c = true := by
    unfold httpReasonPhrase
    split <;> decide +kernel
  have hstart : ∀ c ∈ ascii "HTTP/1.1 ", isStatusByte c = true := by decide +kernel
  have hblank : ∀ c ∈ ascii " ", isStatusByte c = true := by decide +kernel
  intro c hc
  simp only [statusLine, List.mem_append] at hc
  rcases hc with ((hc | hc) | hc) | hc
  · exact hstart c hc
  · exact hdigits c hc
  · exact hblank c hc
  · exact hreason c hc

theorem contentLengthField_statusLine (statusCode : Nat) :
    contentLengthField (statusLine statusCode) = none := by
  have hcolon : (statusLine statusCode).dropWhile (· != colon) = [] := by
    rw [List.dropWhile_eq_nil_iff]
    intro c hc
    have hbyte := statusLine_bytes statusCode c hc
    rw [isStatusByte, Bool.and_eq_true] at hbyte
    exact hbyte.2
  rw [contentLengthField, hcolon]

theorem isLine_append {first second : Bytes} (hne : first ≠ [])
    (hfirst : ∀ c ∈ first, isLineByte c = true) (hsecond : ∀ c ∈ second, isLineByte c = true) :
    IsLine (first ++ second) := by
  refine ⟨by simp [hne], ?_⟩
  intro c hc
  rcases List.mem_append.mp hc with hc | hc
  · exact hfirst c hc
  · exact hsecond c hc

theorem responseLines_isLine {response : HttpResponse}
    (htype : ∀ c ∈ response.contentType, isLineByte c = true) :
    ∀ line ∈ responseLines response, IsLine line := by
  intro line hline
  simp only [responseLines, List.mem_cons, List.not_mem_nil, or_false] at hline
  rcases hline with rfl | rfl | rfl | rfl
  · refine ⟨by simp [statusLine, ascii], ?_⟩
    intro c hc
    have hbyte := statusLine_bytes response.statusCode c hc
    rw [isStatusByte, Bool.and_eq_true] at hbyte
    exact hbyte.1
  · exact isLine_append (by decide) (by decide +kernel) htype
  · refine isLine_append (by decide) (by decide +kernel) ?_
    intro c hc
    have hdigit := List.all_eq_true.mp (decimalNat_spec response.body.length).2.1 c hc
    exact forall_byte (p := fun c => isdigit c = true → isLineByte c = true) (by decide +kernel) c hdigit
  · exact ⟨by decide, by decide +kernel⟩

/-- A response is framed as the server wants its requests framed. -/
theorem response_readHeaders {response : HttpResponse}
    (htype : ∀ c ∈ response.contentType, isLineByte c = true)
    (hsize : response.body.length < 2 ^ 64) :
    readHeaders (linesText (responseLines response) ++ crlf ++ response.body) =
      some (.ok ⟨(linesText (responseLines response) ++ crlf).length, response.body.length⟩) := by
  have hlines := responseLines_isLine htype
  obtain ⟨n, hfind, hn⟩ := terminator_lines hlines (by simp [responseLines]) response.body
  refine readHeaders_ok_iff.mpr ⟨(n, 4), hfind, ?_, ?_⟩
  · rw [List.length_append, ← hn]
    rfl
  · rw [List.take_left' rfl]
    obtain ⟨hne, hdigits, hvalue⟩ := decimalNat_spec response.body.length
    have hlength : contentLengthField (ascii "Content-Length: " ++ decimalNat response.body.length) =
        some (ascii " " ++ decimalNat response.body.length) := rfl
    have hbefore : ∀ other ∈ [statusLine response.statusCode,
        ascii "Content-Type: " ++ response.contentType], contentLengthField other = none := by
      intro other hother
      simp only [List.mem_cons, List.not_mem_nil, or_false] at hother
      rcases hother with rfl | rfl
      · exact contentLengthField_statusLine response.statusCode
      · rfl
    refine (parseContentLength_lines hlines hbefore hlength crlf).trans ?_
    have hparse : contentLengthValue (ascii " " ++ decimalNat response.body.length ++ []) =
        .ok (digitsValue 0 (decimalNat response.body.length)) :=
      contentLengthValue_digits (by decide) rfl hne hdigits (by rwa [hvalue])
    rw [List.append_nil] at hparse
    rw [hparse, hvalue]

theorem linesText_nulFree {lines : List Bytes} (h : ∀ line ∈ lines, IsLine line) :
    0 ∉ linesText lines := by
  intro hmem
  obtain ⟨line, hline, hmem⟩ := List.mem_flatMap.mp hmem
  rcases List.mem_append.mp hmem with hmem | hmem
  · exact (lineByte_ne ((h line hline).2 0 hmem)).2.2 rfl
  · exact absurd hmem (by decide)

/-! ## Sending -/

/-- Calls that go on and take bytes often enough send everything. -/
theorem writeAll_sent {buffer : Bytes} {sends : List SendEvent}
    (hgo : sends.all SendEvent.goesOn = true)
    (henough : buffer.length ≤ sends.countP SendEvent.takes) :
    (serverSocketWriteAll buffer sends).sent = buffer ∧
      (serverSocketWriteAll buffer sends).result = some true := by
  induction sends generalizing buffer with
  | nil =>
    cases buffer with
    | nil => exact ⟨rfl, rfl⟩
    | cons c buffer => cases henough
  | cons event sends ih =>
    cases buffer with
    | nil => exact ⟨rfl, rfl⟩
    | cons c buffer =>
      simp only [List.all_cons, Bool.and_eq_true] at hgo
      cases event with
      | sent more =>
        have hfewer : (buffer.drop more).length ≤ sends.countP SendEvent.takes := by
          rw [List.countP_cons_of_pos rfl, List.length_cons] at henough
          rw [List.length_drop]
          omega
        obtain ⟨hsent, hresult⟩ := ih hgo.2 hfewer
        simp only [serverSocketWriteAll, Writing.behind]
        refine ⟨?_, hresult⟩
        rw [hsent, List.cons_append, List.take_append_drop]
      | interrupted =>
        rw [List.countP_cons_of_neg (by decide)] at henough
        exact ih hgo.2 henough
      | zero => cases hgo.1
      | failed => cases hgo.1

/-! ## One exchange -/

/-- `request_handler_handle` on a database, as a job calls it. -/
def handlerOn (db : Db) (request : HttpRequest) : Except SqlError HttpResponse :=
  match requestHandlerHandle request db with
  | some (_, response) => .ok response
  | none => .error noError

/-- The job that `server_socket_dispatch_request` makes of a request. -/
def jobOn (db : Db) (rawRequest : Bytes) : RequestJob := ⟨rawRequest, some (handlerOn db), true, true⟩

/-- A response that is due is sent whole if the calls of `send` go on. -/
theorem job_sends_response {db db' : Db} {rawRequest : Bytes} {request : HttpRequest}
    {response : HttpResponse} (hparse : httpParseRequest (cString rawRequest) = .ok request)
    (hhandle : requestHandlerHandle request db = some (db', response))
    (hnul : 0 ∉ linesText (responseLines response) ++ crlf ++ response.body) {sends : List SendEvent}
    (hgo : sends.all SendEvent.goesOn = true)
    (henough : (linesText (responseLines response) ++ crlf ++ response.body).length ≤
      sends.countP SendEvent.takes) :
    (serverSocketExecuteRequestJob (jobOn db rawRequest) sends).bytes =
      linesText (responseLines response) ++ crlf ++ response.body := by
  have hjob : (jobOn db rawRequest).parse = .ok request := by
    simp [RequestJob.parse, jobOn, hparse, bind, Except.bind, pure, Except.pure]
  have hprocess : serverSocketProcessRequest (jobOn db rawRequest) sends =
      (serverSocketWriteAll (linesText (responseLines response) ++ crlf ++ response.body) sends,
        noError) := by
    unfold serverSocketProcessRequest
    rw [hjob]
    simp only [jobOn, handlerOn, hhandle, httpSerializeResponse_lines, cString_eq_self hnul]
  obtain ⟨hsent, hresult⟩ := writeAll_sent hgo henough
  simp only [serverSocketExecuteRequestJob, hprocess, hresult, Answer.bytes, hsent, List.append_nil]

theorem RequestText.received (request : RequestText)
    (hsize : request.bytes.length ≤ serverRequestMaxCapacity) {events : List RecvEvent}
    (h : Sends request.bytes events) (later : List RecvEvent) :
    serverSocketReadRequest (events ++ later) = .ok request.bytes := by
  obtain ⟨headers, hverdict, hstop⟩ := request.verdict_bytes hsize
  have hallows := serverSocketReadRequest_verdict h
  rw [hverdict] at hallows
  obtain ⟨n, hstops, hresult⟩ := hallows
  have hn : n = request.bytes.length := Nat.le_antisymm hstops.within (hstop ▸ hstops.reached)
  rw [hn, List.take_length] at hresult
  exact serverSocketReadRequest_append h hresult later

theorem classify_not_blank {text : Bytes} {operation : SqlOperationKind}
    (h : sqlServiceClassifyOperation text = .ok operation) : isBlankText text = false := by
  rw [Bool.eq_false_iff]
  intro hblank
  have hnothing : text.dropWhile isspace = [] :=
    List.dropWhile_eq_nil_iff.mpr (List.all_eq_true.mp hblank)
  have hskip : skipSqlPrefix text = [] := by
    rw [skipSqlPrefix]
    split
    · rfl
    · rename_i hmore
      rw [hnothing] at hmore
      cases hmore
  rw [sqlServiceClassifyOperation, hskip] at h
  cases h

theorem classify_known (text : Bytes) : sqlServiceClassifyOperation text ≠ .ok .unknown := by
  unfold sqlServiceClassifyOperation
  dsimp only
  split
  · exact fun h => by cases h
  · split
    · exact fun h => by cases h
    · split <;> exact fun h => by cases h

/-- A POST of an SQL text is executed. -/
theorem handle_post {path body : Bytes} {db db' : Db} {result : SqlServiceResult}
    (hpath : peek path = 0x2f) (hnul : 0 ∉ body) {operation : SqlOperationKind}
    (hclassify : sqlServiceClassifyOperation body = .ok operation)
    (hexecute : sqlServiceExecute body db = some (db', result)) :
    requestHandlerHandle ⟨ascii "POST", path, copyBody body⟩ db = some (db', resultResponse result) := by
  have hblank := classify_not_blank hclassify
  have hne : body ≠ [] := by
    rintro rfl
    cases hblank
  have hoperation : requestOperation ⟨ascii "POST", path, some body⟩ = .ok operation := by
    simp only [requestOperation, HttpRequest.sqlText, Option.getD_some, cString_eq_self hnul, hpath,
      hblank, hclassify, ne_eq, not_true_eq_false, if_false, reduceCtorEq, Bool.false_eq_true, or_self]
    cases operation with
    | unknown => exact absurd hclassify (classify_known body)
    | read => rfl
    | write => rfl
  rw [copyBody, if_neg hne, requestHandlerHandle, hoperation]
  simp only [HttpRequest.sqlText, Option.getD_some, cString_eq_self hnul, hexecute, Option.map_some]
  rfl

/-- **From request to response.** A POST of an SQL text that the server classifies is
received in any packets, and executed as the text alone is. The client gets one response,
in whatever pieces it is sent: its head ends where the server's own reader finds the end
of a head, and declares the length of the body; the status is 200 or 400 as the text
succeeds or fails; and the body is the payload of the text, a JSON document with the
selected rows if their numbers are JSON numbers. -/
theorem http_exchange (request : RequestText) (hmethod : request.method = ascii "POST")
    (hpath : peek request.path = 0x2f)
    (hsize : request.bytes.length ≤ serverRequestMaxCapacity) {received : List RecvEvent}
    (hreceived : Sends request.bytes received) {db db' : Db} (hdb : Reachable db)
    {operation : SqlOperationKind}
    (hclassify : sqlServiceClassifyOperation request.body = .ok operation)
    {result : SqlServiceResult} (hexecute : sqlServiceExecute request.body db = some (db', result))
    (hpayload : result.payload.length < 2 ^ 64) :
    ∃ head handled,
      (∀ later, serverSocketReadRequest (received ++ later) = .ok request.bytes) ∧
      httpParseRequest (cString request.bytes) = .ok handled ∧
      requestHandlerHandle handled db = some (db', resultResponse result) ∧
      (∀ sends : List SendEvent, sends.all SendEvent.goesOn = true →
        (head ++ result.payload).length ≤ sends.countP SendEvent.takes →
        (serverSocketExecuteRequestJob (jobOn db request.bytes) sends).bytes =
          head ++ result.payload) ∧
      readHeaders (head ++ result.payload) = some (.ok ⟨head.length, result.payload.length⟩) ∧
      statusLine (if result.ok then 200 else 400) ++ crlf <+: head ∧
      (JsonNumbers request.body db → PayloadIsJson request.body db result.payload) := by
  have hbody : request.body.length < 2 ^ 64 := (request.body_le.trans hsize).trans_lt (by decide)
  have hparse := request.parse hbody
  rw [hmethod] at hparse
  have hhandle := handle_post hpath request.body_bytes hclassify hexecute
  have htype : ∀ c ∈ (resultResponse result).contentType, isLineByte c = true := by
    show ∀ c ∈ ascii "application/json; charset=utf-8", isLineByte c = true
    decide +kernel
  have hnul : 0 ∉ linesText (responseLines (resultResponse result)) ++ crlf ++ result.payload :=
    List.not_mem_append (List.not_mem_append (linesText_nulFree (responseLines_isLine htype))
      (by decide)) (payload_nulFree hdb.valid hexecute)
  refine ⟨linesText (responseLines (resultResponse result)) ++ crlf, _,
    request.received hsize hreceived, hparse, hhandle, ?_, response_readHeaders htype hpayload, ?_,
    (sqlServiceExecute_json hdb.valid hexecute).mpr⟩
  · intro sends hgo henough
    exact job_sends_response hparse hhandle hnul hgo henough
  · rw [responseLines, linesText_cons, List.append_assoc, List.append_assoc, ← List.append_assoc]
    exact List.prefix_append _ _

/-- A POST of a SELECT. -/
def selectText : RequestText :=
  { postText with
    headers := [ascii "Content-Length: 20"]
    body := ascii "SELECT * FROM users;"
    header_lines := by
      simp only [IsLine]
      decide +kernel
    content_length := by
      refine ⟨[], ascii "Content-Length: 20", [], rfl, ⟨ascii " ", ascii "20", [],
        ⟨ascii "Content-Length", rfl, by decide⟩, by decide, by decide, by decide, by decide,
        by decide⟩, ?_⟩
      intro other hother
      cases hother
    body_bytes := by decide }

theorem http_exchange_select : ∃ head db' result,
    sqlServiceExecute selectText.body usersDb = some (db', result) ∧ result.ok = true ∧
    readHeaders (head ++ result.payload) = some (.ok ⟨head.length, result.payload.length⟩) ∧
    statusLine 200 ++ crlf <+: head := by
  have hrun : (sqlServiceExecute selectText.body usersDb).map (fun out =>
      (out.2.ok, decide (out.2.payload.length < 2 ^ 64))) = some (true, true) := by decide +kernel
  obtain ⟨⟨db', result⟩, hexecute, hboth⟩ := Option.map_eq_some_iff.mp hrun
  obtain ⟨hok, hsmall⟩ := Prod.mk.inj hboth
  have hsends : Sends selectText.bytes
      [.packet 0x50 (ascii "OST / HTTP/1.1\r\nContent-Length: 20\r\n\r"), .interrupted,
        .packet 0x0a (ascii "SELECT * FROM users;")] := ⟨by decide, by decide⟩
  have hclassify : sqlServiceClassifyOperation selectText.body = .ok .read := by decide +kernel
  obtain ⟨head, handled, -, -, -, -, hframe, hstatus, -⟩ := http_exchange selectText rfl rfl
    (by decide) hsends (.create usersDisk (ascii "db")) hclassify hexecute (of_decide_eq_true hsmall)
  rw [hok] at hstatus
  exact ⟨head, db', result, hexecute, hok, hframe, hstatus⟩

end MiniSql.Server
