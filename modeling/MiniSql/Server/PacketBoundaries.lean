import MiniSql.Server.ReceivePipeline

/-!
# Packet boundaries

The reader stops once the headers and the length they give are there, but keeps what
came with the last packet, and the parser takes everything behind the headers up to the
first NUL as the body. What a stream means depends on its packets unless nothing can
come in behind the body, or a NUL stands there.
-/

namespace MiniSql.Server

/-! ## What a connection comes to -/

/-- A request for the handler, a text that is none, or a read that failed. -/
inductive Receipt
  | request (request : HttpRequest)
  | refused (e : SqlError)
  | unread (result : ReadResult)
  deriving DecidableEq, Repr

def parsed : Except SqlError HttpRequest → Receipt
  | .ok request => .request request
  | .error e => .refused e

/-- `http_parse_request` on a buffer that was read. -/
def receipt : ReadResult → Receipt
  | .ok buffer => parsed (httpParseRequest (cString buffer))
  | result => .unread result

def receiveRequest (events : List RecvEvent) : Receipt := receipt (serverSocketReadRequest events)

/-- The body is the `content_length` bytes behind the headers. -/
def BodyFramed (bytes : Bytes) (request : HttpRequest) : Prop :=
  ∃ headers rest, readHeaders bytes = some (.ok headers) ∧
    bytes.drop headers.headerLength = request.body.getD [] ++ rest ∧
    (request.body.getD []).length = headers.contentLength

/-- The meaning of a stream does not depend on its packets, and the body is the one that
its headers announce. -/
structure SplitFree (bytes : Bytes) : Prop where
  same : ∀ events events', Sends bytes events → Sends bytes events' →
    receiveRequest events = receiveRequest events'
  framed : ∀ events request, Sends bytes events → receiveRequest events = .request request →
    BodyFramed bytes request

/-- What the length of a request that can be read has to be like: a NUL in the headers
goes with no body; otherwise there is no NUL up to the end of the body, and the stream
ends there, or the buffer is full there, or a NUL follows. -/
def Delimited (bytes : Bytes) : Prop :=
  ∀ headers, readHeaders bytes = some (.ok headers) → headers.stop ≤ serverRequestMaxCapacity →
    headers.stop ≤ bytes.length →
    ∀ line, parseFirstLine (cString (bytes.take headers.headerLength)) = .ok line →
    headers.headerLength + headers.contentLength < 2 ^ 64 ∧
    (0 ∈ bytes.take headers.headerLength ∧ headers.contentLength = 0 ∨
      0 ∉ bytes.take (headers.headerLength + headers.contentLength) ∧
      (bytes.length = headers.headerLength + headers.contentLength ∨
        (∃ k, headers.headerLength + headers.contentLength = 1024 * 2 ^ k) ∨
        bytes[headers.headerLength + headers.contentLength]? = some 0))

/-! ## Buffers -/

/-- Behind what a C function sees of a buffer there is its NUL. -/
theorem getElem_cString {s : Bytes} (h : (cString s).length < s.length) :
    s[(cString s).length]? = some 0 := by
  induction s with
  | nil => cases h
  | cons c s ih =>
    by_cases hc : c = 0
    · simp [cString, hc]
    · simp only [cString, List.takeWhile_cons, bne_iff_ne, ne_eq, hc, not_false_eq_true, if_true,
        List.length_cons, List.getElem?_cons_succ, Nat.add_lt_add_iff_right] at h ⊢
      exact ih h

/-- What the parser takes for the body when `n` bytes were read. -/
def bodyRead (bytes : Bytes) (headers : Headers) (n : Nat) : Bytes :=
  if 0 ∈ bytes.take headers.headerLength then []
  else cString ((bytes.drop headers.headerLength).take (n - headers.headerLength))

theorem take_split {bytes : Bytes} {m n : Nat} (h : m ≤ n) :
    bytes.take n = bytes.take m ++ (bytes.drop m).take (n - m) := by
  rw [← List.take_add, Nat.add_sub_cancel' h]

section

variable {bytes : Bytes} {headers : Headers} (hread : readHeaders bytes = some (.ok headers))
include hread

theorem length_head : (bytes.take headers.headerLength).length = headers.headerLength := by
  rw [List.length_take, min_eq_left (readHeaders_le hread)]

/-- A NUL in the headers hides the terminator, and with it the body. -/
theorem requestBody_of_nul (hnul : 0 ∈ bytes.take headers.headerLength) :
    requestBody (cString (bytes.take headers.headerLength)) = none := by
  obtain ⟨found, hfound, hlength, -⟩ := readHeaders_ok_iff.mp hread
  have hbegins : cString (bytes.take headers.headerLength) <+: bytes.take headers.headerLength :=
    List.takeWhile_prefix _
  have hshort : (cString (bytes.take headers.headerLength)).length < headers.headerLength := by
    refine lt_of_le_of_ne (hbegins.length_le.trans_eq (length_head hread)) fun heq => ?_
    have hall := hbegins.eq_of_length (heq.trans (length_head hread).symm)
    exact cString_nulFree (bytes.take headers.headerLength) (hall.symm ▸ hnul)
  have hnone : serverFindRequestTerminator (cString (bytes.take headers.headerLength)) = none := by
    by_contra hsome
    obtain ⟨other, hother⟩ := Option.ne_none_iff_exists'.mp hsome
    obtain ⟨more, hmore⟩ := hbegins.trans ( List.take_prefix headers.headerLength bytes)
    have heq : other = found := by
      have hlong := terminator_append hother more
      rw [hmore, hfound] at hlong
      exact (Option.some.inj hlong).symm
    have hle := terminator_le hother
    rw [heq] at hle
    omega
  have hstart : findBodyStart (cString (bytes.take headers.headerLength)) = none := by
    rw [findBodyStart_eq, hnone, Option.map_none]
  simp only [requestBody, hstart]

/-- The request line is that of the headers, and the body is what was read behind them
up to a NUL. -/
theorem parse_read {n : Nat} (hn : headers.headerLength ≤ n) :
    httpParseRequest (cString (bytes.take n)) =
      (parseFirstLine (cString (bytes.take headers.headerLength))).map fun line =>
        ⟨line.1, line.2, copyBody (bodyRead bytes headers n)⟩ := by
  rw [take_split hn]
  by_cases hnul : 0 ∈ bytes.take headers.headerLength
  · rw [cString_append hnul, httpParseRequest, requestBody_of_nul hread hnul, bodyRead,
      if_pos hnul]
    rfl
  · obtain ⟨found, hfound, hlength, -⟩ := readHeaders_ok_iff.mp hread
    have hhead : serverFindRequestTerminator (bytes.take headers.headerLength) = some found := by
      rw [← List.take_append_drop headers.headerLength bytes] at hfound
      exact terminator_of_append hfound (hlength.trans (length_head hread).symm).le
    obtain ⟨lineEnd, hend⟩ := findRequestLineEnd_of_terminator hhead
    have hbody (rest : Bytes) :
        requestBody (bytes.take headers.headerLength ++ rest) = copyBody rest := by
      have hstart : findBodyStart (bytes.take headers.headerLength ++ rest) =
          some headers.headerLength := by
        rw [findBodyStart_eq, terminator_append hhead, Option.map_some, hlength]
      simp only [requestBody, hstart, List.drop_left' (length_head hread)]
    rw [cString_append_of_not_mem hnul, cString_eq_self hnul, httpParseRequest,
      parseFirstLine_append hend, hbody, bodyRead, if_neg hnul]

end

/-! ## Verdicts -/

theorem verdict_accepted_iff {bytes : Bytes} {headers : Headers} :
    verdict bytes = .accepted headers ↔ readHeaders bytes = some (.ok headers) ∧
      headers.stop ≤ serverRequestMaxCapacity ∧ headers.stop ≤ bytes.length := by
  have hsplit := List.take_append_drop serverRequestMaxCapacity bytes
  constructor
  · intro h
    rcases hread : readHeaders (bytes.take serverRequestMaxCapacity) with _ | e | found
    · simp only [verdict, hread] at h
      split at h
      · cases h
      · split at h <;> cases h
    · simp [verdict, hread] at h
    · simp only [verdict, hread] at h
      split at h
      · cases h
      · rename_i htotal
        split at h
        · cases h
        · rename_i hlength
          cases h
          have hle := readHeaders_le hread
          rw [List.length_take, le_min_iff] at hle
          refine ⟨?_, max_le hle.1 (Nat.not_lt.mp htotal), max_le hle.2 (Nat.not_lt.mp hlength)⟩
          exact hsplit ▸ readHeaders_append hread _
  · rintro ⟨hread, hlimit, hlength⟩
    obtain ⟨hhead, htotal⟩ := max_le_iff.mp hlimit
    obtain ⟨hhead', htotal'⟩ := max_le_iff.mp hlength
    rw [← hsplit] at hread
    have hinside : headers.headerLength ≤ (bytes.take serverRequestMaxCapacity).length := by
      rw [List.length_take]
      exact le_min hhead hhead'
    simp only [verdict, readHeaders_of_append hread hinside]
    rw [if_neg (Nat.not_lt.mpr htotal), if_neg (Nat.not_lt.mpr htotal')]

theorem settled_ne_ok {bytes : Bytes} {result : ReadResult} (h : verdict bytes = .settled result)
    (buffer : Bytes) : result ≠ .ok buffer := by
  rintro rfl
  unfold verdict at h
  repeat' split at h
  all_goals cases h

theorem receiveRequest_settled {bytes : Bytes} {result : ReadResult}
    (h : verdict bytes = .settled result) {events : List RecvEvent} (hsends : Sends bytes events) :
    receiveRequest events = .unread result := by
  have hallows := serverSocketReadRequest_verdict hsends
  rw [h] at hallows
  have hne := settled_ne_ok h
  rw [receiveRequest, (hallows : serverSocketReadRequest events = result)]
  cases result with
  | ok buffer => exact absurd rfl (hne buffer)
  | empty => rfl
  | tooLarge e => rfl
  | error e => rfl

theorem receiveRequest_accepted {bytes : Bytes} {headers : Headers}
    (h : verdict bytes = .accepted headers) {events : List RecvEvent} (hsends : Sends bytes events) :
    ∃ n, Stops bytes headers events n ∧ receiveRequest events =
      parsed ((parseFirstLine (cString (bytes.take headers.headerLength))).map fun line =>
        ⟨line.1, line.2, copyBody (bodyRead bytes headers n)⟩) := by
  have hallows := serverSocketReadRequest_verdict hsends
  rw [h] at hallows
  obtain ⟨n, hstops, hresult⟩ := hallows
  have hn : headers.headerLength ≤ n := (le_max_left _ _).trans hstops.reached
  refine ⟨n, hstops, ?_⟩
  rw [receiveRequest, hresult, receipt, parse_read (verdict_accepted_iff.mp h).1 hn]

/-! ## Bodies -/

/-- Behind a body that is delimited nothing is read that counts. -/
theorem cString_behind {bytes : Bytes} {headers : Headers} {m n : Nat} {events : List RecvEvent}
    (hstop : headers.stop = m) (hstops : Stops bytes headers events n)
    (hends : bytes.length = m ∨ (∃ k, m = 1024 * 2 ^ k) ∨ bytes[m]? = some 0) :
    cString ((bytes.drop m).take (n - m)) = [] := by
  rcases hends with hend | ⟨k, hfull⟩ | hnul
  · rw [List.drop_of_length_le hend.le, List.take_nil]
    rfl
  · have hn := hstops.room k (hstop.trans hfull).le
    rw [Nat.sub_eq_zero_of_le (hn.trans_eq hfull.symm)]
    rfl
  · have hdrop : (bytes.drop m)[0]? = some 0 := by rw [List.getElem?_drop, Nat.add_zero, hnul]
    rcases hmore : bytes.drop m with _ | ⟨c, more⟩
    · rw [List.take_nil]
      rfl
    · rw [hmore] at hdrop
      obtain rfl : c = 0 := by simpa using hdrop
      cases n - m <;> rfl

section

variable {bytes : Bytes} {headers : Headers} {line : Bytes × Bytes} (h : Delimited bytes)
  (hverdict : verdict bytes = .accepted headers)
  (hline : parseFirstLine (cString (bytes.take headers.headerLength)) = .ok line)
include h hverdict hline

theorem Delimited.stop_eq : headers.stop = headers.headerLength + headers.contentLength := by
  obtain ⟨hread, hlimit, hlength⟩ := verdict_accepted_iff.mp hverdict
  have hsmall := (h headers hread hlimit hlength line hline).1
  rw [Headers.stop, Headers.total, Nat.mod_eq_of_lt hsmall]
  exact max_eq_right (Nat.le_add_right _ _)

/-- A request that is delimited has the body that its headers announce, whatever was read. -/
theorem Delimited.bodyRead_eq {events : List RecvEvent} {n : Nat}
    (hstops : Stops bytes headers events n) :
    bodyRead bytes headers n = (bytes.drop headers.headerLength).take headers.contentLength := by
  have hstop := h.stop_eq hverdict hline
  obtain ⟨hread, hlimit, hlength⟩ := verdict_accepted_iff.mp hverdict
  rcases (h headers hread hlimit hlength line hline).2 with ⟨hnul, hzero⟩ | ⟨hfree, hends⟩
  · rw [bodyRead, if_pos hnul, hzero, List.take_zero]
  · rw [List.take_add, List.mem_append, not_or] at hfree
    have hn : headers.contentLength ≤ n - headers.headerLength := by
      have hreached := hstops.reached
      omega
    have hbehind := cString_behind hstop hstops hends
    rw [bodyRead, if_neg hfree.1, take_split hn, cString_append_of_not_mem hfree.2, List.drop_drop,
      Nat.sub_sub, hbehind, List.append_nil]

end

/-- If the body that is read from one packet is the one that the headers announce, then
it is delimited. -/
theorem delimited_of_body {bytes : Bytes} {headers : Headers}
    (hverdict : verdict bytes = .accepted headers) {events : List RecvEvent}
    (hsingle : events.length ≤ 1) {n : Nat} (hstops : Stops bytes headers events n) {rest : Bytes}
    (hsplit : bytes.drop headers.headerLength = bodyRead bytes headers n ++ rest)
    (hbody : (bodyRead bytes headers n).length = headers.contentLength) :
    headers.headerLength + headers.contentLength < 2 ^ 64 ∧
    (0 ∈ bytes.take headers.headerLength ∧ headers.contentLength = 0 ∨
      0 ∉ bytes.take (headers.headerLength + headers.contentLength) ∧
      (bytes.length = headers.headerLength + headers.contentLength ∨
        (∃ k, headers.headerLength + headers.contentLength = 1024 * 2 ^ k) ∨
        bytes[headers.headerLength + headers.contentLength]? = some 0)) := by
  obtain ⟨hread, hlimit, hlength⟩ := verdict_accepted_iff.mp hverdict
  have hn : headers.headerLength ≤ n := (le_max_left _ _).trans hstops.reached
  have hmax : n ≤ 65536 := hstops.room 6 hlimit
  by_cases hnul : 0 ∈ bytes.take headers.headerLength
  · rw [bodyRead, if_pos hnul] at hbody
    have hzero : headers.contentLength = 0 := hbody.symm
    exact ⟨by omega, .inl ⟨hnul, hzero⟩⟩
  · rw [bodyRead, if_neg hnul] at hbody hsplit
    have hmid : ((bytes.drop headers.headerLength).take (n - headers.headerLength)).length =
        n - headers.headerLength := by
      rw [List.length_take, List.length_drop]
      exact min_eq_left (Nat.sub_le_sub_right hstops.within _)
    have hle : headers.contentLength ≤ n - headers.headerLength :=
      hbody.symm.trans_le ((List.takeWhile_sublist _).length_le.trans_eq hmid)
    refine ⟨by omega, .inr ⟨?_, ?_⟩⟩
    · rw [List.take_add, hsplit, List.take_left' hbody, List.mem_append, not_or]
      exact ⟨hnul, cString_nulFree _⟩
    · by_cases hend : n = headers.headerLength + headers.contentLength
      · rw [← hend]
        exact (hstops.filled hsingle).imp Eq.symm .inl
      · have hless : headers.contentLength < n - headers.headerLength := by omega
        have hbyte := getElem_cString (by rw [hbody, hmid]; exact hless)
        rw [hbody, List.getElem?_take_of_lt hless, List.getElem?_drop] at hbyte
        exact .inr (.inr hbyte)

theorem splitFree_of_receipt {bytes : Bytes} {r : Receipt}
    (hsame : ∀ events, Sends bytes events → receiveRequest events = r)
    (hframed : ∀ request, r = .request request → BodyFramed bytes request) : SplitFree bytes where
  same events events' hsends hsends' := (hsame events hsends).trans (hsame events' hsends').symm
  framed events request hsends hreceive := hframed request ((hsame events hsends).symm.trans hreceive)

/-- **When packets do not matter.** What a stream means does not depend on its packets,
and its body is the one that its headers announce, if and only if it is delimited. -/
theorem split_free_iff (bytes : Bytes) : SplitFree bytes ↔ Delimited bytes := by
  constructor
  · intro h headers hread hlimit hlength line hline
    have hverdict := verdict_accepted_iff.mpr ⟨hread, hlimit, hlength⟩
    -- All bytes in one packet.
    obtain ⟨events, hsingle, hsends⟩ : ∃ events, events.length ≤ 1 ∧ Sends bytes events := by
      cases bytes with
      | nil => exact ⟨[], Nat.zero_le _, by simp, rfl⟩
      | cons c more => exact ⟨[.packet c more], le_rfl, by simp, by simp [stream, RecvEvent.bytes]⟩
    obtain ⟨n, hstops, hreceive⟩ := receiveRequest_accepted hverdict hsends
    rw [hline] at hreceive
    obtain ⟨headers', rest, hread', hsplit, hbody⟩ := h.framed events _ hsends hreceive
    obtain rfl : headers = headers' := by simpa using hread.symm.trans hread'
    rw [copyBody_getD] at hsplit hbody
    exact delimited_of_body hverdict hsingle hstops hsplit hbody
  · intro h
    rcases hverdict : verdict bytes with result | headers
    · exact splitFree_of_receipt (fun events => receiveRequest_settled hverdict) (by simp)
    rcases hline : parseFirstLine (cString (bytes.take headers.headerLength)) with e | line
    · refine splitFree_of_receipt (r := .refused e) (fun events hsends => ?_) (by simp)
      obtain ⟨n, -, hreceive⟩ := receiveRequest_accepted hverdict hsends
      rw [hreceive, hline]
      rfl
    · refine splitFree_of_receipt (r := .request ⟨line.1, line.2, copyBody
        ((bytes.drop headers.headerLength).take headers.contentLength)⟩) (fun events hsends => ?_) ?_
      · obtain ⟨n, hstops, hreceive⟩ := receiveRequest_accepted hverdict hsends
        rw [hreceive, hline, h.bodyRead_eq hverdict hline hstops]
        rfl
      · rintro request hrequest
        cases hrequest
        refine ⟨headers, (bytes.drop headers.headerLength).drop headers.contentLength,
          (verdict_accepted_iff.mp hverdict).1, ?_, ?_⟩
        · rw [copyBody_getD, List.take_append_drop]
        · have hstop := h.stop_eq hverdict hline
          have hlength := (verdict_accepted_iff.mp hverdict).2.2
          rw [copyBody_getD, List.length_take, List.length_drop]
          omega

/-- A request that ends with its stream. -/
theorem split_free_post : SplitFree postText.bytes := by
  refine (split_free_iff _).mpr fun headers hread _ _ _ _ => ?_
  have hheaders : readHeaders postText.bytes = some (.ok ⟨48, 3⟩) := by decide +kernel
  obtain rfl : Headers.mk 48 3 = headers := by simpa using hheaders.symm.trans hread
  exact ⟨by decide, .inr ⟨by decide +kernel, .inl (by decide)⟩⟩

/-- A POST without a Content-Length: in one packet with its headers the bytes behind them
are its body, in a packet of their own they are none. -/
theorem split_changes_body :
    Sends (ascii "POST / HTTP/1.1\r\n\r\nabc")
      [.packet 0x50 (ascii "OST / HTTP/1.1\r\n\r\nabc")] ∧
    Sends (ascii "POST / HTTP/1.1\r\n\r\nabc")
      [.packet 0x50 (ascii "OST / HTTP/1.1\r\n\r\n"), .packet 0x61 (ascii "bc")] ∧
    receiveRequest [.packet 0x50 (ascii "OST / HTTP/1.1\r\n\r\nabc")] =
      .request ⟨ascii "POST", ascii "/", some (ascii "abc")⟩ ∧
    receiveRequest [.packet 0x50 (ascii "OST / HTTP/1.1\r\n\r\n"), .packet 0x61 (ascii "bc")] =
      .request ⟨ascii "POST", ascii "/", none⟩ := by
  refine ⟨⟨by decide, by decide⟩, ⟨by decide, by decide⟩, by decide +kernel, by decide +kernel⟩

end MiniSql.Server
