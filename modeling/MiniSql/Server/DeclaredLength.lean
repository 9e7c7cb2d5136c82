import MiniSql.Server.HeaderLength

/-!
# The length a request declares

`server_parse_content_length` multiplies by ten in `size_t` and the reader adds the
length of the headers to the result, both without a bound. A number from 2 ^ 64 on is
read as another one, and one that wraps the sum makes any request complete.
-/

namespace MiniSql.Server

/-! ## The number that is written -/

/-- What stands behind the colon of the first line that is named Content-Length, among
the lines in front of an empty one. -/
def contentLengthHeader (cursor : Bytes) : Option Bytes :=
  if _hline : cursor.takeWhile (fun c => !isLineBreak c) = [] then none
  else
    match contentLengthField (cursor.takeWhile fun c => !isLineBreak c) with
    | some value => some value
    | none => contentLengthHeader ((cursor.dropWhile fun c => !isLineBreak c).dropWhile isLineBreak)
termination_by cursor.length
decreasing_by
  exact lt_of_le_of_lt (List.length_dropWhile_le _ _) (dropWhile_length_lt _hline)

/-- The decimal number that a value begins with. -/
def declaredLength (value : Bytes) : Nat := digitsValue 0 (value.dropWhile isBlank)

theorem serverParseContentLength_eq (cursor : Bytes) :
    serverParseContentLength cursor =
      (contentLengthHeader cursor).elim (.ok 0) contentLengthValue := by
  fun_induction serverParseContentLength cursor with
  | case1 cursor hline =>
    rw [contentLengthHeader, dif_pos hline]
    rfl
  | case2 cursor hline value hfield =>
    rw [contentLengthHeader, dif_neg hline]
    simp only [hfield, Option.elim_some]
  | case3 cursor hline hfield ih =>
    rw [contentLengthHeader, dif_neg hline]
    simp only [hfield]
    exact ih

theorem digitsValue_of_not_digit {c : UInt8} (h : isdigit c = false) (acc : Nat) (rest : Bytes) :
    digitsValue acc (c :: rest) = acc := by
  simp [digitsValue, h]

/-- The digits are read up to multiples of 2 ^ 64. -/
theorem contentLengthDigits_ok {parsed written : Nat} {seen : Bool} {value : Bytes} {result : Nat × Bool}
    (hparsed : parsed = written % 2 ^ 64) (h : contentLengthDigits parsed seen value = .ok result) :
    result.1 = digitsValue written value % 2 ^ 64 := by
  induction value generalizing parsed written seen with
  | nil =>
    cases h
    exact hparsed
  | cons c value ih =>
    cases hdigit : isdigit c with
    | true =>
      simp only [contentLengthDigits, hdigit, if_true] at h
      simp only [digitsValue, hdigit, if_true]
      apply ih _ h
      rw [hparsed]
      omega
    | false =>
      rw [digitsValue_of_not_digit hdigit]
      simp only [contentLengthDigits, hdigit, Bool.false_eq_true, if_false] at h
      split at h
      · cases h
        exact hparsed
      · cases h

theorem contentLengthValue_ok {value : Bytes} {n : Nat} (h : contentLengthValue value = .ok n) :
    n = declaredLength value % 2 ^ 64 := by
  rcases hdigits : contentLengthDigits 0 false (value.dropWhile isBlank) with e | ⟨parsed, seen⟩
  · simp [contentLengthValue, hdigits, bind, Except.bind] at h
  · have hparsed := contentLengthDigits_ok (Nat.zero_mod _).symm hdigits
    cases seen with
    | false => simp [contentLengthValue, hdigits, bind, Except.bind] at h
    | true =>
      simp only [contentLengthValue, hdigits, bind, Except.bind, if_true, Except.ok.injEq] at h
      rw [← h]
      exact hparsed

/-- What the parser returns for a block with a Content-Length. -/
theorem serverParseContentLength_ok {block value : Bytes} {n : Nat}
    (hfield : contentLengthHeader block = some value)
    (hparse : serverParseContentLength block = .ok n) : n = declaredLength value % 2 ^ 64 := by
  rw [serverParseContentLength_eq, hfield, Option.elim_some] at hparse
  exact contentLengthValue_ok hparse

/-! ## Requests with a header block -/

/-- Bytes that the reader can take for the headers of a request. -/
def HeaderBlock (block : Bytes) : Prop :=
  ∃ found, serverFindRequestTerminator block = some found ∧ found.1 + found.2 = block.length ∧
    block.length ≤ serverRequestMaxCapacity

/-- The declared length is read as it is written, and no request with this header block
is returned that is longer with its declared body than 65536 or than what came in. -/
structure ReadExactly (block value : Bytes) (n : Nat) : Prop where
  number : n = declaredLength value
  bounded : ∀ events buffer found, serverSocketReadRequest events = .ok buffer →
    serverFindRequestTerminator buffer = some found → buffer.take (found.1 + found.2) = block →
    block.length + declaredLength value ≤ serverRequestMaxCapacity ∧
      block.length + declaredLength value ≤ buffer.length

/-- The headers of a block, as a buffer that begins with it has them. -/
theorem readHeaders_block {block : Bytes} {n : Nat} {found : Nat × Nat}
    (hparse : serverParseContentLength block = .ok n)
    (hfound : serverFindRequestTerminator block = some found)
    (hwhole : found.1 + found.2 = block.length) :
    readHeaders block = some (.ok ⟨block.length, n⟩) := by
  apply readHeaders_ok_iff.mpr
  refine ⟨found, hfound, hwhole, ?_⟩
  rw [List.take_length]
  exact hparse

/-- A request whose sum does not wrap is returned only as a whole. -/
theorem request_bounded {block value : Bytes} {n : Nat}
    (hnumber : n = declaredLength value) (hparse : serverParseContentLength block = .ok n)
    (hsum : block.length ≤ serverRequestMaxCapacity → block.length + declaredLength value < 2 ^ 64)
    {events : List RecvEvent} {buffer : Bytes} {found : Nat × Nat}
    (hok : serverSocketReadRequest events = .ok buffer)
    (hfound : serverFindRequestTerminator buffer = some found)
    (hblock : buffer.take (found.1 + found.2) = block) :
    block.length + declaredLength value ≤ serverRequestMaxCapacity ∧
      block.length + declaredLength value ≤ buffer.length := by
  obtain ⟨reader, rest, headers, hreads, rfl, hheaders, htotal⟩ := reads_of_ok hok
  have hconsistent := hreads.consistent
  have hread := hconsistent.headers
  have hmost := hconsistent.fits.trans hconsistent.limit
  have hlength : block.length = found.1 + found.2 := by
    rw [← hblock, List.length_take_of_le (terminator_le hfound)]
  rw [hheaders, Option.map_some, readHeaders, hfound, Option.map_some, hblock, hparse] at hread
  obtain rfl : headers = ⟨found.1 + found.2, n⟩ := by simpa [Except.map] using hread
  have hinside := terminator_le hfound
  have hless := hsum (by omega)
  simp only [Headers.total, ← hlength, hnumber, Nat.mod_eq_of_lt hless] at htotal
  omega

/-- A sum that wraps is smaller than the headers: they are a complete request. -/
theorem wrapped_request {block : Bytes} {n : Nat} {found : Nat × Nat}
    (hparse : serverParseContentLength block = .ok n)
    (hfound : serverFindRequestTerminator block = some found)
    (hwhole : found.1 + found.2 = block.length) (hmost : block.length ≤ serverRequestMaxCapacity)
    (hn : n < 2 ^ 64) (hwraps : 2 ^ 64 ≤ block.length + n) :
    ∃ events, serverSocketReadRequest events = .ok block := by
  cases block with
  | nil => simp at hwraps; omega
  | cons first more =>
    have hsends : Sends (first :: more) [.packet first more] :=
      ⟨by simp, by simp [stream, RecvEvent.bytes]⟩
    have hread := readHeaders_block hparse hfound hwhole
    have htotal : Headers.total ⟨(first :: more).length, n⟩ < (first :: more).length := by
      simp only [Headers.total, serverRequestMaxCapacity] at hmost ⊢
      omega
    have hverdict : verdict (first :: more) = .accepted ⟨(first :: more).length, n⟩ := by
      rw [verdict, List.take_of_length_le hmost, hread]
      simp only
      rw [if_neg (by omega), if_neg (by omega)]
    have hallows := serverSocketReadRequest_verdict hsends
    rw [hverdict] at hallows
    obtain ⟨k, hstops, hresult⟩ := hallows
    have hall := (le_max_left _ _).trans hstops.reached
    rw [List.take_of_length_le hall] at hresult
    exact ⟨_, hresult⟩

/-- **When declared lengths are read exactly.** For every header block with a
Content-Length that is read, the number is the one written and no request with these
headers is returned that is too large or not complete, if and only if the number is
below 2 ^ 64 and, in a block that the reader can take for headers, stays below it with
the length of the block added. -/
theorem declared_length_iff {block value : Bytes} {n : Nat}
    (hfield : contentLengthHeader block = some value)
    (hparse : serverParseContentLength block = .ok n) :
    ReadExactly block value n ↔
      declaredLength value < 2 ^ 64 ∧
        (HeaderBlock block → block.length + declaredLength value < 2 ^ 64) := by
  have hn := serverParseContentLength_ok hfield hparse
  have hless : n < 2 ^ 64 := hn ▸ Nat.mod_lt _ (by decide)
  constructor
  · rintro ⟨hnumber, hbounded⟩
    rw [← hnumber]
    refine ⟨hless, fun hblock => ?_⟩
    obtain ⟨found, hfound, hwhole, hmost⟩ := hblock
    by_contra hwraps
    obtain ⟨events, hok⟩ := wrapped_request hparse hfound hwhole hmost hless (by omega)
    have htake : block.take (found.1 + found.2) = block := by rw [hwhole, List.take_length]
    have hlarge := (hbounded events block found hok hfound htake).2
    rw [serverRequestMaxCapacity] at hmost
    omega
  · rintro ⟨hsmall, hsum⟩
    rw [Nat.mod_eq_of_lt hsmall] at hn
    refine ⟨hn, fun events buffer found hok hfound hblock => ?_⟩
    refine request_bounded hn hparse (fun hmost => hsum ⟨found, ?_, ?_, hmost⟩) hok hfound hblock
    · have hsplit : buffer = block ++ buffer.drop (found.1 + found.2) := by
        rw [← hblock, List.take_append_drop]
      rw [hsplit] at hfound
      apply terminator_of_append hfound
      rw [← hblock, List.length_take_of_le]
      rw [← hsplit] at hfound
      exact terminator_le hfound
    · rw [← hblock, List.length_take_of_le (terminator_le hfound)]

theorem declared_length_eleven :
    ReadExactly (ascii "POST / HTTP/1.1\r\nContent-Length: 11\r\n\r\n") (ascii " 11") 11 := by
  have hfield : contentLengthHeader (ascii "POST / HTTP/1.1\r\nContent-Length: 11\r\n\r\n") =
      some (ascii " 11") := by
    decide +kernel
  have hparse : serverParseContentLength (ascii "POST / HTTP/1.1\r\nContent-Length: 11\r\n\r\n") =
      .ok 11 := by
    decide +kernel
  apply (declared_length_iff hfield hparse).mpr
  constructor
  · decide +kernel
  · intro _
    decide +kernel

/-- The number wraps to 0, and the headers alone are a complete request. -/
theorem declared_length_wraps :
    ¬ ∀ block value n, contentLengthHeader block = some value →
      serverParseContentLength block = .ok n → ReadExactly block value n := by
  intro h
  have hexact := h (ascii "POST / HTTP/1.1\r\nContent-Length: 18446744073709551616\r\n\r\n")
    (ascii " 18446744073709551616") 0 (by decide +kernel) (by decide +kernel)
  exact absurd hexact.number (by decide +kernel)

end MiniSql.Server
