import MiniSql.Server.ReadRuns

/-!
# Receiving a request

A request as a client writes it: a request line, header lines of which one gives the
length of the body, a blank line and the body. However it comes in, the reader returns
its bytes and the parser finds its method, its path and its body in them.
-/

namespace MiniSql.Server

/-! ## Requests -/

def isalpha (c : UInt8) : Bool := isupper c || islower c

/-- A byte that may stand in a line. -/
def isLineByte (c : UInt8) : Bool := !isLineBreak c && c != 0

def IsLine (line : Bytes) : Prop := line ≠ [] ∧ ∀ c ∈ line, isLineByte c = true

/-- The line is named Content-Length, in any letter case. -/
def NamesLength (line value : Bytes) : Prop :=
  ∃ name, line = name ++ colon :: value ∧ name.map tolower = ascii "content-length"

/-- The line gives a length in decimal, with blanks around it. -/
def GivesLength (line : Bytes) (n : Nat) : Prop :=
  ∃ blanks digits blanks', NamesLength line (blanks ++ digits ++ blanks') ∧
    blanks.all isBlank = true ∧ blanks'.all isBlank = true ∧
    digits ≠ [] ∧ digits.all isdigit = true ∧ digitsValue 0 digits = n

/-- A request that is written correctly. Behind the path the request line may go on
with a blank and anything else. -/
structure RequestText where
  method : Bytes
  path : Bytes
  version : Bytes
  headers : List Bytes
  body : Bytes
  method_length : 1 ≤ method.length ∧ method.length ≤ 15
  method_letters : ∀ c ∈ method, isalpha c = true
  path_length : 1 ≤ path.length ∧ path.length ≤ 127
  path_bytes : ∀ c ∈ path, isLineByte c = true ∧ isBlank c = false
  version_blank : version = [] ∨ isBlank (peek version) = true
  version_bytes : ∀ c ∈ version, isLineByte c = true
  header_lines : ∀ line ∈ headers, IsLine line
  content_length : ∃ before line after, headers = before ++ line :: after ∧
    GivesLength line body.length ∧ ∀ other ∈ before ++ after, ∀ value, ¬ NamesLength other value
  body_bytes : 0 ∉ body

def RequestText.requestLine (request : RequestText) : Bytes :=
  request.method ++ 0x20 :: (request.path ++ request.version)

/-- Lines, each with its CRLF. -/
def linesText (lines : List Bytes) : Bytes := lines.flatMap (· ++ crlf)

def RequestText.bytes (request : RequestText) : Bytes :=
  linesText (request.requestLine :: request.headers) ++ crlf ++ request.body

/-! ## Lines -/

theorem not_lineBreak {c : UInt8} (h : isLineByte c = true) : isLineBreak c = false := by
  simp only [isLineByte, Bool.and_eq_true, Bool.not_eq_true'] at h
  exact h.1

theorem lineByte_ne {c : UInt8} (h : isLineByte c = true) :
    c ≠ carriageReturn ∧ c ≠ newline ∧ c ≠ 0 := by
  refine ⟨?_, ?_, ?_⟩ <;>
  · rintro rfl
    cases h

theorem linesText_cons (line : Bytes) (lines : List Bytes) :
    linesText (line :: lines) = line ++ (crlf ++ linesText lines) := by
  simp [linesText]

/-- No line break begins inside a line. -/
theorem find_line {needles : List Bytes}
    (hneedles : ∀ needle ∈ needles, isLineBreak (peek needle) = true) {line : Bytes}
    (hline : ∀ c ∈ line, isLineByte c = true) (rest : Bytes) :
    Scan.find needles (line ++ rest) =
      (Scan.find needles rest).map (Prod.map (· + line.length) id) := by
  refine Scan.find_skip (fun c hc needle hneedle => ?_) rest
  have hbreak := hneedles needle hneedle
  cases needle with
  | nil => cases hbreak
  | cons b more =>
    refine ⟨b, more, rfl, ?_⟩
    rintro rfl
    have hno := not_lineBreak (hline b hc)
    rw [peek, List.headD_cons, hno] at hbreak
    cases hbreak

/-- Between two lines there is no terminator. -/
theorem terminator_break {c : UInt8} (hc : isLineByte c = true) (rest : Bytes) :
    serverFindRequestTerminator (crlf ++ c :: rest) =
      (serverFindRequestTerminator (c :: rest)).map (Prod.map (· + 2) id) := by
  have hneedles : [ascii "\n\n", crlf ++ crlf] =
      [[newline, newline], [carriageReturn, newline, carriageReturn, newline]] := rfl
  have hdiffer : newline ≠ carriageReturn := by decide
  obtain ⟨hcr, hlf, -⟩ := lineByte_ne hc
  have hfirst : Scan.here [[newline, newline], [carriageReturn, newline, carriageReturn, newline]]
      (carriageReturn :: newline :: c :: rest) = none := by simp [Scan.here, hdiffer, hcr.symm]
  have hsecond : Scan.here [[newline, newline], [carriageReturn, newline, carriageReturn, newline]]
      (newline :: c :: rest) = none := by simp [Scan.here, hdiffer.symm, hlf.symm]
  rw [serverFindRequestTerminator, serverFindRequestTerminator, hneedles]
  show Scan.find _ (carriageReturn :: newline :: c :: rest) = _
  rw [Scan.find_cons hfirst, Scan.find_cons hsecond, Option.map_map]
  rfl

/-- The first terminator stands behind the last line. -/
theorem terminator_lines {lines : List Bytes} (hlines : ∀ line ∈ lines, IsLine line)
    (hne : lines ≠ []) (body : Bytes) :
    ∃ n, serverFindRequestTerminator (linesText lines ++ crlf ++ body) = some (n, 4) ∧
      n + 2 = (linesText lines).length := by
  induction lines with
  | nil => exact absurd rfl hne
  | cons line lines ih =>
    obtain ⟨hline, hlines⟩ := List.forall_mem_cons.mp hlines
    have hskip : serverFindRequestTerminator (linesText (line :: lines) ++ crlf ++ body) =
        (serverFindRequestTerminator (crlf ++ (linesText lines ++ crlf ++ body))).map
          (Prod.map (· + line.length) id) := by
      rw [linesText_cons, List.append_assoc, List.append_assoc, List.append_assoc,
        serverFindRequestTerminator, find_line (by decide) hline.2]
      simp [serverFindRequestTerminator]
    cases lines with
    | nil =>
      have hhere : serverFindRequestTerminator (crlf ++ (linesText [] ++ crlf ++ body)) = some (0, 4) :=
        rfl
      refine ⟨line.length, by rw [hskip, hhere]; simp, by simp [linesText]; rfl⟩
    | cons next lines =>
      obtain ⟨n, hfind, hn⟩ := ih hlines (by simp)
      obtain ⟨⟨hnext, hbytes⟩, -⟩ := List.forall_mem_cons.mp hlines
      obtain ⟨c, more, rfl⟩ := List.exists_cons_of_ne_nil hnext
      obtain ⟨tail, htail⟩ : ∃ tail, linesText ((c :: more) :: lines) ++ crlf ++ body = c :: tail := by
        rw [linesText_cons]
        exact ⟨_, rfl⟩
      rw [htail] at hskip hfind
      rw [terminator_break (hbytes c List.mem_cons_self), hfind] at hskip
      refine ⟨n + 2 + line.length, hskip, ?_⟩
      rw [linesText_cons line, List.length_append, List.length_append, ← hn]
      have h2 : crlf.length = 2 := rfl
      omega

theorem lineEnd_line {line : Bytes} (hline : ∀ c ∈ line, isLineByte c = true) (rest : Bytes) :
    findRequestLineEnd (line ++ crlf ++ rest) = some line.length := by
  have hhere : Scan.here [[newline], crlf] (crlf ++ rest) = some 2 := rfl
  rw [findRequestLineEnd_eq, List.append_assoc, find_line (by decide) hline, Scan.find_here hhere]
  simp

/-! ## Content-Length -/

theorem contentLengthField_iff {line value : Bytes} :
    contentLengthField line = some value ↔ NamesLength line value := by
  have hlower : (ascii "Content-Length").map tolower = ascii "content-length" := by decide
  constructor
  · intro h
    have hsplit := List.takeWhile_append_dropWhile (p := (· != colon)) (l := line)
    have hhead := List.head?_dropWhile_not (· != colon) line
    unfold contentLengthField at h
    rcases hdrop : line.dropWhile (· != colon) with _ | ⟨c, rest⟩
    · simp [hdrop] at h
    · simp only [hdrop, serverAsciiCaseEquals, hlower, beq_iff_eq, Option.ite_none_right_eq_some,
        Option.some.injEq] at h
      obtain ⟨hname, rfl⟩ := h
      rw [hdrop] at hsplit hhead
      obtain rfl : c = colon := by simpa using hhead
      exact ⟨_, hsplit.symm, hname⟩
  · rintro ⟨name, rfl, hname⟩
    have hcolon : ∀ c ∈ name, (c != colon) = true := by
      intro c hc
      rw [bne_iff_ne]
      rintro rfl
      have hmem := List.mem_map_of_mem (f := tolower) hc
      rw [hname] at hmem
      exact absurd hmem (by decide)
    rw [contentLengthField, List.dropWhile_append_of_pos hcolon, List.takeWhile_append_of_pos hcolon]
    simp [serverAsciiCaseEquals, hlower, hname]

theorem le_digitsValue (acc : Nat) (digits : Bytes) : acc ≤ digitsValue acc digits := by
  induction digits generalizing acc with
  | nil => exact le_rfl
  | cons c digits ih =>
    rw [digitsValue]
    split
    · have := ih (acc * 10 + (c.toNat - 0x30))
      omega
    · exact le_rfl

theorem contentLengthDigits_digits {digits blanks : Bytes} (hdigits : digits.all isdigit = true)
    (hblanks : blanks.all isBlank = true) {acc : Nat} (hsmall : digitsValue acc digits < 2 ^ 64)
    (sawDigit : Bool) :
    contentLengthDigits acc sawDigit (digits ++ blanks) =
      .ok (digitsValue acc digits, sawDigit || !digits.isEmpty) := by
  induction digits generalizing acc sawDigit with
  | nil =>
    cases blanks with
    | nil => simp [contentLengthDigits, digitsValue]
    | cons c blanks =>
      obtain ⟨hc, hrest⟩ : isBlank c = true ∧ blanks.all isBlank = true := by simpa using hblanks
      have hnot : isdigit c = false :=
        forall_byte (p := fun c => isBlank c = true → isdigit c = false) (by decide +kernel) c hc
      simp only [List.nil_append, contentLengthDigits, hnot, hc, hrest]
      simp [digitsValue]
  | cons c digits ih =>
    obtain ⟨hc, hrest⟩ : isdigit c = true ∧ digits.all isdigit = true := by simpa using hdigits
    simp only [digitsValue, hc, if_true] at hsmall ⊢
    have hless := (le_digitsValue _ digits).trans_lt hsmall
    rw [List.cons_append, contentLengthDigits, if_pos hc, Nat.mod_eq_of_lt hless, ih hrest hsmall]
    simp

theorem contentLengthValue_digits {blanks digits blanks' : Bytes} (hblanks : blanks.all isBlank = true)
    (hblanks' : blanks'.all isBlank = true) (hne : digits ≠ []) (hdigits : digits.all isdigit = true)
    (hsmall : digitsValue 0 digits < 2 ^ 64) :
    contentLengthValue (blanks ++ digits ++ blanks') = .ok (digitsValue 0 digits) := by
  have hskip : (blanks ++ digits ++ blanks').dropWhile isBlank = digits ++ blanks' := by
    obtain ⟨c, more, rfl⟩ := List.exists_cons_of_ne_nil hne
    obtain ⟨hc, -⟩ : isdigit c = true ∧ more.all isdigit = true := by simpa using hdigits
    have hnot : ¬ isBlank c = true :=
      forall_byte (p := fun c => isdigit c = true → ¬ isBlank c = true) (by decide +kernel) c hc
    rw [List.append_assoc, List.dropWhile_append_of_pos (List.all_eq_true.mp hblanks),
      List.cons_append, List.dropWhile_cons_of_neg hnot]
  rw [contentLengthValue, hskip, contentLengthDigits_digits hdigits hblanks' hsmall]
  simp [hne, bind, Except.bind]

section

variable {line : Bytes} (hline : IsLine line) (rest : Bytes)
include hline

theorem line_takeWhile : (line ++ (crlf ++ rest)).takeWhile (fun c => !isLineBreak c) = line := by
  have hbytes : ∀ c ∈ line, (!isLineBreak c) = true := fun c hc => by simp [not_lineBreak (hline.2 c hc)]
  have hbreak : (crlf ++ rest).takeWhile (fun c => !isLineBreak c) = [] := rfl
  rw [List.takeWhile_append_of_pos hbytes, hbreak, List.append_nil]

theorem line_dropWhile :
    ((line ++ (crlf ++ rest)).dropWhile fun c => !isLineBreak c).dropWhile isLineBreak =
      rest.dropWhile isLineBreak := by
  have hbytes : ∀ c ∈ line, (!isLineBreak c) = true := fun c hc => by simp [not_lineBreak (hline.2 c hc)]
  rw [List.dropWhile_append_of_pos hbytes]
  rfl

theorem parseContentLength_found {value : Bytes} (hfield : contentLengthField line = some value) :
    serverParseContentLength (line ++ (crlf ++ rest)) = contentLengthValue value := by
  rw [serverParseContentLength, line_takeWhile hline, dif_neg hline.1, hfield]

theorem parseContentLength_next (hfield : contentLengthField line = none) :
    serverParseContentLength (line ++ (crlf ++ rest)) =
      serverParseContentLength (rest.dropWhile isLineBreak) := by
  rw [serverParseContentLength, line_takeWhile hline, dif_neg hline.1, hfield, line_dropWhile hline]

end

theorem lines_dropWhile {lines : List Bytes} (hlines : ∀ line ∈ lines, IsLine line)
    (hne : lines ≠ []) (rest : Bytes) :
    (linesText lines ++ rest).dropWhile isLineBreak = linesText lines ++ rest := by
  obtain ⟨line, lines, rfl⟩ := List.exists_cons_of_ne_nil hne
  obtain ⟨⟨hline, hbytes⟩, -⟩ := List.forall_mem_cons.mp hlines
  obtain ⟨c, more, rfl⟩ := List.exists_cons_of_ne_nil hline
  rw [linesText_cons, List.cons_append, List.cons_append]
  exact List.dropWhile_cons_of_neg (by simp [not_lineBreak (hbytes c List.mem_cons_self)])

/-- The lines in front of the one that gives the length are passed over. -/
theorem parseContentLength_lines {before after : List Bytes} {line value : Bytes}
    (hlines : ∀ other ∈ before ++ line :: after, IsLine other)
    (hbefore : ∀ other ∈ before, contentLengthField other = none)
    (hline : contentLengthField line = some value) (rest : Bytes) :
    serverParseContentLength (linesText (before ++ line :: after) ++ rest) =
      contentLengthValue value := by
  induction before with
  | nil =>
    rw [List.nil_append, linesText_cons, List.append_assoc, List.append_assoc]
    exact parseContentLength_found (hlines line (by simp)) _ hline
  | cons other before ih =>
    rw [List.cons_append] at hlines
    obtain ⟨hother, hlines⟩ := List.forall_mem_cons.mp hlines
    obtain ⟨hnone, hbefore⟩ := List.forall_mem_cons.mp hbefore
    rw [List.cons_append, linesText_cons, List.append_assoc, List.append_assoc,
      parseContentLength_next hother _ hnone, lines_dropWhile hlines (by simp)]
    exact ih hlines hbefore

/-! ## The request line -/

theorem copyRequestToken_ok {destSize : Nat} {token : Bytes} (hne : 1 ≤ token.length)
    (hfits : token.length < destSize) (label : Bytes) :
    copyRequestToken destSize token label = .ok token := by
  rw [copyRequestToken, if_neg (by omega), if_neg (by omega)]

/-- A token ends at a blank or where the line does. -/
theorem takeWhile_token {token rest : Bytes} (htoken : ∀ c ∈ token, isBlank c = false)
    (hrest : rest = [] ∨ isBlank (peek rest) = true) :
    (token ++ rest).takeWhile (fun c => !isBlank c) = token := by
  rw [List.takeWhile_append_of_pos (by simpa using htoken)]
  rcases rest with _ | ⟨c, rest⟩
  · simp
  · have hc : isBlank c = true := hrest.resolve_left (by simp)
    simp [hc]

theorem not_blank_of_isalpha {c : UInt8} (h : isalpha c = true) : isBlank c = false :=
  forall_byte (p := fun c => isalpha c = true → isBlank c = false) (by decide +kernel) c h

theorem parseRequestLine_request (request : RequestText) :
    parseRequestLine request.requestLine = .ok (request.method, request.path) := by
  have hletters : ∀ c ∈ request.method, isBlank c = false :=
    fun c hc => not_blank_of_isalpha (request.method_letters c hc)
  have hmethod : request.requestLine.takeWhile (fun c => !isBlank c) = request.method :=
    takeWhile_token hletters (.inr rfl)
  have hstart : (request.requestLine.dropWhile fun c => !isBlank c).dropWhile isBlank =
      request.path ++ request.version := by
    obtain ⟨c, more, hpath⟩ := List.exists_cons_of_length_pos request.path_length.1
    have hc : ¬ isBlank c = true := by
      simp [(request.path_bytes c (hpath ▸ List.mem_cons_self)).2]
    have hskip : ∀ c ∈ request.method, (!isBlank c) = true := fun c hc => by simp [hletters c hc]
    rw [RequestText.requestLine, List.dropWhile_append_of_pos hskip, hpath]
    exact List.dropWhile_cons_of_neg hc
  have hpath := takeWhile_token (fun c hc => (request.path_bytes c hc).2) request.version_blank
  obtain ⟨hmethod1, hmethod15⟩ := request.method_length
  obtain ⟨hpath1, hpath127⟩ := request.path_length
  simp only [parseRequestLine, hmethod, hstart, hpath,
    copyRequestToken_ok hmethod1 (Nat.lt_succ_of_le hmethod15),
    copyRequestToken_ok hpath1 (Nat.lt_succ_of_le hpath127)]
  rfl

/-! ## The pipeline -/

theorem RequestText.requestLine_isLine (request : RequestText) : IsLine request.requestLine := by
  refine ⟨by simp [RequestText.requestLine], fun c hc => ?_⟩
  simp only [RequestText.requestLine, List.mem_append, List.mem_cons] at hc
  rcases hc with hc | rfl | hc | hc
  · exact forall_byte (p := fun c => isalpha c = true → isLineByte c = true) (by decide +kernel) c
      (request.method_letters c hc)
  · decide
  · exact (request.path_bytes c hc).1
  · exact request.version_bytes c hc

/-- The blank behind the method keeps the request line from being taken for a header. -/
theorem RequestText.requestLine_field (request : RequestText) :
    contentLengthField request.requestLine = none := by
  by_contra hsome
  obtain ⟨value, hvalue⟩ := Option.ne_none_iff_exists'.mp hsome
  obtain ⟨name, hline, hname⟩ := contentLengthField_iff.mp hvalue
  rcases List.append_eq_append_iff.mp hline with ⟨more, rfl, hmore⟩ | ⟨more, hmethod, hmore⟩
  · rcases more with _ | ⟨c, more⟩
    · cases hmore
    · obtain rfl : 0x20 = c := (List.cons.inj hmore).1
      have hblank : tolower 0x20 ∈ ascii "content-length" :=
        hname ▸ List.mem_map_of_mem (by simp)
      exact absurd hblank (by decide)
  · rcases more with _ | ⟨c, more⟩
    · cases hmore
    · obtain rfl : colon = c := (List.cons.inj hmore).1
      exact absurd (request.method_letters colon (hmethod ▸ by simp)) (by decide)

theorem RequestText.lines (request : RequestText) :
    ∀ line ∈ request.requestLine :: request.headers, IsLine line :=
  List.forall_mem_cons.mpr ⟨request.requestLine_isLine, request.header_lines⟩

theorem RequestText.contentLength (request : RequestText) (hsize : request.body.length < 2 ^ 64)
    (rest : Bytes) :
    serverParseContentLength (linesText (request.requestLine :: request.headers) ++ rest) =
      .ok request.body.length := by
  obtain ⟨before, line, after, hheaders, hgives, hothers⟩ := request.content_length
  obtain ⟨blanks, digits, blanks', hnames, hblanks, hblanks', hne, hdigits, hvalue⟩ := hgives
  have hlines := request.lines
  rw [hheaders, ← List.cons_append] at hlines
  have hbefore : ∀ other ∈ request.requestLine :: before, contentLengthField other = none := by
    refine List.forall_mem_cons.mpr ⟨request.requestLine_field, fun other hother => ?_⟩
    rw [Option.eq_none_iff_forall_ne_some]
    intro value hfield
    exact hothers other (List.mem_append_left _ hother) value (contentLengthField_iff.mp hfield)
  rw [hheaders, ← List.cons_append,
    parseContentLength_lines hlines hbefore (contentLengthField_iff.mpr hnames),
    contentLengthValue_digits hblanks hblanks' hne hdigits (hvalue ▸ hsize), hvalue]

/-- The headers of a request end in front of its body. -/
theorem RequestText.readHeaders_bytes (request : RequestText)
    (hsize : request.body.length < 2 ^ 64) :
    ∃ head, request.bytes = head ++ request.body ∧
      readHeaders request.bytes = some (.ok ⟨head.length, request.body.length⟩) := by
  obtain ⟨n, hfind, hn⟩ := terminator_lines request.lines (by simp) request.body
  refine ⟨linesText (request.requestLine :: request.headers) ++ crlf, rfl, ?_⟩
  refine readHeaders_ok_iff.mpr ⟨(n, 4), hfind, ?_, ?_⟩
  · rw [List.length_append, ← hn]
    rfl
  · rw [RequestText.bytes, List.take_left' rfl]
    exact request.contentLength hsize crlf

theorem RequestText.bytes_nulFree (request : RequestText) : 0 ∉ request.bytes := by
  have hlines : 0 ∉ linesText (request.requestLine :: request.headers) := by
    intro hmem
    obtain ⟨line, hline, hmem⟩ := List.mem_flatMap.mp hmem
    rcases List.mem_append.mp hmem with hmem | hmem
    · exact (lineByte_ne ((request.lines line hline).2 0 hmem)).2.2 rfl
    · exact absurd hmem (by decide)
  have hcrlf : 0 ∉ crlf := by decide
  simp [RequestText.bytes, hlines, hcrlf, request.body_bytes]

theorem RequestText.requestBody_bytes (request : RequestText)
    (hsize : request.body.length < 2 ^ 64) :
    requestBody request.bytes = copyBody request.body := by
  obtain ⟨head, hbytes, hread⟩ := request.readHeaders_bytes hsize
  obtain ⟨found, hfound, hlength, -⟩ := readHeaders_ok_iff.mp hread
  have hstart : findBodyStart request.bytes = some head.length := by
    rw [findBodyStart_eq, hfound, Option.map_some, hlength]
  have hdrop : request.bytes.drop head.length = request.body := by rw [hbytes, List.drop_left' rfl]
  simp only [requestBody, hstart, hdrop]

theorem RequestText.parse (request : RequestText) (hsize : request.body.length < 2 ^ 64) :
    httpParseRequest (cString request.bytes) =
      .ok ⟨request.method, request.path, copyBody request.body⟩ := by
  have hsplit : request.bytes =
      request.requestLine ++ crlf ++ (linesText request.headers ++ crlf ++ request.body) := by
    simp [RequestText.bytes, linesText_cons]
  have hend : findRequestLineEnd request.bytes = some request.requestLine.length :=
    hsplit ▸ lineEnd_line request.requestLine_isLine.2 _
  have htake : request.bytes.take request.requestLine.length = request.requestLine := by
    rw [hsplit, List.append_assoc, List.take_left' rfl]
  rw [cString_eq_self request.bytes_nulFree, httpParseRequest, parseFirstLine_of_end hend, htake,
    parseRequestLine_request, request.requestBody_bytes hsize]
  rfl

theorem RequestText.body_le (request : RequestText) : request.body.length ≤ request.bytes.length := by
  rw [RequestText.bytes, List.length_append]
  exact Nat.le_add_left _ _

/-- The reader may stop at the end of the request only. -/
theorem RequestText.verdict_bytes (request : RequestText)
    (hsize : request.bytes.length ≤ serverRequestMaxCapacity) :
    ∃ headers, verdict request.bytes = .accepted headers ∧ headers.stop = request.bytes.length := by
  have hbody : request.body.length < 2 ^ 64 :=
    (request.body_le.trans hsize).trans_lt (by decide)
  obtain ⟨head, hbytes, hread⟩ := request.readHeaders_bytes hbody
  have hlength : request.bytes.length = head.length + request.body.length := by
    rw [hbytes, List.length_append]
  have htotal : (Headers.mk head.length request.body.length).total = request.bytes.length := by
    rw [Headers.total, ← hlength, Nat.mod_eq_of_lt (hsize.trans_lt (by decide))]
  refine ⟨⟨head.length, request.body.length⟩, ?_, ?_⟩
  · rw [verdict, List.take_of_length_le hsize, hread]
    simp [htotal, Nat.not_lt.mpr hsize]
  · rw [Headers.stop, htotal]
    exact max_eq_right (hlength ▸ Nat.le_add_right _ _)

/-- **Receiving a request.** A request of at most 65536 bytes is read and parsed as it was
written, however the calls of `recv` split it, and whatever they do behind it. -/
theorem receive_pipeline (request : RequestText)
    (hsize : request.bytes.length ≤ serverRequestMaxCapacity) {events : List RecvEvent}
    (h : Sends request.bytes events) (later : List RecvEvent) :
    serverSocketReadRequest (events ++ later) = .ok request.bytes ∧
    httpParseRequest (cString request.bytes) = .ok ⟨request.method, request.path,
      if request.body = [] then none else some request.body⟩ := by
  obtain ⟨headers, hverdict, hstop⟩ := request.verdict_bytes hsize
  have hallows := serverSocketReadRequest_verdict h
  rw [hverdict] at hallows
  obtain ⟨n, hstops, hresult⟩ := hallows
  have hn : n = request.bytes.length := Nat.le_antisymm hstops.within (hstop ▸ hstops.reached)
  rw [hn, List.take_length] at hresult
  refine ⟨serverSocketReadRequest_append h hresult later, request.parse ?_⟩
  exact (request.body_le.trans hsize).trans_lt (by decide)

/-- `POST / HTTP/1.1` with a body of three bytes. -/
def postText : RequestText where
  method := ascii "POST"
  path := ascii "/"
  version := ascii " HTTP/1.1"
  headers := [ascii "Host: db", ascii "content-LENGTH: 3"]
  body := ascii "abc"
  method_length := by decide
  method_letters := by decide +kernel
  path_length := by decide
  path_bytes := by decide +kernel
  version_blank := by decide
  version_bytes := by decide +kernel
  header_lines := by
    simp only [IsLine]
    decide +kernel
  content_length := by
    refine ⟨[ascii "Host: db"], ascii "content-LENGTH: 3", [], rfl,
      ⟨ascii " ", ascii "3", [], ⟨ascii "content-LENGTH", rfl, by decide⟩, by decide, by decide,
        by decide, by decide, by decide⟩, ?_⟩
    intro other hother value hnames
    rw [← contentLengthField_iff] at hnames
    obtain rfl : other = ascii "Host: db" := by simpa using hother
    cases hnames
  body_bytes := by decide

/-- The request in three packets, cut inside its terminator, and a call that is interrupted. -/
theorem receive_pipeline_post :
    ∃ events, Sends postText.bytes events ∧ events.length = 4 ∧
      serverSocketReadRequest events = .ok postText.bytes ∧
      httpParseRequest (cString postText.bytes) =
        .ok ⟨ascii "POST", ascii "/", some (ascii "abc")⟩ := by
  have hsends : Sends postText.bytes
      [.packet 0x50 (ascii "OST / HTTP/1.1\r\nHost: db\r\ncontent-LENGTH: 3\r\n\r"), .interrupted,
        .packet 0x0a (ascii "a"), .packet 0x62 (ascii "c")] := ⟨by decide, by decide⟩
  exact ⟨_, hsends, rfl, receive_pipeline postText (by decide) hsends []⟩

end MiniSql.Server
