import MiniSql.Server.SocketServer

/-!
# Where a request ends its lines

The reader looks for the terminator in every buffer anew, and the parser looks for it
once more. All of them find the same one: the first one of the whole stream, as soon
as the buffer holds it. The end of the request line and the headers are found like it.
-/

namespace MiniSql.Server

/-! ## Terminators -/

theorem terminators_apart : Scan.Apart [ascii "\n\n", crlf ++ crlf] where
  begins := by decide
  holds := by decide

theorem terminator_append {text : Bytes} {found : Nat × Nat}
    (h : serverFindRequestTerminator text = some found) (more : Bytes) :
    serverFindRequestTerminator (text ++ more) = some found :=
  terminators_apart.find_append h more

theorem terminator_of_append {text more : Bytes} {found : Nat × Nat}
    (h : serverFindRequestTerminator (text ++ more) = some found)
    (hinside : found.1 + found.2 ≤ text.length) : serverFindRequestTerminator text = some found :=
  terminators_apart.find_of_append h hinside

theorem terminator_le {text : Bytes} {found : Nat × Nat}
    (h : serverFindRequestTerminator text = some found) : found.1 + found.2 ≤ text.length :=
  Scan.find_le h

/-- The parser finds the body behind the terminator. -/
theorem findBodyStart_eq (text : Bytes) :
    findBodyStart text = (serverFindRequestTerminator text).map fun found => found.1 + found.2 := by
  rw [serverFindRequestTerminator, Scan.find_or, findBodyStart, strstr, strstr]
  rcases hcrlf : Scan.find [crlf ++ crlf] text with _ | ⟨i, n⟩ <;>
    rcases hlf : Scan.find [ascii "\n\n"] text with _ | ⟨j, m⟩
  · rfl
  · obtain rfl : m = 2 := Scan.find_single hlf
    rfl
  · obtain rfl : n = 4 := Scan.find_single hcrlf
    rfl
  · obtain rfl : m = 2 := Scan.find_single hlf
    obtain rfl : n = 4 := Scan.find_single hcrlf
    by_cases hij : i < j <;> simp [Scan.earlier, hij]

/-! ## Line ends -/

theorem lineEnds_apart : Scan.Apart [[newline], crlf] where
  begins := by decide
  holds := by decide

theorem findRequestLineEnd_eq (text : Bytes) :
    findRequestLineEnd text = (Scan.find [[newline], crlf] text).map Prod.fst := by
  rw [Scan.find_or, findRequestLineEnd, strchr, strstr, strstr]
  rcases Scan.find [crlf] text with _ | ⟨i, n⟩ <;> rcases Scan.find [[newline]] text with _ | ⟨j, m⟩
  · rfl
  · rfl
  · rfl
  · by_cases hij : i < j <;> simp [Scan.earlier, hij]

theorem findRequestLineEnd_append {text : Bytes} {n : Nat} (h : findRequestLineEnd text = some n)
    (more : Bytes) : findRequestLineEnd (text ++ more) = some n := by
  rw [findRequestLineEnd_eq] at h ⊢
  obtain ⟨found, hfind, rfl⟩ := Option.map_eq_some_iff.mp h
  rw [lineEnds_apart.find_append hfind more, Option.map_some]

/-- A text with a terminator has a line end. -/
theorem findRequestLineEnd_of_terminator {text : Bytes} {found : Nat × Nat}
    (h : serverFindRequestTerminator text = some found) : ∃ n, findRequestLineEnd text = some n := by
  rw [findRequestLineEnd_eq]
  rcases hfind : Scan.find [[newline], crlf] text with _ | ⟨n, m⟩
  · have hnone := Scan.here_of_find_eq_none hfind found.1
    obtain ⟨needle, hneedle, -, hbegins⟩ := Scan.here_begins (Scan.find_spec h).2
    obtain ⟨rest, hrest⟩ := hbegins
    rw [← hrest] at hnone
    simp only [List.mem_cons, List.not_mem_nil, or_false] at hneedle
    rcases hneedle with rfl | rfl <;> cases hnone
  · exact ⟨n, rfl⟩

theorem parseFirstLine_of_end {rawRequest : Bytes} {lineEnd : Nat}
    (h : findRequestLineEnd rawRequest = some lineEnd) :
    parseFirstLine rawRequest = parseRequestLine (rawRequest.take lineEnd) := by
  have hne : rawRequest ≠ [] := by
    rintro rfl
    cases h
  simp only [parseFirstLine, hne, if_false, h]

/-- The request line of a text is that of every longer one. -/
theorem parseFirstLine_append {text : Bytes} {lineEnd : Nat}
    (h : findRequestLineEnd text = some lineEnd) (more : Bytes) :
    parseFirstLine (text ++ more) = parseFirstLine text := by
  have hle : lineEnd ≤ text.length := by
    rw [findRequestLineEnd_eq] at h
    obtain ⟨found, hfind, rfl⟩ := Option.map_eq_some_iff.mp h
    exact (Nat.le_add_right _ _).trans (Scan.find_le hfind)
  rw [parseFirstLine_of_end (findRequestLineEnd_append h more), parseFirstLine_of_end h,
    List.take_append_of_le_length hle]

/-! ## Headers -/

theorem readHeaders_append {text : Bytes} {headers : Except SqlError Headers}
    (h : readHeaders text = some headers) (more : Bytes) :
    readHeaders (text ++ more) = some headers := by
  obtain ⟨found, hfound, rfl⟩ := Option.map_eq_some_iff.mp h
  rw [readHeaders, terminator_append hfound more, Option.map_some,
    List.take_append_of_le_length (terminator_le hfound)]

theorem readHeaders_ok_iff {text : Bytes} {headers : Headers} :
    readHeaders text = some (.ok headers) ↔
      ∃ found, serverFindRequestTerminator text = some found ∧
        found.1 + found.2 = headers.headerLength ∧
        serverParseContentLength (text.take headers.headerLength) = .ok headers.contentLength := by
  rw [readHeaders, Option.map_eq_some_iff]
  refine exists_congr fun found => and_congr_right fun _ => ?_
  constructor
  · intro h
    rcases hparse : serverParseContentLength (text.take (found.1 + found.2)) with e | contentLength
    · rw [hparse] at h
      cases h
    · rw [hparse] at h
      cases h
      exact ⟨rfl, hparse⟩
  · rintro ⟨hlength, hparse⟩
    rw [hlength, hparse]
    rfl

theorem readHeaders_le {text : Bytes} {headers : Headers} (h : readHeaders text = some (.ok headers)) :
    headers.headerLength ≤ text.length := by
  obtain ⟨found, hfound, hlength, -⟩ := readHeaders_ok_iff.mp h
  exact hlength ▸ terminator_le hfound

/-- The headers of a stream are those of every part that holds them. -/
theorem readHeaders_of_append {text more : Bytes} {headers : Headers}
    (h : readHeaders (text ++ more) = some (.ok headers))
    (hinside : headers.headerLength ≤ text.length) : readHeaders text = some (.ok headers) := by
  obtain ⟨found, hfound, hlength, hparse⟩ := readHeaders_ok_iff.mp h
  rw [List.take_append_of_le_length hinside] at hparse
  exact readHeaders_ok_iff.mpr
    ⟨found, terminator_of_append hfound (hlength.trans_le hinside), hlength, hparse⟩

end MiniSql.Server
