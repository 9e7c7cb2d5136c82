import MiniSql.Server.ReadRuns

/-!
# The two lengths of a request

`server_socket_read_request` fixes where the headers end on the bytes it has so far, and
`http_parse_request` looks for their end once more on the whole buffer: for a text
without a NUL both find the same place. The length of the body is what the headers
declare, in arithmetic of 64 bits.
-/

namespace MiniSql.Server

/-! ## The scan for the terminator -/

/-- The tests of `server_find_request_terminator` at an index. -/
def terminatorAt (buffer : Bytes) (index : Nat) : Option Nat :=
  if buffer[index]? = some newline ∧ buffer[index + 1]? = some newline then some 2
  else if index + 3 < buffer.length ∧ buffer[index]? = some carriageReturn ∧
      buffer[index + 1]? = some newline ∧ buffer[index + 2]? = some carriageReturn ∧
      buffer[index + 3]? = some newline then some 4
  else none

/-- The loop of `server_find_request_terminator` from an index on. -/
def terminatorLoop (buffer : Bytes) (index : Nat) : Option (Nat × Nat) :=
  if index + 1 < buffer.length then
    match terminatorAt buffer index with
    | some n => some (index, n)
    | none => terminatorLoop buffer (index + 1)
  else none
termination_by buffer.length - index

theorem terminatorAt_eq (buffer : Bytes) (index : Nat) :
    terminatorAt buffer index = Scan.here [ascii "\n\n", crlf ++ crlf] (buffer.drop index) := by
  have hget : ∀ i, buffer[index + i]? = (buffer.drop index)[i]? := by simp
  have hlength : index + 3 < buffer.length ↔ 3 < (buffer.drop index).length := by
    rw [List.length_drop]
    omega
  have hzero := hget 0
  rw [Nat.add_zero] at hzero
  simp only [terminatorAt, hget, hzero, hlength]
  have hhere : ∀ text, Scan.here [ascii "\n\n", crlf ++ crlf] text =
      if (ascii "\n\n").isPrefixOf text then some 2
      else if (crlf ++ crlf).isPrefixOf text then some 4 else none := by
    intro text
    cases hlf : (ascii "\n\n").isPrefixOf text <;>
      cases hcrlf : (crlf ++ crlf).isPrefixOf text <;> simp [Scan.here, hlf, hcrlf] <;> decide
  have hlf : ascii "\n\n" = [newline, newline] := by decide
  have hcrlf : crlf ++ crlf = [carriageReturn, newline, carriageReturn, newline] := by decide
  have hflip : ∀ c x : UInt8, (c == x) = decide (x = c) := by
    intro c x
    rw [Bool.eq_iff_iff, beq_iff_eq, decide_eq_true_eq]
    exact eq_comm
  rw [hhere, hlf, hcrlf]
  rcases buffer.drop index with _ | ⟨a, _ | ⟨b, _ | ⟨c, _ | ⟨d, rest⟩⟩⟩⟩ <;>
    simp [List.isPrefixOf, hflip, -beq_iff_eq]

theorem terminatorLoop_eq (buffer : Bytes) (index : Nat) :
    terminatorLoop buffer index =
      (serverFindRequestTerminator (buffer.drop index)).map (Prod.map (· + index) id) := by
  fun_induction terminatorLoop buffer index with
  | case1 index hlt n hat =>
    rw [terminatorAt_eq] at hat
    rw [serverFindRequestTerminator, Scan.find_here hat]
    simp
  | case2 index hlt hat ih =>
    rw [terminatorAt_eq] at hat
    rw [ih, serverFindRequestTerminator, serverFindRequestTerminator]
    have hcut : buffer.drop index = buffer[index] :: buffer.drop (index + 1) :=
      List.drop_eq_getElem_cons (by omega)
    rw [hcut] at hat ⊢
    rw [Scan.find_cons hat, Option.map_map]
    congr 1
    funext found
    simp [Prod.map]
    omega
  | case3 index hge =>
    -- No terminator fits into a single byte.
    rcases hfind : serverFindRequestTerminator (buffer.drop index) with _ | found
    · rfl
    · have hle := terminator_le hfind
      obtain ⟨needle, hneedle, hlength, -⟩ := Scan.here_begins (Scan.find_spec hfind).2
      rw [List.length_drop] at hle
      simp only [List.mem_cons, List.not_mem_nil, or_false] at hneedle
      have htwo : 2 ≤ needle.length := by
        rcases hneedle with rfl | rfl <;> decide
      omega

/-- The search of the model is the loop of the source. -/
theorem serverFindRequestTerminator_eq_loop (buffer : Bytes) :
    serverFindRequestTerminator buffer = terminatorLoop buffer 0 := by
  rw [terminatorLoop_eq, List.drop_zero]
  rcases serverFindRequestTerminator buffer with _ | found
  · rfl
  · rfl

/-! ## The variables of the loop -/

/-- The variables behind some turns of the loop, and what is still to come. -/
inductive Reads (events : List RecvEvent) : Reader → List RecvEvent → Prop
  | start : Reads events ⟨[], serverRequestInitialCapacity, none⟩ events
  | bytes {reader grown next : Reader} {rest later : List RecvEvent} {chunk : Bytes}
      (before : Reads events reader rest) (incomplete : reader.complete = false)
      (grow : reader.grow = .ok grown)
      (received : recv (grown.capacity - grown.buffer.length) rest = (.bytes chunk, later))
      (receive : grown.receive chunk = .ok next) : Reads events next later
  | interrupted {reader grown : Reader} {rest later : List RecvEvent}
      (before : Reads events reader rest) (incomplete : reader.complete = false)
      (grow : reader.grow = .ok grown)
      (received : recv (grown.capacity - grown.buffer.length) rest = (.interrupted, later)) :
      Reads events grown later

/-- Growing leaves the bytes and the headers. -/
theorem Reader.grow_same {reader grown : Reader} (h : reader.grow = .ok grown) :
    grown.buffer = reader.buffer ∧ grown.headers = reader.headers := by
  unfold Reader.grow at h
  split at h
  · cases h
  · split at h
    · split at h
      · cases h
      · cases h
        exact ⟨rfl, rfl⟩
    · cases h
      exact ⟨rfl, rfl⟩

theorem recv_stream {room : Nat} {events rest : List RecvEvent} {chunk : Bytes}
    (h : recv room events = (.bytes chunk, rest)) : stream events = chunk ++ stream rest := by
  rcases events with _ | ⟨_ | _ | _ | _, events⟩
  case cons.packet first more =>
    cases room with
    | zero => cases h
    | succ room =>
      have hmore := List.take_append_drop room more
      rcases hdrop : more.drop room with _ | ⟨next, left⟩
      · simp only [recv, hdrop, Prod.mk.injEq, Received.bytes.injEq] at h
        obtain ⟨rfl, rfl⟩ := h
        rw [hdrop, List.append_nil] at hmore
        simp [stream, RecvEvent.bytes, hmore]
      · simp only [recv, hdrop, Prod.mk.injEq, Received.bytes.injEq] at h
        obtain ⟨rfl, rfl⟩ := h
        rw [hdrop] at hmore
        nth_rewrite 1 [← hmore]
        simp [stream, RecvEvent.bytes]
  all_goals cases h

theorem recv_le {room : Nat} {events rest : List RecvEvent} {chunk : Bytes}
    (h : recv room events = (.bytes chunk, rest)) : chunk.length ≤ room := by
  rcases events with _ | ⟨_ | _ | _ | _, events⟩
  case cons.packet first more =>
    cases room with
    | zero => cases h
    | succ room =>
      rcases hdrop : more.drop room with _ | ⟨next, left⟩ <;>
      · simp only [recv, hdrop, Prod.mk.injEq, Received.bytes.injEq] at h
        rw [← h.1]
        simp
  all_goals cases h

theorem recv_interrupted {room : Nat} {events rest : List RecvEvent}
    (h : recv room events = (.interrupted, rest)) : stream events = stream rest := by
  rcases events with _ | ⟨_ | _ | _ | _, events⟩
  case cons.packet first more =>
    cases room with
    | zero => cases h
    | succ room => rcases hdrop : more.drop room with _ | ⟨next, left⟩ <;> simp [recv, hdrop] at h
  case cons.interrupted =>
    cases h
    rfl
  all_goals cases h

/-- What holds of the variables behind every turn. -/
structure Consistent (events : List RecvEvent) (reader : Reader) (rest : List RecvEvent) : Prop where
  stream : stream events = reader.buffer ++ stream rest
  headers : reader.headers.map .ok = readHeaders reader.buffer
  fits : reader.buffer.length ≤ reader.capacity
  limit : reader.capacity ≤ serverRequestMaxCapacity

section

variable {events rest later : List RecvEvent} {reader grown next : Reader} {chunk : Bytes}

theorem Consistent.grow (h : Consistent events reader rest) (hgrow : reader.grow = .ok grown) :
    Consistent events grown rest := by
  obtain ⟨hbuffer, hheaders⟩ := Reader.grow_same hgrow
  refine ⟨hbuffer ▸ h.stream, hheaders ▸ hbuffer ▸ h.headers, ?_, ?_⟩
  all_goals
    have hfits := h.fits
    have hlimit := h.limit
    unfold Reader.grow at hgrow
    split at hgrow
    · cases hgrow
    · split at hgrow
      · split at hgrow
        · cases hgrow
        · cases hgrow
          dsimp only
          omega
      · cases hgrow
        omega

theorem Consistent.receive (h : Consistent events reader rest)
    (hrecv : recv (reader.capacity - reader.buffer.length) rest = (.bytes chunk, later))
    (hreceive : reader.receive chunk = .ok next) : Consistent events next later := by
  have hfits := h.fits
  have hchunk := recv_le hrecv
  rcases Reader.receive_cases h.headers chunk with ⟨e, -, herror⟩ | ⟨headers, hread, hok⟩
  · cases hreceive.symm.trans herror
  · cases hreceive.symm.trans hok
    refine ⟨?_, hread, ?_, h.limit⟩
    · rw [h.stream, recv_stream hrecv, List.append_assoc]
    · dsimp only
      rw [List.length_append]
      omega

/-- The turns of the loop keep the variables consistent. -/
theorem Reads.consistent (h : Reads events reader rest) : Consistent events reader rest := by
  induction h with
  | start => exact ⟨rfl, rfl, by decide, by decide⟩
  | bytes before incomplete grow received receive ih => exact (ih.grow grow).receive received receive
  | interrupted before incomplete grow received ih =>
    have hgrown := ih.grow grow
    exact { hgrown with stream := by rw [hgrown.stream, recv_interrupted received] }

/-- The result is a request only of a buffer that holds its headers and its body. -/
theorem Reader.finish_ok {buffer : Bytes} (h : reader.finish = .ok buffer) :
    reader.buffer = buffer ∧
      ∃ headers, reader.headers = some headers ∧ headers.total ≤ buffer.length := by
  by_cases hnil : reader.buffer.length = 0
  · simp [Reader.finish, hnil] at h
  · cases hheaders : reader.headers with
    | none => simp [Reader.finish, hnil, hheaders, headersIncomplete] at h
    | some headers =>
      by_cases hless : reader.buffer.length < headers.total
      · simp [Reader.finish, hnil, hheaders, hless, bodyIncomplete] at h
      · simp only [Reader.finish, hnil, hheaders, hless, if_false, ReadResult.ok.injEq] at h
        subst h
        exact ⟨rfl, headers, rfl, Nat.le_of_not_lt hless⟩

theorem Reader.grow_error {result : ReadResult} (h : reader.grow = .error result) :
    result = requestTooLarge := by
  unfold Reader.grow at h
  split at h
  · cases h
    rfl
  · split at h
    · split at h
      · cases h
        rfl
      · cases h
    · cases h

theorem Reader.receive_error {result : ReadResult} (h : reader.receive chunk = .error result) :
    ∃ e, result = .error e := by
  cases hheaders : reader.headers with
  | some headers => simp [Reader.receive, hheaders] at h
  | none =>
    rcases hread : readHeaders (reader.buffer ++ chunk) with _ | e | headers
    · simp [Reader.receive, hheaders, hread] at h
    · simp only [Reader.receive, hheaders, hread, Except.error.injEq] at h
      exact ⟨e, h.symm⟩
    · simp [Reader.receive, hheaders, hread] at h

theorem readLoop_ok {buffer : Bytes} (h : Reads events reader rest)
    (hincomplete : reader.complete = false) (hok : readLoop reader rest = .ok buffer) :
    ∃ reader rest headers, Reads events reader rest ∧ reader.buffer = buffer ∧
      reader.headers = some headers ∧ headers.total ≤ buffer.length := by
  -- A result behind the loop is that of the variables before they grew.
  have hsame : ∀ {grown : Reader} {reader : Reader} {rest}, Reads events reader rest →
      reader.grow = .ok grown → grown.finish = .ok buffer →
      ∃ reader rest headers, Reads events reader rest ∧ reader.buffer = buffer ∧
        reader.headers = some headers ∧ headers.total ≤ buffer.length := by
    intro grown reader rest hreads hgrow hfinish
    obtain ⟨hbuffer, headers, hheaders, htotal⟩ := Reader.finish_ok hfinish
    obtain ⟨hgrownBuffer, hgrownHeaders⟩ := Reader.grow_same hgrow
    exact ⟨reader, rest, headers, hreads, hgrownBuffer ▸ hbuffer, hgrownHeaders ▸ hheaders, htotal⟩
  fun_induction readLoop reader rest with
  | case1 reader rest result hgrow => cases (Reader.grow_error hgrow).symm.trans hok
  | case2 reader rest grown hgrow chunk later hrecv result hreceive =>
    obtain ⟨e, rfl⟩ := Reader.receive_error hreceive
    cases hok
  | case3 reader rest grown hgrow chunk later hrecv next hreceive hcomplete =>
    obtain ⟨hbuffer, headers, hheaders, htotal⟩ := Reader.finish_ok hok
    exact ⟨next, later, headers, .bytes h hincomplete hgrow hrecv hreceive, hbuffer, hheaders, htotal⟩
  | case4 reader rest grown hgrow chunk later hrecv next hreceive hcomplete ih =>
    exact ih (.bytes h hincomplete hgrow hrecv hreceive) (by simpa using hcomplete) hok
  | case5 reader rest grown hgrow later hrecv => exact hsame h hgrow hok
  | case6 reader rest grown hgrow later hrecv ih =>
    apply ih (.interrupted h hincomplete hgrow hrecv) _ hok
    obtain ⟨hbuffer, hheaders⟩ := Reader.grow_same hgrow
    rw [Reader.complete, hbuffer, hheaders]
    exact hincomplete
  | case7 reader rest grown hgrow later hrecv => exact hsame h hgrow hok
  | case8 reader rest grown hgrow later hrecv => cases hok

/-- A request that is returned was complete in the variables of the loop. -/
theorem reads_of_ok {buffer : Bytes} (hok : serverSocketReadRequest events = .ok buffer) :
    ∃ reader rest headers, Reads events reader rest ∧ reader.buffer = buffer ∧
      reader.headers = some headers ∧ headers.total ≤ buffer.length :=
  readLoop_ok .start rfl hok

end

/-! ## Where the body begins -/

/-- **Both scans find one place.** Of every text without a NUL, `find_body_start` finds
what the reader found on a part of it; and where the reader has fixed the length of the
headers on what a socket brought so far, in whatever pieces, that is the place at which
the parser begins the body of every longer text, and of the buffer it is handed. -/
theorem header_scans_agree {events : List RecvEvent} (hnul : 0 ∉ stream events) :
    (∀ text more found, serverFindRequestTerminator text = some found → 0 ∉ text ++ more →
      serverFindRequestTerminator (text ++ more) = some found ∧
        findBodyStart (cString (text ++ more)) = some (found.1 + found.2)) ∧
    (∀ reader rest headers, Reads events reader rest → reader.headers = some headers →
      ∀ more, 0 ∉ more →
        findBodyStart (cString (reader.buffer ++ more)) = some headers.headerLength) ∧
    ∀ buffer, serverSocketReadRequest events = .ok buffer →
      ∃ reader rest headers, Reads events reader rest ∧ reader.buffer = buffer ∧
        reader.headers = some headers ∧
        findBodyStart (cString buffer) = some headers.headerLength := by
  have hgrows : ∀ text more found, serverFindRequestTerminator text = some found →
      0 ∉ text ++ more → serverFindRequestTerminator (text ++ more) = some found ∧
        findBodyStart (cString (text ++ more)) = some (found.1 + found.2) := by
    intro text more found hfound hfree
    have hlonger := terminator_append hfound more
    refine ⟨hlonger, ?_⟩
    rw [cString_eq_self hfree, findBodyStart_eq, hlonger, Option.map_some]
  have hfixed : ∀ reader rest headers, Reads events reader rest → reader.headers = some headers →
      ∀ more, 0 ∉ more →
        findBodyStart (cString (reader.buffer ++ more)) = some headers.headerLength := by
    intro reader rest headers hreads hheaders more hmore
    have hconsistent := hreads.consistent
    have hread := hconsistent.headers
    rw [hheaders, Option.map_some] at hread
    obtain ⟨found, hfound, hlength, -⟩ := readHeaders_ok_iff.mp hread.symm
    have hfree : 0 ∉ reader.buffer ++ more := by
      rw [List.mem_append]
      rintro (hin | hin)
      · exact hnul (hconsistent.stream ▸ List.mem_append_left _ hin)
      · exact hmore hin
    rw [← hlength]
    exact (hgrows reader.buffer more found hfound hfree).2
  refine ⟨hgrows, hfixed, fun buffer hok => ?_⟩
  obtain ⟨reader, rest, headers, hreads, rfl, hheaders, -⟩ := reads_of_ok hok
  have hwhole := hfixed reader rest headers hreads hheaders [] (List.not_mem_nil)
  rw [List.append_nil] at hwhole
  exact ⟨reader, rest, headers, hreads, rfl, hheaders, hwhole⟩

/-- A request that comes in with a cut inside its terminator. -/
def cutTerminator : List RecvEvent :=
  [.packet 0x47 (ascii "ET / HTTP/1.1\r\n\r"), .packet newline (ascii "select")]

theorem header_scans_agree_cut :
    ∃ reader rest headers, Reads cutTerminator reader rest ∧ reader.headers = some headers ∧
      findBodyStart (cString (ascii "GET / HTTP/1.1\r\n\r\nselect")) =
        some headers.headerLength := by
  have hok : serverSocketReadRequest cutTerminator =
      .ok (ascii "GET / HTTP/1.1\r\n\r\nselect") := by
    decide +kernel
  have hnul : 0 ∉ stream cutTerminator := by decide +kernel
  obtain ⟨reader, rest, headers, hreads, -, hheaders, hstart⟩ :=
    (header_scans_agree hnul).2.2 _ hok
  exact ⟨reader, rest, headers, hreads, hheaders, hstart⟩

end MiniSql.Server
