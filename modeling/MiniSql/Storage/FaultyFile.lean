import MiniSql.Storage.Codec

/-!
# Appending a row when calls fail

`append_csv_row` with every failure its calls can report. A byte whose `fputc` fails
is not taken; of the bytes taken, all reach the file if they are all flushed and
any number of the first ones if not. The row is written exactly if no call fails,
and nothing at all exactly if the first `fputc` fails or the flush loses everything.

A flush inside a failing `fputc` may lose bytes too, behind which `fclose` returns 0. If
the result of the call is checked, the function returns its error and ignores `fclose`, so
that `fclose := some n` stands for this as well. At a comma or the newline the result is
not checked: the function returns 1 with an incomplete line, as it does here for
`fclose := none`, where the byte of the call is missing but no byte before it.
-/

namespace MiniSql.Storage

/-- A stream open for appending: the calls of `fputc` so far and the bytes taken. -/
structure Stream where
  calls : Nat
  bytes : Bytes

/-- `fputc`; `ok n` says whether the n-th call succeeds. -/
def fputc (ok : Nat → Bool) (c : UInt8) (stream : Stream) : Stream × Bool :=
  if ok stream.calls then (⟨stream.calls + 1, stream.bytes ++ [c]⟩, true)
  else (⟨stream.calls + 1, stream.bytes⟩, false)

/-- Code that writes to a stream and may return 0. -/
abbrev Writer := Stream → Stream × Except SqlError Unit

def skip : Writer := fun stream => (stream, .ok ())

def Writer.andThen (first second : Writer) : Writer := fun stream =>
  match first stream with
  | (stream, .error e) => (stream, .error e)
  | (stream, .ok _) => second stream

/-- A call of `fputc` whose result is checked. -/
def put (ok : Nat → Bool) (error : SqlError) (c : UInt8) : Writer := fun stream =>
  match fputc ok c stream with
  | (stream, false) => (stream, .error error)
  | (stream, true) => (stream, .ok ())

/-- A call of `fputc` whose result is ignored. -/
def putUnchecked (ok : Nat → Bool) (c : UInt8) : Writer := fun stream =>
  ((fputc ok c stream).1, .ok ())

def quoteFailed : SqlError := sqlSetError [ascii "failed to write CSV quote"]

def escapeFailed : SqlError := sqlSetError [ascii "failed to escape CSV quote"]

def fieldFailed : SqlError := sqlSetError [ascii "failed to write CSV field"]

def flushFailed (path : Bytes) : SqlError := sqlSetError [ascii "failed to flush table file: ", path]

/-- The loop of `write_csv_field`. -/
def writeValue (ok : Nat → Bool) : Bytes → Writer
  | [] => skip
  | c :: value =>
    if c = doubleQuote then
      Writer.andThen (Writer.andThen (put ok escapeFailed doubleQuote) (put ok escapeFailed doubleQuote))
        (writeValue ok value)
    else Writer.andThen (put ok fieldFailed c) (writeValue ok value)

/-- `write_csv_field`. -/
def writeCsvFieldFaulty (ok : Nat → Bool) (value : Bytes) : Writer :=
  Writer.andThen (put ok quoteFailed doubleQuote)
    (Writer.andThen (writeValue ok value) (put ok quoteFailed doubleQuote))

/-- The loop of `append_csv_row` behind its first field. -/
def writeFields (ok : Nat → Bool) : Row → Writer
  | [] => skip
  | field :: fields =>
    Writer.andThen (putUnchecked ok comma) (Writer.andThen (writeCsvFieldFaulty ok field) (writeFields ok fields))

/-- The loop of `append_csv_row`. -/
def writeRow (ok : Nat → Bool) : Row → Writer
  | [] => skip
  | field :: fields => Writer.andThen (writeCsvFieldFaulty ok field) (writeFields ok fields)

/-- How the calls of one `append_csv_row` come out. -/
structure FileFaults where
  fopen : Bool
  fputc : Nat → Bool
  /-- `none` if every byte taken is in the file behind the `fclose`, else how many are:
  `fclose` fails, or a flush inside a failing `fputc` has lost the rest. -/
  fclose : Option Nat

/-- The bytes that are in the file behind the `fclose`. -/
def FileFaults.flushed (faults : FileFaults) (bytes : Bytes) : Bytes :=
  match faults.fclose with
  | none => bytes
  | some n => bytes.take n

/-- `append_csv_row` on the contents of the file: the new contents, unless the file
was not opened. -/
def appendCsvRowFaulty (faults : FileFaults) (path file : Bytes) (fields : Row) :
    Option Bytes × Except SqlError Unit :=
  if fields.isEmpty then
    (none, .error (sqlSetError [ascii "append_csv_row received invalid arguments"]))
  else if faults.fopen then
    match writeRow faults.fputc fields ⟨0, []⟩ with
    | (stream, .error e) => (some (file ++ faults.flushed stream.bytes), .error e)
    | (stream, .ok _) =>
      let stream := (fputc faults.fputc newline stream).1
      match faults.fclose with
      | some _ => (some (file ++ faults.flushed stream.bytes), .error (flushFailed path))
      | none => (some (file ++ faults.flushed stream.bytes), .ok ())
  else (none, .error (sqlSetError [ascii "failed to open table file: ", path]))

/-! ## What a writer writes -/

/-- The writer makes one call for each byte of the text. It takes exactly these bytes
if all the calls succeed, never loses what was there, and returns 1 with all the bytes
only if all the calls succeeded. -/
structure Writes (ok : Nat → Bool) (writer : Writer) (text : Bytes) : Prop where
  all : ∀ stream, (∀ i < text.length, ok (stream.calls + i) = true) →
    writer stream = (⟨stream.calls + text.length, stream.bytes ++ text⟩, .ok ())
  grows : ∀ stream, stream.bytes <+: (writer stream).1.bytes
  whole : ∀ {stream stream'}, writer stream = (stream', .ok ()) →
    stream'.calls = stream.calls + text.length ∧
      stream'.bytes.length ≤ stream.bytes.length + text.length ∧
      (stream.bytes.length + text.length ≤ stream'.bytes.length →
        ∀ i < text.length, ok (stream.calls + i) = true)

section

variable {ok : Nat → Bool}

theorem writes_skip : Writes ok skip [] := by
  constructor
  · intro stream _
    simp [skip]
  · intro stream
    exact List.prefix_rfl
  · intro stream stream' h
    cases h
    simp

/-- A writer that makes one call, whatever it returns when the call fails. -/
theorem writes_one {writer : Writer} {c : UInt8}
    (htaken : ∀ stream, ok stream.calls = true →
      writer stream = (⟨stream.calls + 1, stream.bytes ++ [c]⟩, .ok ()))
    (hlost : ∀ stream, ok stream.calls = false → (writer stream).1 = ⟨stream.calls + 1, stream.bytes⟩) :
    Writes ok writer [c] := by
  constructor
  · intro stream hok
    exact htaken stream (hok 0 (by simp))
  · intro stream
    cases hcall : ok stream.calls with
    | true =>
      rw [htaken stream hcall]
      exact List.prefix_append _ _
    | false =>
      rw [hlost stream hcall]
  · intro stream stream' h
    cases hcall : ok stream.calls with
    | true =>
      rw [htaken stream hcall] at h
      cases h
      simp [hcall]
    | false =>
      have hstream := hlost stream hcall
      rw [h] at hstream
      subst hstream
      simp

theorem writes_put (error : SqlError) (c : UInt8) : Writes ok (put ok error c) [c] := by
  apply writes_one
  · intro stream hcall
    simp [put, fputc, hcall]
  · intro stream hcall
    simp [put, fputc, hcall]

theorem writes_putUnchecked (c : UInt8) : Writes ok (putUnchecked ok c) [c] := by
  apply writes_one
  · intro stream hcall
    simp [putUnchecked, fputc, hcall]
  · intro stream hcall
    simp [putUnchecked, fputc, hcall]

theorem Writes.andThen {first second : Writer} {text text' : Bytes} (h : Writes ok first text)
    (h' : Writes ok second text') : Writes ok (Writer.andThen first second) (text ++ text') := by
  constructor
  · intro stream hok
    rw [List.length_append] at hok
    have hfirst := h.all stream fun i hi => hok i (by omega)
    have hsecond := h'.all ⟨stream.calls + text.length, stream.bytes ++ text⟩ fun i hi => by
      have := hok (text.length + i) (by omega)
      rwa [← Nat.add_assoc] at this
    simp only [Writer.andThen, hfirst, hsecond, List.length_append, List.append_assoc,
      Nat.add_assoc]
  · intro stream
    have hfirst := h.grows stream
    rcases hrun : first stream with ⟨between, e | _⟩
    · simpa [Writer.andThen, hrun] using hfirst
    · rw [hrun] at hfirst
      simpa [Writer.andThen, hrun] using hfirst.trans (h'.grows between)
  · intro stream stream' hrun
    rcases hfirst : first stream with ⟨between, e | _⟩
    · simp [Writer.andThen, hfirst] at hrun
    · simp only [Writer.andThen, hfirst] at hrun
      obtain ⟨hcalls, hmost, hall⟩ := h.whole hfirst
      obtain ⟨hcalls', hmost', hall'⟩ := h'.whole hrun
      rw [List.length_append]
      refine ⟨by omega, by omega, fun hbytes i hi => ?_⟩
      by_cases hleft : i < text.length
      · exact hall (by omega) i hleft
      · have hright := hall' (by omega) (i - text.length) (by omega)
        rwa [hcalls, show stream.calls + text.length + (i - text.length) = stream.calls + i by
          omega] at hright

theorem writes_value (value : Bytes) : Writes ok (writeValue ok value) (escape value) := by
  induction value with
  | nil => exact writes_skip
  | cons c value ih =>
    rw [writeValue]
    split
    · rename_i hc
      subst hc
      exact ((writes_put escapeFailed doubleQuote).andThen
        (writes_put escapeFailed doubleQuote)).andThen ih
    · rename_i hc
      have hescape : escape (c :: value) = [c] ++ escape value := by simp [escape, hc]
      rw [hescape]
      exact (writes_put fieldFailed c).andThen ih

theorem writes_field (value : Bytes) :
    Writes ok (writeCsvFieldFaulty ok value) (writeCsvField value) :=
  (writes_put quoteFailed doubleQuote).andThen
    ((writes_value value).andThen (writes_put quoteFailed doubleQuote))

theorem writes_rest (fields : Row) :
    Writes ok (writeFields ok fields) (fields.flatMap fun field => comma :: writeCsvField field) := by
  induction fields with
  | nil => exact writes_skip
  | cons field fields ih =>
    exact (writes_putUnchecked comma).andThen ((writes_field field).andThen ih)

theorem csvContent_eq_flatMap (field : Bytes) (fields : Row) :
    csvContent (field :: fields) =
      writeCsvField field ++ fields.flatMap fun other => comma :: writeCsvField other := by
  induction fields generalizing field with
  | nil => rw [csvContent_singleton, List.flatMap_nil, List.append_nil]
  | cons other fields ih => rw [csvContent_cons, ih, List.flatMap_cons, List.cons_append]

theorem writes_row (field : Bytes) (fields : Row) :
    Writes ok (writeRow ok (field :: fields)) (csvContent (field :: fields)) := by
  rw [csvContent_eq_flatMap]
  exact (writes_field field).andThen (writes_rest fields)

/-- Nothing is taken exactly if the very first call fails. -/
theorem writeRow_bytes (field : Bytes) (fields : Row) :
    (writeRow ok (field :: fields) ⟨0, []⟩).1.bytes = [] ↔ ok 0 = false := by
  cases hfirst : ok 0 with
  | false => simp [writeRow, writeCsvFieldFaulty, Writer.andThen, put, fputc, hfirst]
  | true =>
    have hwrites : Writes ok (Writer.andThen (Writer.andThen (writeValue ok field)
        (put ok quoteFailed doubleQuote)) (writeFields ok fields)) _ :=
      ((writes_value field).andThen (writes_put quoteFailed doubleQuote)).andThen
        (writes_rest fields)
    have hbehind := hwrites.grows ⟨1, [doubleQuote]⟩
    have hrun : writeRow ok (field :: fields) ⟨0, []⟩ =
        Writer.andThen (Writer.andThen (writeValue ok field) (put ok quoteFailed doubleQuote))
          (writeFields ok fields) ⟨1, [doubleQuote]⟩ := by
      simp [writeRow, writeCsvFieldFaulty, Writer.andThen, put, fputc, hfirst]
    rw [hrun]
    apply iff_of_false
    · intro hnil
      rw [hnil] at hbehind
      simp at hbehind
    · simp

end

/-! ## `append_csv_row` -/

theorem flushed_eq_nil {faults : FileFaults} {bytes : Bytes} :
    faults.flushed bytes = [] ↔ bytes = [] ∨ faults.fclose = some 0 := by
  cases hclose : faults.fclose with
  | none => simp [FileFaults.flushed, hclose]
  | some n =>
    simp only [FileFaults.flushed, hclose, List.take_eq_nil_iff, Option.some.injEq]
    exact or_comm

section

variable {faults : FileFaults} {fields : Row} (hne : fields ≠ [])
  (hopen : faults.fopen = true) (path file : Bytes)
include hne hopen

theorem appendCsvRowFaulty_ok
    (hputs : ∀ i < (csvLine fields).length, faults.fputc i = true) (hclose : faults.fclose = none) :
    appendCsvRowFaulty faults path file fields =
      (some (file ++ csvLine fields), .ok ()) := by
  cases fields with
  | nil => exact absurd rfl hne
  | cons field rest =>
    rw [csvLine_eq, List.length_append, List.length_singleton] at hputs
    have hrow := (writes_row field rest).all ⟨0, []⟩ fun i hi => by
      simpa using hputs i (by omega)
    have hlast : faults.fputc (csvContent (field :: rest)).length = true := hputs _ (by omega)
    simp [appendCsvRowFaulty, hopen, hclose, hrow, fputc, hlast, FileFaults.flushed, csvLine_eq]

/-- What is behind an `append_csv_row` whose `fopen` succeeded: the file with some
bytes more. There are none exactly if the first `fputc` fails or `fclose` loses them
all; a return of 1 behind the whole line means that no call failed. -/
theorem appendCsvRowFaulty_spec :
    ∃ bytes result, appendCsvRowFaulty faults path file fields =
        (some (file ++ bytes), result) ∧
      (bytes = [] ↔ faults.fputc 0 = false ∨ faults.fclose = some 0) ∧
      (result = .ok () → bytes ≠ [] ∧ faults.fclose = none ∧
        (bytes = csvLine fields → ∀ i < (csvLine fields).length, faults.fputc i = true)) := by
  cases fields with
  | nil => exact absurd rfl hne
  | cons field rest =>
    have hnil : (writeRow faults.fputc (field :: rest) ⟨0, []⟩).1.bytes = [] ↔
        faults.fputc 0 = false := writeRow_bytes field rest
    rcases hrow : writeRow faults.fputc (field :: rest) ⟨0, []⟩ with ⟨stream, e | _⟩
    · refine ⟨faults.flushed stream.bytes, .error e, ?_, ?_, by simp⟩
      · simp [appendCsvRowFaulty, hopen, hrow]
      · rw [hrow] at hnil
        rw [flushed_eq_nil, hnil]
    · -- The row went through, so its first byte did.
      have hfirst : faults.fputc 0 = true := by
        cases hcall : faults.fputc 0 with
        | true => rfl
        | false => simp [writeRow, writeCsvFieldFaulty, Writer.andThen, put, fputc, hcall] at hrow
      have hline : Writes faults.fputc (Writer.andThen (writeRow faults.fputc (field :: rest))
          (putUnchecked faults.fputc newline)) (csvLine (field :: rest)) :=
        (writes_row field rest).andThen (writes_putUnchecked newline)
      have hrun : Writer.andThen (writeRow faults.fputc (field :: rest)) (putUnchecked faults.fputc newline)
          ⟨0, []⟩ = ((fputc faults.fputc newline stream).1, .ok ()) := by
        simp [Writer.andThen, hrow, putUnchecked]
      have hbytes : (fputc faults.fputc newline stream).1.bytes ≠ [] := by
        intro hempty
        have hnewline : Writes faults.fputc (putUnchecked faults.fputc newline) [newline] :=
          writes_putUnchecked newline
        have hgrows := hnewline.grows stream
        rw [putUnchecked, hempty, List.prefix_nil] at hgrows
        rw [hrow] at hnil
        rw [hnil.mp hgrows] at hfirst
        cases hfirst
      have hflushed : faults.flushed (fputc faults.fputc newline stream).1.bytes = [] ↔
          faults.fputc 0 = false ∨ faults.fclose = some 0 := by
        simp [flushed_eq_nil, hbytes, hfirst]
      cases hclose : faults.fclose with
      | some n =>
        rw [hclose] at hflushed
        refine ⟨_, .error (flushFailed path), ?_, hflushed, ?_⟩
        · simp only [appendCsvRowFaulty, hopen, hrow, hclose]
          rfl
        · simp
      | none =>
        rw [hclose] at hflushed
        refine ⟨_, .ok (), ?_, hflushed, fun _ => ⟨?_, rfl, fun heq i hi => ?_⟩⟩
        · simp only [appendCsvRowFaulty, hopen, hrow, hclose]
          rfl
        · simp [flushed_eq_nil, hbytes, hclose]
        · have hall := (hline.whole hrun).2.2
          simp only [FileFaults.flushed, hclose] at heq
          rw [heq] at hall
          simpa using hall (by simp) i hi

end

end MiniSql.Storage
