import MiniSql.Lib.Alloc
import MiniSql.Storage.Csv

/-!
# The memory of the rows

`read_csv_rows` and `free_rowset` with the blocks they allocate and free, where any call
for memory may be refused. A row is an array of texts of its own, the row set an array of
rows. The one thing that is ever lost is a row that was parsed and finds no place in the
row set.
-/

namespace MiniSql.Storage

open Alloc

/-- `char **fields`, an array of texts. -/
abbrev FieldArray := Vec (Boxed Bytes)

abbrev RowSet := Vec FieldArray

def freeFields (fields : FieldArray) : Allocating Unit :=
  freeArray fields.array freeBox fields.cells.reverse

section

variable (grants : Nat → Bool)

/-- `append_field`: the array is the larger one also if there is no memory for the copy. -/
def appendField (fields : FieldArray) (value : Bytes) :
    Allocating (FieldArray × Except SqlError Unit) := do
  match ← fields.enlarge grants (fields.cells.length + 1) with
  | none => pure (fields, .error (sqlSetError [ascii "failed to allocate row fields"]))
  | some fields =>
    match ← box grants value with
    | none => pure (fields, .error (sqlSetError [ascii "failed to allocate row field"]))
    | some copy => do
      let fields ← fields.push copy
      pure (fields, .ok ())

/-- The buffer of `parse_csv_line`, with the bytes below `buffer_length`. -/
structure LineBuffer where
  block : Nat
  size : Nat
  text : Bytes

namespace LineBuffer

/-- `buffer[buffer_length]` is one of its bytes. -/
def reach (buffer : LineBuffer) : Allocating Unit :=
  if buffer.text.length < buffer.size then touch (some buffer.block) else fun _ => none

def put (buffer : LineBuffer) (ch : UInt8) : Allocating LineBuffer := do
  buffer.reach
  pure { buffer with text := buffer.text ++ [ch] }

end LineBuffer

/-- The failures inside the loop of `parse_csv_line`. -/
def dropLine (buffer : LineBuffer) (fields : FieldArray) (e : SqlError) :
    Allocating (Except SqlError FieldArray) := do
  free (some buffer.block)
  freeFields fields
  pure (.error e)

/-- The end of a field: terminate it, trim it and append a copy. -/
def endField (buffer : LineBuffer) (fields : FieldArray) :
    Allocating (Except SqlError FieldArray) := do
  buffer.reach
  match ← appendField grants fields (trimField buffer.text) with
  | (fields, .error e) => dropLine buffer fields e
  | (fields, .ok _) => pure (.ok fields)

/-- The loop of `parse_csv_line`. -/
def csvFieldsAlloc (inQuotes : Bool) (buffer : LineBuffer) (fields : FieldArray) :
    Bytes → Allocating (Except SqlError FieldArray)
  | [] => if inQuotes then dropLine buffer fields unterminatedField else endField grants buffer fields
  | ch :: line =>
    if inQuotes then
      if ch = doubleQuote then
        match line with
        | [] => csvFieldsAlloc false buffer fields []
        | next :: rest =>
          if next = doubleQuote then do
            let buffer ← buffer.put doubleQuote
            csvFieldsAlloc true buffer fields rest
          else csvFieldsAlloc false buffer fields (next :: rest)
      else do
        let buffer ← buffer.put ch
        csvFieldsAlloc true buffer fields line
    else if ch = doubleQuote then csvFieldsAlloc true buffer fields line
    else if ch = comma then do
      match ← endField grants buffer fields with
      | .error e => pure (.error e)
      | .ok fields => csvFieldsAlloc false { buffer with text := [] } fields line
    else do
      let buffer ← buffer.put ch
      csvFieldsAlloc false buffer fields line

def parseCsvLineAlloc (line : Bytes) (expectedFields : Nat) :
    Allocating (Except SqlError FieldArray) := do
  match ← malloc grants with
  | none => pure (.error (sqlSetError [ascii "failed to allocate CSV parse buffer"]))
  | some block =>
    match ← csvFieldsAlloc grants false ⟨block, line.length + 1, []⟩ .empty line with
    | .error e => pure (.error e)
    | .ok fields => do
      free (some block)
      if fields.cells.length ≠ expectedFields then do
        freeFields fields
        pure (.error (sqlSetError [ascii "row field count mismatch"]))
      else pure (.ok fields)

def rowsetFailed : SqlError := sqlSetError [ascii "failed to allocate rowset"]

/-- `rowset_append`. The capacity that a refused call leaves behind is not read again. -/
def rowsetAppend (rowset : RowSet) (fields : FieldArray) :
    Allocating (RowSet × Except SqlError Unit) := do
  match ← rowset.grow grants 8 with
  | none => pure (rowset, .error rowsetFailed)
  | some rowset => do
    let rowset ← rowset.push fields
    pure (rowset, .ok ())

def freeRow (fields : FieldArray) : Allocating Unit := freeArray fields.array freeBox fields.cells

def freeRowset (rowset : RowSet) : Allocating RowSet := do
  freeArray rowset.array freeRow rowset.cells
  pure .empty

/-- The loop of `read_csv_rows`. -/
def readLinesAlloc (expectedFields : Nat) (rowset : RowSet) :
    List Bytes → Allocating (RowSet × Except SqlError Unit)
  | [] => pure (rowset, .ok ())
  | buffer :: buffers => do
    if (stripLine buffer).isEmpty then readLinesAlloc expectedFields rowset buffers
    else
      match ← parseCsvLineAlloc grants (stripLine buffer) expectedFields with
      | .error e => do
        let rowset ← freeRowset rowset
        pure (rowset, .error e)
      | .ok fields =>
        match ← rowsetAppend grants rowset fields with
        | (rowset, .error e) => do
          let rowset ← freeRowset rowset
          pure (rowset, .error e)
        | (rowset, .ok _) => readLinesAlloc expectedFields rowset buffers

def readCsvRowsAlloc (file : Bytes) (expectedFields : Nat) :
    Allocating (RowSet × Except SqlError Unit) :=
  readLinesAlloc grants expectedFields .empty (fileLines file)

end

/-! ## One line -/

/-- The texts of a row. -/
def FieldArray.row (fields : FieldArray) : Row := fields.cells.map Boxed.content

/-- What a row owns. -/
def FieldArray.owns (fields : FieldArray) : Multiset Nat := fields.blocks Boxed.blocks

section

variable {grants : Nat → Bool} {kept : Multiset Nat} {fields : FieldArray}

theorem freeFields_runs (h : fields.Sound) :
    Runs (fields.owns + kept) (freeFields fields) fun _ left => left = kept :=
  Vec.free_runs h (List.reverse_perm _) fun cell _ _ => freeBox_runs cell

theorem freeRow_runs (h : fields.Sound) :
    Runs (fields.owns + kept) (freeRow fields) fun _ left => left = kept :=
  Vec.free_runs h (.refl _) fun cell _ _ => freeBox_runs cell

/-- One more text, or the same texts. -/
structure Appended (grants : Nat → Bool) (fields : FieldArray) (value : Bytes) (kept : Multiset Nat)
    (result : FieldArray × Except SqlError Unit) (owned : Multiset Nat) : Prop where
  owns : owned = result.1.owns + kept
  sound : result.1.Sound
  ok : result.2 = .ok () → result.1.row = fields.row ++ [value]
  error : ∀ e, result.2 = .error e → Refuses grants ∧ e ≠ rowsetFailed

theorem appendField_runs (value : Bytes) (h : fields.Sound) :
    Runs (fields.owns + kept) (appendField grants fields value)
      (Appended grants fields value kept) := by
  apply (Vec.enlarge_runs grants (Nat.lt_succ_self _)).bind
  intro grown owned hgrown
  cases grown with
  | none =>
    obtain ⟨rfl, hrefuses⟩ := hgrown
    refine Runs.pure ⟨rfl, h, (fun hok => by cases hok), ?_⟩
    intro e he
    cases he
    exact ⟨hrefuses, by decide⟩
  | some grown =>
    obtain ⟨rfl, hsound, hcells, hroom⟩ := hgrown
    apply (box_runs grants value).bind
    intro copy owned hcopy
    cases copy with
    | none =>
      obtain ⟨rfl, hrefuses⟩ := hcopy
      refine Runs.pure ⟨rfl, hsound, (fun hok => by cases hok), ?_⟩
      intro e he
      cases he
      exact ⟨hrefuses, by decide⟩
    | some copy =>
      obtain ⟨rfl, rfl⟩ := hcopy
      apply (Vec.push_runs hsound hroom copy).bind
      rintro pushed owned ⟨rfl, hpushed, hpushedCells⟩
      refine Runs.pure ⟨rfl, hpushed, fun _ => ?_, fun e he => by cases he⟩
      simp [FieldArray.row, hpushedCells, hcells]

/-- The texts of the plain loop, behind those that were there before. -/
def LineFields (grants : Nat → Bool) (plain : Except SqlError Row) (before : Row)
    (more kept : Multiset Nat) : Except SqlError FieldArray → Multiset Nat → Prop
  | .error e, owned => owned = kept ∧ e ≠ rowsetFailed ∧ (plain = .error e ∨ Refuses grants)
  | .ok parsed, owned => owned = more + (parsed.owns + kept) ∧ parsed.Sound ∧
      ∃ values, plain = .ok values ∧ parsed.row = before ++ values

variable {buffer : LineBuffer}

theorem reach_runs {owned : Multiset Nat} (hroom : buffer.text.length < buffer.size)
    (hmem : buffer.block ∈ owned) : Runs owned buffer.reach fun _ left => left = owned := by
  rw [LineBuffer.reach, if_pos hroom]
  exact touch_runs hmem

theorem put_runs {owned : Multiset Nat} (hroom : buffer.text.length < buffer.size)
    (hmem : buffer.block ∈ owned) (ch : UInt8) :
    Runs owned (buffer.put ch) fun next left =>
      left = owned ∧ next = { buffer with text := buffer.text ++ [ch] } :=
  (reach_runs hroom hmem).seq (Runs.pure ⟨rfl, rfl⟩)

theorem dropLine_runs (h : fields.Sound) (e : SqlError) :
    Runs ({buffer.block} + (fields.owns + kept)) (dropLine buffer fields e) fun out left =>
      out = .error e ∧ left = kept :=
  (free_runs (some buffer.block)).seq ((freeFields_runs h).seq (Runs.pure ⟨rfl, rfl⟩))

theorem endField_runs (h : fields.Sound) (hroom : buffer.text.length < buffer.size) :
    Runs ({buffer.block} + (fields.owns + kept)) (endField grants buffer fields)
      (LineFields grants (.ok [trimField buffer.text]) fields.row {buffer.block} kept) := by
  apply (reach_runs hroom (by simp)).seq
  rw [add_left_comm]
  apply (appendField_runs _ h).bind
  rintro ⟨next, out⟩ owned ⟨rfl, hsound, hok, herror⟩
  cases out with
  | error e =>
    obtain ⟨hrefuses, hne⟩ := herror e rfl
    rw [add_left_comm]
    apply (dropLine_runs hsound e).mono
    rintro out left ⟨rfl, rfl⟩
    exact ⟨rfl, hne, .inr hrefuses⟩
  | ok _ => exact Runs.pure ⟨add_left_comm _ _ _, hsound, _, rfl, hok rfl⟩

/-- A byte of the line that goes into the buffer. -/
theorem puts {text : Bytes} {ch : UInt8} {line : Bytes} {inQuotes : Bool} {plain : Except SqlError Row}
    (h : fields.Sound) (htext : buffer.text = text) (hroom : text.length + line.length + 1 < buffer.size)
    (hnext : ∀ {fields : FieldArray} {buffer : LineBuffer}, fields.Sound →
      buffer.text = text ++ [ch] → (text ++ [ch]).length + line.length < buffer.size →
      Runs ({buffer.block} + (fields.owns + kept)) (csvFieldsAlloc grants inQuotes buffer fields line)
        (LineFields grants plain fields.row {buffer.block} kept)) :
    Runs ({buffer.block} + (fields.owns + kept))
      (do
        let buffer ← buffer.put ch
        csvFieldsAlloc grants inQuotes buffer fields line)
      (LineFields grants plain fields.row {buffer.block} kept) := by
  subst htext
  apply (put_runs (by omega) (by simp) ch).bind
  rintro next left ⟨rfl, rfl⟩
  have hmore : (buffer.text ++ [ch]).length + line.length < buffer.size := by
    simp only [List.length_append, List.length_singleton]
    omega
  have hrest := @hnext fields { buffer with text := buffer.text ++ [ch] } h rfl hmore
  exact hrest

/-- A comma: the text in the buffer ends a field, and the next one starts. -/
theorem endsField {line : Bytes} (h : fields.Sound)
    (hroom : buffer.text.length + (line.length + 1) < buffer.size)
    (hnext : ∀ {fields : FieldArray} {buffer : LineBuffer}, fields.Sound → buffer.text = [] →
      0 + line.length < buffer.size →
      Runs ({buffer.block} + (fields.owns + kept)) (csvFieldsAlloc grants false buffer fields line)
        (LineFields grants (csvFields false [] line) fields.row {buffer.block} kept)) :
    Runs ({buffer.block} + (fields.owns + kept))
      (do
        match ← endField grants buffer fields with
        | .error e => pure (.error e)
        | .ok fields => csvFieldsAlloc grants false { buffer with text := [] } fields line)
      (LineFields grants ((csvFields false [] line).map (trimField buffer.text :: ·)) fields.row
        {buffer.block} kept) := by
  apply (endField_runs h (by omega)).bind
  intro out owned hout
  cases out with
  | error e =>
    obtain ⟨rfl, hne, hplain⟩ := hout
    exact Runs.pure ⟨rfl, hne, .inr (hplain.resolve_left fun hplain => by cases hplain)⟩
  | ok next =>
    obtain ⟨rfl, hsound, values, hvalues, hrow⟩ := hout
    cases hvalues
    have hleft : 0 + line.length < buffer.size := by omega
    have hrest := @hnext next { buffer with text := [] } hsound rfl hleft
    apply hrest.mono
    intro out owned hout
    cases out with
    | error e =>
      obtain ⟨rfl, hne, hplain⟩ := hout
      refine ⟨rfl, hne, hplain.imp_left fun hplain => ?_⟩
      rw [hplain]
      rfl
    | ok parsed =>
      obtain ⟨rfl, hparsed, values, hvalues, hparsedRow⟩ := hout
      refine ⟨rfl, hparsed, _, by rw [hvalues]; rfl, ?_⟩
      rw [hparsedRow, hrow, List.append_assoc, List.singleton_append]

theorem csvFieldsAlloc_runs {inQuotes : Bool} {line : Bytes} (h : fields.Sound)
    (hroom : buffer.text.length + line.length < buffer.size) :
    Runs ({buffer.block} + (fields.owns + kept)) (csvFieldsAlloc grants inQuotes buffer fields line)
      (LineFields grants (csvFields inQuotes buffer.text line) fields.row {buffer.block} kept) := by
  generalize htext : buffer.text = text at hroom ⊢
  fun_induction csvFields inQuotes text line generalizing buffer fields with
  | case1 text =>
    -- the text ends inside quotes
    apply (dropLine_runs h unterminatedField).mono
    rintro out left ⟨rfl, rfl⟩
    exact ⟨rfl, by decide, .inl rfl⟩
  | case2 inQuotes text hquotes =>
    subst htext
    rw [csvFieldsAlloc, if_neg hquotes]
    exact endField_runs h (by simpa using hroom)
  | case3 text ih =>
    rw [csvFieldsAlloc, if_pos rfl, if_pos rfl]
    exact ih h htext (by simp only [List.length_cons, List.length_nil] at hroom ⊢; omega)
  | case4 text rest ih =>
    rw [csvFieldsAlloc, if_pos rfl, if_pos rfl]
    exact puts h htext (by simp only [List.length_cons] at hroom; omega) ih
  | case5 text next rest hnext ih =>
    rw [csvFieldsAlloc, if_pos rfl, if_pos rfl, if_neg hnext]
    exact ih h htext (by simp only [List.length_cons] at hroom ⊢; omega)
  | case6 text ch line hch ih =>
    rw [csvFieldsAlloc.eq_def]
    dsimp only
    rw [if_pos rfl, if_neg hch]
    exact puts h htext hroom ih
  | case7 inQuotes text line hquotes ih =>
    rw [csvFieldsAlloc.eq_def]
    dsimp only
    rw [if_neg hquotes, if_pos rfl]
    exact ih h htext (by simp only [List.length_cons] at hroom ⊢; omega)
  | case8 inQuotes text line hquotes e hplain hcomma ih =>
    subst htext
    rw [csvFieldsAlloc.eq_def]
    dsimp only
    rw [if_neg hquotes, if_neg hcomma, if_pos rfl]
    have hends := endsField h hroom ih
    rw [hplain] at hends
    exact hends
  | case9 inQuotes text line hquotes values hplain hcomma ih =>
    subst htext
    rw [csvFieldsAlloc.eq_def]
    dsimp only
    rw [if_neg hquotes, if_neg hcomma, if_pos rfl]
    have hends := endsField h hroom ih
    rw [hplain] at hends
    exact hends
  | case10 inQuotes text ch line hquotes hch hcomma ih =>
    rw [csvFieldsAlloc.eq_def]
    dsimp only
    rw [if_neg hquotes, if_neg hch, if_neg hcomma]
    exact puts h htext hroom ih

/-- A row of its own for the line. -/
def LineParsed (grants : Nat → Bool) (plain : Except SqlError Row) (expectedFields : Nat)
    (kept : Multiset Nat) : Except SqlError FieldArray → Multiset Nat → Prop
  | .error e, owned => owned = kept ∧ e ≠ rowsetFailed ∧ (plain = .error e ∨ Refuses grants)
  | .ok parsed, owned => owned = parsed.owns + kept ∧ parsed.Sound ∧
      parsed.cells.length = expectedFields ∧ plain = .ok parsed.row

theorem parseCsvLineAlloc_runs (line : Bytes) (expectedFields : Nat) :
    Runs kept (parseCsvLineAlloc grants line expectedFields)
      (LineParsed grants (parseCsvLine line expectedFields) expectedFields kept) := by
  unfold parseCsvLine
  apply (malloc_runs grants).bind
  intro block owned hblock
  cases block with
  | none => exact Runs.pure ⟨hblock.1, by decide, .inr hblock.2⟩
  | some block =>
    have hstart : owned = {block} + (FieldArray.owns .empty + kept) := by
      rw [hblock]
      exact congrArg _ (zero_add kept).symm
    subst hstart
    have hroom : (LineBuffer.mk block (line.length + 1) []).text.length + line.length <
        (LineBuffer.mk block (line.length + 1) []).size := by
      dsimp only [List.length_nil]
      omega
    have hloop : Runs ({block} + (FieldArray.owns .empty + kept))
        (csvFieldsAlloc grants false ⟨block, line.length + 1, []⟩ .empty line)
        (LineFields grants (csvFields false [] line) [] {block} kept) :=
      csvFieldsAlloc_runs Vec.empty_sound hroom
    apply hloop.bind
    intro out owned hout
    cases out with
    | error e =>
      obtain ⟨rfl, hne, hplain⟩ := hout
      refine Runs.pure ⟨rfl, hne, hplain.imp_left fun hplain => ?_⟩
      simp only [hplain]
    | ok parsed =>
      obtain ⟨rfl, hsound, values, hvalues, hrow⟩ := hout
      obtain rfl : parsed.row = values := by simpa using hrow
      have hlength : parsed.row.length = parsed.cells.length := by simp [FieldArray.row]
      apply (free_runs (some block)).seq
      simp only [hvalues, hlength]
      split
      · apply (freeFields_runs hsound).seq
        exact Runs.pure ⟨rfl, by decide, .inl rfl⟩
      · rename_i hcount
        exact Runs.pure ⟨rfl, hsound, not_not.mp hcount, rfl⟩

/-! ## The row set -/

/-- The rows of a row set. -/
def RowSet.rows (rowset : RowSet) : List Row := rowset.cells.map FieldArray.row

def RowSet.owns (rowset : RowSet) : Multiset Nat := rowset.blocks FieldArray.owns

/-- Every row is an array of so many texts. -/
structure RowSet.Holds (expectedFields : Nat) (rowset : RowSet) : Prop where
  sound : rowset.Sound
  rows : ∀ fields ∈ rowset.cells, fields.Sound ∧ fields.cells.length = expectedFields

theorem RowSet.holds_empty (expectedFields : Nat) : RowSet.Holds expectedFields .empty :=
  ⟨Vec.empty_sound, List.forall_mem_nil _⟩

variable {expectedFields : Nat} {rowset : RowSet}

theorem freeRowset_runs (h : RowSet.Holds expectedFields rowset) :
    Runs (rowset.owns + kept) (freeRowset rowset) fun out left => out = .empty ∧ left = kept := by
  have hfree : Runs (rowset.owns + kept) (freeArray rowset.array freeRow rowset.cells)
      fun _ left => left = kept :=
    Vec.free_runs h.sound (.refl _) fun fields hfields _ => freeRow_runs (h.rows fields hfields).1
  exact hfree.seq (Runs.pure ⟨rfl, rfl⟩)

/-- One more row, or the row is lost. -/
structure RowAppended (grants : Nat → Bool) (expectedFields : Nat) (rowset : RowSet)
    (fields : FieldArray) (kept : Multiset Nat) (result : RowSet × Except SqlError Unit)
    (owned : Multiset Nat) : Prop where
  holds : result.1.Holds expectedFields
  ok : result.2 = .ok () → owned = result.1.owns + kept ∧ result.1.rows = rowset.rows ++ [fields.row]
  error : ∀ e, result.2 = .error e →
    owned = result.1.owns + (fields.owns + kept) ∧ e = rowsetFailed ∧ Refuses grants

theorem rowsetAppend_runs (h : RowSet.Holds expectedFields rowset) {fields : FieldArray}
    (hfields : fields.Sound) (hcount : fields.cells.length = expectedFields) :
    Runs (fields.owns + (rowset.owns + kept)) (rowsetAppend grants rowset fields)
      (RowAppended grants expectedFields rowset fields kept) := by
  rw [add_left_comm]
  apply (Vec.grow_runs grants (by decide) h.sound).bind
  intro grown owned hgrown
  cases grown with
  | none =>
    obtain ⟨rfl, hrefuses⟩ := hgrown
    refine Runs.pure ⟨h, (fun hok => by cases hok), ?_⟩
    intro e he
    cases he
    exact ⟨rfl, rfl, hrefuses⟩
  | some grown =>
    obtain ⟨rfl, hsound, hcells, hroom⟩ := hgrown
    rw [add_left_comm]
    apply (Vec.push_runs hsound hroom fields).bind
    rintro pushed owned ⟨rfl, hpushed, hpushedCells⟩
    rw [hcells] at hpushedCells
    refine Runs.pure ⟨⟨hpushed, ?_⟩, fun _ => ⟨rfl, ?_⟩, fun e he => by cases he⟩
    · dsimp only
      rw [hpushedCells, List.forall_mem_append, List.forall_mem_singleton]
      exact ⟨h.rows, hfields, hcount⟩
    · simp [RowSet.rows, hpushedCells]

/-- All rows of the plain loop, or none; one row is lost if there was no place for it. -/
structure LinesRead (grants : Nat → Bool) (expectedFields : Nat) (plain : Except SqlError (List Row))
    (rowset : RowSet) (kept : Multiset Nat) (result : RowSet × Except SqlError Unit)
    (owned : Multiset Nat) : Prop where
  holds : result.1.Holds expectedFields
  ok : result.2 = .ok () → owned = result.1.owns + kept ∧
    ∃ rows, plain = .ok rows ∧ result.1.rows = rowset.rows ++ rows
  error : ∀ e, result.2 = .error e → result.1 = .empty ∧ (plain = .error e ∨ Refuses grants) ∧
    ∃ lost, owned = lost + kept ∧ (lost = 0 ∧ e ≠ rowsetFailed ∨
      e = rowsetFailed ∧ Refuses grants ∧ lost.card = expectedFields + 1)

theorem csvFields_ne_nil {inQuotes : Bool} {buffer line : Bytes} :
    csvFields inQuotes buffer line ≠ .ok [] := by
  fun_induction csvFields inQuotes buffer line with
  | case1 => exact fun h => by cases h
  | case2 => exact fun h => by cases h
  | case8 => exact fun h => by cases h
  | case9 => exact fun h => by cases h
  | _ => assumption

/-- A row is as many texts, and their array. -/
theorem card_owns {fields : FieldArray} (hsound : fields.Sound) {line : Bytes}
    (hplain : parseCsvLine line expectedFields = .ok fields.row) :
    fields.owns.card = fields.cells.length + 1 := by
  have hcells : fields.cells ≠ [] := by
    intro hnil
    have hrow : fields.row = [] := by rw [FieldArray.row, hnil, List.map_nil]
    rw [hrow] at hplain
    unfold parseCsvLine at hplain
    split at hplain
    · cases hplain
    · rename_i values hvalues
      split at hplain
      · cases hplain
      · cases hplain
        exact csvFields_ne_nil hvalues
  obtain ⟨array, harray⟩ := Option.ne_none_iff_exists'.mp fun hnull => hcells (hsound.cells_null hnull)
  have htexts : ∀ cells : List (Boxed Bytes), (cells.map Boxed.blocks).sum.card = cells.length := by
    intro cells
    induction cells with
    | nil => rfl
    | cons cell cells ih =>
      rw [List.map_cons, List.sum_cons, Multiset.card_add, ih, List.length_cons, add_comm]
      rfl
  rw [FieldArray.owns, Vec.blocks, harray, Multiset.card_add, htexts]
  rfl

theorem readLinesAlloc_runs (h : RowSet.Holds expectedFields rowset) (buffers : List Bytes) :
    Runs (rowset.owns + kept) (readLinesAlloc grants expectedFields rowset buffers)
      (LinesRead grants expectedFields (readLines expectedFields buffers) rowset kept) := by
  induction buffers generalizing rowset with
  | nil => exact Runs.pure ⟨h, fun _ => ⟨rfl, [], rfl, (List.append_nil _).symm⟩, fun e he => by cases he⟩
  | cons buffer buffers ih =>
    unfold readLinesAlloc readLines
    split
    · exact ih h
    · apply (parseCsvLineAlloc_runs _ expectedFields).bind
      intro out owned hout
      cases out with
      | error e =>
        obtain ⟨rfl, hne, hplain⟩ := hout
        apply (freeRowset_runs h).bind
        rintro left rest ⟨rfl, rfl⟩
        refine Runs.pure ⟨RowSet.holds_empty _, (fun hok => by cases hok), ?_⟩
        intro e' he'
        cases he'
        refine ⟨rfl, hplain.imp_left fun hplain => ?_, 0, (zero_add _).symm, .inl ⟨rfl, hne⟩⟩
        simp only [hplain]
      | ok fields =>
        obtain ⟨rfl, hsound, hcount, hplain⟩ := hout
        apply (rowsetAppend_runs h hsound hcount).bind
        rintro ⟨next, out⟩ owned ⟨hnext, hok, herror⟩
        cases out with
        | error e =>
          obtain ⟨rfl, rfl, hrefuses⟩ := herror e rfl
          apply (freeRowset_runs hnext).bind
          rintro left rest ⟨rfl, rfl⟩
          refine Runs.pure ⟨RowSet.holds_empty _, (fun hok => by cases hok), ?_⟩
          intro e' he'
          cases he'
          refine ⟨rfl, .inr hrefuses, fields.owns, rfl, .inr ⟨rfl, hrefuses, ?_⟩⟩
          rw [card_owns hsound hplain, hcount]
        | ok _ =>
          obtain ⟨rfl, hrows⟩ := hok rfl
          apply (ih hnext).mono
          rintro ⟨last, out⟩ owned ⟨hlast, hreadOk, hreadError⟩
          refine ⟨hlast, ?_, ?_⟩
          · intro hout
            obtain ⟨howned, rows, hread, hlastRows⟩ := hreadOk hout
            refine ⟨howned, fields.row :: rows, ?_, ?_⟩
            · simp only [hplain, hread]
            · rw [hlastRows, hrows, List.append_assoc, List.singleton_append]
          · intro e he
            obtain ⟨hempty, hread, hlost⟩ := hreadError e he
            refine ⟨hempty, hread.imp_left fun hread => ?_, hlost⟩
            simp only [hplain, hread]

end

end MiniSql.Storage
