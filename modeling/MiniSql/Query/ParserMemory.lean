import MiniSql.Lib.Alloc
import MiniSql.Query.Grammar

/-!
# The memory of a query

`parse_sql_text` and `free_query` with the blocks they allocate and free, where any call
for memory may be refused. A text is its block and its bytes. Whatever is refused, nothing
is freed twice and nothing freed is read; a parse that fails owns nothing, and `free_query`
gives back what a parse that succeeds owns.
-/

namespace MiniSql.Query

open Alloc

/-- `Query`, with its pointers. The cells of `values` below `value_count` stand in a list. -/
structure QueryRecord where
  type : QueryType
  tableName : Option (Boxed Bytes)
  values : Option Nat
  cells : List (Boxed Bytes)
  hasCondition : Bool
  column : Option (Boxed Bytes)
  value : Option (Boxed Bytes)

def QueryRecord.zero : QueryRecord := ⟨.insert, none, none, [], false, none, none⟩

section

variable (grants : Nat → Bool)

/-- The end of `parse_identifier` and `parse_value`: a copy of what was scanned. -/
def copyScanned {α : Type} (refused : SqlError) :
    Except SqlError (Bytes × α) → Allocating (Except SqlError (Boxed Bytes × α))
  | .error e => pure (.error e)
  | .ok (text, cursor) => do
    match ← box grants text with
    | none => pure (.error refused)
    | some copy => pure (.ok (copy, cursor))

def parseIdentifierAlloc (cursor : Bytes) : Allocating (Except SqlError (Boxed Bytes × Bytes)) :=
  copyScanned grants (sqlSetError [ascii "failed to allocate identifier"]) (parseIdentifier cursor)

/-- What is left behind a value. -/
abbrev Rest (cursor : Bytes) : Type := { rest : Bytes // rest.length < cursor.length }

def scanValue (cursor : Bytes) : Except SqlError (Bytes × Rest cursor) :=
  match h : parseValue cursor with
  | .error e => .error e
  | .ok (value, rest) => .ok (value, ⟨rest, parseValue_shorter h⟩)

def parseValueAlloc (cursor : Bytes) : Allocating (Except SqlError (Boxed Bytes × Rest cursor)) :=
  copyScanned grants (sqlSetError [ascii "failed to allocate value"]) (scanValue cursor)

def freeQueryValues (record : QueryRecord) : Allocating QueryRecord :=
  if record.values.isNone then pure record
  else do
    freeArray record.values freeBox record.cells
    pure { record with values := none, cells := [] }

def freeQueryCondition (record : QueryRecord) : Allocating QueryRecord :=
  if record.hasCondition = false then pure record
  else do
    free (record.column.map Boxed.block)
    free (record.value.map Boxed.block)
    pure { record with column := none, value := none, hasCondition := false }

def parseConditionAlloc (cursor : Bytes) (record : QueryRecord) :
    Allocating (Except SqlError (QueryRecord × Bytes)) :=
  match matchKeyword cursor (ascii "where") with
  | none => pure (.ok (record, cursor))
  | some cursor => do
    match ← parseIdentifierAlloc grants cursor with
    | .error e => pure (.error e)
    | .ok (column, cursor) =>
      let cursor := skipWhitespace cursor
      if peek cursor ≠ 0x3d then do
        freeBox column
        pure (.error (sqlSetError [ascii "expected '=' in WHERE clause"]))
      else do
        match ← parseValueAlloc grants (cursor.drop 1) with
        | .error e => do
          freeBox column
          pure (.error e)
        | .ok (value, ⟨cursor, _⟩) =>
          pure (.ok ({ record with hasCondition := true, column := some column, value := some value },
            cursor))

def parseSelectAlloc (sql : Bytes) (record : QueryRecord) :
    Allocating (QueryRecord × Except SqlError Unit) :=
  match matchKeyword sql (ascii "select") with
  | none => pure (record, .error (sqlSetError [ascii "expected SELECT"]))
  | some cursor =>
    let cursor := skipWhitespace cursor
    if peek cursor ≠ 0x2a then
      pure (record, .error (sqlSetError [ascii "only SELECT * is supported"]))
    else
      match matchKeyword (cursor.drop 1) (ascii "from") with
      | none => pure (record, .error (sqlSetError [ascii "expected FROM"]))
      | some cursor => do
        match ← parseIdentifierAlloc grants cursor with
        | .error e => pure ({ record with tableName := none }, .error e)
        | .ok (table, cursor) =>
          let record := { record with tableName := some table }
          match ← parseConditionAlloc grants cursor record with
          | .error e => pure (record, .error e)
          | .ok (record, cursor) =>
            if atEnd cursor then pure ({ record with type := .select }, .ok ())
            else pure (record, .error unexpectedTrailing)

/-- The loop over the values of an INSERT. -/
def parseValuesAlloc (array : Vec (Boxed Bytes)) (cursor : Bytes) :
    Allocating (Except SqlError (Vec (Boxed Bytes) × Bytes)) := do
  match ← parseValueAlloc grants cursor with
  | .error e => do
    freeArray array.array freeBox array.cells
    pure (.error e)
  | .ok (value, ⟨rest, _⟩) =>
    match ← array.grow grants 4 with
    | none => do
      freeBox value
      freeArray array.array freeBox array.cells
      pure (.error (sqlSetError [ascii "failed to allocate insert values"]))
    | some array => do
      let array ← array.push value
      if peek (skipWhitespace rest) = comma then
        parseValuesAlloc array ((skipWhitespace rest).drop 1)
      else if peek (skipWhitespace rest) = 0x29 then pure (.ok (array, (skipWhitespace rest).drop 1))
      else do
        freeArray array.array freeBox array.cells.reverse
        pure (.error (sqlSetError [ascii "expected ',' or ')' in VALUES list"]))
termination_by cursor.length
decreasing_by
  have hskip : (skipWhitespace rest).length ≤ rest.length := length_dropWhile_le isspace rest
  simp only [List.length_drop]
  omega

def parseInsertAlloc (sql : Bytes) (record : QueryRecord) :
    Allocating (QueryRecord × Except SqlError Unit) :=
  match matchKeyword sql (ascii "insert") with
  | none => pure (record, .error (sqlSetError [ascii "expected INSERT"]))
  | some cursor =>
    match matchKeyword cursor (ascii "into") with
    | none => pure (record, .error (sqlSetError [ascii "expected INTO"]))
    | some cursor => do
      match ← parseIdentifierAlloc grants cursor with
      | .error e => pure ({ record with tableName := none }, .error e)
      | .ok (table, cursor) =>
        let record := { record with tableName := some table }
        match matchKeyword cursor (ascii "values") with
        | none => pure (record, .error (sqlSetError [ascii "expected VALUES"]))
        | some cursor =>
          let cursor := skipWhitespace cursor
          if peek cursor ≠ 0x28 then
            pure (record, .error (sqlSetError [ascii "expected '(' after VALUES"]))
          else do
            match ← parseValuesAlloc grants .empty (cursor.drop 1) with
            | .error e => pure (record, .error e)
            | .ok (array, cursor) =>
              if atEnd cursor then
                pure ({ record with type := .insert, values := array.array, cells := array.cells },
                  .ok ())
              else do
                freeArray array.array freeBox array.cells.reverse
                pure (record, .error unexpectedTrailing)

/-- What `parse_sql_text` frees after each of the two parsers failed. -/
def freeParsed (record : QueryRecord) : Allocating QueryRecord := do
  free (record.tableName.map Boxed.block)
  let record ← freeQueryValues { record with tableName := none }
  freeQueryCondition record

def parseSqlTextAlloc (sql : Bytes) (record : QueryRecord) :
    Allocating (QueryRecord × Except SqlError Unit) :=
  if peek sql = 0 ∨ tokenizeSql sql = false then
    pure (record, .error (sqlSetError [ascii "sql must not be empty"]))
  else do
    match ← parseSelectAlloc grants sql .zero with
    | (record, .ok _) => pure (record, .ok ())
    | (record, .error _) => do
      let record ← freeParsed record
      match ← parseInsertAlloc grants sql record with
      | (record, .ok _) => pure (record, .ok ())
      | (record, .error _) => do
        let record ← freeParsed record
        pure (record, .error (sqlSetError [ascii "unsupported SQL statement"]))

/-- `free_query` of `main.c` and of `sql_service.c`. -/
def freeQueryAlloc (record : QueryRecord) : Allocating QueryRecord := do
  free (record.tableName.map Boxed.block)
  freeArray record.values freeBox record.cells
  free (record.column.map Boxed.block)
  free (record.value.map Boxed.block)
  pure ⟨record.type, none, none, [], false, none, none⟩

end

/-! ## What a record stands for, and what it owns -/

def QueryRecord.condition (record : QueryRecord) : Option Condition :=
  if record.hasCondition then do
    let column ← record.column
    let value ← record.value
    some ⟨column.content, value.content⟩
  else none

def QueryRecord.query (record : QueryRecord) : Query :=
  ⟨record.type, record.tableName.map Boxed.content, record.cells.map Boxed.content, record.condition⟩

def QueryRecord.blocks (record : QueryRecord) : Multiset Nat :=
  blockOf (record.tableName.map Boxed.block) + ((record.cells.map Boxed.blocks).sum +
    (blockOf record.values +
      (blockOf (record.column.map Boxed.block) + blockOf (record.value.map Boxed.block))))

/-- Null pointers stand where the counters say so. -/
structure QueryRecord.Sound (record : QueryRecord) : Prop where
  null : record.values = none → record.cells = []
  unconditioned : record.hasCondition = false → record.column = none ∧ record.value = none

theorem QueryRecord.zero_sound : QueryRecord.zero.Sound := ⟨fun _ => rfl, fun _ => ⟨rfl, rfl⟩⟩

/-- A record whose pointers are all null. -/
def QueryRecord.cleared (type : QueryType) : QueryRecord := ⟨type, none, none, [], false, none, none⟩

theorem freeQueryAlloc_runs {record : QueryRecord} (h : record.Sound) :
    Runs record.blocks (freeQueryAlloc record) fun left rest =>
      left = .cleared record.type ∧ rest = 0 := by
  rw [QueryRecord.blocks, ← add_zero (blockOf (record.value.map Boxed.block))]
  apply (free_runs _).seq
  apply (freeArray_runs (fun cell _ _ => freeBox_runs cell) h.null).seq
  apply (free_runs _).seq
  apply (free_runs _).seq
  exact Runs.pure ⟨rfl, rfl⟩

theorem freeParsed_runs {record : QueryRecord} (h : record.Sound) :
    Runs record.blocks (freeParsed record) fun left rest =>
      left = .cleared record.type ∧ rest = 0 := by
  obtain ⟨type, tableName, values, cells, hasCondition, column, value⟩ := record
  obtain ⟨hnull, hcondition⟩ := h
  apply (free_runs _).seq
  -- the array, if there is one
  have hvalues : Runs ((cells.map Boxed.blocks).sum + (blockOf values +
      (blockOf (column.map Boxed.block) + blockOf (value.map Boxed.block))))
      (freeQueryValues ⟨type, none, values, cells, hasCondition, column, value⟩) fun left rest =>
        left = ⟨type, none, none, [], hasCondition, column, value⟩ ∧
          rest = blockOf (column.map Boxed.block) + blockOf (value.map Boxed.block) := by
    cases values with
    | none =>
      obtain rfl : cells = [] := hnull rfl
      exact Runs.pure ⟨rfl, by simp [blockOf]⟩
    | some values =>
      apply (freeArray_runs (fun cell _ _ => freeBox_runs cell) fun h => by cases h).seq
      exact Runs.pure ⟨rfl, rfl⟩
  apply hvalues.bind
  rintro left rest ⟨rfl, rfl⟩
  cases hasCondition with
  | false =>
    obtain ⟨hcolumn, hvalue⟩ := hcondition rfl
    dsimp only at hcolumn hvalue
    subst hcolumn hvalue
    exact Runs.pure ⟨rfl, rfl⟩
  | true =>
    rw [← add_zero (blockOf (value.map Boxed.block))]
    apply (free_runs _).seq
    apply (free_runs _).seq
    exact Runs.pure ⟨rfl, rfl⟩

/-! ## The parsers follow the plain ones -/

section

variable {grants : Nat → Bool} {kept : Multiset Nat}

theorem copyScanned_runs {α : Type} (refused : SqlError) (scanned : Except SqlError (Bytes × α)) :
    Runs kept (copyScanned grants refused scanned) (Follows grants scanned kept fun copy text owned =>
      text = (copy.1.content, copy.2) ∧ owned = {copy.1.block} + kept) := by
  cases scanned with
  | error e => exact Runs.pure ⟨rfl, .inl rfl⟩
  | ok scanned =>
    apply (box_runs grants scanned.1).bind
    intro copy owned hcopy
    cases copy with
    | none => exact Runs.pure ⟨hcopy.1, .inr hcopy.2⟩
    | some copy => exact Runs.pure ⟨scanned, rfl, by rw [hcopy.2], hcopy.1⟩

theorem parseIdentifierAlloc_runs (cursor : Bytes) :
    Runs kept (parseIdentifierAlloc grants cursor)
      (Follows grants (parseIdentifier cursor) kept fun copy text owned =>
        text = (copy.1.content, copy.2) ∧ owned = {copy.1.block} + kept) := copyScanned_runs _ _

theorem parseValueAlloc_runs (cursor : Bytes) :
    Runs kept (parseValueAlloc grants cursor)
      (Follows grants (parseValue cursor) kept fun copy text owned =>
        text = (copy.1.content, copy.2.1) ∧ owned = {copy.1.block} + kept) := by
  apply (copyScanned_runs _ (scanValue cursor)).mono
  intro out owned hout
  unfold scanValue at hout
  split at hout
  · rename_i e hplain
    cases out with
    | error e' => exact ⟨hout.1, by rw [hplain]; simpa using hout.2⟩
    | ok copy =>
      obtain ⟨c, hc, -⟩ := hout
      cases hc
  · rename_i value rest hplain
    cases out with
    | error e' => exact ⟨hout.1, .inr (by simpa using hout.2)⟩
    | ok copy =>
      obtain ⟨c, hc, htext, howned⟩ := hout
      cases hc
      obtain ⟨hvalue, hrest⟩ := Prod.mk.inj htext
      exact ⟨_, hplain, by rw [hvalue, ← hrest], howned⟩

/-- The record behind `parse_condition`, with the blocks of the condition. -/
def Conditioned (record : QueryRecord) (kept : Multiset Nat) (out : QueryRecord × Bytes)
    (plain : Option Condition × Bytes) (owned : Multiset Nat) : Prop :=
  out.2 = plain.2 ∧ ((plain.1 = none ∧ out.1 = record ∧ owned = kept) ∨
    ∃ column value, plain.1 = some ⟨column.content, value.content⟩ ∧
      out.1 = { record with hasCondition := true, column := some column, value := some value } ∧
      owned = {column.block} + {value.block} + kept)

theorem parseConditionAlloc_runs (cursor : Bytes) (record : QueryRecord) :
    Runs kept (parseConditionAlloc grants cursor record)
      (Follows grants (parseCondition cursor) kept (Conditioned record kept)) := by
  unfold parseConditionAlloc parseCondition
  cases matchKeyword cursor (ascii "where") with
  | none => exact Runs.pure ⟨_, rfl, rfl, .inl ⟨rfl, rfl, rfl⟩⟩
  | some cursor =>
    apply (parseIdentifierAlloc_runs cursor).bind
    intro out owned hout
    cases out with
    | error e => 
      obtain ⟨rfl, hplain⟩ := hout
      refine Runs.pure ⟨rfl, hplain.imp_left fun hplain => ?_⟩
      simp only [hplain]
    | ok out =>
      obtain ⟨column, cursor⟩ := out
      obtain ⟨text, hplain, rfl, rfl⟩ := hout
      simp only [hplain]
      split
      · apply (freeBox_runs column).seq
        exact Runs.pure ⟨rfl, .inl rfl⟩
      · apply (parseValueAlloc_runs _).bind
        intro out owned hout
        cases out with
        | error e =>
          obtain ⟨rfl, hvalue⟩ := hout
          apply (freeBox_runs column).seq
          refine Runs.pure ⟨rfl, hvalue.imp_left fun hvalue => ?_⟩
          simp only [hvalue]
        | ok out =>
          obtain ⟨value, cursor, _⟩ := out
          obtain ⟨text, hvalue, rfl, rfl⟩ := hout
          refine Runs.pure ⟨(some ⟨column.content, value.content⟩, cursor), ?_, rfl,
            .inr ⟨column, value, rfl, rfl, ?_⟩⟩
          · simp only [hvalue]
          · ac_rfl

/-- A parse of the whole text: the record stands for the query of the plain parser, unless
a call for memory was refused, and it says what it owns. -/
structure Parsed (grants : Nat → Bool) (plain : Query × Except SqlError Unit)
    (result : QueryRecord × Except SqlError Unit) (owned : Multiset Nat) : Prop where
  owns : owned = result.1.blocks
  sound : result.1.Sound
  follows : plain = (result.1.query, result.2) ∨ (Refuses grants ∧ ∃ e, result.2 = .error e)
  untyped : ∀ e, result.2 = .error e → result.1.type = .insert

theorem parsed_zero (grants : Nat → Bool) (e : SqlError) :
    Parsed grants (.zero, .error e) (.zero, .error e) 0 :=
  ⟨rfl, QueryRecord.zero_sound, .inl rfl, fun _ _ => rfl⟩

/-- The record of `parse_select` and `parse_insert` once the table is named. -/
theorem tableName_sound (table : Boxed Bytes) :
    { QueryRecord.zero with tableName := some table }.Sound := ⟨fun _ => rfl, fun _ => ⟨rfl, rfl⟩⟩

theorem select_end {record : QueryRecord} (hsound : record.Sound) (htype : record.type = .insert)
    {cursor : Bytes} :
    Runs record.blocks
      (if atEnd cursor then pure ({ record with type := .select }, .ok ())
        else pure (record, .error unexpectedTrailing))
      (Parsed grants (if atEnd cursor then ({ record.query with type := .select }, .ok ())
        else (record.query, .error unexpectedTrailing))) := by
  split
  · exact Runs.pure ⟨rfl, ⟨hsound.null, hsound.unconditioned⟩, .inl rfl, fun e he => by cases he⟩
  · exact Runs.pure ⟨rfl, hsound, .inl rfl, fun _ _ => htype⟩

theorem parseSelectAlloc_runs (sql : Bytes) :
    Runs 0 (parseSelectAlloc grants sql .zero) (Parsed grants (parseSelect sql .zero)) := by
  unfold parseSelectAlloc parseSelect
  cases matchKeyword sql (ascii "select") with
  | none => exact Runs.pure (parsed_zero grants _)
  | some cursor =>
    dsimp only
    split
    · exact Runs.pure (parsed_zero grants _)
    · cases matchKeyword ((skipWhitespace cursor).drop 1) (ascii "from") with
      | none => exact Runs.pure (parsed_zero grants _)
      | some cursor =>
        apply (parseIdentifierAlloc_runs cursor).bind
        intro out owned hout
        cases out with
        | error e =>
          obtain ⟨rfl, hplain⟩ := hout
          refine Runs.pure ⟨rfl, QueryRecord.zero_sound, ?_, fun _ _ => rfl⟩
          refine hplain.imp (fun hplain => ?_) fun hrefuses => ⟨hrefuses, e, rfl⟩
          simp only [hplain]
          rfl
        | ok out =>
          obtain ⟨table, cursor⟩ := out
          obtain ⟨text, hplain, rfl, rfl⟩ := hout
          simp only [hplain]
          apply (parseConditionAlloc_runs cursor _).bind
          intro out owned hout
          cases out with
          | error e =>
            obtain ⟨rfl, hcondition⟩ := hout
            refine Runs.pure ⟨rfl, tableName_sound table, ?_, fun _ _ => rfl⟩
            refine hcondition.imp (fun hcondition => ?_) fun hrefuses => ⟨hrefuses, e, rfl⟩
            simp only [hcondition]
            rfl
          | ok out =>
            obtain ⟨record, cursor⟩ := out
            obtain ⟨⟨condition, rest⟩, hcondition, rfl, hrecord⟩ := hout
            simp only [hcondition]
            rcases hrecord with ⟨rfl, rfl, rfl⟩ | ⟨column, value, rfl, rfl, rfl⟩
            · exact select_end (tableName_sound table) rfl
            · have hsound : { QueryRecord.zero with
                  tableName := some table, hasCondition := true, column := some column,
                  value := some value }.Sound := ⟨fun _ => rfl, fun h => by cases h⟩
              have howned : {column.block} + {value.block} + ({table.block} + 0) =
                  { QueryRecord.zero with
                    tableName := some table, hasCondition := true, column := some column,
                    value := some value }.blocks := by
                simp only [QueryRecord.blocks, QueryRecord.zero, Option.map_some, List.map_nil,
                  blockOf]
                abel
              rw [howned]
              exact select_end hsound rfl

end

end MiniSql.Query
