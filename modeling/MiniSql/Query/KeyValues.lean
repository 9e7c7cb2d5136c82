import MiniSql.Query.Reachable
import MiniSql.Storage.NumberText

/-!
# Equal keys by value

The index files a row under `atoi` of its key, whatever the type of the key column
and whatever the size of the number. Equal values have equal ids; an INSERT tells
the keys apart as values exactly if no other key shares the id.
-/

namespace MiniSql.Query

open Storage Index

/-- Equality of two texts as values of a type. -/
def SameValue : ColumnType → Bytes → Bytes → Prop
  | .int, a, b => intValue a = intValue b
  | .float, a, b => floatValue a = floatValue b
  | .string, a, b => a = b

instance : (type : ColumnType) → (a b : Bytes) → Decidable (SameValue type a b)
  | .int, a, b => inferInstanceAs (Decidable (intValue a = intValue b))
  | .float, a, b => inferInstanceAs (Decidable (floatValue a = floatValue b))
  | .string, a, b => inferInstanceAs (Decidable (a = b))

/-- The rows have equal primary keys in the sense of the key column's type. -/
def SameKeyValue (schema : Schema) (row other : Row) : Prop :=
  ∃ column a b, schema.columns[schema.primaryKeyIndex.toNat]? = some column ∧
    keyField schema row = some a ∧ keyField schema other = some b ∧ SameValue column.type a b

/-- The primary key is one of the columns, and the rows that share the id of the new
one share its key. -/
structure KeyTold (table : TableState) (fields : Row) : Prop where
  column : table.schema.primaryKeyIndex.toNat < table.schema.columns.length
  same : ∀ row ∈ table.rows, rowKey table.schema row = rowKey table.schema fields →
    SameKeyValue table.schema row fields

/-- A number starts with no whitespace. -/
theorem peek_of_trim {text : Bytes} (h : trim text = text) : isspace (peek text) = false := by
  rw [← h]
  exact peek_trim text

/-- Equal values of a type have one id. -/
theorem atoi_of_sameValue {column : ColumnDef} {a b : Bytes} (ha : matchesType column a = true)
    (hb : matchesType column b = true) (h : SameValue column.type a b) : atoi a = atoi b := by
  have hnumber : ∀ {a b}, trim a = a → trim b = b → intValue a = intValue b → atoi a = atoi b := by
    intro a b ha hb heq
    rw [atoi, atoi, strtol_eq (peek_of_trim ha), strtol_eq (peek_of_trim hb), heq]
  unfold matchesType at ha hb
  cases htype : column.type with
  | int =>
    rw [htype] at ha hb h
    exact hnumber (trim_of_isIntegerString ha) (trim_of_isIntegerString hb) h
  | float =>
    rw [htype] at ha hb h
    have hvalue : floatValue a = floatValue b := h
    apply hnumber (trim_of_isFloatString ha) (trim_of_isFloatString hb)
    rw [intValue_eq_truncate, intValue_eq_truncate, hvalue]
  | string =>
    rw [htype] at h
    exact congrArg atoi (h : a = b)

theorem SameKeyValue.rowKey_eq {schema : Schema} {row other : Row} (hrow : WellTyped schema row)
    (hother : WellTyped schema other) (h : SameKeyValue schema row other) :
    rowKey schema row = rowKey schema other := by
  obtain ⟨column, a, b, hcolumn, ha, hb, hsame⟩ := h
  have hatoi := atoi_of_sameValue ((wellTyped_fields hrow).2 _ column a hcolumn ha)
    ((wellTyped_fields hother).2 _ column b hcolumn hb) hsame
  simp [rowKey, ha, hb, hatoi]

/-- A well-typed row whose key is among the columns is rejected exactly if a row has
its id. -/
theorem executeInsert_duplicate {db : Db} (hdb : Valid db) {tableName : Bytes} {position : Nat}
    {table : TableState} (hloaded : Loaded db tableName position table) {query : Query}
    (hname : query.tableName = some tableName) {fields : Row}
    (hfields : insertFields table query.values = .ok fields)
    (htyped : WellTyped table.schema fields)
    (hkey : table.schema.primaryKeyIndex.toNat < table.schema.columns.length) :
    ∃ db' out, executeInsert query db = some (db', out) ∧
      ((∃ id, out = .error (duplicateId id)) ↔
        ∃ row ∈ table.rows, rowKey table.schema row = rowKey table.schema fields) := by
  have ht := hdb.tables table (List.mem_of_getElem? hloaded.here)
  have hcheck := checkFields_of_typed htyped
  obtain ⟨field, hfield⟩ := keyField_of_typed hkey htyped
  have hrowKey : rowKey table.schema fields = some (atoi field) := by simp [rowKey, hfield]
  rw [hrowKey]
  cases hmap : keyMap table.schema table.rows (atoi field) with
  | some i =>
    have hsearch : bptreeSearch table.index (atoi field) = some (true, i) := by
      rw [search_represents ht.index, hmap]
      rfl
    have hrow := (search_found_iff ht).mp ⟨i, hsearch⟩
    refine ⟨db, .error (duplicateId (atoi field)), ?_, iff_of_true ⟨_, rfl⟩ hrow⟩
    simp only [executeInsert, hname, hloaded.getTable, hloaded.here, prepareInsert, hfields, hcheck,
      hfield, hsearch]
  | none =>
    obtain ⟨i, hsearch⟩ := (search_false_iff ht).mpr hmap
    have hprep : Prepared table query.values fields (atoi field) :=
      ⟨hfields, htyped, hrowKey, i, hsearch⟩
    obtain ⟨index, hins, -⟩ := hprep.insert ht
    have hcommit := commitInsert_eq hprep db tableName position hins
    refine ⟨_, .ok [.insertDone], Eq.trans ?_ hcommit, ?_⟩
    · simp only [executeInsert, hname, hloaded.getTable, hloaded.here, prepareInsert, hfields,
        hcheck, hfield, hsearch, Option.getD_some]
    · have hnone : ¬ ∃ row ∈ table.rows, rowKey table.schema row = some (atoi field) := by
        rintro ⟨row, hrow, heq⟩
        exact keyMap_eq_none.mp hmap row hrow heq
      exact iff_of_false (by simp) hnone

/-- **When keys are unique by value.** For every table that a run reaches and every
well-typed row, an INSERT is answered, and rejects the row as a duplicate exactly if
some row has an equal key in the sense of the key column's type, if and only if the
key is among the columns and every row with the id of the new one has its key. -/
theorem duplicate_by_value_iff {db : Db} (hdb : Reachable db) {tableName : Bytes} {position : Nat}
    {table : TableState} (hloaded : Loaded db tableName position table) {query : Query}
    (hname : query.tableName = some tableName) {fields : Row}
    (hfields : insertFields table query.values = .ok fields)
    (htyped : WellTyped table.schema fields) :
    (∃ db' out, executeInsert query db = some (db', out) ∧
      ((∃ id, out = .error (duplicateId id)) ↔
        ∃ row ∈ table.rows, SameKeyValue table.schema row fields)) ↔ KeyTold table fields := by
  have ht := hdb.valid.tables table (List.mem_of_getElem? hloaded.here)
  by_cases hkey : table.schema.primaryKeyIndex.toNat < table.schema.columns.length
  · obtain ⟨db', out, hrun, hduplicate⟩ :=
      executeInsert_duplicate hdb.valid hloaded hname hfields htyped hkey
    constructor
    · rintro ⟨db₂, out₂, hrun₂, hvalue⟩
      cases hrun.symm.trans hrun₂
      refine ⟨hkey, fun row hrow heq => ?_⟩
      -- One row has the id, so the row with the equal key is this one.
      obtain ⟨other, hother, hsame⟩ := hvalue.mp (hduplicate.mpr ⟨row, hrow, heq⟩)
      have hids := hsame.rowKey_eq (ht.keyed.typed other hother) htyped
      have hone : other = row :=
        List.inj_on_of_nodup_map ht.keyed.distinct hother hrow (hids.trans heq.symm)
      exact hone ▸ hsame
    · intro htold
      refine ⟨db', out, hrun, hduplicate.trans ⟨?_, ?_⟩⟩
      · rintro ⟨row, hrow, heq⟩
        exact ⟨row, hrow, htold.same row hrow heq⟩
      · rintro ⟨row, hrow, hsame⟩
        exact ⟨row, hrow, hsame.rowKey_eq (ht.keyed.typed row hrow) htyped⟩
  · have hnone : keyField table.schema fields = none := by
      have hlen := htyped.length_eq
      exact List.getElem?_eq_none (by omega)
    constructor
    · rintro ⟨db', out, hrun, -⟩
      simp only [executeInsert, hname, hloaded.getTable, hloaded.here, prepareInsert, hfields,
        checkFields_of_typed htyped, hnone] at hrun
      cases hrun
    · intro htold
      exact absurd htold.column hkey

/-- Two spellings of one integer. -/
theorem duplicate_by_value_users : ∃ db table db' out, Loaded db (ascii "users") 0 table ∧
    executeInsert ⟨.insert, some (ascii "users"), [ascii "+07", ascii "eve"], none⟩ db =
      some (db', out) ∧
    (∃ id, out = .error (duplicateId id)) ∧
    ∃ row ∈ table.rows, SameKeyValue table.schema row [ascii "+07", ascii "eve"] := by
  have heval : ((tableStateLoad usersDb.disk usersDb.ctx.dbRoot (ascii "users")).bind
      Except.toOption).map (fun table => decide (
        table.rows = [[ascii "1", ascii "ann"], [ascii "7", ascii "bob"]] ∧
        table.schema.primaryKeyIndex = 0 ∧
        table.schema.columns.map ColumnDef.type = [.int, .string])) = some true := by
    decide +kernel
  simp only [Option.map_eq_some_iff, Option.bind_eq_some_iff, toOption_eq_some,
    decide_eq_true_eq] at heval
  obtain ⟨table, ⟨_, hload, rfl⟩, hrows, hfirst, htypes⟩ := heval
  obtain ⟨column, rest, hcolumns, hint, hrest⟩ := List.map_eq_cons_iff.mp htypes
  obtain ⟨name, rfl, hstring⟩ := List.map_eq_singleton_iff.mp hrest
  have habsent : findTable usersDb.ctx.tables (ascii "users") = none := rfl
  have hdb := (Reachable.create usersDisk (ascii "db")).load habsent hload
  have hloaded := (loaded_of_load habsent hload).2
  have hfields : insertFields table [ascii "+07", ascii "eve"] = .ok [ascii "+07", ascii "eve"] := by
    simp [insertFields, Schema.columnCount, hcolumns]
  have htyped : WellTyped table.schema [ascii "+07", ascii "eve"] := by
    simp only [WellTyped, hcolumns, List.forall₂_cons, matchesType, hint, hstring]
    exact ⟨by decide, trivial, .nil⟩
  have hsame : SameKeyValue table.schema [ascii "7", ascii "bob"] [ascii "+07", ascii "eve"] := by
    refine ⟨column, ascii "7", ascii "+07", by simp [hcolumns, hfirst], by simp [keyField, hfirst],
      by simp [keyField, hfirst], ?_⟩
    rw [hint]
    decide
  have hone : rowKey table.schema [ascii "1", ascii "ann"] ≠
      rowKey table.schema [ascii "+07", ascii "eve"] := by
    simp only [rowKey, keyField, hfirst]
    decide
  have htold : KeyTold table [ascii "+07", ascii "eve"] := by
    refine ⟨by simp [hcolumns, hfirst], fun row hrow heq => ?_⟩
    rw [hrows] at hrow
    rcases List.mem_pair.mp hrow with rfl | rfl
    · exact absurd heq hone
    · exact hsame
  have hmem : [ascii "7", ascii "bob"] ∈ table.rows := by simp [hrows]
  let query : Query := ⟨.insert, some (ascii "users"), [ascii "+07", ascii "eve"], none⟩
  have hname : query.tableName = some (ascii "users") := rfl
  obtain ⟨db', out, hrun, hiff⟩ :=
    (duplicate_by_value_iff hdb hloaded hname hfields htyped).mpr htold
  exact ⟨_, table, db', out, hloaded, hrun, hiff.mpr ⟨_, hmem, hsame⟩, _, hmem, hsame⟩

/-- An id that is 1 only to a 32-bit `int` is rejected as a second 1. -/
theorem other_integer_rejected : ∃ db' table,
    executeInsert ⟨.insert, some (ascii "users"), [ascii "4294967297", ascii "eve"], none⟩ usersDb =
      some (db', .error (duplicateId 1)) ∧ Loaded db' (ascii "users") 0 table ∧
    WellTyped table.schema [ascii "4294967297", ascii "eve"] ∧
    ∀ row ∈ table.rows, ¬ SameKeyValue table.schema row [ascii "4294967297", ascii "eve"] := by
  have heval : (executeInsert ⟨.insert, some (ascii "users"), [ascii "4294967297", ascii "eve"], none⟩
      usersDb).bind (fun r => r.1.ctx.tables[0]?.map fun table => decide (
        r.2 = .error (duplicateId 1) ∧ findTable r.1.ctx.tables (ascii "users") = some 0 ∧
        table.rows = [[ascii "1", ascii "ann"], [ascii "7", ascii "bob"]] ∧
        table.schema.primaryKeyIndex = 0 ∧
        table.schema.columns.map ColumnDef.type = [.int, .string])) = some true := by
    decide +kernel
  simp only [Option.bind_eq_some_iff, Option.map_eq_some_iff, decide_eq_true_eq] at heval
  obtain ⟨⟨db', _⟩, hrun, table, hhere, rfl, hfind, hrows, hfirst, htypes⟩ := heval
  obtain ⟨column, rest, hcolumns, hint, hrest⟩ := List.map_eq_cons_iff.mp htypes
  obtain ⟨name, rfl, hstring⟩ := List.map_eq_singleton_iff.mp hrest
  refine ⟨db', table, hrun, ⟨hfind, hhere⟩, ?_, fun row hrow => ?_⟩
  · simp only [WellTyped, hcolumns, List.forall₂_cons, matchesType, hint, hstring]
    exact ⟨by decide, trivial, .nil⟩
  · rintro ⟨column', a, b, hcolumn', ha, hb, hsame⟩
    obtain rfl : column = column' := by simpa [hcolumns, hfirst] using hcolumn'
    obtain rfl : ascii "4294967297" = b := by simpa [keyField, hfirst] using hb
    rw [hint] at hsame
    rw [hrows] at hrow
    rcases List.mem_pair.mp hrow with rfl | rfl
    · obtain rfl : ascii "1" = a := by simpa [keyField, hfirst] using ha
      exact absurd hsame (by decide)
    · obtain rfl : ascii "7" = a := by simpa [keyField, hfirst] using ha
      exact absurd hsame (by decide)

end MiniSql.Query
