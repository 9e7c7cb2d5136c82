import MiniSql.Index.Reload
import MiniSql.Storage.SchemaText

/-!
# When loading a table is defined

`table_state_load` leaves defined behaviour at two places: `load_schema` prints a line
without `=` from the text that it has freed, and the loop over the rows reads the key of
a row at a position that a second `columns` line may have left beyond the columns. A load
has a result exactly if it comes to neither.
-/

namespace MiniSql.Index

open Storage

/-- The position of the primary key is one of a column. -/
def KeyInRange (schema : Schema) : Prop := schema.primaryKeyIndex.toNat < schema.columnCount

/-- No line of the schema file without `=` is reached, and if there are rows that pass
the checks in front of the index, their keys are there. -/
structure SafeToLoad (disk : Disk) (tableName : Bytes) : Prop where
  lines : ∀ text, disk.schemas tableName = some text → LinesReadable (textLines text)
  keys : ∀ text schema file rows, disk.schemas tableName = some text →
    loadSchema tableName text = some (.ok schema) → disk.tables tableName = some file →
    readCsvRows file schema.columnCount = .ok rows → rows ≠ [] →
    (∀ row ∈ rows, WellTyped schema row) → 0 ≤ schema.primaryKeyIndex → KeyInRange schema

theorem keyField_none {schema : Schema} {row : Row} (hkey : ¬ KeyInRange schema)
    (hrow : WellTyped schema row) : keyField schema row = none := by
  apply List.getElem?_eq_none
  rw [← hrow.length_eq]
  exact Nat.le_of_not_lt hkey

theorem indexRows_defined_iff (schema : Schema) (tableName : Bytes) (rows : List Row) :
    indexRows schema tableName rows ≠ none ↔
      (rows ≠ [] → (∀ row ∈ rows, WellTyped schema row) → 0 ≤ schema.primaryKeyIndex →
        KeyInRange schema) := by
  unfold indexRows
  cases hvalid : validateLoadedRowset schema rows with
  | error e =>
    refine iff_of_true (by simp) fun _ htyped => ?_
    rw [validateLoadedRowset_of_typed htyped] at hvalid
    cases hvalid
  | ok _ =>
    have htyped := validateLoadedRowset_ok hvalid
    by_cases hindex : schema.primaryKeyIndex < 0
    · simp only [if_pos hindex]
      exact iff_of_true (by simp) fun _ _ hpos => absurd hpos (by omega)
    · simp only [if_neg hindex]
      by_cases hkey : KeyInRange schema
      · have hbuild := buildIndex_defined hkey htyped (keyed_nil schema) represents_create 0
        refine iff_of_true ?_ fun _ _ _ => hkey
        rcases hbuilt : buildIndex schema rows 0 bptreeCreate 0 with _ | e | built
        · exact absurd hbuilt hbuild
        · simp
        · simp
      · cases rows with
        | nil => exact iff_of_true (by simp [buildIndex]) fun hne => absurd rfl hne
        | cons row rows =>
          have hnone := keyField_none hkey (htyped row List.mem_cons_self)
          refine iff_of_false (by simp [buildIndex, hnone]) fun hall => ?_
          exact hkey (hall (List.cons_ne_nil row rows) htyped (Int.not_lt.mp hindex))

theorem loadTable_defined_iff (dbRoot tableName : Bytes) (file : Option Bytes) (schema : Schema) :
    loadTable dbRoot tableName file schema ≠ none ↔
      ∀ contents rows, file = some contents → readCsvRows contents schema.columnCount = .ok rows →
        rows ≠ [] → (∀ row ∈ rows, WellTyped schema row) → 0 ≤ schema.primaryKeyIndex →
        KeyInRange schema := by
  cases file with
  | none => simp [loadTable]
  | some contents =>
    rw [loadTable, loadRows]
    cases hrows : readCsvRows contents schema.columnCount with
    | error e =>
      refine iff_of_true (by simp) fun contents' rows hfile hread => ?_
      cases hfile
      cases hrows.symm.trans hread
    | ok rows =>
      refine (indexRows_defined_iff schema tableName rows).trans ⟨?_, fun h => h contents rows rfl hrows⟩
      intro h contents' rows' hfile hread
      cases hfile
      cases hrows.symm.trans hread
      exact h

/-- **A load is defined** exactly if it comes neither to a line without `=` nor to a row
without its key. -/
theorem tableStateLoad_defined_iff (disk : Disk) (dbRoot tableName : Bytes) :
    tableStateLoad disk dbRoot tableName ≠ none ↔ SafeToLoad disk tableName := by
  rw [tableStateLoad, andThen_defined_iff]
  constructor
  · rintro ⟨hschema, htable⟩
    constructor
    · intro text htext
      rw [htext] at hschema
      exact (loadSchema_defined_iff tableName text).mp hschema
    · intro text schema file rows htext hload
      rw [htext] at htable
      exact (loadTable_defined_iff dbRoot tableName _ schema).mp (htable schema hload) file rows
  · intro h
    cases htext : disk.schemas tableName with
    | none => exact ⟨by simp [loadSchemaFile], fun schema hload => by cases hload⟩
    | some text =>
      refine ⟨(loadSchema_defined_iff tableName text).mpr (h.lines text htext), fun schema hload => ?_⟩
      rw [loadTable_defined_iff]
      exact fun file rows => h.keys text schema file rows htext hload

end MiniSql.Index
