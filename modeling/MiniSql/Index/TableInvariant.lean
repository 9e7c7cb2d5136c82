import MiniSql.Index.DbContext
import MiniSql.Index.FiniteMap

/-!
# The invariant of a loaded table

The rows, the index and the schema of a table are kept in step: every row has
the columns of the schema, and the index is the map from primary key to row
position. Loading establishes the invariant, and appending a row with a new key
to rows and index keeps it.
-/

namespace MiniSql.Index

open Storage

/-- Whether a value has the form its column asks for. -/
def matchesType (column : ColumnDef) (value : Bytes) : Bool :=
  match column.type with
  | .int => isIntegerString value
  | .float => isFloatString value
  | .string => true

/-- One field for each column, each of its column's type. -/
def WellTyped (schema : Schema) (row : Row) : Prop :=
  List.Forall₂ (fun column value => matchesType column value = true) schema.columns row

/-- The id under which the index files a row. -/
def rowKey (schema : Schema) (row : Row) : Option Int := (keyField schema row).map atoi

/-- The position of the row with the given key. -/
def keyMap (schema : Schema) (rows : List Row) (key : Int) : Option Int :=
  (rows.findIdx? (fun row => rowKey schema row == some key)).map Int.ofNat

/-- Rows and keys of a table: every row is well typed and has a key, and no key
occurs twice. -/
structure Keyed (schema : Schema) (rows : List Row) : Prop where
  typed : ∀ row ∈ rows, WellTyped schema row
  keys : ∀ row ∈ rows, ∃ key, rowKey schema row = some key
  distinct : (rows.map (rowKey schema)).Nodup

structure TableState.Valid (table : TableState) : Prop where
  keyed : Keyed table.schema table.rows
  index : Represents table.index (keyMap table.schema table.rows)

/-! ## Checking fields -/

theorem checkValue_ok_iff {message : Bytes → List Bytes} {column : ColumnDef} {value : Bytes} :
    checkValue message column value = .ok () ↔ matchesType column value = true := by
  unfold checkValue matchesType
  cases column.type <;> simp

theorem checkFields_ok_iff {check : ColumnDef → Bytes → Except SqlError Unit}
    (hcheck : ∀ column value, check column value = .ok () ↔ matchesType column value = true)
    {columns : List ColumnDef} {row : Row} (hlen : row.length = columns.length) :
    checkFields check columns row = .ok () ↔
      List.Forall₂ (fun column value => matchesType column value = true) columns row := by
  induction columns generalizing row with
  | nil =>
    obtain rfl := List.eq_nil_of_length_eq_zero hlen
    simp [checkFields]
  | cons column columns ih =>
    cases row with
    | nil => simp at hlen
    | cons value row =>
      rw [List.forall₂_cons, ← ih (Nat.succ.inj hlen), ← hcheck, checkFields]
      cases check column value <;> simp

theorem validateLoadedRowset_ok {schema : Schema} {rows : List Row}
    (h : validateLoadedRowset schema rows = .ok ()) : ∀ row ∈ rows, WellTyped schema row := by
  induction rows with
  | nil => simp
  | cons row rows ih =>
    unfold validateLoadedRowset at h
    split at h
    · cases h
    · rename_i hlen
      split at h
      · cases h
      · rename_i hrow
        rw [List.forall_mem_cons]
        exact ⟨(checkFields_ok_iff (fun _ _ => checkValue_ok_iff) (Decidable.of_not_not hlen)).mp hrow,
          ih h⟩

/-! ## Keys and positions -/

theorem keyMap_append {schema : Schema} (rows : List Row) {row : Row} {key : Int}
    (hkey : rowKey schema row = some key) (hnew : keyMap schema rows key = none) (k : Int) :
    keyMap schema (rows ++ [row]) k =
      if k = key then some (rows.length : Int) else keyMap schema rows k := by
  unfold keyMap at hnew ⊢
  rw [List.findIdx?_append]
  by_cases hk : k = key
  · subst hk
    rw [Option.map_eq_none_iff] at hnew
    simp [hnew, List.findIdx?_cons, hkey]
  · simp [hk, List.findIdx?_cons, hkey, Ne.symm hk]

theorem keyMap_eq_none {schema : Schema} {rows : List Row} {key : Int} :
    keyMap schema rows key = none ↔ ∀ row ∈ rows, rowKey schema row ≠ some key := by
  simp [keyMap]

/-- In keyed rows a key has one position. -/
theorem keyMap_eq_some {schema : Schema} {rows : List Row} (hrows : Keyed schema rows) {key : Int}
    {position : Nat} :
    keyMap schema rows key = some (position : Int) ↔
      ∃ row, rows[position]? = some row ∧ rowKey schema row = some key := by
  have hcast : keyMap schema rows key = some (position : Int) ↔
      rows.findIdx? (fun row => rowKey schema row == some key) = some position := by
    simp [keyMap]
  rw [hcast, List.findIdx?_eq_some_iff_getElem]
  constructor
  · rintro ⟨hlt, hkey, -⟩
    exact ⟨rows[position], List.getElem?_eq_getElem hlt, by simpa using hkey⟩
  · rintro ⟨row, hrow, hkey⟩
    obtain ⟨hlt, rfl⟩ := List.getElem?_eq_some_iff.mp hrow
    refine ⟨hlt, by simpa using hkey, fun j hj hother => ?_⟩
    have hlt' : position < (rows.map (rowKey schema)).length := by simpa using hlt
    have hsame : (rows.map (rowKey schema))[j] = (rows.map (rowKey schema))[position] := by
      simpa [hkey] using hother
    exact absurd (hrows.distinct.getElem_inj_iff.mp hsame) (Nat.ne_of_lt hj)

theorem Keyed.append {schema : Schema} {rows : List Row} {row : Row} {key : Int}
    (hrows : Keyed schema rows) (htyped : WellTyped schema row)
    (hkey : rowKey schema row = some key) (hnew : keyMap schema rows key = none) :
    Keyed schema (rows ++ [row]) := by
  refine ⟨?_, ?_, ?_⟩
  · intro r hr
    rcases List.mem_append.mp hr with hr | hr
    · exact hrows.typed r hr
    · rw [List.mem_singleton.mp hr]
      exact htyped
  · intro r hr
    rcases List.mem_append.mp hr with hr | hr
    · exact hrows.keys r hr
    · rw [List.mem_singleton.mp hr]
      exact ⟨key, hkey⟩
  · rw [List.map_append, List.map_singleton, List.nodup_append]
    refine ⟨hrows.distinct, by simp, ?_⟩
    intro a ha b hb
    rw [List.mem_singleton.mp hb, hkey]
    obtain ⟨r, hr, rfl⟩ := List.mem_map.mp ha
    exact keyMap_eq_none.mp hnew r hr

theorem keyed_nil (schema : Schema) : Keyed schema [] := ⟨by simp, by simp, by simp⟩

/-! ## Loading -/

/-- The largest of 0 and the keys of the rows. -/
def maxKey (schema : Schema) (rows : List Row) : Int :=
  rows.foldl (fun m row => max m ((rowKey schema row).getD 0)) 0

theorem maxKey_append (schema : Schema) (rows : List Row) (row : Row) :
    maxKey schema (rows ++ [row]) = max (maxKey schema rows) ((rowKey schema row).getD 0) := by
  simp [maxKey]

/-- The loop that builds the index, from the rows already in it. -/
theorem buildIndex_spec {schema : Schema} {loaded rows : List Row} {index index' : BPTree}
    {maxId : Int} (htyped : ∀ row ∈ rows, WellTyped schema row) (hloaded : Keyed schema loaded)
    (hindex : Represents index (keyMap schema loaded))
    (h : buildIndex schema rows loaded.length index (maxKey schema loaded) =
      some (.ok (index', maxId))) :
    Keyed schema (loaded ++ rows) ∧ Represents index' (keyMap schema (loaded ++ rows)) ∧
      maxId = maxKey schema (loaded ++ rows) := by
  induction rows generalizing loaded index with
  | nil =>
    simp only [buildIndex, Option.some.injEq, Except.ok.injEq, Prod.mk.injEq] at h
    obtain ⟨rfl, rfl⟩ := h
    simpa using ⟨hloaded, hindex⟩
  | cons row rows ih =>
    obtain ⟨hrow, htyped⟩ := List.forall_mem_cons.mp htyped
    unfold buildIndex at h
    split at h
    · cases h
    · rename_i field hfield
      have hkey : rowKey schema row = some (atoi field) := by simp [rowKey, hfield]
      cases hnew : keyMap schema loaded (atoi field) with
      | some r =>
        simp [insert_duplicate hindex hnew] at h
      | none =>
        obtain ⟨next, hins, hrep⟩ := insert_new hindex hnew loaded.length
        have hkeyed := hloaded.append hrow hkey hnew
        have hrep' := represents_congr hrep fun k => (keyMap_append loaded hkey hnew k).symm
        have hmax : (if atoi field > maxKey schema loaded then atoi field
            else maxKey schema loaded) = maxKey schema (loaded ++ [row]) := by
          rw [maxKey_append, hkey, Option.getD_some]
          omega
        simp only [hins, hmax] at h
        have hlen : loaded.length + 1 = (loaded ++ [row]).length := by simp
        rw [hlen] at h
        simpa using ih htyped hkeyed hrep' h

theorem loadRows_spec {schema : Schema} {tableName file : Bytes} {table : TableState}
    (h : loadRows schema tableName file = some (.ok table)) :
    table.Valid ∧ table.name = tableName.take 255 ∧ table.schema = schema ∧
      readCsvRows file schema.columnCount = .ok table.rows ∧ 0 ≤ schema.primaryKeyIndex ∧
      table.nextId = initialNextId (maxKey schema table.rows) := by
  unfold loadRows at h
  split at h
  · cases h
  · rename_i rows hrows
    unfold indexRows at h
    split at h
    · cases h
    · rename_i hvalid
      split at h
      · cases h
      · rename_i hpk
        split at h
        · cases h
        · cases h
        · rename_i index maxId hbuild
          cases h
          obtain ⟨hkeyed, hrep, hmax⟩ := buildIndex_spec (validateLoadedRowset_ok hvalid)
            (keyed_nil schema) represents_create hbuild
          rw [List.nil_append] at hkeyed hrep hmax
          exact ⟨⟨hkeyed, hrep⟩, rfl, rfl, hrows, by omega, by rw [hmax]⟩

theorem tableStateLoad_ok {disk : Disk} {dbRoot tableName : Bytes} {table : TableState}
    (h : tableStateLoad disk dbRoot tableName = some (.ok table)) :
    ∃ text file, disk.schemas tableName = some text ∧
      loadSchema tableName text = some (.ok table.schema) ∧
      disk.tables tableName = some file ∧ loadRows table.schema tableName file = some (.ok table) := by
  obtain ⟨schema, hschema, htable⟩ := andThen_ok_iff.mp h
  cases htext : disk.schemas tableName with
  | none =>
    rw [htext] at hschema
    cases hschema
  | some text =>
    rw [htext, loadSchemaFile] at hschema
    cases hfile : disk.tables tableName with
    | none =>
      rw [hfile] at htable
      cases htable
    | some file =>
      rw [hfile, loadTable] at htable
      obtain ⟨-, -, rfl, -⟩ := loadRows_spec htable
      exact ⟨text, file, rfl, hschema, rfl, htable⟩

/-- A table that loads keeps its name, since it fits the name buffer. -/
theorem tableStateLoad_name {disk : Disk} {dbRoot tableName : Bytes} {table : TableState}
    (h : tableStateLoad disk dbRoot tableName = some (.ok table)) : table.name = tableName := by
  obtain ⟨text, file, htext, -, -, hrows⟩ := tableStateLoad_ok h
  have hlen := disk.nameMax tableName (by simp [htext])
  rw [(loadRows_spec hrows).2.1, List.take_of_length_le (by omega)]

theorem tableStateLoad_valid {disk : Disk} {dbRoot tableName : Bytes} {table : TableState}
    (h : tableStateLoad disk dbRoot tableName = some (.ok table)) : table.Valid := by
  obtain ⟨text, file, -, -, -, hrows⟩ := tableStateLoad_ok h
  exact (loadRows_spec hrows).1

/-! ## Keys within the rows -/

theorem keyField_of_typed {schema : Schema} {row : Row}
    (hkey : schema.primaryKeyIndex.toNat < schema.columns.length) (hrow : WellTyped schema row) :
    ∃ field, keyField schema row = some field := by
  have hlen := hrow.length_eq
  exact ⟨_, List.getElem?_eq_getElem (by omega)⟩

theorem buildIndex_defined {schema : Schema} {loaded rows : List Row} {index : BPTree}
    (hkey : schema.primaryKeyIndex.toNat < schema.columns.length)
    (htyped : ∀ row ∈ rows, WellTyped schema row) (hloaded : Keyed schema loaded)
    (hindex : Represents index (keyMap schema loaded)) (maxId : Int) :
    buildIndex schema rows loaded.length index maxId ≠ none := by
  induction rows generalizing loaded index maxId with
  | nil => simp [buildIndex]
  | cons row rows ih =>
    obtain ⟨hrow, htyped⟩ := List.forall_mem_cons.mp htyped
    obtain ⟨field, hfield⟩ := keyField_of_typed hkey hrow
    have hrowKey : rowKey schema row = some (atoi field) := by simp [rowKey, hfield]
    cases hnew : keyMap schema loaded (atoi field) with
    | some r => simp [buildIndex, hfield, insert_duplicate hindex hnew]
    | none =>
      obtain ⟨next, hins, hrep⟩ := insert_new hindex hnew loaded.length
      have hrep' := represents_congr hrep fun k => (keyMap_append loaded hrowKey hnew k).symm
      have hnext := ih htyped (hloaded.append hrow hrowKey hnew) hrep'
        (if atoi field > maxId then atoi field else maxId)
      simpa [buildIndex, hfield, hins] using hnext

end MiniSql.Index
