import MiniSql.Index.TableInvariant
import MiniSql.Storage.TableFile
import MiniSql.Storage.Trim

/-!
# Loading a table that was written by INSERT

The rows that a reader finds behind a loadable file are the appended rows with
their fields trimmed. They have the same types and keys, so loading them
succeeds and builds the same index.
-/

namespace MiniSql.Index

open Storage

/-! ## Trimmed rows -/

theorem matchesType_trim {column : ColumnDef} {value : Bytes}
    (h : matchesType column value = true) : matchesType column (trim value) = true := by
  unfold matchesType at h ⊢
  cases hc : column.type with
  | int =>
    rw [hc] at h
    simpa [trim_of_isIntegerString h] using h
  | float =>
    rw [hc] at h
    simpa [trim_of_isFloatString h] using h
  | string => rfl

theorem WellTyped.trim {schema : Schema} {row : Row} (h : WellTyped schema row) :
    WellTyped schema (row.map trim) :=
  List.forall₂_map_right_iff.mpr (h.imp fun _ _ => matchesType_trim)

theorem rowKey_trim (schema : Schema) (row : Row) :
    rowKey schema (row.map trim) = rowKey schema row := by
  simp [rowKey, keyField, Option.map_map, Function.comp_def, atoi_trim]

/-! ## Same keys, same table -/

/-- Row by row the same key, or none. -/
def SameKeys (schema : Schema) (rows rows' : List Row) : Prop :=
  rows.map (rowKey schema) = rows'.map (rowKey schema)

theorem keyMap_congr {schema : Schema} {rows rows' : List Row} (h : SameKeys schema rows rows') :
    keyMap schema rows = keyMap schema rows' := by
  funext key
  have hmap : ∀ rs : List Row, keyMap schema rs key =
      ((rs.map (rowKey schema)).findIdx? (· == some key)).map Int.ofNat := by
    intro rs
    rw [List.findIdx?_map]
    rfl
  rw [hmap, hmap, h]

theorem maxKey_congr {schema : Schema} {rows rows' : List Row} (h : SameKeys schema rows rows') :
    maxKey schema rows = maxKey schema rows' := by
  have hmap : ∀ rs : List Row, maxKey schema rs =
      (rs.map (rowKey schema)).foldl (fun m key => max m (key.getD 0)) 0 := by
    intro rs
    rw [List.foldl_map]
    rfl
  rw [hmap, hmap, h]

theorem Keyed.congr {schema : Schema} {rows rows' : List Row} (h : SameKeys schema rows rows')
    (hrows : Keyed schema rows) (htyped : ∀ row ∈ rows', WellTyped schema row) :
    Keyed schema rows' := by
  refine ⟨htyped, fun row hrow => ?_, h ▸ hrows.distinct⟩
  have hmem : rowKey schema row ∈ rows.map (rowKey schema) := h ▸ List.mem_map_of_mem hrow
  obtain ⟨other, hother, hkey⟩ := List.mem_map.mp hmem
  obtain ⟨key, hother⟩ := hrows.keys other hother
  exact ⟨key, hkey ▸ hother⟩

/-! ## Loading succeeds -/

theorem validateLoadedRowset_of_typed {schema : Schema} {rows : List Row}
    (h : ∀ row ∈ rows, WellTyped schema row) : validateLoadedRowset schema rows = .ok () := by
  induction rows with
  | nil => rfl
  | cons row rows ih =>
    obtain ⟨hrow, hrows⟩ := List.forall_mem_cons.mp h
    have hlen : row.length = schema.columnCount := hrow.length_eq.symm
    have hcheck : checkFields validateLoadedValue schema.columns row = .ok () :=
      (checkFields_ok_iff (fun _ _ => checkValue_ok_iff) hlen).mpr hrow
    simp [validateLoadedRowset, hlen, hcheck, ih hrows]

/-- In keyed rows the key of a row is new to the rows in front of it. -/
theorem Keyed.new_key {schema : Schema} {loaded rows : List Row} {row : Row} {key : Int}
    (h : Keyed schema (loaded ++ row :: rows)) (hkey : rowKey schema row = some key) :
    keyMap schema loaded key = none := by
  rw [keyMap_eq_none]
  intro other hother hsame
  have hnodup := h.distinct
  rw [List.map_append, List.map_cons, List.nodup_append] at hnodup
  exact hnodup.2.2 _ (List.mem_map_of_mem hother) _ List.mem_cons_self (hsame.trans hkey.symm)

theorem buildIndex_ok {schema : Schema} {loaded rows : List Row} {index : BPTree}
    (hkeyed : Keyed schema (loaded ++ rows)) (hindex : Represents index (keyMap schema loaded)) :
    ∃ index', buildIndex schema rows loaded.length index (maxKey schema loaded) =
        some (.ok (index', maxKey schema (loaded ++ rows))) ∧
      Represents index' (keyMap schema (loaded ++ rows)) := by
  induction rows generalizing loaded index with
  | nil => exact ⟨index, by simp [buildIndex], by simpa using hindex⟩
  | cons row rows ih =>
    obtain ⟨key, hkey⟩ := hkeyed.keys row (by simp)
    obtain ⟨field, hfield, rfl⟩ := Option.map_eq_some_iff.mp hkey
    have hnew := hkeyed.new_key hkey
    obtain ⟨next, hins, hrep⟩ := insert_new hindex hnew loaded.length
    have hcons : loaded ++ row :: rows = (loaded ++ [row]) ++ rows := by simp
    have hmax : (if atoi field > maxKey schema loaded then atoi field
        else maxKey schema loaded) = maxKey schema (loaded ++ [row]) := by
      rw [maxKey_append, hkey, Option.getD_some]
      omega
    have hlen : loaded.length + 1 = (loaded ++ [row]).length := by simp
    rw [hcons] at hkeyed ⊢
    obtain ⟨index', hbuild, hrep'⟩ := ih hkeyed
      (represents_congr hrep fun k => (keyMap_append loaded hkey hnew k).symm)
    refine ⟨index', ?_, hrep'⟩
    simp only [buildIndex, hfield, hins, hmax, hlen, hbuild]

/-- Keyed rows in a file load. -/
theorem loadRows_ok {schema : Schema} (tableName : Bytes) {file : Bytes} {rows : List Row}
    (hrows : readCsvRows file schema.columnCount = .ok rows) (hkeyed : Keyed schema rows)
    (hpk : 0 ≤ schema.primaryKeyIndex) :
    ∃ index, loadRows schema tableName file = some (.ok ⟨tableName.take 255, schema, rows, index,
        initialNextId (maxKey schema rows)⟩) ∧ Represents index (keyMap schema rows) := by
  obtain ⟨index, hbuild, hrep⟩ := buildIndex_ok (show Keyed schema ([] ++ rows) from hkeyed)
    represents_create
  rw [List.nil_append] at hbuild hrep
  refine ⟨index, ?_, hrep⟩
  have hbuild : buildIndex schema rows 0 bptreeCreate 0 = some (.ok (index, maxKey schema rows)) :=
    hbuild
  simp [loadRows, hrows, indexRows, validateLoadedRowset_of_typed hkeyed.typed, Int.not_lt.mpr hpk, hbuild]

end MiniSql.Index
