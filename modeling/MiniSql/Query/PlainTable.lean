import MiniSql.Query.Reachable

/-!
# A table as a plain list of rows

`Plain` is the table without its index, its row array and its counter: a list
of rows that INSERT appends to and SELECT filters. `executor_refines_plain` says
that over any sequence of queries the executor answers as this list does.
-/

namespace MiniSql.Query

open Storage Index

namespace Plain

variable (schema : Schema)

/-- The id of a row. -/
def id (row : Row) : Int := atoi ((keyField schema row).getD [])

/-- One more than the largest of 0 and the ids so far. -/
def nextId (rows : List Row) : Int := 1 + (rows.map (id schema)).foldl max 0

/-- The row that a list of values stands for, if their number fits. -/
def complete (rows : List Row) (values : List Bytes) : Option Row :=
  if values.length = schema.columns.length then some values
  else if schema.autoincrement = true ∧ schema.primaryKeyIndex = 0 ∧
      values.length + 1 = schema.columns.length then
    some (decimal (nextId schema rows) :: values)
  else none

def insert (rows : List Row) (values : List Bytes) : Option (List Row) :=
  match complete schema rows values with
  | none => none
  | some row =>
    if (∀ p ∈ schema.columns.zip row, matchesType p.1 p.2 = true) ∧
        ∀ other ∈ rows, id schema other ≠ id schema row then
      some (rows ++ [row])
    else none

def select (rows : List Row) : Option Condition → Option (List Row)
  | none => some rows
  | some condition =>
    if condition.column = ascii "id" then
      if isIntegerString condition.value then
        some (rows.filter fun row => id schema row = atoi condition.value)
      else none
    else
      match schema.columns.findIdx? (fun column => column.name == condition.column) with
      | none => none
      | some i => some (rows.filter fun row => row[i]? = some condition.value)

/-- The rows after a query, and the rows it answers with, or `none` if it fails. -/
def step (rows : List Row) (query : Query) : List Row × Option (List Row) :=
  match query.type with
  | .select => (rows, select schema rows query.condition)
  | .insert =>
    match insert schema rows query.values with
    | none => (rows, none)
    | some rows' => (rows', some [])

def run (rows : List Row) : List Query → List Row × List (Option (List Row))
  | [] => (rows, [])
  | query :: queries =>
    let next := step schema rows query
    let rest := run next.1 queries
    (rest.1, next.2 :: rest.2)

end Plain

/-- `execute_query` for one query after the other: the database afterwards and
the output of each. -/
def runQueries (db : Db) : List Query → Option (Db × List (Except SqlError (List Printed)))
  | [] => some (db, [])
  | query :: queries =>
    match executeQuery query db with
    | none => none
    | some (db, out) =>
      match runQueries db queries with
      | none => none
      | some (db, outs) => some (db, out :: outs)

def Printed.row? : Printed → Option Row
  | .row fields => some fields
  | _ => none

/-- The rows in the output of a query, or `none` if it failed. -/
def answer : Except SqlError (List Printed) → Option (List Row)
  | .error _ => none
  | .ok printed => some (printed.filterMap Printed.row?)

/-! ## Plain facts -/

theorem filter_key_unique {α β : Type} [DecidableEq β] (key : α → β) {xs : List α}
    (hnodup : (xs.map key).Nodup) {x : α} (hx : x ∈ xs) :
    xs.filter (fun y => key y = key x) = [x] := by
  induction xs with
  | nil => simp at hx
  | cons y ys ih =>
    rw [List.map_cons, List.nodup_cons] at hnodup
    rcases List.mem_cons.mp hx with rfl | hx
    · have hnone : ys.filter (fun y => key y = key x) = [] := by
        rw [List.filter_eq_nil_iff]
        intro z hz hzx
        exact hnodup.1 (List.mem_map.mpr ⟨z, hz, by simpa using hzx⟩)
      simp [hnone]
    · have hy : key y ≠ key x := fun h => hnodup.1 (h ▸ List.mem_map_of_mem hx)
      simp [hy, ih hnodup.2 hx]

theorem Plain.nextId_append (schema : Schema) (rows : List Row) (row : Row) :
    Plain.nextId schema (rows ++ [row]) =
      max (Plain.nextId schema rows) (Plain.id schema row + 1) := by
  simp only [Plain.nextId, List.map_append, List.map_singleton, List.foldl_append,
    List.foldl_cons, List.foldl_nil]
  omega

theorem Plain.le_nextId (schema : Schema) (rows : List Row) :
    1 ≤ Plain.nextId schema rows ∧ ∀ row ∈ rows, Plain.id schema row < Plain.nextId schema rows := by
  induction rows using List.reverseRecOn with
  | nil => simp [Plain.nextId]
  | append_singleton rows row ih =>
    rw [Plain.nextId_append]
    refine ⟨by omega, fun r hr => ?_⟩
    rcases List.mem_append.mp hr with hr | hr
    · have := ih.2 r hr
      omega
    · rw [List.mem_singleton.mp hr]
      omega

theorem Plain.nextId_le {schema : Schema} {rows : List Row}
    (h : ∀ row ∈ rows, Plain.id schema row ≠ intMax) : Plain.nextId schema rows ≤ intMax := by
  induction rows using List.reverseRecOn with
  | nil => simp [Plain.nextId, intMax]
  | append_singleton rows row ih =>
    obtain ⟨hrows, hrow⟩ := List.forall_mem_append.mp h
    have hle : Plain.id schema row ≤ intMax := (atoi_range _).2
    have hne := hrow row (List.mem_singleton.mpr rfl)
    have := ih hrows
    rw [Plain.nextId_append]
    omega

/-- The rows of a plain table only grow. -/
theorem Plain.step_prefix (schema : Schema) (rows : List Row) (query : Query) :
    rows <+: (Plain.step schema rows query).1 := by
  unfold Plain.step
  split
  · exact List.prefix_refl _
  · split
    · exact List.prefix_refl _
    · rename_i rows' hins
      unfold Plain.insert at hins
      split at hins
      · cases hins
      · split at hins
        · cases hins
          exact List.prefix_append _ _
        · cases hins

theorem Plain.run_prefix (schema : Schema) (rows : List Row) (queries : List Query) :
    rows <+: (Plain.run schema rows queries).1 := by
  induction queries generalizing rows with
  | nil => exact List.prefix_refl _
  | cons query queries ih => exact (Plain.step_prefix schema rows query).trans (ih _)

/-! ## The table in memory -/

section Refinement

variable {schema : Schema} (hkey : schema.primaryKeyIndex.toNat < schema.columns.length)
include hkey

theorem rowKey_eq_id {row : Row} (hrow : WellTyped schema row) :
    rowKey schema row = some (Plain.id schema row) := by
  have hlt : schema.primaryKeyIndex.toNat < row.length := by
    rw [(wellTyped_fields hrow).1]
    exact hkey
  simp [rowKey, Plain.id, keyField, hlt]

theorem maxKey_eq_nextId {rows : List Row} (hrows : ∀ row ∈ rows, WellTyped schema row) :
    maxKey schema rows + 1 = Plain.nextId schema rows := by
  induction rows using List.reverseRecOn with
  | nil => rfl
  | append_singleton rows row ih =>
    obtain ⟨hrows, hrow⟩ := List.forall_mem_append.mp hrows
    have hid := rowKey_eq_id hkey (hrow row (List.mem_singleton.mpr rfl))
    rw [maxKey_append, Plain.nextId_append, ← ih hrows, hid, Option.getD_some]
    omega

end Refinement

/-- A table in memory that stands for a plain list of rows. -/
structure Holds (table : TableState) (schema : Schema) (rows : List Row) : Prop where
  valid : table.Valid
  schema_eq : table.schema = schema
  rows_eq : table.rows = rows
  nextId : table.nextId = Plain.nextId schema rows
  key : schema.primaryKeyIndex.toNat < schema.columns.length

theorem insertFields_plain {table : TableState} {schema : Schema} {rows : List Row}
    (h : Holds table schema rows) (values : List Bytes) :
    insertFields table values = match Plain.complete schema rows values with
      | none => .error countMismatch
      | some row => .ok row := by
  obtain ⟨-, rfl, rfl, hnext, hkey⟩ := h
  have hcount : (values.length : Int) = table.schema.columnCount - 1 ↔
      values.length + 1 = table.schema.columns.length := by
    unfold Schema.columnCount
    omega
  unfold insertFields Plain.complete
  rw [hnext]
  simp only [hcount]
  by_cases hall : values.length = table.schema.columns.length
  · simp [Schema.columnCount, hall]
  · simp only [Schema.columnCount, hall, if_false]
    split <;> rfl

/-- The test of the plain INSERT, in terms of the table's schema and keys. -/
theorem accepts_iff {table : TableState} (ht : table.Valid)
    (hkey : table.schema.primaryKeyIndex.toNat < table.schema.columns.length) {row : Row}
    (hlen : row.length = table.schema.columnCount) :
    ((∀ p ∈ table.schema.columns.zip row, matchesType p.1 p.2 = true) ∧
      ∀ other ∈ table.rows, Plain.id table.schema other ≠ Plain.id table.schema row) ↔
    WellTyped table.schema row ∧
      keyMap table.schema table.rows (Plain.id table.schema row) = none := by
  refine and_congr ?_ ?_
  · rw [WellTyped, List.forall₂_iff_zip]
    exact ⟨fun hall => ⟨hlen.symm, fun hmem => hall _ hmem⟩, fun hall p hp => hall.2 hp⟩
  · rw [keyMap_eq_none]
    refine forall₂_congr fun other hother => ?_
    rw [rowKey_eq_id hkey (ht.keyed.typed other hother), ne_eq, ne_eq, Option.some.injEq]

/-- The check of an INSERT against the plain table. -/
theorem prepareInsert_plain {table : TableState} {schema : Schema} {rows : List Row}
    (h : Holds table schema rows) (values : List Bytes) :
    match Plain.insert schema rows values with
    | none => ∃ e, prepareInsert table values = some (.error e)
    | some rows' => ∃ fields id, prepareInsert table values = some (.ok (fields, id)) ∧
        rows' = rows ++ [fields] := by
  have hfields := insertFields_plain h values
  obtain ⟨hvalid, rfl, rfl, -, hkey⟩ := h
  unfold Plain.insert
  cases hcomplete : Plain.complete table.schema table.rows values with
  | none =>
    rw [hcomplete] at hfields
    exact ⟨countMismatch, by simp only [prepareInsert, hfields]⟩
  | some row =>
    rw [hcomplete] at hfields
    have hlen := insertFields_length hfields
    have hcheck : checkFields validateValue table.schema.columns row = .ok () ↔
        WellTyped table.schema row := checkFields_ok_iff (fun _ _ => checkValue_ok_iff) hlen
    dsimp only
    by_cases hrow : WellTyped table.schema row
    · have hok := hcheck.mpr hrow
      obtain ⟨field, hfield, hatoi⟩ := Option.map_eq_some_iff.mp (rowKey_eq_id hkey hrow)
      have hsearch := search_represents hvalid.index (Plain.id table.schema row)
      cases hnew : keyMap table.schema table.rows (Plain.id table.schema row) with
      | none =>
        rw [if_pos ((accepts_iff hvalid hkey hlen).mpr ⟨hrow, hnew⟩)]
        exact ⟨row, Plain.id table.schema row,
          by simp [prepareInsert, hfields, hok, hfield, hatoi, hsearch, hnew, found], rfl⟩
      | some r =>
        rw [if_neg fun hc => by simpa [hnew] using ((accepts_iff hvalid hkey hlen).mp hc).2]
        exact ⟨duplicateId (Plain.id table.schema row),
          by simp [prepareInsert, hfields, hok, hfield, hatoi, hsearch, hnew, found]⟩
    · rw [if_neg fun hc => hrow ((accepts_iff hvalid hkey hlen).mp hc).1]
      cases hres : checkFields validateValue table.schema.columns row with
      | error e => exact ⟨e, by simp only [prepareInsert, hfields, hres]⟩
      | ok u => exact absurd (hcheck.mp hres) hrow

theorem scanRows_eq {columnIndex : Nat} (value : Bytes) {rows : List Row}
    (hrows : ∀ row ∈ rows, columnIndex < row.length) :
    scanRows columnIndex value rows =
      some (rows.filter fun row => row[columnIndex]? = some value) := by
  induction rows with
  | nil => rfl
  | cons row rows ih =>
    obtain ⟨hrow, hrows⟩ := List.forall_mem_cons.mp hrows
    have hfield : row[columnIndex]? = some row[columnIndex] := List.getElem?_eq_getElem hrow
    rw [scanRows, ih hrows, hfield]
    by_cases hval : row[columnIndex] = value
    · simp [hval, hfield]
    · simp [hval, hfield]

/-- The rows with a given id, by the index and by scan. -/
theorem filter_id_eq {table : TableState} (ht : table.Valid)
    (hkey : table.schema.primaryKeyIndex.toNat < table.schema.columns.length) (key : Int) :
    (table.rows.filter fun row => Plain.id table.schema row = key) =
      match keyMap table.schema table.rows key with
      | none => []
      | some i => (table.rows[i.toNat]?).toList := by
  have hid : ∀ row ∈ table.rows, rowKey table.schema row = some (Plain.id table.schema row) :=
    fun row hrow => rowKey_eq_id hkey (ht.keyed.typed row hrow)
  cases hmap : keyMap table.schema table.rows key with
  | none =>
    rw [List.filter_eq_nil_iff]
    intro row hrow heq
    have := keyMap_eq_none.mp hmap row hrow
    simp [hid row hrow] at this heq
    exact this heq
  | some i =>
    obtain ⟨position, -, rfl⟩ := Option.map_eq_some_iff.mp hmap
    obtain ⟨row, hrow, hrowKey⟩ := (keyMap_eq_some ht.keyed).mp hmap
    have hmem := List.mem_of_getElem? hrow
    rw [hid row hmem, Option.some.injEq] at hrowKey
    subst hrowKey
    have hnodup : (table.rows.map (Plain.id table.schema)).Nodup := by
      have hsome : (table.rows.map (Plain.id table.schema)).map some =
          table.rows.map (rowKey table.schema) := by
        rw [List.map_map]
        exact List.map_congr_left fun row hrow => (hid row hrow).symm
      exact (hsome ▸ ht.keyed.distinct : List.Nodup _).of_map
    rw [filter_key_unique _ hnodup hmem]
    simp [hrow]

/-- A SELECT answers as the plain table does. -/
theorem selectRows_plain {table : TableState} {schema : Schema} {rows : List Row}
    (h : Holds table schema rows) (condition : Option Condition) :
    match Plain.select schema rows condition with
    | none => ∃ e, selectRows table condition = some (.error e)
    | some selected => selectRows table condition = some (.ok selected) := by
  obtain ⟨hvalid, rfl, rfl, -, hkey⟩ := h
  cases condition with
  | none => rfl
  | some condition =>
    by_cases hcolumn : condition.column = ascii "id"
    · by_cases hint : isIntegerString condition.value = true
      · simp only [Plain.select, hcolumn, if_true, hint, selectRows, Bool.true_eq_false, if_false,
          filter_id_eq hvalid hkey, search_represents hvalid.index]
        cases hmap : keyMap table.schema table.rows (atoi condition.value) with
        | none => rfl
        | some i =>
          obtain ⟨position, -, rfl⟩ := Option.map_eq_some_iff.mp hmap
          obtain ⟨row, hrow, -⟩ := (keyMap_eq_some hvalid.keyed).mp hmap
          simp [found, hrow]
      · simp only [Bool.not_eq_true] at hint
        simp [Plain.select, hcolumn, hint, selectRows]
    · simp only [Plain.select, hcolumn, if_false, selectRows, findColumnIndex]
      cases hfind : table.schema.columns.findIdx? (fun column => column.name == condition.column) with
      | none => exact ⟨_, rfl⟩
      | some i =>
        have hi : i < table.schema.columns.length := (List.findIdx?_eq_some_iff_getElem.mp hfind).1
        have hrows : ∀ row ∈ table.rows, i < row.length := by
          intro row hrow
          rw [(wellTyped_fields (hvalid.keyed.typed row hrow)).1]
          exact hi
        simp only [scanRows_eq condition.value hrows]

/-! ## Runs -/

/-- The table is in memory with the given rows, or will be when it is loaded. -/
inductive Represented (db : Db) (tableName : Bytes) (schema : Schema) (rows : List Row) : Prop
  | loaded {position : Nat} {table : TableState} (here : Loaded db tableName position table)
      (holds : Holds table schema rows)
  | unloaded {table : TableState} (absent : findTable db.ctx.tables tableName = none)
      (load : tableStateLoad db.disk db.ctx.dbRoot tableName = some (.ok table))
      (holds : Holds table schema rows)

theorem Represented.getTable {db : Db} {tableName : Bytes} {schema : Schema} {rows : List Row}
    (h : Represented db tableName schema rows) :
    ∃ db' position table, dbContextGetTable db (some tableName) = some (db', .ok position) ∧
      Loaded db' tableName position table ∧ Holds table schema rows := by
  cases h with
  | loaded hhere hholds => exact ⟨db, _, _, hhere.getTable, hhere, hholds⟩
  | @unloaded table habsent hload hholds =>
    obtain ⟨hget, hloaded⟩ := loaded_of_load habsent hload
    exact ⟨_, _, table, hget, hloaded, hholds⟩

/-- An accepted INSERT keeps a table in step with the plain list. -/
theorem Holds.insert {table : TableState} {schema : Schema} {rows : List Row}
    (h : Holds table schema rows) {values : List Bytes} {fields : Row} {id : Int}
    (hprep : Prepared table values fields id) (hmax : Plain.id schema fields ≠ intMax) :
    ∃ index, bptreeInsert allocated table.index id table.rows.length = some (index, .ok ()) ∧
      Holds (insertedTable table fields id index) schema (rows ++ [fields]) := by
  obtain ⟨index, hins, hvalid⟩ := hprep.insert h.valid
  have hid : Plain.id schema fields = id := by
    have := hprep.key
    rw [h.schema_eq, rowKey_eq_id h.key (h.schema_eq ▸ hprep.typed)] at this
    exact Option.some.inj this
  refine ⟨index, hins, hvalid, h.schema_eq, by simp [insertedTable, h.rows_eq], ?_, h.key⟩
  have hrange : -2 ^ 31 ≤ id ∧ id ≤ intMax := hid ▸ atoi_range _
  have hwrap : toInt32 (id + 1) = id + 1 := by
    have : id ≠ intMax := hid ▸ hmax
    exact toInt32_of_range (by omega) (by unfold intMax at *; omega)
  rw [Plain.nextId_append, hid]
  simp only [insertedTable, nextIdAfter, h.nextId, hwrap]
  omega

theorem executeQuery_plain {db : Db} {tableName : Bytes} {schema : Schema} {rows : List Row}
    (h : Represented db tableName schema rows) {query : Query} (hname : query.tableName = some tableName)
    (hmax : ∀ row ∈ (Plain.step schema rows query).1, Plain.id schema row ≠ intMax) :
    ∃ db' out, executeQuery query db = some (db', out) ∧
      Represented db' tableName schema (Plain.step schema rows query).1 ∧
      answer out = (Plain.step schema rows query).2 := by
  obtain ⟨db₁, position, table, hget, hloaded, hholds⟩ := h.getTable
  unfold Plain.step at hmax ⊢
  unfold executeQuery
  cases htype : query.type with
  | select =>
    have hselect := selectRows_plain hholds query.condition
    simp only [executeSelect, hname, hget, hloaded.here]
    cases hplain : Plain.select schema rows query.condition with
    | none =>
      rw [hplain] at hselect
      obtain ⟨e, he⟩ := hselect
      exact ⟨db₁, .error e, by simp only [he], .loaded hloaded hholds, rfl⟩
    | some selected =>
      rw [hplain] at hselect
      refine ⟨db₁, .ok (.header table.schema :: selected.map .row), by simp only [hselect],
        .loaded hloaded hholds, ?_⟩
      simp [answer, List.filterMap_cons, Printed.row?, List.filterMap_map, Function.comp_def]
  | insert =>
    have hinsert := prepareInsert_plain hholds query.values
    simp only [htype] at hmax
    simp only [executeInsert, hname, hget, hloaded.here]
    cases hplain : Plain.insert schema rows query.values with
    | none =>
      rw [hplain] at hinsert
      obtain ⟨e, he⟩ := hinsert
      exact ⟨db₁, .error e, by simp only [he], .loaded hloaded hholds, rfl⟩
    | some rows' =>
      rw [hplain] at hinsert hmax
      obtain ⟨fields, id, hprep, rfl⟩ := hinsert
      obtain ⟨index, hins, hnext⟩ := hholds.insert (prepareInsert_ok hprep) (hmax fields (by simp))
      have hcommit := commitInsert_eq (prepareInsert_ok hprep) db₁ tableName position hins
      have hname' : (insertedTable table fields id index).name = table.name := rfl
      simp only [hprep, Option.getD_some]
      exact ⟨_, _, hcommit, .loaded (hloaded.set hname' _) hnext, rfl⟩

theorem runQueries_plain {db : Db} {tableName : Bytes} {schema : Schema} {rows : List Row}
    (h : Represented db tableName schema rows) {queries : List Query}
    (hname : ∀ query ∈ queries, query.tableName = some tableName)
    (hmax : ∀ row ∈ (Plain.run schema rows queries).1, Plain.id schema row ≠ intMax) :
    ∃ db' outs, runQueries db queries = some (db', outs) ∧
      Represented db' tableName schema (Plain.run schema rows queries).1 ∧
      outs.map answer = (Plain.run schema rows queries).2 := by
  induction queries generalizing db rows with
  | nil => exact ⟨db, [], rfl, h, rfl⟩
  | cons query queries ih =>
    obtain ⟨hfirst, hname⟩ := List.forall_mem_cons.mp hname
    have hpre := Plain.run_prefix schema (Plain.step schema rows query).1 queries
    obtain ⟨db₁, out, hstep, h₁, hout⟩ :=
      executeQuery_plain h hfirst fun row hrow => hmax row (hpre.subset hrow)
    obtain ⟨db₂, outs, hrun, h₂, houts⟩ := ih h₁ hname hmax
    refine ⟨db₂, out :: outs, ?_, h₂, ?_⟩
    · simp only [runQueries, hstep, hrun]
    · simp only [List.map_cons, hout, houts, Plain.run]

/-- What loading a table establishes for the plain model. -/
theorem holds_of_load {disk : Disk} {dbRoot tableName : Bytes} {table : TableState}
    (hload : tableStateLoad disk dbRoot tableName = some (.ok table))
    (hkey : table.schema.primaryKeyIndex.toNat < table.schema.columns.length)
    (hmax : ∀ row ∈ table.rows, Plain.id table.schema row ≠ intMax) :
    Holds table table.schema table.rows := by
  obtain ⟨text, file, -, -, -, hrows⟩ := tableStateLoad_ok hload
  obtain ⟨hvalid, -, -, -, -, hnext⟩ := loadRows_spec hrows
  refine ⟨hvalid, rfl, rfl, ?_, hkey⟩
  have hmaxKey := maxKey_eq_nextId hkey hvalid.keyed.typed
  have hlow := (Plain.le_nextId table.schema table.rows).1
  have hhigh := Plain.nextId_le hmax
  have hwrap : toInt32 (maxKey table.schema table.rows + 1) = maxKey table.schema table.rows + 1 :=
    toInt32_of_range (by omega) (by unfold intMax at hhigh; omega)
  rw [hnext, initialNextId, hwrap, hmaxKey, if_neg (by omega)]

/-- **The executor refines the plain table.** For a table that loads, with an int
primary key named id, any sequence of queries succeeds, fails and answers as on
the plain list of its rows, as long as no id reaches the largest `int`. -/
theorem executor_refines_plain {db : Db} {tableName : Bytes} {table : TableState}
    (habsent : findTable db.ctx.tables tableName = none)
    (hload : tableStateLoad db.disk db.ctx.dbRoot tableName = some (.ok table))
    (hkey : table.schema.columns[table.schema.primaryKeyIndex.toNat]? = some ⟨ascii "id", .int⟩)
    (queries : List Query) (hname : ∀ query ∈ queries, query.tableName = some tableName)
    (hmax : ∀ row ∈ (Plain.run table.schema table.rows queries).1,
      Plain.id table.schema row ≠ intMax) :
    ∃ db' outs, runQueries db queries = some (db', outs) ∧
      outs.map answer = (Plain.run table.schema table.rows queries).2 := by
  have hlt := (List.getElem?_eq_some_iff.mp hkey).1
  have hpre := Plain.run_prefix table.schema table.rows queries
  have hholds := holds_of_load hload hlt fun row hrow => hmax row (hpre.subset hrow)
  obtain ⟨db', outs, hrun, -, houts⟩ := runQueries_plain (.unloaded habsent hload hholds) hname hmax
  exact ⟨db', outs, hrun, houts⟩

theorem executor_refines_plain_users : ∃ db' outs,
    runQueries usersDb [⟨.insert, some (ascii "users"), [ascii "eve"], none⟩,
      ⟨.select, some (ascii "users"), [], some ⟨ascii "id", ascii "+8"⟩⟩] = some (db', outs) ∧
    outs.map answer = [some [], some [[ascii "8", ascii "eve"]]] := by
  have hrun : (tableStateLoad usersDb.disk usersDb.ctx.dbRoot (ascii "users")).map
      (fun r => r.toOption.map fun t => (t.schema, t.rows)) = some (some
        (⟨ascii "users", [⟨ascii "id", .int⟩, ⟨ascii "name", .string⟩], some (ascii "id"), 0, true⟩,
          [[ascii "1", ascii "ann"], [ascii "7", ascii "bob"]])) := by
    decide +kernel
  obtain ⟨loaded, hload, htable⟩ := Option.map_eq_some_iff.mp hrun
  cases loaded with
  | error e => simp [Except.toOption] at htable
  | ok table =>
    obtain ⟨hschema, hrows⟩ := Prod.mk.inj (Option.some.inj htable)
    obtain ⟨db', outs, h, houts⟩ := executor_refines_plain
      (rfl : findTable usersDb.ctx.tables (ascii "users") = none) hload
      (by rw [hschema]; decide)
      [⟨.insert, some (ascii "users"), [ascii "eve"], none⟩,
        ⟨.select, some (ascii "users"), [], some ⟨ascii "id", ascii "+8"⟩⟩]
      (by decide) (by rw [hschema, hrows]; decide +kernel)
    refine ⟨db', outs, h, houts.trans ?_⟩
    rw [hschema, hrows]
    decide +kernel

end MiniSql.Query
