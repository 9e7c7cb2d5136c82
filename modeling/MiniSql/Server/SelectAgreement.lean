import MiniSql.Query.PlainTable
import MiniSql.Server.SqlService

/-!
# Two implementations of SELECT

`execute_select` prints rows and `build_select_payload` writes objects, each with
its own loops and checks. `selection` says what a SELECT is: the table that it
finds or loads, and the positions of the rows that meet its condition. On the
tables that loading and inserting lead to, both functions follow it; the checks of
the fields that only the payload makes never fail there.
-/

namespace MiniSql.Server

open Storage Index Query

/-! ## What a SELECT is -/

/-- The test that a condition stands for. -/
def selectTest (schema : Schema) : Option Condition → Except SqlError (Row → Bool)
  | none => .ok fun _ => true
  | some condition =>
    if condition.column = ascii "id" then
      if isIntegerString condition.value = false then .error idNotInteger
      else .ok fun row => rowKey schema row = some (atoi condition.value)
    else
      match findColumnIndex schema condition.column with
      | none => .error (unknownColumn condition.column)
      | some columnIndex => .ok fun row => row[columnIndex]? = some condition.value

/-- The positions of the rows that meet a test. -/
def positions (rows : List Row) (test : Row → Bool) : List Nat :=
  (rows.zipIdx.filter fun entry => test entry.1).map Prod.snd

def rowsAt (rows : List Row) (indices : List Nat) : List Row :=
  indices.filterMap fun index => rows[index]?

/-- The database behind a SELECT, and its table with the positions it selects. -/
def selection (query : Query) (db : Db) : Option (Db × Except SqlError (TableState × List Nat)) :=
  match dbContextGetTable db query.tableName with
  | none => none
  | some (db, .error e) => some (db, .error e)
  | some (db, .ok position) =>
    match db.ctx.tables[position]? with
    | none => none
    | some table =>
      some (db, (selectTest table.schema query.condition).map fun test =>
        (table, positions table.rows test))

/-- What `execute_select` prints for rows of a table. -/
def printedRows (selected : TableState × List Nat) : List Printed :=
  .header selected.1.schema :: (rowsAt selected.1.rows selected.2).map .row

/-- A member of a row object. -/
def memberText (column : ColumnDef) (field : Bytes) : Bytes :=
  sqlJsonQuote column.name ++ ascii ":" ++
    if column.type = .string then sqlJsonQuote field else field

/-- The object of a row whose fields pass the checks of their columns. -/
def objectText (schema : Schema) (row : Row) : Bytes :=
  ascii "\x7b" ++ [comma].intercalate (List.zipWith memberText schema.columns row) ++ ascii "\x7d"

/-- The payload of `build_select_payload` for rows of a table. -/
def payloadRows (tableName : Bytes) (selected : TableState × List Nat) : Bytes :=
  selectPayload tableName ((rowsAt selected.1.rows selected.2).map (objectText selected.1.schema))

theorem rowsAt_positions (rows : List Row) (test : Row → Bool) :
    rowsAt rows (positions rows test) = rows.filter test := by
  have hfirst : (rows.zipIdx.filter fun entry => test entry.1).filterMap (fun entry => rows[entry.2]?) =
      (rows.zipIdx.filter fun entry => test entry.1).map Prod.fst := by
    rw [← List.filterMap_eq_map]
    apply List.filterMap_congr
    intro entry hentry
    exact List.mem_zipIdx_iff_getElem?.mp (List.mem_filter.mp hentry).1
  calc rowsAt rows (positions rows test)
      = (rows.zipIdx.filter fun entry => test entry.1).filterMap (fun entry => rows[entry.2]?) := by
        rw [rowsAt, positions, List.filterMap_map]
        rfl
    _ = (rows.zipIdx.filter fun entry => test entry.1).map Prod.fst := hfirst
    _ = (rows.zipIdx.map Prod.fst).filter test := (List.filter_map ..).symm
    _ = rows.filter test := by rw [List.zipIdx_map_fst]

/-! ## Rows -/

section

variable {table : TableState} (ht : table.Valid)
include ht

/-- The rows that the index finds under an id. -/
theorem filter_rowKey (id : Int) :
    (∃ found, bptreeSearch table.index id = some (false, found) ∧
      (table.rows.filter fun row => rowKey table.schema row = some id) = []) ∨
    ∃ (position : Nat) (row : Row), bptreeSearch table.index id = some (true, (position : Int)) ∧
      table.rows[position]? = some row ∧
      (table.rows.filter fun row => rowKey table.schema row = some id) = [row] := by
  have hsearch := search_represents ht.index id
  cases hmap : keyMap table.schema table.rows id with
  | none =>
    left
    rw [hmap] at hsearch
    refine ⟨_, hsearch, List.filter_eq_nil_iff.mpr fun row hrow => ?_⟩
    simpa using keyMap_eq_none.mp hmap row hrow
  | some i =>
    right
    obtain ⟨position, -, rfl⟩ := Option.map_eq_some_iff.mp hmap
    obtain ⟨row, hrow, hkey⟩ := (keyMap_eq_some ht.keyed).mp hmap
    rw [hmap] at hsearch
    refine ⟨position, row, hsearch, hrow, ?_⟩
    rw [← hkey]
    exact filter_key_unique _ ht.keyed.distinct (List.mem_of_getElem? hrow)

theorem columnIndex_lt {column : Bytes} {columnIndex : Nat}
    (hfind : findColumnIndex table.schema column = some columnIndex) :
    ∀ row ∈ table.rows, columnIndex < row.length := by
  intro row hrow
  rw [(wellTyped_fields (ht.keyed.typed row hrow)).1]
  exact (List.findIdx?_eq_some_iff_getElem.mp hfind).1

theorem selectRows_eq (condition : Option Condition) :
    selectRows table condition =
      some ((selectTest table.schema condition).map fun test => table.rows.filter test) := by
  cases condition with
  | none => simp [selectRows, selectTest, Except.map]
  | some condition =>
    by_cases hid : condition.column = ascii "id"
    · by_cases hint : isIntegerString condition.value = false
      · simp [selectRows, selectTest, hid, hint, Except.map]
      · rcases filter_rowKey ht (atoi condition.value) with ⟨found, hsearch, hfilter⟩ |
          ⟨position, row, hsearch, hrow, hfilter⟩
        · simp [selectRows, selectTest, hid, hint, hsearch, hfilter, Except.map]
        · simp [selectRows, selectTest, hid, hint, hsearch, hrow, hfilter, Except.map]
    · rcases hfind : findColumnIndex table.schema condition.column with _ | columnIndex
      · simp [selectRows, selectTest, hid, hfind, Except.map]
      · simp [selectRows, selectTest, hid, hfind, Except.map,
          scanRows_eq condition.value (columnIndex_lt ht hfind)]

end

/-! ## Objects -/

theorem jsonValue_ok {column : ColumnDef} {field : Bytes} (h : matchesType column field = true) :
    jsonValue column field = .ok (if column.type = .string then sqlJsonQuote field else field) := by
  unfold matchesType at h
  unfold jsonValue
  cases htype : column.type <;> simp_all

theorem rowMembers_eq {columns : List ColumnDef} {row : Row}
    (h : List.Forall₂ (fun column field => matchesType column field = true) columns row) :
    rowMembers columns row = some (.ok (List.zipWith memberText columns row)) := by
  induction h with
  | nil => rfl
  | cons hfield _ ih => simp [rowMembers, jsonValue_ok hfield, ih, andThen, memberText]

theorem rowObject_eq {schema : Schema} {row : Row} (h : WellTyped schema row) :
    rowObject schema row = some (.ok (objectText schema row)) := by
  simp [rowObject, rowMembers_eq h, andThen, objectText]

theorem rowObjects_eq {schema : Schema} {selects : Row → Option Bool} {test : Row → Bool}
    {rows : List Row} (htest : ∀ row ∈ rows, selects row = some (test row))
    (htyped : ∀ row ∈ rows, WellTyped schema row) :
    rowObjects schema selects rows = some (.ok ((rows.filter test).map (objectText schema))) := by
  induction rows with
  | nil => rfl
  | cons row rows ih =>
    obtain ⟨hrow, htest⟩ := List.forall_mem_cons.mp htest
    obtain ⟨hobject, htyped⟩ := List.forall_mem_cons.mp htyped
    have ih := ih htest htyped
    cases hval : test row with
    | false => simp [rowObjects, hrow, hval, ih]
    | true => simp [rowObjects, hrow, hval, ih, rowObject_eq hobject, andThen]

theorem selectObjects_eq {table : TableState} (ht : table.Valid) (condition : Option Condition) :
    selectObjects table condition =
      some ((selectTest table.schema condition).map fun test =>
        (table.rows.filter test).map (objectText table.schema)) := by
  have htyped := ht.keyed.typed
  cases condition with
  | none =>
    simp only [selectObjects, selectTest, Except.map]
    exact rowObjects_eq (fun _ _ => rfl) htyped
  | some condition =>
    by_cases hid : condition.column = ascii "id"
    · by_cases hint : isIntegerString condition.value = false
      · simp [selectObjects, selectTest, hid, hint, Except.map]
      · rcases filter_rowKey ht (atoi condition.value) with ⟨found, hsearch, hfilter⟩ |
          ⟨position, row, hsearch, hrow, hfilter⟩
        · simp [selectObjects, selectTest, hid, hint, hsearch, hfilter, Except.map, foundObjects]
        · simp [selectObjects, selectTest, hid, hint, hsearch, hrow, hfilter, Except.map,
            foundObjects, rowObject_eq (htyped row (List.mem_of_getElem? hrow)), andThen]
    · rcases hfind : findColumnIndex table.schema condition.column with _ | columnIndex
      · simp [selectObjects, selectTest, hid, hfind, Except.map]
      · simp only [selectObjects, selectTest, hid, hfind, Except.map, if_false]
        refine rowObjects_eq (fun row hrow => ?_) htyped
        have hlt := columnIndex_lt ht hfind row hrow
        simp only [fieldEquals, List.getElem?_eq_getElem hlt, Option.map_some, Option.some.injEq]
        exact Bool.eq_iff_iff.mpr (by simp)

/-! ## Queries -/

theorem executeSelect_selection {db : Db} (hdb : Valid db) (query : Query) :
    executeSelect query db = (selection query db).map (Prod.map id (Except.map printedRows)) := by
  rcases hget : dbContextGetTable db query.tableName with _ | ⟨db', e | position⟩
  · simp [executeSelect, selection, hget]
  · simp [executeSelect, selection, hget, Except.map]
  · rcases hhere : db'.ctx.tables[position]? with _ | table
    · simp [executeSelect, selection, hget, hhere]
    · have ht := ((dbContextGetTable_got hget).valid hdb).tables table (List.mem_of_getElem? hhere)
      rcases htest : selectTest table.schema query.condition with e | test
      · simp [executeSelect, selection, hget, hhere, selectRows_eq ht, htest, Except.map]
      · simp [executeSelect, selection, hget, hhere, selectRows_eq ht, htest, Except.map,
          printedRows, rowsAt_positions]

theorem buildSelectPayload_selection {db : Db} (hdb : Valid db) (query : Query) :
    buildSelectPayload query db =
      (selection query db).map (Prod.map id (Except.map (payloadRows (query.tableName.getD [])))) := by
  rcases hget : dbContextGetTable db query.tableName with _ | ⟨db', e | position⟩
  · simp [buildSelectPayload, selection, hget]
  · simp [buildSelectPayload, selection, hget, Except.map]
  · rcases hhere : db'.ctx.tables[position]? with _ | table
    · simp [buildSelectPayload, selection, hget, hhere]
    · have ht := ((dbContextGetTable_got hget).valid hdb).tables table (List.mem_of_getElem? hhere)
      rcases htest : selectTest table.schema query.condition with e | test
      · simp [buildSelectPayload, selection, hget, hhere, selectObjects_eq ht, htest, Except.map]
      · simp [buildSelectPayload, selection, hget, hhere, selectObjects_eq ht, htest, Except.map,
          payloadRows, rowsAt_positions]

theorem selection_of_build {db : Db} (hdb : Valid db) {query : Query} {db' : Db}
    {out : Except SqlError Bytes} (h : buildSelectPayload query db = some (db', out)) :
    ∃ selected, selection query db = some (db', selected) ∧
      out = selected.map (payloadRows (query.tableName.getD [])) := by
  rw [buildSelectPayload_selection hdb, Option.map_eq_some_iff] at h
  obtain ⟨⟨db₁, selected⟩, hselection, hout⟩ := h
  cases hout
  exact ⟨selected, hselection, rfl⟩

/-- **Both implementations of SELECT agree.** In every state that a run reaches,
`execute_select` and `build_select_payload` lead to the same database and fail with
the same message or succeed together, for the rows at the same positions of the
same table; and they change nothing if the table is loaded. -/
theorem select_agrees {db : Db} (hdb : Reachable db) (query : Query) :
    executeSelect query db = (selection query db).map (Prod.map id (Except.map printedRows)) ∧
    buildSelectPayload query db =
      (selection query db).map (Prod.map id (Except.map (payloadRows (query.tableName.getD [])))) ∧
    ∀ tableName position table, query.tableName = some tableName →
      Loaded db tableName position table → ∃ out, selection query db = some (db, out) := by
  refine ⟨executeSelect_selection hdb.valid query, buildSelectPayload_selection hdb.valid query, ?_⟩
  intro tableName position table hname hloaded
  simp only [selection, hname, hloaded.getTable, hloaded.here]
  exact ⟨_, rfl⟩

/-- On the example directory. -/
theorem select_agrees_users :
    let query : Query := ⟨.select, some (ascii "users"), [], some ⟨ascii "name", ascii "bob"⟩⟩
    (selection query usersDb).map (fun out => out.2.toOption.map Prod.snd) = some (some [1]) ∧
    executeSelect query usersDb =
      (selection query usersDb).map (Prod.map id (Except.map printedRows)) := by
  intro query
  exact ⟨by decide +kernel, (select_agrees (.create usersDisk (ascii "db")) query).1⟩

end MiniSql.Server
