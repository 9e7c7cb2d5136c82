import MiniSql.Query.PlainTable
import MiniSql.Lib.Isolation

/-!
# Tables do not interfere

All tables of a database share one context, one array of table states and one directory.
A query nevertheless reads and changes its own table only: what it answers and what it
leaves of the table is told by the view of this table, and every other table keeps its
view. Queries of different tables therefore commute.
-/

namespace MiniSql.Query

open Storage Index Isolation

/-- What a database holds of one table: its two files, and its state once it is loaded. -/
structure TableView where
  dbRoot : Bytes
  schemaText : Option Bytes
  file : Option Bytes
  loaded : Option TableState

def loadedTable (db : Db) (tableName : Bytes) : Option TableState :=
  (findTable db.ctx.tables tableName).bind fun position => db.ctx.tables[position]?

/-- The view of the table of a query; a query without a table name has none. -/
def tableView (tableName : Option Bytes) (db : Db) : TableView where
  dbRoot := db.ctx.dbRoot
  schemaText := tableName.bind db.disk.schemas
  file := tableName.bind db.disk.tables
  loaded := tableName.bind (loadedTable db)

namespace TableView

/-- `table_state_load` from the files in view. -/
def load (view : TableView) (tableName : Bytes) : Option (Except SqlError TableState) :=
  andThen (loadSchemaFile (missingSchema view.dbRoot tableName) tableName view.schemaText)
    (loadTable view.dbRoot tableName view.file)

/-- `db_context_get_table`, as far as one table can see it. -/
def getTable (view : TableView) : Option Bytes → Option (Except SqlError TableState)
  | none => some (.error (sqlSetError [ascii "db_context_get_table received invalid arguments"]))
  | some tableName =>
    match view.loaded with
    | some table => some (.ok table)
    | none => view.load tableName

/-- What a query does to its table. -/
def execute (tableName : Option Bytes) (query : Query) (view : TableView) :
    Option (TableView × Except SqlError (List Printed)) :=
  match view.getTable tableName with
  | none => none
  | some (.error e) => some (view, .error e)
  | some (.ok table) =>
    let view := { view with loaded := some table }
    match query.type with
    | .select =>
      match selectRows table query.condition with
      | none => none
      | some (.error e) => some (view, .error e)
      | some (.ok rows) => some (view, .ok (.header table.schema :: rows.map .row))
    | .insert =>
      match prepareInsert table query.values with
      | none => none
      | some (.error e) => some (view, .error e)
      | some (.ok (fields, id)) =>
        match bptreeInsert allocated table.index id table.rows.length with
        | some (index, .ok _) =>
          some ({ view with file := some (view.file.getD [] ++ csvLine fields),
                            loaded := some (insertedTable table fields id index) }, .ok [.insertDone])
        | _ => none

end TableView

/-! ## The table of the query -/

theorem load_view (db : Db) (tableName : Bytes) :
    (tableView (some tableName) db).load tableName =
      tableStateLoad db.disk db.ctx.dbRoot tableName := rfl

theorem Loaded.loadedTable {db : Db} {tableName : Bytes} {position : Nat} {table : TableState}
    (h : Loaded db tableName position table) : loadedTable db tableName = some table := by
  rw [Query.loadedTable, h.find, Option.bind_some, h.here]

theorem loadedTable_none {db : Db} {tableName : Bytes} (h : loadedTable db tableName = none) :
    findTable db.ctx.tables tableName = none := by
  cases hfind : findTable db.ctx.tables tableName with
  | none => rfl
  | some position =>
    obtain ⟨table, hhere, -⟩ := findTable_some hfind
    simp [loadedTable, hfind, hhere] at h

theorem loadedTable_some {db : Db} {tableName : Bytes} {table : TableState}
    (h : loadedTable db tableName = some table) : ∃ position, Loaded db tableName position table := by
  obtain ⟨position, hfind, hhere⟩ := Option.bind_eq_some_iff.mp h
  exact ⟨position, hfind, hhere⟩

/-- A database that has the table loaded, and is otherwise as before. -/
structure Gets (db db' : Db) (tableName : Bytes) (position : Nat) (table : TableState) : Prop where
  disk : db'.disk = db.disk
  dbRoot : db'.ctx.dbRoot = db.ctx.dbRoot
  loaded : Loaded db' tableName position table
  others : ∀ name, name ≠ tableName → loadedTable db' name = loadedTable db name

theorem loadedTable_append {db : Db} {table : TableState} {name : Bytes} (h : table.name ≠ name) :
    loadedTable ⟨db.disk, db.ctx.dbRoot, db.ctx.tables ++ [table]⟩ name = loadedTable db name := by
  have hfind : findTable (db.ctx.tables ++ [table]) name = findTable db.ctx.tables name := by
    simp [findTable, List.findIdx?_append, List.findIdx?_cons, h]
  cases hold : findTable db.ctx.tables name with
  | none => simp [loadedTable, hfind, hold]
  | some position =>
    obtain ⟨found, hhere, -⟩ := findTable_some hold
    have hlt := (List.getElem?_eq_some_iff.mp hhere).1
    simp [loadedTable, hfind, hold, List.getElem?_append_left hlt]

/-- What `db_context_get_table` does, by what the view of the table tells. -/
inductive GetsTable (db : Db) (tableName : Bytes) : Option (Except SqlError TableState) → Prop
  | undefined (get : dbContextGetTable db (some tableName) = none) : GetsTable db tableName none
  | failed {e : SqlError} (get : dbContextGetTable db (some tableName) = some (db, .error e)) :
      GetsTable db tableName (some (.error e))
  | got {db' : Db} {position : Nat} {table : TableState}
      (get : dbContextGetTable db (some tableName) = some (db', .ok position))
      (gets : Gets db db' tableName position table) : GetsTable db tableName (some (.ok table))

theorem getTable_view (db : Db) (tableName : Bytes) :
    GetsTable db tableName ((tableView (some tableName) db).getTable (some tableName)) := by
  cases hloaded : loadedTable db tableName with
  | some table =>
    obtain ⟨position, h⟩ := loadedTable_some hloaded
    simp only [TableView.getTable, tableView, Option.bind_some, hloaded]
    exact .got h.getTable ⟨rfl, rfl, h, fun _ _ => rfl⟩
  | none =>
    have habsent := loadedTable_none hloaded
    have hview : (tableView (some tableName) db).getTable (some tableName) =
        tableStateLoad db.disk db.ctx.dbRoot tableName := by
      simp only [TableView.getTable, tableView, Option.bind_some, hloaded]
      exact load_view db tableName
    rw [hview]
    cases hload : tableStateLoad db.disk db.ctx.dbRoot tableName with
    | none => exact .undefined (by simp only [dbContextGetTable, habsent, hload])
    | some result =>
      cases result with
      | error e => exact .failed (by simp only [dbContextGetTable, habsent, hload])
      | ok table =>
        obtain ⟨hget, hnew⟩ := loaded_of_load habsent hload
        refine .got hget ⟨rfl, rfl, hnew, ?_⟩
        intro name hname
        apply loadedTable_append
        rw [tableStateLoad_name hload]
        exact hname.symm

theorem Gets.view {db db' : Db} {tableName : Bytes} {position : Nat} {table : TableState}
    (h : Gets db db' tableName position table) :
    tableView (some tableName) db' = { tableView (some tableName) db with loaded := some table } := by
  simp only [tableView, h.dbRoot, h.disk, Option.bind_some, h.loaded.loadedTable]

theorem Gets.view_other {db db' : Db} {tableName : Bytes} {position : Nat} {table : TableState}
    (h : Gets db db' tableName position table) {name : Option Bytes} (hname : name ≠ some tableName) :
    tableView name db' = tableView name db := by
  cases name with
  | none => simp only [tableView, h.dbRoot, Option.bind_none]
  | some name =>
    have hother := h.others name fun heq => hname (congrArg some heq)
    simp only [tableView, h.dbRoot, h.disk, Option.bind_some, hother]

/-! ## The writes of an INSERT -/

/-- The database behind an accepted INSERT. -/
def insertedDb (db : Db) (tableName : Bytes) (position : Nat) (fields : Row) (new : TableState) : Db :=
  ⟨writeTable db.disk tableName ((db.disk.tables tableName).getD [] ++ csvLine fields),
    db.ctx.setTable position new⟩

theorem loadedTable_setTable {db : Db} {tableName : Bytes} {position : Nat} {table new : TableState}
    (h : Loaded db tableName position table) (hnew : new.name = table.name) (disk : Disk)
    {name : Bytes} (hname : name ≠ tableName) :
    loadedTable ⟨disk, db.ctx.setTable position new⟩ name = loadedTable db name := by
  have hfind : findTable (db.ctx.tables.set position new) name = findTable db.ctx.tables name := by
    rw [findTable_names, findTable_names, names_set h.here hnew]
  cases hold : findTable db.ctx.tables name with
  | none => simp [loadedTable, DbContext.setTable, hfind, hold]
  | some other =>
    obtain ⟨found, hhere, hfound⟩ := findTable_some hold
    have hne : position ≠ other := by
      rintro rfl
      rw [h.here, Option.some.injEq] at hhere
      rw [← hhere, h.name] at hfound
      exact hname hfound.symm
    simp [loadedTable, DbContext.setTable, hfind, hold, List.getElem?_set_ne hne]

theorem insertedDb_view {db : Db} {tableName : Bytes} {position : Nat} {table new : TableState}
    (h : Loaded db tableName position table) (hnew : new.name = table.name) (fields : Row) :
    tableView (some tableName) (insertedDb db tableName position fields new) =
      { tableView (some tableName) db with
        file := some ((db.disk.tables tableName).getD [] ++ csvLine fields), loaded := some new } := by
  have hloaded := (h.set hnew
    (writeTable db.disk tableName ((db.disk.tables tableName).getD [] ++ csvLine fields))).loadedTable
  simp only [tableView, insertedDb, Option.bind_some, hloaded]
  simp [writeTable, DbContext.setTable]

theorem insertedDb_view_other {db : Db} {tableName : Bytes} {position : Nat} {table new : TableState}
    (h : Loaded db tableName position table) (hnew : new.name = table.name) (fields : Row)
    {name : Option Bytes} (hname : name ≠ some tableName) :
    tableView name (insertedDb db tableName position fields new) = tableView name db := by
  cases name with
  | none => rfl
  | some name =>
    have hne : name ≠ tableName := fun heq => hname (congrArg some heq)
    simp only [tableView, insertedDb, Option.bind_some, loadedTable_setTable h hnew _ hne]
    simp only [writeTable, hne, if_false, DbContext.setTable]

/-! ## Queries -/

/-- What `execute_query` does, by what the view of the query's table tells. -/
inductive Executed (query : Query) (db : Db) :
    Option (TableView × Except SqlError (List Printed)) → Prop
  | undefined (run : executeQuery query db = none) : Executed query db none
  | answered {db' : Db} {view : TableView} {out : Except SqlError (List Printed)}
      (run : executeQuery query db = some (db', out))
      (here : tableView query.tableName db' = view)
      (others : ∀ name, name ≠ query.tableName → tableView name db' = tableView name db) :
      Executed query db (some (view, out))

/-- A query that fails before it has a table. -/
theorem executed_failed {query : Query} {db : Db} {e : SqlError}
    (hget : dbContextGetTable db query.tableName = some (db, .error e)) :
    Executed query db (some (tableView query.tableName db, .error e)) := by
  refine .answered ?_ rfl fun _ _ => rfl
  unfold executeQuery
  split
  · simp only [executeSelect, hget]
  · simp only [executeInsert, hget]

theorem executed_select {query : Query} {db db' : Db} {tableName : Bytes} {position : Nat}
    {table : TableState} (htype : query.type = .select) (hname : query.tableName = some tableName)
    (hget : dbContextGetTable db (some tableName) = some (db', .ok position))
    (hgets : Gets db db' tableName position table)
    (hview : (tableView (some tableName) db).getTable (some tableName) = some (.ok table)) :
    Executed query db ((tableView query.tableName db).execute query.tableName query) := by
  have hothers : ∀ name, name ≠ query.tableName → tableView name db' = tableView name db := by
    intro name hne
    rw [hname] at hne
    exact hgets.view_other hne
  have hhere : tableView query.tableName db' =
      { tableView query.tableName db with loaded := some table } := by
    rw [hname]
    exact hgets.view
  have hrun : executeQuery query db = executeSelect query db := by
    simp only [executeQuery, htype]
  rw [hname, TableView.execute, hview, ← hname]
  simp only [executeSelect, hname, hget, hgets.loaded.here] at hrun
  simp only [htype]
  cases hrows : selectRows table query.condition with
  | none =>
    rw [hrows] at hrun
    exact .undefined hrun
  | some result =>
    rw [hrows] at hrun
    cases result with
    | error e => exact .answered hrun hhere hothers
    | ok rows => exact .answered hrun hhere hothers

theorem executed_insert {query : Query} {db db' : Db} (hdb : Valid db) {tableName : Bytes}
    {position : Nat} {table : TableState} (htype : query.type = .insert)
    (hname : query.tableName = some tableName)
    (hget : dbContextGetTable db (some tableName) = some (db', .ok position))
    (hgets : Gets db db' tableName position table)
    (hview : (tableView (some tableName) db).getTable (some tableName) = some (.ok table)) :
    Executed query db ((tableView query.tableName db).execute query.tableName query) := by
  have hothers : ∀ name, name ≠ query.tableName → tableView name db' = tableView name db := by
    intro name hne
    rw [hname] at hne
    exact hgets.view_other hne
  have hhere : tableView query.tableName db' =
      { tableView query.tableName db with loaded := some table } := by
    rw [hname]
    exact hgets.view
  have hrun : executeQuery query db = executeInsert query db := by
    simp only [executeQuery, htype]
  rw [hname, TableView.execute, hview, ← hname]
  simp only [executeInsert, hname, hget, hgets.loaded.here, Option.getD_some] at hrun
  simp only [htype]
  cases hprep : prepareInsert table query.values with
  | none =>
    rw [hprep] at hrun
    exact .undefined hrun
  | some result =>
    rw [hprep] at hrun
    cases result with
    | error e => exact .answered hrun hhere hothers
    | ok accepted =>
      obtain ⟨fields, id⟩ := accepted
      have hvalid : table.Valid :=
        ((dbContextGetTable_got hget).valid hdb).tables table (List.mem_of_getElem? hgets.loaded.here)
      have hprepared := prepareInsert_ok hprep
      obtain ⟨index, hinsert, -⟩ := hprepared.insert hvalid
      dsimp only at hrun ⊢
      rw [commitInsert_eq hprepared db' tableName position hinsert] at hrun
      rw [hinsert]
      have hsame : (insertedTable table fields id index).name = table.name := rfl
      refine .answered hrun ?_ ?_
      · rw [hname]
        refine (insertedDb_view hgets.loaded hsame fields).trans ?_
        rw [hgets.view, hgets.disk]
        rfl
      · intro name hne
        rw [hname] at hne
        exact (insertedDb_view_other hgets.loaded hsame fields hne).trans (hgets.view_other hne)

theorem executeQuery_executed {db : Db} (hdb : Valid db) (query : Query) :
    Executed query db ((tableView query.tableName db).execute query.tableName query) := by
  cases hname : query.tableName with
  | none =>
    rw [← hname]
    have hget : dbContextGetTable db query.tableName = some (db, .error (sqlSetError
        [ascii "db_context_get_table received invalid arguments"])) := by
      rw [hname]
      rfl
    simpa only [TableView.execute, hname, TableView.getTable] using executed_failed hget
  | some tableName =>
    have hget := getTable_view db tableName
    generalize hview : (tableView (some tableName) db).getTable (some tableName) = got at hget
    cases hget with
    | undefined hget =>
      simp only [TableView.execute, hview]
      refine .undefined ?_
      unfold executeQuery
      split
      · simp only [executeSelect, hname, hget]
      · simp only [executeInsert, hname, hget]
    | failed hget =>
      simp only [TableView.execute, hview]
      rw [← hname] at hget ⊢
      exact executed_failed hget
    | got hget hgets =>
      rw [← hname]
      cases htype : query.type with
      | select => exact executed_select htype hname hget hgets hview
      | insert => exact executed_insert hdb htype hname hget hgets hview

/-- Each query is a step of its table alone. -/
theorem executeQuery_isolated :
    Isolated Valid executeQuery Query.tableName tableView TableView.execute where
  valid hdb hstep := executeQuery_valid hdb hstep
  acts := by
    intro db query hdb
    have hexecuted := executeQuery_executed hdb query
    generalize (tableView query.tableName db).execute query.tableName query = result at hexecuted
    cases hexecuted with
    | undefined hrun => rw [hrun, Option.map_none]
    | answered hrun hhere => rw [hrun, Option.map_some, hhere]
  frame := by
    intro db db' query out name hdb hstep hname
    have hexecuted := executeQuery_executed hdb query
    generalize (tableView query.tableName db).execute query.tableName query = result at hexecuted
    cases hexecuted with
    | undefined hrun =>
      rw [hstep] at hrun
      cases hrun
    | answered hrun _ hothers =>
      rw [hstep] at hrun
      cases hrun
      exact hothers name hname

theorem runQueries_eq_run (db : Db) (queries : List Query) :
    runQueries db queries = run executeQuery db queries := by
  induction queries generalizing db with
  | nil => rfl
  | cons query queries ih =>
    simp only [runQueries, run, Option.bind_eq_bind]
    cases executeQuery query db with
    | none => rfl
    | some next =>
      obtain ⟨db', out⟩ := next
      simp only [ih, Option.bind_some]
      cases run executeQuery db' queries with
      | none => rfl
      | some rest => rfl

/-- **Tables do not interfere.** If the queries of a run are put in another order that
keeps the order of the queries of each table, every table's queries get the same outputs,
down to the error texts, and every table has the same files, rows, index and next id in
the end. -/
theorem tables_isolated {db db' : Db} (hdb : Reachable db) {queries queries' : List Query}
    {outs : List (Except SqlError (List Printed))} (hrun : runQueries db queries = some (db', outs))
    (horder : ∀ name, concerning Query.tableName name queries' =
      concerning Query.tableName name queries) :
    ∃ db'' outs', runQueries db queries' = some (db'', outs') ∧ ∀ name,
      tableView name db'' = tableView name db' ∧
      answers Query.tableName name queries' outs' = answers Query.tableName name queries outs := by
  rw [runQueries_eq_run] at hrun ⊢
  exact executeQuery_isolated.reorder hdb.valid hrun horder

/-- Two tables, with a next id of their own each. -/
def shopDisk : Disk where
  schemas := fun name =>
    if name = ascii "users" then
      some (ascii "columns=id:int,name:string\npkey=id\nautoincrement=true\n")
    else if name = ascii "items" then
      some (ascii "columns=id:int,price:float\npkey=id\nautoincrement=true\n")
    else none
  tables := fun name =>
    if name = ascii "users" then some (ascii "1,ann\n")
    else if name = ascii "items" then some (ascii "4,2.5\n")
    else none
  nameMax := by
    intro name h
    by_cases husers : name = ascii "users"
    · rw [husers]
      decide
    · by_cases hitems : name = ascii "items"
      · rw [hitems]
        decide
      · simp [husers, hitems] at h

def shopDb : Db := ⟨shopDisk, dbContextCreate (ascii "db")⟩

def insertUser : Query := ⟨.insert, some (ascii "users"), [ascii "bob"], none⟩

def insertItem : Query := ⟨.insert, some (ascii "items"), [ascii "0.75"], none⟩

def selectUsers : Query := ⟨.select, some (ascii "users"), [], none⟩

theorem tables_isolated_shop : ∃ db' outs db'' outs',
    runQueries shopDb [insertUser, insertItem, selectUsers] = some (db', outs) ∧
    runQueries shopDb [insertItem, insertUser, selectUsers] = some (db'', outs') ∧
    ∀ name, tableView name db'' = tableView name db' := by
  have hsome : (runQueries shopDb [insertUser, insertItem, selectUsers]).isSome = true := by
    decide +kernel
  obtain ⟨⟨db', outs⟩, hrun⟩ := Option.isSome_iff_exists.mp hsome
  have horder : ∀ name, concerning Query.tableName name [insertItem, insertUser, selectUsers] =
      concerning Query.tableName name [insertUser, insertItem, selectUsers] := by
    intro name
    by_cases husers : some (ascii "users") = name
    · subst husers
      rfl
    · simp [concerning, insertUser, insertItem, selectUsers, List.filter_cons, husers]
  obtain ⟨db'', outs', hrun', hsame⟩ := tables_isolated (.create shopDisk (ascii "db")) hrun horder
  exact ⟨db', outs, db'', outs', hrun, hrun', fun name => (hsame name).1⟩

end MiniSql.Query
