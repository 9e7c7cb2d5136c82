import MiniSql.Index.TableInvariant
import MiniSql.Query.Executor

/-!
# Whole runs of queries and reloads

Every table in memory satisfies its invariant in every state that queries and
reloads lead to. One lemma for each of `db_context_get_table`, the checks of an
INSERT and its writes says what that part can do; the steps of a run are put
together from them.
-/

namespace MiniSql.Query

open Storage Index

/-- The tables of a context satisfy their invariant, under distinct names. -/
structure Valid (db : Db) : Prop where
  tables : ∀ table ∈ db.ctx.tables, table.Valid
  names : (db.ctx.tables.map TableState.name).Nodup

theorem valid_create (disk : Disk) (dbRoot : Bytes) : Valid ⟨disk, dbContextCreate dbRoot⟩ :=
  ⟨by simp [dbContextCreate], by simp [dbContextCreate]⟩

/-! ## Finding and replacing tables -/

theorem findTable_some {tables : List TableState} {tableName : Bytes} {position : Nat}
    (h : findTable tables tableName = some position) :
    ∃ table, tables[position]? = some table ∧ table.name = tableName := by
  obtain ⟨hlt, hname, -⟩ := List.findIdx?_eq_some_iff_getElem.mp h
  exact ⟨tables[position], List.getElem?_eq_getElem hlt, by simpa using hname⟩

theorem findTable_none {tables : List TableState} {tableName : Bytes}
    (h : findTable tables tableName = none) : ∀ table ∈ tables, table.name ≠ tableName := by
  simpa [findTable] using h

/-- What `db_context_get_table` can do: find the table, fail, or load it into a
new slot. -/
inductive Got (db : Db) : Db → Except SqlError Nat → Prop
  | found {table : TableState} {position : Nat}
      (here : db.ctx.tables[position]? = some table) : Got db db (.ok position)
  | failed (error : SqlError) : Got db db (.error error)
  | loaded {tableName : Bytes} {table : TableState}
      (absent : findTable db.ctx.tables tableName = none)
      (load : tableStateLoad db.disk db.ctx.dbRoot tableName = some (.ok table)) :
      Got db ⟨db.disk, db.ctx.dbRoot, db.ctx.tables ++ [table]⟩ (.ok db.ctx.tables.length)

theorem dbContextGetTable_got {db db' : Db} {tableName : Option Bytes} {out : Except SqlError Nat}
    (h : dbContextGetTable db tableName = some (db', out)) : Got db db' out := by
  unfold dbContextGetTable at h
  split at h
  · cases h
    exact .failed _
  · split at h
    · rename_i position hfind
      cases h
      obtain ⟨table, hhere, -⟩ := findTable_some hfind
      exact .found hhere
    · rename_i hnone
      split at h
      · cases h
      · cases h
        exact .failed _
      · rename_i table hload
        cases h
        exact .loaded hnone hload

section

variable {P : TableState → Prop}

/-- What holds of the tables and of every loaded table holds of those behind a
`db_context_get_table`. -/
theorem Got.forall_table (hload : ∀ {disk dbRoot tableName table},
      tableStateLoad disk dbRoot tableName = some (.ok table) → P table)
    {db db' : Db} {out : Except SqlError Nat} (h : Got db db' out)
    (hdb : ∀ table ∈ db.ctx.tables, P table) : ∀ table ∈ db'.ctx.tables, P table := by
  cases h with
  | found => exact hdb
  | failed => exact hdb
  | loaded _ hnew =>
    intro table ht
    rcases List.mem_append.mp ht with ht | ht
    · exact hdb table ht
    · rw [List.mem_singleton.mp ht]
      exact hload hnew

theorem forall_setTable {db : Db} (hdb : ∀ table ∈ db.ctx.tables, P table) {new : TableState}
    (hnew : P new) (position : Nat) : ∀ table ∈ (db.ctx.setTable position new).tables, P table := by
  intro table ht
  rcases List.mem_or_eq_of_mem_set ht with ht | rfl
  · exact hdb table ht
  · exact hnew

theorem dbContextReloadTable_forall_table (hload : ∀ {disk dbRoot tableName table},
      tableStateLoad disk dbRoot tableName = some (.ok table) → P table)
    {db db' : Db} {tableName : Bytes} {out : Except SqlError Unit}
    (h : dbContextReloadTable db tableName = some (db', out))
    (hdb : ∀ table ∈ db.ctx.tables, P table) : ∀ table ∈ db'.ctx.tables, P table := by
  unfold dbContextReloadTable at h
  split at h
  · cases h
    exact hdb
  · split at h
    · cases h
    · cases h
      exact hdb
    · rename_i hnew
      cases h
      exact forall_setTable hdb (hload hnew) _

end

theorem Got.valid {db db' : Db} {out : Except SqlError Nat} (h : Got db db' out) (hdb : Valid db) :
    Valid db' := by
  refine ⟨h.forall_table tableStateLoad_valid hdb.tables, ?_⟩
  cases h with
  | found => exact hdb.names
  | failed => exact hdb.names
  | loaded habsent hload =>
    rw [List.map_append, List.map_singleton, tableStateLoad_name hload, List.nodup_append]
    refine ⟨hdb.names, by simp, ?_⟩
    intro a ha b hb
    obtain ⟨t, ht, rfl⟩ := List.mem_map.mp ha
    rw [List.mem_singleton.mp hb]
    exact findTable_none habsent t ht

/-- Getting a table changes no file and no loaded table. -/
theorem Got.grows {db db' : Db} {got : Except SqlError Nat} (h : Got db db' got) :
    db'.disk = db.disk ∧ db.ctx.tables <+: db'.ctx.tables := by
  cases h with
  | found => exact ⟨rfl, List.prefix_rfl⟩
  | failed => exact ⟨rfl, List.prefix_rfl⟩
  | loaded => exact ⟨rfl, List.prefix_append _ _⟩

/-- The scan looks at the names only. -/
theorem findTable_names (tables : List TableState) (tableName : Bytes) :
    findTable tables tableName = (tables.map TableState.name).findIdx? (· == tableName) := by
  rw [List.findIdx?_map]
  rfl

theorem names_set {tables : List TableState} {position : Nat} {old new : TableState}
    (hold : tables[position]? = some old) (hname : new.name = old.name) :
    (tables.set position new).map TableState.name = tables.map TableState.name := by
  obtain ⟨hlt, rfl⟩ := List.getElem?_eq_some_iff.mp hold
  have hlt' : position < (tables.map TableState.name).length := by simpa using hlt
  rw [List.map_set, hname, ← List.getElem_map TableState.name (h := hlt')]
  exact List.set_getElem_self hlt'

/-- Replacing a table by a valid one of the same name keeps the context valid. -/
theorem Valid.setTable {db : Db} (hdb : Valid db) {position : Nat} {old new : TableState}
    (hold : db.ctx.tables[position]? = some old) (hnew : new.Valid) (hname : new.name = old.name)
    (disk : Disk) : Valid ⟨disk, db.ctx.setTable position new⟩ := by
  refine ⟨forall_setTable hdb.tables hnew position, ?_⟩
  simpa [DbContext.setTable, names_set hold hname] using hdb.names

theorem dbContextReloadTable_valid {db db' : Db} {tableName : Bytes} {out : Except SqlError Unit}
    (hdb : Valid db) (h : dbContextReloadTable db tableName = some (db', out)) : Valid db' := by
  unfold dbContextReloadTable at h
  split at h
  · cases h
    exact hdb
  · rename_i position hfind
    obtain ⟨old, hold, hname⟩ := findTable_some hfind
    split at h
    · cases h
    · cases h
      exact hdb
    · rename_i reloaded hload
      cases h
      exact hdb.setTable hold (tableStateLoad_valid hload)
        ((tableStateLoad_name hload).trans hname.symm) db.disk

/-- The database has the table loaded at the position where the scan stops. -/
structure Loaded (db : Db) (tableName : Bytes) (position : Nat) (table : TableState) : Prop where
  find : findTable db.ctx.tables tableName = some position
  here : db.ctx.tables[position]? = some table

theorem Loaded.getTable {db : Db} {tableName : Bytes} {position : Nat} {table : TableState}
    (h : Loaded db tableName position table) :
    dbContextGetTable db (some tableName) = some (db, .ok position) := by
  simp only [dbContextGetTable, h.find]

theorem Loaded.name {db : Db} {tableName : Bytes} {position : Nat} {table : TableState}
    (h : Loaded db tableName position table) : table.name = tableName := by
  obtain ⟨found, hhere, hname⟩ := findTable_some h.find
  rw [h.here, Option.some.injEq] at hhere
  rw [hhere, hname]

/-- A table that the scan did not find is loaded into the last slot. -/
theorem loaded_of_load {db : Db} {tableName : Bytes} {table : TableState}
    (habsent : findTable db.ctx.tables tableName = none)
    (hload : tableStateLoad db.disk db.ctx.dbRoot tableName = some (.ok table)) :
    dbContextGetTable db (some tableName) =
      some (⟨db.disk, db.ctx.dbRoot, db.ctx.tables ++ [table]⟩, .ok db.ctx.tables.length) ∧
    Loaded ⟨db.disk, db.ctx.dbRoot, db.ctx.tables ++ [table]⟩ tableName db.ctx.tables.length table := by
  refine ⟨by simp only [dbContextGetTable, habsent, hload], ?_, by simp⟩
  unfold findTable at habsent ⊢
  simp [List.findIdx?_append, habsent, List.findIdx?_cons, tableStateLoad_name hload]

/-- Whatever the table that was got, it is loaded afterwards. -/
theorem loaded_of_getTable {db db' : Db} {tableName : Bytes} {position : Nat}
    (h : dbContextGetTable db (some tableName) = some (db', .ok position)) :
    ∃ table, Loaded db' tableName position table ∧ db'.disk = db.disk ∧
      db'.ctx.dbRoot = db.ctx.dbRoot := by
  cases hfind : findTable db.ctx.tables tableName with
  | some found =>
    simp only [dbContextGetTable, hfind] at h
    cases h
    obtain ⟨table, hhere, -⟩ := findTable_some hfind
    exact ⟨table, ⟨hfind, hhere⟩, rfl, rfl⟩
  | none =>
    rcases hload : tableStateLoad db.disk db.ctx.dbRoot tableName with _ | e | table
    · simp [dbContextGetTable, hfind, hload] at h
    · simp [dbContextGetTable, hfind, hload] at h
    · obtain ⟨hget, hloaded⟩ := loaded_of_load hfind hload
      rw [hget] at h
      cases h
      exact ⟨table, hloaded, rfl, rfl⟩

theorem Loaded.set {db : Db} {tableName : Bytes} {position : Nat} {table table' : TableState}
    (h : Loaded db tableName position table) (hname : table'.name = table.name) (disk : Disk) :
    Loaded ⟨disk, db.ctx.setTable position table'⟩ tableName position table' := by
  refine ⟨?_, ?_⟩
  · have hfind := h.find
    rw [findTable_names] at hfind ⊢
    rwa [DbContext.setTable, names_set h.here hname]
  · have hlt := (List.getElem?_eq_some_iff.mp h.here).1
    simp [DbContext.setTable, hlt]

/-! ## INSERT -/

/-- What an INSERT has checked when it starts to write. -/
structure Prepared (table : TableState) (values : List Bytes) (fields : Row) (id : Int) : Prop where
  fields_eq : insertFields table values = .ok fields
  typed : WellTyped table.schema fields
  key : rowKey table.schema fields = some id
  absent : ∃ row, bptreeSearch table.index id = some (false, row)

theorem insertFields_length {table : TableState} {values : List Bytes} {fields : Row}
    (h : insertFields table values = .ok fields) : fields.length = table.schema.columnCount := by
  unfold insertFields at h
  split at h
  · rename_i hlen
    cases h
    exact hlen
  · split at h
    · rename_i hauto
      cases h
      simp only [List.length_cons]
      omega
    · cases h

theorem checkFields_of_typed {schema : Schema} {fields : Row} (h : WellTyped schema fields) :
    checkFields validateValue schema.columns fields = .ok () :=
  (checkFields_ok_iff (fun _ _ => checkValue_ok_iff) h.length_eq.symm).mpr h

theorem prepareInsert_ok {table : TableState} {values : List Bytes} {fields : Row} {id : Int}
    (h : prepareInsert table values = some (.ok (fields, id))) :
    Prepared table values fields id := by
  unfold prepareInsert at h
  split at h
  · cases h
  · rename_i row hrow
    split at h
    · cases h
    · rename_i hcheck
      split at h
      · cases h
      · rename_i field hfield
        split at h
        · cases h
        · cases h
        · rename_i hsearch
          cases h
          refine ⟨hrow, ?_, by simp [rowKey, hfield], _, hsearch⟩
          exact (checkFields_ok_iff (fun _ _ => checkValue_ok_iff) (insertFields_length hrow)).mp hcheck

/-- The index finds a key exactly when the rows have it. -/
theorem search_false_iff {table : TableState} (ht : table.Valid) {id : Int} :
    (∃ row, bptreeSearch table.index id = some (false, row)) ↔
      keyMap table.schema table.rows id = none := by
  rw [search_represents ht.index]
  cases keyMap table.schema table.rows id <;> simp [found]

/-- The table after an accepted INSERT. -/
def insertedTable (table : TableState) (fields : Row) (id : Int) (index : BPTree) : TableState :=
  ⟨table.name, table.schema, table.rows ++ [fields], index, nextIdAfter table.nextId id⟩

/-- Behind the checks nothing fails: the index takes the new id, and the table
stays valid. -/
theorem Prepared.insert {table : TableState} (ht : table.Valid) {values : List Bytes}
    {fields : Row} {id : Int} (h : Prepared table values fields id) :
    ∃ index, bptreeInsert allocated table.index id table.rows.length = some (index, .ok ()) ∧
      (insertedTable table fields id index).Valid := by
  have hnew := (search_false_iff ht).mp h.absent
  obtain ⟨index, hins, hrep⟩ := insert_new ht.index hnew table.rows.length
  exact ⟨index, hins, ht.keyed.append h.typed h.key hnew,
    represents_congr hrep fun k => (keyMap_append table.rows h.key hnew k).symm⟩

theorem Prepared.nonempty {table : TableState} {values : List Bytes} {fields : Row} {id : Int}
    (h : Prepared table values fields id) : fields.isEmpty = false := by
  cases fields with
  | nil => simpa [rowKey, keyField] using h.key
  | cons => rfl

theorem commitInsert_eq {table : TableState} {values : List Bytes} {fields : Row} {id : Int}
    (h : Prepared table values fields id) (db : Db) (tableName : Bytes) (position : Nat)
    {index : BPTree}
    (hindex : bptreeInsert allocated table.index id table.rows.length = some (index, .ok ())) :
    commitInsert db tableName position table fields id =
      some (⟨writeTable db.disk tableName ((db.disk.tables tableName).getD [] ++ csvLine fields),
        db.ctx.setTable position (insertedTable table fields id index)⟩, .ok [.insertDone]) := by
  simp [commitInsert, appendCsvRow, h.nonempty, appendRowToMemory, hindex, insertedTable]

/-- What an INSERT does to a valid database: nothing but a load, or one row more
in the file, the rows and the index. -/
inductive InsertEffect (query : Query) (db : Db) : Db → Except SqlError (List Printed) → Prop
  | rejected {db' : Db} {got : Except SqlError Nat} (table : Got db db' got) (error : SqlError) :
      InsertEffect query db db' (.error error)
  | inserted {db' : Db} {position : Nat} {table : TableState} {fields : Row} {id : Int}
      {index : BPTree} (got : dbContextGetTable db query.tableName = some (db', .ok position))
      (here : db'.ctx.tables[position]? = some table)
      (prepared : Prepared table query.values fields id)
      (insert : bptreeInsert allocated table.index id table.rows.length = some (index, .ok ()))
      (valid : (insertedTable table fields id index).Valid) :
      InsertEffect query db
        ⟨writeTable db'.disk (query.tableName.getD [])
          ((db'.disk.tables (query.tableName.getD [])).getD [] ++ csvLine fields),
          db'.ctx.setTable position (insertedTable table fields id index)⟩ (.ok [.insertDone])

theorem executeInsert_effect {query : Query} {db db' : Db} {out : Except SqlError (List Printed)}
    (hdb : Valid db) (h : executeInsert query db = some (db', out)) :
    InsertEffect query db db' out := by
  unfold executeInsert at h
  split at h
  · cases h
  · rename_i hget
    cases h
    exact .rejected (dbContextGetTable_got hget) _
  · rename_i db₁ position hget
    have hgot := dbContextGetTable_got hget
    split at h
    · cases h
    · rename_i table hhere
      have ht : table.Valid := (hgot.valid hdb).tables table (List.mem_of_getElem? hhere)
      split at h
      · cases h
      · cases h
        exact .rejected hgot _
      · rename_i fields id hprep
        have hprep := prepareInsert_ok hprep
        obtain ⟨index, hins, hvalid⟩ := hprep.insert ht
        rw [commitInsert_eq hprep _ _ _ hins] at h
        cases h
        exact .inserted hget hhere hprep hins hvalid

theorem InsertEffect.valid {query : Query} {db db' : Db} {out : Except SqlError (List Printed)}
    (h : InsertEffect query db db' out) (hdb : Valid db) : Valid db' := by
  cases h with
  | rejected hgot => exact hgot.valid hdb
  | inserted hget hhere _ _ hvalid =>
    exact ((dbContextGetTable_got hget).valid hdb).setTable hhere hvalid rfl _

/-- An INSERT into a loaded table succeeds only by way of its checks. -/
theorem executeInsert_loaded {db db' : Db} {tableName : Bytes} {position : Nat} {table : TableState}
    (h : Loaded db tableName position table) {query : Query} {out : List Printed}
    (hname : query.tableName = some tableName)
    (hrun : executeInsert query db = some (db', .ok out)) :
    ∃ fields id, prepareInsert table query.values = some (.ok (fields, id)) ∧
      commitInsert db tableName position table fields id = some (db', .ok out) := by
  simp only [executeInsert, hname, h.getTable, h.here, Option.getD_some] at hrun
  split at hrun
  · cases hrun
  · cases hrun
  · rename_i fields id hprep
    exact ⟨fields, id, hprep, hrun⟩

/-! ## SELECT -/

theorem executeSelect_got {query : Query} {db db' : Db} {out : Except SqlError (List Printed)}
    (h : executeSelect query db = some (db', out)) : ∃ got, Got db db' got := by
  unfold executeSelect at h
  split at h
  · cases h
  · rename_i hget
    cases h
    exact ⟨_, dbContextGetTable_got hget⟩
  · rename_i hget
    split at h
    · cases h
    · split at h
      · cases h
      · cases h
        exact ⟨_, dbContextGetTable_got hget⟩
      · cases h
        exact ⟨_, dbContextGetTable_got hget⟩

/-! ## Runs -/

theorem executeQuery_valid {query : Query} {db db' : Db} {out : Except SqlError (List Printed)}
    (hdb : Valid db) (h : executeQuery query db = some (db', out)) : Valid db' := by
  unfold executeQuery at h
  split at h
  · obtain ⟨got, hgot⟩ := executeSelect_got h
    exact hgot.valid hdb
  · exact (executeInsert_effect hdb h).valid hdb

/-- The databases that queries and reloads lead to from a new context. -/
inductive Reachable : Db → Prop
  | create (disk : Disk) (dbRoot : Bytes) : Reachable ⟨disk, dbContextCreate dbRoot⟩
  | query {db db' : Db} {query : Query} {out : Except SqlError (List Printed)}
      (before : Reachable db) (step : executeQuery query db = some (db', out)) : Reachable db'
  | reload {db db' : Db} {tableName : Bytes} {out : Except SqlError Unit}
      (before : Reachable db) (step : dbContextReloadTable db tableName = some (db', out)) :
      Reachable db'

theorem Reachable.valid {db : Db} (h : Reachable db) : Valid db := by
  induction h with
  | create disk dbRoot => exact valid_create disk dbRoot
  | query _ hstep ih => exact executeQuery_valid ih hstep
  | reload _ hstep ih => exact dbContextReloadTable_valid ih hstep

/-- What holds of every loaded table and is kept by every accepted INSERT holds of
the tables of all reachable databases. -/
theorem Reachable.forall_table {P : TableState → Prop}
    (hload : ∀ {disk dbRoot tableName table},
      tableStateLoad disk dbRoot tableName = some (.ok table) → P table)
    (hinsert : ∀ {table values fields id} (index : BPTree), P table →
      Prepared table values fields id → P (insertedTable table fields id index))
    {db : Db} (h : Reachable db) : ∀ table ∈ db.ctx.tables, P table := by
  induction h with
  | create => simp [dbContextCreate]
  | query hbefore hstep ih =>
    unfold executeQuery at hstep
    split at hstep
    · obtain ⟨got, hgot⟩ := executeSelect_got hstep
      exact hgot.forall_table hload ih
    · cases executeInsert_effect hbefore.valid hstep with
      | rejected hgot => exact hgot.forall_table hload ih
      | inserted hget hhere hprep =>
        have hfound := (dbContextGetTable_got hget).forall_table hload ih
        exact forall_setTable hfound (hinsert _ (hfound _ (List.mem_of_getElem? hhere)) hprep) _
  | reload _ hstep ih => exact dbContextReloadTable_forall_table hload hstep ih

/-- A SELECT of a table that is not in memory loads it. -/
theorem Reachable.load {db : Db} (hdb : Reachable db) {tableName : Bytes} {table : TableState}
    (habsent : findTable db.ctx.tables tableName = none)
    (hload : tableStateLoad db.disk db.ctx.dbRoot tableName = some (.ok table)) :
    Reachable ⟨db.disk, db.ctx.dbRoot, db.ctx.tables ++ [table]⟩ := by
  obtain ⟨hget, hloaded⟩ := loaded_of_load habsent hload
  have hselect : executeQuery ⟨.select, some tableName, [], none⟩ db =
      some (⟨db.disk, db.ctx.dbRoot, db.ctx.tables ++ [table]⟩,
        .ok (.header table.schema :: table.rows.map .row)) := by
    simp only [executeQuery, executeSelect, hget, hloaded.here, selectRows]
  exact .query hdb hselect

/-- The schemas in memory are those of the schema files. -/
def FromFiles (db : Db) : Prop :=
  ∀ table ∈ db.ctx.tables, ∃ text, db.disk.schemas table.name = some text ∧
    loadSchema table.name text = some (.ok table.schema)

theorem tableStateLoad_schema {disk : Disk} {dbRoot tableName : Bytes} {table : TableState}
    (h : tableStateLoad disk dbRoot tableName = some (.ok table)) :
    ∃ text, disk.schemas table.name = some text ∧ loadSchema table.name text = some (.ok table.schema) := by
  obtain ⟨text, file, htext, hschema, -, -⟩ := tableStateLoad_ok h
  rw [tableStateLoad_name h]
  exact ⟨text, htext, hschema⟩

theorem Got.fromFiles {db db' : Db} {out : Except SqlError Nat} (h : Got db db' out)
    (hdb : FromFiles db) : FromFiles db' := by
  cases h with
  | found => exact hdb
  | failed => exact hdb
  | loaded _ hload =>
    intro t ht
    rcases List.mem_append.mp ht with ht | ht
    · exact hdb t ht
    · rw [List.mem_singleton.mp ht]
      exact tableStateLoad_schema hload

theorem FromFiles.setTable {db : Db} (hdb : FromFiles db) {position : Nat} {new : TableState}
    (hnew : ∃ text, db.disk.schemas new.name = some text ∧
      loadSchema new.name text = some (.ok new.schema)) {disk : Disk}
    (hdisk : disk.schemas = db.disk.schemas) : FromFiles ⟨disk, db.ctx.setTable position new⟩ := by
  intro t ht
  change ∃ text, disk.schemas t.name = some text ∧ _
  rw [hdisk]
  rcases List.mem_or_eq_of_mem_set ht with ht | rfl
  · exact hdb t ht
  · exact hnew

theorem Reachable.fromFiles {db : Db} (h : Reachable db) : FromFiles db := by
  induction h with
  | create disk dbRoot => simp [FromFiles, dbContextCreate]
  | @query db db' query out hbefore hstep ih =>
    unfold executeQuery at hstep
    split at hstep
    · obtain ⟨got, hgot⟩ := executeSelect_got hstep
      exact hgot.fromFiles ih
    · cases executeInsert_effect hbefore.valid hstep with
      | rejected hgot => exact hgot.fromFiles ih
      | inserted hget hhere =>
        have hloaded := (dbContextGetTable_got hget).fromFiles ih
        have hschema := hloaded _ (List.mem_of_getElem? hhere)
        refine FromFiles.setTable hloaded ?_ rfl
        exact hschema
  | reload _ hstep ih =>
    unfold dbContextReloadTable at hstep
    split at hstep
    · cases hstep
      exact ih
    · split at hstep
      · cases hstep
      · cases hstep
        exact ih
      · rename_i hload
        cases hstep
        exact ih.setTable (tableStateLoad_schema hload) rfl

theorem wellTyped_fields {schema : Schema} {row : Row} (h : WellTyped schema row) :
    row.length = schema.columnCount ∧ ∀ (i : Nat) column value, schema.columns[i]? = some column →
      row[i]? = some value → matchesType column value = true := by
  obtain ⟨hlen, htypes⟩ := List.forall₂_iff_get.mp h
  refine ⟨hlen.symm, fun i column value hcolumn hvalue => ?_⟩
  obtain ⟨hi, rfl⟩ := List.getElem?_eq_some_iff.mp hcolumn
  obtain ⟨hi', rfl⟩ := List.getElem?_eq_some_iff.mp hvalue
  exact htypes i hi hi'

/-- A search answers with the position of the row that has the key. -/
theorem search_true_iff {table : TableState} (ht : table.Valid) {key i : Int} :
    bptreeSearch table.index key = some (true, i) ↔
      0 ≤ i ∧ i < table.rows.length ∧ ∃ row field, table.rows[i.toNat]? = some row ∧
        keyField table.schema row = some field ∧ atoi field = key := by
  have hfound : bptreeSearch table.index key = some (true, i) ↔
      keyMap table.schema table.rows key = some i := by
    rw [search_represents ht.index]
    cases keyMap table.schema table.rows key <;> simp [found]
  rw [hfound]
  constructor
  · intro hmap
    obtain ⟨position, -, rfl⟩ := Option.map_eq_some_iff.mp hmap
    obtain ⟨row, hrow, hkey⟩ := (keyMap_eq_some ht.keyed).mp hmap
    obtain ⟨field, hfield, hid⟩ := Option.map_eq_some_iff.mp hkey
    have hlt := (List.getElem?_eq_some_iff.mp hrow).1
    exact ⟨by simp, by simpa using hlt, row, field, by simpa using hrow, hfield, hid⟩
  · rintro ⟨hnonneg, -, row, field, hrow, hfield, hid⟩
    rw [← Int.toNat_of_nonneg hnonneg]
    exact (keyMap_eq_some ht.keyed).mpr ⟨row, hrow, by simp [rowKey, hfield, hid]⟩

theorem search_found_iff {table : TableState} (ht : table.Valid) {key : Int} :
    (∃ i, bptreeSearch table.index key = some (true, i)) ↔
      ∃ row ∈ table.rows, rowKey table.schema row = some key := by
  constructor
  · rintro ⟨i, hsearch⟩
    obtain ⟨-, -, row, field, hrow, hfield, rfl⟩ := (search_true_iff ht).mp hsearch
    exact ⟨row, List.mem_of_getElem? hrow, by simp [rowKey, hfield]⟩
  · rintro ⟨row, hrow, hkey⟩
    obtain ⟨field, hfield, hatoi⟩ := Option.map_eq_some_iff.mp hkey
    obtain ⟨position, hlt, hposition⟩ := List.mem_iff_getElem.mp hrow
    have hget : table.rows[position]? = some row := by
      rw [List.getElem?_eq_getElem hlt, hposition]
    exact ⟨position, (search_true_iff ht).mpr
      ⟨by omega, by omega, row, field, by simpa using hget, hfield, hatoi⟩⟩

/-- **The table invariant.** In every state that a run reaches, the rows of a
table have the fields of its schema, the index is a bijection between their keys
and their positions, and an id that passed the duplicate check always goes into
the index. -/
theorem table_invariant {db : Db} (hdb : Reachable db) {table : TableState}
    (ht : table ∈ db.ctx.tables) :
    (∀ row ∈ table.rows, row.length = table.schema.columnCount ∧
      ∀ (i : Nat) column value, table.schema.columns[i]? = some column → row[i]? = some value →
        matchesType column value = true) ∧
    (∀ key i, bptreeSearch table.index key = some (true, i) ↔
      0 ≤ i ∧ i < table.rows.length ∧ ∃ row field, table.rows[i.toNat]? = some row ∧
        keyField table.schema row = some field ∧ atoi field = key) ∧
    (∀ row ∈ table.rows, ∃ field, keyField table.schema row = some field) ∧
    (table.rows.map fun row => (keyField table.schema row).map atoi).Nodup ∧
    ∀ values fields id, prepareInsert table values = some (.ok (fields, id)) →
      ∃ index, bptreeInsert allocated table.index id table.rows.length = some (index, .ok ()) := by
  have hvalid := hdb.valid.tables table ht
  refine ⟨fun row hrow => wellTyped_fields (hvalid.keyed.typed row hrow),
    fun key i => search_true_iff hvalid, fun row hrow => ?_, hvalid.keyed.distinct,
    fun values fields id hprep => ?_⟩
  · obtain ⟨key, hkey⟩ := hvalid.keyed.keys row hrow
    obtain ⟨field, hfield, -⟩ := Option.map_eq_some_iff.mp hkey
    exact ⟨field, hfield⟩
  · obtain ⟨index, hins, -⟩ := (prepareInsert_ok hprep).insert hvalid
    exact ⟨index, hins⟩

theorem toOption_eq_some {α : Type} {result : Except SqlError α} {a : α} :
    result.toOption = some a ↔ result = .ok a := by
  cases result <;> simp [Except.toOption]

/-- A database directory with one table of two columns. -/
def usersDisk : Disk where
  schemas := fun name => if name = ascii "users" then
    some (ascii "table=users\ncolumns=id:int,name:string\npkey=id\nautoincrement=true\n") else none
  tables := fun name => if name = ascii "users" then some (ascii "1,ann\n7,\"bob\"\n") else none
  nameMax := by
    intro name h
    by_cases hname : name = ascii "users"
    · rw [hname]
      decide
    · simp [hname] at h

def usersDb : Db := ⟨usersDisk, dbContextCreate (ascii "db")⟩

theorem table_invariant_users : ∃ db table, Reachable db ∧ table ∈ db.ctx.tables ∧
    table.rows = [[ascii "1", ascii "ann"], [ascii "7", ascii "bob"], [ascii "8", ascii "eve"]] ∧
    bptreeSearch table.index 8 = some (true, 2) := by
  have hrun : (executeQuery ⟨.insert, some (ascii "users"), [ascii "eve"], none⟩ usersDb).map
      (fun r => r.1.ctx.tables.map fun t => (t.rows, t.schema.primaryKeyIndex)) =
      some [([[ascii "1", ascii "ann"], [ascii "7", ascii "bob"], [ascii "8", ascii "eve"]], 0)] := by
    decide +kernel
  obtain ⟨⟨db, out⟩, hstep, htables⟩ := Option.map_eq_some_iff.mp hrun
  obtain ⟨table, hone, hboth⟩ := List.map_eq_singleton_iff.mp htables
  obtain ⟨hrows, hpk⟩ := Prod.mk.inj hboth
  have hdb : Reachable db := .query (.create usersDisk (ascii "db")) hstep
  have ht : table ∈ db.ctx.tables := by simp_all
  refine ⟨db, table, hdb, ht, hrows, ((table_invariant hdb ht).2.1 8 2).mpr ?_⟩
  refine ⟨by decide, by simp [hrows], [ascii "8", ascii "eve"], ascii "8", by simp [hrows], ?_,
    by decide⟩
  simp [keyField, hpk]

end MiniSql.Query
