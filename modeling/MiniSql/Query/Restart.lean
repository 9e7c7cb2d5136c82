import MiniSql.Query.Durability
import MiniSql.Query.PlainTable
import MiniSql.Storage.AppendedRow

/-!
# One row across a restart

A new row gets into memory twice: an INSERT copies its fields, and a load of the
table parses the line that the INSERT wrote. The two agree exactly if no field has
whitespace around it and the line stands in the file as a row of its own.
-/

namespace MiniSql.Query

open Storage Index

/-- `SELECT * FROM` the table. -/
def selectAll (tableName : Bytes) : Query := ⟨.select, some tableName, [], none⟩

/-- The rows that a SELECT of the whole table prints. -/
def shownRows (db : Db) (tableName : Bytes) : Option (List Row) :=
  (executeQuery (selectAll tableName) db).bind fun result => answer result.2

/-- The database with nothing in memory but the name of its directory. -/
def restarted (db : Db) : Db := ⟨db.disk, db.ctx.dbRoot, []⟩

/-- The file of the table can be loaded, has no row with the key of the new one,
and ends where the line of the new row is a row of its own. -/
def FileReady (db : Db) (tableName : Bytes) (fields : Row) : Prop :=
  ∃ file before, db.disk.tables tableName = some file ∧
    tableStateLoad db.disk db.ctx.dbRoot tableName = some (.ok before) ∧
    FitsBehind (openRead file) fields ∧
    ∀ row ∈ before.rows, rowKey before.schema row ≠ rowKey before.schema fields

theorem shownRows_get {db db' : Db} {tableName : Bytes} {position : Nat} {table : TableState}
    (hget : dbContextGetTable db (some tableName) = some (db', .ok position))
    (hhere : db'.ctx.tables[position]? = some table) : shownRows db tableName = some table.rows := by
  have hrows : (table.rows.map Printed.row).filterMap Printed.row? = table.rows := by
    rw [List.filterMap_map]
    exact List.filterMap_some
  simp only [shownRows, executeQuery, selectAll, executeSelect, hget, hhere, selectRows,
    Option.bind_some, answer, List.filterMap_cons, Printed.row?]
  exact congrArg some hrows

theorem Loaded.shownRows {db : Db} {tableName : Bytes} {position : Nat} {table : TableState}
    (h : Loaded db tableName position table) : shownRows db tableName = some table.rows :=
  shownRows_get h.getTable h.here

/-- After a restart a SELECT shows what a load of the table finds. -/
theorem shownRows_restarted {db : Db} {tableName : Bytes} {rows : List Row} :
    shownRows (restarted db) tableName = some rows ↔
      ∃ table, tableStateLoad db.disk db.ctx.dbRoot tableName = some (.ok table) ∧
        table.rows = rows := by
  rcases hload : tableStateLoad db.disk db.ctx.dbRoot tableName with _ | e | table
  · simp [shownRows, executeQuery, selectAll, executeSelect, dbContextGetTable, restarted, findTable,
      hload]
  · simp [shownRows, executeQuery, selectAll, executeSelect, dbContextGetTable, restarted, findTable,
      hload, answer]
  · have habsent : findTable (restarted db).ctx.tables tableName = none := rfl
    obtain ⟨hget, hloaded⟩ := loaded_of_load habsent hload
    rw [shownRows_get hget hloaded.here]
    simp

/-! ## The file of the table -/

section

variable {disk : Disk} {dbRoot tableName file : Bytes} {before : TableState} {fields : Row}
  (hfile : disk.tables tableName = some file)
  (hload : tableStateLoad disk dbRoot tableName = some (.ok before))

include hfile hload in
theorem load_reads : readCsvRows file before.schema.columnCount = .ok before.rows ∧
    0 ≤ before.schema.primaryKeyIndex ∧ before.Valid := by
  obtain ⟨text, file', -, -, hfile', hrows⟩ := tableStateLoad_ok hload
  rw [hfile] at hfile'
  cases hfile'
  obtain ⟨hvalid, -, -, hread, hpk, -⟩ := loadRows_spec hrows
  exact ⟨hread, hpk, hvalid⟩

include hload in
/-- A load of the table with another file. -/
theorem load_writeTable (contents : Bytes) :
    tableStateLoad (writeTable disk tableName contents) dbRoot tableName =
      loadRows before.schema tableName contents := by
  obtain ⟨text, file', htext, hschema, -, -⟩ := tableStateLoad_ok hload
  have htext' : (writeTable disk tableName contents).schemas tableName = some text := htext
  have hcontents : (writeTable disk tableName contents).tables tableName = some contents := by
    simp [writeTable]
  simp only [tableStateLoad, htext', loadSchemaFile, hschema, hcontents, andThen, loadTable]

include hfile hload in
/-- A load behind the INSERT finds the rows of a load before it and the new one. -/
theorem load_appended_iff (htyped : WellTyped before.schema fields) {id : Int}
    (hkey : rowKey before.schema fields = some id)
    (hfields : Appendable before.schema.columnCount fields) (hstorable : Storable fields) :
    (∃ after, tableStateLoad (writeTable disk tableName (file ++ csvLine fields)) dbRoot tableName =
        some (.ok after) ∧ after.rows = before.rows ++ [fields]) ↔
      (FitsBehind (openRead file) fields ∧
        ∀ row ∈ before.rows, rowKey before.schema row ≠ rowKey before.schema fields) ∧
        fields.map trim = fields := by
  obtain ⟨hread, hpk, hvalid⟩ := load_reads hfile hload
  have hiff := readCsvRows_append_iff hread hfields hstorable
  rw [load_writeTable hload, hkey, ← keyMap_eq_none]
  constructor
  · rintro ⟨after, hafter, hrows⟩
    obtain ⟨hvalid', -, hschema, hread', -, -⟩ := loadRows_spec hafter
    have hkeyed := hvalid'.keyed
    rw [hrows] at hread'
    rw [hschema, hrows] at hkeyed
    obtain ⟨hfits, htrim⟩ := hiff.mp hread'
    exact ⟨⟨hfits, hkeyed.new_key hkey⟩, htrim⟩
  · rintro ⟨⟨hfits, hnew⟩, htrim⟩
    have hkeyed := hvalid.keyed.append htyped hkey hnew
    obtain ⟨index, hafter, -⟩ := loadRows_ok tableName (hiff.mpr ⟨hfits, htrim⟩) hkeyed hpk
    exact ⟨_, hafter, rfl⟩

end

/-! ## The INSERT -/

/-- What an accepted INSERT shows and writes. -/
theorem insert_shown {db db' : Db} (hdb : Reachable db) {query : Query} {tableName : Bytes}
    {out : List Printed} (htype : query.type = .insert) (hname : query.tableName = some tableName)
    (hinsert : executeQuery query db = some (db', .ok out)) :
    ∃ table fields id, shownRows db tableName = some table.rows ∧
      shownRows db' tableName = some (table.rows ++ [fields]) ∧
      Prepared table query.values fields id ∧
      (∃ text, db.disk.schemas tableName = some text ∧ loadSchema tableName text = some (.ok table.schema)) ∧
      db'.disk = writeTable db.disk tableName ((db.disk.tables tableName).getD [] ++ csvLine fields) ∧
      db'.ctx.dbRoot = db.ctx.dbRoot := by
  simp only [executeQuery, htype] at hinsert
  cases executeInsert_effect hdb.valid hinsert with
  | @inserted db₁ position table fields id index hget hhere hprep hins hvalid =>
    rw [hname] at hget ⊢
    obtain ⟨found, hloaded, hdisk, hroot⟩ := loaded_of_getTable hget
    obtain rfl : found = table := Option.some.inj (hloaded.here.symm.trans hhere)
    have hschema := (dbContextGetTable_got hget).fromFiles hdb.fromFiles found
      (List.mem_of_getElem? hhere)
    rw [hloaded.name, hdisk] at hschema
    refine ⟨found, fields, id, shownRows_get hget hhere, ?_, hprep, hschema, ?_, hroot⟩
    · have hname' : (insertedTable found fields id index).name = found.name := rfl
      exact (hloaded.set hname' _).shownRows
    · rw [hdisk, Option.getD_some]

/-- **When a new row survives a restart.** Behind an accepted INSERT a SELECT shows
the rows it showed before and the new one. If the new row has no newline and fits
the reader's buffer, a SELECT after a restart shows the very same new row, behind
what it would have shown without the INSERT, if and only if no field has whitespace
around it and the file was ready to take the line. -/
theorem row_survives_iff {db db' : Db} (hdb : Reachable db) {query : Query} {tableName : Bytes}
    {out : List Printed} (htype : query.type = .insert) (hname : query.tableName = some tableName)
    (hvalues : ∀ value ∈ query.values, 0 ∉ value)
    (hinsert : executeQuery query db = some (db', .ok out)) :
    ∃ rows fields, shownRows db tableName = some rows ∧
      shownRows db' tableName = some (rows ++ [fields]) ∧
      ((∀ field ∈ fields, newline ∉ field) → (csvContent fields).length ≤ 8191 →
        ((∃ old, shownRows (restarted db) tableName = some old ∧
            shownRows (restarted db') tableName = some (old ++ [fields])) ↔
          (∀ field ∈ fields, trim field = field) ∧ FileReady db tableName fields)) := by
  obtain ⟨table, fields, id, hbefore, hafter, hprep, ⟨text, htext, hschema⟩, hdisk, hroot⟩ :=
    insert_shown hdb htype hname hinsert
  refine ⟨table.rows, fields, hbefore, hafter, fun hfree hsize => ?_⟩
  have hloadable : ∀ before, tableStateLoad db.disk db.ctx.dbRoot tableName = some (.ok before) →
      before.schema = table.schema ∧ ∃ file, db.disk.tables tableName = some file := by
    intro before hload
    obtain ⟨text', file, htext', hschema', hfile, -⟩ := tableStateLoad_ok hload
    rw [htext] at htext'
    cases htext'
    exact ⟨Except.ok.inj (Option.some.inj (hschema'.symm.trans hschema)), file, hfile⟩
  have hfields : Appendable table.schema.columnCount fields :=
    ⟨insertFields_length hprep.fields_eq, by simpa using hprep.nonempty,
      insertFields_nulFree hprep.fields_eq hvalues⟩
  have hiff : ∀ {file before}, db.disk.tables tableName = some file →
      tableStateLoad db.disk db.ctx.dbRoot tableName = some (.ok before) →
      ((∃ after, tableStateLoad db'.disk db'.ctx.dbRoot tableName = some (.ok after) ∧
        after.rows = before.rows ++ [fields]) ↔
          (FitsBehind (openRead file) fields ∧
            ∀ row ∈ before.rows, rowKey before.schema row ≠ rowKey before.schema fields) ∧
            fields.map trim = fields) := by
    intro file before hfile hload
    have hsame := (hloadable before hload).1
    rw [hdisk, hroot, hfile, Option.getD_some]
    exact load_appended_iff hfile hload (hsame ▸ hprep.typed) (hsame ▸ hprep.key) (hsame ▸ hfields)
      ⟨hfree, hsize⟩
  simp only [shownRows_restarted, ← map_trim_eq_self]
  constructor
  · rintro ⟨old, ⟨before, hload, rfl⟩, hafter⟩
    obtain ⟨-, file, hfile⟩ := hloadable before hload
    obtain ⟨⟨hfits, hnew⟩, htrim⟩ := (hiff hfile hload).mp hafter
    exact ⟨htrim, file, before, hfile, hload, hfits, hnew⟩
  · rintro ⟨htrim, file, before, hfile, hload, hfits, hnew⟩
    exact ⟨before.rows, ⟨before, hload, rfl⟩, (hiff hfile hload).mpr ⟨⟨hfits, hnew⟩, htrim⟩⟩

theorem row_survives_users : ∃ db' old fields,
    executeQuery ⟨.insert, some (ascii "users"), [ascii "e,\"ve"], none⟩ usersDb =
      some (db', .ok [.insertDone]) ∧ fields = [ascii "8", ascii "e,\"ve"] ∧
    shownRows (restarted db') (ascii "users") = some (old ++ [fields]) := by
  let query : Query := ⟨.insert, some (ascii "users"), [ascii "e,\"ve"], none⟩
  have heval : (executeQuery query usersDb).map (fun r =>
      decide (r.2.toOption = some [.insertDone] ∧ shownRows r.1 (ascii "users") =
        some [[ascii "1", ascii "ann"], [ascii "7", ascii "bob"], [ascii "8", ascii "e,\"ve"]])) =
      some true := by
    decide +kernel
  have hload : ((tableStateLoad usersDb.disk usersDb.ctx.dbRoot (ascii "users")).bind
      Except.toOption).map (fun before => decide (∀ row ∈ before.rows,
        rowKey before.schema row ≠ rowKey before.schema [ascii "8", ascii "e,\"ve"])) = some true := by
    decide +kernel
  simp only [Option.map_eq_some_iff, Option.bind_eq_some_iff, toOption_eq_some,
    decide_eq_true_eq] at heval hload
  obtain ⟨⟨db', _⟩, hrun, rfl, hshown⟩ := heval
  obtain ⟨before, ⟨_, hload, rfl⟩, hnew⟩ := hload
  obtain ⟨rows, fields, -, hrows, hiff⟩ :=
    row_survives_iff (.create usersDisk (ascii "db")) rfl rfl (by decide +kernel) hrun
  obtain ⟨-, hfields⟩ := List.append_inj' (Option.some.inj (hrows.symm.trans hshown) :
    rows ++ [fields] = [[ascii "1", ascii "ann"], [ascii "7", ascii "bob"]] ++
      [[ascii "8", ascii "e,\"ve"]]) rfl
  obtain rfl := (List.cons.inj hfields).1
  obtain ⟨old, -, hold⟩ := (hiff (by decide +kernel) (by decide +kernel)).mpr
    ⟨by decide +kernel, _, before, rfl, hload, by decide +kernel, hnew⟩
  exact ⟨db', old, _, hrun, rfl, hold⟩

/-- A value with a space in front is shown as it is until the restart. -/
theorem space_lost_by_restart : ∃ db',
    executeQuery ⟨.insert, some (ascii "users"), [ascii " eve"], none⟩ usersDb =
      some (db', .ok [.insertDone]) ∧
    shownRows db' (ascii "users") = some
      [[ascii "1", ascii "ann"], [ascii "7", ascii "bob"], [ascii "8", ascii " eve"]] ∧
    shownRows (restarted db') (ascii "users") = some
      [[ascii "1", ascii "ann"], [ascii "7", ascii "bob"], [ascii "8", ascii "eve"]] := by
  let query : Query := ⟨.insert, some (ascii "users"), [ascii " eve"], none⟩
  have heval : (executeQuery query usersDb).map (fun r =>
      decide (r.2.toOption = some [.insertDone] ∧ shownRows r.1 (ascii "users") = some
        [[ascii "1", ascii "ann"], [ascii "7", ascii "bob"], [ascii "8", ascii " eve"]] ∧
      shownRows (restarted r.1) (ascii "users") = some
        [[ascii "1", ascii "ann"], [ascii "7", ascii "bob"], [ascii "8", ascii "eve"]])) =
      some true := by
    decide +kernel
  simp only [Option.map_eq_some_iff, toOption_eq_some, decide_eq_true_eq] at heval
  obtain ⟨⟨db', _⟩, hrun, rfl, hshown, hrestarted⟩ := heval
  exact ⟨db', hrun, hshown, hrestarted⟩

end MiniSql.Query
