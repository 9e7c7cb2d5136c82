import MiniSql.Query.FaultyInsert

/-!
# All or nothing

`execute_insert` writes the line to the file, then the row to memory, then its key to
the index, and takes nothing back when a later step fails. An INSERT is all or nothing
exactly if what fails, fails before a byte of the line is in the file.
-/

namespace MiniSql.Query

open Storage Index

/-- The file, the rows, the contents of the index and the next id are as they were. -/
structure Unchanged (db db' : Db) (tableName : Bytes) (position : Nat) (table : TableState) :
    Prop where
  file : db'.disk.tables tableName = db.disk.tables tableName
  memory : ∃ table', Loaded db' tableName position table' ∧ table'.rows = table.rows ∧
    table'.nextId = table.nextId ∧
    ∀ key, bptreeSearch table'.index key = bptreeSearch table.index key

/-- The file has the line of the row more, and the rows and the index have the row. -/
structure OneRowMore (db db' : Db) (tableName : Bytes) (position : Nat) (table : TableState)
    (fields : Row) : Prop where
  file : db'.disk.tables tableName =
    some ((db.disk.tables tableName).getD [] ++ csvLine fields)
  memory : ∃ table', Loaded db' tableName position table' ∧ table'.rows = table.rows ++ [fields] ∧
    ∀ key, bptreeSearch table'.index key =
      if rowKey table.schema fields = some key then some (true, (table.rows.length : Int))
      else bptreeSearch table.index key

/-- What an INSERT of the values should come to. -/
def AllOrNothing (db : Db) (tableName : Bytes) (position : Nat) (table : TableState)
    (values : List Bytes) : Option (Db × Except SqlError (List Printed)) → Prop
  | none => False
  | some (db', .error _) => Unchanged db db' tableName position table
  | some (db', .ok _) =>
    ∃ fields, insertFields table values = .ok fields ∧ OneRowMore db db' tableName position table fields

/-- What fails, fails before a byte of the line is in the file. -/
inductive Harmless (faults : Faults) (rowCapacity : Nat) (db : Db) (tableName : Bytes)
    (table : TableState) (values : List Bytes) : Prop
  /-- The row is not allocated. -/
  | unallocated {i : Nat} (early : i ≤ table.schema.columnCount) (failed : faults.alloc i = false)
  /-- The row does not pass the checks. -/
  | rejected {e : SqlError} (checks : prepareInsert table values = some (.error e))
  | unopened {prepared : Row × Int} (checks : prepareInsert table values = some (.ok prepared))
      (failed : faults.file.fopen = false)
  /-- The file was there, and nothing of the line gets into it. -/
  | unwritten {prepared : Row × Int} (checks : prepareInsert table values = some (.ok prepared))
      (present : (db.disk.tables tableName).isSome = true)
      (failed : faults.file.fputc 0 = false ∨ faults.file.fclose = some 0)
  /-- Nothing fails. -/
  | unfailing {fields : Row} {id : Int}
      (checks : prepareInsert table values = some (.ok (fields, id)))
      (fopen : faults.file.fopen = true)
      (fputc : ∀ i < (csvLine fields).length, faults.file.fputc i = true)
      (fclose : faults.file.fclose = none)
      (alloc : ∀ i < rowAllocs rowCapacity table fields,
        faults.alloc (table.schema.columnCount + 1 + i) = true)
      (node : ∀ i < nodesNeeded table.index id table.rows.length,
        faults.node (table.index.allocs + i) = true)

theorem dbContextReloadTable_disk {db db' : Db} {tableName : Bytes} {out : Except SqlError Unit}
    (h : dbContextReloadTable db tableName = some (db', out)) : db'.disk = db.disk := by
  unfold dbContextReloadTable at h
  split at h
  · cases h
    rfl
  · split at h
    · cases h
    · cases h
      rfl
    · cases h
      rfl

section

variable {faults : Faults} {rowCapacity : Nat} {db : Db} {tableName : Bytes} {position : Nat}
  {table : TableState} (hloaded : Loaded db tableName position table)

include hloaded in
theorem unchanged_of_disk {disk : Disk}
    (hfile : disk.tables tableName = db.disk.tables tableName) :
    Unchanged db ⟨disk, db.ctx⟩ tableName position table :=
  ⟨hfile, table, ⟨hloaded.find, hloaded.here⟩, rfl, rfl, fun _ => rfl⟩

variable {values : List Bytes} {fields : Row} {id : Int} (hprep : Prepared table values fields id)
  {m : Int → Option Int} (hindex : Represents table.index m)

include hprep hindex in
/-- The index takes the id exactly if all its nodes are allocated. -/
theorem Prepared.node (node : Nat → Bool) :
    ∃ index, ((∀ i < nodesNeeded table.index id table.rows.length,
          node (table.index.allocs + i) = true) ∧
        bptreeInsert node table.index id table.rows.length = some (index, .ok ()) ∧
        ∀ key, bptreeSearch index key =
          if rowKey table.schema fields = some key then some (true, (table.rows.length : Int))
          else bptreeSearch table.index key) ∨
      ¬ (∀ i < nodesNeeded table.index id table.rows.length,
          node (table.index.allocs + i) = true) ∧
        ∃ e, bptreeInsert node table.index id table.rows.length = some (index, .error e) := by
  have hnew : m id = none := by
    obtain ⟨row, hsearch⟩ := hprep.absent
    rw [search_represents hindex] at hsearch
    cases hm : m id with
    | none => rfl
    | some r => simp [hm, found] at hsearch
  obtain ⟨index, -, hrep, hcases⟩ := insert_new_nodes hindex hnew table.rows.length node
  rcases hcases with ⟨hall, hins⟩ | ⟨⟨i, hi, hfailed⟩, broken, e, hins⟩
  · refine ⟨index, .inl ⟨hall, hins, fun key => ?_⟩⟩
    rw [search_represents hrep, search_represents hindex, hprep.key]
    by_cases hkey : key = id
    · simp [hkey, found]
    · simp [hkey, Ne.symm hkey]
  · refine ⟨broken, .inr ⟨fun hall => ?_, e, hins⟩⟩
    rw [hall i hi] at hfailed
    cases hfailed

/-- What `append_csv_row` left of the file is never taken back. -/
theorem commitInsertFaulty_file {db' : Db} {out : Except SqlError (List Printed)} {file : Bytes}
    {result : Except SqlError Unit}
    (hfile : appendCsvRowFaulty faults.file (buildTablePath db.ctx.dbRoot tableName)
      ((db.disk.tables tableName).getD []) fields = (some file, result))
    (h : commitInsertFaulty faults rowCapacity db tableName position table fields id =
      some (db', out)) : db'.disk.tables tableName = some file := by
  have hset : (setFile db.disk tableName (some file)).tables tableName = some file := by
    simp [setFile, writeTable]
  cases result with
  | error e =>
    simp only [commitInsertFaulty, hfile] at h
    cases h
    exact hset
  | ok =>
    simp only [commitInsertFaulty, hfile] at h
    split at h
    · cases h
      exact hset
    · split at h
      · cases h
      · split at h
        · cases h
          exact hset
        · split at h
          · cases h
          · rename_i hreload
            cases h
            rw [dbContextReloadTable_disk hreload]
            exact hset
          · rename_i hreload
            cases h
            rw [dbContextReloadTable_disk hreload]
            exact hset
      · cases h
        exact hset

include hprep hindex in
/-- The writes return 1 only if the calls behind the file succeed too. -/
theorem commitInsertFaulty_ok_inv {db' : Db} {out : List Printed}
    (h : commitInsertFaulty faults rowCapacity db tableName position table fields id =
      some (db', .ok out)) :
    (∃ file, appendCsvRowFaulty faults.file (buildTablePath db.ctx.dbRoot tableName)
        ((db.disk.tables tableName).getD []) fields = (file, .ok ())) ∧
      (∀ i < rowAllocs rowCapacity table fields,
        faults.alloc (table.schema.columnCount + 1 + i) = true) ∧
      ∀ i < nodesNeeded table.index id table.rows.length,
        faults.node (table.index.allocs + i) = true := by
  rcases hfile : appendCsvRowFaulty faults.file (buildTablePath db.ctx.dbRoot tableName)
    ((db.disk.tables tableName).getD []) fields with ⟨file, e | _⟩
  · simp [commitInsertFaulty, hfile] at h
  · refine ⟨⟨file, rfl⟩, ?_⟩
    by_cases hallocs : ∀ i < rowAllocs rowCapacity table fields,
        faults.alloc (table.schema.columnCount + 1 + i) = true
    · refine ⟨hallocs, ?_⟩
      obtain ⟨index, ⟨hnodes, -⟩ | ⟨-, e, hins⟩⟩ := hprep.node hindex faults.node
      · exact hnodes
      · -- The insertion into the index fails, and the INSERT with it, reload or not.
        simp only [commitInsertFaulty, hfile, appendRowToMemoryFaulty_ok hallocs] at h
        rw [show (appendRowToMemory table fields).index = table.index from rfl, hins] at h
        simp only at h
        split at h
        · cases h
        · split at h <;> cases h
    · push Not at hallocs
      obtain ⟨i, hi, hfailed⟩ := hallocs
      obtain ⟨e, hmemory⟩ := appendRowToMemoryFaulty_error hi (Bool.eq_false_of_not_eq_true hfailed)
      simp [commitInsertFaulty, hfile, hmemory] at h

include hloaded hprep hindex in
/-- Where no call fails the writes add the row. -/
theorem commitInsertFaulty_adds (hopen : faults.file.fopen = true)
    (hputs : ∀ i < (csvLine fields).length, faults.file.fputc i = true)
    (hclose : faults.file.fclose = none)
    (hallocs : ∀ i < rowAllocs rowCapacity table fields,
      faults.alloc (table.schema.columnCount + 1 + i) = true)
    (hnodes : ∀ i < nodesNeeded table.index id table.rows.length,
      faults.node (table.index.allocs + i) = true) :
    ∃ db', commitInsertFaulty faults rowCapacity db tableName position table fields id =
        some (db', .ok [.insertDone]) ∧ OneRowMore db db' tableName position table fields := by
  have hne : fields ≠ [] := by simpa using hprep.nonempty
  have hfile := appendCsvRowFaulty_ok hne hopen (buildTablePath db.ctx.dbRoot tableName)
    ((db.disk.tables tableName).getD []) hputs hclose
  obtain ⟨index, ⟨-, hins, hsearch⟩ | ⟨hsome, -⟩⟩ := hprep.node hindex faults.node
  · refine ⟨⟨writeTable db.disk tableName ((db.disk.tables tableName).getD [] ++ csvLine fields),
      db.ctx.setTable position (insertedTable table fields id index)⟩, ?_, ?_, ?_⟩
    · simp only [commitInsertFaulty, hfile, appendRowToMemoryFaulty_ok hallocs]
      rw [show (appendRowToMemory table fields).index = table.index from rfl, hins]
      rfl
    · simp [writeTable]
    · have hname : (insertedTable table fields id index).name = table.name := rfl
      exact ⟨insertedTable table fields id index, hloaded.set hname _, rfl, hsearch⟩
  · exact absurd hnodes hsome

include hloaded hprep in
/-- Where nothing gets into the file, nothing is changed. -/
theorem commitInsertFaulty_unwritten
    (h : faults.file.fopen = false ∨ (db.disk.tables tableName).isSome = true ∧
      (faults.file.fputc 0 = false ∨ faults.file.fclose = some 0)) :
    ∃ db' e, commitInsertFaulty faults rowCapacity db tableName position table fields id =
      some (db', .error e) ∧ Unchanged db db' tableName position table := by
  have hne : fields ≠ [] := by simpa using hprep.nonempty
  cases hopen : faults.file.fopen with
  | false =>
    refine ⟨_, sqlSetError [ascii "failed to open table file: ",
      buildTablePath db.ctx.dbRoot tableName], ?_, unchanged_of_disk hloaded rfl⟩
    simp [commitInsertFaulty, appendCsvRowFaulty, hne, hopen, setFile]
  | true =>
    obtain ⟨hpresent, hnothing⟩ := h.resolve_left (by simp [hopen])
    obtain ⟨old, hold⟩ := Option.isSome_iff_exists.mp hpresent
    obtain ⟨bytes, result, hfile, hnil, hok⟩ := appendCsvRowFaulty_spec hne hopen
      (buildTablePath db.ctx.dbRoot tableName) ((db.disk.tables tableName).getD [])
    obtain rfl := hnil.mpr hnothing
    rcases result with e | _
    · refine ⟨⟨setFile db.disk tableName (some ((db.disk.tables tableName).getD [] ++ [])), db.ctx⟩,
        e, ?_, unchanged_of_disk hloaded ?_⟩
      · simp only [commitInsertFaulty, hfile]
      · simp [setFile, writeTable, hold]
    · exact absurd rfl (hok rfl).1

end

/-- The writes behind the checks are all or nothing under the condition. -/
theorem commitInsertFaulty_iff {db : Db} {tableName : Bytes} {position : Nat} {table : TableState}
    (hloaded : Loaded db tableName position table) {m : Int → Option Int}
    (hindex : Represents table.index m) {values : List Bytes} {fields : Row} {id : Int}
    (hchecks : prepareInsert table values = some (.ok (fields, id))) {faults : Faults}
    (hearly : ∀ i ≤ table.schema.columnCount, faults.alloc i ≠ false) (rowCapacity : Nat) :
    AllOrNothing db tableName position table values
        (commitInsertFaulty faults rowCapacity db tableName position table fields id) ↔
      Harmless faults rowCapacity db tableName table values := by
  have hprep := prepareInsert_ok hchecks
  have hne : fields ≠ [] := by simpa using hprep.nonempty
  constructor
  · intro hall
    cases hopen : faults.file.fopen with
    | false => exact .unopened hchecks hopen
    | true =>
      obtain ⟨bytes, result, hfile, hnil, hok⟩ := appendCsvRowFaulty_spec hne hopen
        (buildTablePath db.ctx.dbRoot tableName) ((db.disk.tables tableName).getD [])
      rcases hrun : commitInsertFaulty faults rowCapacity db tableName position table fields id with
        _ | ⟨db', e | out⟩
      · rw [hrun] at hall
        exact hall.elim
      · rw [hrun] at hall
        have hsame := hall.file
        rw [commitInsertFaulty_file hfile hrun] at hsame
        have hbytes : bytes = [] := by
          have hlength := congrArg (fun file => (file.getD []).length) hsame
          simpa using hlength
        exact .unwritten hchecks (by rw [← hsame]; rfl) (hnil.mp hbytes)
      · rw [hrun] at hall
        obtain ⟨fields', hfields', hmore⟩ := hall
        cases hfields'.symm.trans hprep.fields_eq
        have hline := hmore.file
        rw [commitInsertFaulty_file hfile hrun] at hline
        have hbytes : bytes = csvLine fields := List.append_cancel_left (Option.some.inj hline)
        obtain ⟨⟨file, hfile'⟩, hallocs, hnodes⟩ := commitInsertFaulty_ok_inv hprep hindex hrun
        obtain ⟨-, hresult⟩ := Prod.mk.inj (hfile.symm.trans hfile')
        obtain ⟨-, hclose, hputs⟩ := hok hresult
        exact .unfailing hchecks hopen (hputs hbytes) hclose hallocs hnodes
  · intro h
    have hunwritten : ∀ {db' e}, commitInsertFaulty faults rowCapacity db tableName position table
        fields id = some (db', .error e) → Unchanged db db' tableName position table →
        AllOrNothing db tableName position table values
          (commitInsertFaulty faults rowCapacity db tableName position table fields id) := by
      intro db' e hrun hsame
      rw [hrun]
      exact hsame
    cases h with
    | unallocated hi hfailed => exact absurd hfailed (hearly _ hi)
    | rejected hrejected => cases hchecks.symm.trans hrejected
    | unopened _ hopen =>
      obtain ⟨db', e, hrun, hsame⟩ := commitInsertFaulty_unwritten hloaded hprep (.inl hopen)
      exact hunwritten hrun hsame
    | unwritten _ hpresent hnothing =>
      obtain ⟨db', e, hrun, hsame⟩ :=
        commitInsertFaulty_unwritten hloaded hprep (.inr ⟨hpresent, hnothing⟩)
      exact hunwritten hrun hsame
    | unfailing hchecks' hopen hputs hclose hallocs hnodes =>
      cases hchecks.symm.trans hchecks'
      obtain ⟨db', hrun, hmore⟩ :=
        commitInsertFaulty_adds hloaded hprep hindex hopen hputs hclose hallocs hnodes
      rw [hrun]
      exact ⟨fields, hprep.fields_eq, hmore⟩

/-- **When an INSERT is all or nothing.** For every table in memory, every INSERT and
every pattern of failures, a return of 0 leaves the file, the rows, the index and the
next id as they were, and a return of 1 adds exactly the line and the row, if and only
if nothing fails or what fails, fails before a byte of the line is in the file. -/
theorem insert_all_or_nothing_iff {db : Db} (hdb : Indexed db) {tableName : Bytes} {position : Nat}
    {table : TableState} (hloaded : Loaded db tableName position table) {query : Query}
    (hname : query.tableName = some tableName) (faults : Faults) (rowCapacity : Nat) :
    AllOrNothing db tableName position table query.values
        (executeInsertFaulty faults rowCapacity query db) ↔
      Harmless faults rowCapacity db tableName table query.values := by
  obtain ⟨m, hindex⟩ := hdb table (List.mem_of_getElem? hloaded.here)
  by_cases hearly : ∀ i ≤ table.schema.columnCount, faults.alloc i = true
  · have hprepare : prepareInsertFaulty faults.alloc table query.values =
        prepareInsert table query.values := prepareInsertFaulty_ok hearly
    have hlate : ∀ i ≤ table.schema.columnCount, faults.alloc i ≠ false := by
      intro i hi hfailed
      rw [hearly i hi] at hfailed
      cases hfailed
    rcases hchecks : prepareInsert table query.values with _ | e | ⟨fields, id⟩
    · -- Nothing is defined for a key outside the columns.
      simp only [executeInsertFaulty, hname, hloaded.getTable, hloaded.here, hprepare, hchecks]
      apply iff_of_false
      · exact fun h => h
      · rintro (⟨hi, hfailed⟩ | hc | ⟨hc, -⟩ | ⟨hc, -, -⟩ | ⟨hc, -, -, -, -, -⟩)
        · exact hlate _ hi hfailed
        all_goals cases hchecks.symm.trans hc
    · simp only [executeInsertFaulty, hname, hloaded.getTable, hloaded.here, hprepare, hchecks]
      exact iff_of_true (unchanged_of_disk hloaded rfl) (.rejected hchecks)
    · simp only [executeInsertFaulty, hname, hloaded.getTable, hloaded.here, hprepare, hchecks,
        Option.getD_some]
      exact commitInsertFaulty_iff hloaded hindex hchecks hlate rowCapacity
  · push Not at hearly
    obtain ⟨i, hi, hfailed⟩ := hearly
    have hfailed := Bool.eq_false_of_not_eq_true hfailed
    obtain ⟨e, hfields⟩ := insertFieldsFaulty_error query.values hi hfailed
    simp only [executeInsertFaulty, hname, hloaded.getTable, hloaded.here, prepareInsertFaulty,
      hfields]
    exact iff_of_true (unchanged_of_disk hloaded rfl) (.unallocated hi hfailed)

/-- The first byte of the line cannot be written: the INSERT returns 0, and nothing is
changed. -/
theorem insert_all_or_nothing_unwritten : ∃ db db' table, Loaded db (ascii "users") 0 table ∧
    executeInsertFaulty ⟨fun _ => true, ⟨true, fun n => n != 0, none⟩, allocated, none⟩ 8
        ⟨.insert, some (ascii "users"), [ascii "eve"], none⟩ db =
      some (db', .error quoteFailed) ∧
    Unchanged db db' (ascii "users") 0 table := by
  let query : Query := ⟨.insert, some (ascii "users"), [ascii "eve"], none⟩
  let faults : Faults := ⟨fun _ => true, ⟨true, fun n => n != 0, none⟩, allocated, none⟩
  have heval : ((tableStateLoad usersDb.disk usersDb.ctx.dbRoot (ascii "users")).bind
      Except.toOption).bind (fun table =>
        (executeInsertFaulty faults 8 query ⟨usersDb.disk, usersDb.ctx.dbRoot, [table]⟩).map
          fun r => decide (r.2 = .error quoteFailed ∧ (prepareInsert table query.values).bind
            Except.toOption = some ([ascii "8", ascii "eve"], 8))) = some true := by
    decide +kernel
  simp only [Option.map_eq_some_iff, Option.bind_eq_some_iff, toOption_eq_some,
    decide_eq_true_eq] at heval
  obtain ⟨table, ⟨_, hload, rfl⟩, ⟨db', _⟩, hrun, rfl, _, hchecks, rfl⟩ := heval
  have habsent : findTable usersDb.ctx.tables (ascii "users") = none := rfl
  have hloaded := (loaded_of_load habsent hload).2
  have hindexed : Indexed ⟨usersDb.disk, usersDb.ctx.dbRoot, usersDb.ctx.tables ++ [table]⟩ := by
    intro other hother
    rw [List.mem_singleton.mp hother]
    exact indexed_of_load hload
  have hname : query.tableName = some (ascii "users") := rfl
  have hall := (insert_all_or_nothing_iff hindexed hloaded hname faults 8).mpr
    (.unwritten hchecks rfl (.inl rfl))
  have hrun : executeInsertFaulty faults 8 query
      ⟨usersDb.disk, usersDb.ctx.dbRoot, usersDb.ctx.tables ++ [table]⟩ = some (db', .error quoteFailed) :=
    hrun
  rw [hrun] at hall
  exact ⟨_, db', table, hloaded, hrun, hall⟩

/-- The copy of a field fails behind the file: the INSERT returns 0, and its line is
in the file all the same. -/
theorem line_without_row : ∃ db db' table table', Loaded db (ascii "users") 0 table ∧
    executeInsertFaulty ⟨fun n => n != 4, Faults.never.file, allocated, none⟩ 8
        ⟨.insert, some (ascii "users"), [ascii "eve"], none⟩ db =
      some (db', .error (sqlSetError [ascii "failed to copy inserted row"])) ∧
    db'.disk.tables (ascii "users") =
      some ((db.disk.tables (ascii "users")).getD [] ++ csvLine [ascii "8", ascii "eve"]) ∧
    db'.ctx.tables[0]? = some table' ∧ table'.rows = table.rows := by
  let query : Query := ⟨.insert, some (ascii "users"), [ascii "eve"], none⟩
  let faults : Faults := ⟨fun n => n != 4, Faults.never.file, allocated, none⟩
  have heval : ((tableStateLoad usersDb.disk usersDb.ctx.dbRoot (ascii "users")).bind
      Except.toOption).bind (fun table =>
        (executeInsertFaulty faults 8 query ⟨usersDb.disk, usersDb.ctx.dbRoot, [table]⟩).bind
          fun r => r.1.ctx.tables[0]?.map fun table' => decide (
            r.2 = .error (sqlSetError [ascii "failed to copy inserted row"]) ∧
            r.1.disk.tables (ascii "users") = some ((usersDisk.tables (ascii "users")).getD [] ++
              csvLine [ascii "8", ascii "eve"]) ∧ table'.rows = table.rows)) = some true := by
    decide +kernel
  simp only [Option.bind_eq_some_iff, Option.map_eq_some_iff, toOption_eq_some,
    decide_eq_true_eq] at heval
  obtain ⟨table, ⟨_, hload, rfl⟩, ⟨db', _⟩, hrun, table', htable', rfl, hfile, hrows⟩ := heval
  have habsent : findTable usersDb.ctx.tables (ascii "users") = none := rfl
  exact ⟨_, db', table, table', (loaded_of_load habsent hload).2, hrun, hfile, htable', hrows⟩

end MiniSql.Query
