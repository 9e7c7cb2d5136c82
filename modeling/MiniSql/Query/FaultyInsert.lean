import MiniSql.Index.NodeFailures
import MiniSql.Query.Reachable
import MiniSql.Storage.FaultyFile

/-!
# INSERT when calls fail

`execute_insert` with every failure of its allocations and file calls. Where none
fails it is the `executeInsert` of the rest of the model, and whatever fails, the index
of every table stays well formed.
-/

namespace MiniSql.Query

open Storage Index

/-- How the calls of one `execute_insert` come out. -/
structure Faults where
  /-- Whether the n-th allocation outside the file and the index succeeds. -/
  alloc : Nat → Bool
  file : FileFaults
  /-- Whether a call of `bptree_node_create` succeeds. -/
  node : Nat → Bool
  /-- The error of the reload if one of its calls fails. -/
  reload : Option SqlError

/-- No call fails. -/
def Faults.never : Faults := ⟨fun _ => true, ⟨true, fun _ => true, none⟩, allocated, none⟩

/-- A loop of `sql_strdup` calls, the first of them the n-th allocation. -/
def copyFields (alloc : Nat → Bool) (error : SqlError) : Nat → List Bytes → Except SqlError Row
  | _, [] => .ok []
  | n, field :: fields =>
    if alloc n then
      match copyFields alloc error (n + 1) fields with
      | .error e => .error e
      | .ok copies => .ok (field :: copies)
    else .error error

def insertRowFailed : SqlError := sqlSetError [ascii "failed to allocate insert row"]

def fieldValueFailed : SqlError := sqlSetError [ascii "failed to allocate field value"]

/-- The fields of the new row. -/
def insertFieldsFaulty (alloc : Nat → Bool) (table : TableState) (values : List Bytes) :
    Except SqlError Row :=
  if values.length = table.schema.columnCount then
    if alloc 0 then copyFields alloc fieldValueFailed 1 values else .error insertRowFailed
  else if table.schema.autoincrement = true ∧ table.schema.primaryKeyIndex = 0 ∧
      (values.length : Int) = table.schema.columnCount - 1 then
    if alloc 0 then
      if alloc 1 then
        match copyFields alloc fieldValueFailed 2 values with
        | .error e => .error e
        | .ok copies => .ok (decimal table.nextId :: copies)
      else .error (sqlSetError [ascii "failed to allocate id field"])
    else .error insertRowFailed
  else .error countMismatch

/-- What `execute_insert` checks before it writes. -/
def prepareInsertFaulty (alloc : Nat → Bool) (table : TableState) (values : List Bytes) :
    Option (Except SqlError (Row × Int)) :=
  match insertFieldsFaulty alloc table values with
  | .error e => some (.error e)
  | .ok fields =>
    match checkFields validateValue table.schema.columns fields with
    | .error e => some (.error e)
    | .ok _ =>
      match keyField table.schema fields with
      | none => none
      | some field =>
        match bptreeSearch table.index (atoi field) with
        | none => none
        | some (true, _) => some (.error (duplicateId (atoi field)))
        | some (false, _) => some (.ok (fields, atoi field))

/-- `append_row_to_memory` from the n-th allocation on, into an array with room for
`rowCapacity` rows. -/
def appendRowToMemoryFaulty (alloc : Nat → Bool) (n rowCapacity : Nat) (table : TableState)
    (fields : Row) : Except SqlError TableState :=
  let full := table.rows.length == rowCapacity
  if full && !alloc n then .error (sqlSetError [ascii "failed to expand in-memory rowset"])
  else
    let n := if full then n + 1 else n
    if alloc n then
      match copyFields alloc (sqlSetError [ascii "failed to copy inserted row"]) (n + 1) fields with
      | .error e => .error e
      | .ok copies => .ok (appendRowToMemory table copies)
    else .error (sqlSetError [ascii "failed to allocate in-memory row"])

/-- The disk with the table file replaced, if there are new contents. -/
def setFile (disk : Disk) (tableName : Bytes) : Option Bytes → Disk
  | none => disk
  | some file => writeTable disk tableName file

/-- The writes of `execute_insert`. -/
def commitInsertFaulty (faults : Faults) (rowCapacity : Nat) (db : Db) (tableName : Bytes)
    (position : Nat) (table : TableState) (fields : Row) (insertedId : Int) :
    Option (Db × Except SqlError (List Printed)) :=
  match appendCsvRowFaulty faults.file (buildTablePath db.ctx.dbRoot tableName)
      ((db.disk.tables tableName).getD []) fields with
  | (file, .error e) => some (⟨setFile db.disk tableName file, db.ctx⟩, .error e)
  | (file, .ok _) =>
    let disk := setFile db.disk tableName file
    let insertedRowIndex := table.rows.length
    -- the allocations in front are those of `fields`
    match appendRowToMemoryFaulty faults.alloc (table.schema.columnCount + 1) rowCapacity table
        fields with
    | .error e => some (⟨disk, db.ctx⟩, .error e)
    | .ok table =>
      match bptreeInsert faults.node table.index insertedId insertedRowIndex with
      | none => none
      | some (index, .error e) =>
        let db : Db := ⟨disk, db.ctx.setTable position { table with index }⟩
        match faults.reload with
        | some e => some (db, .error e)
        | none =>
          match dbContextReloadTable db tableName with
          | none => none
          | some (db, .error e) => some (db, .error e)
          | some (db, .ok _) => some (db, .error e)
      | some (index, .ok _) =>
        let table := { table with index, nextId := nextIdAfter table.nextId insertedId }
        some (⟨disk, db.ctx.setTable position table⟩, .ok [.insertDone])

/-- `execute_insert` on a table in memory, whose rows have room for `rowCapacity`. -/
def executeInsertFaulty (faults : Faults) (rowCapacity : Nat) (query : Query) (db : Db) :
    Option (Db × Except SqlError (List Printed)) :=
  match dbContextGetTable db query.tableName with
  | none => none
  | some (db, .error e) => some (db, .error e)
  | some (db, .ok position) =>
    match db.ctx.tables[position]? with
    | none => none
    | some table =>
      match prepareInsertFaulty faults.alloc table query.values with
      | none => none
      | some (.error e) => some (db, .error e)
      | some (.ok (fields, insertedId)) =>
        commitInsertFaulty faults rowCapacity db (query.tableName.getD []) position table fields
          insertedId

/-! ## Allocations -/

theorem copyFields_eq (alloc : Nat → Bool) (error : SqlError) (n : Nat) (fields : List Bytes) :
    copyFields alloc error n fields =
      if ∀ i < fields.length, alloc (n + i) = true then .ok fields else .error error := by
  induction fields generalizing n with
  | nil => simp [copyFields]
  | cons field fields ih =>
    have hsplit : (∀ i < (field :: fields).length, alloc (n + i) = true) ↔
        alloc n = true ∧ ∀ i < fields.length, alloc (n + 1 + i) = true := by
      rw [List.length_cons, Nat.forall_lt_succ_left]
      simp only [Nat.add_zero, Nat.add_assoc, Nat.add_comm 1]
    rw [copyFields, ih]
    by_cases hfirst : alloc n = true
    · by_cases hrest : ∀ i < fields.length, alloc (n + 1 + i) = true
      · rw [if_pos hfirst, if_pos hrest, if_pos (hsplit.mpr ⟨hfirst, hrest⟩)]
      · rw [if_pos hfirst, if_neg hrest, if_neg fun h => hrest (hsplit.mp h).2]
    · rw [if_neg hfirst, if_neg fun h => hfirst (hsplit.mp h).1]

theorem copyFields_ok {alloc : Nat → Bool} {n : Nat} {fields : List Bytes} (error : SqlError)
    (h : ∀ i < fields.length, alloc (n + i) = true) : copyFields alloc error n fields = .ok fields := by
  rw [copyFields_eq, if_pos h]

theorem copyFields_error {alloc : Nat → Bool} {n i : Nat} (error : SqlError) (fields : List Bytes)
    (hfrom : n ≤ i) (hto : i < n + fields.length) (hfailed : alloc i = false) :
    copyFields alloc error n fields = .error error := by
  rw [copyFields_eq, if_neg]
  intro hall
  have hcopy := hall (i - n) (by omega)
  rw [Nat.add_sub_cancel' hfrom, hfailed] at hcopy
  cases hcopy

/-- Before it writes, an INSERT allocates the row and a copy of each field. -/
theorem insertFieldsFaulty_ok {alloc : Nat → Bool} {table : TableState} {values : List Bytes}
    (h : ∀ i ≤ table.schema.columnCount, alloc i = true) :
    insertFieldsFaulty alloc table values = insertFields table values := by
  have hrow : alloc 0 = true := h 0 (by omega)
  rw [insertFieldsFaulty, insertFields]
  by_cases hcount : values.length = table.schema.columnCount
  · rw [if_pos hcount, if_pos hcount, if_pos hrow, copyFields_ok _ fun i hi => h _ (by omega)]
  · rw [if_neg hcount, if_neg hcount]
    by_cases hauto : table.schema.autoincrement = true ∧ table.schema.primaryKeyIndex = 0 ∧
        (values.length : Int) = table.schema.columnCount - 1
    · rw [if_pos hauto, if_pos hauto, if_pos hrow, if_pos (h 1 (by omega)),
        copyFields_ok _ fun i hi => h _ (by omega)]
    · rw [if_neg hauto, if_neg hauto]

theorem insertFieldsFaulty_error {alloc : Nat → Bool} {table : TableState} (values : List Bytes)
    {i : Nat} (hi : i ≤ table.schema.columnCount) (hfailed : alloc i = false) :
    ∃ e, insertFieldsFaulty alloc table values = .error e := by
  have hlater : ∀ {n}, alloc n = true → i ≠ n := by
    rintro n hn rfl
    rw [hn] at hfailed
    cases hfailed
  rw [insertFieldsFaulty]
  by_cases hcount : values.length = table.schema.columnCount
  · rw [if_pos hcount]
    cases hrow : alloc 0 with
    | false => exact ⟨_, rfl⟩
    | true =>
      have hpos := hlater hrow
      rw [copyFields_error fieldValueFailed values (by omega) (by omega) hfailed]
      exact ⟨_, rfl⟩
  · rw [if_neg hcount]
    by_cases hauto : table.schema.autoincrement = true ∧ table.schema.primaryKeyIndex = 0 ∧
        (values.length : Int) = table.schema.columnCount - 1
    · rw [if_pos hauto]
      cases hrow : alloc 0 with
      | false => exact ⟨_, rfl⟩
      | true =>
        cases hid : alloc 1 with
        | false => exact ⟨_, rfl⟩
        | true =>
          have hpos := hlater hrow
          have hvalue := hlater hid
          rw [copyFields_error fieldValueFailed values (by omega) (by omega) hfailed]
          exact ⟨_, rfl⟩
    · rw [if_neg hauto]
      exact ⟨_, rfl⟩

theorem prepareInsertFaulty_ok {alloc : Nat → Bool} {table : TableState} {values : List Bytes}
    (h : ∀ i ≤ table.schema.columnCount, alloc i = true) :
    prepareInsertFaulty alloc table values = prepareInsert table values := by
  rw [prepareInsertFaulty, insertFieldsFaulty_ok h]
  rfl

/-- The allocations of a row's copy in memory. -/
def rowAllocs (rowCapacity : Nat) (table : TableState) (fields : Row) : Nat :=
  (if table.rows.length = rowCapacity then 1 else 0) + 1 + fields.length

theorem appendRowToMemoryFaulty_ok {alloc : Nat → Bool} {n rowCapacity : Nat} {table : TableState}
    {fields : Row} (h : ∀ i < rowAllocs rowCapacity table fields, alloc (n + i) = true) :
    appendRowToMemoryFaulty alloc n rowCapacity table fields =
      .ok (appendRowToMemory table fields) := by
  unfold rowAllocs at h
  by_cases hfull : table.rows.length = rowCapacity
  · rw [if_pos hfull] at h
    have hexpand : alloc n = true := h 0 (by omega)
    have hrow : alloc (n + 1) = true := h 1 (by omega)
    have hcopies : ∀ i < fields.length, alloc (n + 1 + 1 + i) = true := by
      intro i hi
      have := h (2 + i) (by omega)
      rwa [← Nat.add_assoc] at this
    simp [appendRowToMemoryFaulty, hfull, hexpand, hrow, copyFields_ok _ hcopies]
  · rw [if_neg hfull] at h
    have hrow : alloc n = true := h 0 (by omega)
    have hcopies : ∀ i < fields.length, alloc (n + 1 + i) = true := by
      intro i hi
      have := h (1 + i) (by omega)
      rwa [← Nat.add_assoc] at this
    simp [appendRowToMemoryFaulty, hfull, hrow, copyFields_ok _ hcopies]

theorem appendRowToMemoryFaulty_error {alloc : Nat → Bool} {n rowCapacity i : Nat}
    {table : TableState} {fields : Row} (hi : i < rowAllocs rowCapacity table fields)
    (hfailed : alloc (n + i) = false) :
    ∃ e, appendRowToMemoryFaulty alloc n rowCapacity table fields = .error e := by
  have hlater : ∀ {m}, alloc m = true → n + i ≠ m := by
    intro m hm heq
    rw [heq, hm] at hfailed
    cases hfailed
  unfold rowAllocs at hi
  by_cases hfull : table.rows.length = rowCapacity
  · rw [if_pos hfull] at hi
    cases hexpand : alloc n with
    | false => simp [appendRowToMemoryFaulty, hfull, hexpand]
    | true =>
      cases hrow : alloc (n + 1) with
      | false => simp [appendRowToMemoryFaulty, hfull, hexpand, hrow]
      | true =>
        have hpos := hlater hexpand
        have hcopy := hlater hrow
        have hcopies := fun error =>
          copyFields_error error fields (by omega : n + 1 + 1 ≤ n + i) (by omega) hfailed
        simp [appendRowToMemoryFaulty, hfull, hexpand, hrow, hcopies]
  · rw [if_neg hfull] at hi
    cases hrow : alloc n with
    | false => simp [appendRowToMemoryFaulty, hfull, hrow]
    | true =>
      have hpos := hlater hrow
      have hcopies := fun error =>
        copyFields_error error fields (by omega : n + 1 ≤ n + i) (by omega) hfailed
      simp [appendRowToMemoryFaulty, hfull, hrow, hcopies]

theorem appendRowToMemoryFaulty_eq {alloc : Nat → Bool} {n rowCapacity : Nat}
    {table table' : TableState} {fields : Row}
    (h : appendRowToMemoryFaulty alloc n rowCapacity table fields = .ok table') :
    table' = appendRowToMemory table fields := by
  by_cases hallocs : ∀ i < rowAllocs rowCapacity table fields, alloc (n + i) = true
  · rw [appendRowToMemoryFaulty_ok hallocs] at h
    cases h
    rfl
  · push Not at hallocs
    obtain ⟨i, hi, hfailed⟩ := hallocs
    obtain ⟨e, hmemory⟩ := appendRowToMemoryFaulty_error hi (Bool.eq_false_of_not_eq_true hfailed)
    rw [hmemory] at h
    cases h

/-! ## Without failures -/

theorem commitInsertFaulty_never (rowCapacity : Nat) (db : Db) (tableName : Bytes) (position : Nat)
    (table : TableState) (fields : Row) (id : Int) :
    commitInsertFaulty .never rowCapacity db tableName position table fields id =
      commitInsert db tableName position table fields id := by
  by_cases hempty : fields = []
  · simp [commitInsertFaulty, commitInsert, appendCsvRowFaulty, appendCsvRow, hempty, setFile]
  · have hfile : appendCsvRowFaulty Faults.never.file (buildTablePath db.ctx.dbRoot tableName)
        ((db.disk.tables tableName).getD []) fields =
          (some ((db.disk.tables tableName).getD [] ++ csvLine fields), .ok ()) :=
      appendCsvRowFaulty_ok hempty rfl _ _ (fun _ _ => rfl) rfl
    have hmemory : appendRowToMemoryFaulty Faults.never.alloc (table.schema.columnCount + 1)
        rowCapacity table fields = .ok (appendRowToMemory table fields) :=
      appendRowToMemoryFaulty_ok fun _ _ => rfl
    have hnode : Faults.never.node = allocated := rfl
    have hwritten : appendCsvRow ((db.disk.tables tableName).getD []) fields =
        .ok ((db.disk.tables tableName).getD [] ++ csvLine fields) := by
      simp [appendCsvRow, hempty]
    simp only [commitInsertFaulty, commitInsert, hfile, hmemory, hnode, hwritten]
    rcases bptreeInsert allocated (appendRowToMemory table fields).index id table.rows.length with
      _ | ⟨index, e | _⟩
    · rfl
    · rfl
    · rfl

/-- If no call fails, this is the `execute_insert` of the rest of the model. -/
theorem executeInsertFaulty_never (rowCapacity : Nat) (query : Query) (db : Db) :
    executeInsertFaulty .never rowCapacity query db = executeInsert query db := by
  have hprepare : ∀ table values, prepareInsertFaulty Faults.never.alloc table values =
      prepareInsert table values := fun table values => prepareInsertFaulty_ok fun _ _ => rfl
  rcases hget : dbContextGetTable db query.tableName with _ | ⟨db', e | position⟩
  · simp only [executeInsertFaulty, executeInsert, hget]
  · simp only [executeInsertFaulty, executeInsert, hget]
  · cases hhere : db'.ctx.tables[position]? with
    | none => simp only [executeInsertFaulty, executeInsert, hget, hhere]
    | some table =>
      rcases hchecks : prepareInsert table query.values with _ | e | ⟨fields, id⟩
      · simp only [executeInsertFaulty, executeInsert, hget, hhere, hprepare, hchecks]
      · simp only [executeInsertFaulty, executeInsert, hget, hhere, hprepare, hchecks]
      · simp only [executeInsertFaulty, executeInsert, hget, hhere, hprepare, hchecks,
          commitInsertFaulty_never]

/-! ## Runs with failures -/

/-- Every table in memory has a well-formed index, whatever it holds. -/
def Indexed (db : Db) : Prop := ∀ table ∈ db.ctx.tables, ∃ m, Represents table.index m

theorem indexed_of_load {disk : Disk} {dbRoot tableName : Bytes} {table : TableState}
    (h : tableStateLoad disk dbRoot tableName = some (.ok table)) :
    ∃ m, Represents table.index m :=
  ⟨_, (tableStateLoad_valid h).index⟩

theorem commitInsertFaulty_indexed {faults : Faults} {rowCapacity : Nat} {db db' : Db}
    {tableName : Bytes} {position : Nat} {table : TableState} {fields : Row} {id : Int}
    {out : Except SqlError (List Printed)} (hdb : Indexed db)
    (ht : ∃ m, Represents table.index m)
    (h : commitInsertFaulty faults rowCapacity db tableName position table fields id =
      some (db', out)) : Indexed db' := by
  unfold commitInsertFaulty at h
  split at h
  · cases h
    exact hdb
  · split at h
    · cases h
      exact hdb
    · rename_i table' hmemory
      obtain rfl := appendRowToMemoryFaulty_eq hmemory
      obtain ⟨m, hrep⟩ := ht
      rcases hins : bptreeInsert faults.node (appendRowToMemory table fields).index id
        table.rows.length with _ | ⟨index, e | _⟩
      · simp only [hins] at h
        cases h
      · -- The index does not have the new key, and may have lost others.
        have hset := forall_setTable hdb (bptreeInsert_represents hrep hins : ∃ m', Represents
          ({ appendRowToMemory table fields with index } : TableState).index m') position
        simp only [hins] at h
        cases hfailed : faults.reload with
        | some e =>
          simp only [hfailed] at h
          cases h
          exact hset
        | none =>
          simp only [hfailed] at h
          split at h
          · cases h
          · rename_i hreload
            cases h
            exact dbContextReloadTable_forall_table indexed_of_load hreload hset
          · rename_i hreload
            cases h
            exact dbContextReloadTable_forall_table indexed_of_load hreload hset
      · simp only [hins] at h
        cases h
        exact forall_setTable hdb (bptreeInsert_represents hrep hins) position

theorem executeInsertFaulty_indexed {faults : Faults} {rowCapacity : Nat} {query : Query}
    {db db' : Db} {out : Except SqlError (List Printed)} (hdb : Indexed db)
    (h : executeInsertFaulty faults rowCapacity query db = some (db', out)) : Indexed db' := by
  unfold executeInsertFaulty at h
  split at h
  · cases h
  · rename_i hget
    cases h
    exact (dbContextGetTable_got hget).forall_table indexed_of_load hdb
  · rename_i hget
    have hgot := (dbContextGetTable_got hget).forall_table indexed_of_load hdb
    split at h
    · cases h
    · rename_i table hhere
      split at h
      · cases h
      · cases h
        exact hgot
      · exact commitInsertFaulty_indexed hgot (hgot table (List.mem_of_getElem? hhere)) h

/-- The databases that SELECTs, reloads and INSERTs with any failures lead to. -/
inductive FaultyReachable : Db → Prop
  | create (disk : Disk) (dbRoot : Bytes) : FaultyReachable ⟨disk, dbContextCreate dbRoot⟩
  | select {db db' : Db} {query : Query} {out : Except SqlError (List Printed)}
      (before : FaultyReachable db) (step : executeSelect query db = some (db', out)) :
      FaultyReachable db'
  | insert {db db' : Db} {faults : Faults} {rowCapacity : Nat} {query : Query}
      {out : Except SqlError (List Printed)} (before : FaultyReachable db)
      (step : executeInsertFaulty faults rowCapacity query db = some (db', out)) :
      FaultyReachable db'
  | reload {db db' : Db} {tableName : Bytes} {out : Except SqlError Unit}
      (before : FaultyReachable db) (step : dbContextReloadTable db tableName = some (db', out)) :
      FaultyReachable db'

/-- Whatever has failed so far, the indexes are well formed. -/
theorem FaultyReachable.indexed {db : Db} (h : FaultyReachable db) : Indexed db := by
  induction h with
  | create disk dbRoot => simp [Indexed, dbContextCreate]
  | select _ hstep ih =>
    obtain ⟨got, hgot⟩ := executeSelect_got hstep
    exact hgot.forall_table indexed_of_load ih
  | insert _ hstep ih => exact executeInsertFaulty_indexed ih hstep
  | reload _ hstep ih => exact dbContextReloadTable_forall_table indexed_of_load hstep ih

end MiniSql.Query
