import MiniSql.Index.Reload
import MiniSql.Query.Grammar
import MiniSql.Query.Reachable

/-!
# What a restart finds

After a sequence of accepted INSERT texts the table file is the loaded file and
one line for each row. Loading it again restores the table in memory exactly
when every new row is storable and the next id did not run past the largest
`int`.
-/

namespace MiniSql.Query

open Storage Index

/-- A table as it was just loaded from a file whose last line is complete. -/
structure Opened (db : Db) (tableName file : Bytes) (position : Nat) (table : TableState) :
    Prop where
  here : Loaded db tableName position table
  load : tableStateLoad db.disk db.ctx.dbRoot tableName = some (.ok table)
  file_eq : db.disk.tables tableName = some file
  ends : EndsLine file

/-- Runs of INSERT texts that the parser and the executor accept. -/
inductive InsertRun (tableName : Bytes) (db : Db) : Db → Prop
  | start : InsertRun tableName db db
  | insert {db₁ db₂ : Db} {sql : Bytes} {query : Query} {out : List Printed}
      (before : InsertRun tableName db db₁) (parsed : parseSqlText sql .zero = (query, .ok ()))
      (isInsert : query.type = .insert) (name : query.tableName = some tableName)
      (run : executeQuery query db₁ = some (db₂, .ok out)) : InsertRun tableName db db₂

/-- Loading the file gives the table in memory: as many rows, the same index and
the same next id, the fields up to the whitespace around them. -/
def Restores (db : Db) (tableName : Bytes) (table : TableState) : Prop :=
  ∃ reloaded, tableStateLoad db.disk db.ctx.dbRoot tableName = some (.ok reloaded) ∧
    reloaded.rows.length = table.rows.length ∧
    (∀ key, bptreeSearch reloaded.index key = bptreeSearch table.index key) ∧
    reloaded.nextId = table.nextId ∧
    reloaded.rows.map (·.map trim) = table.rows.map (·.map trim)

/-! ## The next id -/

theorem maxKey_spec (schema : Schema) (rows : List Row) :
    0 ≤ maxKey schema rows ∧
      (maxKey schema rows = 0 ∨ ∃ row ∈ rows, rowKey schema row = some (maxKey schema rows)) ∧
      ∀ row ∈ rows, ∀ key, rowKey schema row = some key → key ≤ maxKey schema rows := by
  induction rows using List.reverseRecOn with
  | nil => simp [maxKey]
  | append_singleton rows row ih =>
    obtain ⟨hnonneg, hattained, hbound⟩ := ih
    rw [maxKey_append]
    refine ⟨by omega, ?_, ?_⟩
    · cases hkey : rowKey schema row with
      | none =>
        rw [Option.getD_none, Int.max_eq_left hnonneg]
        rcases hattained with hzero | ⟨other, hother, heq⟩
        · exact .inl hzero
        · exact .inr ⟨other, List.mem_append_left _ hother, heq⟩
      | some key =>
        rw [Option.getD_some]
        rcases Int.le_total key (maxKey schema rows) with hle | hle
        · rw [Int.max_eq_left hle]
          rcases hattained with hzero | ⟨other, hother, heq⟩
          · exact .inl hzero
          · exact .inr ⟨other, List.mem_append_left _ hother, heq⟩
        · rw [Int.max_eq_right hle]
          exact .inr ⟨row, by simp, hkey⟩
    · intro other hother key hkey
      rcases List.mem_append.mp hother with hother | hother
      · have := hbound other hother key hkey
        omega
      · rw [List.mem_singleton.mp hother] at hkey
        rw [hkey, Option.getD_some]
        omega

theorem rowKey_range {schema : Schema} {row : Row} {key : Int} (h : rowKey schema row = some key) :
    -2 ^ 31 ≤ key ∧ key ≤ intMax := by
  obtain ⟨field, -, rfl⟩ := Option.map_eq_some_iff.mp h
  exact atoi_range field

/-- No row has the largest `int` as its id. -/
def NoMaxId (schema : Schema) (rows : List Row) : Prop :=
  ∀ row ∈ rows, rowKey schema row ≠ some intMax

instance (schema : Schema) (rows : List Row) : Decidable (NoMaxId schema rows) :=
  inferInstanceAs (Decidable (∀ row ∈ rows, rowKey schema row ≠ some intMax))

theorem maxKey_lt {schema : Schema} {rows : List Row} (h : NoMaxId schema rows) :
    maxKey schema rows < intMax := by
  obtain ⟨-, hattained, -⟩ := maxKey_spec schema rows
  rcases hattained with hzero | ⟨row, hrow, hkey⟩
  · rw [hzero]
    decide
  · have hne : maxKey schema rows ≠ intMax := fun heq => h row hrow (heq ▸ hkey)
    have := (rowKey_range hkey).2
    omega

theorem maxKey_eq_intMax {schema : Schema} {rows : List Row} (h : ¬ NoMaxId schema rows) :
    maxKey schema rows = intMax := by
  obtain ⟨hnonneg, hattained, hbound⟩ := maxKey_spec schema rows
  simp only [NoMaxId, ne_eq, not_forall, Decidable.not_not] at h
  obtain ⟨row, hrow, hkey⟩ := h
  have hle := hbound row hrow intMax hkey
  rcases hattained with hzero | ⟨other, hother, heq⟩
  · rw [hzero] at hle
    exact absurd hle (by decide)
  · have := (rowKey_range heq).2
    omega

theorem initialNextId_eq {schema : Schema} {rows : List Row} (h : NoMaxId schema rows) :
    initialNextId (maxKey schema rows) = maxKey schema rows + 1 := by
  have hlt := maxKey_lt h
  have hnonneg := (maxKey_spec schema rows).1
  have hwrap : toInt32 (maxKey schema rows + 1) = maxKey schema rows + 1 :=
    toInt32_of_range (by omega) (by unfold intMax at hlt; omega)
  rw [initialNextId, hwrap, if_neg (by omega)]

theorem initialNextId_intMax : initialNextId intMax = 1 := by decide

theorem tableStateLoad_nextId {disk : Disk} {dbRoot tableName : Bytes} {table : TableState}
    (h : tableStateLoad disk dbRoot tableName = some (.ok table))
    (hmax : NoMaxId table.schema table.rows) :
    table.nextId = maxKey table.schema table.rows + 1 := by
  obtain ⟨text, file, -, -, -, hrows⟩ := tableStateLoad_ok h
  obtain ⟨-, -, -, -, -, hnext⟩ := loadRows_spec hrows
  rw [hnext, initialNextId_eq hmax]

/-- The counter stays one above the largest id. -/
theorem Prepared.nextId {table : TableState} {values : List Bytes} {fields : Row} {id : Int}
    (h : Prepared table values fields id)
    (hbefore : NoMaxId table.schema table.rows →
      table.nextId = maxKey table.schema table.rows + 1)
    (hmax : NoMaxId table.schema (table.rows ++ [fields])) :
    nextIdAfter table.nextId id = maxKey table.schema (table.rows ++ [fields]) + 1 := by
  have hnext := hbefore fun row hrow => hmax row (List.mem_append_left _ hrow)
  have hne : id ≠ intMax := fun heq => hmax fields (by simp) (heq ▸ h.key)
  have hrange := rowKey_range h.key
  have hwrap : toInt32 (id + 1) = id + 1 :=
    toInt32_of_range (by omega) (by unfold intMax at *; omega)
  rw [nextIdAfter, hnext, hwrap, maxKey_append, h.key, Option.getD_some]
  omega

/-! ## What a run leaves -/

/-- The table and its file after a run, and the rows that were added. -/
structure Appended (db₀ : Db) (tableName file : Bytes) (position : Nat) (table₀ : TableState)
    (db : Db) (table : TableState) (added : List Row) : Prop where
  here : Loaded db tableName position table
  valid : table.Valid
  schema_eq : table.schema = table₀.schema
  rows_eq : table.rows = table₀.rows ++ added
  root_eq : db.ctx.dbRoot = db₀.ctx.dbRoot
  schemas_eq : db.disk.schemas = db₀.disk.schemas
  file_eq : db.disk.tables tableName = some (file ++ added.flatMap csvLine)
  appendable : ∀ fields ∈ added, Appendable table₀.schema.columnCount fields
  nextId : NoMaxId table.schema table.rows →
    table.nextId = maxKey table.schema table.rows + 1

theorem Opened.appended {db : Db} {tableName file : Bytes} {position : Nat} {table : TableState}
    (h : Opened db tableName file position table) :
    Appended db tableName file position table db table [] := by
  exact ⟨h.here, tableStateLoad_valid h.load, rfl, by simp, rfl, rfl, by simpa using h.file_eq,
    by simp, tableStateLoad_nextId h.load⟩

theorem insertFields_nulFree {table : TableState} {values : List Bytes} {fields : Row}
    (h : insertFields table values = .ok fields) (hvalues : ∀ value ∈ values, 0 ∉ value) :
    ∀ field ∈ fields, 0 ∉ field := by
  unfold insertFields at h
  split at h
  · cases h
    exact hvalues
  · split at h
    · cases h
      exact List.forall_mem_cons.mpr ⟨decimal_nulFree _, hvalues⟩
    · cases h

/-- One accepted INSERT. -/
theorem Appended.insert {db₀ db db' : Db} {tableName file : Bytes} {position : Nat}
    {table₀ table : TableState} {added : List Row}
    (h : Appended db₀ tableName file position table₀ db table added) {query : Query}
    {out : List Printed} (hname : query.tableName = some tableName)
    (hvalues : ∀ value ∈ query.values, 0 ∉ value)
    (hrun : executeInsert query db = some (db', .ok out)) :
    ∃ table' fields, Appended db₀ tableName file position table₀ db' table' (added ++ [fields]) := by
  obtain ⟨fields, id, hprep, hcommit⟩ := executeInsert_loaded h.here hname hrun
  have hprep := prepareInsert_ok hprep
  obtain ⟨index, hins, hvalid⟩ := hprep.insert h.valid
  rw [commitInsert_eq hprep _ _ _ hins] at hcommit
  cases hcommit
  have hname' : (insertedTable table fields id index).name = table.name := rfl
  refine ⟨insertedTable table fields id index, fields, h.here.set hname' _, hvalid, h.schema_eq,
    ?_, h.root_eq, h.schemas_eq, ?_, ?_, hprep.nextId h.nextId⟩
  · simp [insertedTable, h.rows_eq]
  · simp [writeTable, h.file_eq]
  · intro row hrow
    rcases List.mem_append.mp hrow with hrow | hrow
    · exact h.appendable row hrow
    · rw [List.mem_singleton.mp hrow]
      refine ⟨?_, ?_, insertFields_nulFree hprep.fields_eq hvalues⟩
      · rw [insertFields_length hprep.fields_eq, h.schema_eq]
      · simpa using hprep.nonempty

theorem InsertRun.appended {db₀ db : Db} {tableName file : Bytes} {position : Nat}
    {table₀ : TableState} (hopen : Opened db₀ tableName file position table₀)
    (hrun : InsertRun tableName db₀ db) :
    ∃ table added, Appended db₀ tableName file position table₀ db table added := by
  induction hrun with
  | start => exact ⟨table₀, [], hopen.appended⟩
  | insert _ hparsed htype hname hstep ih =>
    obtain ⟨table, added, happ⟩ := ih
    simp only [executeQuery, htype] at hstep
    obtain ⟨table', fields, happ'⟩ := happ.insert hname (parseSqlText_nulFree hparsed) hstep
    exact ⟨table', _, happ'⟩

/-! ## Loading again -/

theorem Opened.read_ok {db : Db} {tableName file : Bytes} {position : Nat} {table : TableState}
    (h : Opened db tableName file position table) :
    readCsvRows file table.schema.columnCount = .ok table.rows ∧
      0 ≤ table.schema.primaryKeyIndex := by
  obtain ⟨text, file', -, -, hfile, hrows⟩ := tableStateLoad_ok h.load
  rw [h.file_eq] at hfile
  cases hfile
  obtain ⟨-, -, -, hread, hpk, -⟩ := loadRows_spec hrows
  exact ⟨hread, hpk⟩

theorem Appended.sameKeys {db₀ db : Db} {tableName file : Bytes} {position : Nat}
    {table₀ table : TableState} {added : List Row}
    (h : Appended db₀ tableName file position table₀ db table added) :
    SameKeys table₀.schema table.rows (table₀.rows ++ added.map (·.map trim)) := by
  have htrim : ∀ rows : List Row, (rows.map (·.map trim)).map (rowKey table₀.schema) =
      rows.map (rowKey table₀.schema) := by
    intro rows
    rw [List.map_map]
    exact List.map_congr_left fun row _ => rowKey_trim table₀.schema row
  rw [SameKeys, h.rows_eq, List.map_append, List.map_append, htrim]

section Reload

variable {db₀ db : Db} {tableName file : Bytes} {position : Nat} {table₀ table : TableState}
  {added : List Row} (hopen : Opened db₀ tableName file position table₀)
  (h : Appended db₀ tableName file position table₀ db table added)
include hopen h

/-- The schema and the bytes that a load of the table starts from. -/
theorem Appended.load_eq :
    tableStateLoad db.disk db.ctx.dbRoot tableName =
      loadRows table₀.schema tableName (file ++ added.flatMap csvLine) := by
  obtain ⟨text, file', htext, hschema, -, -⟩ := tableStateLoad_ok hopen.load
  simp only [tableStateLoad, h.schemas_eq, htext, loadSchemaFile, hschema, h.file_eq, andThen, loadTable]

/-- The rows that a load finds if every added row is storable. -/
theorem Appended.read_storable (hstorable : ∀ fields ∈ added, Storable fields) :
    readCsvRows (file ++ added.flatMap csvLine) table₀.schema.columnCount =
      .ok (table₀.rows ++ added.map (·.map trim)) :=
  readCsvRows_append hopen.ends hopen.read_ok.1 h.appendable hstorable

theorem Appended.restores (hstorable : ∀ fields ∈ added, Storable fields)
    (hnext : NoMaxId table.schema table.rows ∨ table.nextId = 1) : Restores db tableName table := by
  have hsame := h.sameKeys
  have hkeyed : Keyed table₀.schema table.rows := h.schema_eq ▸ h.valid.keyed
  have htyped : ∀ row ∈ table₀.rows ++ added.map (·.map trim), WellTyped table₀.schema row := by
    intro row hrow
    rcases List.mem_append.mp hrow with hrow | hrow
    · exact hkeyed.typed row (h.rows_eq ▸ List.mem_append_left _ hrow)
    · obtain ⟨fields, hfields, rfl⟩ := List.mem_map.mp hrow
      exact (hkeyed.typed fields (h.rows_eq ▸ List.mem_append_right _ hfields)).trim
  obtain ⟨index, hload, hrep⟩ := loadRows_ok tableName (h.read_storable hopen hstorable)
    (hkeyed.congr hsame htyped) hopen.read_ok.2
  refine ⟨_, (h.load_eq hopen).trans hload, ?_, fun key => ?_, ?_, ?_⟩
  · simp [h.rows_eq]
  · rw [search_represents hrep, search_represents h.valid.index, h.schema_eq, keyMap_congr hsame]
  · show initialNextId (maxKey table₀.schema (table₀.rows ++ added.map (·.map trim))) = table.nextId
    rw [← maxKey_congr hsame]
    by_cases hmax : NoMaxId table.schema table.rows
    · rw [h.nextId hmax, h.schema_eq, initialNextId_eq (h.schema_eq ▸ hmax)]
    · rw [h.schema_eq] at hmax
      rw [maxKey_eq_intMax hmax, initialNextId_intMax]
      exact (hnext.resolve_left (h.schema_eq ▸ hmax)).symm
  · simp [h.rows_eq, Function.comp_def, trim_trim]

theorem Appended.of_restores (hrestores : Restores db tableName table) :
    (∀ fields ∈ added, Storable fields) ∧
      (NoMaxId table.schema table.rows ∨ table.nextId = 1) := by
  obtain ⟨reloaded, hload, hlen, -, hnext, -⟩ := hrestores
  rw [h.load_eq hopen] at hload
  obtain ⟨-, -, hschema, hread, -, hnextId⟩ := loadRows_spec hload
  have hstorable : ∀ fields ∈ added, Storable fields :=
    storable_of_readCsvRows hopen.ends hopen.read_ok.1 h.appendable hread
      (by rw [hlen, h.rows_eq, List.length_append])
  refine ⟨hstorable, ?_⟩
  by_cases hmax : NoMaxId table.schema table.rows
  · exact .inl hmax
  · refine .inr ?_
    rw [h.read_storable hopen hstorable] at hread
    rw [h.schema_eq] at hmax
    rw [← hnext, hnextId, ← Except.ok.inj hread, ← maxKey_congr h.sameKeys,
      maxKey_eq_intMax hmax, initialNextId_intMax]

end Reload

/-- **When a restart restores the table.** After any run of accepted INSERT texts
on a loaded table, loading its file gives the table in memory if and only if no
new row has a newline or a line longer than the reader's buffer, and no id is
the largest `int` or else the next id is back at 1. -/
theorem restores_iff_storable {db₀ db : Db} {tableName file : Bytes} {position : Nat}
    {table₀ table : TableState} (hopen : Opened db₀ tableName file position table₀)
    (hrun : InsertRun tableName db₀ db) (hhere : db.ctx.tables[position]? = some table) :
    Restores db tableName table ↔
      (∀ row ∈ table.rows.drop table₀.rows.length, Storable row) ∧
        (NoMaxId table.schema table.rows ∨ table.nextId = 1) := by
  obtain ⟨table', added, h⟩ := hrun.appended hopen
  obtain rfl : table' = table := Option.some.inj (h.here.here.symm.trans hhere)
  have hdrop : table'.rows.drop table₀.rows.length = added := by
    rw [h.rows_eq, List.drop_left]
  rw [hdrop]
  exact ⟨h.of_restores hopen, fun hcond => h.restores hopen hcond.1 hcond.2⟩

theorem Opened.of_load {db : Db} {tableName file : Bytes} {table : TableState}
    (habsent : findTable db.ctx.tables tableName = none)
    (hload : tableStateLoad db.disk db.ctx.dbRoot tableName = some (.ok table))
    (hfile : db.disk.tables tableName = some file) (hends : EndsLine file) :
    Opened ⟨db.disk, db.ctx.dbRoot, db.ctx.tables ++ [table]⟩ tableName file
      db.ctx.tables.length table :=
  ⟨(loaded_of_load habsent hload).2, hload, hfile, hends⟩

theorem usersDb_ends : EndsLine (ascii "1,ann\n7,\"bob\"\n") :=
  .inr ⟨ascii "1,ann\n7,\"bob\"", rfl⟩

theorem restores_iff_storable_users : ∃ db₀ db file position table₀ table,
    Opened db₀ (ascii "users") file position table₀ ∧ InsertRun (ascii "users") db₀ db ∧
      db.ctx.tables[position]? = some table ∧ table.rows.length = 3 ∧
      Restores db (ascii "users") table := by
  let query : Query := ⟨.insert, some (ascii "users"), [ascii " eve\""], none⟩
  have hparsed : parseSqlText (ascii "insert into users values (' eve\"')") .zero =
      (query, .ok ()) := by
    decide +kernel
  have heval : ((tableStateLoad usersDb.disk usersDb.ctx.dbRoot (ascii "users")).bind
      Except.toOption).bind (fun table₀ =>
        (executeQuery query ⟨usersDb.disk, usersDb.ctx.dbRoot, [table₀]⟩).bind fun (db, out) =>
          out.toOption.bind fun _ => db.ctx.tables[0]?.map fun table =>
            decide (table₀.rows.length = 2 ∧ table.rows.length = 3 ∧
              (∀ row ∈ table.rows.drop 2, Storable row) ∧ NoMaxId table.schema table.rows)) =
      some true := by
    decide +kernel
  simp only [Option.bind_eq_some_iff, Option.map_eq_some_iff, toOption_eq_some,
    decide_eq_true_eq] at heval
  obtain ⟨table₀, ⟨_, hload, rfl⟩, ⟨db, _⟩, hstep, out, rfl, table, htable, htwo, hthree, hstorable,
    hmax⟩ := heval
  have hopen := Opened.of_load (rfl : findTable usersDb.ctx.tables (ascii "users") = none) hload rfl
    usersDb_ends
  have hrun : InsertRun (ascii "users") _ db := .insert .start hparsed rfl rfl hstep
  refine ⟨_, db, _, 0, table₀, table, hopen, hrun, htable, hthree, ?_⟩
  exact (restores_iff_storable hopen hrun htable).mpr ⟨htwo ▸ hstorable, .inl hmax⟩

/-- A value with a newline in it is accepted and makes the table unloadable. -/
theorem newline_value_not_restored : ∃ db₀ db file position table₀ table,
    Opened db₀ (ascii "users") file position table₀ ∧ InsertRun (ascii "users") db₀ db ∧
      db.ctx.tables[position]? = some table ∧ ¬ Restores db (ascii "users") table := by
  let query : Query := ⟨.insert, some (ascii "users"), [ascii "a\nb"], none⟩
  have hparsed : parseSqlText (ascii "insert into users values ('a\nb');") .zero = (query, .ok ()) := by
    decide +kernel
  have heval : ((tableStateLoad usersDb.disk usersDb.ctx.dbRoot (ascii "users")).bind
      Except.toOption).bind (fun table₀ =>
        (executeQuery query ⟨usersDb.disk, usersDb.ctx.dbRoot, [table₀]⟩).bind fun (db, out) =>
          out.toOption.bind fun _ => db.ctx.tables[0]?.map fun _ =>
            ((tableStateLoad db.disk db.ctx.dbRoot (ascii "users")).bind Except.toOption).isNone) =
      some true := by
    decide +kernel
  simp only [Option.bind_eq_some_iff, Option.map_eq_some_iff, toOption_eq_some] at heval
  obtain ⟨table₀, ⟨_, hload, rfl⟩, ⟨db, _⟩, hstep, out, rfl, table, htable, hreload⟩ := heval
  refine ⟨_, db, _, 0, table₀, table, .of_load rfl hload rfl usersDb_ends,
    .insert .start hparsed rfl rfl hstep, htable, ?_⟩
  rintro ⟨reloaded, hok, -⟩
  simp [hok, Except.toOption] at hreload

end MiniSql.Query
