import MiniSql.Query.Durability
import MiniSql.Storage.NumberText

/-!
# Ids that an INSERT leaves out

The counter of a table is one above the largest id as long as no row has the
largest `int` as its id: it starts there, and every accepted INSERT keeps it there.
An INSERT without an id is then always accepted. With the largest `int` in the
table the counter has nowhere to go.
-/

namespace MiniSql.Query

open Storage Index

/-- The primary key is the first column, an int that counts by itself. -/
structure AutoKey (schema : Schema) : Prop where
  autoincrement : schema.autoincrement = true
  first : schema.primaryKeyIndex = 0
  int : ∃ column rest, schema.columns = column :: rest ∧ column.type = .int

/-- The values of a row without its id, each of its column's type. -/
def WithoutId (schema : Schema) (values : List Bytes) : Prop :=
  List.Forall₂ (fun column value => matchesType column value = true) schema.columns.tail values

/-- In the range of a 32-bit `int`. -/
def InInt (n : Int) : Prop := -2 ^ 31 ≤ n ∧ n ≤ intMax

theorem Reachable.nextId {db : Db} (hdb : Reachable db) : ∀ table ∈ db.ctx.tables,
    NoMaxId table.schema table.rows → table.nextId = maxKey table.schema table.rows + 1 :=
  hdb.forall_table tableStateLoad_nextId fun _ hbefore hprep => hprep.nextId hbefore

/-- The row that an INSERT without an id builds. -/
theorem AutoKey.fields {table : TableState} (h : AutoKey table.schema) {values : List Bytes}
    (hvalues : WithoutId table.schema values) :
    insertFields table values = .ok (decimal table.nextId :: values) ∧
      WellTyped table.schema (decimal table.nextId :: values) := by
  obtain ⟨column, rest, hcolumns, hint⟩ := h.int
  rw [WithoutId, hcolumns, List.tail_cons] at hvalues
  have hlen := hvalues.length_eq
  have hcount : table.schema.columnCount = values.length + 1 := by
    rw [Schema.columnCount, hcolumns, List.length_cons, hlen]
  constructor
  · rw [insertFields, if_neg (by omega), if_pos ⟨h.autoincrement, h.first, by omega⟩]
  · rw [WellTyped, hcolumns, List.forall₂_cons]
    refine ⟨?_, hvalues⟩
    rw [matchesType, hint]
    exact isIntegerString_decimal table.nextId

/-- An id above all others passes every check. -/
theorem AutoKey.prepared {table : TableState} (h : AutoKey table.schema) (ht : table.Valid)
    (hrange : InInt table.nextId)
    (habove : ∀ row ∈ table.rows, ∀ key, rowKey table.schema row = some key → key < table.nextId)
    {values : List Bytes} (hvalues : WithoutId table.schema values) :
    prepareInsert table values = some (.ok (decimal table.nextId :: values, table.nextId)) := by
  obtain ⟨hfields, htyped⟩ := h.fields hvalues
  have hkey : keyField table.schema (decimal table.nextId :: values) =
      some (decimal table.nextId) := by
    simp [keyField, h.first]
  have hnew : keyMap table.schema table.rows table.nextId = none := by
    rw [keyMap_eq_none]
    intro row hrow heq
    exact absurd (habove row hrow _ heq) (lt_irrefl _)
  obtain ⟨row, hsearch⟩ := (search_false_iff ht).mpr hnew
  simp only [prepareInsert, hfields, checkFields_of_typed htyped, hkey, atoi_decimal hrange.1 hrange.2, hsearch]

/-- **When the counter is fresh.** In every state that a run reaches, a table with
an autoincrement key in its first column has a positive counter above every id in
the index, with no id and no maximum so far whose successor is outside `int`, and
takes every well-typed INSERT that leaves the id out, if and only if no row has the
largest `int` as its id. -/
theorem autoincrement_fresh_iff {db : Db} (hdb : Reachable db) {tableName : Bytes} {position : Nat}
    {table : TableState} (hloaded : Loaded db tableName position table)
    (hauto : AutoKey table.schema) :
    (0 < table.nextId ∧
      (∀ key i, bptreeSearch table.index key = some (true, i) →
        key < table.nextId ∧ InInt (key + 1)) ∧
      InInt (maxKey table.schema table.rows + 1) ∧
      ∀ query : Query, query.type = .insert → query.tableName = some tableName →
        WithoutId table.schema query.values →
        ∃ db', executeQuery query db = some (db', .ok [.insertDone])) ↔
      NoMaxId table.schema table.rows := by
  have hmem := List.mem_of_getElem? hloaded.here
  have ht := hdb.valid.tables table hmem
  constructor
  · rintro ⟨-, hkeys, -, -⟩ row hrow hmax
    obtain ⟨i, hsearch⟩ := (search_found_iff ht).mpr ⟨row, hrow, hmax⟩
    obtain ⟨-, -, hhi⟩ := hkeys intMax i hsearch
    exact absurd hhi (by decide)
  · intro hmax
    obtain ⟨hnonneg, -, hbound⟩ := maxKey_spec table.schema table.rows
    have hlt := maxKey_lt hmax
    have hnext := hdb.nextId table hmem hmax
    have hrange : InInt (maxKey table.schema table.rows + 1) := ⟨by omega, by omega⟩
    refine ⟨by omega, fun key i hsearch => ?_, hrange, fun query htype hname hvalues => ?_⟩
    · obtain ⟨row, hrow, hkey⟩ := (search_found_iff ht).mp ⟨i, hsearch⟩
      have hle := hbound row hrow key hkey
      have hlo := (rowKey_range hkey).1
      exact ⟨by omega, by omega, by omega⟩
    · have habove : ∀ row ∈ table.rows, ∀ key, rowKey table.schema row = some key →
          key < table.nextId := by
        intro row hrow key hkey
        have hle := hbound row hrow key hkey
        omega
      have hprepare := hauto.prepared ht (hnext ▸ hrange) habove hvalues
      have hprep := prepareInsert_ok hprepare
      obtain ⟨index, hins, -⟩ := hprep.insert ht
      refine ⟨_, Eq.trans ?_ (commitInsert_eq hprep db tableName position hins)⟩
      simp only [executeQuery, htype, executeInsert, hname, hloaded.getTable, hloaded.here,
        Option.getD_some, hprepare]

theorem autoincrement_fresh_users : ∃ db table db', Loaded db (ascii "users") 0 table ∧
    table.nextId = 8 ∧
    executeQuery ⟨.insert, some (ascii "users"), [ascii "eve"], none⟩ db =
      some (db', .ok [.insertDone]) := by
  have heval : ((tableStateLoad usersDb.disk usersDb.ctx.dbRoot (ascii "users")).bind
      Except.toOption).map (fun table => decide (table.nextId = 8 ∧
        NoMaxId table.schema table.rows ∧ table.schema.autoincrement = true ∧
        table.schema.primaryKeyIndex = 0 ∧
        table.schema.columns.map ColumnDef.type = [.int, .string])) = some true := by
    decide +kernel
  simp only [Option.map_eq_some_iff, Option.bind_eq_some_iff, toOption_eq_some,
    decide_eq_true_eq] at heval
  obtain ⟨table, ⟨_, hload, rfl⟩, hnext, hmax, hautoincrement, hfirst, htypes⟩ := heval
  obtain ⟨column, rest, hcolumns, hint, hrest⟩ := List.map_eq_cons_iff.mp htypes
  obtain ⟨name, rfl, hstring⟩ := List.map_eq_singleton_iff.mp hrest
  have habsent : findTable usersDb.ctx.tables (ascii "users") = none := rfl
  have hdb := (Reachable.create usersDisk (ascii "db")).load habsent hload
  have hloaded := (loaded_of_load habsent hload).2
  have hauto : AutoKey table.schema := ⟨hautoincrement, hfirst, column, _, hcolumns, hint⟩
  obtain ⟨-, -, -, hinsert⟩ := (autoincrement_fresh_iff hdb hloaded hauto).mpr hmax
  have hvalues : WithoutId table.schema [ascii "eve"] := by
    simp [WithoutId, hcolumns, matchesType, hstring]
  obtain ⟨db', hrun⟩ :=
    hinsert ⟨.insert, some (ascii "users"), [ascii "eve"], none⟩ rfl rfl hvalues
  exact ⟨_, table, db', hloaded, hnext, hrun⟩

/-- Behind an INSERT of the largest `int` the counter is negative, and behind a load
of that file it is 1 again, which a row has already. -/
theorem counter_runs_over : ∃ db₁ db₂ db₃,
    executeQuery ⟨.insert, some (ascii "users"), [ascii "2147483647", ascii "max"], none⟩ usersDb =
      some (db₁, .ok [.insertDone]) ∧
    db₁.ctx.tables.map TableState.nextId = [-2147483648] ∧
    dbContextReloadTable db₁ (ascii "users") = some (db₂, .ok ()) ∧
    executeQuery ⟨.insert, some (ascii "users"), [ascii "eve"], none⟩ db₂ =
      some (db₃, .error (duplicateId 1)) := by
  have heval : (executeQuery ⟨.insert, some (ascii "users"), [ascii "2147483647", ascii "max"], none⟩
      usersDb).bind (fun r₁ => (dbContextReloadTable r₁.1 (ascii "users")).bind fun r₂ =>
        (executeQuery ⟨.insert, some (ascii "users"), [ascii "eve"], none⟩ r₂.1).map fun r₃ =>
          decide (r₁.2 = .ok [.insertDone] ∧ r₁.1.ctx.tables.map TableState.nextId = [-2147483648] ∧
            r₂.2 = .ok () ∧ r₃.2 = .error (duplicateId 1))) = some true := by
    decide +kernel
  simp only [Option.bind_eq_some_iff, Option.map_eq_some_iff, decide_eq_true_eq] at heval
  obtain ⟨⟨db₁, _⟩, hinsert, ⟨db₂, _⟩, hreload, ⟨db₃, _⟩, homitted, rfl, hnext, rfl, rfl⟩ := heval
  exact ⟨db₁, db₂, db₃, hinsert, hnext, hreload, homitted⟩

end MiniSql.Query
