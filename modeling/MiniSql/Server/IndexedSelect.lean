import MiniSql.Server.SelectAgreement

/-!
# `WHERE id = ...` and the column named id

A condition on `id` is answered from the index, which files the rows under the
primary key of the schema, whatever its name. The answer is that of a scan of the
column named `id` exactly if there is such a column and it agrees with the primary
key on the value that is asked for.
-/

namespace MiniSql.Server

open Storage Index Query

/-- The rows whose column `id` has the value, found by a scan. -/
def scanById (table : TableState) (value : Bytes) : Except SqlError (List Row) :=
  match findColumnIndex table.schema (ascii "id") with
  | none => .error (unknownColumn (ascii "id"))
  | some columnIndex =>
    .ok (table.rows.filter fun row => row[columnIndex]?.map atoi = some (atoi value))

/-- The table has a column `id`, and a row has the value there exactly if it has it
as its key. -/
def IdIsKey (table : TableState) (value : Bytes) : Prop :=
  ∃ columnIndex, findColumnIndex table.schema (ascii "id") = some columnIndex ∧
    ∀ row ∈ table.rows, row[columnIndex]?.map atoi = some (atoi value) ↔
      rowKey table.schema row = some (atoi value)

/-- Tests that select the same rows of a list agree on it. -/
theorem filter_eq_iff {rows : List Row} {p q : Row → Bool} :
    rows.filter p = rows.filter q ↔ ∀ row ∈ rows, p row = q row := by
  constructor
  · intro h row hrow
    rw [Bool.eq_iff_iff]
    have hmem : row ∈ rows.filter p ↔ row ∈ rows.filter q := by rw [h]
    simpa [List.mem_filter, hrow] using hmem
  · exact List.filter_congr

/-- The rows that the index gives for an id. -/
theorem selection_id {db : Db} {tableName : Bytes} {position : Nat} {table : TableState}
    (hloaded : Loaded db tableName position table) {value : Bytes}
    (hvalue : isIntegerString value = true) {query : Query} (hname : query.tableName = some tableName)
    (hcondition : query.condition = some ⟨ascii "id", value⟩) :
    selection query db = some (db, .ok (table,
      positions table.rows fun row => rowKey table.schema row = some (atoi value))) := by
  simp [selection, hname, hloaded.getTable, hloaded.here, hcondition, selectTest, hvalue, Except.map]

/-- **When `WHERE id` is a scan.** For every table that a run reaches and every
integer string, a SELECT with that condition returns, from `execute_select` and from
`build_select_payload`, exactly the rows whose column `id` has the value, in their
order, and fails for want of a column `id`, if and only if there is such a column
and it agrees with the primary key on the value. -/
theorem where_id_iff {db : Db} (hdb : Reachable db) {tableName : Bytes} {position : Nat}
    {table : TableState} (hloaded : Loaded db tableName position table) {value : Bytes}
    (hvalue : isIntegerString value = true) {query : Query} (hname : query.tableName = some tableName)
    (hcondition : query.condition = some ⟨ascii "id", value⟩) :
    (executeSelect query db = some (db, (scanById table value).map fun rows =>
        .header table.schema :: rows.map .row) ∧
      buildSelectPayload query db = some (db, (scanById table value).map fun rows =>
        selectPayload tableName (rows.map (objectText table.schema)))) ↔ IdIsKey table value := by
  have hselection := selection_id hloaded hvalue hname hcondition
  rw [executeSelect_selection hdb.valid, buildSelectPayload_selection hdb.valid, hselection]
  simp only [Option.map_some, Prod.map_apply, id_eq, Except.map, printedRows, payloadRows,
    rowsAt_positions, hname, Option.getD_some, Option.some.injEq, Prod.mk.injEq, true_and]
  cases hfind : findColumnIndex table.schema (ascii "id") with
  | none => simp [IdIsKey, scanById, hfind]
  | some columnIndex =>
    have hsame : (table.rows.filter fun row => rowKey table.schema row = some (atoi value)) =
        (table.rows.filter fun row => row[columnIndex]?.map atoi = some (atoi value)) ↔
          IdIsKey table value := by
      rw [filter_eq_iff]
      simp only [IdIsKey, hfind, Option.some.injEq, exists_eq_left', decide_eq_decide]
      exact forall₂_congr fun row _ => Iff.comm
    simp only [scanById, hfind, ← hsame, Except.ok.injEq, List.cons.injEq, true_and]
    constructor
    · rintro ⟨hprinted, -⟩
      exact List.map_injective_iff.mpr (fun _ _ h => Printed.row.inj h) hprinted
    · intro hrows
      rw [hrows]
      exact ⟨rfl, rfl⟩

theorem where_id_users : ∃ db table, Loaded db (ascii "users") 0 table ∧
    executeSelect ⟨.select, some (ascii "users"), [], some ⟨ascii "id", ascii "+7"⟩⟩ db =
      some (db, (scanById table (ascii "+7")).map fun rows =>
        .header table.schema :: rows.map .row) ∧
    (scanById table (ascii "+7")).toOption = some [[ascii "7", ascii "bob"]] := by
  have heval : ((tableStateLoad usersDb.disk usersDb.ctx.dbRoot (ascii "users")).bind
      Except.toOption).map (fun table =>
        decide ((scanById table (ascii "+7")).toOption = some [[ascii "7", ascii "bob"]] ∧
          findColumnIndex table.schema (ascii "id") = some 0 ∧
          ∀ row ∈ table.rows, row[0]?.map atoi = some (atoi (ascii "+7")) ↔
            rowKey table.schema row = some (atoi (ascii "+7")))) = some true := by
    decide +kernel
  obtain ⟨table, htable, heval⟩ := Option.map_eq_some_iff.mp heval
  obtain ⟨result, hload, hok⟩ := Option.bind_eq_some_iff.mp htable
  rw [toOption_eq_some.mp hok] at hload
  obtain ⟨hscan, hcolumn, hrows⟩ := of_decide_eq_true heval
  have habsent : findTable usersDb.ctx.tables (ascii "users") = none := rfl
  have hdb := (Reachable.create usersDisk (ascii "db")).load habsent hload
  have hloaded := (loaded_of_load habsent hload).2
  refine ⟨_, table, hloaded, ?_, hscan⟩
  exact ((where_id_iff hdb hloaded (by decide) rfl rfl).mpr ⟨0, hcolumn, hrows⟩).1

/-- A table whose primary key has another name. -/
def codesDisk : Disk where
  schemas := fun name => if name = ascii "codes" then
    some (ascii "table=codes\ncolumns=code:int,name:string\npkey=code\n") else none
  tables := fun name => if name = ascii "codes" then some (ascii "5,ann\n") else none
  nameMax := by
    intro name h
    by_cases hname : name = ascii "codes"
    · rw [hname]
      decide
    · simp [hname] at h

/-- Without a column `id` the condition is answered with the row of that key. -/
theorem where_id_without_id : ∃ db schema,
    executeSelect ⟨.select, some (ascii "codes"), [], some ⟨ascii "id", ascii "5"⟩⟩
        ⟨codesDisk, dbContextCreate (ascii "db")⟩ =
      some (db, .ok [.header schema, .row [ascii "5", ascii "ann"]]) ∧
    (∃ payload, buildSelectPayload ⟨.select, some (ascii "codes"), [], some ⟨ascii "id", ascii "5"⟩⟩
        ⟨codesDisk, dbContextCreate (ascii "db")⟩ = some (db, .ok payload)) ∧
    findColumnIndex schema (ascii "id") = none := by
  let query : Query := ⟨.select, some (ascii "codes"), [], some ⟨ascii "id", ascii "5"⟩⟩
  let start : Db := ⟨codesDisk, dbContextCreate (ascii "db")⟩
  have heval : (selection query start).map (fun r => r.2.toOption.map fun selected =>
      (rowsAt selected.1.rows selected.2, findColumnIndex selected.1.schema (ascii "id"))) =
      some (some ([[ascii "5", ascii "ann"]], none)) := by
    decide +kernel
  have hvalid : Valid start := valid_create codesDisk (ascii "db")
  obtain ⟨⟨db, out⟩, hselection, hout⟩ := Option.map_eq_some_iff.mp heval
  obtain ⟨⟨table, indices⟩, hok, hboth⟩ := Option.map_eq_some_iff.mp hout
  obtain ⟨hrows, hnone⟩ := Prod.mk.inj hboth
  obtain rfl : out = .ok (table, indices) := toOption_eq_some.mp hok
  refine ⟨db, table.schema, ?_, ⟨payloadRows (ascii "codes") (table, indices), ?_⟩, hnone⟩
  · rw [executeSelect_selection hvalid, hselection]
    simp [Except.map, printedRows, hrows]
  · rw [buildSelectPayload_selection hvalid, hselection]
    rfl

end MiniSql.Server
