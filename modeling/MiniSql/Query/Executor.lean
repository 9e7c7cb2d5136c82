import MiniSql.Index.DbContext
import MiniSql.Query.Parser

/-!
# Running a query: `src/query/executor.c`

What a query writes to its output stream is a list of `Printed` pieces. The
table that a query works on is a position in the context's table array, as the
pointer is in the source.
-/

namespace MiniSql.Query

open Storage Index

/-- One line of output. -/
inductive Printed
  | header (schema : Schema)
  | row (fields : Row)
  | insertDone
  deriving DecidableEq

/-- The bytes that `print_header`, `print_row` and `fprintf` write. -/
def Printed.text : Printed → Bytes
  | .header schema => [comma].intercalate (schema.columns.map ColumnDef.name) ++ [newline]
  | .row fields => [comma].intercalate fields ++ [newline]
  | .insertDone => ascii "INSERT 1\n"

def validateValue (column : ColumnDef) (value : Bytes) : Except SqlError Unit :=
  checkValue (fun type => [ascii "column ", column.name, ascii " expects ", type]) column value

def findColumnIndex (schema : Schema) (columnName : Bytes) : Option Nat :=
  schema.columns.findIdx? (fun column => column.name == columnName)

/-- The loop over the rows for a condition on an ordinary column. -/
def scanRows (columnIndex : Nat) (value : Bytes) : List Row → Option (List Row)
  | [] => some []
  | row :: rows =>
    match row[columnIndex]?, scanRows columnIndex value rows with
    | some field, some matching => some (if field = value then row :: matching else matching)
    | _, _ => none

def idNotInteger : SqlError := sqlSetError [ascii "WHERE id requires an integer value"]

def unknownColumn (column : Bytes) : SqlError :=
  sqlSetError [ascii "unknown column in WHERE clause: ", column]

/-- The rows that a SELECT returns from a loaded table. -/
def selectRows (table : TableState) : Option Condition → Option (Except SqlError (List Row))
  | none => some (.ok table.rows)
  | some condition =>
    if condition.column = ascii "id" then
      if isIntegerString condition.value = false then some (.error idNotInteger)
      else
        match bptreeSearch table.index (atoi condition.value) with
        | none => none
        | some (false, _) => some (.ok [])
        | some (true, rowIndex) =>
          match table.rows[rowIndex.toNat]? with
          | none => none
          | some row => some (.ok [row])
    else
      match findColumnIndex table.schema condition.column with
      | none => some (.error (unknownColumn condition.column))
      | some columnIndex =>
        match scanRows columnIndex condition.value table.rows with
        | none => none
        | some rows => some (.ok rows)

def executeSelect (query : Query) (db : Db) : Option (Db × Except SqlError (List Printed)) :=
  match dbContextGetTable db query.tableName with
  | none => none
  | some (db, .error e) => some (db, .error e)
  | some (db, .ok position) =>
    match db.ctx.tables[position]? with
    | none => none
    | some table =>
      match selectRows table query.condition with
      | none => none
      | some (.error e) => some (db, .error e)
      | some (.ok rows) => some (db, .ok (.header table.schema :: rows.map .row))

def countMismatch : SqlError := sqlSetError [ascii "VALUES count does not match schema"]

/-- The fields of the new row: the values, behind the next id if they leave out
an autoincrement key in the first column. -/
def insertFields (table : TableState) (values : List Bytes) : Except SqlError Row :=
  if values.length = table.schema.columnCount then .ok values
  else if table.schema.autoincrement = true ∧ table.schema.primaryKeyIndex = 0 ∧
      (values.length : Int) = table.schema.columnCount - 1 then
    .ok (decimal table.nextId :: values)
  else .error countMismatch

/-- What `execute_insert` checks before it writes: the fields and the id. -/
def prepareInsert (table : TableState) (values : List Bytes) :
    Option (Except SqlError (Row × Int)) :=
  match insertFields table values with
  | .error e => some (.error e)
  | .ok fields =>
    match checkFields validateValue table.schema.columns fields with
    | .error e => some (.error e)
    | .ok _ =>
      match keyField table.schema fields with
      | none => none
      | some field =>
        match bptreeSearch table.index (atoi field) with
        | none => none
        | some (true, _) => some (.error (duplicateId (atoi field)))
        | some (false, _) => some (.ok (fields, atoi field))

/-- `append_row_to_memory`. -/
def appendRowToMemory (table : TableState) (fields : Row) : TableState :=
  { table with rows := table.rows ++ [fields] }

/-- The update of `table->next_id` for a new row. -/
def nextIdAfter (nextId insertedId : Int) : Int :=
  if insertedId ≥ nextId then toInt32 (insertedId + 1) else nextId

/-- The disk with the table file replaced. -/
def writeTable (disk : Disk) (tableName file : Bytes) : Disk :=
  { disk with tables := fun name => if name = tableName then some file else disk.tables name }

/-- The writes of `execute_insert`: the line in the file, the row, its entry in
the index, and the next id. -/
def commitInsert (db : Db) (tableName : Bytes) (position : Nat) (table : TableState) (fields : Row)
    (insertedId : Int) : Option (Db × Except SqlError (List Printed)) :=
  match appendCsvRow ((db.disk.tables tableName).getD []) fields with
  | .error e => some (db, .error e)
  | .ok file =>
    let disk := writeTable db.disk tableName file
    let insertedRowIndex := table.rows.length
    let table := appendRowToMemory table fields
    match bptreeInsert allocated table.index insertedId insertedRowIndex with
    | none => none
    | some (index, .error e) =>
      match dbContextReloadTable ⟨disk, db.ctx.setTable position { table with index }⟩ tableName with
      | none => none
      | some (db, .error e) => some (db, .error e)
      | some (db, .ok _) => some (db, .error e)
    | some (index, .ok _) =>
      let table := { table with index, nextId := nextIdAfter table.nextId insertedId }
      some (⟨disk, db.ctx.setTable position table⟩, .ok [.insertDone])

def executeInsert (query : Query) (db : Db) : Option (Db × Except SqlError (List Printed)) :=
  match dbContextGetTable db query.tableName with
  | none => none
  | some (db, .error e) => some (db, .error e)
  | some (db, .ok position) =>
    match db.ctx.tables[position]? with
    | none => none
    | some table =>
      match prepareInsert table query.values with
      | none => none
      | some (.error e) => some (db, .error e)
      | some (.ok (fields, insertedId)) =>
        commitInsert db (query.tableName.getD []) position table fields insertedId

/-- `execute_query`: the database afterwards, and the output or the reason for 0. -/
def executeQuery (query : Query) (db : Db) : Option (Db × Except SqlError (List Printed)) :=
  match query.type with
  | .select => executeSelect query db
  | .insert => executeInsert query db

end MiniSql.Query
