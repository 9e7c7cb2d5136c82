import MiniSql.Index.BPTree
import MiniSql.Storage.Schema

/-!
# Loaded tables: `src/index/db_context.c`

The database directory is a `Disk`: the schema files and the table files by
table name. A `Db` is a disk together with the tables that the process holds in
memory. Memory allocation and file I/O succeed. As in the index, a result of
`none` is a step without defined behaviour, here an access to a row beyond its
last field or to a schema text that was freed.
-/

namespace MiniSql.Index

open Storage

/-- The files under the database root. A table name is an identifier of the SQL
grammar, so it names one file in each directory; a file name has at most 255
bytes, `.schema` included. The root is short enough for the path buffers, so that
every name leads to files of its own. -/
structure Disk where
  schemas : Bytes → Option Bytes
  tables : Bytes → Option Bytes
  nameMax : ∀ name, (schemas name).isSome = true → name.length ≤ 248

structure TableState where
  name : Bytes
  schema : Schema
  rows : List Row
  index : BPTree
  nextId : Int

structure DbContext where
  dbRoot : Bytes
  tables : List TableState

structure Db where
  disk : Disk
  ctx : DbContext

/-- A path, cut at `SQL_PATH_BUFFER_SIZE`. -/
def schemaPath (dbRoot tableName : Bytes) : Bytes :=
  (dbRoot ++ ascii "/schema/" ++ tableName ++ ascii ".schema").take 4095

def buildTablePath (dbRoot tableName : Bytes) : Bytes :=
  (dbRoot ++ ascii "/tables/" ++ tableName ++ ascii ".csv").take 4095

/-- The check of a value against its column, with the message for a value that
is not of the named type. -/
def checkValue (message : Bytes → List Bytes) (column : ColumnDef) (value : Bytes) :
    Except SqlError Unit :=
  if column.type = .int ∧ isIntegerString value = false then
    .error (sqlSetError (message (ascii "int")))
  else if column.type = .float ∧ isFloatString value = false then
    .error (sqlSetError (message (ascii "float")))
  else .ok ()

def validateLoadedValue (column : ColumnDef) (value : Bytes) : Except SqlError Unit :=
  checkValue (fun type =>
    [ascii "invalid persisted ", type, ascii " for column ", column.name, ascii ": ", value])
    column value

/-- A check of every column's field, in column order, up to the first failure. -/
def checkFields (check : ColumnDef → Bytes → Except SqlError Unit) :
    List ColumnDef → Row → Except SqlError Unit
  | column :: columns, value :: values =>
    match check column value with
    | .error e => .error e
    | .ok _ => checkFields check columns values
  | _, _ => .ok ()

def validateLoadedRowset (schema : Schema) : List Row → Except SqlError Unit
  | [] => .ok ()
  | row :: rows =>
    if row.length ≠ schema.columnCount then
      .error (sqlSetError [ascii "persisted row field count does not match schema"])
    else
      match checkFields validateLoadedValue schema.columns row with
      | .error e => .error e
      | .ok _ => validateLoadedRowset schema rows

/-- `fields[schema.primary_key_index]`. -/
def keyField (schema : Schema) (row : Row) : Option Bytes := row[schema.primaryKeyIndex.toNat]?

/-- The loop of `table_state_load` that fills the index: the index and the
largest id. -/
def buildIndex (schema : Schema) :
    List Row → Nat → BPTree → Int → Option (Except SqlError (BPTree × Int))
  | [], _, index, maxId => some (.ok (index, maxId))
  | row :: rows, rowIndex, index, maxId =>
    match keyField schema row with
    | none => none
    | some field =>
      let id := atoi field
      match bptreeInsert allocated index id rowIndex with
      | none => none
      | some (_, .error e) => some (.error e)
      | some (index, .ok _) =>
        buildIndex schema rows (rowIndex + 1) index (if id > maxId then id else maxId)

/-- `table->next_id` after loading. -/
def initialNextId (maxId : Int) : Int :=
  if toInt32 (maxId + 1) ≤ 0 then 1 else toInt32 (maxId + 1)

def missingPrimaryKey (tableName : Bytes) : SqlError :=
  sqlSetError [ascii "table ", tableName, ascii " is missing a valid primary key"]

/-- The part of `table_state_load` behind the two files. -/
def indexRows (schema : Schema) (tableName : Bytes) (rows : List Row) :
    Option (Except SqlError TableState) :=
  match validateLoadedRowset schema rows with
  | .error e => some (.error e)
  | .ok _ =>
    if schema.primaryKeyIndex < 0 then some (.error (missingPrimaryKey tableName))
    else
      match buildIndex schema rows 0 bptreeCreate 0 with
      | none => none
      | some (.error e) => some (.error e)
      | some (.ok (index, maxId)) =>
        some (.ok ⟨tableName.take 255, schema, rows, index, initialNextId maxId⟩)

/-- The part of it behind the schema and the opening of the table file. -/
def loadRows (schema : Schema) (tableName file : Bytes) : Option (Except SqlError TableState) :=
  match readCsvRows file schema.columnCount with
  | .error e => some (.error e)
  | .ok rows => indexRows schema tableName rows

def missingSchema (dbRoot tableName : Bytes) : SqlError :=
  sqlSetError [ascii "failed to open file: ", schemaPath dbRoot tableName]

def missingTable (dbRoot tableName : Bytes) : SqlError :=
  sqlSetError [ascii "failed to open table file: ", buildTablePath dbRoot tableName]

/-- The part of `table_state_load` behind the schema. -/
def loadTable (dbRoot tableName : Bytes) (file : Option Bytes) (schema : Schema) :
    Option (Except SqlError TableState) :=
  match file with
  | none => some (.error (missingTable dbRoot tableName))
  | some file => loadRows schema tableName file

def tableStateLoad (disk : Disk) (dbRoot tableName : Bytes) : Option (Except SqlError TableState) :=
  andThen (loadSchemaFile (missingSchema dbRoot tableName) tableName (disk.schemas tableName))
    (loadTable dbRoot tableName (disk.tables tableName))

def dbContextCreate (dbRoot : Bytes) : DbContext := ⟨dbRoot.take 4095, []⟩

/-- The scan of the tables for a name. -/
def findTable (tables : List TableState) (tableName : Bytes) : Option Nat :=
  tables.findIdx? (fun table => table.name == tableName)

/-- `db_context_get_table`: the context afterwards, and the position of the
table in it. -/
def dbContextGetTable (db : Db) (tableName : Option Bytes) : Option (Db × Except SqlError Nat) :=
  match tableName with
  | none => some (db, .error (sqlSetError [ascii "db_context_get_table received invalid arguments"]))
  | some tableName =>
    match findTable db.ctx.tables tableName with
    | some position => some (db, .ok position)
    | none =>
      match tableStateLoad db.disk db.ctx.dbRoot tableName with
      | none => none
      | some (.error e) => some (db, .error e)
      | some (.ok table) =>
        some (⟨db.disk, db.ctx.dbRoot, db.ctx.tables ++ [table]⟩, .ok db.ctx.tables.length)

/-- The context with another state in place of one of its tables. -/
def DbContext.setTable (ctx : DbContext) (position : Nat) (table : TableState) : DbContext :=
  { ctx with tables := ctx.tables.set position table }

def dbContextReloadTable (db : Db) (tableName : Bytes) : Option (Db × Except SqlError Unit) :=
  match findTable db.ctx.tables tableName with
  | none => some (db, .error (sqlSetError [ascii "table not loaded: ", tableName]))
  | some position =>
    match tableStateLoad db.disk db.ctx.dbRoot tableName with
    | none => none
    | some (.error e) => some (db, .error e)
    | some (.ok reloaded) => some (⟨db.disk, db.ctx.setTable position reloaded⟩, .ok ())

end MiniSql.Index
