import MiniSql.Lib.Sections
import MiniSql.Server.LockChoice

/-!
# The work of a request as single accesses

What a worker does inside its section, with every read and write of the shared
database an access of its own: each table name and each row that a loop looks
at, each node that a search goes through, each byte appended to a table file,
each field of a table that is updated. While the index is being changed its
contents may be anything: `scratch` is what others would see of it. Run alone,
the work is the sequential code.
-/

namespace MiniSql.Server

open Storage Index Query

/-! ## Work -/

/-- A program on the database that may fail, or leave defined behaviour. -/
abbrev Work (α : Type) : Type := Prog Db (Option (Except SqlError α))

namespace Work

variable {α β : Type}

def of (result : Option (Except SqlError α)) : Work α := Prog.ret result

def fail (error : SqlError) : Work α := of (some (.error error))

def bind (work : Work α) (next : α → Work β) : Work β :=
  Prog.bind work fun
    | none => of none
    | some (.error e) => fail e
    | some (.ok a) => next a

instance : Monad Work where
  pure a := of (some (.ok a))
  bind := bind

end Work

/-- Read from the table at a position. -/
def readTable {α : Type} (position : Nat) (f : TableState → Option α) : Work α :=
  Prog.read fun db => ((db.ctx.tables[position]?).bind f).map .ok

def change (f : Db → Db) : Work Unit := (Prog.write f).bind fun _ => Work.of (some (.ok ()))

/-- Write to the table at a position. -/
def modifyTable (position : Nat) (f : TableState → TableState) : Work Unit :=
  change fun db => ⟨db.disk, { db.ctx with tables := db.ctx.tables.modify position f }⟩

/-! ## `db_context_get_table` -/

/-- The loop over the table names. -/
def scanNames (tableName : Bytes) : Nat → Nat → Prog Db (Option Nat)
  | 0, _ => .ret none
  | count + 1, index =>
    (Prog.read fun db => (db.ctx.tables[index]?).map TableState.name).bind fun name =>
      if name = some tableName then .ret (some index) else scanNames tableName count (index + 1)

def getTableWork : Option Bytes → Work Nat
  | none => Work.fail (sqlSetError [ascii "db_context_get_table received invalid arguments"])
  | some tableName =>
    (Prog.read fun db => db.ctx.tables.length).bind fun count =>
      (scanNames tableName count 0).bind fun
        | some position => Work.of (some (.ok position))
        -- a first access loads the table; the accesses of the load are not told apart
        | none => Prog.access
            (fun db => ((dbContextGetTable db (some tableName)).map Prod.fst).getD db)
            (fun db => Work.of ((dbContextGetTable db (some tableName)).map Prod.snd))

/-! ## `bptree_search` -/

mutual

/-- The number of levels from a node down. -/
def height : BPTreeNode → Nat
  | .leaf _ _ _ => 1
  | .branch _ children => heightAll children + 1

def heightAll : List BPTreeNode → Nat
  | [] => 0
  | c :: cs => max (height c) (heightAll cs)

end

def child? : BPTreeNode → Nat → Option BPTreeNode
  | .leaf _ _ _, _ => none
  | .branch _ children, index => children[index]?

/-- The node that a path of child indices leads to. -/
def nodeAt (root : BPTreeNode) (path : List Nat) : Option BPTreeNode := path.foldlM child? root

/-- The loop over the nodes, from the one at `path` on. -/
def descendWork (position : Nat) (key : Int) : Nat → List Nat → Work (Bool × Int)
  | 0, _ => Work.of none
  | levels + 1, path => do
    let node ← readTable position fun table => table.index.root.bind (nodeAt · path)
    match node with
    | .leaf address entries next =>
      Work.of ((searchNode key (.leaf address entries next)).map .ok)
    | .branch keys _ => descendWork position key levels (path ++ [childIndex keys key])

/-- The test of the root comes first. A search that gets deeper than the tree was
at that time is not followed any further. -/
def searchWork (position : Nat) (key : Int) : Work (Bool × Int) := do
  let levels ← readTable position fun table => some ((table.index.root.map height).getD 0)
  if levels = 0 then pure (false, -1) else descendWork position key levels []

/-! ## SELECT -/

/-- The loop over the rows. -/
def rowObjectsWork (position : Nat) (schema : Schema) (selects : Row → Option Bool) :
    Nat → Nat → Work (List Bytes)
  | 0, _ => pure []
  | count + 1, rowIndex => do
    let row ← readTable position fun table => table.rows[rowIndex]?
    match selects row with
    | none => Work.of none
    | some false => rowObjectsWork position schema selects count (rowIndex + 1)
    | some true => do
      let object ← Work.of (rowObject schema row)
      let objects ← rowObjectsWork position schema selects count (rowIndex + 1)
      pure (object :: objects)

def foundObjectsWork (position : Nat) (schema : Schema) : Bool × Int → Work (List Bytes)
  | (false, _) => pure []
  | (true, rowIndex) => do
    let row ← readTable position fun table => table.rows[rowIndex.toNat]?
    let object ← Work.of (rowObject schema row)
    pure [object]

def selectObjectsWork (position : Nat) (schema : Schema) : Option Condition → Work (List Bytes)
  | none => do
    let count ← readTable position fun table => some table.rows.length
    rowObjectsWork position schema (fun _ => some true) count 0
  | some condition =>
    if condition.column = ascii "id" then
      if isIntegerString condition.value = false then Work.fail idNotInteger
      else do
        let found ← searchWork position (atoi condition.value)
        foundObjectsWork position schema found
    else
      match findColumnIndex schema condition.column with
      | none => Work.fail (unknownColumn condition.column)
      | some columnIndex => do
        let count ← readTable position fun table => some table.rows.length
        rowObjectsWork position schema (fieldEquals columnIndex condition.value) count 0

def selectWork (query : Query) : Work Bytes := do
  let position ← getTableWork query.tableName
  let schema ← readTable position fun table => some table.schema
  let objects ← selectObjectsWork position schema query.condition
  pure (selectPayload (query.tableName.getD []) objects)

/-! ## INSERT -/

def insertFieldsWork (position : Nat) (schema : Schema) (values : List Bytes) : Work Row :=
  if values.length = schema.columnCount then pure values
  else if schema.autoincrement = true ∧ schema.primaryKeyIndex = 0 ∧
      (values.length : Int) = schema.columnCount - 1 then do
    let nextId ← readTable position fun table => some table.nextId
    pure (decimal nextId :: values)
  else Work.fail countMismatch

/-- Write bytes at the end of the table file, which is created if need be. -/
def appendFile (tableName bytes : Bytes) : Work Unit :=
  change fun db =>
    ⟨writeTable db.disk tableName ((db.disk.tables tableName).getD [] ++ bytes), db.ctx⟩

def appendBytes (tableName : Bytes) : Bytes → Work Unit
  | [] => pure ()
  | byte :: bytes => do
    appendFile tableName [byte]
    appendBytes tableName bytes

def appendCsvRowWork (tableName : Bytes) (fields : Row) : Work Unit :=
  if fields.isEmpty then
    Work.fail (sqlSetError [ascii "append_csv_row received invalid arguments"])
  else do
    appendFile tableName []
    appendBytes tableName (csvLine fields)

/-- The index goes through some contents to its new ones. -/
def setIndex (position : Nat) : List BPTree → BPTree → Work Unit
  | [], index => modifyTable position fun table => { table with index }
  | torn :: scratch, index => do
    modifyTable position fun table => { table with index := torn }
    setIndex position scratch index

def reloadTableWork (tableName : Bytes) : Work Unit :=
  Prog.access (fun db => ((dbContextReloadTable db tableName).map Prod.fst).getD db)
    (fun db => Work.of ((dbContextReloadTable db tableName).map Prod.snd))

def updateNextId (position : Nat) (insertedId : Int) : Work Unit := do
  let nextId ← readTable position fun table => some table.nextId
  if insertedId ≥ nextId then
    modifyTable position fun table => { table with nextId := toInt32 (insertedId + 1) }
  else pure ()

/-- The writes of `execute_insert`. -/
def commitWork (scratch : List BPTree) (tableName : Bytes) (position : Nat) (fields : Row)
    (insertedId : Int) : Work (List Printed) := do
  appendCsvRowWork tableName fields
  let insertedRowIndex ← readTable position fun table => some table.rows.length
  modifyTable position fun table => appendRowToMemory table fields
  let index ← readTable position fun table => some table.index
  match bptreeInsert allocated index insertedId insertedRowIndex with
  | none => Work.of none
  | some (index, .error e) => do
    setIndex position scratch index
    reloadTableWork tableName
    Work.fail e
  | some (index, .ok _) => do
    setIndex position scratch index
    updateNextId position insertedId
    pure [.insertDone]

def insertWork (scratch : List BPTree) (query : Query) : Work (List Printed) := do
  let position ← getTableWork query.tableName
  let schema ← readTable position fun table => some table.schema
  let fields ← insertFieldsWork position schema query.values
  Work.of (some (checkFields validateValue schema.columns fields))
  let field ← Work.of ((keyField schema fields).map .ok)
  let found ← searchWork position (atoi field)
  if found.1 then Work.fail (duplicateId (atoi field))
  else commitWork scratch (query.tableName.getD []) position fields (atoi field)

/-! ## Requests -/

/-- The work function of a request: `sql_service_execute`, and the response to
its result. -/
def sqlWork (scratch : List BPTree) (sqlText : Bytes) : Prog Db (Option HttpResponse) :=
  match parseSqlText sqlText .zero with
  | (_, .error e) => .ret (some (resultResponse (serviceResult (.error e))))
  | (query, .ok _) =>
    match query.type with
    | .select => Prog.bind (selectWork query) fun out =>
        .ret (out.map fun out => resultResponse (serviceResult out))
    | .insert => Prog.bind (insertWork scratch query) fun out =>
        .ret (out.map fun out => resultResponse (serviceResult (out.map (insertPayload query))))

/-- What `request_handler_handle` does with a request: refuse it, or execute it
under one of the locks. -/
def requestTask (scratch : List BPTree) (request : HttpRequest) :
    Sections.Task Db (Option HttpResponse) :=
  match requestOperation request with
  | .error response => .answer (some response)
  | .ok .read => .reader (sqlWork scratch request.sqlText)
  | .ok _ => .writer (sqlWork scratch request.sqlText)

end MiniSql.Server
