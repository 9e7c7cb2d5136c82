import MiniSql.Storage.Csv

/-!
# Schema files: `src/storage/schema.c`

`load_schema` takes the lines of the file with `strtok` and folds them into a
`Schema`; the position of the primary key is looked up again after every line.
At a line without `=` it formats a message from the text that it has freed: there
is no result, `none`.
-/

namespace MiniSql.Storage

inductive ColumnType
  | int
  | float
  | string
  deriving DecidableEq, Repr

structure ColumnDef where
  name : Bytes
  type : ColumnType
  deriving DecidableEq, Repr

structure Schema where
  tableName : Bytes
  columns : List ColumnDef
  primaryKey : Option Bytes
  primaryKeyIndex : Int
  autoincrement : Bool
  deriving DecidableEq, Repr

def Schema.columnCount (schema : Schema) : Nat := schema.columns.length

def trimInPlace (text : Bytes) : Bytes := trim text

def parseColumnType (typeName : Bytes) : Except SqlError ColumnType :=
  if typeName = ascii "int" then .ok .int
  else if typeName = ascii "float" then .ok .float
  else if typeName = ascii "string" then .ok .string
  else .error (sqlSetError [ascii "unsupported column type: ", typeName])

/-- `strchr` followed by writing NUL there: the text before the first `c` and
the text behind it. -/
def cutAt (c : UInt8) (text : Bytes) : Option (Bytes × Bytes) :=
  match text.dropWhile (· != c) with
  | [] => none
  | _ :: rest => some (text.takeWhile (· != c), rest)

def invalidColumn (entry : Bytes) : SqlError := sqlSetError [ascii "invalid column definition: ", entry]

/-- One `name:type` entry of the columns line. -/
def parseColumn (text : Bytes) : Except SqlError ColumnDef :=
  let entry := trimInPlace text
  match cutAt 0x3a entry with
  | none => .error (invalidColumn entry)
  | some (name, typeName) =>
    match parseColumnType (trimInPlace typeName) with
    | .error e => .error e
    | .ok type => .ok ⟨trimInPlace name, type⟩

theorem cutAt_shorter {c : UInt8} {text before rest : Bytes}
    (h : cutAt c text = some (before, rest)) : rest.length < text.length := by
  unfold cutAt at h
  split at h
  · cases h
  · rename_i d tail htail
    cases h
    have := (List.dropWhile_suffix (l := text) (· != c)).length_le
    simp only [htail, List.length_cons] at this
    omega

def parseColumns (value : Bytes) : Except SqlError (List ColumnDef) :=
  if value.isEmpty then .ok []
  else
    match _ : cutAt comma value with
    | none =>
      match parseColumn value with
      | .error e => .error e
      | .ok column => .ok [column]
    | some (entry, rest) =>
      match parseColumn entry with
      | .error e => .error e
      | .ok column =>
        match parseColumns rest with
        | .error e => .error e
        | .ok columns => .ok (column :: columns)
termination_by value.length
decreasing_by exact cutAt_shorter ‹_›

/-- The lookup of the primary key at the end of the loop body; an earlier
position stays when the name is not found. -/
def findPrimaryKey (schema : Schema) : Schema :=
  match schema.primaryKey with
  | none => schema
  | some key =>
    match schema.columns.findIdx? (fun column => column.name == key) with
    | none => schema
    | some index => { schema with primaryKeyIndex := index }

/-- The effect of one `key = value` line. -/
def setKey (schema : Schema) (key value : Bytes) : Except SqlError Schema :=
  if key = ascii "table" then .ok { schema with tableName := value }
  else if key = ascii "columns" then
    match parseColumns value with
    | .error e => .error e
    | .ok columns => .ok { schema with columns := columns }
  else if key = ascii "pkey" then .ok { schema with primaryKey := some value }
  else if key = ascii "autoincrement" then
    .ok { schema with autoincrement := value = ascii "true" }
  else .ok schema

/-- The loop body of `load_schema`. -/
def schemaLine (schema : Schema) (line : Bytes) : Option (Except SqlError Schema) :=
  let trimmed := trimInPlace line
  if trimmed.isEmpty then some (.ok schema)
  else
    match cutAt 0x3d trimmed with
    -- free(text) stands in front of the message that prints the line
    | none => none
    | some (key, value) =>
      some ((setKey schema (trimInPlace key) (trimInPlace value)).map findPrimaryKey)

/-- `strtok(NULL, "\n")`: the next line, and the cursor that it leaves behind. -/
def strtok (cursor : Bytes) : Option (Bytes × Bytes) :=
  let start := cursor.dropWhile (· == newline)
  if start.isEmpty then none
  else some (start.takeWhile (· != newline), (start.dropWhile (· != newline)).drop 1)

theorem strtok_shorter {cursor line rest : Bytes} (h : strtok cursor = some (line, rest)) :
    rest.length < cursor.length := by
  have hskip := (List.dropWhile_suffix (l := cursor) (· == newline)).length_le
  simp only [strtok] at h
  generalize cursor.dropWhile (· == newline) = start at h hskip
  have hline := (List.dropWhile_suffix (l := start) (· != newline)).length_le
  split at h
  · cases h
  · rename_i hne
    have hpos : 0 < start.length := by simpa [List.length_pos_iff] using hne
    cases h
    simp only [List.length_drop]
    omega

def schemaLines (schema : Schema) (cursor : Bytes) : Option (Except SqlError Schema) :=
  match _ : strtok cursor with
  | none => some (.ok schema)
  | some (line, rest) => andThen (schemaLine schema line) fun schema => schemaLines schema rest
termination_by cursor.length
decreasing_by exact strtok_shorter ‹_›

/-- What `load_schema` starts from. -/
def Schema.empty (tableName : Bytes) : Schema := ⟨tableName, [], none, -1, false⟩

/-- The check behind the loop of `load_schema`. -/
def checkColumns (schema : Schema) : Except SqlError Schema :=
  if schema.columnCount = 0 then .error (sqlSetError [ascii "schema has no columns"])
  else .ok schema

/-- `load_schema` on the contents of the file. -/
def loadSchema (tableName text : Bytes) : Option (Except SqlError Schema) :=
  andThen (schemaLines (.empty tableName) (cString text)) fun schema => some (checkColumns schema)

/-- `load_schema`; `missing` is the error for a file that cannot be opened. -/
def loadSchemaFile (missing : SqlError) (tableName : Bytes) : Option Bytes → Option (Except SqlError Schema)
  | none => some (.error missing)
  | some text => loadSchema tableName text

end MiniSql.Storage
