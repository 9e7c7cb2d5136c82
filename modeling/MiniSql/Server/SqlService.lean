import MiniSql.Query.Executor

/-!
# SQL texts to JSON payloads: `src/server/request/sql_service.c`

The service classifies a text by its first keyword, without the parser, and
executes it with the parser. Memory allocation and the temporary stream
succeed, so every execution has a payload. A row shorter than the schema would
be read beyond its last field, which is the `none` of the executor again.
-/

namespace MiniSql.Server

open Storage Index Query

/-! ## Classification -/

inductive SqlOperationKind
  | unknown
  | read
  | write
  deriving DecidableEq, Repr

/-- `skip_sql_prefix`: whitespace, `--` comments and semicolons. -/
def skipSqlPrefix (sqlText : Bytes) : Bytes :=
  match h : sqlText.dropWhile isspace with
  | [] => []
  | c :: rest =>
    -- The newline behind a comment is left for the next round.
    if c = hyphen ∧ peek rest = hyphen then skipSqlPrefix (rest.tail.dropWhile (· != newline))
    else if c = semicolon then skipSqlPrefix rest
    else c :: rest
termination_by sqlText.length
decreasing_by
  all_goals
    have hle := (List.dropWhile_sublist isspace (l := sqlText)).length_le
    rw [h, List.length_cons] at hle
  · have hrest := (List.dropWhile_sublist (· != newline) (l := rest.tail)).length_le
    have htail := List.length_tail (l := rest)
    omega
  · omega

/-- `matches_keyword`, which expects the keyword in upper case. -/
def matchesKeyword : Bytes → Bytes → Bool
  | text, [] => !isIdentifierChar (peek text)
  | text, k :: keyword => if toupper (peek text) ≠ k then false else matchesKeyword text.tail keyword

def emptySql : SqlError :=
  sqlSetError [ascii "sql_service_classify_operation received empty SQL"]

def unclassifiedSql : SqlError :=
  sqlSetError [ascii "sql_service_classify_operation could not classify SQL"]

def sqlServiceClassifyOperation (sqlText : Bytes) : Except SqlError SqlOperationKind :=
  let cursor := skipSqlPrefix sqlText
  if cursor = [] then .error emptySql
  else if matchesKeyword cursor (ascii "SELECT") then .ok .read
  else if matchesKeyword cursor (ascii "INSERT") then .ok .write
  else .error unclassifiedSql

/-! ## Payloads -/

/-- `trimmed_message_copy`. -/
def trimmedMessage (message : Bytes) : Bytes :=
  (message.reverse.dropWhile (fun c => c == newline || c == carriageReturn)).reverse

def buildErrorPayload (message : Bytes) : Bytes :=
  ascii "\x7b\"ok\":false,\"error\":\x7b\"message\":" ++ sqlJsonQuote (trimmedMessage message) ++
    ascii "\x7d\x7d"

def invalidPersisted (type : Bytes) (column : ColumnDef) : SqlError :=
  sqlSetError [ascii "invalid persisted ", type, ascii " for column ", column.name]

/-- The value of one member of a row object. -/
def jsonValue (column : ColumnDef) (field : Bytes) : Except SqlError Bytes :=
  if column.type = .string then .ok (sqlJsonQuote field)
  else if column.type = .int ∧ isIntegerString field = false then
    .error (invalidPersisted (ascii "int") column)
  else if column.type = .float ∧ isFloatString field = false then
    .error (invalidPersisted (ascii "float") column)
  else .ok field

/-- The loop of `append_row_object`: one member for each column. -/
def rowMembers : List ColumnDef → Row → Option (Except SqlError (List Bytes))
  | [], _ => some (.ok [])
  | _ :: _, [] => none
  | column :: columns, field :: fields =>
    andThen (some (jsonValue column field)) fun value =>
      andThen (rowMembers columns fields) fun members =>
        some (.ok ((sqlJsonQuote column.name ++ ascii ":" ++ value) :: members))

/-- `append_row_object`. -/
def rowObject (schema : Schema) (row : Row) : Option (Except SqlError Bytes) :=
  andThen (rowMembers schema.columns row) fun members =>
    some (.ok (ascii "\x7b" ++ [comma].intercalate members ++ ascii "\x7d"))

/-- A loop of `build_select_payload`: the objects of the rows that it does not
skip. -/
def rowObjects (schema : Schema) (selects : Row → Option Bool) :
    List Row → Option (Except SqlError (List Bytes))
  | [] => some (.ok [])
  | row :: rows =>
    match selects row with
    | none => none
    | some false => rowObjects schema selects rows
    | some true =>
      andThen (rowObject schema row) fun object =>
        andThen (rowObjects schema selects rows) fun objects => some (.ok (object :: objects))

/-- The test of a row against a condition on an ordinary column. -/
def fieldEquals (columnIndex : Nat) (value : Bytes) (row : Row) : Option Bool :=
  row[columnIndex]?.map (· == value)

/-- The row that `WHERE id` finds, if any. -/
def foundObjects (table : TableState) : Bool × Int → Option (Except SqlError (List Bytes))
  | (false, _) => some (.ok [])
  | (true, rowIndex) =>
    match table.rows[rowIndex.toNat]? with
    | none => none
    | some row => andThen (rowObject table.schema row) fun object => some (.ok [object])

/-- The three cases of `build_select_payload`. -/
def selectObjects (table : TableState) : Option Condition → Option (Except SqlError (List Bytes))
  | none => rowObjects table.schema (fun _ => some true) table.rows
  | some condition =>
    if condition.column = ascii "id" then
      if isIntegerString condition.value = false then some (.error idNotInteger)
      else
        match bptreeSearch table.index (atoi condition.value) with
        | none => none
        | some found => foundObjects table found
    else
      match findColumnIndex table.schema condition.column with
      | none => some (.error (unknownColumn condition.column))
      | some columnIndex =>
        rowObjects table.schema (fieldEquals columnIndex condition.value) table.rows

def selectPayload (tableName : Bytes) (objects : List Bytes) : Bytes :=
  ascii "\x7b\"ok\":true,\"type\":\"select\",\"table\":" ++ sqlJsonQuote tableName ++
    ascii ",\"rows\":[" ++ [comma].intercalate objects ++ ascii "]\x7d"

def buildSelectPayload (query : Query) (db : Db) : Option (Db × Except SqlError Bytes) :=
  match dbContextGetTable db query.tableName with
  | none => none
  | some (db, .error e) => some (db, .error e)
  | some (db, .ok position) =>
    match db.ctx.tables[position]? with
    | none => none
    | some table =>
      match selectObjects table query.condition with
      | none => none
      | some (.error e) => some (db, .error e)
      | some (.ok objects) => some (db, .ok (selectPayload (query.tableName.getD []) objects))

def buildInsertPayload (query : Query) (message : Bytes) : Bytes :=
  ascii "\x7b\"ok\":true,\"type\":\"insert\",\"table\":" ++ sqlJsonQuote (query.tableName.getD []) ++
    ascii ",\"affected_rows\":1,\"message\":" ++ sqlJsonQuote (trimmedMessage message) ++ ascii "\x7d"

/-! ## Execution -/

structure SqlServiceResult where
  ok : Bool
  payload : Bytes
  deriving DecidableEq, Repr

/-- The result for an outcome: the payload, or an error payload with the message. -/
def serviceResult : Except SqlError Bytes → SqlServiceResult
  | .ok payload => ⟨true, payload⟩
  | .error e => ⟨false, buildErrorPayload e.message⟩

/-- The payload of an INSERT that printed `printed`. -/
def insertPayload (query : Query) (printed : List Printed) : Bytes :=
  buildInsertPayload query (printed.flatMap Printed.text)

def sqlServiceExecute (sqlText : Bytes) (db : Db) : Option (Db × SqlServiceResult) :=
  match parseSqlText sqlText .zero with
  | (_, .error e) => some (db, serviceResult (.error e))
  | (query, .ok _) =>
    match query.type with
    | .select => (buildSelectPayload query db).map (Prod.map id serviceResult)
    | .insert =>
      (executeQuery query db).map (Prod.map id fun out => serviceResult (out.map (insertPayload query)))

/-- What `sql_service_execute` does with a text, and the result. -/
inductive Served (sqlText : Bytes) (db : Db) : Db → SqlServiceResult → Prop
  | unparsed {query : Query} {e : SqlError} (parse : parseSqlText sqlText .zero = (query, .error e)) :
      Served sqlText db db (serviceResult (.error e))
  | selected {query : Query} {db' : Db} {out : Except SqlError Bytes}
      (parse : parseSqlText sqlText .zero = (query, .ok ())) (type : query.type = .select)
      (build : buildSelectPayload query db = some (db', out)) :
      Served sqlText db db' (serviceResult out)
  | inserted {query : Query} {db' : Db} {out : Except SqlError (List Printed)}
      (parse : parseSqlText sqlText .zero = (query, .ok ())) (type : query.type = .insert)
      (execute : executeQuery query db = some (db', out)) :
      Served sqlText db db' (serviceResult (out.map (insertPayload query)))

theorem sqlServiceExecute_served {sqlText : Bytes} {db db' : Db} {result : SqlServiceResult}
    (h : sqlServiceExecute sqlText db = some (db', result)) : Served sqlText db db' result := by
  rcases hparse : parseSqlText sqlText .zero with ⟨query, e | u⟩
  · simp only [sqlServiceExecute, hparse] at h
    cases h
    exact .unparsed hparse
  · cases htype : query.type with
    | select =>
      simp only [sqlServiceExecute, hparse, htype, Option.map_eq_some_iff, Prod.exists] at h
      obtain ⟨db₁, out, hbuild, hout⟩ := h
      cases hout
      exact .selected hparse htype hbuild
    | insert =>
      simp only [sqlServiceExecute, hparse, htype, Option.map_eq_some_iff, Prod.exists] at h
      obtain ⟨db₁, out, hexecute, hout⟩ := h
      cases hout
      exact .inserted hparse htype hexecute

end MiniSql.Server
