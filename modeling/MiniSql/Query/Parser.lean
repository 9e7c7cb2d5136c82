import MiniSql.Text

/-!
# The SQL parser of `src/query/parser.c`

A cursor is the rest of the text. The parser writes into the caller's `Query`
also when it fails, so the `Query` is part of every result; a failing helper
that leaves it alone returns an `Except`. Allocations succeed.
-/

namespace MiniSql

inductive QueryType
  | insert
  | select
  deriving DecidableEq, Repr

/-- `Condition`; the parser types every value as `VALUE_STRING`, and nothing
reads that type. -/
structure Condition where
  column : Bytes
  value : Bytes
  deriving DecidableEq, Repr

structure Query where
  type : QueryType
  tableName : Option Bytes
  values : List Bytes
  condition : Option Condition
  deriving DecidableEq, Repr

end MiniSql

namespace MiniSql.Query

/-- A `Query` of zero bytes. -/
def zero : Query := ⟨.insert, none, [], none⟩

def skipWhitespace (cursor : Bytes) : Bytes := cursor.dropWhile isspace

def isIdentifierChar (c : UInt8) : Bool := isalnum c || c == 0x5f

/-- The letters of a keyword, compared in lower case. -/
def matchLetters : Bytes → Bytes → Option Bytes
  | scan, [] => some scan
  | [], _ :: _ => none
  | c :: scan, k :: keyword =>
    if tolower c = tolower k then matchLetters scan keyword else none

/-- `match_keyword`: the cursor behind the keyword, if it stands there. -/
def matchKeyword (cursor keyword : Bytes) : Option Bytes :=
  match matchLetters (skipWhitespace cursor) keyword with
  | none => none
  | some rest => if isIdentifierChar (peek rest) then none else some rest

def parseIdentifier (cursor : Bytes) : Except SqlError (Bytes × Bytes) :=
  let start := skipWhitespace cursor
  if isIdentifierChar (peek start) then
    .ok (start.takeWhile isIdentifierChar, start.dropWhile isIdentifierChar)
  else .error (sqlSetError [ascii "expected identifier"])

/-- The bytes an unquoted value may hold. -/
def isBareChar (c : UInt8) : Bool :=
  c != 0 && c != comma && c != 0x29 && c != 0x3b && !isspace c

/-- The bytes that may stand between two quotes. -/
def isQuotedChar (quote c : UInt8) : Bool := c != 0 && c != quote

def expectedValue : SqlError := sqlSetError [ascii "expected value"]

def parseValue (cursor : Bytes) : Except SqlError (Bytes × Bytes) :=
  let start := skipWhitespace cursor
  let quote := peek start
  if quote = singleQuote ∨ quote = doubleQuote then
    let body := (start.drop 1).takeWhile (isQuotedChar quote)
    let rest := (start.drop 1).dropWhile (isQuotedChar quote)
    if peek rest ≠ quote then .error (sqlSetError [ascii "unterminated string literal"])
    else if body.isEmpty then .error expectedValue
    else .ok (body, rest.drop 1)
  else
    let body := start.takeWhile isBareChar
    if body.isEmpty then .error expectedValue else .ok (body, start.dropWhile isBareChar)

/-- `parse_condition`: the condition, if the text goes on with WHERE. -/
def parseCondition (cursor : Bytes) : Except SqlError (Option Condition × Bytes) :=
  match matchKeyword cursor (ascii "where") with
  | none => .ok (none, cursor)
  | some cursor =>
    match parseIdentifier cursor with
    | .error e => .error e
    | .ok (column, cursor) =>
      let cursor := skipWhitespace cursor
      if peek cursor ≠ 0x3d then .error (sqlSetError [ascii "expected '=' in WHERE clause"])
      else
        match parseValue (cursor.drop 1) with
        | .error e => .error e
        | .ok (value, cursor) => .ok (some ⟨column, value⟩, cursor)

/-- The end of both statements: an optional semicolon, then nothing. -/
def atEnd (cursor : Bytes) : Bool :=
  let cursor := skipWhitespace cursor
  let cursor := if peek cursor = 0x3b then cursor.drop 1 else cursor
  peek (skipWhitespace cursor) == 0

def unexpectedTrailing : SqlError := sqlSetError [ascii "unexpected trailing SQL"]

def parseSelect (sql : Bytes) (query : Query) : Query × Except SqlError Unit :=
  match matchKeyword sql (ascii "select") with
  | none => (query, .error (sqlSetError [ascii "expected SELECT"]))
  | some cursor =>
    let cursor := skipWhitespace cursor
    if peek cursor ≠ 0x2a then (query, .error (sqlSetError [ascii "only SELECT * is supported"]))
    else
      match matchKeyword (cursor.drop 1) (ascii "from") with
      | none => (query, .error (sqlSetError [ascii "expected FROM"]))
      | some cursor =>
        match parseIdentifier cursor with
        | .error e => ({ query with tableName := none }, .error e)
        | .ok (table, cursor) =>
          let query := { query with tableName := some table }
          match parseCondition cursor with
          | .error e => (query, .error e)
          | .ok (condition, cursor) =>
            let query := match condition with
              | none => query
              | some c => { query with condition := some c }
            if atEnd cursor then ({ query with type := .select }, .ok ())
            else (query, .error unexpectedTrailing)

theorem length_dropWhile_le (p : UInt8 → Bool) (s : Bytes) : (s.dropWhile p).length ≤ s.length :=
  (List.dropWhile_suffix p).length_le

theorem parseValue_shorter {cursor value rest : Bytes} (h : parseValue cursor = .ok (value, rest)) :
    rest.length < cursor.length := by
  have hskip : (skipWhitespace cursor).length ≤ cursor.length := length_dropWhile_le isspace cursor
  simp only [parseValue] at h
  generalize skipWhitespace cursor = start at h hskip
  split at h
  · rename_i hquote
    have hdrop := length_dropWhile_le (isQuotedChar (peek start)) (start.drop 1)
    have hpos : 0 < start.length := by
      cases start with
      | nil => simp [peek, singleQuote, doubleQuote] at hquote
      | cons c cs => simp
    split at h
    · cases h
    · split at h
      · cases h
      · cases h
        simp only [List.length_drop] at *
        omega
  · split at h
    · cases h
    · rename_i hne
      cases h
      have hsplit := congrArg List.length (List.takeWhile_append_dropWhile (p := isBareChar) (l := start))
      have hpos : 0 < (start.takeWhile isBareChar).length := by
        simpa [List.length_pos_iff] using hne
      simp only [List.length_append] at hsplit
      omega

/-- The loop over the values of an INSERT, up to the closing parenthesis. -/
def parseValues (cursor : Bytes) : Except SqlError (List Bytes × Bytes) :=
  match _ : parseValue cursor with
  | .error e => .error e
  | .ok (value, rest) =>
    if peek (skipWhitespace rest) = comma then
      match parseValues ((skipWhitespace rest).drop 1) with
      | .error e => .error e
      | .ok (values, cursor) => .ok (value :: values, cursor)
    else if peek (skipWhitespace rest) = 0x29 then .ok ([value], (skipWhitespace rest).drop 1)
    else .error (sqlSetError [ascii "expected ',' or ')' in VALUES list"])
termination_by cursor.length
decreasing_by
  rename_i hvalue _
  have h1 := parseValue_shorter hvalue
  have h2 : (skipWhitespace rest).length ≤ rest.length := length_dropWhile_le isspace rest
  simp only [List.length_drop]
  omega

def parseInsert (sql : Bytes) (query : Query) : Query × Except SqlError Unit :=
  match matchKeyword sql (ascii "insert") with
  | none => (query, .error (sqlSetError [ascii "expected INSERT"]))
  | some cursor =>
    match matchKeyword cursor (ascii "into") with
    | none => (query, .error (sqlSetError [ascii "expected INTO"]))
    | some cursor =>
      match parseIdentifier cursor with
      | .error e => ({ query with tableName := none }, .error e)
      | .ok (table, cursor) =>
        let query := { query with tableName := some table }
        match matchKeyword cursor (ascii "values") with
        | none => (query, .error (sqlSetError [ascii "expected VALUES"]))
        | some cursor =>
          let cursor := skipWhitespace cursor
          if peek cursor ≠ 0x28 then
            (query, .error (sqlSetError [ascii "expected '(' after VALUES"]))
          else
            match parseValues (cursor.drop 1) with
            | .error e => (query, .error e)
            | .ok (values, cursor) =>
              if atEnd cursor then ({ query with type := .insert, values := values }, .ok ())
              else (query, .error unexpectedTrailing)

/-- `tokenize_sql`: whether there is anything but whitespace. -/
def tokenizeSql (sql : Bytes) : Bool := (cString sql).any (!isspace ·)

/-- What is left of a `Query` after its table name, values and condition were
freed. -/
def freeQuery (query : Query) : Query :=
  { query with tableName := none, values := [], condition := none }

/-- `parse_sql_text`: the caller's `Query` afterwards, and 1 or the reason for 0. -/
def parseSqlText (sql : Bytes) (query : Query) : Query × Except SqlError Unit :=
  if peek sql = 0 ∨ tokenizeSql sql = false then
    (query, .error (sqlSetError [ascii "sql must not be empty"]))
  else
    match parseSelect sql .zero with
    | (query, .ok _) => (query, .ok ())
    | (query, .error _) =>
      match parseInsert sql (freeQuery query) with
      | (query, .ok _) => (query, .ok ())
      | (query, .error _) =>
        (freeQuery query, .error (sqlSetError [ascii "unsupported SQL statement"]))

end MiniSql.Query
