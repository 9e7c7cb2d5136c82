import MiniSql.JsonQuote
import MiniSql.Server.ResponseEffect
import MiniSql.Server.SelectAgreement

/-!
# Payloads as JSON texts

What a JSON parser makes of the payloads of `sql_service_execute`. Strings are
quoted so that they are read back. The fields of int and float columns are copied as
they are stored, and `is_integer_string` and `is_float_string` let signs, leading
zeros and bare dots pass that no JSON number has: a payload is JSON if and only if
the number fields of its rows happen to be JSON numbers.
-/

namespace MiniSql.Server

open Storage Index Query

/-! ## Strings -/

theorem yields_quote (src : Bytes) : Json.Yields (sqlJsonQuote src) (some (.string src)) :=
  Json.yields_string (yieldsString_escape src)

/-- The text of a member whose name needs no quoting. -/
def plainMember (name text : Bytes) : Bytes :=
  Json.quote :: name ++ Json.quote :: Json.colon :: text

theorem yieldsMember_plain {name : Bytes} (hplain : name.flatMap jsonEscape = name) {text : Bytes}
    {out : Option Json.Value} (h : Json.Yields text out) :
    Json.YieldsMember (plainMember name text) name out := by
  have hname := yieldsString_escape name
  rw [hplain] at hname
  exact ⟨name, text, rfl, hname, h⟩

/-! ## Numbers -/

theorem isNumberChar_of_isdigit {c : UInt8} (h : isdigit c = true) : Json.isNumberChar c = true :=
  forall_byte (p := fun c => isdigit c = true → Json.isNumberChar c = true) (by decide +kernel) c h

theorem isNumberChar_of_floatDigits {sawDigit sawDot : Bool} {text : Bytes}
    (h : isFloatDigits sawDigit sawDot text = true) : ∀ c ∈ text, Json.isNumberChar c = true := by
  induction text generalizing sawDigit sawDot with
  | nil => simp
  | cons c text ih =>
    rw [isFloatDigits] at h
    split at h
    · rename_i hdigit
      exact List.forall_mem_cons.mpr ⟨isNumberChar_of_isdigit hdigit, ih h⟩
    · split at h
      · rename_i hdot
        rw [hdot.1]
        exact List.forall_mem_cons.mpr ⟨by decide, ih h⟩
      · cases h

/-- The sign in front of the digits is a number character too. -/
theorem isNumberChar_signed {text : Bytes}
    (hne : (if peek text = 0x2d ∨ peek text = 0x2b then text.drop 1 else text) ≠ [])
    (h : ∀ c ∈ (if peek text = 0x2d ∨ peek text = 0x2b then text.drop 1 else text),
      Json.isNumberChar c = true) :
    text ≠ [] ∧ ∀ c ∈ text, Json.isNumberChar c = true := by
  cases text with
  | nil => simp at hne
  | cons c text =>
    refine ⟨by simp, ?_⟩
    split at h
    · rename_i hsign
      refine List.forall_mem_cons.mpr ⟨?_, by simpa using h⟩
      have hc : c = 0x2d ∨ c = 0x2b := hsign
      rcases hc with rfl | rfl <;> decide
    · exact h

/-- The field of an int or float column is a run of number characters. -/
theorem isNumberChar_field {column : ColumnDef} {field : Bytes}
    (h : matchesType column field = true) (htype : column.type ≠ .string) :
    field ≠ [] ∧ ∀ c ∈ field, Json.isNumberChar c = true := by
  unfold matchesType at h
  split at h
  · simp only [isIntegerString, Bool.and_eq_true, Bool.not_eq_true', List.all_eq_true] at h
    refine isNumberChar_signed ?_ fun c hc => isNumberChar_of_isdigit (h.2 c hc)
    intro hempty
    rw [hempty] at h
    cases h.1
  · refine isNumberChar_signed ?_ (isNumberChar_of_floatDigits h)
    intro hempty
    rw [isFloatString, hempty] at h
    cases h
  · contradiction

/-! ## Rows -/

/-- What the field of a column stands for. -/
def fieldValue (column : ColumnDef) (field : Bytes) : Json.Value :=
  if column.type = .string then .string field else .number field

def rowValue (schema : Schema) (row : Row) : Json.Value :=
  .object ((schema.columns.zip row).map fun entry => (entry.1.name, fieldValue entry.1 entry.2))

/-- A field that is copied into the payload is a JSON number. -/
def isJsonField (entry : ColumnDef × Bytes) : Bool :=
  entry.1.type = .string || Json.isNumber entry.2

def isJsonRow (schema : Schema) (row : Row) : Bool := (schema.columns.zip row).all isJsonField

theorem yields_field {column : ColumnDef} {field : Bytes} (h : matchesType column field = true) :
    Json.Yields (if column.type = .string then sqlJsonQuote field else field)
      (if isJsonField (column, field) then some (fieldValue column field) else none) := by
  by_cases htype : column.type = .string
  · simpa [htype, isJsonField, fieldValue] using yields_quote field
  · obtain ⟨hne, hchars⟩ := isNumberChar_field h htype
    simpa [htype, isJsonField, fieldValue] using Json.yields_number hne hchars

theorem yields_member {column : ColumnDef} {field : Bytes} (h : matchesType column field = true) :
    Json.YieldsMember (memberText column field) column.name
      (if isJsonField (column, field) then some (fieldValue column field) else none) := by
  refine ⟨column.name.flatMap jsonEscape, _, ?_, yieldsString_escape column.name, yields_field h⟩
  simp only [memberText, sqlJsonQuote, List.append_assoc, List.cons_append, List.nil_append]
  rfl

theorem yields_row {schema : Schema} {row : Row} (h : WellTyped schema row) :
    Json.Yields (objectText schema row)
      (if isJsonRow schema row then some (rowValue schema row) else none) := by
  have hmembers : ∀ entry ∈ schema.columns.zip row, Json.YieldsMember (memberText entry.1 entry.2)
      entry.1.name (if isJsonField entry then some (fieldValue entry.1 entry.2) else none) :=
    fun entry hentry => yields_member (List.forall₂_iff_zip.mp h |>.2 hentry)
  have hobject := Json.yields_object_map hmembers
  have htext : schema.columns.zipWith memberText row =
      (schema.columns.zip row).map fun entry => memberText entry.1 entry.2 := by
    rw [List.zip, List.map_zipWith]
  rw [objectText, htext]
  exact hobject

theorem yields_rows {schema : Schema} {rows : List Row} (h : ∀ row ∈ rows, WellTyped schema row) :
    Json.Yields (Json.openBracket :: [comma].intercalate (rows.map (objectText schema)) ++
      [Json.closeBracket])
      (if rows.all (isJsonRow schema) then some (.array (rows.map (rowValue schema))) else none) :=
  Json.yields_array_map (fun row hrow => yields_row (h row hrow))
    fun _ _ => ⟨0x7b, _, rfl, by decide, by decide⟩

/-! ## Payloads -/

/-- The document of an answer to a SELECT. -/
def selectValue (tableName : Bytes) (schema : Schema) (rows : List Row) : Json.Value :=
  .object [(ascii "ok", .bool true), (ascii "type", .string (ascii "select")),
    (ascii "table", .string tableName), (ascii "rows", .array (rows.map (rowValue schema)))]

/-- The objects of the rows, as an array. -/
def rowsText (objects : List Bytes) : Bytes :=
  Json.openBracket :: [comma].intercalate objects ++ [Json.closeBracket]

theorem selectPayload_eq (tableName : Bytes) (objects : List Bytes) :
    selectPayload tableName objects = Json.openBrace :: [Json.comma].intercalate
      [plainMember (ascii "ok") (ascii "true"), plainMember (ascii "type") (sqlJsonQuote (ascii "select")),
        plainMember (ascii "table") (sqlJsonQuote tableName),
        plainMember (ascii "rows") (rowsText objects)] ++ [Json.closeBrace] := by
  simp only [selectPayload, rowsText, plainMember, List.intercalate, List.intersperse,
    List.flatten_cons, List.flatten_nil, List.append_assoc, List.cons_append, List.nil_append]
  rfl

theorem document_select {schema : Schema} {rows : List Row} (h : ∀ row ∈ rows, WellTyped schema row)
    (tableName : Bytes) :
    Json.document (selectPayload tableName (rows.map (objectText schema))) =
      if rows.all (isJsonRow schema) then some (selectValue tableName schema rows) else none := by
  have hmembers : List.Forall₂
      (fun text (out : Bytes × Option Json.Value) => Json.YieldsMember text out.1 out.2)
      [plainMember (ascii "ok") (ascii "true"), plainMember (ascii "type") (sqlJsonQuote (ascii "select")),
        plainMember (ascii "table") (sqlJsonQuote tableName),
        plainMember (ascii "rows") (rowsText (rows.map (objectText schema)))]
      [(ascii "ok", some (.bool true)), (ascii "type", some (.string (ascii "select"))),
        (ascii "table", some (.string tableName)), (ascii "rows", if rows.all (isJsonRow schema) then
          some (.array (rows.map (rowValue schema))) else none)] := by
    refine .cons ?_ (.cons ?_ (.cons ?_ (.cons ?_ .nil)))
    · exact yieldsMember_plain (by decide) Json.yields_true
    · exact yieldsMember_plain (by decide) (yields_quote (ascii "select"))
    · exact yieldsMember_plain (by decide) (yields_quote tableName)
    · exact yieldsMember_plain (by decide) (yields_rows h)
  rw [selectPayload_eq, Json.document_of_yields (Json.yields_object hmembers)]
  cases rows.all (isJsonRow schema) <;> rfl

theorem buildErrorPayload_eq (message : Bytes) :
    buildErrorPayload message = Json.openBrace :: [Json.comma].intercalate
      [plainMember (ascii "ok") (ascii "false"), plainMember (ascii "error")
        (Json.openBrace :: [Json.comma].intercalate
          [plainMember (ascii "message") (sqlJsonQuote (trimmedMessage message))] ++
          [Json.closeBrace])] ++ [Json.closeBrace] := by
  simp only [buildErrorPayload, plainMember, List.intercalate, List.intersperse,
    List.flatten_cons, List.flatten_nil, List.append_assoc, List.cons_append, List.nil_append]
  rfl

theorem document_error (message : Bytes) :
    Json.document (buildErrorPayload message) = some (.object [(ascii "ok", .bool false),
      (ascii "error", .object [(ascii "message", .string (trimmedMessage message))])]) := by
  have hmessage : List.Forall₂
      (fun text (out : Bytes × Option Json.Value) => Json.YieldsMember text out.1 out.2)
      [plainMember (ascii "message") (sqlJsonQuote (trimmedMessage message))]
      [(ascii "message", some (.string (trimmedMessage message)))] :=
    .cons (yieldsMember_plain (by decide) (yields_quote _)) .nil
  have hmembers : List.Forall₂
      (fun text (out : Bytes × Option Json.Value) => Json.YieldsMember text out.1 out.2)
      [plainMember (ascii "ok") (ascii "false"), plainMember (ascii "error")
        (Json.openBrace :: [Json.comma].intercalate
          [plainMember (ascii "message") (sqlJsonQuote (trimmedMessage message))] ++
          [Json.closeBrace])]
      [(ascii "ok", some (.bool false)),
        (ascii "error", some (.object [(ascii "message", .string (trimmedMessage message))]))] := by
    refine .cons ?_ (.cons ?_ .nil)
    · exact yieldsMember_plain (by decide) Json.yields_false
    · exact yieldsMember_plain (by decide) (Json.yields_object hmessage)
  rw [buildErrorPayload_eq, Json.document_of_yields (Json.yields_object hmembers)]
  rfl

theorem buildInsertPayload_eq (query : Query) (message : Bytes) :
    buildInsertPayload query message = Json.openBrace :: [Json.comma].intercalate
      [plainMember (ascii "ok") (ascii "true"), plainMember (ascii "type") (sqlJsonQuote (ascii "insert")),
        plainMember (ascii "table") (sqlJsonQuote (query.tableName.getD [])),
        plainMember (ascii "affected_rows") (ascii "1"),
        plainMember (ascii "message") (sqlJsonQuote (trimmedMessage message))] ++
        [Json.closeBrace] := by
  simp only [buildInsertPayload, plainMember, List.intercalate, List.intersperse,
    List.flatten_cons, List.flatten_nil, List.append_assoc, List.cons_append, List.nil_append]
  rfl

theorem document_insert (query : Query) (message : Bytes) :
    Json.document (buildInsertPayload query message) = some (.object [(ascii "ok", .bool true),
      (ascii "type", .string (ascii "insert")), (ascii "table", .string (query.tableName.getD [])),
      (ascii "affected_rows", .number (ascii "1")),
      (ascii "message", .string (trimmedMessage message))]) := by
  have hone : Json.Yields (ascii "1")
      (if Json.isNumber (ascii "1") then some (.number (ascii "1")) else none) :=
    Json.yields_number (by decide) (by decide +kernel)
  rw [if_pos (by decide +kernel)] at hone
  have hmembers : List.Forall₂
      (fun text (out : Bytes × Option Json.Value) => Json.YieldsMember text out.1 out.2)
      [plainMember (ascii "ok") (ascii "true"), plainMember (ascii "type") (sqlJsonQuote (ascii "insert")),
        plainMember (ascii "table") (sqlJsonQuote (query.tableName.getD [])),
        plainMember (ascii "affected_rows") (ascii "1"),
        plainMember (ascii "message") (sqlJsonQuote (trimmedMessage message))]
      [(ascii "ok", some (.bool true)), (ascii "type", some (.string (ascii "insert"))),
        (ascii "table", some (.string (query.tableName.getD []))),
        (ascii "affected_rows", some (.number (ascii "1"))),
        (ascii "message", some (.string (trimmedMessage message)))] := by
    refine .cons ?_ (.cons ?_ (.cons ?_ (.cons ?_ (.cons ?_ .nil))))
    · exact yieldsMember_plain (by decide) Json.yields_true
    · exact yieldsMember_plain (by decide) (yields_quote (ascii "insert"))
    · exact yieldsMember_plain (by decide) (yields_quote _)
    · exact yieldsMember_plain (by decide) hone
    · exact yieldsMember_plain (by decide) (yields_quote _)
  rw [buildInsertPayload_eq, Json.document_of_yields (Json.yields_object hmembers)]
  rfl

/-! ## Service -/

theorem sqlServiceExecute_reachable {db : Db} (hdb : Reachable db) {sqlText : Bytes} {db' : Db}
    {result : SqlServiceResult} (h : sqlServiceExecute sqlText db = some (db', result)) :
    Reachable db' := by
  cases sqlServiceExecute_served h with
  | unparsed hparse => exact hdb
  | inserted hparse htype hexecute => exact .query hdb hexecute
  | @selected query _ out hparse htype hbuild =>
    obtain ⟨selected, hselection, -⟩ := selection_of_build hdb.valid hbuild
    have hstep : executeQuery query db = some (db', selected.map printedRows) := by
      simp [executeQuery, htype, executeSelect_selection hdb.valid, hselection]
    exact .query hdb hstep

/-- The number fields of the rows that a text selects are JSON numbers. -/
def JsonNumbers (sqlText : Bytes) (db : Db) : Prop :=
  ∀ query, parseSqlText sqlText .zero = (query, .ok ()) → query.type = .select →
    ∀ db' table indices, selection query db = some (db', .ok (table, indices)) →
      ∀ row ∈ rowsAt table.rows indices, isJsonRow table.schema row = true

/-- The payload is a JSON text; for a SELECT that succeeds it is the object whose
`rows` are the rows that are selected, each with the columns of the schema in order. -/
def PayloadIsJson (sqlText : Bytes) (db : Db) (payload : Bytes) : Prop :=
  (∃ v, Json.document payload = some v) ∧
  ∀ query, parseSqlText sqlText .zero = (query, .ok ()) → query.type = .select →
    ∀ db' table indices, selection query db = some (db', .ok (table, indices)) →
      Json.document payload = some (selectValue (query.tableName.getD []) table.schema
        (rowsAt table.rows indices))

theorem selection_valid {db : Db} (hdb : Valid db) {query : Query} {db' : Db} {table : TableState}
    {indices : List Nat} (h : selection query db = some (db', .ok (table, indices))) :
    table.Valid := by
  rcases hget : dbContextGetTable db query.tableName with _ | ⟨db₁, e | position⟩
  · simp [selection, hget] at h
  · simp [selection, hget] at h
  · rcases hhere : db₁.ctx.tables[position]? with _ | found
    · simp [selection, hget, hhere] at h
    · have ht := ((dbContextGetTable_got hget).valid hdb).tables found (List.mem_of_getElem? hhere)
      rcases htest : selectTest found.schema query.condition with e | test
      · simp [selection, hget, hhere, htest, Except.map] at h
      · simp only [selection, hget, hhere, htest, Except.map, Option.some.injEq, Prod.mk.injEq,
          Except.ok.injEq] at h
        rw [← h.2.1]
        exact ht

theorem rowsAt_mem {rows : List Row} {indices : List Nat} {row : Row} (h : row ∈ rowsAt rows indices) :
    row ∈ rows := by
  obtain ⟨index, -, hrow⟩ := List.mem_filterMap.mp h
  exact List.mem_of_getElem? hrow

/-- Where a text is no SELECT that succeeds, a JSON text is all there is to show. -/
theorem payload_json_trivial {sqlText : Bytes} {db : Db} {payload : Bytes} {v : Json.Value}
    (hdocument : Json.document payload = some v)
    (hnone : ∀ query, parseSqlText sqlText .zero = (query, .ok ()) → query.type = .select →
      ∀ db' table indices, selection query db ≠ some (db', .ok (table, indices))) :
    PayloadIsJson sqlText db payload ↔ JsonNumbers sqlText db := by
  constructor
  · intro _ query hparse htype db' table indices hselection
    exact absurd hselection (hnone query hparse htype db' table indices)
  · intro _
    refine ⟨⟨v, hdocument⟩, fun query hparse htype db' table indices hselection => ?_⟩
    exact absurd hselection (hnone query hparse htype db' table indices)

/-- For a SELECT that succeeds, the document of its rows is what there is to show. -/
theorem payload_json_select {sqlText : Bytes} {db : Db} {query : Query}
    (hparse : parseSqlText sqlText .zero = (query, .ok ())) (htype : query.type = .select)
    {db' : Db} {table : TableState} {indices : List Nat}
    (hselection : selection query db = some (db', .ok (table, indices))) {payload : Bytes}
    (hdocument : Json.document payload =
      if (rowsAt table.rows indices).all (isJsonRow table.schema) then
        some (selectValue (query.tableName.getD []) table.schema (rowsAt table.rows indices))
      else none) :
    PayloadIsJson sqlText db payload ↔ JsonNumbers sqlText db := by
  constructor
  · rintro ⟨⟨v, hv⟩, -⟩ query' hparse' _ db₁ table' indices' hselection'
    rw [hparse] at hparse'
    cases hparse'
    rw [hselection] at hselection'
    cases hselection'
    by_contra hnot
    rw [hdocument, if_neg (by simpa using hnot)] at hv
    cases hv
  · intro hnumbers
    have hall := hnumbers query hparse htype db' table indices hselection
    rw [if_pos (List.all_eq_true.mpr hall)] at hdocument
    refine ⟨⟨_, hdocument⟩, fun query' hparse' _ db₁ table' indices' hselection' => ?_⟩
    rw [hparse] at hparse'
    cases hparse'
    rw [hselection] at hselection'
    cases hselection'
    exact hdocument

theorem sqlServiceExecute_json {db : Db} (hdb : Valid db) {sqlText : Bytes} {db' : Db}
    {result : SqlServiceResult} (h : sqlServiceExecute sqlText db = some (db', result)) :
    PayloadIsJson sqlText db result.payload ↔ JsonNumbers sqlText db := by
  cases sqlServiceExecute_served h with
  | @unparsed query e hparse =>
    refine payload_json_trivial (document_error e.message) fun query' hparse' => ?_
    cases hparse.symm.trans hparse'
  | @inserted query _ out hparse htype hexecute =>
    have hnone : ∀ query', parseSqlText sqlText .zero = (query', .ok ()) →
        query'.type = .select → ∀ db' table indices,
        selection query' db ≠ some (db', .ok (table, indices)) := by
      intro query' hparse' hselect
      cases hparse.symm.trans hparse'
      cases htype.symm.trans hselect
    cases out with
    | error e => exact payload_json_trivial (document_error e.message) hnone
    | ok printed => exact payload_json_trivial (document_insert query _) hnone
  | @selected query _ out hparse htype hbuild =>
    obtain ⟨selected, hselection, rfl⟩ := selection_of_build hdb hbuild
    rcases selected with e | ⟨table, indices⟩
    · refine payload_json_trivial (document_error e.message) fun query' hparse' _ => ?_
      cases hparse.symm.trans hparse'
      simp [hselection]
    · have htyped : ∀ row ∈ rowsAt table.rows indices, WellTyped table.schema row :=
        fun row hrow => (selection_valid hdb hselection).keyed.typed row (rowsAt_mem hrow)
      exact payload_json_select hparse htype hselection (document_select htyped _)

/-- **When a payload is JSON.** In every state that a run reaches, a text gets a payload
that is a JSON text, with the rows that the text selects, if and only if its query is
safe to run and the int and float fields of these rows are JSON numbers. -/
theorem payload_json_iff {db : Db} (hdb : Reachable db) (sqlText : Bytes) :
    (∃ db' result, sqlServiceExecute sqlText db = some (db', result) ∧
      PayloadIsJson sqlText db result.payload) ↔
    (∀ query, parseSqlText sqlText .zero = (query, .ok ()) → SafeToRun query db) ∧
      JsonNumbers sqlText db := by
  rw [← sqlServiceExecute_defined_iff hdb.valid]
  constructor
  · rintro ⟨db', result, h, hjson⟩
    exact ⟨by simp [h], (sqlServiceExecute_json hdb.valid h).mp hjson⟩
  · rintro ⟨hdefined, hnumbers⟩
    obtain ⟨⟨db', result⟩, h⟩ := Option.ne_none_iff_exists'.mp hdefined
    exact ⟨db', result, h, (sqlServiceExecute_json hdb.valid h).mpr hnumbers⟩

/-- A SELECT on the example directory. -/
theorem payload_json_users :
    ∃ db' result, sqlServiceExecute (ascii "SELECT * FROM users;") usersDb = some (db', result) ∧
      result.ok = true ∧
      PayloadIsJson (ascii "SELECT * FROM users;") usersDb result.payload := by
  have hrun : (sqlServiceExecute (ascii "SELECT * FROM users;") usersDb).map (fun out => out.2.ok) =
      some true := by decide +kernel
  have hparse : parseSqlText (ascii "SELECT * FROM users;") .zero =
      (⟨.select, some (ascii "users"), [], none⟩, .ok ()) := by decide +kernel
  have hrows : (selection ⟨.select, some (ascii "users"), [], none⟩ usersDb).map (fun out =>
      out.2.map fun selected =>
        (rowsAt selected.1.rows selected.2).all (isJsonRow selected.1.schema)) = some (.ok true) := by
    decide +kernel
  have hnumbers : JsonNumbers (ascii "SELECT * FROM users;") usersDb := by
    intro query hquery _ db' table indices hselection
    rw [hparse] at hquery
    cases hquery
    rw [hselection] at hrows
    simpa [Except.map] using hrows
  obtain ⟨⟨db', result⟩, h, hok⟩ := Option.map_eq_some_iff.mp hrun
  have hdb : Reachable usersDb := .create usersDisk (ascii "db")
  have hsafe := (sqlServiceExecute_defined_iff hdb.valid (ascii "SELECT * FROM users;")).mp (by simp [h])
  obtain ⟨db₁, result₁, h₁, hjson⟩ := (payload_json_iff hdb _).mpr ⟨hsafe, hnumbers⟩
  cases h.symm.trans h₁
  exact ⟨db', result, h, hok, hjson⟩

/-- A database directory with an empty table that has an int column beside its key. -/
def scoresDisk : Disk where
  schemas := fun name => if name = ascii "scores" then
    some (ascii "table=scores\ncolumns=id:int,name:string,score:int\npkey=id\nautoincrement=true\n")
    else none
  tables := fun name => if name = ascii "scores" then some [] else none
  nameMax := by
    intro name h
    by_cases hname : name = ascii "scores"
    · rw [hname]
      decide
    · simp [hname] at h

/-- Behind an INSERT of the score `007` the payload of a SELECT is no JSON text. -/
theorem payload_json_leading_zeros :
    ∃ db inserted db' selected,
      sqlServiceExecute (ascii "INSERT INTO scores VALUES ('ann', 007);")
        ⟨scoresDisk, dbContextCreate (ascii "db")⟩ = some (db, inserted) ∧ inserted.ok = true ∧
      Reachable db ∧
      sqlServiceExecute (ascii "SELECT * FROM scores;") db = some (db', selected) ∧
      selected.ok = true ∧ Json.document selected.payload = none := by
  have hrun : (sqlServiceExecute (ascii "INSERT INTO scores VALUES ('ann', 007);")
      ⟨scoresDisk, dbContextCreate (ascii "db")⟩).map (fun out => (out.2.ok,
        (sqlServiceExecute (ascii "SELECT * FROM scores;") out.1).map fun out =>
          (out.2.ok, (Json.document out.2.payload).isNone))) = some (true, some (true, true)) := by
    decide +kernel
  obtain ⟨⟨db, inserted⟩, hinsert, hrest⟩ := Option.map_eq_some_iff.mp hrun
  obtain ⟨hinserted, hselect⟩ := Prod.mk.inj hrest
  obtain ⟨⟨db', selected⟩, hselect, hrest⟩ := Option.map_eq_some_iff.mp hselect
  obtain ⟨hselected, hnone⟩ := Prod.mk.inj hrest
  exact ⟨db, inserted, db', selected, hinsert, hinserted,
    sqlServiceExecute_reachable (.create scoresDisk (ascii "db")) hinsert, hselect, hselected,
    Option.isNone_iff_eq_none.mp hnone⟩

end MiniSql.Server
