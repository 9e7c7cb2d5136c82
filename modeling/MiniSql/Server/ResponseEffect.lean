import MiniSql.Query.SafeQueries
import MiniSql.Server.SelectAgreement
import MiniSql.Server.Requests

/-!
# What a response says about the database

A response with status 200 and an insert payload means one row more, in the file of
the table, in its rows and in its index. Behind every other response the files and
the tables in memory are what they were, up to a table that the request loaded.
-/

namespace MiniSql.Server

open Storage Index Query

/-- Exactly one row more: the values of the query, completed and checked against the
table, at the end of the file and of the rows, and in the index. The table is the
one in memory, or the one that the request loads. -/
def RowAppended (query : Query) (db db' : Db) : Prop :=
  ∃ loaded position table fields id index,
    dbContextGetTable db query.tableName = some (loaded, .ok position) ∧
    loaded.ctx.tables[position]? = some table ∧
    Prepared table query.values fields id ∧
    Represents index (keyMap table.schema (table.rows ++ [fields])) ∧
    db' = ⟨writeTable loaded.disk (query.tableName.getD [])
        ((loaded.disk.tables (query.tableName.getD [])).getD [] ++ csvLine fields),
      loaded.ctx.setTable position (insertedTable table fields id index)⟩

/-- The files are the same, and so is every table in memory; a table may have been
loaded behind them. -/
def Untouched (db db' : Db) : Prop := db'.disk = db.disk ∧ db.ctx.tables <+: db'.ctx.tables

def saysOk (body : Bytes) : Bool := (ascii "\x7b\"ok\":true").isPrefixOf body

def saysInsert (body : Bytes) : Bool :=
  (ascii "\x7b\"ok\":true,\"type\":\"insert\"").isPrefixOf body

/-! ## Payloads -/

theorem saysOk_error (message : Bytes) : saysOk (buildErrorPayload message) = false := rfl

theorem saysOk_select (tableName : Bytes) (objects : List Bytes) :
    saysOk (selectPayload tableName objects) = true ∧
    saysInsert (selectPayload tableName objects) = false := ⟨rfl, rfl⟩

theorem saysOk_insert (query : Query) (message : Bytes) :
    saysOk (buildInsertPayload query message) = true ∧
    saysInsert (buildInsertPayload query message) = true := ⟨rfl, rfl⟩

/-! ## Effects -/

theorem untouched_of_got {db db' : Db} {got : Except SqlError Nat} (h : Got db db' got) :
    Untouched db db' := h.grows

theorem csvLine_ne_nil (fields : Row) : csvLine fields ≠ [] := by simp [csvLine]

theorem RowAppended.disk_ne {query : Query} {db db' : Db} (h : RowAppended query db db') :
    db'.disk ≠ db.disk := by
  obtain ⟨loaded, position, table, fields, id, index, hget, -, -, -, rfl⟩ := h
  intro hsame
  rw [(dbContextGetTable_got hget).grows.1] at hsame
  have hfile := congrArg (fun disk => disk.tables (query.tableName.getD [])) hsame
  simp only [writeTable, ↓reduceIte] at hfile
  have hline := csvLine_ne_nil fields
  cases hold : db.disk.tables (query.tableName.getD []) with
  | none => simp [hold] at hfile
  | some file => simp [hold, hline] at hfile

/-- What `build_select_payload` leaves behind. -/
theorem buildSelectPayload_untouched {query : Query} {db db' : Db} {out : Except SqlError Bytes}
    (h : buildSelectPayload query db = some (db', out)) :
    Untouched db db' ∧ ∀ payload, out = .ok payload →
      ∃ objects, payload = selectPayload (query.tableName.getD []) objects := by
  unfold buildSelectPayload at h
  split at h
  · cases h
  · rename_i hget
    cases h
    exact ⟨untouched_of_got (dbContextGetTable_got hget), nofun⟩
  · rename_i hget
    have hgot := untouched_of_got (dbContextGetTable_got hget)
    split at h
    · cases h
    · split at h
      · cases h
      · cases h
        exact ⟨hgot, nofun⟩
      · rename_i objects _
        cases h
        refine ⟨hgot, fun payload hpayload => ⟨objects, ?_⟩⟩
        cases hpayload
        rfl

/-- How a request is answered. -/
inductive Answered (request : HttpRequest) (db db' : Db) (response : HttpResponse) : Prop
  | refused (status : response.statusCode = 400 ∨ response.statusCode = 405)
      (body : saysOk response.body = false) (effect : Untouched db db')
  | selected (status : response.statusCode = 200)
      (body : saysOk response.body = true ∧ saysInsert response.body = false)
      (effect : Untouched db db')
  | inserted (status : response.statusCode = 200)
      (body : saysOk response.body = true ∧ saysInsert response.body = true) {query : Query}
      (query_eq : request.query? = some query) (effect : RowAppended query db db')

theorem requestOperation_refuses {request : HttpRequest} {response : HttpResponse}
    (h : requestOperation request = .error response) :
    (response.statusCode = 400 ∨ response.statusCode = 405) ∧ saysOk response.body = false := by
  unfold requestOperation at h
  repeat' split at h
  all_goals
    cases h
    try exact ⟨by simp [setJsonErrorResponse, setJsonResponse], rfl⟩

theorem executeInsert_answered {request : HttpRequest} {query : Query} {db db' : Db}
    {out : Except SqlError (List Printed)} (hdb : Valid db) (hquery : request.query? = some query)
    (h : executeInsert query db = some (db', out)) :
    Answered request db db' (resultResponse (serviceResult (out.map (insertPayload query)))) := by
  cases executeInsert_effect hdb h with
  | rejected hgot error =>
    exact .refused (.inl rfl) (saysOk_error error.message) (untouched_of_got hgot)
  | inserted hget hhere hprep hins hvalid =>
    refine .inserted rfl (saysOk_insert query _) hquery ?_
    exact ⟨_, _, _, _, _, _, hget, hhere, hprep, hvalid.index, rfl⟩

theorem requestHandlerHandle_answered {request : HttpRequest} {db db' : Db}
    {response : HttpResponse} (hdb : Valid db)
    (h : requestHandlerHandle request db = some (db', response)) :
    Answered request db db' response := by
  rcases hop : requestOperation request with refusal | operation
  · simp only [requestHandlerHandle, hop] at h
    cases h
    obtain ⟨hstatus, hbody⟩ := requestOperation_refuses hop
    exact .refused hstatus hbody ⟨rfl, List.prefix_rfl⟩
  · simp only [requestHandlerHandle, hop, Option.map_eq_some_iff, Prod.exists] at h
    obtain ⟨db₁, result, hservice, hresult⟩ := h
    cases hresult
    cases sqlServiceExecute_served hservice with
    | @unparsed query e hparse =>
      exact .refused (.inl rfl) (saysOk_error e.message) ⟨rfl, List.prefix_rfl⟩
    | @selected query db₂ out hparse htype hbuild =>
      obtain ⟨huntouched, hpayload⟩ := buildSelectPayload_untouched hbuild
      rcases out with e | payload
      · exact .refused (.inl rfl) (saysOk_error e.message) huntouched
      · obtain ⟨objects, rfl⟩ := hpayload payload rfl
        exact .selected rfl (saysOk_select _ objects) huntouched
    | @inserted query db₂ out hparse htype hexecute =>
      simp only [executeQuery, htype] at hexecute
      exact executeInsert_answered hdb (query?_eq_some hparse) hexecute

/-! ## Requests are answered -/

theorem query?_iff {request : HttpRequest} {query : Query} :
    request.query? = some query ↔ parseSqlText request.sqlText .zero = (query, .ok ()) := by
  rw [HttpRequest.query?]
  rcases parseSqlText request.sqlText .zero with ⟨parsed, e | _⟩ <;> simp

section

variable {db : Db} (hdb : Valid db)
include hdb

theorem buildSelectPayload_defined_iff {query : Query} (htype : query.type = .select) :
    buildSelectPayload query db ≠ none ↔ SafeToRun query db := by
  have hsafe : SafeToRun query db ↔ dbContextGetTable db query.tableName ≠ none := by
    rw [dbContextGetTable_defined_iff]
    constructor
    · exact SafeToRun.load
    · intro hload
      refine ⟨hload, fun hinsert => ?_⟩
      cases htype.symm.trans hinsert
  rw [hsafe, buildSelectPayload_selection hdb]
  rcases hget : dbContextGetTable db query.tableName with _ | ⟨db', e | position⟩
  · simp [selection, hget]
  · simp [selection, hget]
  · obtain ⟨table, hhere⟩ := (dbContextGetTable_got hget).here
    simp [selection, hget, hhere]

/-- A text has a payload exactly if its query, if it is one, is safe to run. -/
theorem sqlServiceExecute_defined_iff (sqlText : Bytes) :
    sqlServiceExecute sqlText db ≠ none ↔
      ∀ query, parseSqlText sqlText .zero = (query, .ok ()) → SafeToRun query db := by
  rcases hparse : parseSqlText sqlText .zero with ⟨query, e | u⟩
  · simp [sqlServiceExecute, hparse]
  · simp only [Prod.mk.injEq, and_true, forall_eq']
    cases htype : query.type with
    | select =>
      rw [← buildSelectPayload_defined_iff hdb htype]
      simp [sqlServiceExecute, hparse, htype]
    | insert =>
      rw [← executeInsert_defined_iff hdb htype]
      simp [sqlServiceExecute, hparse, htype, executeQuery]

theorem requestHandlerHandle_defined_iff (request : HttpRequest) :
    requestHandlerHandle request db ≠ none ↔
      ∀ operation query, requestOperation request = .ok operation → request.query? = some query →
        SafeToRun query db := by
  rcases hop : requestOperation request with refusal | operation
  · simp [requestHandlerHandle, hop]
  · have hservice := sqlServiceExecute_defined_iff hdb request.sqlText
    simp only [← query?_iff] at hservice
    have hhandle : requestHandlerHandle request db ≠ none ↔
        sqlServiceExecute request.sqlText db ≠ none := by
      simp [requestHandlerHandle, hop]
    rw [hhandle, hservice]
    constructor
    · intro hsafe operation' query _ hquery
      exact hsafe query hquery
    · intro hsafe query hquery
      exact hsafe operation query rfl hquery

end

/-- **The status tells the effect.** In every state that a run reaches, a request is
answered exactly if it is refused or its query is safe to run. The answer is 200 with an
insert payload if and only if exactly one row was appended, and behind every other one the
files and the tables that were loaded are what they were; it is 200 if and only if the
payload says so, and 400 or 405 otherwise. -/
theorem response_tells_effect {db : Db} (hdb : Reachable db) (request : HttpRequest) :
    ((∃ db' response, requestHandlerHandle request db = some (db', response)) ↔
      ∀ operation query, requestOperation request = .ok operation → request.query? = some query →
        SafeToRun query db) ∧
    ∀ db' response, requestHandlerHandle request db = some (db', response) →
      ((response.statusCode = 200 ∧ saysInsert response.body = true) ↔
        ∃ query, request.query? = some query ∧ RowAppended query db db') ∧
      (¬ (response.statusCode = 200 ∧ saysInsert response.body = true) → Untouched db db') ∧
      (response.statusCode = 200 ↔ saysOk response.body = true) ∧
      (response.statusCode = 200 ∨ response.statusCode = 400 ∨ response.statusCode = 405) := by
  constructor
  · rw [← requestHandlerHandle_defined_iff hdb.valid, Option.ne_none_iff_exists', Prod.exists]
  · intro db' response h
    -- A row that was appended shows in the file.
    have hnot (huntouched : Untouched db db') :
        ¬ ∃ query, request.query? = some query ∧ RowAppended query db db' := by
      rintro ⟨query, -, happended⟩
      exact happended.disk_ne huntouched.1
    cases requestHandlerHandle_answered hdb.valid h with
    | refused hstatus hbody heffect =>
      have hstatus' : response.statusCode ≠ 200 := by omega
      exact ⟨⟨fun h200 => absurd h200.1 hstatus', fun happended => absurd happended (hnot heffect)⟩,
        fun _ => heffect, by simp [hstatus', hbody], .inr hstatus⟩
    | selected hstatus hbody heffect =>
      refine ⟨⟨fun hinsert => ?_, fun happended => absurd happended (hnot heffect)⟩,
        fun _ => heffect, by simp [hstatus, hbody.1], .inl hstatus⟩
      rw [hbody.2] at hinsert
      cases hinsert.2
    | inserted hstatus hbody hquery heffect =>
      exact ⟨⟨fun _ => ⟨_, hquery, heffect⟩, fun _ => ⟨hstatus, hbody.2⟩⟩,
        fun hother => absurd ⟨hstatus, hbody.2⟩ hother, by simp [hstatus, hbody.1], .inl hstatus⟩

/-- An INSERT into the example directory. -/
theorem response_tells_effect_users :
    ∃ db' response, requestHandlerHandle
        ⟨ascii "POST", ascii "/", some (ascii "INSERT INTO users VALUES ('eve');")⟩ usersDb =
        some (db', response) ∧
      response.statusCode = 200 ∧ ∃ query, RowAppended query usersDb db' := by
  have hrun : (requestHandlerHandle
      ⟨ascii "POST", ascii "/", some (ascii "INSERT INTO users VALUES ('eve');")⟩ usersDb).map
      (fun out => (out.2.statusCode, saysInsert out.2.body)) = some (200, true) := by
    decide +kernel
  obtain ⟨⟨db', response⟩, h, hout⟩ := Option.map_eq_some_iff.mp hrun
  obtain ⟨hstatus, hinsert⟩ := Prod.mk.inj hout
  obtain ⟨query, -, happended⟩ :=
    (((response_tells_effect (.create usersDisk (ascii "db")) _).2 db' response h).1.mp
      ⟨hstatus, hinsert⟩)
  exact ⟨db', response, h, hstatus, query, happended⟩

end MiniSql.Server
