import MiniSql.Server.WorkShared

/-!
# Requests one at a time

`handleAll` is what a server with a single worker does. On loaded tables every
request that is answered 200 to an INSERT adds one row, at the end of its table
and of its file, and no request changes anything else.
-/

namespace MiniSql.Server

open Storage Index Query

/-- A result, or no response and the same database where the behaviour is not
defined. -/
def outcome (db : Db) : Option (Db × HttpResponse) → Option HttpResponse × Db
  | none => (none, db)
  | some (db, response) => (some response, db)

/-- Handle a request alone. -/
def handleAlone (request : HttpRequest) (db : Db) : Option HttpResponse × Db :=
  outcome db (requestHandlerHandle request db)

def handleAll : List HttpRequest → Db → List (Option HttpResponse) × Db
  | [], db => ([], db)
  | request :: requests, db =>
    ((handleAlone request db).1 :: (handleAll requests (handleAlone request db).2).1,
      (handleAll requests (handleAlone request db).2).2)

def HttpRequest.query? (request : HttpRequest) : Option Query :=
  match parseSqlText request.sqlText .zero with
  | (query, .ok _) => some query
  | (_, .error _) => none

/-- The request is an INSERT into the table. -/
def HttpRequest.insertsInto (request : HttpRequest) (tableName : Bytes) : Bool :=
  (request.query?.map fun query => (query.type, query.tableName)) = some (.insert, some tableName)

/-- An INSERT into the table that is answered 200. -/
def accepted (request : HttpRequest) (response : Option HttpResponse) (tableName : Bytes) : Bool :=
  request.insertsInto tableName && response.map HttpResponse.statusCode = some 200

/-- A request that gets as far as a table finds it loaded. -/
def OnLoaded (names : List Bytes) (request : HttpRequest) : Prop :=
  ∀ query, request.query? = some query → ∃ tableName ∈ names, query.tableName = some tableName

/-! ## The task of a request -/

theorem findIdx?_of_mem {names : List Bytes} {tableName : Bytes} (h : tableName ∈ names) :
    ∃ position, names.findIdx? (· == tableName) = some position := by
  cases hfind : names.findIdx? (· == tableName) with
  | none => simpa using List.findIdx?_eq_none_iff.mp hfind tableName h
  | some position => exact ⟨position, rfl⟩

theorem loaded_of_mem {names : List Bytes} {db : Db} (hdb : HasNames names db) {tableName : Bytes}
    (h : tableName ∈ names) : ∃ position table, Loaded db tableName position table := by
  obtain ⟨position, hfind⟩ := findIdx?_of_mem h
  rw [← hdb, ← findTable_names] at hfind
  obtain ⟨table, hhere, -⟩ := findTable_some hfind
  exact ⟨position, table, hfind, hhere⟩

theorem query?_eq_some {request : HttpRequest} {query : Query} {u : Unit}
    (h : parseSqlText request.sqlText .zero = (query, .ok u)) : request.query? = some query := by
  rw [HttpRequest.query?, h]

section

variable {names : List Bytes} {request : HttpRequest} (hnames : OnLoaded names request)
  (scratch : List BPTree)
include hnames

theorem sqlWork_keeps :
    Prog.Keeps (HasNames names) (fun _ => True) (sqlWork scratch request.sqlText) := by
  unfold sqlWork
  split
  · trivial
  · rename_i query u hparse
    obtain ⟨tableName, hmem, hname⟩ := hnames query (query?_eq_some hparse)
    obtain ⟨position, hfind⟩ := findIdx?_of_mem hmem
    split
    · apply Prog.Guarantees.bind (Prog.ReadsOnly.keeps (selectWork_reads hname hfind))
      intro out _
      trivial
    · apply Prog.Guarantees.bind (insertWork_keeps scratch hname hfind)
      intro out _
      trivial

/-- Under the read lock the text is no INSERT. -/
theorem sqlWork_reads (hop : requestOperation request = .ok .read) :
    Prog.ReadsOnly (HasNames names) (fun _ => True) (sqlWork scratch request.sqlText) := by
  have hclass := requestOperation_classify hop
  unfold sqlWork
  split
  · trivial
  · rename_i query u hparse
    rw [classify_parsed request.sqlText_nulFree hparse] at hclass
    obtain ⟨tableName, hmem, hname⟩ := hnames query (query?_eq_some hparse)
    obtain ⟨position, hfind⟩ := findIdx?_of_mem hmem
    split
    · apply Prog.Guarantees.bind (selectWork_reads hname hfind)
      intro out _
      trivial
    · rename_i hinsert
      rw [if_pos hinsert] at hclass
      cases hclass

theorem requestTask_safe : (requestTask scratch request).Safe (HasNames names) := by
  unfold requestTask
  split
  · trivial
  · rename_i hop
    exact sqlWork_reads hnames scratch hop
  · exact sqlWork_keeps hnames scratch

variable {db : Db} (hdb : Valid db) (hhas : HasNames names db)
include hdb hhas

theorem sqlWork_eval : (sqlWork scratch request.sqlText).eval db =
    outcome db ((sqlServiceExecute request.sqlText db).map (Prod.map id resultResponse)) := by
  rcases hparse : parseSqlText request.sqlText .zero with ⟨query, e | u⟩
  · simp only [sqlWork, sqlServiceExecute, hparse]
    rfl
  · obtain ⟨tableName, hmem, hname⟩ := hnames query (query?_eq_some hparse)
    obtain ⟨position, table, hloaded⟩ := loaded_of_mem hhas hmem
    simp only [sqlWork, sqlServiceExecute, hparse]
    cases htype : query.type with
    | select =>
      obtain ⟨out, hwork, hpayload⟩ := eval_selectWork hloaded hname
      rw [Work.eval] at hwork
      simp only [Prog.eval_bind, hwork, hpayload, Prog.eval_ret]
      cases out with
      | none => rfl
      | some out => rfl
    | insert =>
      have ht := hdb.tables table (List.mem_of_getElem? hloaded.here)
      obtain ⟨out, db', hwork, hinsert, hnone⟩ := eval_insertWork hloaded ht scratch hname
      rw [Work.eval] at hwork
      simp only [Prog.eval_bind, hwork, Prog.eval_ret, executeQuery, htype, hinsert]
      cases out with
      | none =>
        rw [hnone rfl]
        rfl
      | some out => rfl

theorem requestTask_eval : (requestTask scratch request).eval db = handleAlone request db := by
  have hwork := sqlWork_eval hnames scratch hdb hhas
  unfold requestTask handleAlone requestHandlerHandle
  cases hop : requestOperation request with
  | error response => rfl
  | ok operation =>
    cases operation with
    | unknown => exact hwork
    | read => exact hwork
    | write => exact hwork

end

/-! ## What a request adds -/

theorem insertFields_suffix {table : TableState} {values : List Bytes} {fields : Row}
    (h : insertFields table values = .ok fields) : values <:+ fields := by
  unfold insertFields at h
  split at h
  · cases h
    exact List.suffix_rfl
  · split at h
    · cases h
      exact List.suffix_cons _ values
    · cases h

/-- The effect of an INSERT that is answered 200. -/
structure Inserted (request : HttpRequest) (db db' : Db) (position : Nat) (table : TableState)
    (fields : Row) : Prop where
  here : db.ctx.tables[position]? = some table
  query : ∃ query, request.query? = some query ∧ query.type = .insert ∧
    query.tableName = some table.name ∧ query.values <:+ fields
  effect : ∃ id index, (insertedTable table fields id index).Valid ∧
    db' = ⟨writeTable db.disk table.name ((db.disk.tables table.name).getD [] ++ csvLine fields),
      db.ctx.setTable position (insertedTable table fields id index)⟩

theorem accepted_eq_false {request : HttpRequest} {response : HttpResponse}
    (h : response.statusCode ≠ 200) (tableName : Bytes) :
    accepted request (some response) tableName = false := by
  simp [accepted, h]

theorem requestOperation_status {request : HttpRequest} {response : HttpResponse}
    (h : requestOperation request = .error response) : response.statusCode ≠ 200 := by
  unfold requestOperation at h
  repeat' split at h
  all_goals
    cases h
    try simp [setJsonErrorResponse, setJsonResponse]

theorem serviceResult_error_status (e : SqlError) :
    (resultResponse (serviceResult (.error e))).statusCode ≠ 200 := by
  intro h
  cases h

section

variable {names : List Bytes} {request : HttpRequest} (hnames : OnLoaded names request)
  {db : Db} (hdb : Valid db) (hhas : HasNames names db)
include hnames hdb hhas

theorem sqlServiceExecute_cases :
    let out := outcome db ((sqlServiceExecute request.sqlText db).map (Prod.map id resultResponse))
    (out.2 = db ∧ ∀ tableName, accepted request out.1 tableName = false) ∨
    ∃ position table fields, Inserted request db out.2 position table fields ∧
      out.1.map HttpResponse.statusCode = some 200 := by
  unfold sqlServiceExecute
  split
  · rename_i e hparse
    exact .inl ⟨rfl, accepted_eq_false (serviceResult_error_status e)⟩
  · rename_i query u hparse
    have hquery := query?_eq_some hparse
    obtain ⟨tableName, hmem, hname⟩ := hnames query hquery
    obtain ⟨position, table, hloaded⟩ := loaded_of_mem hhas hmem
    cases htype : query.type with
    | select =>
      obtain ⟨out, -, hpayload⟩ := eval_selectWork hloaded hname
      rw [hpayload]
      left
      constructor
      · cases out with
        | none => rfl
        | some out => rfl
      · intro name
        simp [accepted, HttpRequest.insertsInto, hquery, htype]
    | insert =>
      have ht := hdb.tables table (List.mem_of_getElem? hloaded.here)
      have htable := hloaded.name
      simp only [executeQuery, htype, executeInsert, hname, hloaded.getTable, hloaded.here,
        Option.getD_some]
      rcases hprep : prepareInsert table query.values with _ | e | ⟨fields, id⟩
      · exact .inl ⟨rfl, fun _ => by simp [accepted, outcome]⟩
      · exact .inl ⟨rfl, accepted_eq_false (serviceResult_error_status e)⟩
      · have hprep := prepareInsert_ok hprep
        obtain ⟨index, hindex, hvalid⟩ := hprep.insert ht
        simp only [commitInsert_eq hprep db tableName position hindex]
        refine .inr ⟨position, table, fields, ⟨hloaded.here, ?_, id, index, hvalid, ?_⟩, rfl⟩
        · exact ⟨query, hquery, htype, by rw [hname, htable], insertFields_suffix hprep.fields_eq⟩
        · rw [htable]
          rfl

/-- What a request can do: nothing, or an accepted INSERT. -/
theorem handleAlone_cases :
    ((handleAlone request db).2 = db ∧
      ∀ tableName, accepted request (handleAlone request db).1 tableName = false) ∨
    ∃ position table fields, Inserted request db (handleAlone request db).2 position table fields ∧
      (handleAlone request db).1.map HttpResponse.statusCode = some 200 := by
  unfold handleAlone requestHandlerHandle
  cases hop : requestOperation request with
  | error response => exact .inl ⟨rfl, accepted_eq_false (requestOperation_status hop)⟩
  | ok operation => exact sqlServiceExecute_cases hnames hdb hhas

end

theorem Inserted.valid {request : HttpRequest} {db db' : Db} {position : Nat} {table : TableState}
    {fields : Row} (h : Inserted request db db' position table fields) {names : List Bytes}
    (hdb : Valid db) (hhas : HasNames names db) : Valid db' ∧ HasNames names db' := by
  obtain ⟨id, index, hvalid, rfl⟩ := h.effect
  have hname : (insertedTable table fields id index).name = table.name := rfl
  exact ⟨hdb.setTable h.here hvalid hname _, (names_set h.here hname).trans hhas⟩

theorem handleAlone_valid {names : List Bytes} {request : HttpRequest}
    (hnames : OnLoaded names request) {db : Db} (hdb : Valid db) (hhas : HasNames names db) :
    Valid (handleAlone request db).2 ∧ HasNames names (handleAlone request db).2 := by
  rcases handleAlone_cases hnames hdb hhas with ⟨hsame, -⟩ | ⟨position, table, fields, h, -⟩
  · rw [hsame]
    exact ⟨hdb, hhas⟩
  · exact h.valid hdb hhas

/-- A table and its file have grown by some rows. -/
def Added (position : Nat) (rows : List Row) (db db' : Db) : Prop :=
  ∀ table, db.ctx.tables[position]? = some table →
    ∃ table', db'.ctx.tables[position]? = some table' ∧ table'.name = table.name ∧
      table'.rows = table.rows ++ rows ∧
      (db'.disk.tables table.name).getD [] =
        (db.disk.tables table.name).getD [] ++ rows.flatMap csvLine

theorem Added.refl (position : Nat) (db : Db) : Added position [] db db := by
  intro table h
  exact ⟨table, h, rfl, by simp, by simp⟩

theorem Added.trans {position : Nat} {rows rows' : List Row} {db db' db'' : Db}
    (h : Added position rows db db') (h' : Added position rows' db' db'') :
    Added position (rows ++ rows') db db'' := by
  intro table hhere
  obtain ⟨table', hhere', hname, hrows, hfile⟩ := h table hhere
  obtain ⟨table'', hhere'', hname', hrows', hfile'⟩ := h' table' hhere'
  refine ⟨table'', hhere'', hname'.trans hname, ?_, ?_⟩
  · rw [hrows', hrows, List.append_assoc]
  · rw [hname] at hfile'
    rw [hfile', hfile, List.flatMap_append, List.append_assoc]

theorem Inserted.added {request : HttpRequest} {db db' : Db} {position : Nat} {table : TableState}
    {fields : Row} (h : Inserted request db db' position table fields) (hdb : Valid db) :
    Added position [fields] db db' ∧ ∀ other, other ≠ position → Added other [] db db' := by
  obtain ⟨id, index, -, rfl⟩ := h.effect
  have hlt := (List.getElem?_eq_some_iff.mp h.here).1
  constructor
  · intro table' hhere
    rw [h.here, Option.some.injEq] at hhere
    subst hhere
    exact ⟨_, setTable_here hlt _, rfl, rfl, by simp [writeTable]⟩
  · intro other hother table' hhere
    have hne : table'.name ≠ table.name := by
      intro hname
      have hlt' := (List.getElem?_eq_some_iff.mp hhere).1
      apply hother
      apply (List.getElem?_inj (by simpa using hlt') hdb.names).mp
      rw [List.getElem?_map, List.getElem?_map, hhere, h.here, Option.map_some, Option.map_some, hname]
    refine ⟨table', ?_, rfl, by simp, by simp [writeTable, hne]⟩
    simpa [DbContext.setTable, List.getElem?_set_ne (Ne.symm hother)] using hhere

theorem Inserted.accepted_iff {request : HttpRequest} {db db' : Db} {position : Nat}
    {table : TableState} {fields : Row} (h : Inserted request db db' position table fields)
    {response : Option HttpResponse} (hstatus : response.map HttpResponse.statusCode = some 200)
    (tableName : Bytes) : accepted request response tableName = true ↔ tableName = table.name := by
  obtain ⟨query, hquery, htype, hname, -⟩ := h.query
  simp [accepted, HttpRequest.insertsInto, hquery, htype, hname, hstatus, eq_comm]

/-- One request adds one row to the table that it is accepted for. -/
theorem handleAlone_added {names : List Bytes} {request : HttpRequest}
    (hnames : OnLoaded names request) {db : Db} (hdb : Valid db) (hhas : HasNames names db)
    {position : Nat} {tableName : Bytes} (hposition : names[position]? = some tableName) :
    ∃ row, Added position (if accepted request (handleAlone request db).1 tableName then [row] else [])
        db (handleAlone request db).2 ∧
      (accepted request (handleAlone request db).1 tableName = true →
        ∀ query, request.query? = some query → query.values <:+ row) := by
  rcases handleAlone_cases hnames hdb hhas with ⟨hsame, hrefused⟩ | ⟨slot, table, fields, h, hstatus⟩
  · refine ⟨[], ?_, ?_⟩
    · rw [hsame, hrefused]
      exact Added.refl position db
    · simp [hrefused]
  · refine ⟨fields, ?_, ?_⟩
    · have hnameOf : names[slot]? = some table.name := by rw [← hhas.getElem? slot, h.here]; rfl
      by_cases hat : position = slot
      · subst hat
        rw [hposition, Option.some.injEq] at hnameOf
        rw [if_pos ((h.accepted_iff hstatus tableName).mpr hnameOf)]
        exact (h.added hdb).1
      · have hother : ¬ accepted request (handleAlone request db).1 tableName = true := by
          rw [h.accepted_iff hstatus tableName]
          rintro rfl
          apply hat
          apply (List.getElem?_inj (List.getElem?_eq_some_iff.mp hposition).1 (hhas ▸ hdb.names)).mp
          rw [hposition, hnameOf]
        rw [if_neg hother]
        exact (h.added hdb).2 position hat
    · intro _ query hquery
      obtain ⟨query', hquery', -, -, hvalues⟩ := h.query
      rw [hquery, Option.some.injEq] at hquery'
      rwa [hquery']

/-- Requests one at a time add the rows of the accepted ones, in their order. -/
theorem handleAll_added {ι : Type} [DecidableEq ι] {requests : ι → HttpRequest}
    {response : ι → Option HttpResponse} {names : List Bytes}
    (hnames : ∀ i, OnLoaded names (requests i)) {order : List ι} (hnodup : order.Nodup) {db db' : Db}
    (hdb : Valid db) (hhas : HasNames names db)
    (hrun : handleAll (order.map requests) db = (order.map response, db')) :
    Valid db' ∧ ∀ position tableName, names[position]? = some tableName → ∃ rowOf : ι → Row,
      Added position
        ((order.filter fun i => accepted (requests i) (response i) tableName).map rowOf) db db' ∧
      ∀ i ∈ order, accepted (requests i) (response i) tableName = true →
        ∀ query, (requests i).query? = some query → query.values <:+ rowOf i := by
  induction order generalizing db with
  | nil =>
    obtain rfl : db = db' := congrArg Prod.snd hrun
    exact ⟨hdb, fun position _ _ => ⟨fun _ => [], Added.refl position db, by simp⟩⟩
  | cons i order ih =>
    obtain ⟨hi, hnodup⟩ := List.nodup_cons.mp hnodup
    simp only [List.map_cons, handleAll, Prod.mk.injEq, List.cons.injEq] at hrun
    obtain ⟨⟨hfirst, hrest⟩, hdb'⟩ := hrun
    obtain ⟨hdb₁, hhas₁⟩ := handleAlone_valid (hnames i) hdb hhas
    obtain ⟨hvalid, hadded⟩ := ih hnodup hdb₁ hhas₁ (Prod.ext hrest hdb')
    refine ⟨hvalid, fun position tableName hposition => ?_⟩
    obtain ⟨row, hrow, hvalues⟩ := handleAlone_added (hnames i) hdb hhas hposition
    obtain ⟨rowOf, hrows, hvaluesOf⟩ := hadded position tableName hposition
    rw [hfirst] at hrow hvalues
    have hne : ∀ j ∈ order, j ≠ i := fun j hj hji => hi (hji ▸ hj)
    refine ⟨Function.update rowOf i row, ?_, ?_⟩
    · have hsame : (order.filter fun j => accepted (requests j) (response j) tableName).map
          (Function.update rowOf i row) =
          (order.filter fun j => accepted (requests j) (response j) tableName).map rowOf := by
        apply List.map_congr_left
        intro j hj
        exact Function.update_of_ne (hne j (List.mem_filter.mp hj).1) _ _
      have hall := hrow.trans hrows
      rw [List.filter_cons]
      by_cases hacc : accepted (requests i) (response i) tableName = true
      · rw [if_pos hacc] at hall ⊢
        rwa [List.map_cons, Function.update_self, hsame]
      · rw [if_neg hacc] at hall ⊢
        rwa [hsame]
    · intro j hj hacc query hquery
      rcases List.mem_cons.mp hj with rfl | hj
      · rw [Function.update_self]
        exact hvalues hacc query hquery
      · rw [Function.update_of_ne (hne j hj)]
        exact hvaluesOf j hj hacc query hquery

end MiniSql.Server
