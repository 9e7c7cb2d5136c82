import MiniSql.Server.Workers

/-!
# Concurrent requests are serializable

The sections of the workers have a serial order, and a section alone is the
sequential handler. So whatever the interleaving, the responses and the database
are those of the requests one at a time.
-/

namespace MiniSql.Server

open Storage Index Query

theorem serial_eq_handleAll {ι : Type} {requests : ι → HttpRequest} {names : List Bytes}
    (hnames : ∀ i, OnLoaded names (requests i)) (scratch : ι → List BPTree) (order : List ι)
    {db : Db} (hdb : Valid db) (hhas : HasNames names db) :
    Sections.serial (task requests scratch) order db = handleAll (order.map requests) db := by
  induction order generalizing db with
  | nil => rfl
  | cons i order ih =>
    have hfirst : (task requests scratch i).eval db = handleAlone (requests i) db :=
      requestTask_eval (hnames i) (scratch i) hdb hhas
    obtain ⟨hdb', hhas'⟩ := handleAlone_valid (hnames i) hdb hhas
    rw [Sections.serial, List.map_cons, handleAll, hfirst, ih hdb' hhas']

section

variable {ι : Type} [Fintype ι] [DecidableEq ι]

/-- **Concurrent requests are serializable.** Workers handle requests on loaded
tables, in any interleaving of their guard operations and of their accesses to
the database. Once all have answered there is an order in which the requests, one
at a time, give the same responses and the same database. In it every table and
its file have grown by one row for each INSERT that was answered 200, and the ids
of the table are distinct. -/
theorem requests_serializable (requests : ι → HttpRequest) (scratch : ι → List BPTree) {db : Db}
    (hdb : Reachable db)
    (hloaded : ∀ i, OnLoaded (db.ctx.tables.map TableState.name) (requests i))
    (schedule : List (ι × Bool)) {s : ServerState ι}
    (hs : s = (ServerState.initial requests scratch db).run requests schedule)
    {response : ι → Option HttpResponse} (hdone : ∀ i, s.response i = some (response i)) :
    ∃ order : List ι, order.Nodup ∧ (∀ i, i ∈ order) ∧
      handleAll (order.map requests) db = (order.map response, s.db) ∧
      ∀ (position : Nat) (table : TableState), db.ctx.tables[position]? = some table →
      ∃ (table' : TableState) (rowOf : ι → Row),
        s.db.ctx.tables[position]? = some table' ∧ table'.name = table.name ∧
        (∀ i, accepted (requests i) (response i) table.name = true →
          ∀ query, (requests i).query? = some query → query.values <:+ rowOf i) ∧
        table'.rows = table.rows ++
          (order.filter fun i => accepted (requests i) (response i) table.name).map rowOf ∧
        (s.db.disk.tables table.name).getD [] = (db.disk.tables table.name).getD [] ++
          ((order.filter fun i => accepted (requests i) (response i) table.name).map rowOf).flatMap
            csvLine ∧
        (table'.rows.map (rowKey table'.schema)).Nodup := by
  have hvalid := hdb.valid
  have hreach := ServerState.run_sections requests scratch db schedule
  rw [← hs] at hreach
  have hfinished : ∀ i, s.sections.phase i = .finished (response i) := by
    intro i
    simp only [ServerState.sections, ServerState.phase, hdone i]
  have hsafe (i : ι) : (task requests scratch i).Safe (HasNames (db.ctx.tables.map TableState.name)) :=
    requestTask_safe (hloaded i) (scratch i)
  obtain ⟨order, hnodup, hall, hserial⟩ := hreach.serial_order hsafe rfl hfinished
  rw [serial_eq_handleAll hloaded scratch order hvalid rfl] at hserial
  obtain ⟨hvalid', hadded⟩ := handleAll_added hloaded hnodup hvalid rfl hserial
  refine ⟨order, hnodup, hall, hserial, fun position table hhere => ?_⟩
  obtain ⟨rowOf, hrows, hvalues⟩ := hadded position table.name (by simp [hhere])
  obtain ⟨table', hhere', hname, htable, hfile⟩ := hrows table hhere
  exact ⟨table', rowOf, hhere', hname, fun i => hvalues i (hall i), htable, hfile,
    (hvalid'.tables table' (List.mem_of_getElem? hhere')).keyed.distinct⟩

end

/-- Two workers insert at the same time. -/
def twoInserts (i : Fin 2) : HttpRequest :=
  ⟨ascii "POST", ascii "/", some (ascii (if i = 0 then "INSERT INTO users VALUES ('eve');"
    else "insert into users values (20, 'dan')"))⟩

/-- The users table, loaded. -/
def loadedUsers : Db :=
  ((executeQuery ⟨.select, some (ascii "users"), [], none⟩ usersDb).map Prod.fst).getD usersDb

theorem loadedUsers_reachable : Reachable loadedUsers := by
  have hsome : (executeQuery ⟨.select, some (ascii "users"), [], none⟩ usersDb).isSome = true := by
    decide +kernel
  obtain ⟨⟨db, out⟩, hquery⟩ := Option.isSome_iff_exists.mp hsome
  have hdb : loadedUsers = db := by
    rw [loadedUsers, hquery]
    rfl
  rw [hdb]
  exact .query (.create usersDisk (ascii "db")) hquery

/-- Both workers in turns until the first has answered, then the second. -/
def twoInsertsRun : ServerState (Fin 2) :=
  (ServerState.initial twoInserts (fun _ => []) loadedUsers).run twoInserts
    ((List.replicate 30 [(0, false), (1, false)]).flatten ++ List.replicate 34 (1, false))

theorem requests_serializable_two_inserts :
    (twoInsertsRun.db.ctx.tables.map fun table => table.rows.length) = [4] ∧
    ∃ order : List (Fin 2), order.Nodup ∧ (∀ i, i ∈ order) ∧
      handleAll (order.map twoInserts) loadedUsers =
        (order.map fun i => (twoInsertsRun.response i).getD none, twoInsertsRun.db) := by
  refine ⟨by decide +kernel, ?_⟩
  have hnames : loadedUsers.ctx.tables.map TableState.name = [ascii "users"] := by decide +kernel
  have htable : ∀ i, (twoInserts i).query?.bind Query.tableName = some (ascii "users") := by
    decide +kernel
  have hloaded (i : Fin 2) : OnLoaded (loadedUsers.ctx.tables.map TableState.name) (twoInserts i) := by
    intro query hquery
    have hname := htable i
    rw [hquery] at hname
    exact ⟨ascii "users", by simp [hnames], hname⟩
  have hdone : ∀ i, (twoInsertsRun.response i).isSome = true := by decide +kernel
  obtain ⟨order, hnodup, hall, hserial, -⟩ := requests_serializable twoInserts (fun _ => [])
    loadedUsers_reachable hloaded _ (rfl : twoInsertsRun = _)
    (fun i => (Option.some_get (hdone i)).symm.trans (congrArg some (Option.get_eq_getD ..)))
  exact ⟨order, hnodup, hall, hserial⟩

end MiniSql.Server
