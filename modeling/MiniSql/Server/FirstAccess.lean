import MiniSql.Query.Reachable
import MiniSql.Server.SqlService

/-!
# First accesses under the shared read lock

A SELECT from a table that is not loaded yet loads it, and the read lock lets
several SELECTs do so together. Here `db_context_get_table` is a sequence of
steps on memory that the readers share: the `tables` array, which `realloc` may
move, its `table_count`, and the cursor in which `strtok` keeps its place
between calls. The text that the cursor points into belongs to the reader that
opened it and is gone once that reader frees it. A reader that follows a stale
pointer, or leaves the array, is `done` without an answer.
-/

namespace MiniSql.Server

open Storage Index Query

/-! ## The steps -/

/-- What a SELECT asks for. -/
structure Select where
  tableName : Bytes
  condition : Option Condition

def Select.query (select : Select) : Query := ⟨.select, some select.tableName, [], select.condition⟩

/-- An element of the `tables` array, in the block that `realloc` last returned
when the address was taken. -/
structure Pointer where
  block : Nat
  index : Nat
  deriving DecidableEq, Repr

structure Memory (ι : Type) where
  block : Nat
  slots : List TableState
  tableCount : Nat
  /-- `strtok`'s place: whose text it is in, and what is left of it. -/
  cursor : Option (ι × Bytes)

/-- Where a reader is in `build_select_payload`. -/
inductive ReaderPc
  | waiting
  | scan (index : Nat)
  | grow
  | begin
  | openSchema (slot : Pointer)
  | handleLine (slot : Pointer) (line : Bytes)
  | nextLine (slot : Pointer)
  | endSchema (slot : Pointer)
  | loadRows (slot : Pointer)
  | publish
  | takeSlot
  | read (table : Pointer)
  | done (answer : Option (Except SqlError Bytes))
  deriving DecidableEq

/-- A slot of a new block. -/
def blankSlot : TableState := ⟨[], .empty [], [], bptreeCreate, 0⟩

def tableStateDestroy (table : TableState) : TableState :=
  ⟨table.name, ⟨[], [], none, -1, table.schema.autoincrement⟩, [], bptreeCreate, 0⟩

/-- The payload of a SELECT from a table. -/
def Select.answer (select : Select) (table : TableState) : Option (Except SqlError Bytes) :=
  andThen (selectObjects table select.condition) fun objects =>
    some (.ok (selectPayload select.tableName objects))

/-- The answer of a SELECT that is alone with the database. -/
def Select.alone (select : Select) (db : Db) : Option (Except SqlError Bytes) :=
  (buildSelectPayload select.query db).map Prod.snd

section

variable {ι : Type}

def Memory.tables (m : Memory ι) : List TableState := m.slots.take m.tableCount

/-- Go on with the slot that a pointer points to. -/
def Memory.follow (m : Memory ι) (slot : Pointer) (next : TableState → Memory ι × ReaderPc) :
    Memory ι × ReaderPc :=
  if slot.block = m.block then
    match m.slots[slot.index]? with
    | none => (m, .done none)
    | some table => next table
  else (m, .done none)

def Memory.setSlot (m : Memory ι) (slot : Pointer) (table : TableState) : Memory ι :=
  { m with slots := m.slots.set slot.index table }

variable [DecidableEq ι]

/-- `free(text)`, which may leave the cursor without a text. -/
def Memory.freeText (m : Memory ι) (i : ι) : Memory ι :=
  if m.cursor.map Prod.fst = some i then { m with cursor := none } else m

/-- The end of a load that fails. -/
def Memory.failLoad (m : Memory ι) (slot : Pointer) (table : TableState) (e : SqlError) :
    Memory ι × ReaderPc :=
  (m.setSlot slot (tableStateDestroy table), .done (some (.error e)))

/-- A call of `strtok` that goes on at `cursor` in the text of `owner`. -/
def Memory.strtok (m : Memory ι) (slot : Pointer) (owner : ι) (cursor : Bytes) :
    Memory ι × ReaderPc :=
  match Storage.strtok cursor with
  | none => ({ m with cursor := some (owner, []) }, .endSchema slot)
  | some (line, rest) => ({ m with cursor := some (owner, rest) }, .handleLine slot line)

variable (disk : Disk) (dbRoot : Bytes) (select : Select) (i : ι)

/-- The next step of the reader `i`. -/
def readerStep (m : Memory ι) : ReaderPc → Memory ι × ReaderPc
  | .waiting => (m, .scan 0)
  | .scan index =>
    if index < m.tableCount then
      match m.slots[index]? with
      | none => (m, .done none)
      | some table =>
        (m, if table.name = select.tableName then .read ⟨m.block, index⟩ else .scan (index + 1))
    else (m, .grow)
  | .grow =>
    let size := m.tableCount + 1
    ({ m with
        block := m.block + 1
        slots := (m.slots ++ List.replicate size blankSlot).take size }, .begin)
  -- table_state_load(&ctx->tables[ctx->table_count], ...)
  | .begin =>
    m.follow ⟨m.block, m.tableCount⟩ fun _ =>
      (m.setSlot ⟨m.block, m.tableCount⟩ { blankSlot with name := select.tableName.take 255 },
        .openSchema ⟨m.block, m.tableCount⟩)
  | .openSchema slot =>
    m.follow slot fun table =>
      match disk.schemas select.tableName with
      | none => m.failLoad slot table (missingSchema dbRoot select.tableName)
      | some text =>
        (m.setSlot slot { table with schema := .empty select.tableName }).strtok slot i (cString text)
  | .handleLine slot line =>
    m.follow slot fun table =>
      match schemaLine table.schema line with
      | none => (m, .done none)
      | some (.error e) => (m.freeText i).failLoad slot table e
      | some (.ok schema) => (m.setSlot slot { table with schema }, .nextLine slot)
  | .nextLine slot =>
    match m.cursor with
    | none => (m, .done none)
    | some (owner, cursor) => m.strtok slot owner cursor
  | .endSchema slot =>
    m.follow slot fun table =>
      match checkColumns table.schema with
      | .error e => (m.freeText i).failLoad slot table e
      | .ok _ => (m.freeText i, .loadRows slot)
  | .loadRows slot =>
    m.follow slot fun table =>
      match disk.tables select.tableName with
      | none => m.failLoad slot table (missingTable dbRoot select.tableName)
      | some file =>
        match Index.loadRows table.schema select.tableName file with
        | none => (m, .done none)
        | some (.error e) => m.failLoad slot table e
        | some (.ok loaded) => (m.setSlot slot loaded, .publish)
  | .publish => ({ m with tableCount := m.tableCount + 1 }, .takeSlot)
  | .takeSlot => (m, .read ⟨m.block, m.tableCount - 1⟩)
  | .read slot => m.follow slot fun table => (m, .done (select.answer table))
  | .done answer => (m, .done answer)

end

/-! ## Runs -/

/-- The shared memory and where each reader is. -/
structure Readers (ι : Type) where
  memory : Memory ι
  pc : ι → ReaderPc

section

variable {ι : Type}

def Readers.initial (ctx : DbContext) : Readers ι :=
  ⟨⟨0, ctx.tables, ctx.tables.length, none⟩, fun _ => .waiting⟩

variable [DecidableEq ι] (db : Db) (selects : ι → Select)

def Readers.step (s : Readers ι) (i : ι) : Readers ι :=
  ⟨(readerStep db.disk db.ctx.dbRoot (selects i) i s.memory (s.pc i)).1,
    Function.update s.pc i (readerStep db.disk db.ctx.dbRoot (selects i) i s.memory (s.pc i)).2⟩

/-- The readers take their steps in the order of the schedule. -/
def Readers.run (s : Readers ι) (schedule : List ι) : Readers ι :=
  schedule.foldl (Readers.step db selects) s

/-! ## Loads that run alone -/

/-- Between the scan that did not find the table and the pointer to its slot. -/
def ReaderPc.loads : ReaderPc → Bool
  | .grow | .begin | .openSchema _ | .handleLine _ _ | .nextLine _ | .endSchema _ | .loadRows _
  | .publish | .takeSlot => true
  | _ => false

/-- Before or behind the section. -/
def ReaderPc.outside : ReaderPc → Bool
  | .waiting | .done _ => true
  | _ => false

/-- If the next step of the reader is one of a load, no other reader is in its
section. -/
def Readers.Alone (s : Readers ι) (i : ι) : Prop :=
  (s.pc i).loads = true → ∀ j, j ≠ i → (s.pc j).outside = true

def Readers.LoadsAlone (s : Readers ι) : List ι → Prop
  | [] => True
  | i :: schedule => s.Alone i ∧ (s.step db selects i).LoadsAlone schedule

instance [Fintype ι] (s : Readers ι) (i : ι) : Decidable (s.Alone i) := by
  unfold Readers.Alone
  infer_instance

instance decidableLoadsAlone [Fintype ι] :
    (s : Readers ι) → (schedule : List ι) → Decidable (s.LoadsAlone db selects schedule)
  | _, [] => .isTrue trivial
  | s, i :: schedule =>
    have := decidableLoadsAlone (s.step db selects i) schedule
    inferInstanceAs (Decidable (s.Alone i ∧ (s.step db selects i).LoadsAlone db selects schedule))

end

/-! ## Loads that overlap -/

/-- Two readers of the users table. -/
def bothUsers : Fin 2 → Select := fun _ => ⟨ascii "users", none⟩

/-- **First accesses race.** If both readers scan before one of them has loaded,
the table is entered twice. If one reader grows the array, loads and publishes
between the `realloc` and the load of the other, the other's slot lies beyond the
array, although alone it would get an answer. -/
theorem first_access_races :
    ((Readers.initial usersDb.ctx).run usersDb bothUsers
      ([0, 0, 1, 1] ++ List.replicate 16 0 ++ List.replicate 16 1)).memory.tables.map
        TableState.name = [ascii "users", ascii "users"] ∧
    ((Readers.initial usersDb.ctx).run usersDb bothUsers
      ([0, 0, 0] ++ List.replicate 18 1 ++ [0])).pc 0 = .done none ∧
    ((bothUsers 0).alone usersDb).isSome = true := by
  refine ⟨?_, ?_, ?_⟩
  · decide +kernel
  · decide +kernel
  · decide +kernel

end MiniSql.Server
