import MiniSql.Server.FirstAccess
import MiniSql.Storage.SchemaLines

/-!
# The steps of a first access

What one reader knows at each point of `build_select_payload`, as long as nobody
else writes to the memory: every step goes on in step with the sequential code,
through a load to the answer that the SELECT gets alone.
-/

namespace MiniSql.Server

open Storage Index Query

/-! ## The answer alone -/

section

variable {select : Select} {db : Db}

theorem alone_of_get {db' : Db} {position : Nat} {table : TableState}
    (hget : dbContextGetTable db (some select.tableName) = some (db', .ok position))
    (hhere : db'.ctx.tables[position]? = some table) : select.alone db = select.answer table := by
  simp only [Select.alone, buildSelectPayload, Select.query, hget, hhere, Select.answer,
    Option.getD_some]
  rcases selectObjects table select.condition with _ | e | objects
  · rfl
  · rfl
  · rfl

variable (habsent : findTable db.ctx.tables select.tableName = none)
include habsent

theorem alone_of_load {table : TableState}
    (hload : tableStateLoad db.disk db.ctx.dbRoot select.tableName = some (.ok table)) :
    select.alone db = select.answer table := by
  obtain ⟨hget, hloaded⟩ := loaded_of_load habsent hload
  exact alone_of_get hget hloaded.here

theorem alone_of_error {e : SqlError}
    (hload : tableStateLoad db.disk db.ctx.dbRoot select.tableName = some (.error e)) :
    select.alone db = some (.error e) := by
  simp only [Select.alone, buildSelectPayload, Select.query, dbContextGetTable, habsent, hload]
  rfl

theorem alone_of_none (hload : tableStateLoad db.disk db.ctx.dbRoot select.tableName = none) :
    select.alone db = none := by
  simp only [Select.alone, buildSelectPayload, Select.query, dbContextGetTable, habsent, hload]
  rfl

end

/-! ## Tables that have been loaded -/

/-- The tables of the database and more, each under a name of its own and as the
disk has it. -/
structure Grown (db : Db) (tables : List TableState) : Prop where
  before : ∀ table ∈ db.ctx.tables, table ∈ tables
  loaded : ∀ table ∈ tables, table ∈ db.ctx.tables ∨
    findTable db.ctx.tables table.name = none ∧
      tableStateLoad db.disk db.ctx.dbRoot table.name = some (.ok table)
  names : (tables.map TableState.name).Nodup

theorem Grown.absent {db : Db} {tables : List TableState} (h : Grown db tables) {tableName : Bytes}
    (habsent : ∀ table ∈ tables, table.name ≠ tableName) :
    findTable db.ctx.tables tableName = none := by
  simpa [findTable] using fun table ht => habsent table (h.before table ht)

theorem Grown.append {db : Db} {tables : List TableState} (h : Grown db tables) {table : TableState}
    (habsent : ∀ other ∈ tables, other.name ≠ table.name)
    (hload : tableStateLoad db.disk db.ctx.dbRoot table.name = some (.ok table)) :
    Grown db (tables ++ [table]) := by
  refine ⟨?_, ?_, ?_⟩
  · intro other hother
    exact List.mem_append_left _ (h.before other hother)
  · intro other hother
    rcases List.mem_append.mp hother with hother | hother
    · exact h.loaded other hother
    · rw [List.mem_singleton.mp hother]
      exact .inr ⟨h.absent habsent, hload⟩
  · rw [List.map_append, List.map_singleton, List.nodup_append]
    refine ⟨h.names, by simp, ?_⟩
    intro a ha b hb
    obtain ⟨other, hother, rfl⟩ := List.mem_map.mp ha
    rw [List.mem_singleton.mp hb]
    exact habsent other hother

/-- A table among them gives the answer that a SELECT gets alone. -/
theorem Grown.alone {db : Db} {tables : List TableState} (h : Grown db tables) {table : TableState}
    (ht : table ∈ tables) {select : Select} (hname : table.name = select.tableName) :
    select.alone db = select.answer table := by
  rcases h.loaded table ht with hbefore | ⟨habsent, hload⟩
  · cases hfind : findTable db.ctx.tables select.tableName with
    | none => exact absurd hname (findTable_none hfind table hbefore)
    | some position =>
      obtain ⟨found, hhere, hfound⟩ := findTable_some hfind
      have hsame : found = table :=
        List.inj_on_of_nodup_map h.names (h.before found (List.mem_of_getElem? hhere)) ht
          (hfound.trans hname.symm)
      rw [hsame] at hhere
      exact alone_of_get (by simp only [dbContextGetTable, hfind]) hhere
  · rw [hname] at habsent hload
    exact alone_of_load habsent hload

/-! ## One reader -/

section

variable {ι : Type} {db : Db} {select : Select} {i : ι} {m : Memory ι} {slot : Pointer}

structure Memory.Good (db : Db) (m : Memory ι) : Prop where
  inside : m.tableCount ≤ m.slots.length
  grown : Grown db m.tables

/-- The table is not in memory, and the slot behind the last one is there for it. -/
structure Loading (select : Select) (m : Memory ι) (slot : Pointer) : Prop where
  slot_eq : slot = ⟨m.block, m.tableCount⟩
  room : m.slots.length = m.tableCount + 1
  absent : ∀ table ∈ m.tables, table.name ≠ select.tableName

/-- From the schema in the new slot, `go` leads to the schema of the file. -/
def SchemaFrom (db : Db) (select : Select) (m : Memory ι)
    (go : Schema → Option (Except SqlError Schema)) : Prop :=
  ∃ table text, m.slots[m.tableCount]? = some table ∧
    db.disk.schemas select.tableName = some text ∧
    go table.schema = schemaLines (.empty select.tableName) (cString text)

/-- What a reader knows at each point. -/
def Local (db : Db) (select : Select) (i : ι) (m : Memory ι) : ReaderPc → Prop
  | .waiting => True
  | .scan index =>
    index ≤ m.tableCount ∧ ∀ table ∈ m.tables.take index, table.name ≠ select.tableName
  | .grow => ∀ table ∈ m.tables, table.name ≠ select.tableName
  | .begin => Loading select m ⟨m.block, m.tableCount⟩
  | .openSchema slot => Loading select m slot
  | .handleLine slot line => Loading select m slot ∧ ∃ rest, m.cursor = some (i, rest) ∧
      SchemaFrom db select m fun schema =>
        andThen (schemaLine schema line) fun schema => schemaLines schema rest
  | .nextLine slot => Loading select m slot ∧ ∃ rest, m.cursor = some (i, rest) ∧
      SchemaFrom db select m fun schema => schemaLines schema rest
  | .endSchema slot => Loading select m slot ∧ SchemaFrom db select m fun schema => some (.ok schema)
  | .loadRows slot => Loading select m slot ∧ ∃ table text, m.slots[m.tableCount]? = some table ∧
      db.disk.schemas select.tableName = some text ∧
      loadSchema select.tableName text = some (.ok table.schema)
  | .publish => Loading select m ⟨m.block, m.tableCount⟩ ∧
      ∃ table, m.slots[m.tableCount]? = some table ∧
        tableStateLoad db.disk db.ctx.dbRoot select.tableName = some (.ok table)
  | .takeSlot => ∃ table, m.tables[m.tableCount - 1]? = some table ∧ table.name = select.tableName
  | .read slot => slot.block = m.block ∧
      ∃ table, m.tables[slot.index]? = some table ∧ table.name = select.tableName
  | .done answer => answer = select.alone db

theorem Memory.getElem?_slots {index : Nat} {table : TableState}
    (h : m.tables[index]? = some table) : m.slots[index]? = some table := by
  rw [Memory.tables, List.getElem?_take] at h
  split at h
  · exact h
  · cases h

theorem Loading.follow (h : Loading select m slot) {table : TableState}
    (hhere : m.slots[m.tableCount]? = some table) (next : TableState → Memory ι × ReaderPc) :
    m.follow slot next = next table := by
  rw [h.slot_eq, Memory.follow, if_pos rfl]
  simp only [hhere]

theorem Loading.here (h : Loading select m slot) : ∃ table, m.slots[m.tableCount]? = some table := by
  have hlt : m.tableCount < m.slots.length := by rw [h.room]; omega
  exact ⟨_, List.getElem?_eq_getElem hlt⟩

theorem Loading.tables_setSlot (h : Loading select m slot) (table : TableState) :
    (m.setSlot slot table).tables = m.tables := by
  rw [h.slot_eq, Memory.tables, Memory.setSlot, List.take_set_of_le (Nat.le_refl _)]
  rfl

theorem Loading.setSlot (h : Loading select m slot) (table : TableState) :
    Loading select (m.setSlot slot table) slot ∧
      (m.setSlot slot table).slots[m.tableCount]? = some table := by
  refine ⟨⟨h.slot_eq, ?_, ?_⟩, ?_⟩
  · simpa [Memory.setSlot] using h.room
  · rw [h.tables_setSlot]
    exact h.absent
  · have hlt : m.tableCount < m.slots.length := by rw [h.room]; omega
    simp [Memory.setSlot, h.slot_eq, hlt]

theorem Loading.good_setSlot (h : Loading select m slot) (hm : m.Good db) (table : TableState) :
    (m.setSlot slot table).Good db := by
  refine ⟨?_, ?_⟩
  · simpa [Memory.setSlot] using hm.inside
  · rw [h.tables_setSlot]
    exact hm.grown

/-- The reader has gone on in step with the sequential code. -/
def Kept (db : Db) (select : Select) (i : ι) (out : Memory ι × ReaderPc) : Prop :=
  out.1.Good db ∧ Local db select i out.1 out.2

theorem schemaLines_end {schema : Schema} {cursor : Bytes} (h : Storage.strtok cursor = none) :
    schemaLines schema cursor = some (.ok schema) := by
  rw [schemaLines]
  split
  · rfl
  · rename_i hsome
    rw [h] at hsome
    cases hsome

theorem schemaLines_line {schema : Schema} {cursor line rest : Bytes}
    (h : Storage.strtok cursor = some (line, rest)) :
    schemaLines schema cursor =
      andThen (schemaLine schema line) fun schema => schemaLines schema rest := by
  rw [schemaLines]
  split
  · rename_i hnone
    rw [h] at hnone
    cases hnone
  · rename_i hsome
    rw [h] at hsome
    cases hsome
    rfl

theorem Loading.strtok (h : Loading select m slot) (hm : m.Good db) {cursor : Bytes}
    (hschema : SchemaFrom db select m fun schema => schemaLines schema cursor) :
    Kept db select i (m.strtok slot i cursor) := by
  obtain ⟨table, text, hhere, htext, hgo⟩ := hschema
  rw [Memory.strtok]
  cases hline : Storage.strtok cursor with
  | none =>
    refine ⟨⟨hm.inside, hm.grown⟩, ⟨h.slot_eq, h.room, h.absent⟩, table, text, hhere, htext, ?_⟩
    exact (schemaLines_end hline).symm.trans hgo
  | some token =>
    refine ⟨⟨hm.inside, hm.grown⟩, ⟨h.slot_eq, h.room, h.absent⟩, token.2, rfl, table, text, hhere,
      htext, ?_⟩
    exact (schemaLines_line hline).symm.trans hgo

theorem Loading.fail (h : Loading select m slot) (hm : m.Good db) (table : TableState) {e : SqlError}
    (he : select.alone db = some (.error e)) : Kept db select i (m.failLoad slot table e) :=
  ⟨h.good_setSlot hm _, he.symm⟩

variable [DecidableEq ι]

theorem Memory.freeText_eq (m : Memory ι) (i : ι) :
    ∃ cursor, m.freeText i = { m with cursor := cursor } := by
  rw [Memory.freeText]
  split
  · exact ⟨none, rfl⟩
  · exact ⟨m.cursor, rfl⟩

theorem Loading.freeText (h : Loading select m slot) (hm : m.Good db) (i : ι) :
    Loading select (m.freeText i) slot ∧ (m.freeText i).Good db := by
  obtain ⟨cursor, hfree⟩ := m.freeText_eq i
  rw [hfree]
  exact ⟨⟨h.slot_eq, h.room, h.absent⟩, ⟨hm.inside, hm.grown⟩⟩

/-! ## The steps of one reader -/

theorem scan_kept (hm : m.Good db) {index : Nat} (h : Local db select i m (.scan index)) :
    Kept db select i (readerStep db.disk db.ctx.dbRoot select i m (.scan index)) := by
  obtain ⟨hle, hbefore⟩ := h
  rw [readerStep]
  by_cases hlt : index < m.tableCount
  · have hslot : index < m.slots.length := Nat.lt_of_lt_of_le hlt hm.inside
    have htable : m.tables[index]? = some m.slots[index] := by
      rw [Memory.tables, List.getElem?_take, if_pos hlt, List.getElem?_eq_getElem hslot]
    rw [if_pos hlt]
    simp only [List.getElem?_eq_getElem hslot]
    refine ⟨hm, ?_⟩
    by_cases hname : m.slots[index].name = select.tableName
    · rw [if_pos hname]
      exact ⟨rfl, _, htable, hname⟩
    · rw [if_neg hname]
      refine ⟨hlt, ?_⟩
      obtain ⟨hindex, hhere⟩ := List.getElem?_eq_some_iff.mp htable
      rw [List.take_succ_eq_append_getElem hindex, hhere]
      intro table ht
      rcases List.mem_append.mp ht with ht | ht
      · exact hbefore table ht
      · rwa [List.mem_singleton.mp ht]
  · rw [if_neg hlt]
    refine ⟨hm, ?_⟩
    have hall : m.tables.take index = m.tables := by
      apply List.take_of_length_le
      simp [Memory.tables]
      omega
    rwa [hall] at hbefore

theorem grow_kept (hm : m.Good db) (h : Local db select i m .grow) :
    Kept db select i (readerStep db.disk db.ctx.dbRoot select i m .grow) := by
  have htables : (readerStep db.disk db.ctx.dbRoot select i m .grow).1.tables = m.tables := by
    simp only [readerStep, Memory.tables]
    rw [List.take_take, Nat.min_eq_left (Nat.le_succ _), List.take_append_of_le_length hm.inside]
  have hroom : (readerStep db.disk db.ctx.dbRoot select i m .grow).1.slots.length =
      m.tableCount + 1 := by
    simp [readerStep]
  refine ⟨⟨?_, ?_⟩, rfl, hroom, ?_⟩
  · rw [hroom]
    exact Nat.le_succ _
  · rw [htables]
    exact hm.grown
  · rw [htables]
    exact h

theorem begin_kept (hm : m.Good db) (h : Local db select i m .begin) :
    Kept db select i (readerStep db.disk db.ctx.dbRoot select i m .begin) := by
  obtain ⟨table, hhere⟩ := Loading.here h
  rw [readerStep, Loading.follow h hhere]
  exact ⟨Loading.good_setSlot h hm _, (Loading.setSlot h _).1⟩

theorem openSchema_kept (hm : m.Good db) (h : Local db select i m (.openSchema slot)) :
    Kept db select i (readerStep db.disk db.ctx.dbRoot select i m (.openSchema slot)) := by
  obtain ⟨table, hhere⟩ := Loading.here h
  have habsent := hm.grown.absent h.absent
  rw [readerStep, Loading.follow h hhere]
  cases htext : db.disk.schemas select.tableName with
  | none =>
    apply Loading.fail h hm
    apply alone_of_error habsent
    rw [tableStateLoad, htext]
    rfl
  | some text =>
    obtain ⟨hloading, hset⟩ := Loading.setSlot h { table with schema := .empty select.tableName }
    exact hloading.strtok (Loading.good_setSlot h hm _) ⟨_, text, hset, htext, rfl⟩

theorem handleLine_kept (hm : m.Good db) {line : Bytes}
    (h : Local db select i m (.handleLine slot line)) :
    Kept db select i (readerStep db.disk db.ctx.dbRoot select i m (.handleLine slot line)) := by
  obtain ⟨hloading, rest, hcursor, table, text, hhere, htext, hgo⟩ := h
  have habsent := hm.grown.absent hloading.absent
  rw [readerStep, hloading.follow hhere]
  rcases hline : schemaLine table.schema line with _ | e | schema
  · refine ⟨hm, (alone_of_none habsent ?_).symm⟩
    simp only [hline] at hgo
    rw [tableStateLoad, htext, loadSchemaFile, loadSchema, ← hgo]
    rfl
  · obtain ⟨hfreed, hgood⟩ := hloading.freeText hm i
    apply hfreed.fail hgood
    apply alone_of_error habsent
    simp only [hline] at hgo
    rw [tableStateLoad, htext, loadSchemaFile, loadSchema, ← hgo]
    rfl
  · obtain ⟨hnext, hset⟩ := hloading.setSlot { table with schema }
    refine ⟨hloading.good_setSlot hm _, hnext, rest, hcursor, _, text, hset, htext, ?_⟩
    simp only [hline] at hgo
    exact hgo

theorem nextLine_kept (hm : m.Good db) (h : Local db select i m (.nextLine slot)) :
    Kept db select i (readerStep db.disk db.ctx.dbRoot select i m (.nextLine slot)) := by
  obtain ⟨hloading, rest, hcursor, hschema⟩ := h
  simp only [readerStep, hcursor]
  exact hloading.strtok hm hschema

theorem endSchema_kept (hm : m.Good db) (h : Local db select i m (.endSchema slot)) :
    Kept db select i (readerStep db.disk db.ctx.dbRoot select i m (.endSchema slot)) := by
  obtain ⟨hloading, table, text, hhere, htext, hgo⟩ := h
  have habsent := hm.grown.absent hloading.absent
  obtain ⟨hfreed, hgood⟩ := hloading.freeText hm i
  have hload : loadSchema select.tableName text = some (checkColumns table.schema) := by
    rw [loadSchema, ← hgo]
    rfl
  rw [readerStep, hloading.follow hhere]
  cases hcolumns : checkColumns table.schema with
  | error e =>
    apply hfreed.fail hgood
    apply alone_of_error habsent
    rw [tableStateLoad, htext, loadSchemaFile, hload, hcolumns]
    rfl
  | ok schema =>
    obtain ⟨cursor, hfree⟩ := m.freeText_eq i
    refine ⟨hgood, hfreed, table, text, ?_, htext, ?_⟩
    · rw [hfree]
      exact hhere
    · rw [hload, hcolumns, (checkColumns_ok_iff.mp hcolumns).1]

theorem loadRows_kept (hm : m.Good db) (h : Local db select i m (.loadRows slot)) :
    Kept db select i (readerStep db.disk db.ctx.dbRoot select i m (.loadRows slot)) := by
  obtain ⟨hloading, table, text, hhere, htext, hschema⟩ := h
  have habsent := hm.grown.absent hloading.absent
  rw [readerStep, hloading.follow hhere]
  cases hfile : db.disk.tables select.tableName with
  | none =>
    apply hloading.fail hm
    apply alone_of_error habsent
    rw [tableStateLoad, htext, loadSchemaFile, hschema, hfile]
    rfl
  | some file =>
    have hload : tableStateLoad db.disk db.ctx.dbRoot select.tableName =
        Index.loadRows table.schema select.tableName file := by
      rw [tableStateLoad, htext, loadSchemaFile, hschema, hfile]
      rfl
    rcases hrows : Index.loadRows table.schema select.tableName file with _ | e | loaded
    · simp only [hrows]
      exact ⟨hm, (alone_of_none habsent (hload.trans hrows)).symm⟩
    · simp only [hrows]
      exact hloading.fail hm table (alone_of_error habsent (hload.trans hrows))
    · simp only [hrows]
      obtain ⟨hnext, hset⟩ := hloading.setSlot loaded
      exact ⟨hloading.good_setSlot hm _, hloading.slot_eq ▸ hnext, loaded, hset, hload.trans hrows⟩

theorem publish_kept (hm : m.Good db) (h : Local db select i m .publish) :
    Kept db select i (readerStep db.disk db.ctx.dbRoot select i m .publish) := by
  obtain ⟨hloading, table, hhere, hload⟩ := h
  have hname := tableStateLoad_name hload
  obtain ⟨hlt, hget⟩ := List.getElem?_eq_some_iff.mp hhere
  have htables : (readerStep db.disk db.ctx.dbRoot select i m .publish).1.tables =
      m.tables ++ [table] := by
    simp only [readerStep, Memory.tables]
    rw [List.take_succ_eq_append_getElem hlt, hget]
  refine ⟨⟨?_, ?_⟩, table, ?_, hname⟩
  · exact hlt
  · rw [htables]
    apply hm.grown.append
    · rw [hname]
      exact hloading.absent
    · rw [hname]
      exact hload
  · rw [htables]
    simp [readerStep, Memory.tables, Nat.le_of_lt hlt]

theorem readerStep_kept (hm : m.Good db) {pc : ReaderPc} (h : Local db select i m pc) :
    Kept db select i (readerStep db.disk db.ctx.dbRoot select i m pc) := by
  cases pc with
  | waiting => exact ⟨hm, Nat.zero_le _, by simp⟩
  | scan index => exact scan_kept hm h
  | grow => exact grow_kept hm h
  | begin => exact begin_kept hm h
  | openSchema slot => exact openSchema_kept hm h
  | handleLine slot line => exact handleLine_kept hm h
  | nextLine slot => exact nextLine_kept hm h
  | endSchema slot => exact endSchema_kept hm h
  | loadRows slot => exact loadRows_kept hm h
  | publish => exact publish_kept hm h
  | takeSlot =>
    obtain ⟨table, hhere, hname⟩ := h
    exact ⟨hm, rfl, table, hhere, hname⟩
  | read slot =>
    obtain ⟨hblock, table, hhere, hname⟩ := h
    rw [readerStep, Memory.follow, if_pos hblock]
    simp only [Memory.getElem?_slots hhere]
    exact ⟨hm, (hm.grown.alone (List.mem_of_getElem? hhere) hname).symm⟩
  | done answer => exact ⟨hm, h⟩

end

end MiniSql.Server
