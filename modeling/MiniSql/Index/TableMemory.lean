import MiniSql.Index.DbContext
import MiniSql.Storage.RowMemory
import MiniSql.Storage.SchemaFileMemory

/-!
# The memory of a table

`table_state_load` and `table_state_destroy` with the blocks they allocate and free, where
any call for memory may be refused. Of the index the block of the tree itself counts here;
its nodes are those of `PointerTree`, and they are allocated.
-/

namespace MiniSql.Index

open Alloc Storage

/-- `TableState`, with its pointers. -/
structure TableRecord where
  name : Bytes
  schema : SchemaRecord
  rowset : RowSet
  index : Option (Boxed BPTree)
  nextId : Int

def tableStateDestroy (table : TableRecord) : Allocating TableRecord := do
  let schema ← freeSchema table.schema
  let rowset ← freeRowset table.rowset
  free (table.index.map Boxed.block)
  pure ⟨table.name, schema, rowset, none, 0⟩

section

variable (grants : Nat → Bool)

/-- Every failure of `table_state_load` destroys what there is. -/
def dropTable (table : TableRecord) (e : SqlError) : Allocating (Except SqlError TableRecord) := do
  let _ ← tableStateDestroy table
  pure (.error e)

/-- The part of `table_state_load` behind the two files. -/
def indexRowsAlloc (tableName : Bytes) (schema : SchemaRecord) (rowset : RowSet) :
    Allocating (Except SqlError TableRecord) :=
  let name := tableName.take 255
  match validateLoadedRowset schema.schema rowset.rows with
  | .error e => dropTable ⟨name, schema, rowset, none, 0⟩ e
  | .ok _ =>
    if schema.primaryKeyIndex < 0 then
      dropTable ⟨name, schema, rowset, none, 0⟩ (missingPrimaryKey tableName)
    else do
      match ← box grants bptreeCreate with
      | none =>
        dropTable ⟨name, schema, rowset, none, 0⟩ (sqlSetError [ascii "failed to allocate B+ tree"])
      | some tree =>
        match buildIndex schema.schema rowset.rows 0 tree.content 0 with
        | none => fun _ => none
        | some (.error e) => dropTable ⟨name, schema, rowset, some tree, 0⟩ e
        | some (.ok (index, maxId)) =>
          pure (.ok ⟨name, schema, rowset, some ⟨tree.block, index⟩, initialNextId maxId⟩)

/-- The part of `table_state_load` behind the schema file. -/
def loadRowsAlloc (tableName : Bytes) (schema : SchemaRecord) (file : Bytes) :
    Allocating (Except SqlError TableRecord) := do
  match ← readCsvRowsAlloc grants file schema.columns.cells.length with
  | (rowset, .error e) => dropTable ⟨tableName.take 255, schema, rowset, none, 0⟩ e
  | (rowset, .ok _) => indexRowsAlloc grants tableName schema rowset

def tableStateLoadAlloc (prior : SqlError) (disk : Disk) (dbRoot tableName : Bytes) :
    Allocating (Except SqlError TableRecord) := do
  let name := tableName.take 255
  match ← loadSchemaAlloc grants prior (missingSchema dbRoot tableName) tableName
      (disk.schemas tableName) with
  | .error e => dropTable ⟨name, .cleared false, .empty, none, 0⟩ e
  | .ok schema =>
    match disk.tables tableName with
    | none =>
      dropTable ⟨name, schema, .empty, none, 0⟩ (missingTable dbRoot tableName)
    | some file => loadRowsAlloc grants tableName schema file

end

/-! ## What a table stands for, and what it owns -/

def TableRecord.state (table : TableRecord) : TableState :=
  ⟨table.name, table.schema.schema, table.rowset.rows,
    (table.index.map Boxed.content).getD bptreeCreate, table.nextId⟩

def TableRecord.owns (table : TableRecord) : Multiset Nat :=
  table.schema.owns + (table.rowset.owns + blockOf (table.index.map Boxed.block))

structure TableRecord.Sound (table : TableRecord) : Prop where
  columns : table.schema.columns.Sound
  rows : table.rowset.Holds table.schema.columns.cells.length

/-- The errors after which something is lost: a row for which the row set has no room, and
the names in front of a column without a type. -/
def Lossy (grants : Nat → Bool) (e : SqlError) : Prop :=
  (e = rowsetFailed ∧ Refuses grants) ∨ ∃ entry, e = invalidColumn entry

section

variable {grants : Nat → Bool} {kept : Multiset Nat}

theorem tableStateDestroy_runs {table : TableRecord} (h : table.Sound) :
    Runs (table.owns + kept) (tableStateDestroy table) fun left rest =>
      left.owns = 0 ∧ rest = kept := by
  rw [TableRecord.owns, add_assoc, add_assoc]
  apply (freeSchema_runs h.columns).bind
  rintro schema rest ⟨rfl, rfl⟩
  apply (freeRowset_runs h.rows).bind
  rintro rowset rest ⟨rfl, rfl⟩
  apply (free_runs _).seq
  exact Runs.pure ⟨rfl, rfl⟩

theorem dropTable_runs {table : TableRecord} (h : table.Sound) (e : SqlError) :
    Runs (table.owns + kept) (dropTable table e) fun out left => out = .error e ∧ left = kept := by
  apply (tableStateDestroy_runs h).bind
  rintro _ left ⟨-, rfl⟩
  exact Runs.pure ⟨rfl, rfl⟩

/-- A table for the files, or nothing. -/
def TableLoaded (grants : Nat → Bool) (plain : Except SqlError TableState) (file : Option Bytes)
    (kept : Multiset Nat) : Except SqlError TableRecord → Multiset Nat → Prop
  | .error e, owned => (plain = .error e ∨ Refuses grants) ∧ ∃ lost, owned = lost + kept ∧
      (lost = 0 ∨ Lossy grants e ∨ GivenTwice file)
  | .ok table, owned => plain = .ok table.state ∧ table.Sound ∧
      ∃ lost, owned = table.owns + (lost + kept) ∧ (lost = 0 ∨ GivenTwice file)

/-- A failure that destroys what there is. -/
theorem dropped_runs {plain : Except SqlError TableState} {file : Option Bytes}
    {table : TableRecord} {lost : Multiset Nat} {e : SqlError} (h : table.Sound)
    (hplain : plain = .error e ∨ Refuses grants) (hlost : lost = 0 ∨ Lossy grants e ∨ GivenTwice file) :
    Runs (table.owns + (lost + kept)) (dropTable table e) (TableLoaded grants plain file kept) := by
  apply (dropTable_runs h e).mono
  rintro out left ⟨rfl, rfl⟩
  exact ⟨hplain, lost, rfl, hlost⟩

theorem schema_owns (name : Bytes) (schema : SchemaRecord) :
    (⟨name, schema, .empty, none, 0⟩ : TableRecord).owns = schema.owns := add_zero _

theorem rowset_owns (name : Bytes) (schema : SchemaRecord) (rowset : RowSet) (kept : Multiset Nat) :
    rowset.owns + (schema.owns + kept) =
      (⟨name, schema, rowset, none, 0⟩ : TableRecord).owns + kept := by
  simp only [TableRecord.owns, Option.map_none, blockOf]
  abel

theorem index_owns (name : Bytes) (schema : SchemaRecord) (rowset : RowSet) (index : Boxed BPTree)
    (nextId : Int) (kept : Multiset Nat) :
    {index.block} + ((⟨name, schema, rowset, none, 0⟩ : TableRecord).owns + kept) =
      (⟨name, schema, rowset, some index, nextId⟩ : TableRecord).owns + kept := by
  simp only [TableRecord.owns, Option.map_some, Option.map_none, blockOf]
  abel

/-- The part behind the two files: the rows are checked and put into the index. -/
theorem indexRowsAlloc_runs {tableName : Bytes} {schema : SchemaRecord} {rowset : RowSet}
    {lost : Multiset Nat} {file : Option Bytes} {plain : Except SqlError TableState}
    (htable : (⟨tableName.take 255, schema, rowset, none, 0⟩ : TableRecord).Sound)
    (hlost : lost = 0 ∨ GivenTwice file)
    (hplain : indexRows schema.schema tableName rowset.rows = some plain) :
    Runs ((⟨tableName.take 255, schema, rowset, none, 0⟩ : TableRecord).owns + (lost + kept))
      (indexRowsAlloc grants tableName schema rowset) (TableLoaded grants plain file kept) := by
  unfold indexRowsAlloc
  unfold indexRows at hplain
  dsimp only
  cases hvalid : validateLoadedRowset schema.schema rowset.rows with
  | error e =>
    simp only [hvalid] at hplain
    exact dropped_runs htable (.inl (Option.some.inj hplain).symm) (hlost.imp_right .inr)
  | ok _ =>
    have hindex : schema.schema.primaryKeyIndex = schema.primaryKeyIndex := rfl
    simp only [hvalid, hindex] at hplain
    dsimp only
    split
    · rename_i hkey
      rw [if_pos hkey] at hplain
      exact dropped_runs htable (.inl (Option.some.inj hplain).symm) (hlost.imp_right .inr)
    · rename_i hkey
      rw [if_neg hkey] at hplain
      apply (box_runs grants bptreeCreate).bind
      intro tree owned htree
      cases tree with
      | none =>
        obtain ⟨rfl, hrefuses⟩ := htree
        exact dropped_runs htable (.inr hrefuses) (hlost.imp_right .inr)
      | some tree =>
        obtain ⟨rfl, hcreate⟩ := htree
        dsimp only
        rw [hcreate]
        cases hbuild : buildIndex schema.schema rowset.rows 0 bptreeCreate 0 with
        | none =>
          simp only [hbuild] at hplain
          cases hplain
        | some built =>
          simp only [hbuild] at hplain
          cases built with
          | error e =>
            rw [index_owns _ _ _ _ 0]
            exact dropped_runs ⟨htable.columns, htable.rows⟩ (.inl (Option.some.inj hplain).symm)
              (hlost.imp_right .inr)
          | ok built =>
            obtain ⟨index, maxId⟩ := built
            refine Runs.pure ⟨(Option.some.inj hplain).symm, ⟨htable.columns, htable.rows⟩, lost, ?_, hlost⟩
            exact index_owns _ _ _ ⟨tree.block, index⟩ _ _

theorem loadRowsAlloc_runs {tableName : Bytes} {schema : SchemaRecord} (hsound : schema.columns.Sound)
    {lost : Multiset Nat} {file : Option Bytes} (hlost : lost = 0 ∨ GivenTwice file)
    {plain : Except SqlError TableState} {rows : Bytes}
    (hplain : loadRows schema.schema tableName rows = some plain) :
    Runs (schema.owns + (lost + kept)) (loadRowsAlloc grants tableName schema rows)
      (TableLoaded grants plain file kept) := by
  have hcount : schema.schema.columnCount = schema.columns.cells.length := List.length_map _
  have hstart : schema.owns + (lost + kept) =
      RowSet.owns .empty + (schema.owns + (lost + kept)) := (zero_add _).symm
  rw [hstart]
  apply (readLinesAlloc_runs (RowSet.holds_empty _) (fileLines rows)).bind
  rintro ⟨rowset, out⟩ owned ⟨hholds, hok, herror⟩
  cases out with
  | error e =>
    obtain ⟨rfl, hread, more, rfl, hmore⟩ := herror e rfl
    have howned : more + (schema.owns + (lost + kept)) =
        (⟨tableName.take 255, schema, .empty, none, 0⟩ : TableRecord).owns + (more + lost + kept) := by
      rw [schema_owns]
      abel
    dsimp only
    rw [howned]
    refine dropped_runs ⟨hsound, hholds⟩ (hread.imp_left fun hread => ?_) ?_
    · have hrows : readCsvRows rows schema.schema.columnCount = .error e := by rw [hcount]; exact hread
      simp only [loadRows, hrows] at hplain
      exact (Option.some.inj hplain).symm
    · rcases hmore with ⟨rfl, -⟩ | ⟨he, hrefuses, -⟩
      · rw [zero_add]
        exact hlost.imp_right .inr
      · exact .inr (.inl (.inl ⟨he, hrefuses⟩))
  | ok _ =>
    obtain ⟨rfl, read, hread, hrows⟩ := hok rfl
    obtain rfl : rowset.rows = read := hrows
    dsimp only
    rw [rowset_owns (tableName.take 255)]
    refine indexRowsAlloc_runs ⟨hsound, hholds⟩ hlost ?_
    have hrows : readCsvRows rows schema.schema.columnCount = .ok rowset.rows := by
      rw [hcount]
      exact hread
    rw [← hplain, loadRows, hrows]

theorem tableStateLoadAlloc_runs (prior : SqlError) {disk : Disk} {dbRoot tableName : Bytes}
    {plain : Except SqlError TableState} (hplain : tableStateLoad disk dbRoot tableName = some plain) :
    Runs kept (tableStateLoadAlloc grants prior disk dbRoot tableName)
      (TableLoaded grants plain (disk.schemas tableName) kept) := by
  have hdefined : tableStateLoad disk dbRoot tableName ≠ none := by simp [hplain]
  apply (loadSchemaAlloc_runs prior _ tableName (andThen_defined_iff.mp hdefined).1).bind
  intro out owned hout
  cases out with
  | error e =>
    obtain ⟨herror, lost, rfl, hlost⟩ := hout
    have hnone : (⟨tableName.take 255, .cleared false, .empty, none, 0⟩ : TableRecord).Sound :=
      ⟨Vec.empty_sound, RowSet.holds_empty _⟩
    have howns : lost + kept =
        (⟨tableName.take 255, .cleared false, .empty, none, 0⟩ : TableRecord).owns + (lost + kept) :=
      (zero_add _).symm
    rw [howns]
    refine dropped_runs hnone (herror.imp_left fun herror => ?_)
      (hlost.imp_right (Or.imp_left Or.inr))
    rw [tableStateLoad, herror] at hplain
    exact (Option.some.inj hplain).symm
  | ok schema =>
    obtain ⟨hschema, hsound, lost, rfl, hlost⟩ := hout
    rw [tableStateLoad, hschema] at hplain
    change loadTable dbRoot tableName (disk.tables tableName) schema.schema = _ at hplain
    cases htable : disk.tables tableName with
    | none =>
      rw [htable] at hplain
      rw [← schema_owns (tableName.take 255) schema]
      exact dropped_runs ⟨hsound, RowSet.holds_empty _⟩ (.inl (Option.some.inj hplain).symm)
        (hlost.imp_right .inr)
    | some file =>
      rw [htable] at hplain
      exact loadRowsAlloc_runs hsound hlost hplain

theorem tableStateLoadAlloc_faults (hgrants : ¬ Refuses grants) (prior : SqlError) {disk : Disk}
    (dbRoot : Bytes) {tableName text : Bytes} (hfile : disk.schemas tableName = some text)
    (htext : loadSchema tableName text = none) :
    Faults kept (tableStateLoadAlloc grants prior disk dbRoot tableName) := by
  unfold tableStateLoadAlloc
  rw [hfile]
  exact (loadSchemaAlloc_faults hgrants prior _ tableName htext).bind _

end

/-- What a loaded table owns. -/
def loadedOwns : Except SqlError TableRecord → Multiset Nat
  | .error _ => 0
  | .ok table => table.owns

/-- **The memory of a table.** The nodes of the index are taken as allocated; whatever other
calls for memory are refused, and whatever blocks the rest of the program holds: where the
plain `table_state_load` has a result, nothing is freed twice and nothing freed is read. The
new blocks are those of the table and those that are lost; some are lost only if the schema
file gives the columns or the primary key again, or after the errors of `Lossy`. The result
is the plain one, unless memory was refused and it is an error, and
`table_state_destroy` gives back what the table owns. Where `load_schema` has no result, at a
line without `=`, the program reads the text it has freed. -/
theorem table_memory (grants : Nat → Bool) (prior : SqlError) (disk : Disk) (dbRoot tableName : Bytes)
    (ledger : Ledger) :
    (∀ plain, tableStateLoad disk dbRoot tableName = some plain →
      ∃ out loaded lost, tableStateLoadAlloc grants prior disk dbRoot tableName ledger =
          some (out, loaded) ∧
        loaded.live = loadedOwns out + (lost + ledger.live) ∧
        (lost = 0 ∨ GivenTwice (disk.schemas tableName) ∨ ∃ e, out = .error e ∧ Lossy grants e) ∧
        (plain = out.map TableRecord.state ∨ (Refuses grants ∧ ∃ e, out = .error e)) ∧
        ∀ table, out = .ok table → ∃ left freed, tableStateDestroy table loaded = some (left, freed) ∧
          freed.live = lost + ledger.live) ∧
    (∀ text, disk.schemas tableName = some text → loadSchema tableName text = none →
      (∀ n, grants n = true) →
      tableStateLoadAlloc grants prior disk dbRoot tableName ledger = none) := by
  constructor
  · intro plain hplain
    have hload : Runs 0 (tableStateLoadAlloc grants prior disk dbRoot tableName) _ :=
      tableStateLoadAlloc_runs prior hplain
    obtain ⟨out, loaded, owned, hrun, hlive, hout⟩ := hload ledger.live ledger (add_zero _).symm
    cases out with
    | error e =>
      obtain ⟨herror, lost, rfl, hlost⟩ := hout
      refine ⟨.error e, loaded, lost, hrun, ?_, ?_, ?_, fun table h => by cases h⟩
      · rw [hlive, loadedOwns, zero_add, add_zero, add_comm]
      · rcases hlost with hlost | hlossy | htwice
        · exact .inl hlost
        · exact .inr (.inr ⟨e, rfl, hlossy⟩)
        · exact .inr (.inl htwice)
      · exact herror.imp id fun hrefuses => ⟨hrefuses, e, rfl⟩
    | ok table =>
      obtain ⟨hstate, hsound, lost, rfl, hlost⟩ := hout
      refine ⟨.ok table, loaded, lost, hrun, ?_, hlost.imp_right .inl, .inl hstate, ?_⟩
      · rw [hlive, loadedOwns]
        abel
      · intro table' htable'
        cases htable'
        have hfree : Runs (table.owns + (lost + 0)) (tableStateDestroy table) _ :=
          tableStateDestroy_runs hsound
        obtain ⟨left, freed, rest, hfreed, hrest, -, rfl⟩ := hfree ledger.live loaded hlive
        exact ⟨left, freed, hfreed, by rw [hrest, add_zero, add_comm]⟩
  · intro text hfile htext hgrants
    have hnone : ¬ Refuses grants := by
      rintro ⟨n, hn⟩
      rw [hgrants n] at hn
      cases hn
    exact tableStateLoadAlloc_faults hnone prior dbRoot hfile htext ledger.live ledger
      (add_zero _).symm

end MiniSql.Index
