import MiniSql.Lib.Alloc
import MiniSql.Storage.SchemaLines

/-!
# The memory of a schema

`load_schema` and `free_schema` with the blocks they allocate and free, where any call for
memory may be refused. A line without `=` is reported from the text that was just freed:
there the program has no result. Columns and a primary key that a later line replaces are
lost, and so are the names in front of a column without a type.
-/

namespace MiniSql.Storage

open Alloc

structure ColumnCell where
  name : Boxed Bytes
  type : ColumnType

/-- `Schema`, with its pointers. -/
structure SchemaRecord where
  tableName : Option (Boxed Bytes)
  columns : Vec ColumnCell
  primaryKey : Option (Boxed Bytes)
  primaryKeyIndex : Int
  autoincrement : Bool

/-- What `load_schema` starts from. -/
def SchemaRecord.start (name : Boxed Bytes) : SchemaRecord := ⟨some name, .empty, none, -1, false⟩

/-- A schema whose pointers are all null. -/
def SchemaRecord.cleared (autoincrement : Bool) : SchemaRecord := ⟨none, .empty, none, -1, autoincrement⟩

def ColumnCell.column (cell : ColumnCell) : ColumnDef := ⟨cell.name.content, cell.type⟩

/-- What a record stands for. -/
def SchemaRecord.schema (schema : SchemaRecord) : Schema where
  tableName := (schema.tableName.map Boxed.content).getD []
  columns := schema.columns.cells.map ColumnCell.column
  primaryKey := schema.primaryKey.map Boxed.content
  primaryKeyIndex := schema.primaryKeyIndex
  autoincrement := schema.autoincrement

def freeColumn (cell : ColumnCell) : Allocating Unit := freeBox cell.name

def freeSchema (schema : SchemaRecord) : Allocating SchemaRecord := do
  freeArray schema.columns.array freeColumn schema.columns.cells
  free (schema.tableName.map Boxed.block)
  free (schema.primaryKey.map Boxed.block)
  pure (.cleared schema.autoincrement)

section

variable (grants : Nat → Bool)

/-- One entry of `parse_columns`. A column without memory for its name leaves the message
that was there before, if there was one. -/
def parseColumnAlloc (prior : SqlError) (columns : Vec ColumnCell) (text : Bytes) :
    Allocating (Except SqlError (Vec ColumnCell)) :=
  let entry := trimInPlace text
  match cutAt 0x3a entry with
  | none => do
    free columns.array
    pure (.error (invalidColumn entry))
  | some (name, typeName) => do
    match ← columns.enlarge grants (columns.cells.length + 1) with
    | none => do
      freeArray columns.array freeColumn columns.cells
      pure (.error (sqlSetError [ascii "failed to allocate schema columns"]))
    | some columns =>
      match ← box grants (trimInPlace name) with
      | none => do
        freeArray columns.array freeColumn columns.cells
        pure (.error (if prior.message.isEmpty then
          sqlSetError [ascii "failed to allocate schema column"] else prior))
      | some copy =>
        match parseColumnType (trimInPlace typeName) with
        | .error e => do
          freeBox copy
          freeArray columns.array freeColumn columns.cells
          pure (.error e)
        | .ok type => do
          let columns ← columns.push ⟨copy, type⟩
          pure (.ok columns)

def parseColumnsAlloc (prior : SqlError) (columns : Vec ColumnCell) (value : Bytes) :
    Allocating (Except SqlError (Vec ColumnCell)) :=
  if value.isEmpty then pure (.ok columns)
  else
    match _ : cutAt comma value with
    | none => parseColumnAlloc grants prior columns value
    | some (entry, rest) => do
      match ← parseColumnAlloc grants prior columns entry with
      | .error e => pure (.error e)
      | .ok columns => parseColumnsAlloc prior columns rest
termination_by value.length
decreasing_by exact cutAt_shorter ‹_›

/-- The lookup of the primary key, which reads the names. -/
def findPrimaryKeyAlloc (schema : SchemaRecord) : Allocating SchemaRecord :=
  match schema.primaryKey with
  | none => pure schema
  | some key => do
    forCells schema.columns.array (fun cell => do
      touch (some cell.name.block)
      touch (some key.block)) schema.columns.cells
    match schema.columns.cells.findIdx? (fun cell => cell.name.content == key.content) with
    | none => pure schema
    | some index => pure { schema with primaryKeyIndex := index }

/-- The effect of one `key = value` line: the schema also if it fails. -/
def setKeyAlloc (prior : SqlError) (schema : SchemaRecord) (key value : Bytes) :
    Allocating (SchemaRecord × Except SqlError Unit) :=
  if key = ascii "table" then do
    free (schema.tableName.map Boxed.block)
    match ← box grants value with
    | none =>
      pure ({ schema with tableName := none },
        .error (sqlSetError [ascii "failed to allocate schema table name"]))
    | some copy => pure ({ schema with tableName := some copy }, .ok ())
  else if key = ascii "columns" then do
    match ← parseColumnsAlloc grants prior .empty value with
    | .error e => pure (schema, .error e)
    | .ok columns => pure ({ schema with columns := columns }, .ok ())
  else if key = ascii "pkey" then do
    match ← box grants value with
    | none =>
      pure ({ schema with primaryKey := none },
        .error (sqlSetError [ascii "failed to allocate primary key"]))
    | some copy => pure ({ schema with primaryKey := some copy }, .ok ())
  else if key = ascii "autoincrement" then
    pure ({ schema with autoincrement := value = ascii "true" }, .ok ())
  else pure (schema, .ok ())

/-- What every failure of the loop of `load_schema` frees. -/
def dropSchema (text : Nat) (schema : SchemaRecord) : Allocating Unit := do
  free (some text)
  let _ ← freeSchema schema
  pure ()

/-- The loop body of `load_schema`. -/
def schemaLineAlloc (prior : SqlError) (text : Nat) (schema : SchemaRecord) (line : Bytes) :
    Allocating (Except SqlError SchemaRecord) :=
  let trimmed := trimInPlace line
  if trimmed.isEmpty then pure (.ok schema)
  else
    match cutAt 0x3d trimmed with
    | none => do
      dropSchema text schema
      -- the message reads the line, which was part of the text
      touch (some text)
      pure (.error (sqlSetError [ascii "invalid schema line: ", trimmed]))
    | some (key, value) => do
      match ← setKeyAlloc grants prior schema (trimInPlace key) (trimInPlace value) with
      | (schema, .error e) => do
        dropSchema text schema
        pure (.error e)
      | (schema, .ok _) => do
        let schema ← findPrimaryKeyAlloc schema
        pure (.ok schema)

/-- The loop of `load_schema`. -/
def schemaLinesAlloc (prior : SqlError) (text : Nat) (schema : SchemaRecord) :
    List Bytes → Allocating (Except SqlError SchemaRecord)
  | [] => pure (.ok schema)
  | line :: lines => do
    match ← schemaLineAlloc grants prior text schema line with
    | .error e => pure (.error e)
    | .ok schema => schemaLinesAlloc prior text schema lines

/-- `sql_read_text_file`, on the contents of the file if there is one. -/
def readTextFileAlloc (missing : SqlError) :
    Option Bytes → Allocating (Except SqlError (Boxed Bytes))
  | none => pure (.error missing)
  | some contents => do
    match ← box grants contents with
    | none => pure (.error (sqlSetError [ascii "failed to allocate file buffer"]))
    | some text => pure (.ok text)

/-- `load_schema`. `strtok` gives no empty lines, and the loop skips a blank one. -/
def loadSchemaAlloc (prior missing : SqlError) (tableName : Bytes) (file : Option Bytes) :
    Allocating (Except SqlError SchemaRecord) := do
  match ← box grants tableName with
  | none => pure (.error (sqlSetError [ascii "failed to allocate schema table name"]))
  | some name =>
    match ← readTextFileAlloc grants missing file with
    | .error e => do
      let _ ← freeSchema (.start name)
      pure (.error e)
    | .ok text =>
      match ← schemaLinesAlloc grants prior text.block (.start name) (textLines text.content) with
      | .error e => pure (.error e)
      | .ok schema => do
        freeBox text
        match checkColumns schema.schema with
        | .error e => do
          let _ ← freeSchema schema
          pure (.error e)
        | .ok _ => pure (.ok schema)

end

/-! ## What a schema owns -/

def ColumnCell.owns (cell : ColumnCell) : Multiset Nat := cell.name.blocks

def SchemaRecord.owns (schema : SchemaRecord) : Multiset Nat :=
  schema.columns.blocks ColumnCell.owns +
    (blockOf (schema.tableName.map Boxed.block) + blockOf (schema.primaryKey.map Boxed.block))

/-- Whether the schema has a block that a line with the key replaces. -/
def SchemaRecord.holds (schema : SchemaRecord) (key : Bytes) : Bool :=
  (key == columnsKey && schema.columns.array.isSome) || (key == pkeyKey && schema.primaryKey.isSome)

/-- The keys whose values are not freed when they are given again. -/
def replacedKeys : List Bytes := [columnsKey, pkeyKey]

/-- The lines give such a key again. -/
def Replaces (schema : SchemaRecord) (lines : List Bytes) : Prop :=
  ∃ key ∈ replacedKeys, 1 < (schema.holds key).toNat + (valuesOf key lines).length

section

variable {grants : Nat → Bool} {kept : Multiset Nat}

theorem freeColumns_runs {columns : Vec ColumnCell} (h : columns.Sound) :
    Runs (columns.blocks ColumnCell.owns + kept) (freeArray columns.array freeColumn columns.cells)
      fun _ left => left = kept :=
  Vec.free_runs h (.refl _) fun cell _ _ => freeBox_runs cell.name

theorem freeSchema_runs {schema : SchemaRecord} (h : schema.columns.Sound) :
    Runs (schema.owns + kept) (freeSchema schema) fun left rest =>
      left = .cleared schema.autoincrement ∧ rest = kept := by
  rw [SchemaRecord.owns, add_assoc, add_assoc]
  apply (freeColumns_runs h).seq
  apply (free_runs _).seq
  apply (free_runs _).seq
  exact Runs.pure ⟨rfl, rfl⟩

theorem dropSchema_runs {schema : SchemaRecord} (h : schema.columns.Sound) (text : Nat) :
    Runs ({text} + (schema.owns + kept)) (dropSchema text schema) fun _ left => left = kept := by
  apply (free_runs (some text)).seq
  apply (freeSchema_runs h).bind
  rintro _ left ⟨-, rfl⟩
  exact Runs.pure rfl

/-! ## The columns -/

/-- The columns of the plain function behind those that were there before. Only names in
front of a column without a type are lost. -/
def ColumnsRead (grants : Nat → Bool) (plain : Except SqlError (List ColumnDef))
    (before : List ColumnDef) (kept : Multiset Nat) :
    Except SqlError (Vec ColumnCell) → Multiset Nat → Prop
  | .error e, owned => (plain = .error e ∨ Refuses grants) ∧
      ∃ lost, owned = lost + kept ∧ (lost = 0 ∨ ∃ entry, e = invalidColumn entry)
  | .ok columns, owned => owned = columns.blocks ColumnCell.owns + kept ∧ columns.Sound ∧
      ∃ added, plain = .ok added ∧ columns.cells.map ColumnCell.column = before ++ added

theorem parseColumnAlloc_runs {columns : Vec ColumnCell} (h : columns.Sound) (prior : SqlError)
    (text : Bytes) :
    Runs (columns.blocks ColumnCell.owns + kept) (parseColumnAlloc grants prior columns text)
      (ColumnsRead grants ((parseColumn text).map ([·])) (columns.cells.map ColumnCell.column)
        kept) := by
  unfold parseColumnAlloc parseColumn
  dsimp only
  cases cutAt 0x3a (trimInPlace text) with
  | none =>
    -- the array is freed and the names in it are not
    rw [Vec.blocks, add_comm (columns.cells.map ColumnCell.owns).sum, add_assoc]
    apply (free_runs _).seq
    exact Runs.pure ⟨.inl rfl, _, rfl, .inr ⟨_, rfl⟩⟩
  | some cut =>
    obtain ⟨name, typeName⟩ := cut
    apply (Vec.enlarge_runs grants (Nat.lt_succ_self _)).bind
    intro grown owned hgrown
    cases grown with
    | none =>
      obtain ⟨rfl, hrefuses⟩ := hgrown
      apply (freeColumns_runs h).seq
      exact Runs.pure ⟨.inr hrefuses, 0, (zero_add _).symm, .inl rfl⟩
    | some grown =>
      obtain ⟨rfl, hsound, hcells, hroom⟩ := hgrown
      apply (box_runs grants (trimInPlace name)).bind
      intro copy owned hcopy
      cases copy with
      | none =>
        obtain ⟨rfl, hrefuses⟩ := hcopy
        apply (freeColumns_runs hsound).seq
        exact Runs.pure ⟨.inr hrefuses, 0, (zero_add _).symm, .inl rfl⟩
      | some copy =>
        obtain ⟨rfl, hcontent⟩ := hcopy
        dsimp only
        cases parseColumnType (trimInPlace typeName) with
        | error e =>
          apply (freeBox_runs copy).seq
          apply (freeColumns_runs hsound).seq
          exact Runs.pure ⟨.inl rfl, 0, (zero_add _).symm, .inl rfl⟩
        | ok type =>
          change Runs (ColumnCell.owns ⟨copy, type⟩ + (grown.blocks ColumnCell.owns + kept)) _ _
          apply (Vec.push_runs hsound hroom _).bind
          rintro pushed owned ⟨rfl, hpushed, hpushedCells⟩
          refine Runs.pure ⟨rfl, hpushed, _, rfl, ?_⟩
          rw [hpushedCells, hcells, List.map_append, List.map_singleton, ColumnCell.column, hcontent]

theorem parseColumns_last {value : Bytes} (hne : ¬ value.isEmpty = true) (hcut : cutAt comma value = none) :
    parseColumns value = (parseColumn value).map ([·]) := by
  rw [parseColumns, if_neg hne]
  split
  · cases parseColumn value <;> rfl
  · rename_i hsome
    rw [hcut] at hsome
    cases hsome

theorem parseColumns_cut {value entry rest : Bytes} (hne : ¬ value.isEmpty = true)
    (hcut : cutAt comma value = some (entry, rest)) :
    parseColumns value =
      (parseColumn entry).bind fun column => (parseColumns rest).map (column :: ·) := by
  rw [parseColumns, if_neg hne]
  split
  · rename_i hnone
    rw [hcut] at hnone
    cases hnone
  · rename_i hsome
    rw [hcut] at hsome
    cases hsome
    cases parseColumn entry with
    | error e => rfl
    | ok column => cases parseColumns rest <;> rfl

theorem parseColumnsAlloc_runs {columns : Vec ColumnCell} (h : columns.Sound) (prior : SqlError)
    (value : Bytes) :
    Runs (columns.blocks ColumnCell.owns + kept) (parseColumnsAlloc grants prior columns value)
      (ColumnsRead grants (parseColumns value) (columns.cells.map ColumnCell.column) kept) := by
  induction hlength : value.length using Nat.strongRecOn generalizing columns value with
  | ind length ih =>
    subst hlength
    rw [parseColumnsAlloc]
    split
    · rename_i hempty
      rw [parseColumns, if_pos hempty]
      exact Runs.pure ⟨rfl, h, [], rfl, (List.append_nil _).symm⟩
    · rename_i hne
      split
      · rename_i hcut
        rw [parseColumns_last hne hcut]
        exact parseColumnAlloc_runs h prior value
      · rename_i entry rest hcut
        rw [parseColumns_cut hne hcut]
        apply (parseColumnAlloc_runs h prior entry).bind
        intro out owned hout
        cases out with
        | error e =>
          obtain ⟨hplain, hlost⟩ := hout
          refine Runs.pure ⟨hplain.imp_left fun hplain => ?_, hlost⟩
          cases hcolumn : parseColumn entry with
          | error e' =>
            rw [hcolumn] at hplain
            cases hplain
            rfl
          | ok column =>
            rw [hcolumn] at hplain
            cases hplain
        | ok next =>
          obtain ⟨rfl, hnext, added, hadded, hcells⟩ := hout
          obtain ⟨column, hcolumn, rfl⟩ : ∃ column, parseColumn entry = .ok column ∧ added = [column] := by
            cases hcolumn : parseColumn entry with
            | error e =>
              rw [hcolumn] at hadded
              cases hadded
            | ok column =>
              rw [hcolumn] at hadded
              cases hadded
              exact ⟨column, rfl, rfl⟩
          apply (ih _ (cutAt_shorter hcut) hnext rest rfl).mono
          intro out owned hout
          rw [hcolumn]
          cases out with
          | error e =>
            obtain ⟨hplain, hlost⟩ := hout
            refine ⟨hplain.imp_left fun hplain => ?_, hlost⟩
            rw [hplain]
            rfl
          | ok last =>
            obtain ⟨rfl, hlast, more, hmore, hlastCells⟩ := hout
            refine ⟨rfl, hlast, column :: more, by rw [hmore]; rfl, ?_⟩
            rw [hlastCells, hcells, List.append_assoc, List.singleton_append]

/-! ## The lines -/

/-- What a line with a key and a value does. -/
structure KeySet (grants : Nat → Bool) (plain : Except SqlError Schema) (schema : SchemaRecord)
    (key : Bytes) (kept : Multiset Nat) (result : SchemaRecord × Except SqlError Unit)
    (owned : Multiset Nat) : Prop where
  sound : result.1.columns.Sound
  ok : result.2 = .ok () → plain = .ok result.1.schema
  error : ∀ e, result.2 = .error e → plain = .error e ∨ Refuses grants
  holds : ∀ other, result.1.holds other = true → schema.holds other = true ∨ other = key
  lost : ∃ lost, owned = result.1.owns + (lost + kept) ∧
    (lost = 0 ∨ (∃ entry, result.2 = .error (invalidColumn entry)) ∨ schema.holds key = true)

theorem holds_columns {schema : SchemaRecord} (h : schema.columns.array.isSome = true) :
    schema.holds columnsKey = true := by simp [SchemaRecord.holds, h]

theorem holds_pkey {schema : SchemaRecord} (h : schema.primaryKey.isSome = true) :
    schema.holds pkeyKey = true := by simp [SchemaRecord.holds, h]

variable {schema : SchemaRecord}

theorem setTable_runs (h : schema.columns.Sound) (prior : SqlError) (value : Bytes) :
    Runs (schema.owns + kept) (setKeyAlloc grants prior schema tableKey value)
      (KeySet grants (setKey schema.schema tableKey value) schema tableKey kept) := by
  have howns : schema.owns + kept = blockOf (schema.tableName.map Boxed.block) +
      (schema.columns.blocks ColumnCell.owns + (blockOf (schema.primaryKey.map Boxed.block) + kept)) := by
    rw [SchemaRecord.owns]
    abel
  rw [howns]
  apply (free_runs _).seq
  apply (box_runs grants value).bind
  intro copy owned hcopy
  cases copy with
  | none =>
    obtain ⟨rfl, hrefuses⟩ := hcopy
    refine Runs.pure ⟨h, (fun hok => by cases hok), fun _ _ => .inr hrefuses, fun _ => .inl,
      0, ?_, .inl rfl⟩
    simp only [SchemaRecord.owns, Option.map_none, blockOf]
    abel
  | some copy =>
    obtain ⟨rfl, rfl⟩ := hcopy
    refine Runs.pure ⟨h, fun _ => rfl, (fun e he => by cases he), fun _ => .inl, 0, ?_, .inl rfl⟩
    simp only [SchemaRecord.owns, Option.map_some, blockOf]
    abel

theorem setColumns_runs (h : schema.columns.Sound) (prior : SqlError) (value : Bytes) :
    Runs (schema.owns + kept) (setKeyAlloc grants prior schema columnsKey value)
      (KeySet grants (setKey schema.schema columnsKey value) schema columnsKey kept) := by
  have hempty : schema.owns + kept =
      (Vec.empty : Vec ColumnCell).blocks ColumnCell.owns + (schema.owns + kept) := (zero_add _).symm
  have hplain : setKey schema.schema columnsKey value =
      (parseColumns value).map fun columns => { schema.schema with columns := columns } := by
    rw [setKey, if_neg (by decide), if_pos (show columnsKey = ascii "columns" from rfl)]
    cases parseColumns value <;> rfl
  rw [hempty, hplain]
  apply (parseColumnsAlloc_runs Vec.empty_sound prior value).bind
  intro out owned hout
  cases out with
  | error e =>
    obtain ⟨hcolumns, lost, rfl, hlost⟩ := hout
    refine Runs.pure ⟨h, (fun hok => by cases hok), ?_, fun _ => .inl, lost, add_left_comm _ _ _, ?_⟩
    · intro e' he'
      cases he'
      refine hcolumns.imp_left fun hcolumns => ?_
      rw [hcolumns]
      rfl
    · exact hlost.imp_right fun hentry => .inl (by simpa using hentry)
  | ok columns =>
    obtain ⟨rfl, hsound, added, hadded, hcells⟩ := hout
    refine Runs.pure ⟨hsound, ?_, (fun e he => by cases he), ?_,
      schema.columns.blocks ColumnCell.owns, ?_, ?_⟩
    · intro _
      obtain rfl : columns.cells.map ColumnCell.column = added := hcells
      rw [hadded]
      rfl
    · intro other hother
      by_cases hkey : other = columnsKey
      · exact .inr hkey
      · exact .inl (by simpa [SchemaRecord.holds, hkey] using hother)
    · simp only [SchemaRecord.owns]
      abel
    · cases harray : schema.columns.array with
      | none =>
        left
        rw [Vec.blocks, h.cells_null harray, harray]
        rfl
      | some array => exact .inr (.inr (holds_columns (by rw [harray]; rfl)))

theorem setPkey_runs (h : schema.columns.Sound) (prior : SqlError) (value : Bytes) :
    Runs (schema.owns + kept) (setKeyAlloc grants prior schema pkeyKey value)
      (KeySet grants (setKey schema.schema pkeyKey value) schema pkeyKey kept) := by
  have hlost : blockOf (schema.primaryKey.map Boxed.block) = 0 ∨ schema.holds pkeyKey = true := by
    cases hkey : schema.primaryKey with
    | none => exact .inl rfl
    | some key => exact .inr (holds_pkey (by rw [hkey]; rfl))
  apply (box_runs grants value).bind
  intro copy owned hcopy
  cases copy with
  | none =>
    obtain ⟨rfl, hrefuses⟩ := hcopy
    refine Runs.pure ⟨h, (fun hok => by cases hok), fun _ _ => .inr hrefuses, ?_, _, ?_,
      hlost.imp_right .inr⟩
    · intro other hother
      by_cases hkey : other = pkeyKey
      · exact .inr hkey
      · exact .inl (by simpa [SchemaRecord.holds, hkey] using hother)
    · simp only [SchemaRecord.owns, Option.map_none, blockOf]
      abel
  | some copy =>
    obtain ⟨rfl, rfl⟩ := hcopy
    refine Runs.pure ⟨h, fun _ => rfl, (fun e he => by cases he), ?_, _, ?_, hlost.imp_right .inr⟩
    · intro other hother
      by_cases hkey : other = pkeyKey
      · exact .inr hkey
      · exact .inl (by simpa [SchemaRecord.holds, hkey] using hother)
    · simp only [SchemaRecord.owns, Option.map_some, blockOf]
      abel

theorem setKeyAlloc_runs (h : schema.columns.Sound) (prior : SqlError) (key value : Bytes) :
    Runs (schema.owns + kept) (setKeyAlloc grants prior schema key value)
      (KeySet grants (setKey schema.schema key value) schema key kept) := by
  by_cases htable : key = ascii "table"
  · exact htable ▸ setTable_runs h prior value
  by_cases hcolumns : key = ascii "columns"
  · exact hcolumns ▸ setColumns_runs h prior value
  by_cases hpkey : key = ascii "pkey"
  · exact hpkey ▸ setPkey_runs h prior value
  rw [setKeyAlloc, if_neg htable, if_neg hcolumns, if_neg hpkey, setKey, if_neg htable,
    if_neg hcolumns, if_neg hpkey]
  split
  · exact Runs.pure ⟨h, fun _ => rfl, (fun e he => by cases he), fun _ => .inl, 0,
      by rw [zero_add]; rfl, .inl rfl⟩
  · exact Runs.pure ⟨h, fun _ => rfl, (fun e he => by cases he), fun _ => .inl, 0,
      by rw [zero_add], .inl rfl⟩

theorem findPrimaryKeyAlloc_runs (h : schema.columns.Sound) {owned : Multiset Nat}
    (howns : schema.owns ≤ owned) :
    Runs owned (findPrimaryKeyAlloc schema) fun found left => left = owned ∧
      found.columns = schema.columns ∧ found.owns = schema.owns ∧ found.holds = schema.holds ∧
      found.schema = findPrimaryKey schema.schema := by
  obtain ⟨tableName, columns, primaryKey, primaryKeyIndex, autoincrement⟩ := schema
  dsimp only at h
  cases primaryKey with
  | none => exact Runs.pure ⟨rfl, rfl, rfl, rfl, rfl⟩
  | some key =>
    have hread : Runs owned (forCells columns.array (fun cell => do
        touch (some cell.name.block)
        touch (some key.block)) columns.cells) fun _ left => left = owned := by
      apply forCells_read
      · intro cell hcell
        have hname : cell.name.block ∈ columns.blocks ColumnCell.owns :=
          Vec.mem_blocks hcell (Multiset.mem_singleton_self _)
        exact (touch_runs (Multiset.mem_of_le howns (by simp [SchemaRecord.owns, hname]))).seq
          (touch_runs (Multiset.mem_of_le howns (by simp [SchemaRecord.owns, blockOf])))
      · intro cell hcell
        obtain ⟨array, hmem, harray⟩ := h.array_mem ColumnCell.owns hcell
        exact ⟨array, Multiset.mem_of_le howns (by simp [SchemaRecord.owns, hmem]), harray⟩
    have hfind : (columns.cells.map ColumnCell.column).findIdx?
        (fun column => column.name == key.content) =
        columns.cells.findIdx? (fun cell => cell.name.content == key.content) := by
      rw [List.findIdx?_map]
      rfl
    apply hread.seq
    simp only [findPrimaryKey, SchemaRecord.schema, Option.map_some, hfind]
    cases columns.cells.findIdx? (fun cell => cell.name.content == key.content) with
    | none => exact Runs.pure ⟨rfl, rfl, rfl, rfl, rfl⟩
    | some index => exact Runs.pure ⟨rfl, rfl, rfl, rfl, rfl⟩

end

end MiniSql.Storage
