import MiniSql.Storage.Schema
import MiniSql.Storage.Trim

/-!
# What a schema file says

The lines of a schema file are entries `key = value`; the last entry of a key
counts. The position of the primary key is the exception: it is looked up again
after every line, and a failed lookup leaves the old position in place. The
position in a loaded schema is that of the primary key exactly if the last `pkey`
is among the last `columns`.
-/

namespace MiniSql.Storage

/-! ## Lines -/

theorem strtok_newline (cursor : Bytes) : strtok (newline :: cursor) = strtok cursor := by
  simp [strtok]

theorem strtok_line {line rest : Bytes} (hne : line ≠ []) (hfree : newline ∉ line)
    (hrest : rest = [] ∨ ∃ more, rest = newline :: more) :
    strtok (line ++ rest) = some (line, rest.drop 1) := by
  have hall : ∀ c ∈ line, (c != newline) = true := by
    intro c hc
    rw [bne_iff_ne]
    rintro rfl
    exact hfree hc
  have hstart : (line ++ rest).dropWhile (· == newline) = line ++ rest := by
    obtain ⟨c, line, rfl⟩ := List.exists_cons_of_ne_nil hne
    exact List.dropWhile_cons_of_neg (by simpa using hall c List.mem_cons_self)
  simp only [strtok, hstart, List.takeWhile_append_of_pos hall, List.dropWhile_append_of_pos hall]
  rcases hrest with rfl | ⟨more, rfl⟩
  · simp [hne]
  · simp

theorem schemaLines_newline (schema : Schema) (cursor : Bytes) :
    schemaLines schema (newline :: cursor) = schemaLines schema cursor := by
  rw [schemaLines, strtok_newline, schemaLines.eq_def schema cursor]

theorem schemaLines_nil (schema : Schema) : schemaLines schema [] = some (.ok schema) := by
  rw [schemaLines]
  rfl

theorem schemaLines_line {line rest : Bytes} (hne : line ≠ []) (hfree : newline ∉ line)
    (hrest : rest = [] ∨ ∃ more, rest = newline :: more) (schema : Schema) :
    schemaLines schema (line ++ rest) =
      andThen (schemaLine schema line) fun schema => schemaLines schema (rest.drop 1) := by
  rw [schemaLines, strtok_line hne hfree hrest]

/-- The lines of a text one after the other. -/
def setLines (schema : Schema) : List Bytes → Option (Except SqlError Schema)
  | [] => some (.ok schema)
  | line :: lines => andThen (schemaLine schema line) fun schema => setLines schema lines

theorem schemaLine_nil (schema : Schema) : schemaLine schema [] = some (.ok schema) := rfl

theorem schemaLines_join {lines : List Bytes} (hne : lines ≠ [])
    (hfree : ∀ line ∈ lines, newline ∉ line) (schema : Schema) :
    schemaLines schema ([newline].intercalate lines) = setLines schema lines := by
  induction lines generalizing schema with
  | nil => exact absurd rfl hne
  | cons line lines ih =>
    obtain ⟨hline, hfree⟩ := List.forall_mem_cons.mp hfree
    cases lines with
    | nil =>
      have hone : [newline].intercalate [line] = line ++ [] := by simp [List.intercalate]
      rw [hone, setLines]
      by_cases hempty : line = []
      · rw [hempty, List.append_nil, schemaLines_nil, schemaLine_nil]
        rfl
      · rw [schemaLines_line hempty hline (.inl rfl)]
        exact congrArg _ (funext schemaLines_nil)
    | cons other lines =>
      have htwo : [newline].intercalate (line :: other :: lines) =
          line ++ newline :: [newline].intercalate (other :: lines) := by simp [List.intercalate]
      have ih := ih (List.cons_ne_nil other lines) hfree
      rw [htwo, setLines]
      by_cases hempty : line = []
      · rw [hempty, List.nil_append, schemaLines_newline, ih, schemaLine_nil]
        rfl
      · rw [schemaLines_line hempty hline (.inr ⟨_, rfl⟩)]
        exact congrArg _ (funext ih)

/-- The lines of the text that `load_schema` reads. -/
def textLines (text : Bytes) : List Bytes := (cString text).splitOn newline

theorem textLines_free (text : Bytes) : ∀ line ∈ textLines text, newline ∉ line := by
  unfold textLines List.splitOn
  induction cString text with
  | nil => simp
  | cons c text ih =>
    rw [List.splitOnP_cons_eq_if_modifyHead]
    split
    · exact List.forall_mem_cons.mpr ⟨List.not_mem_nil, ih⟩
    · rename_i hc
      cases hlines : text.splitOnP (· == newline) with
      | nil => simp
      | cons line lines =>
        rw [hlines] at ih
        obtain ⟨hline, hlines⟩ := List.forall_mem_cons.mp ih
        rw [List.modifyHead_cons, List.forall_mem_cons]
        refine ⟨?_, hlines⟩
        rw [List.mem_cons, not_or]
        exact ⟨fun h => hc (by simp [← h]), hline⟩

theorem loadSchema_eq (tableName text : Bytes) :
    loadSchema tableName text =
      andThen (setLines (.empty tableName) (textLines text)) fun schema => some (checkColumns schema) := by
  have hjoin := schemaLines_join (show textLines text ≠ [] from List.splitOnP_ne_nil _ _)
    (textLines_free text) (.empty tableName)
  rw [show [newline].intercalate (textLines text) = cString text from
    List.intercalate_splitOn newline] at hjoin
  rw [loadSchema, hjoin]

theorem checkColumns_ok_iff {schema loaded : Schema} :
    checkColumns schema = .ok loaded ↔ schema = loaded ∧ loaded.columns ≠ [] := by
  unfold checkColumns
  split
  · rename_i hcolumns
    refine iff_of_false (fun h => by cases h) ?_
    rintro ⟨rfl, hne⟩
    exact hne (List.eq_nil_of_length_eq_zero hcolumns)
  · rename_i hcolumns
    rw [Except.ok.injEq, iff_self_and]
    rintro rfl
    exact fun h => hcolumns (by simp [Schema.columnCount, h])

theorem loadSchema_lines {tableName text : Bytes} {schema : Schema} :
    loadSchema tableName text = some (.ok schema) ↔
      setLines (.empty tableName) (textLines text) = some (.ok schema) ∧ schema.columns ≠ [] := by
  simp only [loadSchema_eq, andThen_ok_iff, Option.some.injEq, checkColumns_ok_iff]
  constructor
  · rintro ⟨_, hlines, rfl, hne⟩
    exact ⟨hlines, hne⟩
  · rintro ⟨hlines, hne⟩
    exact ⟨schema, hlines, rfl, hne⟩

/-! ## Entries -/

/-- The key and the value of a line. -/
def lineEntry (line : Bytes) : Option (Bytes × Bytes) :=
  (cutAt 0x3d (trimInPlace line)).map fun cut => (trimInPlace cut.1, trimInPlace cut.2)

/-- The value that a line gives to a key. -/
def entryValue (key line : Bytes) : Option Bytes :=
  (lineEntry line).bind fun entry => if entry.1 = key then some entry.2 else none

/-- The values that the lines give to a key, in order. -/
def valuesOf (key : Bytes) (lines : List Bytes) : List Bytes := lines.filterMap (entryValue key)

def lastValue (key : Bytes) (lines : List Bytes) : Option Bytes := (valuesOf key lines).getLast?

theorem lastValue_concat (key : Bytes) (lines : List Bytes) (line : Bytes) :
    lastValue key (lines ++ [line]) = (entryValue key line).or (lastValue key lines) := by
  unfold lastValue valuesOf
  rw [List.filterMap_append]
  cases h : entryValue key line with
  | none => simp [h]
  | some value => simp [h]

theorem entryValue_some {key value line : Bytes} (h : lineEntry line = some (key, value))
    (other : Bytes) : entryValue other line = if key = other then some value else none := by
  simp [entryValue, h]

/-- What one line does. -/
theorem schemaLine_eq (schema : Schema) (line : Bytes) :
    (trimInPlace line = [] ∧ lineEntry line = none ∧ schemaLine schema line = some (.ok schema)) ∨
    (trimInPlace line ≠ [] ∧ lineEntry line = none ∧ schemaLine schema line = none) ∨
    ∃ key value, lineEntry line = some (key, value) ∧
      schemaLine schema line = some ((setKey schema key value).map findPrimaryKey) := by
  by_cases hblank : trimInPlace line = []
  · left
    refine ⟨hblank, ?_, ?_⟩
    · rw [lineEntry, hblank]
      rfl
    · simp [schemaLine, hblank]
  · right
    rcases hcut : cutAt 0x3d (trimInPlace line) with _ | ⟨key, value⟩
    · left
      exact ⟨hblank, by simp [lineEntry, hcut], by simp [schemaLine, hblank, hcut]⟩
    · right
      refine ⟨trimInPlace key, trimInPlace value, by simp [lineEntry, hcut], ?_⟩
      simp [schemaLine, hcut, hblank]

/-- The keys that `load_schema` knows. -/
def tableKey : Bytes := ascii "table"
def columnsKey : Bytes := ascii "columns"
def pkeyKey : Bytes := ascii "pkey"
def autoincrementKey : Bytes := ascii "autoincrement"

/-- What one entry sets. -/
structure Sets (schema : Schema) (key value : Bytes) (next : Schema) : Prop where
  tableName : next.tableName = if key = tableKey then value else schema.tableName
  columns : if key = columnsKey then parseColumns value = .ok next.columns
    else next.columns = schema.columns
  primaryKey : next.primaryKey = if key = pkeyKey then some value else schema.primaryKey
  primaryKeyIndex : next.primaryKeyIndex = schema.primaryKeyIndex
  autoincrement : next.autoincrement =
    if key = autoincrementKey then decide (value = ascii "true") else schema.autoincrement

theorem setKey_sets {schema next : Schema} {key value : Bytes}
    (h : setKey schema key value = .ok next) : Sets schema key value next := by
  have htc : tableKey ≠ columnsKey := by decide
  have htp : tableKey ≠ pkeyKey := by decide
  have hta : tableKey ≠ autoincrementKey := by decide
  have hcp : columnsKey ≠ pkeyKey := by decide
  have hca : columnsKey ≠ autoincrementKey := by decide
  have hpa : pkeyKey ≠ autoincrementKey := by decide
  change (if key = tableKey then _ else if key = columnsKey then _ else if key = pkeyKey then _
    else if key = autoincrementKey then _ else _) = _ at h
  by_cases htable : key = tableKey
  · rw [htable] at h ⊢
    cases h
    constructor <;> simp [htc, htp, hta]
  · rw [if_neg htable] at h
    by_cases hcolumns : key = columnsKey
    · rw [hcolumns] at h ⊢
      rw [if_pos rfl] at h
      cases hparse : parseColumns value with
      | error e =>
        rw [hparse] at h
        cases h
      | ok columns =>
        rw [hparse] at h
        cases h
        constructor <;> simp [htc.symm, hcp, hca, hparse]
    · rw [if_neg hcolumns] at h
      by_cases hpkey : key = pkeyKey
      · rw [hpkey] at h ⊢
        cases h
        constructor <;> simp [htp.symm, hcp.symm, hpa]
      · rw [if_neg hpkey] at h
        by_cases hauto : key = autoincrementKey
        · rw [hauto] at h ⊢
          cases h
          constructor <;> simp [hta.symm, hca.symm, hpa.symm]
        · rw [if_neg hauto] at h
          cases h
          constructor <;> simp [htable, hcolumns, hpkey, hauto]

/-- An entry fails only by its columns. -/
theorem setKey_ok_iff {schema : Schema} {key value : Bytes} :
    (∃ next, setKey schema key value = .ok next) ↔
      (key = columnsKey → ∃ columns, parseColumns value = .ok columns) := by
  have htc : columnsKey ≠ tableKey := by decide
  unfold setKey
  by_cases hcolumns : key = columnsKey
  · have hname : key = ascii "columns" := hcolumns
    have htable : ¬ key = ascii "table" := fun h => htc (hcolumns.symm.trans h)
    rw [if_neg htable, if_pos hname]
    cases parseColumns value <;> simp [hcolumns]
  · have hname : ¬ key = ascii "columns" := hcolumns
    simp only [hname, if_false, hcolumns, false_implies, iff_true]
    split
    · exact ⟨_, rfl⟩
    · split
      · exact ⟨_, rfl⟩
      · split <;> exact ⟨_, rfl⟩

/-! ## The lookup of the primary key -/

/-- The position at which the primary key of a schema stands. -/
def keyPosition (schema : Schema) : Option Nat :=
  schema.primaryKey.bind fun key => schema.columns.findIdx? (fun column => column.name == key)

theorem findPrimaryKey_eq (schema : Schema) :
    findPrimaryKey schema =
      { schema with primaryKeyIndex := ((keyPosition schema).map Int.ofNat).getD schema.primaryKeyIndex } := by
  obtain ⟨tableName, columns, primaryKey, primaryKeyIndex, autoincrement⟩ := schema
  cases primaryKey with
  | none => rfl
  | some key =>
    cases hfind : columns.findIdx? (fun column => column.name == key) with
    | none => simp [findPrimaryKey, keyPosition, hfind]
    | some position => simp [findPrimaryKey, keyPosition, hfind]

theorem keyPosition_findPrimaryKey (schema : Schema) :
    keyPosition (findPrimaryKey schema) = keyPosition schema := by
  rw [findPrimaryKey_eq]
  rfl

theorem keyPosition_spec {schema : Schema} {position : Nat} (h : keyPosition schema = some position) :
    ∃ column, schema.columns[position]? = some column ∧ schema.primaryKey = some column.name := by
  obtain ⟨key, hkey, hfind⟩ := Option.bind_eq_some_iff.mp h
  obtain ⟨hlt, hname, -⟩ := List.findIdx?_eq_some_iff_getElem.mp hfind
  refine ⟨schema.columns[position], List.getElem?_eq_getElem hlt, ?_⟩
  rw [hkey, eq_of_beq hname]

theorem keyPosition_isSome {schema : Schema} {column : ColumnDef} (hmem : column ∈ schema.columns)
    (hkey : schema.primaryKey = some column.name) : ∃ position, keyPosition schema = some position := by
  cases hposition : keyPosition schema with
  | some position => exact ⟨position, rfl⟩
  | none =>
    rw [keyPosition, hkey, Option.bind_some, List.findIdx?_eq_none_iff] at hposition
    exact absurd (hposition column hmem) (by simp)

/-! ## Whole files -/

/-- What the lines of a file make of the empty schema. -/
structure Said (tableName : Bytes) (lines : List Bytes) (schema : Schema) : Prop where
  tableName : schema.tableName = (lastValue tableKey lines).getD tableName
  columns : (lastValue columnsKey lines = none ∧ schema.columns = []) ∨
    ∃ value, lastValue columnsKey lines = some value ∧ parseColumns value = .ok schema.columns
  primaryKey : schema.primaryKey = lastValue pkeyKey lines
  autoincrement : schema.autoincrement =
    ((lastValue autoincrementKey lines).map fun value => decide (value = ascii "true")).getD false
  found : ∀ position, keyPosition schema = some position → schema.primaryKeyIndex = position

theorem said_nil (tableName : Bytes) : Said tableName [] (.empty tableName) where
  tableName := rfl
  columns := .inl ⟨rfl, rfl⟩
  primaryKey := rfl
  autoincrement := rfl
  found := by
    intro position h
    cases h

/-- One line more. -/
theorem Said.line {tableName : Bytes} {lines : List Bytes} {schema next : Schema} {line : Bytes}
    (h : Said tableName lines schema) (hline : schemaLine schema line = some (.ok next)) :
    Said tableName (lines ++ [line]) next := by
  rcases schemaLine_eq schema line with ⟨-, hentry, hsame⟩ | ⟨-, -, hnone⟩ | ⟨key, value, hentry, heq⟩
  · rw [hsame] at hline
    cases hline
    have hnone : ∀ key, lastValue key (lines ++ [line]) = lastValue key lines := by
      intro key
      rw [lastValue_concat, entryValue, hentry, Option.bind_none, Option.none_or]
    constructor
    · rw [hnone, h.tableName]
    · rw [hnone]
      exact h.columns
    · rw [hnone, h.primaryKey]
    · rw [hnone, h.autoincrement]
    · exact h.found
  · rw [hnone] at hline
    cases hline
  · rw [heq] at hline
    cases hset : setKey schema key value with
    | error e =>
      rw [hset] at hline
      cases hline
    | ok set =>
      rw [hset] at hline
      cases hline
      have hsets := setKey_sets hset
      have hlast : ∀ other, lastValue other (lines ++ [line]) =
          if key = other then some value else lastValue other lines := by
        intro other
        rw [lastValue_concat, entryValue_some hentry]
        split <;> rfl
      rw [findPrimaryKey_eq]
      constructor
      · rw [hlast, hsets.tableName, h.tableName]
        split <;> rfl
      · rw [hlast]
        have hcolumns := hsets.columns
        split at hcolumns
        · rename_i hkey
          exact .inr ⟨value, if_pos hkey, hcolumns⟩
        · rename_i hkey
          simp only [if_neg hkey, hcolumns]
          exact h.columns
      · rw [hlast, hsets.primaryKey, h.primaryKey]
      · rw [hlast, hsets.autoincrement, h.autoincrement]
        split <;> rfl
      · intro position hposition
        have hposition : keyPosition set = some position := hposition
        simp [hposition]

theorem setLines_append (schema : Schema) (lines later : List Bytes) :
    setLines schema (lines ++ later) =
      andThen (setLines schema lines) fun schema => setLines schema later := by
  induction lines generalizing schema with
  | nil => rfl
  | cons line lines ih =>
    rw [List.cons_append, setLines, setLines]
    rcases schemaLine schema line with _ | e | next
    · rfl
    · rfl
    · exact ih next

theorem setLines_concat_ok {lines : List Bytes} {line : Bytes} {schema next : Schema} :
    setLines schema (lines ++ [line]) = some (.ok next) ↔
      ∃ before, setLines schema lines = some (.ok before) ∧ schemaLine before line = some (.ok next) := by
  simp only [setLines_append, andThen_ok_iff, setLines, Option.some.injEq, Except.ok.injEq,
    exists_eq_right]

theorem said_of_lines {tableName : Bytes} {lines : List Bytes} {schema : Schema}
    (h : setLines (.empty tableName) lines = some (.ok schema)) : Said tableName lines schema := by
  induction lines using List.reverseRecOn generalizing schema with
  | nil =>
    cases h
    exact said_nil tableName
  | append_singleton lines line ih =>
    obtain ⟨before, hbefore, hline⟩ := setLines_concat_ok.mp h
    exact (ih hbefore).line hline

/-- The position in a schema is the position of its primary key. -/
def Schema.Consistent (schema : Schema) : Prop :=
  0 ≤ schema.primaryKeyIndex ∧ schema.primaryKeyIndex < schema.columnCount ∧
    ∃ column, schema.columns[schema.primaryKeyIndex.toNat]? = some column ∧
      schema.primaryKey = some column.name

/-- The last `pkey` of a text is the name of one of the last `columns`. -/
def KeyAmongColumns (text : Bytes) : Prop :=
  ∃ key value columns, lastValue pkeyKey (textLines text) = some key ∧
    lastValue columnsKey (textLines text) = some value ∧ parseColumns value = .ok columns ∧
    ∃ column ∈ columns, column.name = key

/-- **When a loaded schema is consistent.** For every text that `load_schema`
accepts and whose position passes the check of `table_state_load`, the position is
that of the primary key, and every access to the key of a row stays within the row,
if and only if the last `pkey` is among the last `columns`. -/
theorem loadSchema_consistent_iff {tableName text : Bytes} {schema : Schema}
    (hload : loadSchema tableName text = some (.ok schema)) (hcheck : 0 ≤ schema.primaryKeyIndex) :
    (schema.Consistent ∧ ∀ row : Row, row.length = schema.columnCount →
      ∃ field, row[schema.primaryKeyIndex.toNat]? = some field) ↔ KeyAmongColumns text := by
  obtain ⟨hlines, hne⟩ := loadSchema_lines.mp hload
  have hsaid := said_of_lines hlines
  obtain ⟨value, hvalue, hcolumns⟩ : ∃ value, lastValue columnsKey (textLines text) = some value ∧
      parseColumns value = .ok schema.columns :=
    hsaid.columns.resolve_left fun h => hne h.2
  constructor
  · rintro ⟨⟨-, -, column, hcolumn, hkey⟩, -⟩
    refine ⟨column.name, value, schema.columns, ?_, hvalue, hcolumns, column,
      List.mem_of_getElem? hcolumn, rfl⟩
    rw [← hsaid.primaryKey, hkey]
  · rintro ⟨key, value', columns, hkey, hvalue', hparse, column, hmem, rfl⟩
    obtain rfl : value' = value := Option.some.inj (hvalue'.symm.trans hvalue)
    obtain rfl : columns = schema.columns := Except.ok.inj (hparse.symm.trans hcolumns)
    obtain ⟨position, hposition⟩ := keyPosition_isSome hmem (hsaid.primaryKey.trans hkey)
    obtain ⟨named, hnamed, hname⟩ := keyPosition_spec hposition
    have hlt := (List.getElem?_eq_some_iff.mp hnamed).1
    have hindex := hsaid.found position hposition
    rw [Schema.Consistent, hindex, Schema.columnCount, Int.toNat_natCast]
    refine ⟨⟨by omega, by omega, named, hnamed, hname⟩, fun row hrow => ?_⟩
    exact ⟨_, List.getElem?_eq_getElem (by omega)⟩

theorem loadSchema_consistent_users : ∃ schema,
    loadSchema (ascii "users") (ascii "pkey=id\ntable=users\ncolumns=name:string,id:int\n") =
      some (.ok schema) ∧ schema.Consistent := by
  have hload : loadSchema (ascii "users") (ascii "pkey=id\ntable=users\ncolumns=name:string,id:int\n") =
      some (.ok ⟨ascii "users", [⟨ascii "name", .string⟩, ⟨ascii "id", .int⟩], some (ascii "id"), 1,
        false⟩) := by
    decide +kernel
  refine ⟨_, hload, ((loadSchema_consistent_iff hload (by decide)).mpr ?_).1⟩
  refine ⟨ascii "id", ascii "name:string,id:int", _, by decide +kernel, by decide +kernel,
    (by decide +kernel : parseColumns (ascii "name:string,id:int") =
      .ok [⟨ascii "name", .string⟩, ⟨ascii "id", .int⟩]), ⟨ascii "id", .int⟩, by simp, rfl⟩

/-- A second `columns` line without the primary key leaves the position of the
first one behind, here beyond the columns. -/
theorem loadSchema_stale_position : ∃ schema,
    loadSchema (ascii "t") (ascii "columns=a:int,b:int,id:int\npkey=id\ncolumns=x:int\n") =
      some (.ok schema) ∧ 0 ≤ schema.primaryKeyIndex ∧ ¬ schema.Consistent ∧
      ∃ row : Row, row.length = schema.columnCount ∧ row[schema.primaryKeyIndex.toNat]? = none := by
  refine ⟨⟨ascii "t", [⟨ascii "x", .int⟩], some (ascii "id"), 2, false⟩, by decide +kernel,
    by decide, ?_, [ascii "5"], rfl, rfl⟩
  rintro ⟨-, hlt, -⟩
  exact absurd hlt (by decide)

end MiniSql.Storage
