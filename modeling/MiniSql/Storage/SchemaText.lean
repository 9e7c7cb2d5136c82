import MiniSql.Storage.SchemaLines

/-!
# The order of the lines, and the column list

If no key that `load_schema` knows is given twice, the lines of a schema file may
stand in any order. A list of columns that is written as `name:type` entries is
read back as it was.
-/

namespace MiniSql.Storage

/-! ## Accepted lines -/

/-- A line that is accepted: blank, or an entry whose columns, if it gives any,
can be parsed. -/
def LineOk (line : Bytes) : Prop :=
  (lineEntry line = none → trimInPlace line = []) ∧
    ∀ value, entryValue columnsKey line = some value → ∃ columns, parseColumns value = .ok columns

theorem schemaLine_ok_iff (schema : Schema) (line : Bytes) :
    (∃ next, schemaLine schema line = some (.ok next)) ↔ LineOk line := by
  rcases schemaLine_eq schema line with ⟨hblank, hentry, hsame⟩ | ⟨hne, hentry, hnone⟩ |
    ⟨key, value, hentry, heq⟩
  · simp [LineOk, entryValue, hentry, hblank, hsame]
  · simp [LineOk, hentry, hne, hnone]
  · have hset : (∃ next, schemaLine schema line = some (.ok next)) ↔
        ∃ next, setKey schema key value = .ok next := by
      rw [heq]
      cases setKey schema key value <;> simp [Except.map]
    rw [hset, setKey_ok_iff, LineOk, entryValue_some hentry]
    simp [hentry]

theorem lines_ok_iff (lines : List Bytes) (schema : Schema) :
    (∃ next, setLines schema lines = some (.ok next)) ↔ ∀ line ∈ lines, LineOk line := by
  induction lines using List.reverseRecOn with
  | nil => simp [setLines]
  | append_singleton lines line ih =>
    simp only [setLines_concat_ok]
    constructor
    · rintro ⟨next, before, hbefore, hline⟩
      intro other hother
      rcases List.mem_append.mp hother with hother | hother
      · exact ih.mp ⟨before, hbefore⟩ other hother
      · rw [List.mem_singleton.mp hother]
        exact (schemaLine_ok_iff before line).mp ⟨next, hline⟩
    · intro h
      obtain ⟨before, hbefore⟩ := ih.mpr fun other hother => h other (List.mem_append_left _ hother)
      obtain ⟨next, hnext⟩ := (schemaLine_ok_iff before line).mpr (h line (by simp))
      exact ⟨next, before, hbefore, hnext⟩

/-! ## Lines without `=` -/

/-- A line that `load_schema` can take apart: it is blank, or has a `=`. -/
def HasEntry (line : Bytes) : Prop := lineEntry line = none → trimInPlace line = []

/-- No line without `=` is reached: every such line stands behind one that is refused. -/
def LinesReadable : List Bytes → Prop
  | [] => True
  | line :: lines => HasEntry line ∧ (LineOk line → LinesReadable lines)

theorem schemaLine_defined_iff (schema : Schema) (line : Bytes) :
    schemaLine schema line ≠ none ↔ HasEntry line := by
  rcases schemaLine_eq schema line with ⟨hblank, hentry, hsame⟩ | ⟨hne, hentry, hnone⟩ |
    ⟨key, value, hentry, heq⟩
  · simp [HasEntry, hblank, hsame]
  · simp [HasEntry, hentry, hne, hnone]
  · simp [HasEntry, hentry, heq]

theorem setLines_defined_iff (schema : Schema) (lines : List Bytes) :
    setLines schema lines ≠ none ↔ LinesReadable lines := by
  induction lines generalizing schema with
  | nil => simp [setLines, LinesReadable]
  | cons line lines ih =>
    rw [setLines, andThen_defined_iff, schemaLine_defined_iff, LinesReadable, ← schemaLine_ok_iff schema line]
    simp only [ih, forall_exists_index]

/-- `load_schema` has a result exactly if no line without `=` is reached. -/
theorem loadSchema_defined_iff (tableName text : Bytes) :
    loadSchema tableName text ≠ none ↔ LinesReadable (textLines text) := by
  rw [loadSchema_eq, andThen_defined_iff, setLines_defined_iff]
  simp

/-! ## Keys that are given once -/

/-- The keys of `load_schema`. -/
def knownKeys : List Bytes := [tableKey, columnsKey, pkeyKey, autoincrementKey]

theorem valuesOf_concat (key : Bytes) (lines : List Bytes) (line : Bytes) :
    valuesOf key (lines ++ [line]) = valuesOf key lines ++ (entryValue key line).toList := by
  cases h : entryValue key line <;> simp [valuesOf, h]

theorem lastValue_eq_none {key : Bytes} {lines : List Bytes} (h : valuesOf key lines = []) :
    lastValue key lines = none := by
  rw [lastValue, h]
  rfl

/-- The position after lines that give the columns and the key at most once: no
lookup before the last one has found anything. -/
theorem index_of_once {tableName : Bytes} {lines : List Bytes} {schema : Schema}
    (h : setLines (.empty tableName) lines = some (.ok schema))
    (hcolumns : (valuesOf columnsKey lines).length ≤ 1) (hpkey : (valuesOf pkeyKey lines).length ≤ 1) :
    schema.primaryKeyIndex = ((keyPosition schema).map Int.ofNat).getD (-1) := by
  induction lines using List.reverseRecOn generalizing schema with
  | nil =>
    cases h
    rfl
  | append_singleton lines line ih =>
    obtain ⟨before, hbefore, hline⟩ := setLines_concat_ok.mp h
    rw [valuesOf_concat, List.length_append] at hcolumns hpkey
    have ih := ih hbefore (by omega) (by omega)
    rcases schemaLine_eq before line with ⟨-, -, hsame⟩ | ⟨-, -, hnone⟩ | ⟨key, value, hentry, heq⟩
    · rw [hsame] at hline
      cases hline
      exact ih
    · rw [hnone] at hline
      cases hline
    · rw [heq] at hline
      cases hset : setKey before key value with
      | error e =>
        rw [hset] at hline
        cases hline
      | ok set =>
        rw [hset] at hline
        cases hline
        have hsaid := said_of_lines hbefore
        have hsets := setKey_sets hset
        rw [entryValue_some hentry] at hcolumns hpkey
        -- A lookup that failed left the position at -1, and one that did not is repeated.
        have hold : keyPosition set = none → keyPosition before = none := by
          intro hnone
          by_cases hkey : key = columnsKey
          · rw [if_pos hkey] at hcolumns
            have hnil : valuesOf columnsKey lines = [] := by
              apply List.eq_nil_of_length_eq_zero
              simp only [Option.toList_some, List.length_singleton] at hcolumns
              omega
            rcases hsaid.columns with ⟨-, hempty⟩ | ⟨value, hvalue, -⟩
            · cases hk : before.primaryKey <;> simp [keyPosition, hempty, hk]
            · rw [lastValue_eq_none hnil] at hvalue
              cases hvalue
          · by_cases hkey' : key = pkeyKey
            · rw [if_pos hkey'] at hpkey
              have hnil : valuesOf pkeyKey lines = [] := by
                apply List.eq_nil_of_length_eq_zero
                simp only [Option.toList_some, List.length_singleton] at hpkey
                omega
              rw [keyPosition, hsaid.primaryKey, lastValue_eq_none hnil]
              rfl
            · have hsame := hsets.columns
              rw [if_neg hkey] at hsame
              rwa [keyPosition, hsame, hsets.primaryKey, if_neg hkey'] at hnone
        rw [keyPosition_findPrimaryKey, findPrimaryKey_eq]
        cases hposition : keyPosition set with
        | some position => rfl
        | none =>
          change set.primaryKeyIndex = -1
          rw [hsets.primaryKeyIndex, ih, hold hposition]
          rfl

theorem perm_eq_of_length_le_one {α : Type} {xs ys : List α} (h : xs.Perm ys) (hlen : xs.length ≤ 1) :
    xs = ys := by
  match xs, hlen with
  | [], _ => exact (List.nil_perm.mp h).symm
  | [x], _ => exact List.singleton_perm.mp h

section

variable {tableName : Bytes} {lines lines' : List Bytes} (hperm : lines.Perm lines')
  (honce : ∀ key ∈ knownKeys, (valuesOf key lines).length ≤ 1)
include hperm honce

theorem valuesOf_perm {key : Bytes} (hkey : key ∈ knownKeys) :
    valuesOf key lines = valuesOf key lines' :=
  perm_eq_of_length_le_one (hperm.filterMap _) (honce key hkey)

theorem schema_perm {schema schema' : Schema}
    (h : setLines (.empty tableName) lines = some (.ok schema))
    (h' : setLines (.empty tableName) lines' = some (.ok schema')) : schema = schema' := by
  have hlast : ∀ key ∈ knownKeys, lastValue key lines = lastValue key lines' := by
    intro key hkey
    rw [lastValue, valuesOf_perm hperm honce hkey, lastValue]
  have hsaid := said_of_lines h
  have hsaid' := said_of_lines h'
  have htable : schema.tableName = schema'.tableName := by
    rw [hsaid.tableName, hsaid'.tableName, hlast _ (by decide)]
  have hcolumns : schema.columns = schema'.columns := by
    have hvalue := hlast columnsKey (by decide)
    rcases hsaid.columns with ⟨hnone, hempty⟩ | ⟨value, hsome, hparse⟩
    · rcases hsaid'.columns with ⟨-, hempty'⟩ | ⟨value', hsome', -⟩
      · rw [hempty, hempty']
      · rw [← hvalue, hnone] at hsome'
        cases hsome'
    · rcases hsaid'.columns with ⟨hnone', -⟩ | ⟨value', hsome', hparse'⟩
      · rw [← hvalue, hsome] at hnone'
        cases hnone'
      · rw [← hvalue, hsome] at hsome'
        cases hsome'
        exact Except.ok.inj (hparse.symm.trans hparse')
  have hkey : schema.primaryKey = schema'.primaryKey := by
    rw [hsaid.primaryKey, hsaid'.primaryKey, hlast _ (by decide)]
  have hauto : schema.autoincrement = schema'.autoincrement := by
    rw [hsaid.autoincrement, hsaid'.autoincrement, hlast _ (by decide)]
  have honce' : ∀ key ∈ knownKeys, (valuesOf key lines').length ≤ 1 := by
    intro key hkey
    rw [← valuesOf_perm hperm honce hkey]
    exact honce key hkey
  have hindex : schema.primaryKeyIndex = schema'.primaryKeyIndex := by
    rw [index_of_once h (honce _ (by decide)) (honce _ (by decide)),
      index_of_once h' (honce' _ (by decide)) (honce' _ (by decide)),
      keyPosition, keyPosition, hkey, hcolumns]
  cases schema
  cases schema'
  simp_all

theorem lines_commute {schema : Schema} :
    setLines (.empty tableName) lines' = some (.ok schema) ↔
      setLines (.empty tableName) lines = some (.ok schema) := by
  have hok : (∀ line ∈ lines', LineOk line) ↔ ∀ line ∈ lines, LineOk line := by
    simp only [hperm.mem_iff]
  rw [← lines_ok_iff lines' (.empty tableName), ← lines_ok_iff lines (.empty tableName)] at hok
  constructor
  · intro h'
    obtain ⟨loaded, hloaded⟩ := hok.mp ⟨schema, h'⟩
    rw [hloaded, schema_perm hperm honce hloaded h']
  · intro h
    obtain ⟨loaded, hloaded⟩ := hok.mpr ⟨schema, h⟩
    rw [hloaded, schema_perm hperm honce h hloaded]

end

/-! ## The column list -/

def ColumnType.text : ColumnType → Bytes
  | .int => ascii "int"
  | .float => ascii "float"
  | .string => ascii "string"

def equals : UInt8 := 0x3d

def columnText (column : ColumnDef) : Bytes := column.name ++ colon :: column.type.text

/-- The columns as `name:type` entries joined by commas. -/
def columnsText (columns : List ColumnDef) : Bytes := [comma].intercalate (columns.map columnText)

def columnsLine (columns : List ColumnDef) : Bytes := columnsKey ++ equals :: columnsText columns

def pkeyLine (name : Bytes) : Bytes := pkeyKey ++ equals :: name

/-- A column name that can stand in a list of columns. -/
structure PlainName (name : Bytes) : Prop where
  nonempty : name ≠ []
  trimmed : trim name = name
  noComma : comma ∉ name
  noColon : colon ∉ name
  noNewline : newline ∉ name
  noNul : 0 ∉ name

theorem takeWhile_ne {c : UInt8} {text : Bytes} (h : c ∉ text) : ∀ d ∈ text, (d != c) = true := by
  intro d hd
  rw [bne_iff_ne]
  rintro rfl
  exact h hd

theorem cutAt_append {c : UInt8} {before : Bytes} (h : c ∉ before) (rest : Bytes) :
    cutAt c (before ++ c :: rest) = some (before, rest) := by
  simp [cutAt, List.dropWhile_append_of_pos (takeWhile_ne h),
    List.takeWhile_append_of_pos (takeWhile_ne h)]

theorem cutAt_none {c : UInt8} {text : Bytes} (h : c ∉ text) : cutAt c text = none := by
  simp [cutAt, List.dropWhile_eq_nil_iff.mpr (takeWhile_ne h)]

theorem peek_append {text : Bytes} (h : text ≠ []) (rest : Bytes) : peek (text ++ rest) = peek text := by
  obtain ⟨c, text, rfl⟩ := List.exists_cons_of_ne_nil h
  rfl

/-- A text between trimmed texts is trimmed. -/
theorem trim_between {first last : Bytes} (hfirst : first ≠ []) (hlast : last ≠ [])
    (htrim : trim first = first) (htrim' : trim last = last) (middle : Bytes) :
    trim (first ++ (middle ++ last)) = first ++ (middle ++ last) := by
  apply trim_eq_self
  · rw [peek_append hfirst, ← htrim]
    exact peek_trim first
  · rw [List.reverse_append, List.reverse_append, List.append_assoc,
      peek_append (by simpa using hlast), ← htrim']
    exact peek_reverse_trim last

theorem ColumnType.text_spec (type : ColumnType) : type.text ≠ [] ∧ trim type.text = type.text ∧
    parseColumnType type.text = .ok type ∧ comma ∉ type.text ∧ newline ∉ type.text ∧ 0 ∉ type.text := by
  cases type <;> decide +kernel

theorem trim_columnText {column : ColumnDef} (h : PlainName column.name) :
    trim (columnText column) = columnText column :=
  trim_between h.nonempty (ColumnType.text_spec _).1 h.trimmed (ColumnType.text_spec _).2.1 [colon]

theorem parseColumn_columnText {column : ColumnDef} (h : PlainName column.name) :
    parseColumn (columnText column) = .ok column := by
  obtain ⟨-, htrim, hparse, -⟩ := ColumnType.text_spec column.type
  have hcut : cutAt 0x3a (columnText column) = some (column.name, column.type.text) :=
    cutAt_append h.noColon _
  have hentry : trimInPlace (columnText column) = columnText column := trim_columnText h
  have hname : trimInPlace column.name = column.name := h.trimmed
  have htype : trimInPlace column.type.text = column.type.text := htrim
  simp only [parseColumn, hentry, hcut, htype, hparse, hname]

theorem comma_notMem_columnText {column : ColumnDef} (h : PlainName column.name) :
    comma ∉ columnText column := by
  have htype := (ColumnType.text_spec column.type).2.2.2.1
  simp only [columnText, List.mem_append, List.mem_cons, not_or]
  exact ⟨h.noComma, by decide, htype⟩

theorem columnsText_singleton (column : ColumnDef) : columnsText [column] = columnText column := by
  simp [columnsText, List.intercalate]

theorem columnsText_cons (column other : ColumnDef) (columns : List ColumnDef) :
    columnsText (column :: other :: columns) =
      columnText column ++ comma :: columnsText (other :: columns) := by
  simp [columnsText, List.intercalate]

theorem columnText_ne_nil (column : ColumnDef) : columnText column ≠ [] := by
  simp [columnText]

/-- **The column list is read back.** -/
theorem parseColumns_columnsText {columns : List ColumnDef} (hne : columns ≠ [])
    (hplain : ∀ column ∈ columns, PlainName column.name) :
    parseColumns (columnsText columns) = .ok columns := by
  induction columns with
  | nil => exact absurd rfl hne
  | cons column columns ih =>
    obtain ⟨hcolumn, hplain⟩ := List.forall_mem_cons.mp hplain
    have hparse := parseColumn_columnText hcolumn
    cases columns with
    | nil =>
      rw [columnsText_singleton, parseColumns, cutAt_none (comma_notMem_columnText hcolumn)]
      simp [columnText_ne_nil, hparse]
    | cons other columns =>
      rw [columnsText_cons, parseColumns, cutAt_append (comma_notMem_columnText hcolumn)]
      simp [hparse, ih (List.cons_ne_nil other columns) hplain]

/-- A column list starts with a name and ends with a type. -/
theorem columnsText_ends {columns : List ColumnDef} (hne : columns ≠ []) :
    ∃ (column : ColumnDef) (middle : Bytes) (type : ColumnType), column ∈ columns ∧
      columnsText columns = column.name ++ (middle ++ type.text) := by
  induction columns with
  | nil => exact absurd rfl hne
  | cons column columns ih =>
    cases columns with
    | nil => exact ⟨column, [colon], column.type, by simp, columnsText_singleton column⟩
    | cons other columns =>
      obtain ⟨last, middle, type, -, htext⟩ := ih (List.cons_ne_nil other columns)
      refine ⟨column, colon :: column.type.text ++ comma :: last.name ++ middle, type, by simp, ?_⟩
      rw [columnsText_cons, htext, columnText]
      simp

theorem trim_columnsText {columns : List ColumnDef} (hne : columns ≠ [])
    (hplain : ∀ column ∈ columns, PlainName column.name) :
    columnsText columns ≠ [] ∧ trim (columnsText columns) = columnsText columns := by
  obtain ⟨column, middle, type, hmem, htext⟩ := columnsText_ends hne
  obtain ⟨htype, htrim, -⟩ := ColumnType.text_spec type
  have hname := hplain column hmem
  rw [htext]
  exact ⟨by simp [hname.nonempty], trim_between hname.nonempty htype hname.trimmed htrim middle⟩

theorem lineEntry_line {key value : Bytes} (hkey : key ≠ []) (htrim : trim key = key)
    (hfree : equals ∉ key) (hvalue : value ≠ []) (htrim' : trim value = value) :
    lineEntry (key ++ equals :: value) = some (key, value) := by
  have hline : trimInPlace (key ++ equals :: value) = key ++ equals :: value :=
    trim_between hkey hvalue htrim htrim' [equals]
  have hcut : cutAt 0x3d (key ++ equals :: value) = some (key, value) := cutAt_append hfree value
  have hfirst : trimInPlace key = key := htrim
  have hsecond : trimInPlace value = value := htrim'
  simp only [lineEntry, hline, hcut, Option.map_some, hfirst, hsecond]

/-! ## Texts of given lines -/

theorem nul_notMem_join {lines : List Bytes} (h : ∀ line ∈ lines, 0 ∉ line) :
    0 ∉ [newline].intercalate lines := by
  induction lines with
  | nil => simp [List.intercalate]
  | cons line lines ih =>
    obtain ⟨hline, hlines⟩ := List.forall_mem_cons.mp h
    cases lines with
    | nil => simpa [List.intercalate] using hline
    | cons other lines =>
      have htwo : [newline].intercalate (line :: other :: lines) =
          line ++ newline :: [newline].intercalate (other :: lines) := by simp [List.intercalate]
      rw [htwo, List.mem_append, List.mem_cons, not_or, not_or]
      exact ⟨hline, by decide, ih hlines⟩

theorem textLines_join {lines : List Bytes} (hne : lines ≠ [])
    (hfree : ∀ line ∈ lines, newline ∉ line ∧ 0 ∉ line) :
    textLines ([newline].intercalate lines) = lines := by
  rw [textLines, cString_eq_self (nul_notMem_join fun line hline => (hfree line hline).2)]
  exact List.splitOn_intercalate newline (fun line hline => (hfree line hline).1) hne

section

variable {columns : List ColumnDef} (hne : columns ≠ [])
  (hplain : ∀ column ∈ columns, PlainName column.name)
include hne hplain

theorem lineEntry_columnsLine : lineEntry (columnsLine columns) = some (columnsKey, columnsText columns) := by
  obtain ⟨htext, htrim⟩ := trim_columnsText hne hplain
  exact lineEntry_line (by decide) (by decide) (by decide) htext htrim

theorem columnsText_free : newline ∉ columnsText columns ∧ 0 ∉ columnsText columns := by
  induction columns with
  | nil => exact absurd rfl hne
  | cons column columns ih =>
    obtain ⟨hcolumn, hplain⟩ := List.forall_mem_cons.mp hplain
    obtain ⟨-, -, -, -, hnewline, hnul⟩ := ColumnType.text_spec column.type
    have hfirst : newline ∉ columnText column ∧ 0 ∉ columnText column := by
      simp only [columnText, List.mem_append, List.mem_cons, not_or]
      exact ⟨⟨hcolumn.noNewline, by decide, hnewline⟩, hcolumn.noNul, by decide, hnul⟩
    cases columns with
    | nil => rwa [columnsText_singleton]
    | cons other columns =>
      obtain ⟨hnewline', hnul'⟩ := ih (List.cons_ne_nil other columns) hplain
      simp only [columnsText_cons, List.mem_append, List.mem_cons, not_or]
      exact ⟨⟨hfirst.1, by decide, hnewline'⟩, hfirst.2, by decide, hnul'⟩

end

/-- Lines besides those of the columns and the primary key. -/
structure OtherLine (line : Bytes) : Prop where
  noNewline : newline ∉ line
  noNul : 0 ∉ line
  ok : LineOk line
  noColumns : entryValue columnsKey line = none
  noPkey : entryValue pkeyKey line = none

/-- The lines of a schema file in any order: the columns, the primary key, and
others. -/
structure Arranged (columns : List ColumnDef) (name : Bytes) (others lines : List Bytes) : Prop where
  nonempty : columns ≠ []
  plain : ∀ column ∈ columns, PlainName column.name
  named : PlainName name
  rest : ∀ line ∈ others, OtherLine line
  perm : lines.Perm (columnsLine columns :: pkeyLine name :: others)

section

variable {columns : List ColumnDef} {name : Bytes} {others lines : List Bytes}
  (h : Arranged columns name others lines)
include h

theorem Arranged.forall_line {p : Bytes → Prop} (hcolumns : p (columnsLine columns))
    (hpkey : p (pkeyLine name)) (hothers : ∀ line ∈ others, p line) : ∀ line ∈ lines, p line := by
  intro line hline
  rw [h.perm.mem_iff, List.mem_cons, List.mem_cons] at hline
  rcases hline with rfl | rfl | hline
  · exact hcolumns
  · exact hpkey
  · exact hothers line hline

theorem Arranged.columnsEntry :
    lineEntry (columnsLine columns) = some (columnsKey, columnsText columns) :=
  lineEntry_columnsLine h.nonempty h.plain

theorem Arranged.pkeyEntry : lineEntry (pkeyLine name) = some (pkeyKey, name) :=
  lineEntry_line (by decide) (by decide) (by decide) h.named.nonempty h.named.trimmed

theorem Arranged.free : ∀ line ∈ lines, newline ∉ line ∧ 0 ∉ line := by
  obtain ⟨hnewline, hnul⟩ := columnsText_free h.nonempty h.plain
  apply h.forall_line (p := fun line => newline ∉ line ∧ 0 ∉ line)
  · simp only [columnsLine, List.mem_append, List.mem_cons, not_or]
    exact ⟨⟨by decide, by decide, hnewline⟩, by decide, by decide, hnul⟩
  · simp only [pkeyLine, List.mem_append, List.mem_cons, not_or]
    exact ⟨⟨by decide, by decide, h.named.noNewline⟩, by decide, by decide, h.named.noNul⟩
  · exact fun line hline => ⟨(h.rest line hline).noNewline, (h.rest line hline).noNul⟩

theorem Arranged.ok : ∀ line ∈ lines, LineOk line := by
  apply h.forall_line (p := LineOk)
  · refine ⟨by simp [h.columnsEntry], fun value hvalue => ⟨columns, ?_⟩⟩
    rw [entryValue_some h.columnsEntry, if_pos rfl, Option.some.injEq] at hvalue
    rw [← hvalue]
    exact parseColumns_columnsText h.nonempty h.plain
  · refine ⟨by simp [h.pkeyEntry], fun value hvalue => ?_⟩
    rw [entryValue_some h.pkeyEntry, if_neg (by decide)] at hvalue
    cases hvalue
  · exact fun line hline => (h.rest line hline).ok

theorem Arranged.columnsValue : valuesOf columnsKey lines = [columnsText columns] := by
  have hothers : others.filterMap (entryValue columnsKey) = [] :=
    List.filterMap_eq_nil_iff.mpr fun line hline => (h.rest line hline).noColumns
  have hpkey : pkeyKey ≠ columnsKey := by decide
  have hperm := h.perm.symm.filterMap (entryValue columnsKey)
  simp only [List.filterMap_cons, entryValue_some h.columnsEntry, entryValue_some h.pkeyEntry,
    if_true, hpkey, if_false, hothers] at hperm
  exact (List.singleton_perm.mp hperm).symm

theorem Arranged.pkeyValue : valuesOf pkeyKey lines = [name] := by
  have hothers : others.filterMap (entryValue pkeyKey) = [] :=
    List.filterMap_eq_nil_iff.mpr fun line hline => (h.rest line hline).noPkey
  have hcolumns : columnsKey ≠ pkeyKey := by decide
  have hperm := h.perm.symm.filterMap (entryValue pkeyKey)
  simp only [List.filterMap_cons, entryValue_some h.columnsEntry, entryValue_some h.pkeyEntry,
    if_true, hcolumns, if_false, hothers] at hperm
  exact (List.singleton_perm.mp hperm).symm

/-- The schema has the columns and the primary key that were written. -/
theorem Arranged.load (tableName : Bytes) :
    ∃ schema, loadSchema tableName ([newline].intercalate lines) = some (.ok schema) ∧
      schema.columns = columns ∧ schema.primaryKey = some name ∧
      ∀ position, keyPosition schema = some position → schema.primaryKeyIndex = position := by
  obtain ⟨schema, hschema⟩ := (lines_ok_iff lines (.empty tableName)).mpr h.ok
  have hsaid := said_of_lines hschema
  have hcolumns : schema.columns = columns := by
    have hlast : lastValue columnsKey lines = some (columnsText columns) := by
      rw [lastValue, h.columnsValue]
      rfl
    rcases hsaid.columns with ⟨hnone, -⟩ | ⟨value, hvalue, hparse⟩
    · rw [hlast] at hnone
      cases hnone
    · rw [hlast, Option.some.injEq] at hvalue
      rw [← hvalue, parseColumns_columnsText h.nonempty h.plain, Except.ok.injEq] at hparse
      exact hparse.symm
  have hkey : schema.primaryKey = some name := by
    rw [hsaid.primaryKey, lastValue, h.pkeyValue]
    rfl
  have hlines : lines ≠ [] := by
    rintro rfl
    simpa using h.perm.length_eq
  refine ⟨schema, loadSchema_lines.mpr ⟨?_, hcolumns ▸ h.nonempty⟩, hcolumns, hkey, hsaid.found⟩
  rw [textLines_join hlines h.free]
  exact hschema

end

theorem findIdx?_name {columns : List ColumnDef} (hnames : (columns.map ColumnDef.name).Nodup)
    {position : Nat} {column : ColumnDef} (hcolumn : columns[position]? = some column) :
    columns.findIdx? (fun other => other.name == column.name) = some position := by
  obtain ⟨hlt, rfl⟩ := List.getElem?_eq_some_iff.mp hcolumn
  rw [List.findIdx?_eq_some_iff_getElem]
  refine ⟨hlt, by simp, fun j hj hsame => ?_⟩
  have hlt' : position < (columns.map ColumnDef.name).length := by simpa using hlt
  have heq : (columns.map ColumnDef.name)[j] = (columns.map ColumnDef.name)[position] := by
    simpa using hsame
  exact absurd (hnames.getElem_inj_iff.mp heq) (Nat.ne_of_lt hj)

/-- **Schema lines commute.** If each known key is given at most once, a text with
the same lines in another order is accepted exactly if the text itself is, with the
same schema. And a list of plain, distinct columns that is written as a `columns`
line, beside a `pkey` line with one of their names and any other lines, in any
order, is loaded as that list, with the position of the named column. -/
theorem schema_lines_commute :
    (∀ tableName text text', (textLines text).Perm (textLines text') →
      (∀ key ∈ knownKeys, (valuesOf key (textLines text)).length ≤ 1) →
      ∀ schema, loadSchema tableName text' = some (.ok schema) ↔
        loadSchema tableName text = some (.ok schema)) ∧
    ∀ tableName columns (position : Nat) column others lines, columns ≠ [] →
      (∀ column ∈ columns, PlainName column.name) → (columns.map ColumnDef.name).Nodup →
      columns[position]? = some column → (∀ line ∈ others, OtherLine line) →
      lines.Perm (columnsLine columns :: pkeyLine column.name :: others) →
      ∃ schema, loadSchema tableName ([newline].intercalate lines) = some (.ok schema) ∧
        schema.columns = columns ∧ schema.primaryKey = some column.name ∧
        schema.primaryKeyIndex = position := by
  constructor
  · intro tableName text text' hperm honce schema
    rw [loadSchema_lines, loadSchema_lines, lines_commute hperm honce]
  · intro tableName columns position column others lines hne hplain hnames hcolumn hothers hperm
    have harranged : Arranged columns column.name others lines :=
      ⟨hne, hplain, hplain column (List.mem_of_getElem? hcolumn), hothers, hperm⟩
    obtain ⟨schema, hload, hcolumns, hkey, hfound⟩ := harranged.load tableName
    refine ⟨schema, hload, hcolumns, hkey, hfound position ?_⟩
    rw [keyPosition, hkey, hcolumns]
    exact findIdx?_name hnames hcolumn

theorem schema_lines_commute_users :
    ∃ schema, loadSchema (ascii "users") (ascii "pkey=id\n\ncolumns=name:string,id:int") = some (.ok schema) ∧
      schema.primaryKeyIndex = 1 ∧
      loadSchema (ascii "users") (ascii "columns=name:string,id:int\npkey=id\n") = some (.ok schema) := by
  obtain ⟨hcommute, hcolumns⟩ := schema_lines_commute
  have hblank : OtherLine [] := by
    refine ⟨by simp, by simp, ⟨fun _ => rfl, fun value hvalue => ?_⟩, by decide, by decide⟩
    cases hvalue
  have hplain : ∀ column ∈ [⟨ascii "name", .string⟩, ⟨ascii "id", .int⟩],
      PlainName (ColumnDef.name column) := by
    intro column hcolumn
    simp only [List.mem_cons, List.not_mem_nil, or_false] at hcolumn
    rcases hcolumn with rfl | rfl
    · constructor <;> decide +kernel
    · constructor <;> decide +kernel
  obtain ⟨schema, hload, -, -, hindex⟩ := hcolumns (ascii "users")
    [⟨ascii "name", .string⟩, ⟨ascii "id", .int⟩] 1 ⟨ascii "id", .int⟩ [[]]
    [ascii "pkey=id", [], ascii "columns=name:string,id:int"] (by simp) hplain (by decide +kernel) rfl
    (by simpa using hblank) (by decide +kernel)
  refine ⟨schema, hload, by simpa using hindex, ?_⟩
  exact (hcommute _ _ _ (by decide +kernel) (by decide +kernel) schema).mpr hload

end MiniSql.Storage
