import MiniSql.Query.Derivations

/-!
# Queries as text

Which queries SQL text can express, and a text for each of them. A value is written
between single quotes, between double quotes if it holds a single quote, and without
quotes if it holds both; a value that holds both and cannot stand without quotes cannot
be written at all, since the parser knows no escapes.
-/

namespace MiniSql.Query

/-! ## Writing a query -/

def valueText (value : Bytes) : Bytes :=
  if singleQuote ∉ value then singleQuote :: value ++ [singleQuote]
  else if doubleQuote ∉ value then doubleQuote :: value ++ [doubleQuote]
  else value

def valuesText : List Bytes → Bytes
  | [] => []
  | [value] => valueText value ++ ascii ")"
  | value :: values => valueText value ++ (ascii "," ++ valuesText values)

def conditionText : Option Condition → Bytes
  | none => []
  | some condition =>
    ascii " WHERE " ++ condition.column ++ ascii "=" ++ valueText condition.value

def queryText (query : Query) : Bytes :=
  match query.type with
  | .select => ascii "SELECT * FROM " ++ query.tableName.getD [] ++ conditionText query.condition
  | .insert =>
    ascii "INSERT INTO " ++ query.tableName.getD [] ++ ascii " VALUES(" ++ valuesText query.values

/-! ## What can be written -/

/-- A table or column name. -/
def IsName (name : Bytes) : Prop := name ≠ [] ∧ ∀ c ∈ name, isIdentifierChar c = true

def Bare (value : Bytes) : Prop :=
  (∀ c ∈ value, c ≠ comma ∧ c ≠ 0x29 ∧ c ≠ 0x3b ∧ isspace c = false) ∧
    peek value ≠ singleQuote ∧ peek value ≠ doubleQuote

structure Writable (value : Bytes) : Prop where
  nonempty : value ≠ []
  nulFree : 0 ∉ value
  quotable : singleQuote ∉ value ∨ doubleQuote ∉ value ∨ Bare value

/-- The queries that some text expresses. -/
inductive Expressible : Query → Prop
  | select {table : Bytes} (name : IsName table) : Expressible ⟨.select, some table, [], none⟩
  | selectWhere {table column value : Bytes} (name : IsName table) (key : IsName column)
      (writable : Writable value) : Expressible ⟨.select, some table, [], some ⟨column, value⟩⟩
  | insert {table : Bytes} {values : List Bytes} (name : IsName table) (nonempty : values ≠ [])
      (writable : ∀ value ∈ values, Writable value) : Expressible ⟨.insert, some table, values, none⟩

/-! ## The text is a statement -/

theorem Writable.valueText {value : Bytes} (h : Writable value) : ValueText (valueText value) value := by
  unfold Query.valueText
  split
  · rename_i hsingle
    exact .quoted (.inl rfl) h.nonempty hsingle
  · rename_i hsingle
    split
    · rename_i hdouble
      exact .quoted (.inr rfl) h.nonempty hdouble
    · rename_i hdouble
      obtain ⟨hfree, hfirst⟩ := (h.quotable.resolve_left hsingle).resolve_left hdouble
      exact .bare h.nonempty hfree hfirst

theorem value_of_writable {value : Bytes} (h : Writable value) (rest : Bytes) :
    Value (valueText value ++ rest) value rest :=
  ⟨[], valueText value, rfl, List.forall_mem_nil _, h.valueText⟩

theorem items_of_writable {values : List Bytes} (hne : values ≠ [])
    (hwritable : ∀ value ∈ values, Writable value) :
    ∃ items, Items (valuesText values) items [] ∧ items.map Item.value = values := by
  induction values with
  | nil => exact absurd rfl hne
  | cons value values ih =>
    have hvalue := hwritable value List.mem_cons_self
    cases values with
    | nil => exact ⟨_, .last (value_of_writable hvalue _) ⟨[], rfl, List.forall_mem_nil _⟩, rfl⟩
    | cons next values =>
      obtain ⟨items, hitems, hmap⟩ := ih (List.cons_ne_nil _ _)
        fun later hlater => hwritable later (List.mem_cons_of_mem _ hlater)
      refine ⟨_, .more (value_of_writable hvalue _) ⟨[], rfl, List.forall_mem_nil _⟩ hitems, ?_⟩
      rw [List.map_cons, hmap]

theorem spaces_nil : Spaces [] := List.forall_mem_nil _

theorem spaces_one : Spaces (ascii " ") := by
  intro c hc
  rw [List.mem_singleton.mp hc]
  rfl

/-- A SELECT up to its condition. -/
theorem select_start {table : Bytes} (hname : IsName table) (rest : Bytes)
    (hrest : isIdentifierChar (peek rest) = false) :
    Keyword (ascii "select") (ascii "SELECT * FROM " ++ table ++ rest) (ascii " * FROM " ++ table ++ rest) ∧
    Symbol 0x2a (ascii " * FROM " ++ table ++ rest) (ascii " FROM " ++ table ++ rest) ∧
    Keyword (ascii "from") (ascii " FROM " ++ table ++ rest) (ascii " " ++ table ++ rest) ∧
    Ident (ascii " " ++ table ++ rest) table rest :=
  ⟨⟨[], ascii "SELECT", rfl, spaces_nil, rfl, rfl⟩, ⟨ascii " ", rfl, spaces_one⟩,
    ⟨ascii " ", ascii "FROM", rfl, spaces_one, rfl, rfl⟩,
    ⟨ascii " ", rfl, spaces_one, hname.1, hname.2, hrest⟩⟩

/-- An INSERT up to its values. -/
theorem insert_start {table : Bytes} (hname : IsName table) (rest : Bytes) :
    Keyword (ascii "insert") (ascii "INSERT INTO " ++ table ++ (ascii " VALUES(" ++ rest))
      (ascii " INTO " ++ table ++ (ascii " VALUES(" ++ rest)) ∧
    Keyword (ascii "into") (ascii " INTO " ++ table ++ (ascii " VALUES(" ++ rest))
      (ascii " " ++ table ++ (ascii " VALUES(" ++ rest)) ∧
    Ident (ascii " " ++ table ++ (ascii " VALUES(" ++ rest)) table (ascii " VALUES(" ++ rest) ∧
    Keyword (ascii "values") (ascii " VALUES(" ++ rest) (ascii "(" ++ rest) ∧
    Symbol 0x28 (ascii "(" ++ rest) rest :=
  ⟨⟨[], ascii "INSERT", rfl, spaces_nil, rfl, rfl⟩, ⟨ascii " ", ascii "INTO", rfl, spaces_one, rfl, rfl⟩,
    ⟨ascii " ", rfl, spaces_one, hname.1, hname.2, rfl⟩,
    ⟨ascii " ", ascii "VALUES", rfl, spaces_one, rfl, rfl⟩, ⟨[], rfl, spaces_nil⟩⟩

theorem where_of_writable {column value : Bytes} (hkey : IsName column) (hwritable : Writable value) :
    ∃ w : WhereTree, w.Derives (conditionText (some ⟨column, value⟩)) ∧ w.column = column ∧
      w.value = value ∧ w.afterValue = [] := by
  have hvalue := value_of_writable hwritable []
  rw [List.append_nil] at hvalue
  refine ⟨⟨ascii " " ++ column ++ (ascii "=" ++ valueText value), column, ascii "=" ++ valueText value,
    valueText value, value, []⟩, ⟨?_, ?_, ⟨[], rfl, spaces_nil⟩, hvalue⟩, rfl, rfl, rfl⟩
  · refine ⟨ascii " ", ascii "WHERE", ?_, spaces_one, rfl, rfl⟩
    simp only [conditionText, List.append_assoc]
    rfl
  · exact ⟨ascii " ", rfl, spaces_one, hkey.1, hkey.2, rfl⟩

theorem Expressible.accepts {query : Query} (h : Expressible query) : Accepts (queryText query) query := by
  cases h with
  | select hname =>
    obtain ⟨hselect, hstar, hfrom, htable⟩ := select_start hname [] rfl
    exact ⟨.select ⟨_, _, _, _, _, none, false⟩, ⟨hselect, hstar, hfrom, htable, spaces_nil⟩, rfl⟩
  | @selectWhere table column value hname hkey hwritable =>
    obtain ⟨w, hwhere, hcolumn, hvalue, hafter⟩ := where_of_writable hkey hwritable
    obtain ⟨hselect, hstar, hfrom, htable⟩ :=
      select_start hname (conditionText (some ⟨column, value⟩)) rfl
    refine ⟨.select ⟨_, _, _, _, _, some w, false⟩, ⟨hselect, hstar, hfrom, htable, hwhere, ?_⟩, ?_⟩
    · rw [hafter]
      exact spaces_nil
    · rw [Tree.query, Option.map_some, hcolumn, hvalue]
  | insert hname hne hwritable =>
    obtain ⟨items, hitems, hmap⟩ := items_of_writable hne hwritable
    obtain ⟨hinsert, hinto, htable, hvalues, hopen⟩ := insert_start hname (valuesText _)
    refine ⟨.insert ⟨_, _, _, _, _, _, items, [], false⟩,
      ⟨?_, hinto, htable, hvalues, hopen, hitems, spaces_nil⟩, ?_⟩
    · simpa only [queryText, Option.getD_some, List.append_assoc] using hinsert
    · rw [Tree.query, hmap]

theorem IsName.nulFree {name : Bytes} (h : IsName name) : 0 ∉ name := by
  intro hzero
  cases h.2 0 hzero

theorem valueText_nulFree {value : Bytes} (h : 0 ∉ value) : 0 ∉ valueText value := by
  unfold valueText
  split
  · simp [h, singleQuote]
  · split
    · simp [h, doubleQuote]
    · exact h

theorem valuesText_nulFree {values : List Bytes} (h : ∀ value ∈ values, 0 ∉ value) :
    0 ∉ valuesText values := by
  fun_induction valuesText values with
  | case1 => exact List.not_mem_nil
  | case2 value =>
    exact List.not_mem_append (valueText_nulFree (h value (List.mem_singleton_self _))) (by decide)
  | case3 value values hmore ih =>
    have hvalues := ih fun later hlater => h later (List.mem_cons_of_mem _ hlater)
    exact List.not_mem_append (valueText_nulFree (h value List.mem_cons_self))
      (List.not_mem_append (by decide) hvalues)

theorem Expressible.nulFree {query : Query} (h : Expressible query) : 0 ∉ queryText query := by
  cases h with
  | select hname =>
    exact List.not_mem_append (List.not_mem_append (by decide) hname.nulFree) List.not_mem_nil
  | selectWhere hname hkey hwritable =>
    have hcondition := List.not_mem_append (List.not_mem_append
      (List.not_mem_append (show 0 ∉ ascii " WHERE " by decide) hkey.nulFree)
      (show 0 ∉ ascii "=" by decide)) (valueText_nulFree hwritable.nulFree)
    exact List.not_mem_append (List.not_mem_append (by decide) hname.nulFree) hcondition
  | insert hname hne hwritable =>
    have hvalues := valuesText_nulFree fun value hvalue => (hwritable value hvalue).nulFree
    exact List.not_mem_append (List.not_mem_append
      (List.not_mem_append (by decide) hname.nulFree) (by decide)) hvalues

/-! ## Nothing else can be written -/

theorem writable_of_text {text value : Bytes} (h : ValueText text value) (hnul : 0 ∉ text) :
    Writable value := by
  cases h with
  | @quoted quote body hquote hne hinside =>
    refine ⟨hne, ?_, ?_⟩
    · intro hzero
      apply hnul
      simp [hzero]
    · rcases hquote with rfl | rfl
      · exact .inl hinside
      · exact .inr (.inl hinside)
  | bare hne hfree hfirst => exact ⟨hne, hnul, .inr (.inr ⟨hfree, hfirst⟩)⟩

theorem writable_of_value {s value rest : Bytes} (h : Value s value rest) (hnul : 0 ∉ s) :
    Writable value := by
  obtain ⟨ws, text, rfl, -, htext⟩ := h
  apply writable_of_text htext
  intro hzero
  apply hnul
  simp [hzero]

theorem name_of_ident {s name rest : Bytes} (h : Ident s name rest) : IsName name := by
  obtain ⟨ws, -, -, hne, hchars, -⟩ := h
  exact ⟨hne, hchars⟩

theorem writable_of_items {s rest : Bytes} {items : List Item} (h : Items s items rest) (hnul : 0 ∉ s) :
    items.map Item.value ≠ [] ∧ ∀ value ∈ items.map Item.value, Writable value := by
  refine ⟨by cases h <;> exact List.cons_ne_nil _ _, ?_⟩
  induction h with
  | last hvalue hclose =>
    intro value hmem
    rw [List.mem_singleton.mp hmem]
    exact writable_of_value hvalue hnul
  | more hvalue hmark _ ih =>
    intro value hmem
    rcases List.mem_cons.mp hmem with rfl | hmem
    · exact writable_of_value hvalue hnul
    · exact ih (hmark.nulFree (hvalue.nulFree hnul)) value hmem

theorem Accepts.expressible {s : Bytes} {query : Query} (h : Accepts s query) (hnul : 0 ∉ s) :
    Expressible query := by
  obtain ⟨tree, htree, rfl⟩ := h
  cases tree with
  | select t =>
    obtain ⟨hselect, hstar, hfrom, htable, hcondition⟩ := htree
    have hname := name_of_ident htable
    rw [Tree.query]
    cases hw : t.condition with
    | none => exact .select hname
    | some w =>
      rw [hw] at hcondition
      obtain ⟨⟨hwhere, hcolumn, hequals, hvalue⟩, -⟩ := hcondition
      have hclean := htable.nulFree (hfrom.nulFree (hstar.nulFree (hselect.nulFree hnul)))
      exact .selectWhere hname (name_of_ident hcolumn)
        (writable_of_value hvalue (hequals.nulFree (hcolumn.nulFree (hwhere.nulFree hclean))))
  | insert t =>
    obtain ⟨hinsert, hinto, htable, hvalues, hopen, hitems, -⟩ := htree
    have hclean := hopen.nulFree
      (hvalues.nulFree (htable.nulFree (hinto.nulFree (hinsert.nulFree hnul))))
    obtain ⟨hne, hwritable⟩ := writable_of_items hitems hclean
    exact .insert (name_of_ident htable) hne hwritable

/-- **What SQL text can express.** A query is the meaning of some text exactly if its
names are made of identifier characters and its values are not empty and can be quoted,
or stand without quotes. The parser gives back each such query from the text that
`queryText` writes for it. -/
theorem parse_queryText (query : Query) :
    ((∃ s, 0 ∉ s ∧ parseSqlText s .zero = (query, .ok ())) ↔ Expressible query) ∧
    (Expressible query →
      0 ∉ queryText query ∧ parseSqlText (queryText query) .zero = (query, .ok ())) := by
  have hwrite : Expressible query →
      0 ∉ queryText query ∧ parseSqlText (queryText query) .zero = (query, .ok ()) := by
    intro h
    exact ⟨h.nulFree, (accepts_parse_iff h.nulFree query).mp h.accepts⟩
  refine ⟨⟨?_, fun h => ⟨queryText query, hwrite h⟩⟩, hwrite⟩
  rintro ⟨s, hnul, hparse⟩
  exact ((accepts_parse_iff hnul query).mpr hparse).expressible hnul

/-- A value with both quotes and a comma cannot be written. -/
example : ¬ Writable (ascii "a'b\",c") := by
  rintro ⟨-, -, hsingle | hdouble | ⟨hfree, -⟩⟩
  · exact hsingle (by decide)
  · exact hdouble (by decide)
  · exact (hfree comma (by decide)).1 rfl

end MiniSql.Query
