import MiniSql.Query.Tokens

/-!
# The grammar the parser accepts

A `Tree` records where every token of a statement ends, so two trees are equal
only when they cut the text in the same places. `parseSqlText_grammar` says that
the parser accepts exactly the texts with a tree, that a text has at most one,
and that the `Query` holds what the tree says.
-/

namespace MiniSql.Query

structure WhereTree where
  afterWhere : Bytes
  column : Bytes
  afterColumn : Bytes
  afterEquals : Bytes
  value : Bytes
  afterValue : Bytes

structure SelectTree where
  afterSelect : Bytes
  afterStar : Bytes
  afterFrom : Bytes
  table : Bytes
  afterTable : Bytes
  condition : Option WhereTree
  semicolon : Bool

def WhereTree.Derives (s : Bytes) (t : WhereTree) : Prop :=
  Keyword (ascii "where") s t.afterWhere ∧ Ident t.afterWhere t.column t.afterColumn ∧
    Symbol 0x3d t.afterColumn t.afterEquals ∧ Value t.afterEquals t.value t.afterValue

def SelectTree.Derives (s : Bytes) (t : SelectTree) : Prop :=
  Keyword (ascii "select") s t.afterSelect ∧ Symbol 0x2a t.afterSelect t.afterStar ∧
    Keyword (ascii "from") t.afterStar t.afterFrom ∧ Ident t.afterFrom t.table t.afterTable ∧
    match t.condition with
    | none => End t.semicolon t.afterTable
    | some w => w.Derives t.afterTable ∧ End t.semicolon w.afterValue

/-- A value of the VALUES list: the value, what follows it, and what follows
the comma or parenthesis behind it. -/
structure Item where
  value : Bytes
  afterValue : Bytes
  afterMark : Bytes

/-- Values separated by commas, up to the closing parenthesis. -/
inductive Items : Bytes → List Item → Bytes → Prop
  | last {s v afterValue rest : Bytes} (value : Value s v afterValue)
      (close : Symbol 0x29 afterValue rest) : Items s [⟨v, afterValue, rest⟩] rest
  | more {s v afterValue afterMark rest : Bytes} {items : List Item} (value : Value s v afterValue)
      (separator : Symbol comma afterValue afterMark) (next : Items afterMark items rest) :
      Items s (⟨v, afterValue, afterMark⟩ :: items) rest

structure InsertTree where
  afterInsert : Bytes
  afterInto : Bytes
  table : Bytes
  afterTable : Bytes
  afterValues : Bytes
  afterOpen : Bytes
  items : List Item
  afterItems : Bytes
  semicolon : Bool

def InsertTree.Derives (s : Bytes) (t : InsertTree) : Prop :=
  Keyword (ascii "insert") s t.afterInsert ∧ Keyword (ascii "into") t.afterInsert t.afterInto ∧
    Ident t.afterInto t.table t.afterTable ∧ Keyword (ascii "values") t.afterTable t.afterValues ∧
    Symbol 0x28 t.afterValues t.afterOpen ∧ Items t.afterOpen t.items t.afterItems ∧
    End t.semicolon t.afterItems

inductive Tree
  | select (tree : SelectTree)
  | insert (tree : InsertTree)

def Tree.Derives (s : Bytes) : Tree → Prop
  | .select t => t.Derives s
  | .insert t => t.Derives s

/-- The `Query` that a tree stands for. -/
def Tree.query : Tree → Query
  | .select t => ⟨.select, some t.table, [], t.condition.map fun w => ⟨w.column, w.value⟩⟩
  | .insert t => ⟨.insert, some t.table, t.items.map Item.value, none⟩

/-! ## SELECT -/

theorem Keyword.first {word s rest : Bytes} (hword : IsWord word) (h : Keyword word s rest) :
    tolower (peek (skipWhitespace s)) = peek word := by
  obtain ⟨ws, letters, rfl, hws, hlow, -⟩ := h
  rw [List.append_assoc, skipWhitespace_append hws (isspace_letters hword hlow)]
  cases letters with
  | nil => exact absurd hlow.symm hword.nonempty
  | cons c letters =>
    rw [← hlow]
    rfl

section

variable {s : Bytes} (hs : 0 ∉ s)
include hs

theorem end_peek {semicolon : Bool} (h : End semicolon s) :
    isIdentifierChar (peek (skipWhitespace s)) = false := by
  cases semicolon with
  | true =>
    obtain ⟨rest, hsemi, -⟩ := h
    rw [((symbol_iff (by decide) rfl).mpr hsemi).1]
    rfl
  | false =>
    rw [(peek_skipWhitespace_eq_zero hs).mpr h]
    rfl

theorem parseCondition_none {semicolon : Bool} (h : End semicolon s) :
    parseCondition s = .ok (none, s) := by
  have hnone : matchKeyword s (ascii "where") = none := by
    rw [Option.eq_none_iff_forall_ne_some]
    intro rest hrest
    have hfirst := ((matchKeyword_iff (by decide)).mp hrest).first (by decide)
    have hident := end_peek hs h
    rw [← isIdentifierChar_tolower, hfirst] at hident
    cases hident
  simp only [parseCondition, hnone]

theorem WhereTree.Derives.parseCondition {w : WhereTree} (h : w.Derives s)
    (hd : Delimited w.afterValue) :
    parseCondition s = .ok (some ⟨w.column, w.value⟩, w.afterValue) := by
  obtain ⟨hwhere, hcolumn, hequals, hvalue⟩ := h
  have hnul := hequals.nulFree (hcolumn.nulFree (hwhere.nulFree hs))
  obtain ⟨hpeek, hdrop⟩ := (symbol_iff (by decide) rfl).mpr hequals
  simp only [Query.parseCondition, (matchKeyword_iff (by decide)).mpr hwhere,
    parseIdentifier_iff.mpr hcolumn, hpeek, hdrop, parseValue_complete hnul hvalue hd, ne_eq,
    not_true, if_false]

end

theorem parseCondition_sound {s rest : Bytes} {condition : Option Condition}
    (h : parseCondition s = .ok (condition, rest)) :
    condition = none ∧ rest = s ∨
      ∃ w : WhereTree, w.Derives s ∧ condition = some ⟨w.column, w.value⟩ ∧ rest = w.afterValue := by
  unfold parseCondition at h
  split at h
  · cases h
    exact .inl ⟨rfl, rfl⟩
  · rename_i afterWhere hwhere
    split at h
    · cases h
    · rename_i column afterColumn hcolumn
      simp only at h
      split at h
      · cases h
      · rename_i hequals
        split at h
        · cases h
        · rename_i value afterValue hvalue
          cases h
          refine .inr ⟨⟨afterWhere, column, afterColumn, (skipWhitespace afterColumn).drop 1, value,
            rest⟩, ⟨?_, ?_, ?_, ?_⟩, rfl, rfl⟩
          · exact (matchKeyword_iff (by decide)).mp hwhere
          · exact parseIdentifier_iff.mp hcolumn
          · exact (symbol_iff (by decide) rfl).mp ⟨Decidable.of_not_not hequals, rfl⟩
          · exact parseValue_sound hvalue

theorem WhereTree.Derives.nulFree {s : Bytes} (hs : 0 ∉ s) {w : WhereTree} (h : w.Derives s) :
    0 ∉ w.afterValue := by
  obtain ⟨hwhere, hcolumn, hequals, hvalue⟩ := h
  exact hvalue.nulFree (hequals.nulFree (hcolumn.nulFree (hwhere.nulFree hs)))

theorem WhereTree.Derives.unique {s : Bytes} (hs : 0 ∉ s) {w w' : WhereTree} (h : w.Derives s)
    (hd : Delimited w.afterValue) (h' : w'.Derives s) (hd' : Delimited w'.afterValue) : w = w' := by
  cases w
  cases w'
  obtain ⟨hwhere, hcolumn, hequals, hvalue⟩ := h
  obtain ⟨hwhere', hcolumn', hequals', hvalue'⟩ := h'
  simp only at *
  obtain rfl := hwhere.unique (by decide) hwhere'
  obtain ⟨rfl, rfl⟩ := hcolumn.unique hcolumn'
  obtain rfl := hequals.unique (by decide) rfl hequals'
  have hnul := hequals.nulFree (hcolumn.nulFree (hwhere.nulFree hs))
  obtain ⟨rfl, rfl⟩ := hvalue.unique hnul hd hvalue' hd'
  rfl

theorem SelectTree.Derives.parseSelect {s : Bytes} (hs : 0 ∉ s) {t : SelectTree} (h : t.Derives s) :
    parseSelect s .zero = ((Tree.select t).query, .ok ()) := by
  obtain ⟨afterSelect, afterStar, afterFrom, table, afterTable, condition, semicolon⟩ := t
  obtain ⟨hselect, hstar, hfrom, htable, hcondition⟩ := h
  simp only at *
  have hnul := htable.nulFree (hfrom.nulFree (hstar.nulFree (hselect.nulFree hs)))
  obtain ⟨hpeek, hdrop⟩ := (symbol_iff (by decide) rfl).mpr hstar
  cases condition with
  | none =>
    simp [Query.parseSelect, (matchKeyword_iff (by decide)).mpr hselect, hpeek, hdrop,
      (matchKeyword_iff (by decide)).mpr hfrom, parseIdentifier_iff.mpr htable,
      parseCondition_none hnul hcondition, (hcondition.atEnd hnul).1, Tree.query, zero]
  | some w =>
    obtain ⟨hw, hend⟩ := hcondition
    simp [Query.parseSelect, (matchKeyword_iff (by decide)).mpr hselect, hpeek, hdrop,
      (matchKeyword_iff (by decide)).mpr hfrom, parseIdentifier_iff.mpr htable,
      hw.parseCondition hnul hend.delimited, (hend.atEnd (hw.nulFree hnul)).1, Tree.query,
      zero]

theorem parseSelect_sound {s : Bytes} (hs : 0 ∉ s) {query query' : Query} {u : Unit}
    (h : parseSelect s query = (query', .ok u)) : ∃ t : SelectTree, t.Derives s := by
  unfold parseSelect at h
  split at h
  · cases h
  · rename_i afterSelect hselect
    simp only at h
    split at h
    · cases h
    · rename_i hstar
      split at h
      · cases h
      · rename_i afterFrom hfrom
        split at h
        · cases h
        · rename_i table afterTable htable
          split at h
          · cases h
          · rename_i condition rest hcondition
            split at h
            · rename_i hend
              have hselect := (matchKeyword_iff (by decide)).mp hselect
              have hstar := (symbol_iff (by decide) rfl).mp ⟨Decidable.of_not_not hstar, rfl⟩
              have hfrom := (matchKeyword_iff (by decide)).mp hfrom
              have htable := parseIdentifier_iff.mp htable
              have hnul := htable.nulFree (hfrom.nulFree (hstar.nulFree (hselect.nulFree hs)))
              rcases parseCondition_sound hcondition with ⟨-, rfl⟩ | ⟨w, hw, -, rfl⟩
              · obtain ⟨semicolon, hsemi⟩ := exists_end hnul hend
                exact ⟨⟨_, _, _, _, _, none, semicolon⟩, hselect, hstar, hfrom, htable, hsemi⟩
              · obtain ⟨semicolon, hsemi⟩ := exists_end (hw.nulFree hnul) hend
                exact ⟨⟨_, _, _, _, _, some w, semicolon⟩, hselect, hstar, hfrom, htable, hw, hsemi⟩
            · cases h

theorem SelectTree.Derives.unique {s : Bytes} (hs : 0 ∉ s) {t t' : SelectTree} (h : t.Derives s)
    (h' : t'.Derives s) : t = t' := by
  have hquery := (h.parseSelect hs).symm.trans (h'.parseSelect hs)
  cases t
  cases t'
  obtain ⟨hselect, hstar, hfrom, htable, hcondition⟩ := h
  obtain ⟨hselect', hstar', hfrom', htable', hcondition'⟩ := h'
  simp only at *
  obtain rfl := hselect.unique (by decide) hselect'
  obtain rfl := hstar.unique (by decide) rfl hstar'
  obtain rfl := hfrom.unique (by decide) hfrom'
  obtain ⟨rfl, rfl⟩ := htable.unique htable'
  have hnul := htable.nulFree (hfrom.nulFree (hstar.nulFree (hselect.nulFree hs)))
  rename_i condition _ condition' _
  cases condition with
  | none =>
    cases condition' with
    | none => rw [hcondition.unique hnul hcondition']
    | some w' => simp [Tree.query] at hquery
  | some w =>
    cases condition' with
    | none => simp [Tree.query] at hquery
    | some w' =>
      obtain rfl := hcondition.1.unique hnul hcondition.2.delimited hcondition'.1
        hcondition'.2.delimited
      rw [hcondition.2.unique (hcondition.1.nulFree hnul) hcondition'.2]

/-! ## INSERT -/

theorem Items.nulFree {s rest : Bytes} {items : List Item} (hs : 0 ∉ s) (h : Items s items rest) :
    0 ∉ rest := by
  induction h with
  | last hvalue hclose => exact hclose.nulFree (hvalue.nulFree hs)
  | more hvalue hmark _ ih => exact ih (hmark.nulFree (hvalue.nulFree hs))

theorem parseValues_cons {s value rest : Bytes} (h : parseValue s = .ok (value, rest)) :
    parseValues s =
      if peek (skipWhitespace rest) = comma then
        match parseValues ((skipWhitespace rest).drop 1) with
        | .error e => .error e
        | .ok (values, cursor) => .ok (value :: values, cursor)
      else if peek (skipWhitespace rest) = 0x29 then .ok ([value], (skipWhitespace rest).drop 1)
      else .error (sqlSetError [ascii "expected ',' or ')' in VALUES list"]) := by
  rw [parseValues]
  split
  · rename_i e he
    rw [h] at he
    cases he
  · rename_i value' rest' hok
    rw [h] at hok
    cases hok
    rfl

theorem Items.parseValues {s rest : Bytes} {items : List Item} (hs : 0 ∉ s)
    (h : Items s items rest) : parseValues s = .ok (items.map Item.value, rest) := by
  induction h with
  | last hvalue hclose =>
    obtain ⟨hpeek, hdrop⟩ := (symbol_iff (by decide) rfl).mpr hclose
    rw [parseValues_cons (parseValue_complete hs hvalue (hclose.delimited rfl)), hpeek, hdrop]
    rfl
  | more hvalue hmark _ ih =>
    obtain ⟨hpeek, hdrop⟩ := (symbol_iff (by decide) rfl).mpr hmark
    rw [parseValues_cons (parseValue_complete hs hvalue (hmark.delimited rfl)), if_pos hpeek, hdrop,
      ih (hmark.nulFree (hvalue.nulFree hs))]
    rfl

theorem parseValues_sound {s rest : Bytes} {values : List Bytes}
    (h : parseValues s = .ok (values, rest)) : ∃ items, Items s items rest := by
  fun_induction Query.parseValues s generalizing values rest with
  | case1 => cases h
  | case2 => cases h
  | case3 s value afterValue hvalue hmark values' cursor hrec ih =>
    cases h
    obtain ⟨items, hitems⟩ := ih hrec
    exact ⟨_, .more (parseValue_sound hvalue) ((symbol_iff (by decide) rfl).mp ⟨hmark, rfl⟩) hitems⟩
  | case4 s value afterValue hvalue hmark hclose =>
    cases h
    exact ⟨_, .last (parseValue_sound hvalue) ((symbol_iff (by decide) rfl).mp ⟨hclose, rfl⟩)⟩
  | case5 => cases h

theorem Symbol.not_both {c c' : UInt8} {s rest rest' : Bytes} (hc : c ≠ 0) (hspace : isspace c = false)
    (hc' : c' ≠ 0) (hspace' : isspace c' = false) (h : Symbol c s rest) (h' : Symbol c' s rest') :
    c = c' :=
  ((symbol_iff hc hspace).mpr h).1.symm.trans ((symbol_iff hc' hspace').mpr h').1

theorem Items.unique {s rest rest' : Bytes} {items items' : List Item} (hs : 0 ∉ s)
    (h : Items s items rest) (h' : Items s items' rest') : items = items' ∧ rest = rest' := by
  induction h generalizing items' with
  | last hvalue hclose =>
    cases h' with
    | last hvalue' hclose' =>
      obtain ⟨rfl, rfl⟩ := hvalue.unique hs (hclose.delimited rfl) hvalue' (hclose'.delimited rfl)
      obtain rfl := hclose.unique (by decide) rfl hclose'
      exact ⟨rfl, rfl⟩
    | more hvalue' hmark' _ =>
      obtain ⟨rfl, rfl⟩ := hvalue.unique hs (hclose.delimited rfl) hvalue' (hmark'.delimited rfl)
      exact absurd (hclose.not_both (by decide) rfl (by decide) rfl hmark') (by decide)
  | more hvalue hmark _ ih =>
    cases h' with
    | last hvalue' hclose' =>
      obtain ⟨rfl, rfl⟩ := hvalue.unique hs (hmark.delimited rfl) hvalue' (hclose'.delimited rfl)
      exact absurd (hmark.not_both (by decide) rfl (by decide) rfl hclose') (by decide)
    | more hvalue' hmark' hitems' =>
      obtain ⟨rfl, rfl⟩ := hvalue.unique hs (hmark.delimited rfl) hvalue' (hmark'.delimited rfl)
      obtain rfl := hmark.unique (by decide) rfl hmark'
      obtain ⟨rfl, rfl⟩ := ih (hmark.nulFree (hvalue.nulFree hs)) hitems'
      exact ⟨rfl, rfl⟩

theorem InsertTree.Derives.parseInsert {s : Bytes} (hs : 0 ∉ s) {t : InsertTree} (h : t.Derives s) :
    ∀ type, parseInsert s ⟨type, none, [], none⟩ = ((Tree.insert t).query, .ok ()) := by
  intro type
  obtain ⟨hinsert, hinto, htable, hvalues, hopen, hitems, hend⟩ := h
  have hnul := hopen.nulFree (hvalues.nulFree (htable.nulFree (hinto.nulFree (hinsert.nulFree hs))))
  obtain ⟨hpeek, hdrop⟩ := (symbol_iff (by decide) rfl).mpr hopen
  simp [Query.parseInsert, (matchKeyword_iff (by decide)).mpr hinsert,
    (matchKeyword_iff (by decide)).mpr hinto, parseIdentifier_iff.mpr htable,
    (matchKeyword_iff (by decide)).mpr hvalues, hpeek, hdrop, hitems.parseValues hnul,
    (hend.atEnd (hitems.nulFree hnul)).1, Tree.query]

theorem parseInsert_sound {s : Bytes} (hs : 0 ∉ s) {query query' : Query} {u : Unit}
    (h : parseInsert s query = (query', .ok u)) : ∃ t : InsertTree, t.Derives s := by
  unfold parseInsert at h
  split at h
  · cases h
  · rename_i afterInsert hinsert
    split at h
    · cases h
    · rename_i afterInto hinto
      split at h
      · cases h
      · rename_i table afterTable htable
        simp only at h
        split at h
        · cases h
        · rename_i afterValues hvalues
          split at h
          · cases h
          · rename_i hopen
            split at h
            · cases h
            · rename_i values rest hitems
              split at h
              · rename_i hend
                have hinsert := (matchKeyword_iff (by decide)).mp hinsert
                have hinto := (matchKeyword_iff (by decide)).mp hinto
                have htable := parseIdentifier_iff.mp htable
                have hvalues := (matchKeyword_iff (by decide)).mp hvalues
                have hopen := (symbol_iff (by decide) rfl).mp ⟨Decidable.of_not_not hopen, rfl⟩
                have hnul := hopen.nulFree
                  (hvalues.nulFree (htable.nulFree (hinto.nulFree (hinsert.nulFree hs))))
                obtain ⟨items, hitems⟩ := parseValues_sound hitems
                obtain ⟨semicolon, hsemi⟩ := exists_end (hitems.nulFree hnul) hend
                exact ⟨⟨_, _, _, _, _, _, items, _, semicolon⟩, hinsert, hinto, htable, hvalues,
                  hopen, hitems, hsemi⟩
              · cases h

theorem InsertTree.Derives.unique {s : Bytes} (hs : 0 ∉ s) {t t' : InsertTree} (h : t.Derives s)
    (h' : t'.Derives s) : t = t' := by
  cases t
  cases t'
  obtain ⟨hinsert, hinto, htable, hvalues, hopen, hitems, hend⟩ := h
  obtain ⟨hinsert', hinto', htable', hvalues', hopen', hitems', hend'⟩ := h'
  simp only at *
  obtain rfl := hinsert.unique (by decide) hinsert'
  obtain rfl := hinto.unique (by decide) hinto'
  obtain ⟨rfl, rfl⟩ := htable.unique htable'
  obtain rfl := hvalues.unique (by decide) hvalues'
  obtain rfl := hopen.unique (by decide) rfl hopen'
  have hnul := hopen.nulFree (hvalues.nulFree (htable.nulFree (hinto.nulFree (hinsert.nulFree hs))))
  obtain ⟨rfl, rfl⟩ := hitems.unique hnul hitems'
  rw [hend.unique (hitems.nulFree hnul) hend']

/-! ## Both statements -/

theorem Keyword.not_blank {word s rest : Bytes} (hs : 0 ∉ s) (hword : IsWord word)
    (h : Keyword word s rest) : ¬ (peek s = 0 ∨ tokenizeSql s = false) := by
  obtain ⟨ws, letters, rfl, hws, hlow, -⟩ := h
  cases letters with
  | nil => exact absurd hlow.symm hword.nonempty
  | cons c letters =>
    have hc : isspace c = false := (isspace_letters hword hlow : isspace (peek (_ ++ rest)) = false)
    rintro (hpeek | hblank)
    · exact hs (hpeek ▸ peek_mem (by simp))
    · rw [tokenizeSql, cString_eq_self hs] at hblank
      simp [hc] at hblank

theorem Tree.Derives.not_blank {s : Bytes} (hs : 0 ∉ s) {t : Tree} (h : t.Derives s) :
    ¬ (peek s = 0 ∨ tokenizeSql s = false) := by
  cases t with
  | select t => exact h.1.not_blank hs (by decide)
  | insert t => exact h.1.not_blank hs (by decide)

theorem select_insert_disjoint {s : Bytes} {t : SelectTree} {t' : InsertTree} (h : t.Derives s)
    (h' : t'.Derives s) : False := by
  have hfirst := (h.1.first (by decide)).symm.trans (h'.1.first (by decide))
  exact absurd hfirst (by decide)

theorem Tree.Derives.parseSqlText {s : Bytes} (hs : 0 ∉ s) {t : Tree} (h : t.Derives s)
    (query : Query) : parseSqlText s query = (t.query, .ok ()) := by
  rw [Query.parseSqlText, if_neg (h.not_blank hs)]
  cases t with
  | select t => rw [SelectTree.Derives.parseSelect hs h]
  | insert t =>
    split
    · rename_i hselect
      obtain ⟨t', ht'⟩ := parseSelect_sound hs hselect
      exact (select_insert_disjoint ht' h).elim
    · rw [freeQuery, InsertTree.Derives.parseInsert hs h]

theorem parseSqlText_sound {s : Bytes} (hs : 0 ∉ s) {query : Query}
    (h : (parseSqlText s query).2 = .ok ()) : ∃ t : Tree, t.Derives s := by
  unfold parseSqlText at h
  split at h
  · cases h
  · split at h
    · rename_i hselect
      obtain ⟨t, ht⟩ := parseSelect_sound hs hselect
      exact ⟨.select t, ht⟩
    · split at h
      · rename_i hinsert
        obtain ⟨t, ht⟩ := parseInsert_sound hs hinsert
        exact ⟨.insert t, ht⟩
      · cases h

theorem Tree.Derives.unique {s : Bytes} (hs : 0 ∉ s) {t t' : Tree} (h : t.Derives s)
    (h' : t'.Derives s) : t = t' := by
  cases t with
  | select t =>
    cases t' with
    | select t' => rw [SelectTree.Derives.unique hs h h']
    | insert t' => exact (select_insert_disjoint h h').elim
  | insert t =>
    cases t' with
    | select t' => exact (select_insert_disjoint h' h).elim
    | insert t' => rw [InsertTree.Derives.unique hs h h']

/-- A failed parse leaves the caller's `Query` as it was, or freed. -/
theorem parseSqlText_error {s : Bytes} {query : Query} {e : SqlError}
    (h : (parseSqlText s query).2 = .error e) :
    (parseSqlText s query).1 = query ∨ ∃ query', (parseSqlText s query).1 = freeQuery query' := by
  unfold parseSqlText at h ⊢
  split at h
  · rename_i hblank
    rw [if_pos hblank]
    exact .inl rfl
  · rename_i hblank
    rw [if_neg hblank]
    split at h
    · cases h
    · split at h
      · cases h
      · exact .inr ⟨_, rfl⟩

theorem parseSelect_values (s : Bytes) (query : Query) : (parseSelect s query).1.values = query.values := by
  simp only [parseSelect]
  repeat' split
  all_goals rfl

theorem parseValues_nulFree {s rest : Bytes} {values : List Bytes}
    (h : parseValues s = .ok (values, rest)) : ∀ value ∈ values, 0 ∉ value := by
  fun_induction Query.parseValues s generalizing values rest with
  | case1 => cases h
  | case2 => cases h
  | case3 s value afterValue hvalue hmark values' cursor hrec ih =>
    cases h
    exact List.forall_mem_cons.mpr ⟨parseValue_nulFree hvalue, ih hrec⟩
  | case4 s value afterValue hvalue hmark hclose =>
    cases h
    simpa using parseValue_nulFree hvalue
  | case5 => cases h

theorem parseInsert_nulFree {s : Bytes} {query query' : Query} {u : Unit}
    (h : parseInsert s query = (query', .ok u)) : ∀ value ∈ query'.values, 0 ∉ value := by
  simp only [parseInsert] at h
  repeat' split at h
  all_goals try cases h
  exact parseValues_nulFree ‹_›

/-- The values that the parser hands out are C strings. -/
theorem parseSqlText_nulFree {s : Bytes} {query query' : Query}
    (h : parseSqlText s query = (query', .ok ())) : ∀ value ∈ query'.values, 0 ∉ value := by
  unfold parseSqlText at h
  split at h
  · cases h
  · split at h
    · rename_i hselect
      cases h
      have hvalues := parseSelect_values s .zero
      rw [hselect] at hvalues
      rw [hvalues]
      exact List.forall_mem_nil _
    · split at h
      · rename_i hinsert
        cases h
        exact parseInsert_nulFree hinsert
      · cases h

/-- **The parser accepts exactly its grammar.** A text parses if and only if it
has a derivation tree, the tree is unique and decides the whole `Query`, and a
failed parse leaves nothing in a `Query` that came in zeroed. -/
theorem parseSqlText_grammar (s : Bytes) (hs : 0 ∉ s) :
    (∀ query, (parseSqlText s query).2 = .ok () ↔ ∃ t : Tree, t.Derives s) ∧
    (∀ t t' : Tree, t.Derives s → t'.Derives s → t = t') ∧
    (∀ query (t : Tree), t.Derives s → parseSqlText s query = (t.query, .ok ())) ∧
    ∀ e, (parseSqlText s .zero).2 = .error e →
      (parseSqlText s .zero).1.tableName = none ∧ (parseSqlText s .zero).1.values = [] ∧
        (parseSqlText s .zero).1.condition = none := by
  refine ⟨fun query => ⟨parseSqlText_sound hs, ?_⟩, fun t t' => Tree.Derives.unique hs,
    fun query t h => h.parseSqlText hs query, fun e h => ?_⟩
  · rintro ⟨t, ht⟩
    rw [ht.parseSqlText hs query]
  · rcases parseSqlText_error h with h | ⟨query', h⟩ <;> rw [h]
    · exact ⟨rfl, rfl, rfl⟩
    · exact ⟨rfl, rfl, rfl⟩

/-- Quoted and unquoted values: the one derivation, and what it says. -/
theorem parseSqlText_grammar_values :
    ∃ t : Tree, t.Derives (ascii " Insert INTO users values ( 'a, b' ,\"it's\", 7) ; ") ∧
      t.query = ⟨.insert, some (ascii "users"), [ascii "a, b", ascii "it's", ascii "7"], none⟩ ∧
      ∀ t' : Tree, t'.Derives (ascii " Insert INTO users values ( 'a, b' ,\"it's\", 7) ; ") → t' = t := by
  obtain ⟨haccepts, hunique, hquery, -⟩ :=
    parseSqlText_grammar (ascii " Insert INTO users values ( 'a, b' ,\"it's\", 7) ; ") (by decide)
  have hparse : parseSqlText (ascii " Insert INTO users values ( 'a, b' ,\"it's\", 7) ; ") .zero =
      (⟨.insert, some (ascii "users"), [ascii "a, b", ascii "it's", ascii "7"], none⟩, .ok ()) := by
    decide +kernel
  obtain ⟨t, ht⟩ := (haccepts .zero).mp (congrArg Prod.snd hparse)
  refine ⟨t, ht, congrArg Prod.fst ((hquery .zero t ht).symm.trans hparse), fun t' ht' => ?_⟩
  exact hunique t' t ht' ht

example : (parseSqlText (ascii "select * from users Where name='ann' ;") .zero).1 =
    ⟨.select, some (ascii "users"), [], some ⟨ascii "name", ascii "ann"⟩⟩ := by
  decide +kernel

end MiniSql.Query
