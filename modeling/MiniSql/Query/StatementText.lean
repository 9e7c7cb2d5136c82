import MiniSql.Query.Derivations

/-!
# The text of a statement

Two facts about where the bytes of a statement are. A semicolon behind a statement
ends it; what follows would make it no statement. And every hyphen of a statement is in
one of its values.
-/

namespace MiniSql.Query

/-! ## A semicolon behind a statement -/

section Semicolon

variable {s more : Bytes}

theorem not_spaces_semicolon (front : Bytes) : ¬ Spaces (front ++ 0x3b :: more) := by
  intro h
  exact absurd (h 0x3b (by simp)) (by decide)

theorem end_continued {semicolon semicolon' : Bool} (h : End semicolon s)
    (h' : End semicolon' (s ++ 0x3b :: more)) : Spaces more := by
  cases semicolon' with
  | false => exact absurd h' (not_spaces_semicolon s)
  | true =>
    obtain ⟨rest, hsemi, hrest⟩ := h'
    cases semicolon with
    | false =>
      obtain rfl := hsemi.unique (by decide) rfl ⟨s, rfl, h⟩
      exact hrest
    | true =>
      obtain ⟨early, hearly, -⟩ := h
      obtain rfl := hsemi.unique (by decide) rfl (hearly.continued _)
      exact absurd hrest (not_spaces_semicolon early)

/-- Behind a statement there is nothing but its end, so what follows is no WHERE. -/
theorem end_not_where {semicolon : Bool} (h : End semicolon s) {w : WhereTree}
    (hw : w.Derives (s ++ 0x3b :: more)) : False := by
  have hfirst := hw.1.first (by decide)
  have hsemi : peek (skipWhitespace (s ++ 0x3b :: more)) = 0x3b := by
    cases semicolon with
    | false => exact ((symbol_iff (by decide) rfl).mpr ⟨s, rfl, h⟩).1
    | true =>
      obtain ⟨rest, hsemi, -⟩ := h
      exact ((symbol_iff (by decide) rfl).mpr (hsemi.continued _)).1
  rw [hsemi] at hfirst
  exact absurd hfirst (by decide)

theorem select_continued {t t' : SelectTree} (hs : 0 ∉ s ++ 0x3b :: more) (h : t.Derives s)
    (h' : t'.Derives (s ++ 0x3b :: more)) : Spaces more := by
  obtain ⟨_, _, _, table, _, condition, semicolon⟩ := t
  obtain ⟨_, _, _, table', _, condition', semicolon'⟩ := t'
  obtain ⟨hselect, hstar, hfrom, htable, hcondition⟩ := h
  obtain ⟨hselect', hstar', hfrom', htable', hcondition'⟩ := h'
  dsimp only at *
  obtain rfl := hselect'.unique (by decide) (hselect.continued _ rfl)
  obtain rfl := hstar'.unique (by decide) rfl (hstar.continued _)
  obtain rfl := hfrom'.unique (by decide) (hfrom.continued _ rfl)
  obtain ⟨rfl, rfl⟩ := htable'.unique (htable.continued _ rfl)
  have hnul := htable'.nulFree (hfrom'.nulFree (hstar'.nulFree (hselect'.nulFree hs)))
  rcases condition with _ | w <;> rcases condition' with _ | w'
  · exact end_continued hcondition hcondition'
  · exact (end_not_where hcondition hcondition'.1).elim
  · have hfirst := (hcondition.1.1.continued (0x3b :: more) rfl).first (by decide)
    have hident := end_peek hnul hcondition'
    rw [← isIdentifierChar_tolower, hfirst] at hident
    cases hident
  · obtain ⟨hw, hend⟩ := hcondition
    obtain ⟨hw', hend'⟩ := hcondition'
    obtain ⟨w'', hw'', hafter⟩ := hw.continued (0x3b :: more) rfl
    have hdelimited : Delimited w''.afterValue := by
      rw [hafter]
      exact hend.delimited.continued rfl
    cases hw'.unique hnul hend'.delimited hw'' hdelimited
    rw [hafter] at hend'
    exact end_continued hend hend'

theorem insert_continued {t t' : InsertTree} (hs : 0 ∉ s ++ 0x3b :: more) (h : t.Derives s)
    (h' : t'.Derives (s ++ 0x3b :: more)) : Spaces more := by
  obtain ⟨hinsert, hinto, htable, hvalues, hopen, hitems, hend⟩ := h
  obtain ⟨hinsert', hinto', htable', hvalues', hopen', hitems', hend'⟩ := h'
  have hnul := hopen'.nulFree
    (hvalues'.nulFree (htable'.nulFree (hinto'.nulFree (hinsert'.nulFree hs))))
  rw [hinsert'.unique (by decide) (hinsert.continued _ rfl)] at hinto'
  rw [hinto'.unique (by decide) (hinto.continued _ rfl)] at htable'
  rw [(htable'.unique (htable.continued _ rfl)).2] at hvalues'
  rw [hvalues'.unique (by decide) (hvalues.continued _ rfl)] at hopen'
  have hstart := hopen'.unique (by decide) rfl (hopen.continued _)
  rw [hstart] at hitems' hnul
  obtain ⟨items, hcontinued⟩ := hitems.continued (0x3b :: more)
  rw [(hitems'.unique hnul hcontinued).2] at hend'
  exact end_continued hend hend'

/-- **A statement ends at its semicolon.** Where a statement is continued with a
semicolon it is a statement only if nothing but whitespace follows. -/
theorem Accepts.continued {query query' : Query} (hs : 0 ∉ s ++ 0x3b :: more) (h : Accepts s query)
    (h' : Accepts (s ++ 0x3b :: more) query') : Spaces more := by
  obtain ⟨t, ht, -⟩ := h
  obtain ⟨t', ht', -⟩ := h'
  rcases t with t | t <;> rcases t' with t' | t'
  · exact select_continued hs ht ht'
  · have hfirst := (ht.1.continued (0x3b :: more) rfl).first (by decide)
    rw [ht'.1.first (by decide)] at hfirst
    exact absurd hfirst (by decide)
  · have hfirst := (ht.1.continued (0x3b :: more) rfl).first (by decide)
    rw [ht'.1.first (by decide)] at hfirst
    exact absurd hfirst (by decide)
  · exact insert_continued hs ht ht'

end Semicolon

/-! ## Hyphens -/

/-- How many hyphens there are in the values of a query. -/
def hyphens (query : Query) : Nat :=
  (query.values.map (List.count hyphen)).sum +
    ((query.condition.map fun condition => condition.value.count hyphen).getD 0)

theorem count_hyphen_spaces {ws : Bytes} (h : Spaces ws) : ws.count hyphen = 0 := by
  rw [List.count_eq_zero]
  intro hmem
  cases h hyphen hmem

theorem count_hyphen_idents {name : Bytes} (h : ∀ c ∈ name, isIdentifierChar c = true) :
    name.count hyphen = 0 := by
  rw [List.count_eq_zero]
  intro hmem
  cases h hyphen hmem

theorem Keyword.count_hyphen {word s rest : Bytes} (hword : IsWord word) (h : Keyword word s rest) :
    s.count hyphen = rest.count hyphen := by
  obtain ⟨ws, letters, rfl, hws, hletters, -⟩ := h
  rw [List.count_append, List.count_append, count_hyphen_spaces hws,
    count_hyphen_idents (isIdentifierChar_letters hword hletters), Nat.zero_add]

theorem Ident.count_hyphen {s name rest : Bytes} (h : Ident s name rest) :
    s.count hyphen = rest.count hyphen := by
  obtain ⟨ws, rfl, hws, -, hname, -⟩ := h
  rw [List.count_append, List.count_append, count_hyphen_spaces hws, count_hyphen_idents hname,
    Nat.zero_add]

theorem Symbol.count_hyphen {c : UInt8} {s rest : Bytes} (hc : c ≠ hyphen) (h : Symbol c s rest) :
    s.count hyphen = rest.count hyphen := by
  obtain ⟨ws, rfl, hws⟩ := h
  rw [List.count_append, List.count_cons_of_ne hc, count_hyphen_spaces hws, Nat.zero_add]

theorem Value.count_hyphen {s value rest : Bytes} (h : Value s value rest) :
    s.count hyphen = value.count hyphen + rest.count hyphen := by
  obtain ⟨ws, text, rfl, hws, htext⟩ := h
  have hvalue : text.count hyphen = value.count hyphen := by
    cases htext with
    | @quoted quote body hquote =>
      have hother : quote ≠ hyphen := by rcases hquote with rfl | rfl <;> decide
      simp [List.count_cons_of_ne hother]
    | bare => rfl
  rw [List.count_append, List.count_append, count_hyphen_spaces hws, hvalue, Nat.zero_add]

theorem End.count_hyphen {semicolon : Bool} {s : Bytes} (h : End semicolon s) : s.count hyphen = 0 := by
  cases semicolon with
  | false => exact count_hyphen_spaces h
  | true =>
    obtain ⟨rest, hsemi, hrest⟩ := h
    rw [hsemi.count_hyphen (by decide), count_hyphen_spaces hrest]

theorem Items.count_hyphen {s rest : Bytes} {items : List Item} (h : Items s items rest) :
    s.count hyphen = ((items.map Item.value).map (List.count hyphen)).sum + rest.count hyphen := by
  induction h with
  | last hvalue hclose =>
    rw [hvalue.count_hyphen, hclose.count_hyphen (by decide)]
    simp
  | more hvalue hmark _ ih =>
    rw [hvalue.count_hyphen, hmark.count_hyphen (by decide), ih]
    simp [Nat.add_assoc]

/-- The hyphens of a statement are in its values. -/
theorem Accepts.count_hyphen {s : Bytes} {query : Query} (h : Accepts s query) :
    s.count hyphen = query.hyphens := by
  obtain ⟨t, ht, rfl⟩ := h
  cases t with
  | select t =>
    obtain ⟨_, _, _, table, _, condition, semicolon⟩ := t
    obtain ⟨hselect, hstar, hfrom, htable, hcondition⟩ := ht
    rw [hselect.count_hyphen (by decide), hstar.count_hyphen (by decide), hfrom.count_hyphen (by decide),
      htable.count_hyphen]
    cases condition with
    | none => simpa [Tree.query, hyphens] using hcondition.count_hyphen
    | some w =>
      obtain ⟨⟨hwhere, hcolumn, hequals, hvalue⟩, hend⟩ := hcondition
      dsimp only
      rw [hwhere.count_hyphen (by decide), hcolumn.count_hyphen, hequals.count_hyphen (by decide),
        hvalue.count_hyphen, hend.count_hyphen]
      simp [Tree.query, hyphens]
  | insert t =>
    obtain ⟨hinsert, hinto, htable, hvalues, hopen, hitems, hend⟩ := ht
    rw [hinsert.count_hyphen (by decide), hinto.count_hyphen (by decide), htable.count_hyphen,
      hvalues.count_hyphen (by decide), hopen.count_hyphen (by decide), hitems.count_hyphen,
      hend.count_hyphen]
    rfl

end MiniSql.Query
