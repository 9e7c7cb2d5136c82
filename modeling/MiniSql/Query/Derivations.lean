import MiniSql.Query.Spacing

/-!
# Derivations of texts that are alike

Two texts that differ in their whitespace only, or behind their last token, have the
same derivation up to the differences. What the tokens of a statement need for that
is stated once, as a simulation between cursors, and used for each kind of
difference.
-/

namespace MiniSql.Query

/-! ## Trees -/

/-- The values of a tree, each with what follows it. -/
def Tree.spans : Tree → List (Bytes × Bytes)
  | .select t => (t.condition.map fun w => (w.value, w.afterValue)).toList
  | .insert t => t.items.map fun item => (item.value, item.afterValue)

/-- The `Query` of a tree less its values. -/
def Tree.frame : Tree → QueryType × Bytes × Option Bytes
  | .select t => (.select, t.table, t.condition.map WhereTree.column)
  | .insert t => (.insert, t.table, none)

theorem Tree.query_eq_iff {t t' : Tree} (hframe : t.frame = t'.frame) :
    t.query = t'.query ↔ t.spans.map Prod.fst = t'.spans.map Prod.fst := by
  rcases t with ⟨_, _, _, table, _, condition, _⟩ | t <;>
  rcases t' with ⟨_, _, _, table', _, condition', _⟩ | t'
  case select.insert => cases hframe
  case insert.select => cases hframe
  case insert.insert =>
    have htable : t.table = t'.table := by simpa [Tree.frame] using hframe
    simp [Tree.query, Tree.spans, htable, Function.comp_def]
  case select.select =>
    have htable : table = table' := by
      simp only [Tree.frame, Prod.mk.injEq] at hframe
      exact hframe.2.1
    have hcolumn : condition.map WhereTree.column = condition'.map WhereTree.column := by
      simp only [Tree.frame, Prod.mk.injEq] at hframe
      exact hframe.2.2
    rcases condition with _ | w <;> rcases condition' with _ | w' <;>
      simp_all [Tree.query, Tree.spans]

/-! ## Simulations -/

/-- A mark between the tokens of a statement. -/
def isMark (c : UInt8) : Bool :=
  c == 0x2a || c == 0x3d || c == 0x28 || c == 0x29 || c == comma

/-- Every token that is read at one cursor can be read at the other; of a value and
what follows it, `V` says what it may become. -/
structure Simulation (L : Bytes → Bytes → Prop) (V : Bytes → Bytes → Bytes → Prop) : Prop where
  keyword : ∀ {word s rest s' : Bytes}, IsWord word → Keyword word s rest → L s s' →
    ∃ rest', Keyword word s' rest' ∧ L rest rest'
  ident : ∀ {s name rest s' : Bytes}, Ident s name rest → L s s' →
    ∃ rest', Ident s' name rest' ∧ L rest rest'
  symbol : ∀ {c : UInt8} {s rest s' : Bytes}, isMark c = true → Symbol c s rest → L s s' →
    ∃ rest', Symbol c s' rest' ∧ L rest rest'
  value : ∀ {s v rest s' : Bytes}, Value s v rest → L s s' →
    ∃ v' rest', Value s' v' rest' ∧ V v rest v' ∧ L rest rest'
  finish : ∀ {semicolon : Bool} {s s' : Bytes}, End semicolon s → L s s' → ∃ semicolon', End semicolon' s'

namespace Simulation

variable {L : Bytes → Bytes → Prop} {V : Bytes → Bytes → Bytes → Prop}

theorem where_ (h : Simulation L V) {w : WhereTree} {s s' : Bytes} (hw : w.Derives s) (hL : L s s') :
    ∃ w' : WhereTree, w'.Derives s' ∧ w'.column = w.column ∧ V w.value w.afterValue w'.value ∧
      L w.afterValue w'.afterValue := by
  obtain ⟨hwhere, hcolumn, hequals, hvalue⟩ := hw
  obtain ⟨afterWhere, hwhere, hL⟩ := h.keyword (by decide) hwhere hL
  obtain ⟨afterColumn, hcolumn, hL⟩ := h.ident hcolumn hL
  obtain ⟨afterEquals, hequals, hL⟩ := h.symbol rfl hequals hL
  obtain ⟨value, afterValue, hvalue, hV, hL⟩ := h.value hvalue hL
  exact ⟨⟨_, _, _, _, value, afterValue⟩, ⟨hwhere, hcolumn, hequals, hvalue⟩, rfl, hV, hL⟩

theorem items (h : Simulation L V) {items : List Item} {s rest s' : Bytes} (hitems : Items s items rest)
    (hL : L s s') : ∃ items' rest', Items s' items' rest' ∧ L rest rest' ∧
      List.Forall₂ (fun item item' => V item.value item.afterValue item'.value) items items' := by
  induction hitems generalizing s' with
  | last hvalue hclose =>
    obtain ⟨value, afterValue, hvalue, hV, hL⟩ := h.value hvalue hL
    obtain ⟨rest', hclose, hL⟩ := h.symbol rfl hclose hL
    exact ⟨_, rest', .last hvalue hclose, hL, .cons hV .nil⟩
  | more hvalue hmark _ ih =>
    obtain ⟨value, afterValue, hvalue, hV, hL⟩ := h.value hvalue hL
    obtain ⟨afterMark, hmark, hL⟩ := h.symbol rfl hmark hL
    obtain ⟨items', rest', hitems, hL, hVs⟩ := ih hL
    exact ⟨_, rest', .more hvalue hmark hitems, hL, .cons hV hVs⟩

/-- A derivation carries over. -/
theorem tree (h : Simulation L V) {t : Tree} {s s' : Bytes} (ht : t.Derives s) (hL : L s s') :
    ∃ t' : Tree, t'.Derives s' ∧ t'.frame = t.frame ∧
      List.Forall₂ (fun x x' => V x.1 x.2 x'.1) t.spans t'.spans := by
  cases t with
  | select t =>
    obtain ⟨_, _, _, table, _, condition, semicolon⟩ := t
    obtain ⟨hselect, hstar, hfrom, htable, hcondition⟩ := ht
    dsimp only at hselect hstar hfrom htable
    obtain ⟨afterSelect, hselect, hL⟩ := h.keyword (by decide) hselect hL
    obtain ⟨afterStar, hstar, hL⟩ := h.symbol rfl hstar hL
    obtain ⟨afterFrom, hfrom, hL⟩ := h.keyword (by decide) hfrom hL
    obtain ⟨afterTable, htable, hL⟩ := h.ident htable hL
    cases condition with
    | none =>
      obtain ⟨semicolon', hend⟩ := h.finish hcondition hL
      exact ⟨.select ⟨_, _, _, table, _, none, semicolon'⟩, ⟨hselect, hstar, hfrom, htable, hend⟩, rfl,
        .nil⟩
    | some w =>
      obtain ⟨hw, hend⟩ := hcondition
      obtain ⟨w', hw, hcolumn, hV, hL⟩ := h.where_ hw hL
      obtain ⟨semicolon', hend⟩ := h.finish hend hL
      refine ⟨.select ⟨_, _, _, table, _, some w', semicolon'⟩,
        ⟨hselect, hstar, hfrom, htable, hw, hend⟩, ?_, .cons hV .nil⟩
      simp [Tree.frame, hcolumn]
  | insert t =>
    obtain ⟨hinsert, hinto, htable, hvalues, hopen, hitems, hend⟩ := ht
    obtain ⟨afterInsert, hinsert, hL⟩ := h.keyword (by decide) hinsert hL
    obtain ⟨afterInto, hinto, hL⟩ := h.keyword (by decide) hinto hL
    obtain ⟨afterTable, htable, hL⟩ := h.ident htable hL
    obtain ⟨afterValues, hvalues, hL⟩ := h.keyword (by decide) hvalues hL
    obtain ⟨afterOpen, hopen, hL⟩ := h.symbol rfl hopen hL
    obtain ⟨items', afterItems, hitems, hL, hV⟩ := h.items hitems hL
    obtain ⟨semicolon', hend⟩ := h.finish hend hL
    refine ⟨.insert ⟨_, _, t.table, _, _, _, items', _, semicolon'⟩,
      ⟨hinsert, hinto, htable, hvalues, hopen, hitems, hend⟩, rfl, ?_⟩
    exact List.forall₂_map_left_iff.mpr (List.forall₂_map_right_iff.mpr hV)

/-- Where values stay as they are, so does the query. -/
theorem query (h : Simulation L fun v _ v' => v' = v) {t : Tree} {s s' : Bytes} (ht : t.Derives s)
    (hL : L s s') : ∃ t' : Tree, t'.Derives s' ∧ t'.query = t.query := by
  obtain ⟨t', ht', hframe, hspans⟩ := h.tree ht hL
  refine ⟨t', ht', (Tree.query_eq_iff hframe).mpr (List.forall₂_eq_eq_eq ▸ ?_)⟩
  exact List.forall₂_map_left_iff.mpr (List.forall₂_map_right_iff.mpr hspans.flip)

end Simulation

/-! ## Texts that are continued

Behind a text, what does not begin with an identifier character leaves its tokens as
they are. -/

section Continued

variable {s rest : Bytes}

theorem Keyword.continued {word : Bytes} (h : Keyword word s rest) (more : Bytes)
    (hmore : isIdentifierChar (peek more) = false) : Keyword word (s ++ more) (rest ++ more) := by
  obtain ⟨ws, letters, rfl, hws, hletters, hstop⟩ := h
  refine ⟨ws, letters, List.append_assoc _ _ _, hws, hletters, ?_⟩
  cases rest with
  | nil => exact hmore
  | cons c rest => exact hstop

theorem Ident.continued {name : Bytes} (h : Ident s name rest) (more : Bytes)
    (hmore : isIdentifierChar (peek more) = false) : Ident (s ++ more) name (rest ++ more) := by
  obtain ⟨ws, rfl, hws, hne, hname, hstop⟩ := h
  refine ⟨ws, List.append_assoc _ _ _, hws, hne, hname, ?_⟩
  cases rest with
  | nil => exact hmore
  | cons c rest => exact hstop

theorem Symbol.continued {c : UInt8} (h : Symbol c s rest) (more : Bytes) :
    Symbol c (s ++ more) (rest ++ more) := by
  obtain ⟨ws, rfl, hws⟩ := h
  exact ⟨ws, List.append_assoc _ _ _, hws⟩

theorem Value.continued {value : Bytes} (h : Value s value rest) (more : Bytes) :
    Value (s ++ more) value (rest ++ more) := by
  obtain ⟨ws, text, rfl, hws, htext⟩ := h
  exact ⟨ws, text, List.append_assoc _ _ _, hws, htext⟩

theorem Items.continued {items : List Item} (h : Items s items rest) (more : Bytes) :
    ∃ items', Items (s ++ more) items' (rest ++ more) := by
  induction h with
  | last hvalue hclose => exact ⟨_, .last (hvalue.continued more) (hclose.continued more)⟩
  | more hvalue hmark _ ih =>
    obtain ⟨items', hitems⟩ := ih
    exact ⟨_, .more (hvalue.continued more) (hmark.continued more) hitems⟩

theorem WhereTree.Derives.continued {w : WhereTree} (h : w.Derives s) (more : Bytes)
    (hmore : isIdentifierChar (peek more) = false) :
    ∃ w' : WhereTree, w'.Derives (s ++ more) ∧ w'.afterValue = w.afterValue ++ more := by
  obtain ⟨hwhere, hcolumn, hequals, hvalue⟩ := h
  exact ⟨⟨_, _, _, _, _, _⟩, ⟨hwhere.continued more hmore, hcolumn.continued more hmore,
    hequals.continued more, hvalue.continued more⟩, rfl⟩

theorem Delimited.continued {more : Bytes} (h : Delimited s) (hmore : Delimited more) :
    Delimited (s ++ more) := by
  cases s with
  | nil => exact hmore
  | cons c s => exact h

end Continued

theorem peek_spaces {ws : Bytes} (hws : Spaces ws) : isIdentifierChar (peek ws) = false := by
  cases ws with
  | nil => rfl
  | cons c ws =>
    have hc := hws c List.mem_cons_self
    by_contra hident
    rw [isspace_of_isIdentifierChar c (by simpa [peek] using hident)] at hc
    cases hc

theorem Spaces.append {ws ws' : Bytes} (h : Spaces ws) (h' : Spaces ws') : Spaces (ws ++ ws') :=
  fun c hc => (List.mem_append.mp hc).elim (h c) (h' c)

/-- Whitespace behind a statement. -/
theorem simulation_spaces {ws : Bytes} (hws : Spaces ws) :
    Simulation (fun s s' => s' = s ++ ws) fun v _ v' => v' = v where
  keyword _ h hs := ⟨_, hs ▸ h.continued ws (peek_spaces hws), rfl⟩
  ident h hs := ⟨_, hs ▸ h.continued ws (peek_spaces hws), rfl⟩
  symbol _ h hs := ⟨_, hs ▸ h.continued ws, rfl⟩
  value h hs := ⟨_, _, hs ▸ h.continued ws, rfl, rfl⟩
  finish := by
    rintro (_ | _) s _ h rfl
    · exact ⟨false, h.append hws⟩
    · obtain ⟨rest, hsemi, hrest⟩ := h
      exact ⟨true, rest ++ ws, hsemi.continued ws, hrest.append hws⟩

/-! ## Texts that are cut -/

/-- A byte that stands behind the last token of a statement only. -/
def isTrailing (c : UInt8) : Bool := isspace c || c == 0x3b

theorem isTrailing_ident {c : UInt8} : isTrailing c = true → isIdentifierChar c = false :=
  forall_byte (p := fun c => isTrailing c = true → isIdentifierChar c = false) (by decide +kernel) c

theorem isMark_not_trailing {c : UInt8} : isMark c = true → ¬ isTrailing c = true :=
  forall_byte (p := fun c => isMark c = true → ¬ isTrailing c = true) (by decide +kernel) c

/-- The last byte of a text is the last byte of its rest if no token ends with it. -/
theorem cut_last (token : Bytes) {rest s : Bytes} {c : UInt8} (h : s ++ [c] = token ++ rest)
    (hlast : token.getLast? ≠ some c) : ∃ rest', rest = rest' ++ [c] ∧ s = token ++ rest' := by
  rcases List.eq_nil_or_concat rest with rfl | ⟨rest', d, rfl⟩
  · rw [List.append_nil] at h
    rw [← h] at hlast
    simp at hlast
  · rw [List.concat_eq_append, ← List.append_assoc] at h
    obtain ⟨hs, hd⟩ := List.append_inj' h rfl
    cases hd
    exact ⟨rest', List.concat_eq_append, hs⟩

theorem getLast?_token {ws token : Bytes} {c : UInt8} (hne : token ≠ []) (h : c ∉ token) :
    (ws ++ token).getLast? ≠ some c := by
  rcases List.eq_nil_or_concat token with rfl | ⟨init, d, rfl⟩
  · exact absurd rfl hne
  · have hd : d ≠ c := by
      rintro rfl
      simp at h
    simp [hd]

theorem isIdentifierChar_letters {word letters : Bytes} (hword : IsWord word)
    (hletters : letters.map tolower = word) : ∀ c ∈ letters, isIdentifierChar c = true := by
  intro c hc
  rw [← isIdentifierChar_tolower]
  exact List.all_eq_true.mp hword.ident _ (hletters ▸ List.mem_map_of_mem hc)

theorem letters_ne_nil {word letters : Bytes} (hword : IsWord word)
    (hletters : letters.map tolower = word) : letters ≠ [] := by
  rintro rfl
  exact hword.nonempty hletters.symm

theorem ValueText.ne_nil {text value : Bytes} (h : ValueText text value) : text ≠ [] := by
  cases h with
  | quoted => simp
  | bare hne => exact hne

section Trailing

variable {c : UInt8}

/-- A token that does not end with the byte is read in front of it too. -/
theorem trailing_token (token : Bytes → Bytes → Prop)
    (htoken : ∀ {s rest}, token s rest → ∃ text, s = text ++ rest ∧ text.getLast? ≠ some c ∧
      ∀ rest', rest' = [] ∨ peek rest' = peek rest → token (text ++ rest') rest')
    {s rest : Bytes} (h : token (s ++ [c]) rest) : ∃ rest', token s rest' ∧ rest = rest' ++ [c] := by
  obtain ⟨text, heq, hlast, hread⟩ := htoken h
  obtain ⟨rest', rfl, rfl⟩ := cut_last text heq hlast
  refine ⟨rest', hread rest' ?_, rfl⟩
  cases rest' with
  | nil => exact .inl rfl
  | cons d rest' => exact .inr rfl

/-- No identifier character at the end of a text or in front of what follows. -/
theorem stop_or_end {rest rest' : Bytes} (hstop : isIdentifierChar (peek rest) = false)
    (h : rest' = [] ∨ peek rest' = peek rest) : isIdentifierChar (peek rest') = false := by
  rcases h with rfl | hpeek
  · rfl
  · rw [hpeek]
    exact hstop

theorem ident_not_trailing (hc : isTrailing c = true) {text : Bytes}
    (htext : ∀ d ∈ text, isIdentifierChar d = true) : c ∉ text := by
  intro hmem
  have hident := htext c hmem
  rw [isTrailing_ident hc] at hident
  cases hident

theorem end_trailing {semicolon : Bool} {s : Bytes} (h : End semicolon (s ++ [c])) :
    ∃ semicolon', End semicolon' s := by
  cases semicolon with
  | false => exact ⟨false, fun d hd => h d (List.mem_append_left _ hd)⟩
  | true =>
    obtain ⟨rest, ⟨ws, hs, hws⟩, hrest⟩ := h
    rcases List.eq_nil_or_concat rest with rfl | ⟨rest', d, rfl⟩
    · obtain ⟨rfl, -⟩ := List.append_inj' hs rfl
      exact ⟨false, hws⟩
    · have hcut : s ++ [c] = (ws ++ 0x3b :: rest') ++ [d] := by simpa using hs
      obtain ⟨rfl, -⟩ := List.append_inj' hcut rfl
      exact ⟨true, rest', ⟨ws, rfl, hws⟩, fun e he => hrest e (by simp [he])⟩

variable (hc : isTrailing c = true)
include hc

theorem keyword_trailing {word s rest : Bytes} (hword : IsWord word) (h : Keyword word (s ++ [c]) rest) :
    ∃ rest', Keyword word s rest' ∧ rest = rest' ++ [c] := by
  refine trailing_token (Keyword word) ?_ h
  rintro s rest ⟨ws, letters, rfl, hws, hletters, hstop⟩
  refine ⟨ws ++ letters, rfl, ?_, fun rest' hrest' => ?_⟩
  · exact getLast?_token (letters_ne_nil hword hletters)
      (ident_not_trailing hc (isIdentifierChar_letters hword hletters))
  · exact ⟨ws, letters, rfl, hws, hletters, stop_or_end hstop hrest'⟩

theorem ident_trailing {s name rest : Bytes} (h : Ident (s ++ [c]) name rest) :
    ∃ rest', Ident s name rest' ∧ rest = rest' ++ [c] := by
  refine trailing_token (fun s rest => Ident s name rest) ?_ h
  rintro s rest ⟨ws, rfl, hws, hne, hname, hstop⟩
  refine ⟨ws ++ name, rfl, getLast?_token hne (ident_not_trailing hc hname), fun rest' hrest' => ?_⟩
  exact ⟨ws, rfl, hws, hne, hname, stop_or_end hstop hrest'⟩

theorem symbol_trailing {m : UInt8} {s rest : Bytes} (hm : isMark m = true) (h : Symbol m (s ++ [c]) rest) :
    ∃ rest', Symbol m s rest' ∧ rest = rest' ++ [c] := by
  refine trailing_token (Symbol m) ?_ h
  rintro s rest ⟨ws, rfl, hws⟩
  refine ⟨ws ++ [m], by simp, ?_, fun rest' _ => ⟨ws, by simp, hws⟩⟩
  apply getLast?_token (by simp)
  rw [List.mem_singleton]
  rintro rfl
  exact isMark_not_trailing hm hc

theorem value_trailing {s v rest : Bytes} (h : Value (s ++ [c]) v rest) :
    ∃ rest', Value s v rest' ∧ rest = rest' ++ [c] := by
  refine trailing_token (fun s rest => Value s v rest) ?_ h
  rintro s rest ⟨ws, text, rfl, hws, htext⟩
  refine ⟨ws ++ text, rfl, ?_, fun rest' _ => ⟨ws, text, rfl, hws, htext⟩⟩
  cases htext with
  | @quoted quote body hquote =>
    have hother : quote ≠ c := by
      rintro rfl
      rcases hquote with rfl | rfl <;> cases hc
    rw [← List.append_assoc, List.getLast?_concat]
    simpa using hother
  | bare hne hfree =>
    apply getLast?_token hne
    intro hmem
    obtain ⟨-, -, hsemi, hspace⟩ := hfree c hmem
    simp [isTrailing, hspace, hsemi] at hc

/-- A semicolon or a whitespace behind a statement. -/
theorem simulation_trailing : Simulation (fun s s' => s = s' ++ [c]) fun v _ v' => v' = v where
  keyword hword h hs := keyword_trailing hc hword (hs ▸ h)
  ident h hs := ident_trailing hc (hs ▸ h)
  symbol hm h hs := symbol_trailing hc hm (hs ▸ h)
  value h hs := by
    obtain ⟨rest', hvalue, hrest⟩ := value_trailing hc (hs ▸ h)
    exact ⟨_, rest', hvalue, rfl, hrest⟩
  finish h hs := end_trailing (hs ▸ h)

end Trailing

/-! ## Accepted texts -/

/-- The text is a statement that stands for the query. -/
def Accepts (s : Bytes) (query : Query) : Prop := ∃ t : Tree, t.Derives s ∧ t.query = query

theorem accepts_parse_iff {s : Bytes} (hs : 0 ∉ s) (query : Query) :
    Accepts s query ↔ parseSqlText s .zero = (query, .ok ()) := (parseSqlText_iff hs query).symm

namespace Accepts

variable {s : Bytes} {query : Query}

theorem nonblank (h : Accepts s query) : ¬ Spaces s := by
  intro hspaces
  obtain ⟨t, ht, -⟩ := h
  have hfirst := ht.first
  have hskip : skipWhitespace (s ++ []) = [] := skipWhitespace_append hspaces isspace_zero
  rw [List.append_nil] at hskip
  rw [hskip] at hfirst
  cases hfirst

theorem append_spaces (h : Accepts s query) {ws : Bytes} (hws : Spaces ws) : Accepts (s ++ ws) query := by
  obtain ⟨t, ht, rfl⟩ := h
  exact (simulation_spaces hws).query ht rfl

/-- The end of a statement may be left out. -/
theorem drop_trailing (ending : Bytes) (hending : ∀ c ∈ ending, isTrailing c = true)
    (h : Accepts (s ++ ending) query) : Accepts s query := by
  induction ending generalizing s with
  | nil => simpa using h
  | cons c ending ih =>
    obtain ⟨hc, hending⟩ := List.forall_mem_cons.mp hending
    obtain ⟨t, ht, rfl⟩ := ih hending (s := s ++ [c]) (by simpa using h)
    exact (simulation_trailing hc).query ht rfl

theorem skip_iff {ws : Bytes} (hws : Spaces ws) : Accepts (ws ++ s) query ↔ Accepts s query := by
  have hskip : skipWhitespace (ws ++ s) = skipWhitespace s := List.dropWhile_append_of_pos hws
  constructor
  · rintro ⟨t, ht, hquery⟩
    rw [← derives_skipWhitespace, hskip, derives_skipWhitespace] at ht
    exact ⟨t, ht, hquery⟩
  · rintro ⟨t, ht, hquery⟩
    rw [← derives_skipWhitespace, ← hskip, derives_skipWhitespace] at ht
    exact ⟨t, ht, hquery⟩

end Accepts

end MiniSql.Query
