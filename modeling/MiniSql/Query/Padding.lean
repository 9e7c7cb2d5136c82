import MiniSql.Query.Derivations

/-!
# Whitespace inside a statement

A run of whitespace inside a statement is replaced by a run of another length. No
token but a quoted value holds whitespace, so the derivation stays the same unless the
run is inside a quoted value; then that value changes, and nothing else.
-/

namespace MiniSql.Query

def EndsInSpace (s : Bytes) : Prop := ∃ front c, s = front ++ [c] ∧ isspace c = true

/-- The text `later` begins inside a value: it goes on with the end of the value, the
closing quote and what follows the value. -/
def Crosses (later value after : Bytes) : Prop :=
  ∃ inside quote, later = inside ++ quote :: after ∧ inside <:+ value ∧ inside ≠ [] ∧
    (quote = singleQuote ∨ quote = doubleQuote)

/-! ## Tokens behind whitespace -/

section Skip

variable {s s' rest : Bytes} (hskip : skipWhitespace s = skipWhitespace s')
include hskip

theorem Keyword.of_skip {word : Bytes} (hword : IsWord word) (h : Keyword word s rest) :
    Keyword word s' rest := by
  rw [← keyword_skipWhitespace hword, ← hskip, keyword_skipWhitespace hword]
  exact h

theorem Ident.of_skip {name : Bytes} (h : Ident s name rest) : Ident s' name rest := by
  rw [← parseIdentifier_iff, parseIdentifier, ← hskip]
  exact parseIdentifier_iff.mpr h

theorem Symbol.of_skip {c : UInt8} (hc : c ≠ 0) (hspace : isspace c = false) (h : Symbol c s rest) :
    Symbol c s' rest := by
  rw [← symbol_iff hc hspace, ← hskip]
  exact (symbol_iff hc hspace).mpr h

theorem Value.of_skip {value : Bytes} (h : Value s value rest) : Value s' value rest := by
  obtain ⟨ws, text, rfl, hws, htext⟩ := h
  have hfirst : isspace (peek (text ++ rest)) = false := by
    cases htext with
    | quoted hquote => rcases hquote with rfl | rfl <;> rfl
    | bare hne hfree =>
      obtain ⟨c, more, rfl⟩ := List.exists_cons_of_ne_nil hne
      exact (hfree c List.mem_cons_self).2.2.2
  obtain ⟨ws', hws', hs', -⟩ := skipWhitespace_spec s'
  rw [List.append_assoc, skipWhitespace_append hws hfirst] at hskip
  exact ⟨ws', text, by rw [hs', ← hskip, List.append_assoc], hws', htext⟩

end Skip

/-! ## Tokens in front of whitespace -/

theorem EndsInSpace.ne_nil {s : Bytes} (h : EndsInSpace s) : s ≠ [] := by
  obtain ⟨front, c, rfl, -⟩ := h
  simp

theorem EndsInSpace.of_append (front : Bytes) {s : Bytes} (h : EndsInSpace (front ++ s)) (hs : s ≠ []) :
    EndsInSpace s := by
  obtain ⟨early, c, heq, hc⟩ := h
  rcases List.eq_nil_or_concat s with rfl | ⟨init, d, rfl⟩
  · exact absurd rfl hs
  · rw [List.concat_eq_append, ← List.append_assoc] at heq
    obtain ⟨-, hd⟩ := List.append_inj' heq rfl
    cases hd
    exact ⟨init, c, List.concat_eq_append, hc⟩

theorem EndsInSpace.mem {s : Bytes} (h : EndsInSpace s) : ∃ c ∈ s, isspace c = true := by
  obtain ⟨front, c, rfl, hc⟩ := h
  exact ⟨c, by simp, hc⟩

/-- A token begins behind the text `u`, or ends in front of its end, or begins in it and
ends behind it. -/
theorem token_cases {u later ws token rest : Bytes} (hu : EndsInSpace u)
    (h : u ++ later = ws ++ (token ++ rest)) (hws : Spaces ws) :
    Spaces u ∨ (∃ u', EndsInSpace u' ∧ u = ws ++ (token ++ u') ∧ rest = u' ++ later) ∨
    ∃ early late, EndsInSpace early ∧ u = ws ++ early ∧ token = early ++ late ∧
      later = late ++ rest := by
  rcases List.append_eq_append_iff.mp h with ⟨more, hmore, -⟩ | ⟨more, hu', hrest⟩
  · left
    intro c hc
    exact hws c (hmore ▸ List.mem_append_left _ hc)
  · by_cases hempty : more = []
    · left
      rw [hu', hempty, List.append_nil]
      exact hws
    · right
      have hmore : EndsInSpace more := EndsInSpace.of_append ws (hu' ▸ hu) hempty
      rcases List.append_eq_append_iff.mp hrest with ⟨u', htoken, hlater⟩ | ⟨late, htoken, hlater⟩
      · by_cases hend : u' = []
        · subst hend
          rw [List.append_nil] at htoken
          exact .inr ⟨more, [], hmore, hu', by rw [htoken, List.append_nil], by simpa using hlater.symm⟩
        · exact .inl ⟨u', EndsInSpace.of_append token (htoken ▸ hmore) hend, by rw [hu', htoken], hlater⟩
      · exact .inr ⟨more, late, hmore, hu', htoken, hlater⟩

/-- The same for a token without whitespace. -/
theorem token_within {u later ws token rest : Bytes} (hu : EndsInSpace u)
    (h : u ++ later = ws ++ (token ++ rest)) (hws : Spaces ws)
    (htoken : ∀ c ∈ token, isspace c = false) :
    Spaces u ∨ ∃ u', EndsInSpace u' ∧ u = ws ++ (token ++ u') ∧ rest = u' ++ later := by
  rcases token_cases hu h hws with hspaces | hwithin | ⟨early, late, hearly, -, rfl, -⟩
  · exact .inl hspaces
  · exact .inr hwithin
  · obtain ⟨c, hc, hspace⟩ := hearly.mem
    rw [htoken c (List.mem_append_left _ hc)] at hspace
    cases hspace

theorem peek_append {s : Bytes} (hs : s ≠ []) (later later' : Bytes) :
    peek (s ++ later) = peek (s ++ later') := by
  obtain ⟨c, more, rfl⟩ := List.exists_cons_of_ne_nil hs
  rfl

/-! ## Two texts with another run of whitespace -/

theorem isMark_clear {c : UInt8} : isMark c = true → c ≠ 0 ∧ isspace c = false :=
  forall_byte (p := fun c => isMark c = true → c ≠ 0 ∧ isspace c = false) (by decide +kernel) c

/-- The texts are one text behind the run, or have the run in front of them. -/
def Padded (pad pad' tail s s' : Bytes) : Prop :=
  (s' = s ∧ s.length ≤ tail.length) ∨
  ∃ u, EndsInSpace u ∧ s = u ++ (pad ++ tail) ∧ s' = u ++ (pad' ++ tail)

theorem Padded.spaces {pad pad' tail s s' : Bytes} (hpad' : Spaces pad')
    (h : Padded pad pad' tail s s') (hs : Spaces s) : Spaces s' := by
  rcases h with ⟨rfl, -⟩ | ⟨u, -, rfl, rfl⟩
  · exact hs
  · intro c hc
    simp only [List.mem_append] at hc
    rcases hc with hc | hc | hc
    · exact hs c (by simp [hc])
    · exact hpad' c hc
    · exact hs c (by simp [hc])

section Padded

variable {pad pad' tail : Bytes} (hpad : Spaces pad) (hpad' : Spaces pad')
include hpad hpad'

theorem skip_padded (tail : Bytes) {u : Bytes} (hu : Spaces u) :
    skipWhitespace (u ++ (pad ++ tail)) = skipWhitespace tail ∧
    skipWhitespace (u ++ (pad' ++ tail)) = skipWhitespace tail := by
  rw [← List.append_assoc, ← List.append_assoc]
  exact ⟨List.dropWhile_append_of_pos (hu.append hpad), List.dropWhile_append_of_pos (hu.append hpad')⟩

/-- A token without whitespace is read at both texts: it is the same token behind the
run, or it stands in front of it. -/
theorem padded_token (token : Bytes → Bytes → Prop)
    (hskip : ∀ {s s' rest}, skipWhitespace s = skipWhitespace s' → token s rest → token s' rest)
    (htoken : ∀ {s rest}, token s rest → ∃ ws text, s = ws ++ (text ++ rest) ∧ Spaces ws ∧
      (∀ c ∈ text, isspace c = false) ∧
      ∀ rest', peek rest' = peek rest → token (ws ++ (text ++ rest')) rest')
    {s rest s' : Bytes} (h : token s rest) (hL : Padded pad pad' tail s s') :
    ∃ rest', token s' rest' ∧ Padded pad pad' tail rest rest' := by
  have hlength : ∀ {s : Bytes}, token s rest → rest.length ≤ s.length := by
    intro s hs
    obtain ⟨ws, text, rfl, -⟩ := htoken hs
    simp only [List.length_append]
    omega
  rcases hL with ⟨rfl, hle⟩ | ⟨u, hu, rfl, rfl⟩
  · exact ⟨rest, h, .inl ⟨rfl, (hlength h).trans hle⟩⟩
  · obtain ⟨ws, text, heq, hws, hclear, hread⟩ := htoken h
    rcases token_within hu heq hws hclear with hspaces | ⟨u', hu', rfl, rfl⟩
    · obtain ⟨hleft, hright⟩ := skip_padded hpad hpad' tail hspaces
      have htail : token tail rest := hskip hleft h
      exact ⟨rest, hskip hright.symm htail, .inl ⟨rfl, hlength htail⟩⟩
    · refine ⟨u' ++ (pad' ++ tail), ?_, .inr ⟨u', hu', rfl, rfl⟩⟩
      rw [List.append_assoc, List.append_assoc]
      exact hread _ (peek_append hu'.ne_nil _ _)

theorem keyword_padded {word s rest s' : Bytes} (hword : IsWord word) (h : Keyword word s rest)
    (hL : Padded pad pad' tail s s') :
    ∃ rest', Keyword word s' rest' ∧ Padded pad pad' tail rest rest' := by
  refine padded_token hpad hpad' (Keyword word) (fun hskip h => h.of_skip hskip hword) ?_ h hL
  rintro s rest ⟨ws, letters, rfl, hws, hletters, hstop⟩
  refine ⟨ws, letters, by simp, hws, ?_, ?_⟩
  · intro c hc
    exact isspace_of_isIdentifierChar c (isIdentifierChar_letters hword hletters c hc)
  · intro rest' hpeek
    exact ⟨ws, letters, by simp, hws, hletters, hpeek ▸ hstop⟩

theorem ident_padded {s name rest s' : Bytes} (h : Ident s name rest)
    (hL : Padded pad pad' tail s s') :
    ∃ rest', Ident s' name rest' ∧ Padded pad pad' tail rest rest' := by
  refine padded_token hpad hpad' (fun s rest => Ident s name rest)
    (fun hskip h => h.of_skip hskip) ?_ h hL
  rintro s rest ⟨ws, rfl, hws, hne, hname, hstop⟩
  refine ⟨ws, name, by simp, hws, fun c hc => isspace_of_isIdentifierChar c (hname c hc), ?_⟩
  intro rest' hpeek
  exact ⟨ws, by simp, hws, hne, hname, hpeek ▸ hstop⟩

theorem symbol_padded {c : UInt8} (hc : c ≠ 0) (hspace : isspace c = false) {s rest s' : Bytes}
    (h : Symbol c s rest) (hL : Padded pad pad' tail s s') :
    ∃ rest', Symbol c s' rest' ∧ Padded pad pad' tail rest rest' := by
  refine padded_token hpad hpad' (Symbol c) (fun hskip h => h.of_skip hskip hc hspace) ?_ h hL
  rintro s rest ⟨ws, rfl, hws⟩
  refine ⟨ws, [c], by simp, hws, by simpa using hspace, ?_⟩
  intro rest' _
  exact ⟨ws, by simp, hws⟩

end Padded

theorem Crosses.length {later value after : Bytes} (h : Crosses later value after) :
    after.length < later.length ∧ later.length ≤ value.length + 1 + after.length := by
  obtain ⟨inside, quote, rfl, hinside, -⟩ := h
  have := hinside.length_le
  simp only [List.length_append, List.length_cons]
  omega

/-- A value that the run is inside holds its first byte. -/
theorem Crosses.space {pad tail value after : Bytes} (hpad : Spaces pad) (hne : pad ≠ [])
    (h : Crosses (pad ++ tail) value after) : ∃ c ∈ value, isspace c = true := by
  obtain ⟨inside, quote, heq, hinside, hsome, -⟩ := h
  obtain ⟨c, pad, rfl⟩ := List.exists_cons_of_ne_nil hne
  obtain ⟨d, inside, rfl⟩ := List.exists_cons_of_ne_nil hsome
  obtain ⟨rfl, -⟩ : c = d ∧ _ := by simpa using heq
  exact ⟨c, hinside.subset List.mem_cons_self, hpad c List.mem_cons_self⟩

theorem isspace_quote {quote : UInt8} (h : quote = singleQuote ∨ quote = doubleQuote) :
    isspace quote = false := by
  rcases h with rfl | rfl <;> rfl

/-- A quoted value that is cut at whitespace is cut between its quotes. -/
theorem quoted_cut {early late body : Bytes} {quote : UInt8} (hclear : isspace quote = false)
    (hearly : EndsInSpace early) (htext : quote :: body ++ [quote] = early ++ late) :
    ∃ front inside, early = quote :: front ∧ EndsInSpace front ∧ late = inside ++ [quote] ∧
      body = front ++ inside := by
  obtain ⟨c, front, rfl⟩ := List.exists_cons_of_ne_nil hearly.ne_nil
  obtain ⟨rfl, hrest⟩ : quote = c ∧ body ++ [quote] = front ++ late := by simpa using htext
  have hfront : EndsInSpace front := by
    refine EndsInSpace.of_append [quote] hearly ?_
    rintro rfl
    obtain ⟨c, hc, hspace⟩ := hearly.mem
    rw [List.mem_singleton.mp hc, hclear] at hspace
    cases hspace
  have hlast : front.getLast? ≠ some quote := by
    obtain ⟨init, c, rfl, hc⟩ := hfront
    rw [List.getLast?_concat]
    rintro ⟨⟩
    rw [hclear] at hc
    cases hc
  obtain ⟨inside, hlate, hbody⟩ := cut_last front hrest hlast
  exact ⟨front, inside, rfl, hfront, hlate, hbody⟩

/-- The run ends in front of the closing quote. -/
theorem run_inside {pad tail inside rest : Bytes} {quote : UInt8} (hpad : quote ∉ pad)
    (h : pad ++ tail = inside ++ quote :: rest) :
    ∃ back, inside = pad ++ back ∧ tail = back ++ quote :: rest := by
  rcases List.append_eq_append_iff.mp h with ⟨back, hback, htail⟩ | ⟨more, hmore, htail⟩
  · exact ⟨back, hback, htail⟩
  · cases more with
    | nil => exact ⟨[], by simpa using hmore.symm, by simpa using htail.symm⟩
    | cons c more =>
      obtain ⟨rfl, -⟩ : quote = c ∧ _ := by simpa using htail
      exact absurd (by simp [hmore]) hpad

/-- A quoted value that begins in front of the run and ends behind it. -/
theorem quoted_padded {pad pad' tail early late body rest : Bytes} {quote : UInt8}
    (hquote : quote = singleQuote ∨ quote = doubleQuote) (hinside : quote ∉ body)
    (hpad : Spaces pad) (hne : pad ≠ []) (hpad' : Spaces pad') (hlen : pad'.length ≠ pad.length)
    (hearly : EndsInSpace early) (htext : quote :: body ++ [quote] = early ++ late)
    (hlate : pad ++ tail = late ++ rest) :
    Crosses (pad ++ tail) body rest ∧ rest.length ≤ tail.length ∧
    ∃ text v', early ++ (pad' ++ tail) = text ++ rest ∧ ValueText text v' ∧ v' ≠ body := by
  have hclear := isspace_quote hquote
  have hnotMem : ∀ {ws : Bytes}, Spaces ws → quote ∉ ws := by
    intro ws hws hmem
    rw [hws quote hmem] at hclear
    cases hclear
  obtain ⟨front, inside, rfl, hfront, rfl, rfl⟩ := quoted_cut hclear hearly htext
  have hsplit : pad ++ tail = inside ++ quote :: rest := by simpa using hlate
  obtain ⟨back, rfl, rfl⟩ := run_inside (hnotMem hpad) hsplit
  refine ⟨⟨pad ++ back, quote, hsplit, List.suffix_append _ _, by simp [hne], hquote⟩, ?_, ?_⟩
  · simp only [List.length_append, List.length_cons]
    omega
  · refine ⟨quote :: (front ++ (pad' ++ back)) ++ [quote], front ++ (pad' ++ back), by simp, ?_, ?_⟩
    · simp only [List.mem_append, not_or] at hinside
      refine .quoted hquote (by simp [hfront.ne_nil]) ?_
      simp only [List.mem_append, not_or]
      exact ⟨hinside.1, hnotMem hpad', hinside.2.2⟩
    · intro heq
      have := congrArg List.length heq
      simp only [List.length_append] at this
      omega

/-- A value stays as it is unless the run is inside it. -/
def Kept (later v rest v' : Bytes) : Prop :=
  (Crosses later v rest ∧ v' ≠ v) ∨ (¬ Crosses later v rest ∧ v' = v)

/-- The run is not inside a value that begins behind it. -/
theorem Value.not_crosses {pad tail s v rest : Bytes} (hpad : Spaces pad) (hne : pad ≠ [])
    (hle : s.length ≤ tail.length) (h : Value s v rest) :
    ¬ Crosses (pad ++ tail) v rest ∧ rest.length ≤ tail.length := by
  obtain ⟨ws, text, rfl, -, htext⟩ := h
  simp only [List.length_append] at hle
  refine ⟨fun hcross => ?_, by omega⟩
  cases htext with
  | quoted =>
    have := hcross.length.2
    simp only [List.length_append, List.length_cons] at this hle
    omega
  | bare _ hfree =>
    obtain ⟨c, hc, hspace⟩ := hcross.space hpad hne
    rw [(hfree c hc).2.2.2] at hspace
    cases hspace

theorem value_padded {pad pad' tail s v rest s' : Bytes} (hpad : Spaces pad) (hne : pad ≠ [])
    (hpad' : Spaces pad') (hlen : pad'.length ≠ pad.length) (h : Value s v rest)
    (hL : Padded pad pad' tail s s') :
    ∃ v' rest', Value s' v' rest' ∧ Kept (pad ++ tail) v rest v' ∧
      Padded pad pad' tail rest rest' := by
  rcases hL with ⟨rfl, hle⟩ | ⟨u, hu, rfl, rfl⟩
  · obtain ⟨hcross, hrest⟩ := h.not_crosses hpad hne hle
    exact ⟨v, rest, h, .inr ⟨hcross, rfl⟩, .inl ⟨rfl, hrest⟩⟩
  · obtain ⟨ws, text, heq, hws, htext⟩ := id h
    rw [List.append_assoc] at heq
    rcases token_cases hu heq hws with hspaces | ⟨u', hu', rfl, rfl⟩ |
      ⟨early, late, hearly, rfl, hearlyLate, hlate⟩
    · obtain ⟨hleft, hright⟩ := skip_padded hpad hpad' tail hspaces
      have htail : Value tail v rest := h.of_skip hleft
      obtain ⟨hcross, hrest⟩ := htail.not_crosses hpad hne le_rfl
      exact ⟨v, rest, htail.of_skip hright.symm, .inr ⟨hcross, rfl⟩, .inl ⟨rfl, hrest⟩⟩
    · refine ⟨v, u' ++ (pad' ++ tail), ⟨ws, text, by simp, hws, htext⟩, .inr ⟨?_, rfl⟩,
        .inr ⟨u', hu', rfl, rfl⟩⟩
      intro hcross
      have := hcross.length.1
      simp only [List.length_append] at this
      omega
    · cases htext with
      | quoted hquote _ hinside =>
        obtain ⟨hcross, hrest, text, v', htext, hv', hother⟩ :=
          quoted_padded hquote hinside hpad hne hpad' hlen hearly hearlyLate hlate
        exact ⟨v', rest, ⟨ws, text, by simp [htext], hws, hv'⟩, .inl ⟨hcross, hother⟩,
          .inl ⟨rfl, hrest⟩⟩
      | bare _ hfree =>
        obtain ⟨c, hc, hspace⟩ := hearly.mem
        rw [(hfree c (hearlyLate ▸ List.mem_append_left _ hc)).2.2.2] at hspace
        cases hspace

theorem simulation_padded {pad pad' : Bytes} (tail : Bytes) (hpad : Spaces pad) (hne : pad ≠ [])
    (hpad' : Spaces pad') (hlen : pad'.length ≠ pad.length) :
    Simulation (Padded pad pad' tail) (Kept (pad ++ tail)) where
  keyword hword h hL := keyword_padded hpad hpad' hword h hL
  ident h hL := ident_padded hpad hpad' h hL
  symbol hmark h hL := by
    obtain ⟨hzero, hspace⟩ := isMark_clear hmark
    exact symbol_padded hpad hpad' hzero hspace h hL
  value h hL := value_padded hpad hne hpad' hlen h hL
  finish := by
    rintro (_ | _) s s' h hL
    · exact ⟨false, hL.spaces hpad' h⟩
    · obtain ⟨rest, hsemi, hrest⟩ := h
      obtain ⟨rest', hsemi, hL⟩ := symbol_padded hpad hpad' (by decide) rfl hsemi hL
      exact ⟨true, rest', hsemi, hL.spaces hpad' hrest⟩

theorem kept_iff {later : Bytes} {spans spans' : List (Bytes × Bytes)}
    (h : List.Forall₂ (fun x x' => Kept later x.1 x.2 x'.1) spans spans') :
    spans'.map Prod.fst = spans.map Prod.fst ↔ ∀ x ∈ spans, ¬ Crosses later x.1 x.2 := by
  induction h with
  | nil => simp
  | cons hkept _ ih =>
    rw [List.forall_mem_cons, ← ih, List.map_cons, List.map_cons, List.cons.injEq]
    rcases hkept with ⟨hcross, hother⟩ | ⟨hcross, heq⟩
    · simp [hcross, hother]
    · simp [hcross, heq]

/-- **Another run of whitespace.** The statement with the other run is accepted too, and
stands for the same query unless the run is inside one of its values. -/
theorem Tree.Derives.padded {u pad pad' tail : Bytes} {t : Tree} (hu : EndsInSpace u)
    (hpad : Spaces pad) (hne : pad ≠ []) (hpad' : Spaces pad') (hlen : pad'.length ≠ pad.length)
    (ht : t.Derives (u ++ (pad ++ tail))) : ∃ t' : Tree, t'.Derives (u ++ (pad' ++ tail)) ∧
      (t'.query = t.query ↔ ∀ x ∈ t.spans, ¬ Crosses (pad ++ tail) x.1 x.2) := by
  obtain ⟨t', ht', hframe, hspans⟩ :=
    (simulation_padded tail hpad hne hpad' hlen).tree ht (.inr ⟨u, hu, rfl, rfl⟩)
  exact ⟨t', ht', (Tree.query_eq_iff hframe).trans (kept_iff hspans)⟩

end MiniSql.Query
