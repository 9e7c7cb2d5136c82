import MiniSql.Query.Parser

/-!
# The tokens of the grammar

A token is a relation between a text and what is left of it behind the token.
Whitespace may stand before every token; a keyword or an identifier ends where
no identifier character follows. Each relation is shown to be what the scanner
of the parser computes, so each is a partial function of the text.
-/

namespace MiniSql.Query

/-! ## Tokens -/

def Spaces (s : Bytes) : Prop := ∀ c ∈ s, isspace c = true

/-- `word` in any letter case, and no identifier character behind it. -/
def Keyword (word s rest : Bytes) : Prop :=
  ∃ ws letters, s = ws ++ letters ++ rest ∧ Spaces ws ∧ letters.map tolower = word ∧
    isIdentifierChar (peek rest) = false

/-- A maximal nonempty run of identifier characters. -/
def Ident (s name rest : Bytes) : Prop :=
  ∃ ws, s = ws ++ name ++ rest ∧ Spaces ws ∧ name ≠ [] ∧ (∀ c ∈ name, isIdentifierChar c = true) ∧
    isIdentifierChar (peek rest) = false

def Symbol (c : UInt8) (s rest : Bytes) : Prop :=
  ∃ ws, s = ws ++ c :: rest ∧ Spaces ws

/-- How a value is written, and the value. -/
inductive ValueText : Bytes → Bytes → Prop
  | quoted {quote : UInt8} {body : Bytes} (isQuote : quote = singleQuote ∨ quote = doubleQuote)
      (nonempty : body ≠ []) (inside : quote ∉ body) : ValueText (quote :: body ++ [quote]) body
  | bare {body : Bytes} (nonempty : body ≠ [])
      (free : ∀ c ∈ body, c ≠ comma ∧ c ≠ 0x29 ∧ c ≠ 0x3b ∧ isspace c = false)
      (noQuote : peek body ≠ singleQuote ∧ peek body ≠ doubleQuote) : ValueText body body

def Value (s value rest : Bytes) : Prop :=
  ∃ ws text, s = ws ++ text ++ rest ∧ Spaces ws ∧ ValueText text value

/-- The end of a statement, with or without its semicolon. -/
def End (semicolon : Bool) (s : Bytes) : Prop :=
  if semicolon then ∃ rest, Symbol 0x3b s rest ∧ Spaces rest else Spaces s

/-! ## The scanners -/

theorem isspace_zero : isspace 0 = false := rfl

theorem skipWhitespace_append {ws rest : Bytes} (hws : Spaces ws)
    (hrest : isspace (peek rest) = false) : skipWhitespace (ws ++ rest) = rest := by
  rw [skipWhitespace, List.dropWhile_append_of_pos hws]
  cases rest with
  | nil => rfl
  | cons c cs => exact List.dropWhile_cons_of_neg (by simpa [peek] using hrest)

theorem skipWhitespace_idem (s : Bytes) : skipWhitespace (skipWhitespace s) = skipWhitespace s :=
  skipWhitespace_append (List.forall_mem_nil _) (dropWhile_stop isspace_zero)

theorem skipWhitespace_spec (s : Bytes) :
    ∃ ws, Spaces ws ∧ s = ws ++ skipWhitespace s ∧ isspace (peek (skipWhitespace s)) = false := by
  refine ⟨s.takeWhile isspace, fun c hc => List.all_eq_true.mp List.all_takeWhile c hc,
    List.takeWhile_append_dropWhile.symm, dropWhile_stop isspace_zero⟩

theorem matchLetters_iff {word s rest : Bytes} (hword : word.map tolower = word) :
    matchLetters s word = some rest ↔ ∃ letters, s = letters ++ rest ∧ letters.map tolower = word := by
  induction word generalizing s with
  | nil => simp [matchLetters, eq_comm]
  | cons k word ih =>
    simp only [List.map_cons, List.cons.injEq] at hword
    cases s with
    | nil =>
      simp only [matchLetters, reduceCtorEq, false_iff, not_exists, not_and]
      rintro letters hs hl
      simp [List.append_eq_nil_iff.mp hs.symm] at hl
    | cons c s =>
      simp only [matchLetters, hword.1]
      by_cases hc : tolower c = k
      · rw [if_pos hc, ih hword.2]
        constructor
        · rintro ⟨letters, rfl, hl⟩
          exact ⟨c :: letters, rfl, by simp [hc, hl]⟩
        · rintro ⟨letters, hs, hl⟩
          cases letters with
          | nil => simp at hl
          | cons d letters =>
            simp only [List.cons_append, List.cons.injEq] at hs
            simp only [List.map_cons, List.cons.injEq] at hl
            exact ⟨letters, hs.2, hl.2⟩
      · rw [if_neg hc]
        simp only [reduceCtorEq, false_iff, not_exists, not_and]
        rintro letters hs hl
        cases letters with
        | nil => simp at hl
        | cons d letters =>
          simp only [List.cons_append, List.cons.injEq] at hs
          simp only [List.map_cons, List.cons.injEq] at hl
          exact hc (hs.1 ▸ hl.1)

/-- A word that `matchKeyword` looks for. -/
structure IsWord (word : Bytes) : Prop where
  lower : word.map tolower = word
  ident : word.all isIdentifierChar = true
  nonempty : word ≠ []

instance (word : Bytes) : Decidable (IsWord word) :=
  decidable_of_iff (word.map tolower = word ∧ word.all isIdentifierChar = true ∧ word ≠ [])
    ⟨fun h => ⟨h.1, h.2.1, h.2.2⟩, fun h => ⟨h.lower, h.ident, h.nonempty⟩⟩

theorem isspace_of_isIdentifierChar (c : UInt8) : isIdentifierChar c = true → isspace c = false :=
  forall_byte (p := fun c => isIdentifierChar c = true → isspace c = false) (by decide +kernel) c

theorem isspace_of_tolower (c : UInt8) : isspace (tolower c) = isspace c :=
  forall_byte (p := fun c => isspace (tolower c) = isspace c) (by decide +kernel) c

theorem isIdentifierChar_tolower (c : UInt8) : isIdentifierChar (tolower c) = isIdentifierChar c :=
  forall_byte (p := fun c => isIdentifierChar (tolower c) = isIdentifierChar c)
    (by decide +kernel) c

theorem isspace_letters {word letters rest : Bytes} (hword : IsWord word)
    (hl : letters.map tolower = word) : isspace (peek (letters ++ rest)) = false := by
  cases letters with
  | nil => exact absurd hl.symm hword.nonempty
  | cons c letters =>
    have hc : isspace (tolower c) = false :=
      isspace_of_isIdentifierChar _ (List.all_eq_true.mp hword.ident _ (by simp [← hl]))
    rwa [isspace_of_tolower] at hc

theorem matchKeyword_iff {word s rest : Bytes} (hword : IsWord word) :
    matchKeyword s word = some rest ↔ Keyword word s rest := by
  constructor
  · intro h
    obtain ⟨ws, hws, hs, -⟩ := skipWhitespace_spec s
    unfold matchKeyword at h
    split at h
    · cases h
    · rename_i rest' hletters
      obtain ⟨letters, hcut, hlow⟩ := (matchLetters_iff hword.lower).mp hletters
      split at h
      · cases h
      · rename_i hident
        cases h
        exact ⟨ws, letters, by rw [List.append_assoc, ← hcut, ← hs], hws, hlow, by simpa using hident⟩
  · rintro ⟨ws, letters, rfl, hws, hlow, hident⟩
    have hskip : skipWhitespace (ws ++ letters ++ rest) = letters ++ rest := by
      rw [List.append_assoc]
      exact skipWhitespace_append hws (isspace_letters hword hlow)
    have hletters : matchLetters (letters ++ rest) word = some rest :=
      (matchLetters_iff hword.lower).mpr ⟨letters, rfl, hlow⟩
    simp only [matchKeyword, hskip, hletters, hident, Bool.false_eq_true, if_false]

theorem takeWhile_append_stop {p : UInt8 → Bool} {run rest : Bytes} (hrun : ∀ c ∈ run, p c = true)
    (hrest : p (peek rest) = false) :
    (run ++ rest).takeWhile p = run ∧ (run ++ rest).dropWhile p = rest := by
  rw [List.takeWhile_append_of_pos hrun, List.dropWhile_append_of_pos hrun]
  cases rest with
  | nil => simp
  | cons c rest =>
    have hc : ¬ p c = true := by simpa [peek] using hrest
    rw [List.takeWhile_cons_of_neg hc, List.dropWhile_cons_of_neg hc]
    simp

theorem parseIdentifier_iff {s name rest : Bytes} :
    parseIdentifier s = .ok (name, rest) ↔ Ident s name rest := by
  constructor
  · intro h
    obtain ⟨ws, hws, hs, -⟩ := skipWhitespace_spec s
    simp only [parseIdentifier] at h
    generalize skipWhitespace s = start at h hs
    split at h
    · rename_i hfirst
      cases h
      refine ⟨ws, ?_, hws, ?_, List.all_eq_true.mp List.all_takeWhile, dropWhile_stop rfl⟩
      · rw [List.append_assoc, List.takeWhile_append_dropWhile, hs]
      · cases start with
        | nil => cases hfirst
        | cons c cs =>
          rw [List.takeWhile_cons_of_pos (by exact hfirst)]
          exact List.cons_ne_nil _ _
    · cases h
  · rintro ⟨ws, rfl, hws, hne, hname, hstop⟩
    have hfirst : isIdentifierChar (peek (name ++ rest)) = true := by
      cases name with
      | nil => exact absurd rfl hne
      | cons c cs => exact hname c List.mem_cons_self
    have hskip : skipWhitespace (ws ++ name ++ rest) = name ++ rest := by
      rw [List.append_assoc]
      exact skipWhitespace_append hws (isspace_of_isIdentifierChar _ hfirst)
    obtain ⟨htake, hdrop⟩ := takeWhile_append_stop hname hstop
    simp only [parseIdentifier, hskip, hfirst, if_true, htake, hdrop]

theorem symbol_iff {c : UInt8} {s rest : Bytes} (hc : c ≠ 0) (hspace : isspace c = false) :
    peek (skipWhitespace s) = c ∧ (skipWhitespace s).drop 1 = rest ↔ Symbol c s rest := by
  constructor
  · rintro ⟨hpeek, hdrop⟩
    obtain ⟨ws, hws, hs, -⟩ := skipWhitespace_spec s
    generalize skipWhitespace s = start at hpeek hdrop hs
    cases start with
    | nil => exact absurd hpeek.symm hc
    | cons d start =>
      obtain rfl : d = c := hpeek
      obtain rfl : start = rest := hdrop
      exact ⟨ws, hs, hws⟩
  · rintro ⟨ws, rfl, hws⟩
    rw [skipWhitespace_append hws (by exact hspace)]
    exact ⟨rfl, rfl⟩

/-- Where an unquoted value ends. -/
def Delimited (rest : Bytes) : Prop := isBareChar (peek rest) = false

theorem isBareChar_of_isspace {c : UInt8} (h : isspace c = true) : isBareChar c = false := by
  simp [isBareChar, h]

theorem Symbol.delimited {c : UInt8} {s rest : Bytes} (h : Symbol c s rest)
    (hc : isBareChar c = false) : Delimited s := by
  obtain ⟨ws, rfl, hws⟩ := h
  cases ws with
  | nil => exact hc
  | cons w ws => exact isBareChar_of_isspace (hws w List.mem_cons_self)

theorem End.delimited {semicolon : Bool} {s : Bytes} (h : End semicolon s) : Delimited s := by
  cases semicolon with
  | true =>
    obtain ⟨rest, hsemi, -⟩ := h
    exact hsemi.delimited rfl
  | false =>
    cases s with
    | nil => rfl
    | cons w ws => exact isBareChar_of_isspace (h w List.mem_cons_self)

theorem isBareChar_iff {c : UInt8} (hc : c ≠ 0) :
    isBareChar c = true ↔ c ≠ comma ∧ c ≠ 0x29 ∧ c ≠ 0x3b ∧ isspace c = false := by
  simp [isBareChar, hc, and_assoc]

theorem parseValue_sound {s value rest : Bytes}
    (h : parseValue s = .ok (value, rest)) : Value s value rest := by
  obtain ⟨ws, hws, hcut, -⟩ := skipWhitespace_spec s
  simp only [parseValue] at h
  generalize skipWhitespace s = start at h hcut
  split at h
  · rename_i hquote
    cases start with
    | nil => simp [peek, singleQuote, doubleQuote] at hquote
    | cons quote start =>
      simp only [peek, List.headD_cons, List.drop_succ_cons, List.drop_zero] at h hquote
      split at h
      · cases h
      · rename_i hclose
        split at h
        · cases h
        · rename_i hbody
          cases h
          rw [← List.takeWhile_append_dropWhile (p := isQuotedChar quote) (l := start)] at hcut
          have hbodyChars : ∀ c ∈ start.takeWhile (isQuotedChar quote), isQuotedChar quote c = true :=
            List.all_eq_true.mp List.all_takeWhile
          generalize start.takeWhile (isQuotedChar quote) = body at hcut hbody hbodyChars
          generalize start.dropWhile (isQuotedChar quote) = tail at hcut hclose
          have htail : tail = quote :: tail.drop 1 := by
            cases tail with
            | nil =>
              obtain rfl : (0 : UInt8) = quote := by simpa using hclose
              simp [singleQuote, doubleQuote] at hquote
            | cons d tail =>
              obtain rfl : d = quote := by simpa using hclose
              rfl
          refine ⟨ws, quote :: body ++ [quote], ?_, hws, .quoted hquote (by simpa using hbody) ?_⟩
          · rw [hcut, htail]
            simp
          · intro hmem
            simpa [isQuotedChar] using hbodyChars quote hmem
  · rename_i hquote
    split at h
    · cases h
    · rename_i hbody
      cases h
      refine ⟨ws, start.takeWhile isBareChar, ?_, hws, .bare (by simpa using hbody) ?_ ?_⟩
      · rw [List.append_assoc, List.takeWhile_append_dropWhile, hcut]
      · intro c hc
        have hbare : isBareChar c = true := List.all_eq_true.mp List.all_takeWhile c hc
        have hzero : c ≠ 0 := by
          rintro rfl
          exact absurd hbare (by decide)
        exact (isBareChar_iff hzero).mp hbare
      · cases start with
        | nil => simp at hbody
        | cons c start =>
          by_cases hc : isBareChar c = true
          · rw [List.takeWhile_cons_of_pos hc]
            exact not_or.mp hquote
          · simp [hc] at hbody

theorem parseValue_nulFree {s value rest : Bytes} (h : parseValue s = .ok (value, rest)) :
    0 ∉ value := by
  have hclass : ∀ {p : UInt8 → Bool} {t : Bytes}, p 0 = false → 0 ∉ t.takeWhile p := by
    intro p t hp hmem
    exact absurd (List.all_eq_true.mp List.all_takeWhile 0 hmem) (by simp [hp])
  simp only [parseValue] at h
  split at h
  · split at h
    · cases h
    · split at h
      · cases h
      · cases h
        exact hclass rfl
  · split at h
    · cases h
    · cases h
      exact hclass rfl

theorem parseValue_complete {s value rest : Bytes} (hs : 0 ∉ s) (h : Value s value rest)
    (hrest : Delimited rest) : parseValue s = .ok (value, rest) := by
  obtain ⟨ws, text, rfl, hws, htext⟩ := h
  cases htext with
  | @quoted quote body hquote hne hinside =>
    have hskip : skipWhitespace (ws ++ (quote :: value ++ [quote]) ++ rest) =
        quote :: (value ++ quote :: rest) := by
      have : isspace quote = false := by rcases hquote with rfl | rfl <;> rfl
      rw [List.append_assoc, skipWhitespace_append hws (by exact this)]
      simp
    have hchars : ∀ c ∈ value, isQuotedChar quote c = true := by
      intro c hc
      have hzero : c ≠ 0 := by
        rintro rfl
        exact hs (by simp [hc])
      have hother : c ≠ quote := by
        rintro rfl
        exact hinside hc
      simp [isQuotedChar, hzero, hother]
    have hstop : isQuotedChar quote (peek (quote :: rest)) = false := by simp [isQuotedChar, peek]
    obtain ⟨htake, hdrop⟩ := takeWhile_append_stop hchars hstop
    simp only [parseValue, hskip, peek, List.headD_cons, hquote, if_true, List.drop_succ_cons,
      List.drop_zero, htake, hdrop, ne_eq, not_true, if_false, List.isEmpty_iff, hne]
  | bare hne hfree hnoQuote =>
    have hchars : ∀ c ∈ value, isBareChar c = true := by
      intro c hc
      have hzero : c ≠ 0 := by
        rintro rfl
        exact hs (by simp [hc])
      exact (isBareChar_iff hzero).mpr (hfree c hc)
    have hpeek : peek (value ++ rest) = peek value := by
      cases value with
      | nil => exact absurd rfl hne
      | cons c cs => rfl
    have hfirst : isspace (peek (value ++ rest)) = false := by
      rw [hpeek]
      cases value with
      | nil => exact absurd rfl hne
      | cons c cs => exact (hfree c List.mem_cons_self).2.2.2
    have hskip : skipWhitespace (ws ++ value ++ rest) = value ++ rest := by
      rw [List.append_assoc]
      exact skipWhitespace_append hws hfirst
    obtain ⟨htake, hdrop⟩ := takeWhile_append_stop hchars hrest
    simp only [parseValue, hskip, hpeek, hnoQuote.1, hnoQuote.2, or_self, if_false, htake, hdrop,
      List.isEmpty_iff, hne]

theorem peek_skipWhitespace_eq_zero {s : Bytes} (hs : 0 ∉ s) :
    peek (skipWhitespace s) = 0 ↔ Spaces s := by
  obtain ⟨ws, hws, hcut, -⟩ := skipWhitespace_spec s
  constructor
  · intro hpeek
    generalize skipWhitespace s = start at hpeek hcut
    cases start with
    | nil => simpa [hcut] using hws
    | cons c start =>
      obtain rfl : c = 0 := hpeek
      exact absurd (by simp [hcut]) hs
  · intro hspaces
    have hskip : skipWhitespace (s ++ []) = [] := skipWhitespace_append hspaces isspace_zero
    rw [List.append_nil] at hskip
    rw [hskip]
    rfl

/-! ## Tokens as functions of the text -/

section NulFree

variable {s : Bytes} (hs : 0 ∉ s)
include hs

theorem Keyword.nulFree {word rest : Bytes} (h : Keyword word s rest) : 0 ∉ rest := by
  obtain ⟨ws, letters, rfl, -⟩ := h
  exact fun hmem => hs (List.mem_append_right _ hmem)

theorem Ident.nulFree {name rest : Bytes} (h : Ident s name rest) : 0 ∉ rest := by
  obtain ⟨ws, rfl, -⟩ := h
  exact fun hmem => hs (List.mem_append_right _ hmem)

theorem Symbol.nulFree {c : UInt8} {rest : Bytes} (h : Symbol c s rest) : 0 ∉ rest := by
  obtain ⟨ws, rfl, -⟩ := h
  exact fun hmem => hs (List.mem_append_right _ (List.mem_cons_of_mem c hmem))

theorem Value.nulFree {value rest : Bytes} (h : Value s value rest) : 0 ∉ rest := by
  obtain ⟨ws, text, rfl, -⟩ := h
  exact fun hmem => hs (List.mem_append_right _ hmem)

theorem End.atEnd {semicolon : Bool} (h : End semicolon s) :
    Query.atEnd s = true ∧ (semicolon = true ↔ peek (skipWhitespace s) = 0x3b) := by
  cases semicolon with
  | true =>
    obtain ⟨rest, hsemi, hrest⟩ := h
    obtain ⟨hpeek, hdrop⟩ := (symbol_iff (by decide) rfl).mpr hsemi
    have hzero := (peek_skipWhitespace_eq_zero (hsemi.nulFree hs)).mpr hrest
    simp [Query.atEnd, hpeek, hdrop, hzero]
  | false =>
    have hzero := (peek_skipWhitespace_eq_zero hs).mpr h
    simp [Query.atEnd, hzero, skipWhitespace_idem]

theorem End.unique {semicolon semicolon' : Bool} (h : End semicolon s) (h' : End semicolon' s) :
    semicolon = semicolon' :=
  Bool.eq_iff_iff.mpr ((h.atEnd hs).2.trans (h'.atEnd hs).2.symm)

theorem exists_end (h : atEnd s = true) : ∃ semicolon, End semicolon s := by
  obtain ⟨ws, hws, hcut, hstop⟩ := skipWhitespace_spec s
  simp only [atEnd, beq_iff_eq] at h
  by_cases hsemi : peek (skipWhitespace s) = 0x3b
  · rw [if_pos hsemi] at h
    have hsym := (symbol_iff (by decide) rfl).mp ⟨hsemi, rfl⟩
    exact ⟨true, _, hsym, (peek_skipWhitespace_eq_zero (hsym.nulFree hs)).mp h⟩
  · rw [if_neg hsemi] at h
    refine ⟨false, (peek_skipWhitespace_eq_zero hs).mp ?_⟩
    rwa [skipWhitespace_idem] at h

theorem Value.unique {value value' rest rest' : Bytes} (h : Value s value rest)
    (hd : Delimited rest) (h' : Value s value' rest') (hd' : Delimited rest') :
    value = value' ∧ rest = rest' := by
  have := (parseValue_complete hs h hd).symm.trans (parseValue_complete hs h' hd')
  simpa using this

end NulFree

theorem Keyword.unique {word s rest rest' : Bytes} (hword : IsWord word) (h : Keyword word s rest)
    (h' : Keyword word s rest') : rest = rest' := by
  have := ((matchKeyword_iff hword).mpr h).symm.trans ((matchKeyword_iff hword).mpr h')
  simpa using this

theorem Ident.unique {s name name' rest rest' : Bytes} (h : Ident s name rest)
    (h' : Ident s name' rest') : name = name' ∧ rest = rest' := by
  have := (parseIdentifier_iff.mpr h).symm.trans (parseIdentifier_iff.mpr h')
  simpa using this

theorem Symbol.unique {c : UInt8} {s rest rest' : Bytes} (hc : c ≠ 0) (hspace : isspace c = false)
    (h : Symbol c s rest) (h' : Symbol c s rest') : rest = rest' :=
  ((symbol_iff hc hspace).mpr h).2.symm.trans ((symbol_iff hc hspace).mpr h').2

end MiniSql.Query
