import Mathlib

/-!
# JSON texts

The grammar of RFC 8259 as a recursive-descent parser over bytes: bytes from 0x80 on
stand for themselves in strings, and whatever behind a backslash stands for a
character is replaced by it. A number is a longest run of the characters that
numbers are made of; none of them can follow a number in a JSON text.

`Yields` says what the parser makes of a text wherever it stands, and the lemmas
about it follow the grammar: a text that joins the texts of members or elements
yields what these yield.
-/

namespace Json

abbrev Text := List UInt8

inductive Value
  | null
  | bool (b : Bool)
  | number (digits : Text)
  | string (chars : Text)
  | array (elements : List Value)
  | object (members : List (Text × Value))

def quote : UInt8 := 0x22
def backslash : UInt8 := 0x5c
def comma : UInt8 := 0x2c
def colon : UInt8 := 0x3a
def openBrace : UInt8 := 0x7b
def closeBrace : UInt8 := 0x7d
def openBracket : UInt8 := 0x5b
def closeBracket : UInt8 := 0x5d

/-! ## Grammar -/

def isWs (c : UInt8) : Bool := c == 0x20 || c == 0x09 || c == 0x0a || c == 0x0d

def skipWs (text : Text) : Text := text.dropWhile isWs

def isDigit (c : UInt8) : Bool := 0x30 ≤ c && c ≤ 0x39

/-- `1*DIGIT`: what is left behind the digits. -/
def digits (text : Text) : Option Text :=
  if (text.takeWhile isDigit).isEmpty then none else some (text.dropWhile isDigit)

/-- `int = zero / ( digit1-9 *DIGIT )`. -/
def int (text : Text) : Option Text :=
  if text.head? = some 0x30 then some text.tail else digits text

/-- `[ frac ]`, where `frac = decimal-point 1*DIGIT`. -/
def frac (text : Text) : Option Text :=
  if text.head? = some 0x2e then digits text.tail else some text

/-- `[ exp ]`, where `exp = e [ minus / plus ] 1*DIGIT`. -/
def exp (text : Text) : Option Text :=
  if text.head? = some 0x65 ∨ text.head? = some 0x45 then
    if text.tail.head? = some 0x2d ∨ text.tail.head? = some 0x2b then digits text.tail.tail
    else digits text.tail
  else some text

/-- `number = [ minus ] int [ frac ] [ exp ]`. -/
def isNumber (text : Text) : Bool :=
  (((int (if text.head? = some 0x2d then text.tail else text)).bind frac).bind exp) = some []

def isNumberChar (c : UInt8) : Bool :=
  isDigit c || c == 0x2d || c == 0x2b || c == 0x2e || c == 0x65 || c == 0x45

/-- The character that a backslash and a letter stand for. -/
def escaped (c : UInt8) : Option UInt8 :=
  if c = quote ∨ c = backslash ∨ c = 0x2f then some c
  else if c = 0x62 then some 0x08
  else if c = 0x66 then some 0x0c
  else if c = 0x6e then some 0x0a
  else if c = 0x72 then some 0x0d
  else if c = 0x74 then some 0x09
  else none

def hexDigit (c : UInt8) : Option Nat :=
  if isDigit c then some (c.toNat - 0x30)
  else if 0x61 ≤ c ∧ c ≤ 0x66 then some (c.toNat - 0x57)
  else if 0x41 ≤ c ∧ c ≤ 0x46 then some (c.toNat - 0x37)
  else none

/-- The bytes of a UTF-16 code unit. -/
def utf8 (code : Nat) : Text :=
  if code < 0x80 then [.ofNat code]
  else if code < 0x800 then [.ofNat (0xc0 + code / 64), .ofNat (0x80 + code % 64)]
  else [.ofNat (0xe0 + code / 4096), .ofNat (0x80 + code / 64 % 64), .ofNat (0x80 + code % 64)]

def hex4 (a b c d : UInt8) : Option Text := do
  let a ← hexDigit a
  let b ← hexDigit b
  let c ← hexDigit c
  let d ← hexDigit d
  return utf8 (((a * 16 + b) * 16 + c) * 16 + d)

/-- The characters of a string up to its closing quotation mark, and the text behind
it. -/
def chars : Text → Option (Text × Text)
  | [] => none
  | c :: text =>
    if c = quote then some ([], text)
    else if c = backslash then
      match text with
      | [] => none
      | e :: text =>
        if e = 0x75 then
          match text with
          | a :: b :: c :: d :: text => do
            let char ← hex4 a b c d
            let (rest, text) ← chars text
            return (char ++ rest, text)
          | _ => none
        else do
          let char ← escaped e
          let (rest, text) ← chars text
          return (char :: rest, text)
    else if c < 0x20 then none
    else do
      let (rest, text) ← chars text
      return (c :: rest, text)

def number (text : Text) : Option (Value × Text) :=
  let token := text.takeWhile isNumberChar
  if isNumber token then some (.number token, text.dropWhile isNumberChar) else none

/-- `false`, `null` and `true`. -/
def literal (text : Text) : Option (Value × Text) :=
  if let some rest := text.dropPrefix? [0x66, 0x61, 0x6c, 0x73, 0x65] then some (.bool false, rest)
  else if let some rest := text.dropPrefix? [0x6e, 0x75, 0x6c, 0x6c] then some (.null, rest)
  else if let some rest := text.dropPrefix? [0x74, 0x72, 0x75, 0x65] then some (.bool true, rest)
  else none

def expect (c : UInt8) (text : Text) : Option Text :=
  if text.head? = some c then some text.tail else none

mutual

/-- `ws value`, and the text behind it. -/
def value : Nat → Text → Option (Value × Text)
  | 0, _ => none
  | fuel + 1, text =>
    match skipWs text with
    | [] => none
    | c :: rest =>
      if c = openBrace then
        if (skipWs rest).head? = some closeBrace then some (.object [], (skipWs rest).tail)
        else do
          let (members, rest) ← members fuel rest
          return (.object members, rest)
      else if c = openBracket then
        if (skipWs rest).head? = some closeBracket then some (.array [], (skipWs rest).tail)
        else do
          let (elements, rest) ← elements fuel rest
          return (.array elements, rest)
      else if c = quote then do
        let (chars, rest) ← chars rest
        return (.string chars, rest)
      else if isNumberChar c then number (c :: rest)
      else literal (c :: rest)

/-- `member *( value-separator member )` up to the closing brace. -/
def members : Nat → Text → Option (List (Text × Value) × Text)
  | 0, _ => none
  | fuel + 1, text => do
    let text ← expect quote (skipWs text)
    let (name, text) ← chars text
    let text ← expect colon (skipWs text)
    let (v, text) ← value fuel text
    if (skipWs text).head? = some closeBrace then return ([(name, v)], (skipWs text).tail)
    else
      let text ← expect comma (skipWs text)
      let (rest, text) ← members fuel text
      return ((name, v) :: rest, text)

/-- `value *( value-separator value )` up to the closing bracket. -/
def elements : Nat → Text → Option (List Value × Text)
  | 0, _ => none
  | fuel + 1, text => do
    let (v, text) ← value fuel text
    if (skipWs text).head? = some closeBracket then return ([v], (skipWs text).tail)
    else
      let text ← expect comma (skipWs text)
      let (rest, text) ← elements fuel text
      return (v :: rest, text)

end

/-- `JSON-text = ws value ws`. Of two calls of the parser that follow each other one
consumes a byte, so that twice the length of the text is fuel enough. -/
def document (text : Text) : Option Value :=
  match value (2 * text.length + 1) text with
  | some (v, rest) => if (skipWs rest).isEmpty then some v else none
  | none => none

/-! ## What a text yields -/

/-- A number would end in front of this text. -/
def Stops (rest : Text) : Prop := ∀ c, rest.head? = some c → isNumberChar c = false

/-- The parser reads a text as a value, or fails on it, whatever follows. -/
def Yields (text : Text) (out : Option Value) : Prop :=
  ∀ fuel rest, Stops rest → 2 * (text ++ rest).length < fuel →
    value fuel (text ++ rest) = out.map fun v => (v, rest)

/-- The text between two quotation marks stands for a string. -/
def YieldsString (text string : Text) : Prop :=
  ∀ rest, chars (text ++ quote :: rest) = some (string, rest)

def YieldsMember (text : Text) (name : Text) (out : Option Value) : Prop :=
  ∃ nameText valueText, text = quote :: nameText ++ quote :: colon :: valueText ∧
    YieldsString nameText name ∧ Yields valueText out

theorem stops_cons {c : UInt8} (h : isNumberChar c = false) (rest : Text) : Stops (c :: rest) := by
  intro d hd
  cases hd
  exact h

theorem stops_nil : Stops [] := nofun

theorem skipWs_cons {c : UInt8} (h : isWs c = false) (rest : Text) :
    skipWs (c :: rest) = c :: rest := by
  simp [skipWs, h]

theorem document_of_yields {text : Text} {out : Option Value} (h : Yields text out) :
    document text = out := by
  have hvalue := h (2 * text.length + 1) [] stops_nil (by simp)
  rw [List.append_nil] at hvalue
  cases out with
  | none => simp [document, hvalue]
  | some v => simp [document, hvalue, skipWs]

/-! ### Characters -/

section

variable (text : Text)

theorem chars_quote : chars (quote :: text) = some ([], text) := by
  rw [chars.eq_def]
  simp only [if_true]

theorem chars_plain {c : UInt8} (hquote : c ≠ quote) (hbackslash : c ≠ backslash)
    (hcontrol : ¬ c < 0x20) :
    chars (c :: text) = (chars text).map fun out => (c :: out.1, out.2) := by
  rw [chars.eq_def]
  simp only [if_neg hquote, if_neg hbackslash, if_neg hcontrol]
  cases chars text <;> rfl

theorem chars_escaped {e c : UInt8} (hu : e ≠ 0x75) (hescaped : escaped e = some c) :
    chars (backslash :: e :: text) = (chars text).map fun out => (c :: out.1, out.2) := by
  have hquote : backslash ≠ quote := by decide
  rw [chars.eq_def]
  simp only [if_neg hquote, if_true, if_neg hu, hescaped]
  cases chars text <;> rfl

theorem chars_unicode {a b c d : UInt8} {char : Text} (hhex : hex4 a b c d = some char) :
    chars (backslash :: 0x75 :: a :: b :: c :: d :: text) =
      (chars text).map fun out => (char ++ out.1, out.2) := by
  have hquote : backslash ≠ quote := by decide
  rw [chars.eq_def]
  simp only [if_neg hquote, if_true, hhex]
  cases chars text <;> rfl

end

/-! ### One call of the parser -/

section

variable (fuel : Nat) (rest : Text)

theorem value_quote : value (fuel + 1) (quote :: rest) =
    (chars rest).map fun out => (.string out.1, out.2) := by
  have hskip := skipWs_cons (show isWs quote = false by decide) rest
  have hbrace : quote ≠ openBrace := by decide
  have hbracket : quote ≠ openBracket := by decide
  simp only [value, hskip, if_neg hbrace, if_neg hbracket, if_true]
  cases chars rest <;> rfl

theorem value_numberChar {c : UInt8} (h : isNumberChar c = true) :
    value (fuel + 1) (c :: rest) = number (c :: rest) := by
  have hc : isWs c = false ∧ c ≠ openBrace ∧ c ≠ openBracket ∧ c ≠ quote := by
    refine ⟨?_, ?_, ?_, ?_⟩
    · by_contra hws
      simp only [isWs, Bool.not_eq_false, Bool.or_eq_true, beq_iff_eq] at hws
      rcases hws with ((rfl | rfl) | rfl) | rfl <;> cases h
    · rintro rfl
      cases h
    · rintro rfl
      cases h
    · rintro rfl
      cases h
  simp only [value, skipWs_cons hc.1, if_neg hc.2.1, if_neg hc.2.2.1, if_neg hc.2.2.2, h, if_true]

theorem value_literal {c : UInt8} (hws : isWs c = false) (hbrace : c ≠ openBrace)
    (hbracket : c ≠ openBracket) (hquote : c ≠ quote) (hnumber : isNumberChar c = false) :
    value (fuel + 1) (c :: rest) = literal (c :: rest) := by
  simp [value, skipWs_cons hws, hbrace, hbracket, hquote, hnumber]

/-- An object that is not closed at once. -/
theorem value_object (h : (skipWs rest).head? ≠ some closeBrace) :
    value (fuel + 1) (openBrace :: rest) =
      (members fuel rest).map fun out => (.object out.1, out.2) := by
  have hskip := skipWs_cons (show isWs openBrace = false by decide) rest
  simp only [value, hskip, if_true, if_neg h]
  cases members fuel rest <;> rfl

theorem value_array (h : (skipWs rest).head? ≠ some closeBracket) :
    value (fuel + 1) (openBracket :: rest) =
      (elements fuel rest).map fun out => (.array out.1, out.2) := by
  have hskip := skipWs_cons (show isWs openBracket = false by decide) rest
  have hbrace : openBracket ≠ openBrace := by decide
  simp only [value, hskip, if_neg hbrace, if_true, if_neg h]
  cases elements fuel rest <;> rfl

end

theorem expect_cons (c : UInt8) (rest : Text) : expect c (c :: rest) = some rest := by simp [expect]

theorem skipWs_quote (rest : Text) : skipWs (quote :: rest) = quote :: rest :=
  skipWs_cons (by decide) rest

theorem skipWs_colon (rest : Text) : skipWs (colon :: rest) = colon :: rest :=
  skipWs_cons (by decide) rest

theorem skipWs_comma (rest : Text) : skipWs (comma :: rest) = comma :: rest :=
  skipWs_cons (by decide) rest

section

variable {nameText name valueText : Text} {out : Option Value} (hname : YieldsString nameText name)
  (hvalue : Yields valueText out) {fuel : Nat} {rest : Text}
include hname hvalue

theorem members_last (hfuel : 2 * (valueText ++ closeBrace :: rest).length < fuel) :
    members (fuel + 1) (quote :: nameText ++ quote :: colon :: valueText ++ closeBrace :: rest) =
      out.map fun v => ([(name, v)], rest) := by
  have hskip := skipWs_cons (show isWs closeBrace = false by decide) rest
  have hread := hvalue fuel (closeBrace :: rest) (stops_cons (by decide) rest) hfuel
  simp only [members, List.cons_append, List.append_assoc, skipWs_quote, expect_cons, hname _,
    skipWs_colon, hread, Option.bind_eq_bind, Option.bind_some]
  cases out <;> simp [hskip]

theorem members_cons (hfuel : 2 * (valueText ++ comma :: rest).length < fuel) :
    members (fuel + 1) (quote :: nameText ++ quote :: colon :: valueText ++ comma :: rest) =
      out.bind fun v => (members fuel rest).map fun tail => ((name, v) :: tail.1, tail.2) := by
  have hread := hvalue fuel (comma :: rest) (stops_cons (by decide) rest) hfuel
  have hbrace : comma ≠ closeBrace := by decide
  simp only [members, List.cons_append, List.append_assoc, skipWs_quote, expect_cons, hname _,
    skipWs_colon, hread, Option.bind_eq_bind, Option.bind_some]
  cases out with
  | none => rfl
  | some v =>
    simp only [Option.map_some, Option.bind_some, skipWs_comma, List.head?_cons,
      Option.some.injEq, hbrace, if_false, expect_cons]
    cases members fuel rest <;> rfl

end

section

variable {text : Text} {out : Option Value} (hvalue : Yields text out) {fuel : Nat} {rest : Text}
include hvalue

theorem elements_last (hfuel : 2 * (text ++ closeBracket :: rest).length < fuel) :
    elements (fuel + 1) (text ++ closeBracket :: rest) = out.map fun v => ([v], rest) := by
  have hskip := skipWs_cons (show isWs closeBracket = false by decide) rest
  have hread := hvalue fuel (closeBracket :: rest) (stops_cons (by decide) rest) hfuel
  simp only [elements, hread, Option.bind_eq_bind]
  cases out <;> simp [hskip]

theorem elements_cons (hfuel : 2 * (text ++ comma :: rest).length < fuel) :
    elements (fuel + 1) (text ++ comma :: rest) =
      out.bind fun v => (elements fuel rest).map fun tail => (v :: tail.1, tail.2) := by
  have hread := hvalue fuel (comma :: rest) (stops_cons (by decide) rest) hfuel
  have hbracket : comma ≠ closeBracket := by decide
  simp only [elements, hread, Option.bind_eq_bind]
  cases out with
  | none => rfl
  | some v =>
    simp only [Option.map_some, Option.bind_some, skipWs_comma, List.head?_cons,
      Option.some.injEq, hbracket, if_false, expect_cons]
    cases elements fuel rest <;> rfl

end

/-! ### Joined texts -/

theorem intercalate_append (c : UInt8) (first second : Text) (texts : List Text) (rest : Text) :
    [c].intercalate (first :: second :: texts) ++ rest =
      first ++ c :: ([c].intercalate (second :: texts) ++ rest) := by
  simp [List.intercalate]

/-- A text that does not start with whitespace or with one of two bytes keeps that
start when others are joined to it. -/
theorem skipWs_intercalate {c : UInt8} {text : Text} {texts : List Text} (hws : isWs c = false)
    (rest : Text) : (skipWs ([comma].intercalate ((c :: text) :: texts) ++ rest)).head? = some c := by
  cases texts with
  | nil => simp [skipWs_cons hws]
  | cons second texts => rw [intercalate_append, List.cons_append, skipWs_cons hws, List.head?_cons]

theorem mapM_cons {α β : Type} (f : α → Option β) (a : α) (as : List α) :
    (a :: as).mapM f = (f a).bind fun b => (as.mapM f).map (b :: ·) := by
  rw [List.mapM_cons]
  cases f a with
  | none => rfl
  | some b => cases as.mapM f <;> rfl

/-- All or nothing. -/
theorem mapM_ite {α β : Type} {f : α → Option β} {g : α → β} {p : α → Bool}
    (h : ∀ a, f a = if p a then some (g a) else none) (as : List α) :
    as.mapM f = if as.all p then some (as.map g) else none := by
  induction as with
  | nil => rfl
  | cons a as ih =>
    rw [mapM_cons, h a, ih, List.all_cons, List.map_cons]
    cases p a <;> cases as.all p <;> rfl

def memberOf (out : Text × Option Value) : Option (Text × Value) := out.2.map fun v => (out.1, v)

theorem members_yield {texts : List Text} {outs : List (Text × Option Value)}
    (h : List.Forall₂ (fun text out => YieldsMember text out.1 out.2) texts outs)
    (hne : texts ≠ []) (fuel : Nat) (rest : Text)
    (hfuel : 2 * ([comma].intercalate texts ++ closeBrace :: rest).length + 1 < fuel) :
    members fuel ([comma].intercalate texts ++ closeBrace :: rest) =
      (outs.mapM memberOf).map fun members => (members, rest) := by
  induction h generalizing fuel with
  | nil => exact absurd rfl hne
  | @cons text out texts outs hmember htexts ih =>
    obtain ⟨fuel, rfl⟩ := Nat.exists_eq_add_one_of_ne_zero (Nat.ne_zero_of_lt hfuel)
    obtain ⟨nameText, valueText, rfl, hname, hvalue⟩ := hmember
    cases htexts with
    | nil =>
      rw [List.intercalate_singleton] at hfuel ⊢
      rw [members_last hname hvalue (by simp at hfuel ⊢; omega)]
      obtain ⟨name, _ | v⟩ := out <;> simp [memberOf]
    | @cons second _ more _ hsecond hmore =>
      rw [intercalate_append] at hfuel ⊢
      rw [members_cons hname hvalue (by simp at hfuel ⊢; omega),
        ih (by simp) fuel (by simp at hfuel ⊢; omega), mapM_cons memberOf out]
      obtain ⟨name, _ | v⟩ := out
      · rfl
      · simp [memberOf]

theorem elements_yield {texts : List Text} {outs : List (Option Value)}
    (h : List.Forall₂ Yields texts outs) (hne : texts ≠ []) (fuel : Nat) (rest : Text)
    (hfuel : 2 * ([comma].intercalate texts ++ closeBracket :: rest).length + 1 < fuel) :
    elements fuel ([comma].intercalate texts ++ closeBracket :: rest) =
      (outs.mapM id).map fun elements => (elements, rest) := by
  induction h generalizing fuel with
  | nil => exact absurd rfl hne
  | @cons text out texts outs hvalue htexts ih =>
    obtain ⟨fuel, rfl⟩ := Nat.exists_eq_add_one_of_ne_zero (Nat.ne_zero_of_lt hfuel)
    cases htexts with
    | nil =>
      rw [List.intercalate_singleton] at hfuel ⊢
      rw [elements_last hvalue (by omega)]
      cases out <;> simp
    | @cons second _ more _ hsecond hmore =>
      rw [intercalate_append] at hfuel ⊢
      rw [elements_cons hvalue (by omega), ih (by simp) fuel (by simp at hfuel ⊢; omega),
        mapM_cons id out]
      cases out with
      | none => rfl
      | some v => simp

theorem yields_object {texts : List Text} {outs : List (Text × Option Value)}
    (h : List.Forall₂ (fun text out => YieldsMember text out.1 out.2) texts outs) :
    Yields (openBrace :: [comma].intercalate texts ++ [closeBrace])
      ((outs.mapM memberOf).map .object) := by
  intro fuel rest _ hfuel
  obtain ⟨fuel, rfl⟩ := Nat.exists_eq_add_one_of_ne_zero (Nat.ne_zero_of_lt hfuel)
  have htext : openBrace :: [comma].intercalate texts ++ [closeBrace] ++ rest =
      openBrace :: ([comma].intercalate texts ++ closeBrace :: rest) := by simp
  rw [htext] at hfuel ⊢
  cases h with
  | nil =>
    have hskip := skipWs_cons (show isWs closeBrace = false by decide) rest
    have hopen := skipWs_cons (show isWs openBrace = false by decide) (closeBrace :: rest)
    simp [value, hopen, hskip]
  | @cons text out texts outs hmember htexts =>
    have hfirst : (skipWs ([comma].intercalate (text :: texts) ++ closeBrace :: rest)).head? =
        some quote := by
      obtain ⟨nameText, valueText, rfl, -⟩ := hmember
      exact skipWs_intercalate (by decide) _
    rw [value_object fuel _ (by rw [hfirst]; decide),
      members_yield (.cons hmember htexts) (by simp) fuel rest (by simp at hfuel ⊢; omega),
      Option.map_map, Option.map_map]
    rfl

/-- The elements start with a byte that does not close the array. -/
theorem yields_array {texts : List Text} {outs : List (Option Value)}
    (h : List.Forall₂ Yields texts outs)
    (hfirst : ∀ text ∈ texts, ∃ c rest, text = c :: rest ∧ isWs c = false ∧ c ≠ closeBracket) :
    Yields (openBracket :: [comma].intercalate texts ++ [closeBracket])
      ((outs.mapM id).map .array) := by
  intro fuel rest _ hfuel
  obtain ⟨fuel, rfl⟩ := Nat.exists_eq_add_one_of_ne_zero (Nat.ne_zero_of_lt hfuel)
  have htext : openBracket :: [comma].intercalate texts ++ [closeBracket] ++ rest =
      openBracket :: ([comma].intercalate texts ++ closeBracket :: rest) := by simp
  rw [htext] at hfuel ⊢
  cases h with
  | nil =>
    have hskip := skipWs_cons (show isWs closeBracket = false by decide) rest
    have hopen := skipWs_cons (show isWs openBracket = false by decide) (closeBracket :: rest)
    have hbrace : openBracket ≠ openBrace := by decide
    simp [value, hopen, hskip, hbrace]
  | @cons text out texts outs hvalue htexts =>
    obtain ⟨c, more, rfl, hws, hclose⟩ := hfirst text List.mem_cons_self
    have hne : (skipWs ([comma].intercalate ((c :: more) :: texts) ++ closeBracket :: rest)).head? ≠
        some closeBracket := by
      rw [skipWs_intercalate hws, ne_eq, Option.some.injEq]
      exact hclose
    rw [value_array fuel _ hne,
      elements_yield (.cons hvalue htexts) (by simp) fuel rest (by simp at hfuel ⊢; omega),
      Option.map_map, Option.map_map]
    rfl

section

variable {α : Type} {text : α → Text} {v : α → Value} {p : α → Bool} {items : List α}

/-- An object with a member for each item. -/
theorem yields_object_map {name : α → Text}
    (h : ∀ a ∈ items, YieldsMember (text a) (name a) (if p a then some (v a) else none)) :
    Yields (openBrace :: [comma].intercalate (items.map text) ++ [closeBrace])
      (if items.all p then some (.object (items.map fun a => (name a, v a))) else none) := by
  have hmembers : List.Forall₂ (fun text out => YieldsMember text out.1 out.2) (items.map text)
      (items.map fun a => (name a, if p a then some (v a) else none)) := by
    rw [List.forall₂_map_left_iff, List.forall₂_map_right_iff, List.forall₂_same]
    exact h
  have hout : (items.map fun a => (name a, if p a then some (v a) else none)).mapM memberOf =
      if items.all p then some (items.map fun a => (name a, v a)) else none := by
    rw [List.mapM_map]
    refine mapM_ite (fun a => ?_) items
    cases hp : p a <;> simp [memberOf, hp]
  have hobject := yields_object hmembers
  rw [hout] at hobject
  split at hobject <;> rename_i hall
  · rw [if_pos hall]
    exact hobject
  · rw [if_neg hall]
    exact hobject

/-- An array with an element for each item. -/
theorem yields_array_map (h : ∀ a ∈ items, Yields (text a) (if p a then some (v a) else none))
    (hfirst : ∀ a ∈ items, ∃ c rest, text a = c :: rest ∧ isWs c = false ∧ c ≠ closeBracket) :
    Yields (openBracket :: [comma].intercalate (items.map text) ++ [closeBracket])
      (if items.all p then some (.array (items.map v)) else none) := by
  have helements : List.Forall₂ Yields (items.map text)
      (items.map fun a => if p a then some (v a) else none) := by
    rw [List.forall₂_map_left_iff, List.forall₂_map_right_iff, List.forall₂_same]
    exact h
  have hout : (items.map fun a => if p a then some (v a) else none).mapM id =
      if items.all p then some (items.map v) else none := by
    rw [List.mapM_map]
    exact mapM_ite (fun a => rfl) items
  have harray := yields_array helements (List.forall_mem_map.mpr hfirst)
  rw [hout] at harray
  split at harray <;> rename_i hall
  · rw [if_pos hall]
    exact harray
  · rw [if_neg hall]
    exact harray

end

/-! ### Scalars -/

theorem yields_string {text string : Text} (h : YieldsString text string) :
    Yields (quote :: text ++ [quote]) (some (.string string)) := by
  intro fuel rest _ hfuel
  obtain ⟨fuel, rfl⟩ := Nat.exists_eq_add_one_of_ne_zero (Nat.ne_zero_of_lt hfuel)
  have htext : quote :: text ++ [quote] ++ rest = quote :: (text ++ quote :: rest) := by simp
  rw [htext, value_quote, h rest]
  rfl

/-- A run of number characters is read as a number if it is one, and fails
otherwise. -/
theorem yields_number {text : Text} (hne : text ≠ []) (hchars : ∀ c ∈ text, isNumberChar c = true) :
    Yields text (if isNumber text then some (.number text) else none) := by
  intro fuel rest hstops hfuel
  obtain ⟨fuel, rfl⟩ := Nat.exists_eq_add_one_of_ne_zero (Nat.ne_zero_of_lt hfuel)
  obtain ⟨c, more, rfl⟩ := List.exists_cons_of_ne_nil hne
  have hrest : rest.takeWhile isNumberChar = [] ∧ rest.dropWhile isNumberChar = rest := by
    cases rest with
    | nil => exact ⟨rfl, rfl⟩
    | cons d rest => simp [hstops d rfl]
  rw [List.cons_append, value_numberChar fuel _ (hchars c List.mem_cons_self), ← List.cons_append,
    number, List.takeWhile_append_of_pos hchars, List.dropWhile_append_of_pos hchars, hrest.1,
    hrest.2, List.append_nil]
  split <;> rfl

theorem yields_true : Yields [0x74, 0x72, 0x75, 0x65] (some (.bool true)) := by
  intro fuel rest _ hfuel
  obtain ⟨fuel, rfl⟩ := Nat.exists_eq_add_one_of_ne_zero (Nat.ne_zero_of_lt hfuel)
  rw [List.cons_append, value_literal fuel _ (by decide) (by decide) (by decide) (by decide)
    (by decide)]
  simp [literal, List.dropPrefix?]

theorem yields_false : Yields [0x66, 0x61, 0x6c, 0x73, 0x65] (some (.bool false)) := by
  intro fuel rest _ hfuel
  obtain ⟨fuel, rfl⟩ := Nat.exists_eq_add_one_of_ne_zero (Nat.ne_zero_of_lt hfuel)
  rw [List.cons_append, value_literal fuel _ (by decide) (by decide) (by decide) (by decide)
    (by decide)]
  simp [literal, List.dropPrefix?]

end Json
