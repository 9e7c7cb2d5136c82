import MiniSql.Lib.Block
import MiniSql.Lib.Json
import MiniSql.Text

/-!
# Quoting a string for JSON

`sql_json_quote` with its output buffer: the stores go through `Block.store`, so that a
run with a result has stored nothing outside the memory that `malloc` gave it. The text
it leaves there is the `sqlJsonQuote` that the rest of the model uses.
-/

namespace MiniSql

/-! ## The output buffer -/

/-- A backslash and a letter. -/
def putEscape (quoted : Bytes) (outputIndex : Nat) (letter : UInt8) : Option (Bytes × Nat) := do
  let quoted ← Block.store quoted outputIndex backslash
  let quoted ← Block.store quoted (outputIndex + 1) letter
  return (quoted, outputIndex + 2)

/-- The switch of `sql_json_quote`. -/
def quoteByte (quoted : Bytes) (outputIndex : Nat) (ch : UInt8) : Option (Bytes × Nat) :=
  if ch = doubleQuote then putEscape quoted outputIndex doubleQuote
  else if ch = backslash then putEscape quoted outputIndex backslash
  else if ch = 0x08 then putEscape quoted outputIndex 0x62
  else if ch = 0x0c then putEscape quoted outputIndex 0x66
  else if ch = newline then putEscape quoted outputIndex 0x6e
  else if ch = carriageReturn then putEscape quoted outputIndex 0x72
  else if ch = 0x09 then putEscape quoted outputIndex 0x74
  else if ch < 0x20 then do
    -- `snprintf` stores a terminator of its own behind the six bytes.
    let quoted ← Block.storeAll quoted outputIndex
      [backslash, 0x75, 0x30, 0x30, hexDigit (ch / 16), hexDigit (ch % 16), 0]
    return (quoted, outputIndex + 6)
  else do
    let quoted ← Block.store quoted outputIndex ch
    return (quoted, outputIndex + 1)

def quoteBytes (quoted : Bytes) (outputIndex : Nat) : Bytes → Option (Bytes × Nat)
  | [] => some (quoted, outputIndex)
  | ch :: text => do
    let (quoted, outputIndex) ← quoteByte quoted outputIndex ch
    quoteBytes quoted outputIndex text

/-- `sql_json_quote`: the memory it returns, or its error. -/
def sqlJsonQuoteInto (malloc : Nat → Option Bytes) (src : Bytes) : Option (Except SqlError Bytes) :=
  let text := cString src
  if text.length > (2 ^ 64 - 1 - 3) / 6 then
    some (.error (sqlSetError [ascii "JSON string is too large to quote"]))
  else
    match malloc (text.length * 6 + 3) with
    | none => some (.error (sqlSetError [ascii "failed to allocate JSON string"]))
    | some quoted => do
      let quoted ← Block.store quoted 0 doubleQuote
      let (quoted, outputIndex) ← quoteBytes quoted 1 text
      let quoted ← Block.store quoted outputIndex doubleQuote
      let quoted ← Block.store quoted (outputIndex + 1) 0
      return .ok quoted

section

variable {size : Nat} {out quoted : Bytes}

theorem putEscape_holds (h : Block.Holds size out quoted) (hroom : out.length + 2 ≤ size)
    (letter : UInt8) :
    ∃ quoted', putEscape quoted out.length letter = some (quoted', (out ++ [backslash, letter]).length) ∧
      Block.Holds size (out ++ [backslash, letter]) quoted' := by
  obtain ⟨first, hfirst, hholds⟩ := h.store (by omega) backslash
  obtain ⟨second, hsecond, hholds⟩ := hholds.store (by simp; omega) letter
  rw [List.length_append, List.length_singleton] at hsecond
  refine ⟨second, ?_, by simpa using hholds⟩
  simp [putEscape, hfirst, hsecond]

/-- What becomes of a byte: a backslash and a letter, a code of four digits, or the byte. -/
theorem escape_cases (c : UInt8) :
    (∃ letter, letter ≠ 0x75 ∧ Json.escaped letter = some c ∧ jsonEscape c = [backslash, letter] ∧
      ∀ quoted i, quoteByte quoted i c = putEscape quoted i letter) ∨
    (c < 0x20 ∧ jsonEscape c = [backslash, 0x75, 0x30, 0x30, hexDigit (c / 16), hexDigit (c % 16)] ∧
      ∀ quoted i, quoteByte quoted i c = (Block.storeAll quoted i
        [backslash, 0x75, 0x30, 0x30, hexDigit (c / 16), hexDigit (c % 16), 0]).map (·, i + 6)) ∨
    (c ≠ doubleQuote ∧ c ≠ backslash ∧ ¬ c < 0x20 ∧ jsonEscape c = [c] ∧
      ∀ quoted i, quoteByte quoted i c = (Block.store quoted i c).map (·, i + 1)) := by
  by_cases hletter : c ∈ [doubleQuote, backslash, 0x08, 0x0c, newline, carriageReturn, 0x09]
  · simp only [List.mem_cons, List.not_mem_nil, or_false] at hletter
    rcases hletter with rfl | rfl | rfl | rfl | rfl | rfl | rfl
    all_goals exact .inl ⟨_, by decide, rfl, rfl, fun _ _ => rfl⟩
  · simp only [List.mem_cons, List.not_mem_nil, or_false, not_or] at hletter
    obtain ⟨hquote, hbackslash, hb, hf, hn, hr, ht⟩ := hletter
    right
    by_cases hcontrol : c < 0x20
    · left
      simp only [jsonEscape, quoteByte, if_neg, if_pos, *, not_false_eq_true]
      exact ⟨trivial, trivial, fun _ _ => Option.map_eq_bind.symm⟩
    · right
      simp only [jsonEscape, quoteByte, if_neg, *, not_false_eq_true]
      exact ⟨hquote, hbackslash, trivial, trivial, fun _ _ => Option.map_eq_bind.symm⟩

/-- A byte is quoted into at most six, and one more cell is enough for all stores. -/
theorem quoteByte_holds (h : Block.Holds size out quoted) (hroom : out.length + 7 ≤ size) (ch : UInt8) :
    ∃ quoted', quoteByte quoted out.length ch = some (quoted', (out ++ jsonEscape ch).length) ∧
      Block.Holds size (out ++ jsonEscape ch) quoted' := by
  rcases escape_cases ch with ⟨letter, -, -, hescape, hbyte⟩ | ⟨-, hescape, hbyte⟩ |
    ⟨-, -, -, hescape, hbyte⟩
  · rw [hescape, hbyte]
    exact putEscape_holds h (by omega) letter
  · obtain ⟨quoted', hall, hholds⟩ := h.storeAll
      [backslash, 0x75, 0x30, 0x30, hexDigit (ch / 16), hexDigit (ch % 16), 0]
      (by simpa using hroom)
    rw [hescape, hbyte, hall]
    refine ⟨quoted', by simp, ?_⟩
    have hsplit : out ++ [backslash, 0x75, 0x30, 0x30, hexDigit (ch / 16), hexDigit (ch % 16), 0] =
        (out ++ [backslash, 0x75, 0x30, 0x30, hexDigit (ch / 16), hexDigit (ch % 16)]) ++ [0] := by
      simp
    rw [hsplit] at hholds
    exact hholds.shorter
  · obtain ⟨quoted', hstore, hholds⟩ := h.store (by omega) ch
    rw [hescape, hbyte, hstore]
    exact ⟨quoted', by simp, hholds⟩

theorem jsonEscape_length (ch : UInt8) : (jsonEscape ch).length ≤ 6 := by
  rcases escape_cases ch with ⟨letter, -, -, hescape, -⟩ | ⟨-, hescape, -⟩ | ⟨-, -, -, hescape, -⟩
  all_goals simp [hescape]

theorem quoteBytes_holds (h : Block.Holds size out quoted) (text : Bytes)
    (hroom : out.length + 6 * text.length + 1 ≤ size) :
    ∃ quoted', quoteBytes quoted out.length text =
        some (quoted', (out ++ text.flatMap jsonEscape).length) ∧
      Block.Holds size (out ++ text.flatMap jsonEscape) quoted' := by
  induction text generalizing out quoted with
  | nil => exact ⟨quoted, by simp [quoteBytes], by simpa using h⟩
  | cons ch text ih =>
    rw [List.length_cons] at hroom
    obtain ⟨next, hbyte, hnext⟩ := quoteByte_holds h (by omega) ch
    have hescape := jsonEscape_length ch
    obtain ⟨quoted', hbytes, hholds⟩ := ih hnext (by rw [List.length_append]; omega)
    rw [List.append_assoc, ← List.flatMap_cons] at hbytes hholds
    refine ⟨quoted', ?_, hholds⟩
    simp only [quoteBytes, hbyte, bind, Option.bind_some]
    exact hbytes

end

/-! ## What is read back -/

theorem hex4_control {c : UInt8} (h : c < 0x20) :
    Json.hex4 0x30 0x30 (hexDigit (c / 16)) (hexDigit (c % 16)) = some [c] :=
  forall_byte (p := fun c => c < 0x20 →
    Json.hex4 0x30 0x30 (hexDigit (c / 16)) (hexDigit (c % 16)) = some [c]) (by decide +kernel) c h

theorem chars_jsonEscape (c : UInt8) (text : Bytes) :
    Json.chars (jsonEscape c ++ text) =
      (Json.chars text).map fun out => (c :: out.1, out.2) := by
  rcases escape_cases c with ⟨letter, hother, hletter, hescape, -⟩ | ⟨hcontrol, hescape, -⟩ |
    ⟨hquote, hbackslash, hcontrol, hescape, -⟩
  · rw [hescape]
    exact Json.chars_escaped text hother hletter
  · rw [hescape]
    exact Json.chars_unicode text (hex4_control hcontrol)
  · rw [hescape]
    exact Json.chars_plain text hquote hbackslash hcontrol

theorem yieldsString_escape (src : Bytes) : Json.YieldsString (src.flatMap jsonEscape) src := by
  intro rest
  induction src with
  | nil => exact Json.chars_quote rest
  | cons c src ih =>
    rw [List.flatMap_cons, List.append_assoc, chars_jsonEscape, ih]
    rfl

/-- What may stand between the quotation marks of a JSON string. -/
inductive LiteralChars : Bytes → Prop
  | nil : LiteralChars []
  | plain {c : UInt8} {text : Bytes} (quote : c ≠ doubleQuote) (escape : c ≠ backslash)
      (control : ¬ c < 0x20) (rest : LiteralChars text) : LiteralChars (c :: text)
  | short {e c : UInt8} {text : Bytes} (letter : Json.escaped e = some c)
      (rest : LiteralChars text) : LiteralChars (backslash :: e :: text)
  | unicode {a b c d : UInt8} {char text : Bytes} (digits : Json.hex4 a b c d = some char)
      (rest : LiteralChars text) : LiteralChars (backslash :: 0x75 :: a :: b :: c :: d :: text)

/-- A JSON string: quotation marks around characters that stand for the bytes. -/
structure StringLiteral (quoted text : Bytes) : Prop where
  literal : ∃ inner, quoted = doubleQuote :: inner ++ [doubleQuote] ∧ LiteralChars inner ∧
    Json.YieldsString inner text

theorem literalChars_escape (text : Bytes) : LiteralChars (text.flatMap jsonEscape) := by
  induction text with
  | nil => exact .nil
  | cons c text ih =>
    rw [List.flatMap_cons]
    rcases escape_cases c with ⟨letter, -, hletter, hescape, -⟩ | ⟨hcontrol, hescape, -⟩ |
      ⟨hquote, hbackslash, hcontrol, hescape, -⟩
    · rw [hescape]
      exact .short hletter ih
    · rw [hescape]
      exact .unicode (hex4_control hcontrol) ih
    · rw [hescape]
      exact .plain hquote hbackslash hcontrol ih

theorem sqlJsonQuote_injective : Function.Injective sqlJsonQuote := by
  intro text text' h
  have hinner : text.flatMap jsonEscape = text'.flatMap jsonEscape := by simpa [sqlJsonQuote] using h
  have hread := yieldsString_escape text []
  rw [hinner, yieldsString_escape text' []] at hread
  simpa using hread.symm

theorem jsonEscape_nulFree (c : UInt8) : 0 ∉ jsonEscape c :=
  forall_byte (p := fun c => 0 ∉ jsonEscape c) (by decide +kernel) c

theorem sqlJsonQuote_nulFree (text : Bytes) : 0 ∉ sqlJsonQuote text := by
  simp only [sqlJsonQuote, List.mem_append, List.mem_singleton, List.mem_flatMap, not_or, not_exists]
  refine ⟨⟨by decide, fun c hc => ?_⟩, by decide⟩
  exact jsonEscape_nulFree c hc.2

theorem flatMap_jsonEscape_length (text : Bytes) :
    (text.flatMap jsonEscape).length ≤ 6 * text.length := by
  induction text with
  | nil => exact Nat.le_refl 0
  | cons c text ih =>
    have hescape := jsonEscape_length c
    rw [List.flatMap_cons, List.length_append, List.length_cons]
    omega

theorem sqlJsonQuote_length (text : Bytes) : (sqlJsonQuote text).length + 1 ≤ 6 * text.length + 3 := by
  have hinner := flatMap_jsonEscape_length text
  simp only [sqlJsonQuote, List.length_append, List.length_singleton]
  omega

/-- A string ends at its terminator. -/
theorem cString_terminated {s : Bytes} (hs : 0 ∉ s) (rest : Bytes) : cString (s ++ 0 :: rest) = s := by
  rw [cString_append_of_not_mem hs]
  simp [cString]

/-- What a run of `sql_json_quote` leaves in its memory. -/
theorem sqlJsonQuoteInto_holds {malloc : Nat → Option Bytes} {text block : Bytes}
    (hfree : 0 ∉ text) (hsize : 6 * text.length + 3 < 2 ^ 64)
    (hmalloc : malloc (text.length * 6 + 3) = some block)
    (hblock : block.length = text.length * 6 + 3) :
    ∃ quoted, sqlJsonQuoteInto malloc text = some (.ok quoted) ∧
      Block.Holds (text.length * 6 + 3) (sqlJsonQuote text ++ [0]) quoted := by
  have hsmall : ¬ text.length > (2 ^ 64 - 1 - 3) / 6 := by omega
  have hinner := flatMap_jsonEscape_length text
  have hempty := Block.holds_nil block
  rw [hblock] at hempty
  obtain ⟨b₁, hopen, h₁⟩ := hempty.store (by simp) doubleQuote
  obtain ⟨b₂, hbytes, h₂⟩ := quoteBytes_holds h₁ text (by simp; omega)
  have hlength : ([] ++ [doubleQuote] ++ text.flatMap jsonEscape).length =
      1 + (text.flatMap jsonEscape).length := by
    rw [List.length_append]
    rfl
  have hnext : ([] ++ [doubleQuote] ++ text.flatMap jsonEscape ++ [doubleQuote]).length =
      ([] ++ [doubleQuote] ++ text.flatMap jsonEscape).length + 1 := by
    rw [List.length_append, List.length_singleton]
  obtain ⟨b₃, hclose, h₃⟩ := h₂.store (by omega) doubleQuote
  obtain ⟨b₄, hend, h₄⟩ := h₃.store (by omega) 0
  refine ⟨b₄, ?_, h₄⟩
  rw [hnext] at hend
  rw [List.length_nil] at hopen
  have hone : ([] ++ [doubleQuote]).length = 1 := rfl
  rw [hone] at hbytes
  simp only [sqlJsonQuoteInto, cString_eq_self hfree, hsmall, if_false, hmalloc, hopen, hbytes, hclose,
    hend, bind, Option.bind_some, pure]

/-- **Quoting is lossless and stays in its buffer.** For every byte string without a NUL
whose quoted length fits into `size_t`, and whatever memory `malloc` gives, all stores go
into that memory of 6 n + 3 bytes; what stands in it is a JSON string that is read back
as the byte string, and no other string is quoted so. -/
theorem json_quote_lossless {malloc : Nat → Option Bytes}
    (hmalloc : ∀ n block, malloc n = some block → block.length = n) {text : Bytes}
    (hfree : 0 ∉ text) (hsize : 6 * text.length + 3 < 2 ^ 64) {block : Bytes}
    (hgot : malloc (text.length * 6 + 3) = some block) :
    ∃ quoted, sqlJsonQuoteInto malloc text = some (.ok quoted) ∧
      quoted.length = 6 * text.length + 3 ∧ cString quoted = sqlJsonQuote text ∧
      (cString quoted).length + 1 ≤ 6 * text.length + 3 ∧
      StringLiteral (cString quoted) text ∧
      ∀ text', sqlJsonQuote text' = cString quoted → text' = text := by
  obtain ⟨quoted, hrun, ⟨rest, hholds⟩, hlength⟩ :=
    sqlJsonQuoteInto_holds hfree hsize hgot (hmalloc _ _ hgot)
  have hstring : cString quoted = sqlJsonQuote text := by
    rw [← hholds, List.append_assoc, List.singleton_append]
    exact cString_terminated (sqlJsonQuote_nulFree text) rest
  refine ⟨quoted, hrun, by omega, hstring, ?_, ?_, ?_⟩
  · rw [hstring]
    exact sqlJsonQuote_length text
  · rw [hstring]
    exact ⟨_, rfl, literalChars_escape text, yieldsString_escape text⟩
  · intro text' hsame
    rw [hstring] at hsame
    exact sqlJsonQuote_injective hsame

theorem json_quote_lossless_control :
    ∃ quoted, sqlJsonQuoteInto (fun n => some (List.replicate n 0xff)) [0x22, 0x1f, 0x41] =
      some (.ok quoted) ∧ StringLiteral (cString quoted) [0x22, 0x1f, 0x41] := by
  have hmalloc : ∀ n (block : Bytes), some (List.replicate n 0xff) = some block → block.length = n := by
    rintro n block hblock
    cases hblock
    exact List.length_replicate
  have hfree : (0 : UInt8) ∉ [0x22, 0x1f, 0x41] := by decide
  obtain ⟨quoted, hrun, -, -, -, hliteral, -⟩ := json_quote_lossless hmalloc hfree (by decide) rfl
  exact ⟨quoted, hrun, hliteral⟩

end MiniSql
