import Mathlib

/-!
# Bytes and the C library

A C string is its bytes before the terminating NUL. The `<ctype.h>` classes are
those of the "C" locale, so no byte from 0x80 on is in any of them; `atoi` is
glibc's `strtol` (saturating at 64 bits) truncated to a 32-bit `int`.
-/

namespace MiniSql

abbrev Bytes := List UInt8

/-- The bytes of an ASCII literal. -/
def ascii (s : String) : Bytes := s.toList.map Char.toUInt8

def newline : UInt8 := 0x0a
def carriageReturn : UInt8 := 0x0d
def doubleQuote : UInt8 := 0x22
def singleQuote : UInt8 := 0x27
def comma : UInt8 := 0x2c
def hyphen : UInt8 := 0x2d
def colon : UInt8 := 0x3a
def semicolon : UInt8 := 0x3b

def isspace (c : UInt8) : Bool := c == 0x20 || (0x09 ≤ c && c ≤ 0x0d)

def isdigit (c : UInt8) : Bool := 0x30 ≤ c && c ≤ 0x39

def isupper (c : UInt8) : Bool := 0x41 ≤ c && c ≤ 0x5a

def islower (c : UInt8) : Bool := 0x61 ≤ c && c ≤ 0x7a

def isalnum (c : UInt8) : Bool := isdigit c || isupper c || islower c

def tolower (c : UInt8) : UInt8 := if isupper c then c + 0x20 else c

def toupper (c : UInt8) : UInt8 := if islower c then c - 0x20 else c

/-- A fact about all bytes can be checked byte by byte. -/
theorem forall_byte {p : UInt8 → Prop} (h : ∀ n : Fin 256, p ⟨⟨n⟩⟩) (c : UInt8) : p c :=
  h c.toFin

/-- The byte under a cursor: NUL at the end of the string. -/
def peek (s : Bytes) : UInt8 := s.headD 0

theorem peek_mem {s : Bytes} (hs : s ≠ []) : peek s ∈ s := by
  cases s with
  | nil => exact absurd rfl hs
  | cons c cs => exact List.mem_cons_self

/-- A scan stops at a byte outside its class, which NUL has to be. -/
theorem dropWhile_stop {p : UInt8 → Bool} {s : Bytes} (hend : p 0 = false) :
    p (peek (s.dropWhile p)) = false := by
  cases h : s.dropWhile p with
  | nil => exact hend
  | cons c cs =>
    have := List.head?_dropWhile_not p s
    simpa [h, peek] using this

/-- What a C function sees of a buffer: the bytes before the first NUL. -/
def cString (s : Bytes) : Bytes := s.takeWhile (· != 0)

theorem cString_nulFree (s : Bytes) : 0 ∉ cString s := by
  intro h
  exact absurd (List.mem_takeWhile_imp h) (by decide)

theorem cString_append_of_not_mem {s : Bytes} (hs : 0 ∉ s) (rest : Bytes) :
    cString (s ++ rest) = s ++ cString rest := by
  refine List.takeWhile_append_of_pos fun c hc => ?_
  rw [bne_iff_ne]
  rintro rfl
  exact hs hc

theorem cString_eq_self {s : Bytes} (hs : 0 ∉ s) : cString s = s := by
  simpa [cString] using cString_append_of_not_mem hs []

/-- Nothing behind a NUL is seen. -/
theorem cString_append {s : Bytes} (hs : 0 ∈ s) (rest : Bytes) :
    cString (s ++ rest) = cString s := by
  induction s with
  | nil => cases hs
  | cons c s ih =>
    by_cases hc : c = 0
    · simp [cString, hc]
    · have hmem : 0 ∈ s := (List.mem_cons.mp hs).resolve_left (Ne.symm hc)
      have htail : (s ++ rest).takeWhile (· != 0) = s.takeWhile (· != 0) := ih hmem
      simp [cString, hc, htail]

/-! ## Numbers -/

/-- A value reduced to the range of a 32-bit `int`. -/
def toInt32 (n : Int) : Int := Int.bmod n (2 ^ 32)

def intMax : Int := 2147483647

/-- The value of the leading run of digits, on top of `acc`. -/
def digitsValue (acc : Nat) : Bytes → Nat
  | [] => acc
  | c :: cs => if isdigit c then digitsValue (acc * 10 + (c.toNat - 0x30)) cs else acc

def strtol (s : Bytes) : Int :=
  match s.dropWhile isspace with
  | 0x2d :: ds => max (-(digitsValue 0 ds : Int)) (-2 ^ 63)
  | 0x2b :: ds => min (digitsValue 0 ds : Int) (2 ^ 63 - 1)
  | ds => min (digitsValue 0 ds : Int) (2 ^ 63 - 1)

def atoi (s : Bytes) : Int := toInt32 (strtol s)

theorem toInt32_of_range {n : Int} (hlo : -2 ^ 31 ≤ n) (hhi : n < 2 ^ 31) : toInt32 n = n := by
  unfold toInt32
  exact Int.bmod_eq_of_le (by omega) (by omega)

theorem atoi_range (s : Bytes) : -2 ^ 31 ≤ atoi s ∧ atoi s ≤ intMax := by
  unfold atoi toInt32 intMax
  have h1 := Int.le_bmod (x := strtol s) (m := 2 ^ 32) (by decide)
  have h2 := Int.bmod_lt (x := strtol s) (m := 2 ^ 32) (by decide)
  omega

/-- `%d` for a value that is not negative. -/
def decimalNat (n : Nat) : Bytes :=
  if n < 10 then [0x30 + n.toUInt8]
  else decimalNat (n / 10) ++ [0x30 + (n % 10).toUInt8]

/-- `%d`. -/
def decimal (n : Int) : Bytes :=
  if n < 0 then 0x2d :: decimalNat n.natAbs else decimalNat n.toNat

theorem digit_ne_zero {n : Nat} (h : n < 10) : (0x30 + n.toUInt8 : UInt8) ≠ 0 := by
  have : ∀ n : Fin 10, (0x30 + n.val.toUInt8 : UInt8) ≠ 0 := by decide
  exact this ⟨n, h⟩

theorem decimalNat_nulFree (n : Nat) : 0 ∉ decimalNat n := by
  fun_induction decimalNat n with
  | case1 n h => simpa using (digit_ne_zero h).symm
  | case2 n h ih =>
    have hdigit := digit_ne_zero (Nat.mod_lt n (by decide : 10 > 0))
    simpa [ih] using hdigit.symm

theorem decimal_nulFree (n : Int) : 0 ∉ decimal n := by
  unfold decimal
  split
  · simp [decimalNat_nulFree]
  · exact decimalNat_nulFree _

/-- `is_integer_string`: an optional sign and one or more digits. -/
def isIntegerString (text : Bytes) : Bool :=
  let digits := if peek text = 0x2d ∨ peek text = 0x2b then text.drop 1 else text
  !digits.isEmpty && digits.all isdigit

/-- The scan of `is_float_string` behind the sign. -/
def isFloatDigits (sawDigit sawDot : Bool) : Bytes → Bool
  | [] => sawDigit
  | c :: cs =>
    if isdigit c then isFloatDigits true sawDot cs
    else if c = 0x2e ∧ sawDot = false then isFloatDigits sawDigit true cs
    else false

/-- `is_float_string`: an optional sign, then digits with at most one dot. -/
def isFloatString (text : Bytes) : Bool :=
  isFloatDigits false false
    (if peek text = 0x2d ∨ peek text = 0x2b then text.drop 1 else text)

/-! ## Errors -/

/-- `SqlError`; `sql_set_error` keeps 255 bytes of the formatted message. -/
structure SqlError where
  line : Int
  column : Int
  message : Bytes
  deriving DecidableEq, Repr

/-- `sql_set_error(error, 0, 0, ...)` with the formatted pieces of the message. -/
def sqlSetError (pieces : List Bytes) : SqlError :=
  ⟨0, 0, pieces.flatten.take 255⟩

/-- Go on behind a step that has neither failed nor left defined behaviour. -/
def andThen {α β : Type} (step : Option (Except SqlError α)) (next : α → Option (Except SqlError β)) :
    Option (Except SqlError β) :=
  match step with
  | none => none
  | some (.error e) => some (.error e)
  | some (.ok a) => next a

theorem andThen_ok_iff {α β : Type} {step : Option (Except SqlError α)}
    {next : α → Option (Except SqlError β)} {b : β} :
    andThen step next = some (.ok b) ↔ ∃ a, step = some (.ok a) ∧ next a = some (.ok b) := by
  rcases step with _ | e | a <;> simp [andThen]

theorem andThen_defined_iff {α β : Type} {step : Option (Except SqlError α)}
    {next : α → Option (Except SqlError β)} :
    andThen step next ≠ none ↔ step ≠ none ∧ ∀ a, step = some (.ok a) → next a ≠ none := by
  rcases step with _ | e | a <;> simp [andThen]

/-! ## JSON strings -/

def backslash : UInt8 := 0x5c

def hexDigit (n : UInt8) : UInt8 := if n < 10 then 0x30 + n else 0x57 + n

/-- What `sql_json_quote` writes for one byte. -/
def jsonEscape (c : UInt8) : Bytes :=
  if c = doubleQuote then [backslash, doubleQuote]
  else if c = backslash then [backslash, backslash]
  else if c = 0x08 then [backslash, 0x62]
  else if c = 0x0c then [backslash, 0x66]
  else if c = newline then [backslash, 0x6e]
  else if c = carriageReturn then [backslash, 0x72]
  else if c = 0x09 then [backslash, 0x74]
  else if c < 0x20 then [backslash, 0x75, 0x30, 0x30, hexDigit (c / 16), hexDigit (c % 16)]
  else [c]

def sqlJsonQuote (src : Bytes) : Bytes := [doubleQuote] ++ src.flatMap jsonEscape ++ [doubleQuote]

end MiniSql
