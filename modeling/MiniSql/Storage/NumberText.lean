import MiniSql.Storage.Trim

/-!
# The numbers that texts stand for

An int or a float text stands for a number of any size. `strtol` reads the whole
part of it and stops at 64 bits, and a number that fits an `int` comes back from
its decimal text.
-/

namespace MiniSql.Storage

/-- The text behind its sign, as `is_integer_string` and `is_float_string` cut it. -/
def unsigned (text : Bytes) : Bytes :=
  if peek text = 0x2d ∨ peek text = 0x2b then text.drop 1 else text

def signOf (text : Bytes) : Int := if peek text = 0x2d then -1 else 1

/-- The whole part of a number: all of it in an int text, the digits in front of
the dot in a float text. -/
def intValue (text : Bytes) : Int := signOf text * digitsValue 0 (unsigned text)

/-- The digits behind the dot. -/
def fraction (text : Bytes) : Bytes := ((unsigned text).dropWhile isdigit).drop 1

def floatValue (text : Bytes) : ℚ :=
  signOf text *
    (digitsValue 0 (unsigned text) + digitsValue 0 (fraction text) / 10 ^ (fraction text).length)

/-! ## Reading -/

/-- A number cut to the range of a 64-bit `long`. -/
def saturate (n : Int) : Int := max (-2 ^ 63) (min n (2 ^ 63 - 1))

theorem strtol_eq {text : Bytes} (h : isspace (peek text) = false) :
    strtol text = saturate (intValue text) := by
  rw [strtol, dropWhile_eq_self h]
  cases text with
  | nil => rfl
  | cons c rest =>
    have hpos : ∀ n : Nat, min (n : Int) (2 ^ 63 - 1) = saturate (1 * n) := by
      intro n
      unfold saturate
      omega
    by_cases hminus : c = 0x2d
    · simp only [hminus, intValue, signOf, unsigned, peek, saturate, List.headD_cons, true_or,
        if_true, List.drop_succ_cons, List.drop_zero]
      omega
    · by_cases hplus : c = 0x2b
      · have hvalue := hpos (digitsValue 0 rest)
        simpa [hplus, intValue, signOf, unsigned, peek] using hvalue
      · have hvalue := hpos (digitsValue 0 (c :: rest))
        simpa [hminus, hplus, intValue, signOf, unsigned, peek] using hvalue

/-- The integer part, towards zero. -/
def truncate (q : ℚ) : Int := if q < 0 then -⌊-q⌋ else ⌊q⌋

theorem digitsValue_lt (acc : Nat) (digits : Bytes) :
    digitsValue acc digits < (acc + 1) * 10 ^ digits.length := by
  have hdigit : ∀ c, isdigit c = true → c.toNat - 0x30 < 10 :=
    forall_byte (p := fun c => isdigit c = true → c.toNat - 0x30 < 10) (by decide +kernel)
  induction digits generalizing acc with
  | nil => simp [digitsValue]
  | cons c digits ih =>
    rw [digitsValue, List.length_cons, Nat.pow_succ']
    split
    · rename_i hc
      have hsmall : acc * 10 + (c.toNat - 0x30) + 1 ≤ (acc + 1) * 10 := by
        have := hdigit c hc
        omega
      calc digitsValue (acc * 10 + (c.toNat - 0x30)) digits
          < (acc * 10 + (c.toNat - 0x30) + 1) * 10 ^ digits.length := ih _
        _ ≤ (acc + 1) * 10 * 10 ^ digits.length := Nat.mul_le_mul_right _ hsmall
        _ = (acc + 1) * (10 * 10 ^ digits.length) := Nat.mul_assoc _ _ _
    · calc acc < acc + 1 := Nat.lt_succ_self acc
        _ ≤ (acc + 1) * (10 * 10 ^ digits.length) := Nat.le_mul_of_pos_right _ (by positivity)

/-- The whole part is a matter of the number alone. -/
theorem intValue_eq_truncate (text : Bytes) : intValue text = truncate (floatValue text) := by
  unfold floatValue intValue
  generalize hwhole : digitsValue 0 (unsigned text) = whole
  generalize hpart : (digitsValue 0 (fraction text) : ℚ) / 10 ^ (fraction text).length = part
  have hnonneg : 0 ≤ part := by
    rw [← hpart]
    positivity
  have hless : part < 1 := by
    rw [← hpart, div_lt_one (by positivity)]
    exact_mod_cast (digitsValue_lt 0 (fraction text)).trans_eq (by rw [Nat.zero_add, Nat.one_mul])
  have hfloor : ⌊(whole : ℚ) + part⌋ = whole := by
    rw [Int.floor_eq_iff]
    push_cast
    constructor <;> linarith
  unfold signOf truncate
  split
  · push_cast
    rw [neg_one_mul, neg_one_mul, neg_neg, hfloor]
    split
    · rfl
    · -- A number that is not below zero in spite of its minus sign is zero.
      rename_i hzero
      have hwhole0 : (0 : ℚ) ≤ whole := Nat.cast_nonneg whole
      have hsum : (whole : ℚ) + part = 0 := by linarith
      have hnone : whole = 0 := by
        rw [hsum, Int.floor_zero] at hfloor
        exact_mod_cast hfloor.symm
      rw [hsum, hnone]
      simp
  · have hpos : ¬ (whole : ℚ) + part < 0 := by
      have hwhole0 : (0 : ℚ) ≤ whole := Nat.cast_nonneg whole
      linarith
    push_cast
    rw [one_mul, one_mul, if_neg hpos, hfloor]

/-! ## Writing -/

theorem digit_spec {n : Nat} (h : n < 10) :
    isdigit (0x30 + n.toUInt8) = true ∧ (0x30 + n.toUInt8 : UInt8).toNat - 0x30 = n := by
  have hall : ∀ n : Fin 10, isdigit (0x30 + n.val.toUInt8) = true ∧
      (0x30 + n.val.toUInt8 : UInt8).toNat - 0x30 = n := by
    decide
  exact hall ⟨n, h⟩

theorem digitsValue_concat (acc : Nat) {digits : Bytes} (hdigits : digits.all isdigit = true)
    {c : UInt8} (hc : isdigit c = true) :
    digitsValue acc (digits ++ [c]) = digitsValue acc digits * 10 + (c.toNat - 0x30) := by
  induction digits generalizing acc with
  | nil => simp [digitsValue, hc]
  | cons d digits ih =>
    rw [List.all_cons, Bool.and_eq_true] at hdigits
    simp only [List.cons_append, digitsValue, hdigits.1, if_true, ih _ hdigits.2]

theorem decimalNat_spec (n : Nat) :
    decimalNat n ≠ [] ∧ (decimalNat n).all isdigit = true ∧ digitsValue 0 (decimalNat n) = n := by
  fun_induction decimalNat n with
  | case1 n hsmall =>
    obtain ⟨hdigit, hvalue⟩ := digit_spec hsmall
    refine ⟨by simp, by simp [hdigit], ?_⟩
    simp only [digitsValue, hdigit, if_true, hvalue]
    omega
  | case2 n hlarge ih =>
    obtain ⟨-, hall, hfront⟩ := ih
    obtain ⟨hdigit, hvalue⟩ := digit_spec (Nat.mod_lt n (by decide : 10 > 0))
    refine ⟨by simp, by simp [hall, hdigit], ?_⟩
    rw [digitsValue_concat 0 hall hdigit, hfront, hvalue]
    omega

theorem unsigned_decimal (n : Int) :
    unsigned (decimal n) = decimalNat n.natAbs ∧ signOf (decimal n) = if n < 0 then -1 else 1 := by
  obtain ⟨hne, hall, -⟩ := decimalNat_spec n.natAbs
  by_cases hneg : n < 0
  · simp [unsigned, signOf, decimal, hneg, peek]
  · have habs : n.toNat = n.natAbs := by omega
    have hfirst : isdigit (peek (decimalNat n.natAbs)) = true :=
      List.all_eq_true.mp hall _ (peek_mem hne)
    have hplain : ∀ c, isdigit c = true → c ≠ 0x2d ∧ c ≠ 0x2b :=
      forall_byte (p := fun c => isdigit c = true → c ≠ 0x2d ∧ c ≠ 0x2b) (by decide +kernel)
    obtain ⟨hminus, hplus⟩ := hplain _ hfirst
    simp [unsigned, signOf, decimal, hneg, habs, hminus, hplus]

theorem isIntegerString_decimal (n : Int) : isIntegerString (decimal n) = true := by
  obtain ⟨hne, hall, -⟩ := decimalNat_spec n.natAbs
  change (!(unsigned (decimal n)).isEmpty && (unsigned (decimal n)).all isdigit) = true
  rw [(unsigned_decimal n).1]
  simp [hne, hall]

theorem intValue_decimal (n : Int) : intValue (decimal n) = n := by
  obtain ⟨hdigits, hsign⟩ := unsigned_decimal n
  rw [intValue, hdigits, hsign, (decimalNat_spec n.natAbs).2.2]
  split <;> omega

/-- `atoi` undoes `%d`. -/
theorem atoi_decimal {n : Int} (hlo : -2 ^ 31 ≤ n) (hhi : n ≤ intMax) : atoi (decimal n) = n := by
  have hspace : isspace (peek (decimal n)) = false := by
    have htrim := peek_trim (decimal n)
    rwa [trim_of_isIntegerString (isIntegerString_decimal n)] at htrim
  have hsmall : saturate n = n := by
    unfold saturate intMax at *
    omega
  rw [atoi, strtol_eq hspace, intValue_decimal, hsmall]
  exact toInt32_of_range hlo (by unfold intMax at hhi; omega)

end MiniSql.Storage
