import MiniSql.Storage.Csv

/-!
# Trimming

A reader trims every field. That changes neither the number `atoi` reads from a
field nor a field that passes as an int or a float.
-/

namespace MiniSql.Storage

/-- The text without the whitespace in front of it is the trimmed text and the
whitespace behind it. -/
theorem trim_append (text : Bytes) : ∃ spaces, (∀ c ∈ spaces, isspace c = true) ∧
    text.dropWhile isspace = trim text ++ spaces := by
  refine ⟨((text.dropWhile isspace).reverse.takeWhile isspace).reverse, fun c hc => ?_, ?_⟩
  · exact List.all_eq_true.mp List.all_takeWhile c (List.mem_reverse.mp hc)
  · rw [trim, ← List.reverse_append, List.takeWhile_append_dropWhile, List.reverse_reverse]

theorem dropWhile_eq_self {text : Bytes} (h : isspace (peek text) = false) :
    text.dropWhile isspace = text := by
  cases text with
  | nil => rfl
  | cons c text => exact List.dropWhile_cons_of_neg (by simpa [peek] using h)

/-- A trimmed text starts with no whitespace. -/
theorem peek_trim (text : Bytes) : isspace (peek (trim text)) = false := by
  obtain ⟨spaces, hspaces, hcut⟩ := trim_append text
  cases htrim : trim text with
  | nil => rfl
  | cons c rest =>
    have := (dropWhile_stop rfl : isspace (peek (text.dropWhile isspace)) = false)
    rwa [hcut, htrim] at this

/-- Where a text starts with no whitespace, its leading part does not vanish. -/
theorem trim_eq_nil {text : Bytes} (h : trim text = []) : text.dropWhile isspace = [] := by
  obtain ⟨spaces, hspaces, hcut⟩ := trim_append text
  have hpeek := (dropWhile_stop rfl : isspace (peek (text.dropWhile isspace)) = false)
  rw [h, List.nil_append] at hcut
  cases spaces with
  | nil => exact hcut
  | cons c spaces =>
    rw [hcut] at hpeek
    exact absurd (hspaces c List.mem_cons_self) (by simpa [peek] using hpeek)

theorem trim_eq_self {text : Bytes} (hfirst : isspace (peek text) = false)
    (hlast : isspace (peek text.reverse) = false) : trim text = text := by
  rw [trim, dropWhile_eq_self hfirst, dropWhile_eq_self hlast, List.reverse_reverse]

/-- A trimmed text ends with no whitespace. -/
theorem peek_reverse_trim (text : Bytes) : isspace (peek (trim text).reverse) = false := by
  rw [trim, List.reverse_reverse]
  exact dropWhile_stop rfl

theorem trim_of_no_space {text : Bytes} (h : ∀ c ∈ text, isspace c = false) : trim text = text := by
  have hkeep : ∀ {s : Bytes}, (∀ c ∈ s, isspace c = false) → s.dropWhile isspace = s := by
    intro s hs
    cases s with
    | nil => rfl
    | cons c s => exact List.dropWhile_cons_of_neg (by simp [hs c List.mem_cons_self])
  rw [trim, hkeep h, hkeep fun c hc => h c (List.mem_reverse.mp hc), List.reverse_reverse]

theorem trim_trim (text : Bytes) : trim (trim text) = trim text := by
  have hlast : ((text.dropWhile isspace).reverse.dropWhile isspace).dropWhile isspace =
      (text.dropWhile isspace).reverse.dropWhile isspace :=
    dropWhile_eq_self (dropWhile_stop rfl)
  have hfirst := dropWhile_eq_self (peek_trim text)
  have hback : (trim text).reverse = (text.dropWhile isspace).reverse.dropWhile isspace := by
    rw [trim, List.reverse_reverse]
  rw [trim, hfirst, hback, hlast]
  rfl

theorem trim_append_left {spaces : Bytes} (h : ∀ c ∈ spaces, isspace c = true) (text : Bytes) :
    trim (spaces ++ text) = trim text := by
  rw [trim, List.dropWhile_append_of_pos h, trim]

theorem trim_append_right (text : Bytes) {spaces : Bytes} (h : ∀ c ∈ spaces, isspace c = true) :
    trim (text ++ spaces) = trim text := by
  have hback : ∀ c ∈ spaces.reverse, isspace c = true := fun c hc => h c (List.mem_reverse.mp hc)
  cases hdrop : text.dropWhile isspace with
  | nil =>
    have hall : ∀ c ∈ text, isspace c = true := List.dropWhile_eq_nil_iff.mp hdrop
    rw [trim_append_left hall, trim, trim, hdrop, List.dropWhile_eq_nil_iff.mpr h]
  | cons c rest =>
    have hcut : (text ++ spaces).dropWhile isspace = text.dropWhile isspace ++ spaces := by
      rw [List.dropWhile_append, hdrop]
      rfl
    rw [trim, hcut, List.reverse_append, List.dropWhile_append_of_pos hback, trim]

theorem map_trim_eq_self {fields : Row} :
    fields.map trim = fields ↔ ∀ field ∈ fields, trim field = field := by
  rw [← List.map_id fields, List.map_map, List.map_inj_left]
  simp

/-- Trimming takes away whitespace only. -/
theorem count_trim {c : UInt8} (hc : isspace c = false) (text : Bytes) :
    (trim text).count c = text.count c := by
  have hdrop : ∀ s : Bytes, (s.dropWhile isspace).count c = s.count c := by
    intro s
    have hnone : (s.takeWhile isspace).count c = 0 := by
      rw [List.count_eq_zero]
      intro hmem
      rw [List.mem_takeWhile_imp hmem] at hc
      cases hc
    calc (s.dropWhile isspace).count c
        = (s.takeWhile isspace).count c + (s.dropWhile isspace).count c := by rw [hnone, Nat.zero_add]
      _ = s.count c := by rw [← List.count_append, List.takeWhile_append_dropWhile]
  rw [trim, List.count_reverse, hdrop, List.count_reverse, hdrop]

/-! ## Numbers -/

theorem isdigit_of_isspace (c : UInt8) : isspace c = true → isdigit c = false :=
  forall_byte (p := fun c => isspace c = true → isdigit c = false) (by decide +kernel) c

theorem digitsValue_append (acc : Nat) (digits : Bytes) {spaces : Bytes}
    (hspaces : ∀ c ∈ spaces, isspace c = true) :
    digitsValue acc (digits ++ spaces) = digitsValue acc digits := by
  induction digits generalizing acc with
  | nil =>
    cases spaces with
    | nil => rfl
    | cons c spaces =>
      have hc := isdigit_of_isspace c (hspaces c List.mem_cons_self)
      simp [digitsValue, hc]
  | cons d digits ih =>
    by_cases hd : isdigit d = true
    · simp [digitsValue, hd, ih]
    · simp [digitsValue, hd]

theorem strtol_trim (text : Bytes) : strtol (trim text) = strtol text := by
  obtain ⟨spaces, hspaces, hcut⟩ := trim_append text
  unfold strtol
  rw [dropWhile_eq_self (peek_trim text)]
  cases htrim : trim text with
  | nil => rw [trim_eq_nil htrim]
  | cons c rest =>
    rw [hcut, htrim, List.cons_append]
    have hrest : digitsValue 0 (rest ++ spaces) = digitsValue 0 rest :=
      digitsValue_append 0 rest hspaces
    have hall : digitsValue 0 (c :: (rest ++ spaces)) = digitsValue 0 (c :: rest) :=
      digitsValue_append 0 (c :: rest) hspaces
    by_cases hminus : c = 0x2d
    · simp [hminus, hrest]
    · by_cases hplus : c = 0x2b
      · simp [hplus, hrest]
      · simp [hminus, hplus, hall]

theorem atoi_trim (text : Bytes) : atoi (trim text) = atoi text := by
  rw [atoi, strtol_trim, atoi]

theorem isspace_of_isdigit {c : UInt8} (h : isdigit c = true) : isspace c = false := by
  cases hc : isspace c with
  | false => rfl
  | true => simp [isdigit_of_isspace c hc] at h

/-- A sign is no whitespace, so a number has none if its digits have none. -/
theorem no_space_of_sign {text : Bytes}
    (h : ∀ c ∈ (if peek text = 0x2d ∨ peek text = 0x2b then text.drop 1 else text),
      isspace c = false) : ∀ c ∈ text, isspace c = false := by
  split at h
  · rename_i hsign
    cases text with
    | nil => simp
    | cons d rest =>
      rw [List.forall_mem_cons]
      refine ⟨?_, h⟩
      rcases hsign with hsign | hsign
      · rw [show d = 0x2d from hsign]
        rfl
      · rw [show d = 0x2b from hsign]
        rfl
  · exact h

theorem trim_of_isIntegerString {text : Bytes} (h : isIntegerString text = true) :
    trim text = text := by
  refine trim_of_no_space (no_space_of_sign fun c hc => ?_)
  simp only [isIntegerString, Bool.and_eq_true, List.all_eq_true] at h
  exact isspace_of_isdigit (h.2 c hc)

theorem isFloatDigits_no_space {sawDigit sawDot : Bool} {text : Bytes}
    (h : isFloatDigits sawDigit sawDot text = true) : ∀ c ∈ text, isspace c = false := by
  induction text generalizing sawDigit sawDot with
  | nil => simp
  | cons d text ih =>
    rw [List.forall_mem_cons]
    unfold isFloatDigits at h
    split at h
    · rename_i hd
      exact ⟨isspace_of_isdigit hd, ih h⟩
    · split at h
      · rename_i hdot
        rw [hdot.1]
        exact ⟨rfl, ih h⟩
      · cases h

theorem trim_of_isFloatString {text : Bytes} (h : isFloatString text = true) : trim text = text :=
  trim_of_no_space (no_space_of_sign (isFloatDigits_no_space h))

end MiniSql.Storage
