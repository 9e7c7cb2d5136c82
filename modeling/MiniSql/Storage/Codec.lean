import MiniSql.Storage.Csv

/-!
# Reading back a line

A line that `append_csv_row` wrote is read back as one row, its fields trimmed,
if it holds no newline of its own and fits the buffer of the reader.
-/

namespace MiniSql.Storage

/-- A line without its newline. -/
def csvContent (fields : Row) : Bytes := [comma].intercalate (fields.map writeCsvField)

def escape (value : Bytes) : Bytes := value.flatMap fun c => if c = doubleQuote then [c, c] else [c]

theorem writeCsvField_eq (value : Bytes) :
    writeCsvField value = doubleQuote :: (escape value ++ [doubleQuote]) := rfl

theorem csvLine_eq (fields : Row) : csvLine fields = csvContent fields ++ [newline] := rfl

theorem csvContent_singleton (field : Bytes) : csvContent [field] = writeCsvField field := by
  simp [csvContent, List.intercalate]

theorem csvContent_cons (field other : Bytes) (fields : Row) :
    csvContent (field :: other :: fields) =
      writeCsvField field ++ comma :: csvContent (other :: fields) := by
  simp [csvContent, List.intercalate]

/-! ## One line -/

theorem csvFields_inside {ch : UInt8} (hch : ch ≠ doubleQuote) (buffer line : Bytes) :
    csvFields true buffer (ch :: line) = csvFields true (buffer ++ [ch]) line := by
  cases line <;> simp [csvFields, hch]

theorem csvFields_doubled (buffer line : Bytes) :
    csvFields true buffer (doubleQuote :: doubleQuote :: line) =
      csvFields true (buffer ++ [doubleQuote]) line := by
  simp [csvFields]

theorem csvFields_close {line : Bytes} (hline : peek line ≠ doubleQuote) (buffer : Bytes) :
    csvFields true buffer (doubleQuote :: line) = csvFields false buffer line := by
  cases line with
  | nil => simp [csvFields]
  | cons c line =>
    have hc : c ≠ doubleQuote := hline
    simp [csvFields, hc]

theorem csvFields_open (buffer line : Bytes) :
    csvFields false buffer (doubleQuote :: line) = csvFields true buffer line := by
  cases line <;> simp [csvFields]

theorem csvFields_comma {line : Bytes} {fields : List Bytes}
    (hline : csvFields false [] line = .ok fields) (buffer : Bytes) :
    csvFields false buffer (comma :: line) = .ok (trim buffer :: fields) := by
  have hcomma : comma ≠ doubleQuote := by decide
  cases line with
  | nil =>
    cases hline
    simp [csvFields, hcomma, trimField]
  | cons c line => simp [csvFields, hcomma, hline, trimField]

theorem csvFields_escape (buffer value rest : Bytes) :
    csvFields true buffer (escape value ++ rest) = csvFields true (buffer ++ value) rest := by
  induction value generalizing buffer with
  | nil => simp [escape]
  | cons c value ih =>
    have hcons : escape (c :: value) = (if c = doubleQuote then [c, c] else [c]) ++ escape value := rfl
    by_cases hc : c = doubleQuote
    · rw [hcons, if_pos hc, hc]
      simp [csvFields_doubled, ih]
    · rw [hcons, if_neg hc]
      simp [csvFields_inside hc, ih]

/-- A written field is collected in the buffer. -/
theorem csvFields_writeCsvField (buffer value : Bytes) {rest : Bytes}
    (hrest : peek rest ≠ doubleQuote) :
    csvFields false buffer (writeCsvField value ++ rest) = csvFields false (buffer ++ value) rest := by
  rw [writeCsvField_eq, List.cons_append, csvFields_open, List.append_assoc, csvFields_escape]
  exact csvFields_close hrest (buffer ++ value)

/-- A line behind a text that is still being collected. -/
theorem csvFields_csvContent (buffer field : Bytes) (fields : Row) :
    csvFields false buffer (csvContent (field :: fields)) =
      .ok (trim (buffer ++ field) :: fields.map trim) := by
  induction fields generalizing buffer field with
  | nil =>
    have hfield : csvFields false buffer (writeCsvField field ++ []) =
        csvFields false (buffer ++ field) [] := csvFields_writeCsvField buffer field (by decide)
    rw [List.append_nil] at hfield
    rw [csvContent_singleton, hfield]
    simp [csvFields, trimField]
  | cons other fields ih =>
    have hcomma : peek (comma :: csvContent (other :: fields)) ≠ doubleQuote := by
      simp [peek, comma, doubleQuote]
    rw [csvContent_cons, csvFields_writeCsvField buffer field hcomma, csvFields_comma (ih [] other)]
    rfl

theorem csvContent_first {fields : Row} (hne : fields ≠ []) :
    ∃ rest, csvContent fields = doubleQuote :: rest := by
  cases fields with
  | nil => exact absurd rfl hne
  | cons field fields =>
    cases fields with
    | nil => exact ⟨_, by rw [csvContent_singleton, writeCsvField_eq]⟩
    | cons other fields => exact ⟨_, by rw [csvContent_cons, writeCsvField_eq, List.cons_append]⟩

theorem csvContent_last {fields : Row} (hne : fields ≠ []) :
    ∃ init, csvContent fields = init ++ [doubleQuote] := by
  induction fields with
  | nil => exact absurd rfl hne
  | cons field fields ih =>
    cases fields with
    | nil => exact ⟨doubleQuote :: escape field, by rw [csvContent_singleton, writeCsvField_eq]; rfl⟩
    | cons other fields =>
      obtain ⟨init, hinit⟩ := ih (List.cons_ne_nil _ _)
      exact ⟨writeCsvField field ++ comma :: init, by rw [csvContent_cons, hinit]; simp⟩

theorem mem_escape {c : UInt8} {value : Bytes} : c ∈ escape value ↔ c ∈ value := by
  constructor
  · intro h
    obtain ⟨d, hd, hc⟩ := List.mem_flatMap.mp h
    by_cases hq : d = doubleQuote
    · simp [hq] at hc
      exact hc ▸ hq ▸ hd
    · simp [hq] at hc
      exact hc ▸ hd
  · intro h
    refine List.mem_flatMap.mpr ⟨c, h, ?_⟩
    split <;> simp

/-- What a line holds beside the quotes and the commas. -/
theorem mem_csvContent {c : UInt8} (hquote : c ≠ doubleQuote) (hcomma : c ≠ comma) {fields : Row} :
    c ∈ csvContent fields ↔ ∃ field ∈ fields, c ∈ field := by
  induction fields with
  | nil => simp [csvContent]
  | cons field fields ih =>
    have hfield : c ∈ writeCsvField field ↔ c ∈ field := by
      simp [writeCsvField_eq, mem_escape, hquote]
    cases fields with
    | nil => simp [csvContent_singleton, hfield]
    | cons other fields =>
      rw [csvContent_cons, List.mem_append, List.mem_cons, ih, hfield]
      simp [hcomma]

/-! ## Reading lines -/

/-- A file that is empty or whose last line is complete. -/
def EndsLine (file : Bytes) : Prop := file = [] ∨ ∃ init, file = init ++ [newline]

theorem EndsLine.tail {c : UInt8} {file : Bytes} (h : EndsLine (c :: file)) : EndsLine file := by
  rcases h with h | ⟨init, h⟩
  · cases h
  · cases init with
    | nil =>
      rw [List.nil_append, List.cons.injEq] at h
      exact .inl h.2
    | cons d init =>
      rw [List.cons_append, List.cons.injEq] at h
      exact .inr ⟨init, h.2⟩

theorem EndsLine.append_csvLine {file : Bytes} (fields : Row) : EndsLine (file ++ csvLine fields) :=
  .inr ⟨file ++ csvContent fields, by rw [csvLine_eq, List.append_assoc]⟩

theorem fgets_split (size : Nat) (file : Bytes) : (fgets size file).1 ++ (fgets size file).2 = file := by
  induction size generalizing file with
  | zero => rfl
  | succ size ih =>
    cases file with
    | nil => rfl
    | cons c file =>
      by_cases hc : c = newline
      · simp [fgets, hc]
      · simp [fgets, hc, ih]

/-- A read stays inside a complete line. -/
theorem fgets_append (size : Nat) {file : Bytes} (hne : file ≠ []) (h : EndsLine file) (rest : Bytes) :
    (fgets size (file ++ rest)) = ((fgets size file).1, (fgets size file).2 ++ rest) ∧
      EndsLine (fgets size file).2 := by
  induction size generalizing file with
  | zero => exact ⟨rfl, h⟩
  | succ size ih =>
    cases file with
    | nil => exact absurd rfl hne
    | cons c file =>
      by_cases hc : c = newline
      · simp only [fgets, List.cons_append, hc, if_true]
        exact ⟨trivial, h.tail⟩
      · have hfile : file ≠ [] := by
          rintro rfl
          rcases h with h | ⟨init, h⟩
          · cases h
          · cases init with
            | nil => exact hc (List.cons.inj h).1
            | cons d init => simp at h
        obtain ⟨heq, hends⟩ := ih hfile h.tail
        simp only [fgets, List.cons_append, hc, if_false, heq]
        exact ⟨trivial, hends⟩

theorem fileLines_append {file : Bytes} (h : EndsLine file) (rest : Bytes) :
    fileLines (file ++ rest) = fileLines file ++ fileLines rest := by
  induction hn : file.length using Nat.strongRecOn generalizing file with
  | ind n ih =>
    cases file with
    | nil => simp [fileLines]
    | cons c file =>
      obtain ⟨heq, hends⟩ := fgets_append lineSize (List.cons_ne_nil c file) h rest
      have hshort : (fgets lineSize (c :: file)).2.length < n := hn ▸ fgets_shorter _ c file
      rw [List.cons_append, fileLines, ← List.cons_append, heq, ih _ hshort hends rfl]
      rw [fileLines.eq_2 c file, List.cons_append]

theorem readLines_append (expectedFields : Nat) (buffers rest : List Bytes) :
    readLines expectedFields (buffers ++ rest) =
      match readLines expectedFields buffers with
      | .error e => .error e
      | .ok rows =>
        match readLines expectedFields rest with
        | .error e => .error e
        | .ok rows' => .ok (rows ++ rows') := by
  induction buffers with
  | nil =>
    simp only [List.nil_append, readLines]
    cases readLines expectedFields rest <;> rfl
  | cons buffer buffers ih =>
    simp only [List.cons_append, readLines, ih]
    by_cases hblank : (stripLine buffer).isEmpty = true
    · simp only [hblank, if_true]
    · simp only [hblank]
      cases parseCsvLine (stripLine buffer) expectedFields with
      | error e => rfl
      | ok fields =>
        cases readLines expectedFields buffers with
        | error e => rfl
        | ok rows => cases readLines expectedFields rest <;> rfl

/-- A row that can be read back: no field has a newline, and the line fits the
buffer of the reader. -/
def Storable (fields : Row) : Prop :=
  (∀ field ∈ fields, newline ∉ field) ∧ (csvContent fields).length ≤ lineSize

instance (fields : Row) : Decidable (Storable fields) :=
  inferInstanceAs (Decidable ((∀ field ∈ fields, newline ∉ field) ∧
    (csvContent fields).length ≤ lineSize))

theorem newline_notMem_csvContent {fields : Row} :
    newline ∉ csvContent fields ↔ ∀ field ∈ fields, newline ∉ field := by
  rw [mem_csvContent (by decide) (by decide)]
  simp

theorem fgets_line {content : Bytes} (hcontent : newline ∉ content) {size : Nat}
    (hsize : content.length < size) (rest : Bytes) :
    fgets size (content ++ newline :: rest) = (content ++ [newline], rest) := by
  induction size generalizing content with
  | zero => omega
  | succ size ih =>
    cases content with
    | nil => simp [fgets]
    | cons c content =>
      have hc : c ≠ newline := fun h => hcontent (by simp [h])
      have hrec := ih (fun h => hcontent (List.mem_cons_of_mem c h))
        (by simp only [List.length_cons] at hsize; omega)
      simp [fgets, hc, hrec]

theorem fgets_full {content : Bytes} (hcontent : newline ∉ content) (rest : Bytes) :
    fgets content.length (content ++ rest) = (content, rest) := by
  induction content with
  | nil => rfl
  | cons c content ih =>
    have hc : c ≠ newline := fun h => hcontent (by simp [h])
    have hrec := ih fun h => hcontent (List.mem_cons_of_mem c h)
    simp [fgets, hc, hrec]

theorem fgets_rest {content : Bytes} (hcontent : newline ∉ content) {size : Nat}
    (hsize : content.length ≤ size) : fgets size content = (content, []) := by
  induction content generalizing size with
  | nil => cases size <;> rfl
  | cons c content ih =>
    obtain ⟨size, rfl⟩ : ∃ k, size = k + 1 := ⟨size - 1, by simp only [List.length_cons] at hsize; omega⟩
    have hc : c ≠ newline := fun h => hcontent (by simp [h])
    have hrec := ih (fun h => hcontent (List.mem_cons_of_mem c h)) (Nat.le_of_succ_le_succ hsize)
    simp [fgets, hc, hrec]

theorem stripLine_quote {init ends : Bytes} (hnul : 0 ∉ init) (hends : ∀ c ∈ ends, isLineEnd c = true) :
    stripLine (init ++ [doubleQuote] ++ ends) = init ++ [doubleQuote] := by
  have hmem : (0 : UInt8) ∉ init ++ [doubleQuote] ++ ends := by
    simp only [List.mem_append, List.mem_singleton, not_or]
    refine ⟨⟨hnul, by decide⟩, fun h => ?_⟩
    exact absurd (hends 0 h) (by decide)
  have hquote : ¬ isLineEnd doubleQuote = true := by decide
  rw [stripLine, cString_eq_self hmem, List.reverse_append,
    List.dropWhile_append_of_pos (by simpa using hends), List.reverse_append, List.reverse_singleton,
    List.singleton_append, List.dropWhile_cons_of_neg hquote]
  simp

theorem parseCsvLine_csvContent {fields : Row} (hne : fields ≠ []) :
    parseCsvLine (csvContent fields) fields.length = .ok (fields.map trim) := by
  cases fields with
  | nil => exact absurd rfl hne
  | cons field fields => simp [parseCsvLine, csvFields_csvContent [] field fields]

theorem stripLine_newline (text : Bytes) : stripLine (text ++ [newline]) = stripLine text := by
  by_cases hnul : (0 : UInt8) ∈ text
  · rw [stripLine, cString_append hnul]
    rfl
  · have hmem : (0 : UInt8) ∉ text ++ [newline] := by
      simp only [List.mem_append, List.mem_singleton, not_or]
      exact ⟨hnul, by decide⟩
    rw [stripLine, cString_eq_self hmem, stripLine, cString_eq_self hnul, List.reverse_append,
      List.reverse_singleton, List.singleton_append, List.dropWhile_cons_of_pos (by decide)]

theorem fileLines_cons {file : Bytes} (h : file ≠ []) :
    fileLines file = (fgets lineSize file).1 :: fileLines (fgets lineSize file).2 := by
  obtain ⟨c, file, rfl⟩ := List.exists_cons_of_ne_nil h
  rw [fileLines]

/-- A line that fills the buffer is read as it is, and its newline as a blank line
of its own. -/
theorem readLines_terminated (expectedFields : Nat) {text : Bytes} (hfree : newline ∉ text)
    (hsize : text.length ≤ lineSize) :
    readLines expectedFields (fileLines (text ++ [newline])) = readLines expectedFields [text] := by
  rw [fileLines_cons (by simp)]
  rcases Nat.lt_or_eq_of_le hsize with hlt | heq
  · rw [fgets_line hfree hlt []]
    simp only [fileLines, readLines, stripLine_newline]
  · have hblank : (stripLine [newline]).isEmpty = true := by decide
    have hlast : fgets lineSize [newline] = ([newline], []) := rfl
    rw [← heq, fgets_full hfree, fileLines_cons (by simp), hlast]
    simp only [fileLines, readLines, hblank, if_true]

theorem readLines_nonblank (expectedFields : Nat) {text : Bytes} {fields : Row}
    (hstrip : stripLine text ≠ []) (hparse : parseCsvLine (stripLine text) expectedFields = .ok fields) :
    readLines expectedFields [text] = .ok [fields] := by
  simp [readLines, hstrip, hparse]

theorem nul_notMem_csvContent {fields : Row} (hnul : ∀ field ∈ fields, 0 ∉ field) :
    0 ∉ csvContent fields := by
  rw [mem_csvContent (by decide) (by decide)]
  rintro ⟨field, hfield, hmem⟩
  exact hnul field hfield hmem

/-- A text that ends with a quote stays as it is. -/
theorem stripLine_eq_self {init : Bytes} (hnul : 0 ∉ init) :
    stripLine (init ++ [doubleQuote]) = init ++ [doubleQuote] := by
  have := stripLine_quote hnul (List.forall_mem_nil (isLineEnd · = true))
  rwa [List.append_nil] at this

/-- **The line of a storable row is read back as that row.** -/
theorem readLines_csvLine {fields : Row} (hne : fields ≠ []) (hnul : ∀ field ∈ fields, 0 ∉ field)
    (h : Storable fields) :
    readLines fields.length (fileLines (csvLine fields)) = .ok [fields.map trim] := by
  obtain ⟨init, hinit⟩ := csvContent_last hne
  have hzero : (0 : UInt8) ∉ init := by
    intro hmem
    exact nul_notMem_csvContent hnul (hinit ▸ List.mem_append_left _ hmem)
  have hstrip : stripLine (csvContent fields) = csvContent fields := by
    rw [hinit]
    exact stripLine_eq_self hzero
  rw [csvLine_eq, readLines_terminated _ (newline_notMem_csvContent.mpr h.1) h.2]
  apply readLines_nonblank
  · rw [hstrip, hinit]
    simp
  · rw [hstrip]
    exact parseCsvLine_csvContent hne

end MiniSql.Storage
