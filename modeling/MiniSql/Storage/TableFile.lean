import MiniSql.Storage.Codec

/-!
# Reading back a table file

A line that is not storable falls apart into two nonblank pieces or more. A file
of appended lines is therefore read back with one row for each line exactly when
every line is storable.
-/

namespace MiniSql.Storage

/-! ## Lines that fall apart -/

def nonblank (buffer : Bytes) : Bool := !(stripLine buffer).isEmpty

theorem readLines_length {expectedFields : Nat} {buffers : List Bytes} {rows : List Row}
    (h : readLines expectedFields buffers = .ok rows) :
    rows.length = (buffers.filter nonblank).length := by
  induction buffers generalizing rows with
  | nil =>
    cases h
    rfl
  | cons buffer buffers ih =>
    unfold readLines at h
    split at h
    · rename_i hblank
      rw [ih h, List.filter_cons_of_neg (by simp [nonblank, hblank])]
    · rename_i hblank
      split at h
      · cases h
      · split at h
        · cases h
        · rename_i rows' hrows
          cases h
          rw [List.filter_cons_of_pos (by simpa [nonblank] using hblank), List.length_cons,
            List.length_cons, ih hrows]

theorem nonblank_of_quote {buffer : Bytes} (hnul : 0 ∉ buffer) (hquote : doubleQuote ∈ buffer) :
    nonblank buffer = true := by
  have hdrop : (buffer.reverse.dropWhile isLineEnd) ≠ [] := by
    intro h
    rw [List.dropWhile_eq_nil_iff] at h
    exact absurd (h doubleQuote (List.mem_reverse.mpr hquote)) (by decide)
  simpa [nonblank, stripLine, cString_eq_self hnul] using hdrop

theorem flatten_fileLines (file : Bytes) : (fileLines file).flatten = file := by
  induction hn : file.length using Nat.strongRecOn generalizing file with
  | ind n ih =>
    cases file with
    | nil => simp [fileLines]
    | cons c file =>
      have hshort : (fgets lineSize (c :: file)).2.length < n := hn ▸ fgets_shorter _ c file
      rw [fileLines, List.flatten_cons, ih _ hshort _ rfl, fgets_split]

theorem exists_nonblank {file : Bytes} (hnul : 0 ∉ file) (hquote : doubleQuote ∈ file) :
    ∃ buffer ∈ fileLines file, nonblank buffer = true := by
  rw [← flatten_fileLines file, List.mem_flatten] at hquote
  obtain ⟨buffer, hbuffer, hmem⟩ := hquote
  refine ⟨buffer, hbuffer, nonblank_of_quote (fun h => hnul ?_) hmem⟩
  rw [← flatten_fileLines file]
  exact List.mem_flatten.mpr ⟨buffer, hbuffer, h⟩

theorem fgets_length (size : Nat) (file : Bytes) : (fgets size file).1.length ≤ size := by
  induction size generalizing file with
  | zero => simp [fgets]
  | succ size ih =>
    cases file with
    | nil => simp [fgets]
    | cons c file =>
      by_cases hc : c = newline
      · simp [fgets, hc]
      · simp [fgets, hc, ih file]

/-- A read ends with the first newline. -/
theorem fgets_newline {size : Nat} {file before after : Bytes}
    (h : (fgets size file).1 = before ++ newline :: after) : after = [] := by
  induction size generalizing file before with
  | zero => simp [fgets] at h
  | succ size ih =>
    cases file with
    | nil => simp [fgets] at h
    | cons c file =>
      by_cases hc : c = newline
      · simp only [fgets, hc, if_true] at h
        cases before with
        | nil => simpa using h.symm
        | cons d before => simp at h
      · simp only [fgets, hc, if_false] at h
        cases before with
        | nil => exact absurd (List.cons.inj h).1 hc
        | cons d before => exact ih (List.cons.inj h).2

/-- A line whose first read takes all of its quotes is storable. -/
theorem storable_of_read {fields : Row} (hne : fields ≠ []) {more : Bytes} {size : Nat}
    (hsize : size ≤ lineSize) {file : Bytes} (h : (fgets size file).1 = csvContent fields ++ more) :
    Storable fields := by
  refine ⟨newline_notMem_csvContent.mp fun hmem => ?_, ?_⟩
  · obtain ⟨init, hinit⟩ := csvContent_last hne
    obtain ⟨before, after, hcut⟩ := List.append_of_mem hmem
    rw [hcut, List.append_assoc, List.cons_append] at h
    have hempty := fgets_newline h
    rw [(List.append_eq_nil_iff.mp hempty).1] at hcut
    have hlast := congrArg List.getLast? (hinit.symm.trans hcut)
    simp [newline, doubleQuote] at hlast
  · have hlen := fgets_length size file
    rw [h, List.length_append] at hlen
    omega

/-- **Any other line falls apart into two nonblank pieces or more.** -/
theorem pieces_of_not_storable {fields : Row} (hne : fields ≠ []) (hnul : ∀ field ∈ fields, 0 ∉ field)
    (h : ¬ Storable fields) : 2 ≤ ((fileLines (csvLine fields)).filter nonblank).length := by
  obtain ⟨init, hinit⟩ := csvContent_last hne
  obtain ⟨rest, hfirst⟩ := csvContent_first hne
  have hcons : csvLine fields = doubleQuote :: (rest ++ [newline]) := by
    rw [csvLine_eq, hfirst, List.cons_append]
  have hzero : (0 : UInt8) ∉ csvLine fields := by
    rw [csvLine_eq, List.mem_append, mem_csvContent (by decide) (by decide)]
    rintro (⟨field, hfield, hmem⟩ | hmem)
    · exact hnul field hfield hmem
    · exact absurd hmem (by decide)
  have hsplit := fgets_split lineSize (csvLine fields)
  have hread : doubleQuote ∈ (fgets lineSize (csvLine fields)).1 := by
    rw [hcons, lineSize, fgets, if_neg (by decide)]
    exact List.mem_cons_self
  have hquote : doubleQuote ∈ (fgets lineSize (csvLine fields)).2 := by
    refine Decidable.of_not_not fun hnone => h ?_
    rw [csvLine_eq] at hsplit hnone
    rcases List.append_eq_append_iff.mp hsplit with ⟨left, hleft, hright⟩ | ⟨more, hmore, -⟩
    · have hempty : left = [] := by
        rcases List.eq_nil_or_concat left with rfl | ⟨left', c, rfl⟩
        · rfl
        · have hlast := congrArg List.getLast? (hinit.symm.trans hleft)
          simp at hlast
          exact absurd (by simp [hright, hlast]) hnone
      rw [hempty, List.append_nil] at hleft
      exact storable_of_read hne (Nat.le_refl _) (hleft.symm.trans (List.append_nil _).symm)
    · exact storable_of_read hne (Nat.le_refl _) hmore
  have hzero1 : (0 : UInt8) ∉ (fgets lineSize (csvLine fields)).1 :=
    fun hmem => hzero (hsplit ▸ List.mem_append_left _ hmem)
  have hzero2 : (0 : UInt8) ∉ (fgets lineSize (csvLine fields)).2 :=
    fun hmem => hzero (hsplit ▸ List.mem_append_right _ hmem)
  obtain ⟨buffer, hbuffer, hnonblank⟩ := exists_nonblank hzero2 hquote
  have hpos : 0 < ((fileLines (fgets lineSize (csvLine fields)).2).filter nonblank).length :=
    List.length_pos_of_mem (List.mem_filter.mpr ⟨hbuffer, hnonblank⟩)
  have hlines : fileLines (csvLine fields) =
      (fgets lineSize (csvLine fields)).1 :: fileLines (fgets lineSize (csvLine fields)).2 := by
    rw [hcons, fileLines]
  rw [hlines, List.filter_cons_of_pos (nonblank_of_quote hzero1 hread), List.length_cons]
  omega


/-! ## Files of appended lines -/

/-- What the executor hands to `append_csv_row`: one C string for each column. -/
structure Appendable (expectedFields : Nat) (fields : Row) : Prop where
  count : fields.length = expectedFields
  nonempty : fields ≠ []
  nulFree : ∀ field ∈ fields, 0 ∉ field

theorem readCsvRows_append {file : Bytes} (hends : EndsLine file) {expectedFields : Nat}
    {rows : List Row} (hfile : readCsvRows file expectedFields = .ok rows) {added : List Row}
    (hadded : ∀ fields ∈ added, Appendable expectedFields fields)
    (hstorable : ∀ fields ∈ added, Storable fields) :
    readCsvRows (file ++ added.flatMap csvLine) expectedFields =
      .ok (rows ++ added.map (·.map trim)) := by
  induction added generalizing file rows with
  | nil => simpa using hfile
  | cons fields added ih =>
    obtain ⟨hfields, hadded⟩ := List.forall_mem_cons.mp hadded
    obtain ⟨hline, hstorable⟩ := List.forall_mem_cons.mp hstorable
    have hread := readLines_csvLine hfields.nonempty hfields.nulFree hline
    rw [hfields.count] at hread
    have hnext : readCsvRows (file ++ csvLine fields) expectedFields =
        .ok (rows ++ [fields.map trim]) := by
      unfold readCsvRows at hfile ⊢
      rw [fileLines_append hends, readLines_append, hfile, hread]
    have := ih (EndsLine.append_csvLine fields) hnext hadded hstorable
    simpa using this

theorem appendCsvRow_foldlM (file : Bytes) {rows : List Row} (hrows : ∀ row ∈ rows, row ≠ []) :
    rows.foldlM appendCsvRow file = .ok (file ++ rows.flatMap csvLine) := by
  induction rows generalizing file with
  | nil => simp [pure, Except.pure]
  | cons row rows ih =>
    obtain ⟨hrow, hrows⟩ := List.forall_mem_cons.mp hrows
    have hline : appendCsvRow file row = .ok (file ++ csvLine row) := by
      simp [appendCsvRow, hrow]
    rw [List.foldlM_cons, hline]
    simpa [bind, Except.bind] using ih (file ++ csvLine row) hrows

/-- **The table file as a codec.** Rows appended one by one to an empty file are
read back in order, each field without the whitespace around it. -/
theorem readCsvRows_appendCsvRow {n : Nat} (hn : 1 ≤ n) {rows : List Row}
    (hcount : ∀ row ∈ rows, row.length = n)
    (hfields : ∀ row ∈ rows, ∀ field ∈ row, 0 ∉ field ∧ newline ∉ field)
    (hsize : ∀ row ∈ rows, (csvContent row).length ≤ 8191) :
    ∃ file, rows.foldlM appendCsvRow [] = .ok file ∧
      readCsvRows file n = .ok (rows.map fun row => row.map trim) := by
  have hne : ∀ row ∈ rows, row ≠ [] := by
    rintro row hrow rfl
    have := hcount [] hrow
    simp only [List.length_nil] at this
    omega
  have hempty : readCsvRows [] n = .ok [] := by simp [readCsvRows, fileLines, readLines]
  have hread := readCsvRows_append (.inl rfl) hempty
    (fun row hrow => ⟨hcount row hrow, hne row hrow, fun field hfield => (hfields row hrow field hfield).1⟩)
    (fun row hrow => ⟨fun field hfield => (hfields row hrow field hfield).2, hsize row hrow⟩)
  exact ⟨_, appendCsvRow_foldlM [] hne, by simpa using hread⟩

theorem readCsvRows_appendCsvRow_quotes :
    ∃ file, [[ascii "7", ascii " a\"b,"], [ascii "", ascii "\""]].foldlM appendCsvRow [] = .ok file ∧
      readCsvRows file 2 = .ok [[ascii "7", ascii "a\"b,"], [ascii "", ascii "\""]] := by
  obtain ⟨file, happend, hread⟩ := readCsvRows_appendCsvRow (n := 2) (by decide)
    (show ∀ row ∈ [[ascii "7", ascii " a\"b,"], [ascii "", ascii "\""]], row.length = 2 by decide)
    (by decide +kernel) (by decide +kernel)
  exact ⟨file, happend, hread⟩

/-- The number of nonblank buffers that the reader takes for a line. -/
def pieces (fields : Row) : Nat := ((fileLines (csvLine fields)).filter nonblank).length

theorem pieces_spec {expectedFields : Nat} {fields : Row}
    (h : Appendable expectedFields fields) : 1 ≤ pieces fields ∧ (pieces fields = 1 → Storable fields) := by
  by_cases hstorable : Storable fields
  · have hlen := readLines_length (readLines_csvLine h.nonempty h.nulFree hstorable)
    exact ⟨by simpa [pieces] using hlen.le, fun _ => hstorable⟩
  · have htwo : 2 ≤ pieces fields := pieces_of_not_storable h.nonempty h.nulFree hstorable
    exact ⟨by omega, fun hone => by omega⟩

theorem nonblank_append {file : Bytes} (hends : EndsLine file) (added : List Row) :
    ((fileLines (file ++ added.flatMap csvLine)).filter nonblank).length =
      ((fileLines file).filter nonblank).length + (added.map pieces).sum := by
  induction added generalizing file with
  | nil => simp
  | cons fields added ih =>
    have := ih (EndsLine.append_csvLine fields : EndsLine (file ++ csvLine fields))
    rw [List.flatMap_cons, ← List.append_assoc, this, fileLines_append hends, List.filter_append,
      List.length_append, List.map_cons, List.sum_cons, Nat.add_assoc]
    rfl

theorem length_le_pieces {expectedFields : Nat} {added : List Row}
    (hadded : ∀ fields ∈ added, Appendable expectedFields fields) :
    added.length ≤ (added.map pieces).sum := by
  induction added with
  | nil => simp
  | cons fields added ih =>
    obtain ⟨hfields, hadded⟩ := List.forall_mem_cons.mp hadded
    have hone := (pieces_spec hfields).1
    have hrest := ih hadded
    simp only [List.length_cons, List.map_cons, List.sum_cons]
    omega

/-- If a file reads back with a row for each line, every line is storable. -/
theorem storable_of_readCsvRows {file : Bytes} (hends : EndsLine file) {expectedFields : Nat}
    {rows rows' : List Row} (hfile : readCsvRows file expectedFields = .ok rows) {added : List Row}
    (hadded : ∀ fields ∈ added, Appendable expectedFields fields)
    (h : readCsvRows (file ++ added.flatMap csvLine) expectedFields = .ok rows')
    (hlen : rows'.length = rows.length + added.length) : ∀ fields ∈ added, Storable fields := by
  have hsum : (added.map pieces).sum = added.length := by
    have h1 := readLines_length h
    have h2 := readLines_length hfile
    rw [nonblank_append hends] at h1
    omega
  clear h hlen
  induction added with
  | nil => simp
  | cons fields added ih =>
    obtain ⟨hfields, hadded⟩ := List.forall_mem_cons.mp hadded
    have hone := pieces_spec hfields
    have hrest := length_le_pieces hadded
    simp only [List.map_cons, List.sum_cons, List.length_cons] at hsum
    rw [List.forall_mem_cons]
    exact ⟨hone.2 (by omega), ih hadded (by omega)⟩

end MiniSql.Storage
