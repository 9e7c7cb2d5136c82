import MiniSql.Storage.CutLine
import MiniSql.Storage.OpenRead
import MiniSql.Storage.TableFile

/-!
# Appending to any file that can be read

`append_csv_row` writes its line wherever the file happens to end. If a read of
the reader ends there too, the line is read on its own. Otherwise the line goes
on where the last read left off, and only in two cases is it still a row of its
own behind the rows that were there.
-/

namespace MiniSql.Storage

/-! ## A line behind an open read -/

/-- Where a line that goes on in an open read is still a row of its own: behind
carriage returns that leave room for it, or if the read is full right behind an
empty first field, which then changes nothing in front of it. -/
def FitsBehind (text : Bytes) (fields : Row) : Prop :=
  (∀ c ∈ text, c = carriageReturn) ∧ text.length + (csvContent fields).length ≤ lineSize ∨
  text.length + 2 = lineSize ∧ fields.head? = some [] ∧ 2 ≤ fields.length ∧
    (0 ∈ text ∨ (∃ c ∈ text, c ≠ carriageReturn) ∧ text.getLast? ≠ some doubleQuote)

instance (text : Bytes) (fields : Row) : Decidable (FitsBehind text fields) := by
  unfold FitsBehind
  infer_instance

theorem readLines_append_ok {expectedFields : Nat} {buffers buffers' : List Bytes} {rows : List Row} :
    readLines expectedFields (buffers ++ buffers') = .ok rows ↔
      ∃ first second, readLines expectedFields buffers = .ok first ∧
        readLines expectedFields buffers' = .ok second ∧ rows = first ++ second := by
  rw [readLines_append]
  cases readLines expectedFields buffers with
  | error e => simp
  | ok first =>
    cases readLines expectedFields buffers' with
    | error e => simp
    | ok second => simp [eq_comm]

theorem readLines_single {expectedFields : Nat} {text : Bytes} {rows : List Row}
    (h : readLines expectedFields [text] = .ok rows) :
    nonblank text = false ∧ rows = [] ∨
      nonblank text = true ∧ ∃ row, rows = [row] ∧ csvFields false [] (stripLine text) = .ok row ∧
        row.length = expectedFields := by
  by_cases hblank : (stripLine text).isEmpty = true
  · left
    simp only [readLines, hblank, if_true, Except.ok.injEq] at h
    exact ⟨by simp [nonblank, hblank], h.symm⟩
  · right
    simp only [readLines, hblank] at h
    refine ⟨by simpa [nonblank] using hblank, ?_⟩
    rcases hparse : csvFields false [] (stripLine text) with e | row
    · simp [parseCsvLine, hparse] at h
    · by_cases hcount : row.length = expectedFields
      · simp only [parseCsvLine, hparse, hcount] at h
        exact ⟨row, by simpa using h.symm, rfl, hcount⟩
      · simp [parseCsvLine, hparse, hcount] at h

theorem readLines_row {expectedFields : Nat} {text : Bytes} {row : Row} (hblank : nonblank text = true)
    (hparse : csvFields false [] (stripLine text) = .ok row) (hcount : row.length = expectedFields) :
    readLines expectedFields [text] = .ok [row] := by
  apply readLines_nonblank
  · simpa [nonblank] using hblank
  · simp [parseCsvLine, hparse, hcount]

/-- The rows of a file are trimmed. -/
theorem readLines_trimmed {expectedFields : Nat} {buffers : List Bytes} {rows : List Row}
    (h : readLines expectedFields buffers = .ok rows) : ∀ row ∈ rows, row.map trim = row := by
  induction buffers generalizing rows with
  | nil =>
    cases h
    simp
  | cons buffer buffers ih =>
    obtain ⟨first, second, hfirst, hsecond, rfl⟩ :=
      readLines_append_ok.mp (show readLines expectedFields ([buffer] ++ buffers) = .ok rows from h)
    intro row hrow
    rcases List.mem_append.mp hrow with hrow | hrow
    · rcases readLines_single hfirst with ⟨-, rfl⟩ | ⟨-, fields, rfl, hparse, -⟩
      · cases hrow
      · rw [List.mem_singleton.mp hrow]
        exact map_trim_eq_self.mpr (parses_iff.mp hparse).spec.2.2
    · exact ih hsecond row hrow

theorem stripLine_nul {text : Bytes} (hnul : 0 ∈ text) (rest : Bytes) :
    stripLine (text ++ rest) = stripLine text := by
  rw [stripLine, cString_append hnul, stripLine]

/-- A text without NUL and newline is its stripped text and carriage returns. -/
theorem stripLine_split {text : Bytes} (hnul : 0 ∉ text) (hfree : newline ∉ text) :
    ∃ ends, text = stripLine text ++ ends ∧ ∀ c ∈ ends, c = carriageReturn := by
  refine ⟨(text.reverse.takeWhile isLineEnd).reverse, ?_, fun c hc => ?_⟩
  · rw [stripLine, cString_eq_self hnul, ← List.reverse_append, List.takeWhile_append_dropWhile,
      List.reverse_reverse]
  · have hmem := List.mem_reverse.mp hc
    have hend := List.mem_takeWhile_imp hmem
    have hne : c ≠ newline := by
      rintro rfl
      exact hfree (List.mem_reverse.mp ((List.takeWhile_sublist _).subset hmem))
    simpa [isLineEnd, hne] using hend

/-- A blank text without NUL is all carriage returns. -/
theorem nonblank_iff {text : Bytes} (hnul : 0 ∉ text) (hfree : newline ∉ text) :
    nonblank text = true ↔ ∃ c ∈ text, c ≠ carriageReturn := by
  obtain ⟨ends, htext, hends⟩ := stripLine_split hnul hfree
  constructor
  · intro hblank
    by_contra hall
    push Not at hall
    have hnil : stripLine text = [] := by
      rw [stripLine, cString_eq_self hnul, List.reverse_eq_nil_iff, List.dropWhile_eq_nil_iff]
      intro c hc
      rw [hall c (List.mem_reverse.mp hc)]
      rfl
    simp [nonblank, hnil] at hblank
  · rintro ⟨c, hc, hne⟩
    rw [htext] at hc
    have hmem : c ∈ stripLine text := (List.mem_append.mp hc).resolve_right fun h => hne (hends c h)
    simpa [nonblank] using List.ne_nil_of_mem hmem

theorem csvFields_plain {text : Bytes} (h : ∀ c ∈ text, c = carriageReturn) (buffer rest : Bytes) :
    csvFields false buffer (text ++ rest) = csvFields false (buffer ++ text) rest := by
  induction text generalizing buffer with
  | nil => simp
  | cons c text ih =>
    obtain ⟨rfl, htext⟩ := List.forall_mem_cons.mp h
    rw [List.cons_append, csvFields_outside (by decide) (by decide), ih htext, List.append_assoc,
      List.singleton_append]

theorem isspace_of_carriageReturns {text : Bytes} (h : ∀ c ∈ text, c = carriageReturn) :
    ∀ c ∈ text, isspace c = true := by
  intro c hc
  rw [h c hc]
  rfl

section Behind

variable {expectedFields : Nat} {text : Bytes} {fields : Row} (hfree : newline ∉ text)
  (hfields : Appendable expectedFields fields) (hstorable : Storable fields)

include hfields in
theorem quoted_end {front back : Bytes} (hcut : csvContent fields = front ++ back) (hback : back ≠ []) :
    0 ∉ back ∧ (∃ init, back = init ++ [doubleQuote]) := by
  constructor
  · intro h
    exact nul_notMem_csvContent hfields.nulFree (hcut ▸ List.mem_append_right _ h)
  · obtain ⟨init, hinit⟩ := csvContent_last hfields.nonempty
    have hlast : back.getLast hback = doubleQuote := by
      have h : (front ++ back).getLast? = some doubleQuote := by
        rw [← hcut, hinit, List.getLast?_concat]
      rw [List.getLast?_append_of_ne_nil _ hback, List.getLast?_eq_some_getLast hback] at h
      exact Option.some.inj h
    exact ⟨back.dropLast, by rw [← hlast, List.dropLast_append_getLast]⟩

/-- Nothing is stripped from a text that ends with the end of a written line. -/
theorem stripLine_back {before back : Bytes} (hbefore : 0 ∉ before) (hnul : 0 ∉ back)
    (hlast : ∃ init, back = init ++ [doubleQuote]) :
    stripLine (before ++ back) = before ++ back ∧ nonblank (before ++ back) = true := by
  obtain ⟨init, rfl⟩ := hlast
  have hinit : (0 : UInt8) ∉ before ++ init := by
    simp only [List.mem_append, not_or] at hnul ⊢
    exact ⟨hbefore, hnul.1⟩
  have hstrip := stripLine_eq_self hinit
  rw [List.append_assoc] at hstrip
  exact ⟨hstrip, by simp [nonblank, hstrip]⟩

include hfree hstorable in
/-- With room in the buffer the line joins the open read. -/
theorem read_joined (hfits : text.length + (csvContent fields).length ≤ lineSize) :
    readLines expectedFields (fileLines (text ++ csvLine fields)) =
      readLines expectedFields [text ++ csvContent fields] := by
  rw [csvLine_eq, ← List.append_assoc]
  apply readLines_terminated
  · rw [List.mem_append, not_or]
    exact ⟨hfree, newline_notMem_csvContent.mpr hstorable.1⟩
  · rw [List.length_append]
    exact hfits

include hfree hstorable in
/-- Without it the line is cut where the buffer is full. -/
theorem read_cut (hshort : text.length < lineSize)
    (hover : lineSize < text.length + (csvContent fields).length) :
    ∃ front back, csvContent fields = front ++ back ∧ text.length + front.length = lineSize ∧
      front ≠ [] ∧ back ≠ [] ∧ ∀ expectedFields rows,
        readLines expectedFields (fileLines (text ++ csvLine fields)) = .ok rows ↔
          ∃ first second, readLines expectedFields [text ++ front] = .ok first ∧
            readLines expectedFields [back] = .ok second ∧ rows = first ++ second := by
  have hcontent : newline ∉ csvContent fields := newline_notMem_csvContent.mpr hstorable.1
  have hsize := hstorable.2
  refine ⟨(csvContent fields).take (lineSize - text.length),
    (csvContent fields).drop (lineSize - text.length), (List.take_append_drop _ _).symm, ?_, ?_, ?_,
    fun expectedFields rows => ?_⟩
  · rw [List.length_take]
    omega
  · apply List.ne_nil_of_length_pos
    rw [List.length_take]
    omega
  · apply List.ne_nil_of_length_pos
    rw [List.length_drop]
    omega
  · have hback : newline ∉ (csvContent fields).drop (lineSize - text.length) :=
      fun h => hcontent (List.mem_of_mem_drop h)
    have hfront : newline ∉ text ++ (csvContent fields).take (lineSize - text.length) := by
      rw [List.mem_append, not_or]
      exact ⟨hfree, fun h => hcontent (List.mem_of_mem_take h)⟩
    have hbuffers : fileLines (text ++ csvLine fields) =
        [text ++ (csvContent fields).take (lineSize - text.length)] ++
          fileLines ((csvContent fields).drop (lineSize - text.length) ++ [newline]) := by
      rw [csvLine_eq, List.singleton_append, ← fileLines_full hfront, List.append_assoc,
        ← List.append_assoc (List.take _ _), List.take_append_drop]
      rw [List.length_append, List.length_take]
      omega
    rw [hbuffers, readLines_append_ok, readLines_terminated _ hback]
    rw [List.length_drop]
    omega

/-- The back part of a cut line is a row exactly if it is parsed as one. -/
theorem read_back {back : Bytes} (hnul : 0 ∉ back) (hlast : ∃ init, back = init ++ [doubleQuote])
    {rows : List Row} (h : readLines expectedFields [back] = .ok rows) :
    ∃ row, rows = [row] ∧ csvFields false [] back = .ok row := by
  obtain ⟨hstrip, hblank⟩ := stripLine_back (List.not_mem_nil : (0 : UInt8) ∉ []) hnul hlast
  rw [List.nil_append] at hstrip hblank
  rcases readLines_single h with ⟨hnone, -⟩ | ⟨-, row, hrow, hparse, -⟩
  · rw [hblank] at hnone
    cases hnone
  · exact ⟨row, hrow, hstrip ▸ hparse⟩

/-- Two quotes behind a row that ends with a quote change its last field. -/
theorem doubled_quote_changes {row : Row} (hlast : text.getLast? = some doubleQuote)
    (h : csvFields false [] text = .ok row) :
    csvFields false [] (text ++ [doubleQuote, doubleQuote]) ≠ .ok row := by
  intro hsame
  obtain ⟨others, last, hrow, hcontinues⟩ := (parses_iff.mp h).continues
  have hlonger := hcontinues.doubled hlast [doubleQuote] _ (.closed (by decide) .done)
  have heq := Except.ok.inj (hlonger.csvFields_eq.symm.trans hsame)
  rw [hrow] at heq
  have hcount := congrArg (List.count doubleQuote) (List.cons.inj (List.append_cancel_left heq)).1
  rw [count_trim (by decide), count_trim (by decide), List.count_append] at hcount
  simp at hcount

include hfree in
/-- An empty quoted text behind another row adds nothing to it. -/
theorem empty_quotes_vanish (hnul : 0 ∉ text) {row : Row}
    (hlast : text.getLast? ≠ some doubleQuote)
    (h : csvFields false [] (stripLine text) = .ok row) :
    csvFields false [] (text ++ [doubleQuote, doubleQuote]) = .ok row := by
  obtain ⟨ends, htext, hends⟩ := stripLine_split hnul hfree
  obtain ⟨others, last, hrow, hcontinues⟩ := (parses_iff.mp h).continues
  have hquotes : csvFields false last (ends ++ [doubleQuote, doubleQuote]) = .ok [trim last] := by
    rw [csvFields_plain hends, csvFields_open, csvFields_close (by decide)]
    simp [csvFields, trimField, trim_append_right last (isspace_of_carriageReturns hends)]
  have hplain : (stripLine text).getLast? ≠ some doubleQuote ∨
      peek (ends ++ [doubleQuote, doubleQuote]) ≠ doubleQuote := by
    cases ends with
    | nil =>
      left
      rw [List.append_nil] at htext
      rwa [← htext]
    | cons c ends =>
      right
      rw [show peek (c :: ends ++ [doubleQuote, doubleQuote]) = c from rfl,
        hends c List.mem_cons_self]
      decide
  have hall := hcontinues.plain _ _ hplain (parses_iff.mp hquotes)
  rw [← List.append_assoc, ← htext, ← hrow] at hall
  exact hall.csvFields_eq

theorem readLines_congr {text' : Bytes} (h : stripLine text = stripLine text') :
    readLines expectedFields [text] = readLines expectedFields [text'] := by
  simp only [readLines, h]

include hfree hfields in
theorem carriageReturns_of_joined {rows : List Row}
    (hread : readLines expectedFields [text] = .ok rows)
    (h : readLines expectedFields [text ++ csvContent fields] = .ok (rows ++ [fields])) :
    ∀ c ∈ text, c = carriageReturn := by
  by_cases hnul : (0 : UInt8) ∈ text
  · -- nothing of the line is seen behind the NUL
    rw [readLines_congr (stripLine_nul hnul _), hread, Except.ok.injEq] at h
    have := congrArg List.length h
    simp at this
  · have hcontent := quoted_end hfields (List.nil_append (csvContent fields)).symm
      (List.ne_nil_of_length_pos (by obtain ⟨rest, hrest⟩ := csvContent_first hfields.nonempty; simp [hrest]))
    obtain ⟨-, hblank⟩ := stripLine_back hnul hcontent.1 hcontent.2
    have hempty : rows = [] := by
      rcases readLines_single h with ⟨hnone, -⟩ | ⟨-, row, hrow, -⟩
      · rw [hblank] at hnone
        cases hnone
      · exact (List.append_eq_singleton_iff.mp hrow).elim (fun h => h.1) fun h => by simp at h
    rcases readLines_single hread with ⟨hnone, -⟩ | ⟨-, row, hrow, -⟩
    · intro c hc
      by_contra hne
      rw [(nonblank_iff hnul hfree).mpr ⟨c, hc, hne⟩] at hnone
      cases hnone
    · rw [hempty] at hrow
      cases hrow

include hfree in
theorem fits_of_cut {front back : Bytes} (hcut : csvContent fields = front ++ back)
    (hfull : text.length + front.length = lineSize) (hfront : front ≠ []) (hback : back ≠ [])
    (hfields : Appendable expectedFields fields) {rows : List Row}
    (hread : readLines expectedFields [text] = .ok rows)
    (hfirst : readLines expectedFields [text ++ front] = .ok rows)
    (hsecond : readLines expectedFields [back] = .ok [fields]) : FitsBehind text fields := by
  obtain ⟨hnul', hend⟩ := quoted_end hfields hcut hback
  obtain ⟨row, hrow, hparse⟩ := read_back hnul' hend hsecond
  obtain rfl := (List.cons.inj hrow).1
  obtain ⟨rfl, hhead, htwo⟩ := cut_row hcut.symm hfront hback hfields.nonempty hparse
  refine .inr ⟨hfull, hhead, htwo, ?_⟩
  by_cases hnul : (0 : UInt8) ∈ text
  · exact .inl hnul
  · obtain ⟨hstrip, hblank⟩ := stripLine_back hnul (by decide : (0 : UInt8) ∉ [doubleQuote, doubleQuote])
      ⟨[doubleQuote], rfl⟩
    rcases readLines_single hfirst with ⟨hnone, -⟩ | ⟨-, first, rfl, hparsed, -⟩
    · rw [hblank] at hnone
      cases hnone
    · rcases readLines_single hread with ⟨-, hempty⟩ | ⟨hshown, same, hsame, hbefore, -⟩
      · cases hempty
      · obtain rfl := (List.cons.inj hsame).1
        refine .inr ⟨(nonblank_iff hnul hfree).mp hshown, fun hlast => ?_⟩
        have hkept : stripLine text = text := by
          obtain ⟨init, rfl⟩ := List.getLast?_eq_some_iff.mp hlast
          exact stripLine_eq_self fun h => hnul (List.mem_append_left _ h)
        rw [hkept] at hbefore
        rw [hstrip] at hparsed
        exact doubled_quote_changes hlast hbefore hparsed

include hfree hfields in
theorem read_behind_carriageReturns (hall : ∀ c ∈ text, c = carriageReturn)
    {rows : List Row} (hread : readLines expectedFields [text] = .ok rows) :
    readLines expectedFields [text ++ csvContent fields] = .ok (rows ++ [fields.map trim]) := by
  have hnul : (0 : UInt8) ∉ text := by
    intro h
    exact absurd (hall 0 h) (by decide)
  have hempty : rows = [] := by
    rcases readLines_single hread with ⟨-, hrows⟩ | ⟨hshown, -⟩
    · exact hrows
    · obtain ⟨c, hc, hne⟩ := (nonblank_iff hnul hfree).mp hshown
      exact absurd (hall c hc) hne
  obtain ⟨rest, hrest⟩ := csvContent_first hfields.nonempty
  obtain ⟨hnul', hend⟩ := quoted_end hfields (List.nil_append (csvContent fields)).symm (by simp [hrest])
  obtain ⟨hstrip, hblank⟩ := stripLine_back hnul hnul' hend
  obtain ⟨field, others, rfl⟩ := List.exists_cons_of_ne_nil hfields.nonempty
  rw [hempty, List.nil_append]
  apply readLines_row hblank
  · rw [hstrip, csvFields_plain hall, csvFields_csvContent, List.nil_append,
      trim_append_left (isspace_of_carriageReturns hall)]
    rfl
  · rw [List.length_map, hfields.count]

include hfree hfields hstorable in
theorem read_behind_full (hfull : text.length + 2 = lineSize) (hhead : fields.head? = some [])
    (htwo : 2 ≤ fields.length)
    (hend : 0 ∈ text ∨ (∃ c ∈ text, c ≠ carriageReturn) ∧ text.getLast? ≠ some doubleQuote)
    {rows : List Row} (hread : readLines expectedFields [text] = .ok rows) :
    readLines expectedFields (fileLines (text ++ csvLine fields)) =
      .ok (rows ++ [fields.map trim]) := by
  obtain ⟨other, others, rfl⟩ : ∃ other others, fields = [] :: other :: others := by
    match fields, hhead, htwo with
    | _ :: other :: others, hhead, _ => exact ⟨other, others, by simpa using hhead⟩
  have hcut : csvContent ([] :: other :: others) =
      [doubleQuote, doubleQuote] ++ comma :: csvContent (other :: others) := csvContent_cons ..
  have hcontent : newline ∉ csvContent ([] :: other :: others) := newline_notMem_csvContent.mpr hstorable.1
  obtain ⟨hnul', hlast⟩ := quoted_end hfields hcut (by simp)
  have hbuffers : fileLines (text ++ csvLine ([] :: other :: others)) =
      [text ++ [doubleQuote, doubleQuote]] ++
        fileLines (comma :: csvContent (other :: others) ++ [newline]) := by
    have hfree' : newline ∉ text ++ [doubleQuote, doubleQuote] := by
      rw [List.mem_append, not_or]
      exact ⟨hfree, by decide⟩
    rw [csvLine_eq, hcut, List.singleton_append, ← fileLines_full hfree' (by simpa using hfull),
      List.append_assoc, List.append_assoc]
  rw [hbuffers, readLines_append_ok]
  refine ⟨rows, [([] :: other :: others).map trim], ?_, ?_, rfl⟩
  · by_cases hnul : (0 : UInt8) ∈ text
    · rw [readLines_congr (stripLine_nul hnul _), hread]
    · obtain ⟨hshown, hquote⟩ := hend.resolve_left hnul
      rcases readLines_single hread with ⟨hnone, -⟩ | ⟨-, row, rfl, hparse, hcount⟩
      · rw [(nonblank_iff hnul hfree).mpr hshown] at hnone
        cases hnone
      · obtain ⟨hstrip, hblank⟩ := stripLine_back hnul
          (by decide : (0 : UInt8) ∉ [doubleQuote, doubleQuote]) ⟨[doubleQuote], rfl⟩
        apply readLines_row hblank _ hcount
        rw [hstrip]
        exact empty_quotes_vanish hfree hnul hquote hparse
  · obtain ⟨hstrip, hblank⟩ := stripLine_back (List.not_mem_nil : (0 : UInt8) ∉ []) hnul' hlast
    rw [List.nil_append] at hstrip hblank
    have hsize := hstorable.2
    rw [hcut, List.length_append] at hsize
    rw [readLines_terminated _ (fun h => hcontent (hcut ▸ List.mem_append_right _ h)) (by omega)]
    apply readLines_row hblank
    · rw [hstrip]
      exact csvFields_comma (csvFields_csvContent [] other others) []
    · rw [List.length_map, hfields.count]

include hfree hfields hstorable in
/-- **A line behind an open read.** It is read as a row of its own, behind what
the open read gave before, exactly if it fits there and its fields are trimmed. -/
theorem read_behind_iff (hshort : text.length < lineSize) {rows : List Row}
    (hread : readLines expectedFields [text] = .ok rows) :
    readLines expectedFields (fileLines (text ++ csvLine fields)) = .ok (rows ++ [fields]) ↔
      FitsBehind text fields ∧ fields.map trim = fields := by
  constructor
  · intro h
    refine ⟨?_, readLines_trimmed h fields (by simp)⟩
    by_cases hfits : text.length + (csvContent fields).length ≤ lineSize
    · rw [read_joined hfree hstorable hfits] at h
      exact .inl ⟨carriageReturns_of_joined hfree hfields hread h, hfits⟩
    · obtain ⟨front, back, hcut, hfull, hfront, hback, hrows⟩ :=
        read_cut hfree hstorable hshort (by omega)
      obtain ⟨first, second, hfirst, hsecond, heq⟩ := (hrows _ _).mp h
      obtain ⟨hnul, hend⟩ := quoted_end hfields hcut hback
      obtain ⟨row, rfl, -⟩ := read_back hnul hend hsecond
      obtain ⟨rfl, hrow⟩ := List.append_inj' heq rfl
      rw [← hrow] at hsecond
      exact fits_of_cut hfree hcut hfull hfront hback hfields hread hfirst hsecond
  · rintro ⟨hfits, htrim⟩
    rcases hfits with ⟨hall, hfits⟩ | ⟨hfull, hhead, htwo, hend⟩
    · rw [read_joined hfree hstorable hfits, read_behind_carriageReturns hfree hfields hall hread, htrim]
    · rw [read_behind_full hfree hfields hstorable hfull hhead htwo hend hread, htrim]

end Behind

/-! ## Whole files -/

theorem readLines_open (expectedFields : Nat) {text : Bytes} (hfree : newline ∉ text)
    (hshort : text.length < lineSize) :
    readLines expectedFields (fileLines text) = readLines expectedFields [text] := by
  by_cases hempty : text = []
  · rw [hempty]
    simp [fileLines, readLines, stripLine, cString]
  · rw [fileLines_cons hempty, fgets_rest hfree (Nat.le_of_lt hshort)]
    simp [fileLines]

theorem readCsvRows_append_iff {file : Bytes} {expectedFields : Nat} {rows : List Row}
    (hfile : readCsvRows file expectedFields = .ok rows) {fields : Row}
    (hfields : Appendable expectedFields fields) (hstorable : Storable fields) :
    readCsvRows (file ++ csvLine fields) expectedFields = .ok (rows ++ [fields]) ↔
      FitsBehind (openRead file) fields ∧ fields.map trim = fields := by
  obtain ⟨closed, hsplit, hends⟩ := openRead_split file
  have hfree := newline_notMem_openRead file
  have hshort := openRead_length file
  have hbefore : readCsvRows file expectedFields =
      readLines expectedFields (fileLines closed ++ fileLines (openRead file)) := by
    rw [readCsvRows, ← hends, ← hsplit]
  have hafter : readCsvRows (file ++ csvLine fields) expectedFields =
      readLines expectedFields (fileLines closed ++ fileLines (openRead file ++ csvLine fields)) := by
    rw [readCsvRows, ← hends, ← List.append_assoc, ← hsplit]
  rw [hbefore] at hfile
  obtain ⟨first, second, hclosed, hopen, rfl⟩ := readLines_append_ok.mp hfile
  rw [readLines_open expectedFields hfree hshort] at hopen
  rw [hafter, ← read_behind_iff hfree hfields hstorable hshort hopen, readLines_append_ok]
  constructor
  · rintro ⟨first', second', hclosed', hread, heq⟩
    rw [hclosed, Except.ok.injEq] at hclosed'
    rw [← hclosed', List.append_assoc] at heq
    rw [hread, List.append_cancel_left heq]
  · intro hread
    exact ⟨first, second ++ [fields], hclosed, hread, by simp⟩

/-- **When an appended row is one row more.** For a file that reads as some rows
and a row of trimmed fields whose line fits the buffer, the file with the row
appended reads as those rows and the new one exactly if the line stands at the end
of a read, behind carriage returns with room for it, or where an empty first field
fills the read up. -/
theorem append_adds_row_iff {file : Bytes} {expectedFields : Nat} {rows : List Row}
    (hfile : readCsvRows file expectedFields = .ok rows) {fields : Row}
    (hcount : fields.length = expectedFields)
    (hfields : ∀ field ∈ fields, 0 ∉ field ∧ newline ∉ field ∧ trim field = field)
    (hsize : (csvContent fields).length ≤ 8191) :
    (∃ file', appendCsvRow file fields = .ok file' ∧
      readCsvRows file' expectedFields = .ok (rows ++ [fields])) ↔
      fields ≠ [] ∧ FitsBehind (openRead file) fields := by
  have htrim : fields.map trim = fields :=
    map_trim_eq_self.mpr fun field hfield => (hfields field hfield).2.2
  have hstorable : Storable fields := ⟨fun field hfield => (hfields field hfield).2.1, hsize⟩
  by_cases hne : fields = []
  · simp [hne, appendCsvRow]
  · have happend : appendCsvRow file fields = .ok (file ++ csvLine fields) := by
      simp [appendCsvRow, hne]
    have hiff := readCsvRows_append_iff hfile
      ⟨hcount, hne, fun field hfield => (hfields field hfield).1⟩ hstorable
    rw [happend]
    constructor
    · rintro ⟨file', hfile', hread⟩
      obtain rfl := Except.ok.inj hfile'
      exact ⟨hne, (hiff.mp hread).1⟩
    · rintro ⟨-, hfits⟩
      exact ⟨_, rfl, hiff.mpr ⟨hfits, htrim⟩⟩

theorem append_adds_row_carriageReturn :
    readCsvRows (ascii "1,ann\r\n\r") 2 = .ok [[ascii "1", ascii "ann"]] ∧
    ∃ file', appendCsvRow (ascii "1,ann\r\n\r") [ascii "7", ascii "bob"] = .ok file' ∧
      readCsvRows file' 2 = .ok [[ascii "1", ascii "ann"], [ascii "7", ascii "bob"]] := by
  have hread : readCsvRows (ascii "1,ann\r\n\r") 2 = .ok [[ascii "1", ascii "ann"]] := by
    decide +kernel
  refine ⟨hread, ?_⟩
  exact (append_adds_row_iff hread rfl (by decide +kernel) (by decide +kernel)).mpr
    ⟨by simp, by decide +kernel⟩

/-- Behind a last line without its newline the appended row is joined to it, and
the file can no longer be read. -/
theorem append_to_unfinished_line :
    readCsvRows (ascii "1,ann") 2 = .ok [[ascii "1", ascii "ann"]] ∧
    ∃ file', appendCsvRow (ascii "1,ann") [ascii "7", ascii "bob"] = .ok file' ∧
      readCsvRows file' 2 = .error (sqlSetError [ascii "row field count mismatch"]) := by
  refine ⟨by decide +kernel, _, rfl, by decide +kernel⟩

end MiniSql.Storage
