import MiniSql.Storage.Codec
import MiniSql.Storage.Trim

/-!
# Lines that are cut or continued

The parser toggles at every quote, so the number of quotes decides whether a text
is accepted, and the commas between an even number of quotes are its separators.
That settles what can be cut from the front of a written line without changing
the row, and what may follow a line that is already a row.
-/

namespace MiniSql.Storage

/-! ## The steps of the parser -/

/-- How the loop of `parse_csv_line` comes to accept a text, byte by byte. -/
inductive Parses : Bool → Bytes → Bytes → List Bytes → Prop
  | done {buffer : Bytes} : Parses false buffer [] [trim buffer]
  | opened {buffer text : Bytes} {fields : List Bytes} (rest : Parses true buffer text fields) :
      Parses false buffer (doubleQuote :: text) fields
  | doubled {buffer text : Bytes} {fields : List Bytes}
      (rest : Parses true (buffer ++ [doubleQuote]) text fields) :
      Parses true buffer (doubleQuote :: doubleQuote :: text) fields
  | closed {buffer text : Bytes} {fields : List Bytes} (next : peek text ≠ doubleQuote)
      (rest : Parses false buffer text fields) : Parses true buffer (doubleQuote :: text) fields
  | inside {c : UInt8} {buffer text : Bytes} {fields : List Bytes} (plain : c ≠ doubleQuote)
      (rest : Parses true (buffer ++ [c]) text fields) : Parses true buffer (c :: text) fields
  | separated {buffer text : Bytes} {fields : List Bytes} (rest : Parses false [] text fields) :
      Parses false buffer (comma :: text) (trim buffer :: fields)
  | outside {c : UInt8} {buffer text : Bytes} {fields : List Bytes} (plain : c ≠ doubleQuote)
      (inField : c ≠ comma) (rest : Parses false (buffer ++ [c]) text fields) :
      Parses false buffer (c :: text) fields

theorem csvFields_outside {c : UInt8} (hquote : c ≠ doubleQuote) (hcomma : c ≠ comma)
    (buffer text : Bytes) :
    csvFields false buffer (c :: text) = csvFields false (buffer ++ [c]) text := by
  cases text <;> simp [csvFields, hquote, hcomma]

theorem Parses.csvFields_eq {inQuotes : Bool} {buffer text : Bytes} {fields : List Bytes}
    (h : Parses inQuotes buffer text fields) : csvFields inQuotes buffer text = .ok fields := by
  induction h with
  | done => rfl
  | opened _ ih => rw [csvFields_open, ih]
  | doubled _ ih => rw [csvFields_doubled, ih]
  | closed hnext _ ih => rw [csvFields_close hnext, ih]
  | inside hplain _ ih => rw [csvFields_inside hplain, ih]
  | separated _ ih => exact csvFields_comma ih _
  | outside hplain hcomma _ ih => rw [csvFields_outside hplain hcomma, ih]

theorem parses_of_csvFields {inQuotes : Bool} {buffer text : Bytes} {fields : List Bytes}
    (h : csvFields inQuotes buffer text = .ok fields) : Parses inQuotes buffer text fields := by
  fun_induction csvFields inQuotes buffer text generalizing fields with
  | case1 => cases h
  | case2 inQuotes buffer hquotes =>
    cases h
    rw [Bool.not_eq_true] at hquotes
    rw [hquotes]
    exact .done
  | case3 buffer ih => exact .closed (by decide) (ih h)
  | case4 buffer rest ih => exact .doubled (ih h)
  | case5 buffer next rest hnext ih => exact .closed hnext (ih h)
  | case6 buffer c text hplain ih => exact .inside hplain (ih h)
  | case7 inQuotes buffer text hquotes ih =>
    rw [Bool.not_eq_true] at hquotes
    rw [hquotes]
    exact .opened (ih h)
  | case8 => cases h
  | case9 inQuotes buffer text hquotes fields hrest _ ih =>
    cases h
    rw [Bool.not_eq_true] at hquotes
    rw [hquotes]
    exact .separated (ih hrest)
  | case10 inQuotes buffer c text hquotes hplain hcomma ih =>
    rw [Bool.not_eq_true] at hquotes
    rw [hquotes]
    exact .outside hplain hcomma (ih h)

theorem parses_iff {inQuotes : Bool} {buffer text : Bytes} {fields : List Bytes} :
    csvFields inQuotes buffer text = .ok fields ↔ Parses inQuotes buffer text fields :=
  ⟨parses_of_csvFields, Parses.csvFields_eq⟩

/-! ## Quotes and separators -/

/-- Whether the parser stands inside quotes behind a text. -/
def quotedAfter (inQuotes : Bool) : Bytes → Bool
  | [] => inQuotes
  | c :: text => quotedAfter (if c = doubleQuote then !inQuotes else inQuotes) text

/-- The commas of a text that end a field. -/
def separators (inQuotes : Bool) : Bytes → Nat
  | [] => 0
  | c :: text =>
    if c = doubleQuote then separators (!inQuotes) text
    else if c = comma ∧ inQuotes = false then separators inQuotes text + 1
    else separators inQuotes text

theorem quotedAfter_append (inQuotes : Bool) (text rest : Bytes) :
    quotedAfter inQuotes (text ++ rest) = quotedAfter (quotedAfter inQuotes text) rest := by
  induction text generalizing inQuotes with
  | nil => rfl
  | cons c text ih => simp only [List.cons_append, quotedAfter, ih]

theorem separators_append (inQuotes : Bool) (text rest : Bytes) :
    separators inQuotes (text ++ rest) =
      separators inQuotes text + separators (quotedAfter inQuotes text) rest := by
  induction text generalizing inQuotes with
  | nil => simp [separators, quotedAfter]
  | cons c text ih =>
    simp only [List.cons_append, separators, quotedAfter]
    split
    · rw [ih]
    · split
      · rw [ih]
        omega
      · rw [ih]

theorem quotedAfter_not (inQuotes : Bool) (text : Bytes) :
    quotedAfter (!inQuotes) text = !quotedAfter inQuotes text := by
  induction text generalizing inQuotes with
  | nil => rfl
  | cons c text ih =>
    simp only [quotedAfter]
    split
    · exact ih (!inQuotes)
    · exact ih inQuotes

/-- A text is accepted only if it ends outside quotes; it has one field more than
separators, and every field is trimmed. -/
theorem Parses.spec {inQuotes : Bool} {buffer text : Bytes} {fields : List Bytes}
    (h : Parses inQuotes buffer text fields) :
    quotedAfter inQuotes text = false ∧ fields.length = separators inQuotes text + 1 ∧
      ∀ field ∈ fields, trim field = field := by
  have hcomma : comma ≠ doubleQuote := by decide
  induction h with
  | done => simp [quotedAfter, separators, trim_trim]
  | opened _ ih => simpa [quotedAfter, separators] using ih
  | doubled _ ih => simpa [quotedAfter, separators] using ih
  | closed _ _ ih => simpa [quotedAfter, separators] using ih
  | inside hplain _ ih => simpa [quotedAfter, separators, hplain] using ih
  | separated _ ih => simpa [quotedAfter, separators, hcomma, trim_trim] using ih
  | outside hplain hinField _ ih => simpa [quotedAfter, separators, hplain, hinField] using ih

/-! ## Cutting a written line -/

theorem quotedAfter_escape (inQuotes : Bool) (value : Bytes) :
    quotedAfter inQuotes (escape value) = inQuotes := by
  induction value with
  | nil => rfl
  | cons c value ih =>
    have hcons : escape (c :: value) = (if c = doubleQuote then [c, c] else [c]) ++ escape value := rfl
    rw [hcons, quotedAfter_append]
    by_cases hc : c = doubleQuote
    · simpa [hc, quotedAfter] using ih
    · simpa [hc, quotedAfter] using ih

/-- A cut behind an odd number of quotes of a written value and its closing quote:
behind that quote, or between the two quotes that stand for one. -/
theorem cut_value {value rest front back : Bytes}
    (h : front ++ back = escape value ++ doubleQuote :: rest)
    (hfront : quotedAfter true front = false) :
    (∃ more, front = escape value ++ doubleQuote :: more ∧ rest = more ++ back) ∨
    ∃ before after, value = before ++ doubleQuote :: after ∧
      back = writeCsvField after ++ rest := by
  induction value generalizing front with
  | nil =>
    cases front with
    | nil => cases hfront
    | cons c front =>
      obtain ⟨rfl, hrest⟩ := List.cons.inj (h : c :: (front ++ back) = doubleQuote :: rest)
      exact .inl ⟨front, rfl, hrest.symm⟩
  | cons c value ih =>
    have hcons : escape (c :: value) = (if c = doubleQuote then [c, c] else [c]) ++ escape value := rfl
    rw [hcons] at h ⊢
    cases front with
    | nil => cases hfront
    | cons d front =>
      by_cases hc : c = doubleQuote
      · rw [hc, if_pos rfl] at h ⊢
        obtain ⟨rfl, htail⟩ := List.cons.inj (h : d :: (front ++ back) =
          doubleQuote :: (doubleQuote :: (escape value ++ doubleQuote :: rest)))
        cases front with
        | nil => exact .inr ⟨[], value, rfl, by simpa [writeCsvField_eq] using htail⟩
        | cons d front =>
          obtain ⟨rfl, hnext⟩ := List.cons.inj (htail : d :: (front ++ back) =
            doubleQuote :: (escape value ++ doubleQuote :: rest))
          rcases ih hnext hfront with ⟨more, hmore, hrest⟩ | ⟨before, after, hvalue, hback⟩
          · exact .inl ⟨more, by rw [hmore]; rfl, hrest⟩
          · exact .inr ⟨doubleQuote :: before, after, by rw [hvalue]; rfl, hback⟩
      · rw [if_neg hc] at h ⊢
        obtain ⟨rfl, hnext⟩ := List.cons.inj (h : d :: (front ++ back) =
          c :: (escape value ++ doubleQuote :: rest))
        have hfront : quotedAfter true front = false := by simpa [quotedAfter, hc] using hfront
        rcases ih hnext hfront with ⟨more, hmore, hrest⟩ | ⟨before, after, hvalue, hback⟩
        · exact .inl ⟨more, by rw [hmore]; rfl, hrest⟩
        · exact .inr ⟨d :: before, after, by rw [hvalue]; rfl, hback⟩

theorem trim_length_le (text : Bytes) : (trim text).length ≤ text.length := by
  have h1 := (List.dropWhile_suffix (l := text) isspace).length_le
  have h2 := (List.dropWhile_suffix (l := (text.dropWhile isspace).reverse) isspace).length_le
  rw [List.length_reverse] at h2
  rw [trim, List.length_reverse]
  omega

/-- What stands behind the first field of a written line. -/
theorem csvContent_eq_cons (field : Bytes) (fields : Row) :
    ∃ rest, csvContent (field :: fields) = writeCsvField field ++ rest ∧
      (fields = [] ∧ rest = [] ∨ fields ≠ [] ∧ rest = comma :: csvContent fields) := by
  cases fields with
  | nil => exact ⟨[], by simp [csvContent_singleton], .inl ⟨rfl, rfl⟩⟩
  | cons other fields => exact ⟨_, csvContent_cons field other fields, .inr ⟨by simp, rfl⟩⟩

/-- A written field and what stands behind it in its line: the field is parsed first. -/
theorem csvFields_first (field : Bytes) {fields : Row} {rest : Bytes}
    (hrest : fields = [] ∧ rest = [] ∨ fields ≠ [] ∧ rest = comma :: csvContent fields) :
    ∃ others, csvFields false [] (writeCsvField field ++ rest) = .ok (trim field :: others) := by
  have hpeek : peek rest ≠ doubleQuote := by
    rcases hrest with ⟨-, rfl⟩ | ⟨-, rfl⟩
    · decide
    · simp [peek, comma, doubleQuote]
  rw [csvFields_writeCsvField [] field hpeek, List.nil_append]
  rcases hrest with ⟨-, rfl⟩ | ⟨hfields, rfl⟩
  · exact ⟨[], rfl⟩
  · obtain ⟨other, others, rfl⟩ := List.exists_cons_of_ne_nil hfields
    exact ⟨_, csvFields_comma (csvFields_csvContent [] other others) field⟩

/-- The quotes in front of a cut are even when those of the line and behind the cut are. -/
theorem quotedAfter_front {front back : Bytes} (hwhole : quotedAfter false (front ++ back) = false)
    (hback : quotedAfter false back = false) : quotedAfter false front = false := by
  rw [quotedAfter_append] at hwhole
  cases hfront : quotedAfter false front with
  | false => rfl
  | true =>
    have hnot := quotedAfter_not false back
    rw [hfront] at hwhole
    simp [hback, hwhole] at hnot

/-- **The only cut that keeps the row.** If the back part of a written line is
still parsed as the row of the whole line, the front part is an empty first
field. -/
theorem cut_row {fields : Row} {front back : Bytes} (hcut : front ++ back = csvContent fields)
    (hfront : front ≠ []) (hback : back ≠ []) (hne : fields ≠ [])
    (hparse : csvFields false [] back = .ok fields) :
    front = [doubleQuote, doubleQuote] ∧ fields.head? = some [] ∧ 2 ≤ fields.length := by
  obtain ⟨hquoted, hcount, htrim⟩ := (parses_iff.mp hparse).spec
  obtain ⟨value, values, rfl⟩ := List.exists_cons_of_ne_nil hne
  obtain ⟨hquoted', hcount', -⟩ := (parses_iff.mp (csvFields_csvContent [] value values)).spec
  rw [← hcut] at hquoted'
  have heven := quotedAfter_front hquoted' hquoted
  have hnone : separators false front = 0 := by
    rw [← hcut, separators_append, heven] at hcount'
    simp only [List.length_cons, List.length_map] at hcount hcount'
    omega
  obtain ⟨rest, hcontent, hrest⟩ := csvContent_eq_cons value values
  obtain ⟨c, front, rfl⟩ := List.exists_cons_of_ne_nil hfront
  rw [hcontent, writeCsvField_eq] at hcut
  rw [List.cons_append, List.cons_append, List.append_assoc, List.singleton_append] at hcut
  obtain ⟨rfl, htail⟩ := List.cons.inj hcut
  have hodd : quotedAfter true front = false := by simpa [quotedAfter] using heven
  have hfirst : trim value = value := htrim value List.mem_cons_self
  rcases cut_value htail hodd with ⟨more, hmore, hover⟩ | ⟨before, after, hvalue, hafter⟩
  · rcases hrest with ⟨-, rfl⟩ | ⟨hvalues, rfl⟩
    · exact absurd (List.append_eq_nil_iff.mp hover.symm).2 hback
    · obtain ⟨other, others, rfl⟩ := List.exists_cons_of_ne_nil hvalues
      cases more with
      | cons d more =>
        obtain ⟨rfl, -⟩ := List.cons.inj (hover : comma :: _ = d :: (more ++ back))
        have hcomma : comma ≠ doubleQuote := by decide
        have hsep : separators false (doubleQuote :: front) =
            separators true (escape value) + (separators false more + 1) := by
          simp [hmore, separators, separators_append, quotedAfter_escape, hcomma]
        omega
      | nil =>
        have hback : csvFields false [] back = .ok (trim [] :: (other :: others).map trim) := by
          have := csvFields_comma (csvFields_csvContent [] other others) []
          rw [show back = comma :: csvContent (other :: others) from hover.symm]
          exact this
        have hempty : value = [] := (List.cons.inj (Except.ok.inj (hparse.symm.trans hback))).1
        rw [hempty] at hmore ⊢
        rw [hmore]
        exact ⟨rfl, rfl, by simp⟩
  · -- the first field of the back part is shorter than that of the line
    obtain ⟨others, hshort⟩ := csvFields_first after hrest
    rw [← hafter] at hshort
    have hsame : value = trim after := (List.cons.inj (Except.ok.inj (hparse.symm.trans hshort))).1
    have hlen := congrArg List.length hvalue
    have hle := trim_length_le after
    rw [← hsame] at hle
    simp only [List.length_append, List.length_cons] at hlen
    omega

/-! ## Going on behind a row -/

theorem Parses.ne_nil {buffer text : Bytes} {fields : List Bytes}
    (h : Parses true buffer text fields) : text ≠ [] := by
  rintro rfl
  cases h

theorem getLast?_cons_plain {c : UInt8} (hc : c ≠ doubleQuote) (text : Bytes) :
    (c :: text).getLast? = some doubleQuote ↔ text.getLast? = some doubleQuote := by
  cases text with
  | nil => simp [hc]
  | cons d text => rw [List.getLast?_cons_cons]

theorem getLast?_cons_ne_nil (c : UInt8) {text : Bytes} (h : text ≠ []) :
    (c :: text).getLast? = text.getLast? := by
  obtain ⟨d, text, rfl⟩ := List.exists_cons_of_ne_nil h
  rw [List.getLast?_cons_cons]

/-- What the parser makes of a longer text: the last field goes on, unless the
text ends with the quote of that field and a quote follows, which is then a
doubled one. -/
structure Continues (inQuotes : Bool) (buffer text : Bytes) (others : List Bytes) (last : Bytes) :
    Prop where
  plain : ∀ rest more, text.getLast? ≠ some doubleQuote ∨ peek rest ≠ doubleQuote →
    Parses false last rest more → Parses inQuotes buffer (text ++ rest) (others ++ more)
  doubled : text.getLast? = some doubleQuote → ∀ rest more,
    Parses true (last ++ [doubleQuote]) rest more →
      Parses inQuotes buffer (text ++ doubleQuote :: rest) (others ++ more)

theorem Parses.continues {inQuotes : Bool} {buffer text : Bytes} {fields : List Bytes}
    (h : Parses inQuotes buffer text fields) :
    ∃ others last, fields = others ++ [trim last] ∧
      Continues inQuotes buffer text others last := by
  induction h with
  | @done buffer =>
    refine ⟨[], buffer, rfl, fun rest more _ hmore => hmore, fun hlast => ?_⟩
    cases hlast
  | opened htext ih =>
    obtain ⟨others, last, hfields, hplain, hdoubled⟩ := ih
    refine ⟨others, last, hfields, ?_, ?_⟩ <;> rw [getLast?_cons_ne_nil _ htext.ne_nil]
    · exact fun rest more hrest hmore => .opened (hplain rest more hrest hmore)
    · exact fun hlast rest more hmore => .opened (hdoubled hlast rest more hmore)
  | doubled htext ih =>
    obtain ⟨others, last, hfields, hplain, hdoubled⟩ := ih
    refine ⟨others, last, hfields, ?_, ?_⟩ <;>
      rw [List.getLast?_cons_cons, getLast?_cons_ne_nil _ htext.ne_nil]
    · exact fun rest more hrest hmore => .doubled (hplain rest more hrest hmore)
    · exact fun hlast rest more hmore => .doubled (hdoubled hlast rest more hmore)
  | @closed buffer text fields hnext htext ih =>
    cases text with
    | nil =>
      cases htext
      refine ⟨[], buffer, rfl, fun rest more hrest hmore => ?_, fun _ rest more hmore => .doubled hmore⟩
      exact .closed (hrest.resolve_left (by simp)) hmore
    | cons c text =>
      obtain ⟨others, last, hfields, hplain, hdoubled⟩ := ih
      refine ⟨others, last, hfields, ?_, ?_⟩ <;> rw [List.getLast?_cons_cons]
      · exact fun rest more hrest hmore => .closed hnext (hplain rest more hrest hmore)
      · exact fun hlast rest more hmore => .closed hnext (hdoubled hlast rest more hmore)
  | inside hc htext ih =>
    obtain ⟨others, last, hfields, hplain, hdoubled⟩ := ih
    refine ⟨others, last, hfields, ?_, ?_⟩ <;> rw [getLast?_cons_ne_nil _ htext.ne_nil]
    · exact fun rest more hrest hmore => .inside hc (hplain rest more hrest hmore)
    · exact fun hlast rest more hmore => .inside hc (hdoubled hlast rest more hmore)
  | @separated buffer text fields _ ih =>
    obtain ⟨others, last, hfields, hplain, hdoubled⟩ := ih
    refine ⟨trim buffer :: others, last, by rw [hfields]; rfl, ?_, ?_⟩ <;>
      simp only [ne_eq, getLast?_cons_plain (show comma ≠ doubleQuote by decide)]
    · exact fun rest more hrest hmore => .separated (hplain rest more hrest hmore)
    · exact fun hlast rest more hmore => .separated (hdoubled hlast rest more hmore)
  | outside hc hcomma _ ih =>
    obtain ⟨others, last, hfields, hplain, hdoubled⟩ := ih
    refine ⟨others, last, hfields, ?_, ?_⟩ <;> simp only [ne_eq, getLast?_cons_plain hc]
    · exact fun rest more hrest hmore => .outside hc hcomma (hplain rest more hrest hmore)
    · exact fun hlast rest more hmore => .outside hc hcomma (hdoubled hlast rest more hmore)

end MiniSql.Storage
