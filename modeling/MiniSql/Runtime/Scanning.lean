import MiniSql.Runtime.Script

/-!
# The scans of a script

What stripping does to a text that is put together from two, where the cuts of such a
text are, and what a plan makes of a piece.
-/

namespace MiniSql.Runtime

open Query

/-! ## Comments -/

/-- The state of `strip_line_comments` at the end of a text. -/
def Scan.after (scan : Scan) : Bytes → Scan
  | [] => scan
  | c :: rest => (scan.next c rest).after rest

theorem length_strip (scan : Scan) (text : Bytes) :
    (stripLineComments scan text).length = text.length := by
  induction text generalizing scan with
  | nil => rfl
  | cons c rest ih => exact congrArg Nat.succ (ih _)

/-- No comment begins between the texts. -/
def Parted (text later : Bytes) : Prop := text.getLast? ≠ some hyphen ∨ peek later ≠ hyphen

theorem Parted.tail {c : UInt8} {text later : Bytes} (h : Parted (c :: text) later) :
    Parted text later := by
  rcases h with h | h
  · left
    intro hlast
    exact h (by rw [List.getLast?_cons, hlast]; rfl)
  · exact .inr h

theorem startsComment_append {c : UInt8} {text later : Bytes} (h : Parted (c :: text) later) :
    startsComment c (text ++ later) = startsComment c text := by
  cases text with
  | cons d text => rfl
  | nil =>
    have hnone : startsComment c [] = false := by simp [startsComment, peek, hyphen]
    rw [hnone, List.nil_append, startsComment, Bool.and_eq_false_iff, beq_eq_false_iff_ne,
      beq_eq_false_iff_ne]
    rcases h with h | h
    · left
      rintro rfl
      exact h rfl
    · exact .inr h

theorem strip_append {text later : Bytes} (h : Parted text later) (scan : Scan) :
    stripLineComments scan (text ++ later) =
      stripLineComments scan text ++ stripLineComments (scan.after text) later := by
  induction text generalizing scan with
  | nil => rfl
  | cons c text ih =>
    have hnext : scan.next c (text ++ later) = scan.next c text := by
      cases scan <;> simp [Scan.next, startsComment_append h]
    have hkeep : scan.keep c (text ++ later) = scan.keep c text := by
      cases scan <;> simp [Scan.keep, startsComment_append h]
    rw [List.cons_append, stripLineComments, stripLineComments, hnext, hkeep, ih h.tail]
    rfl

/-- A byte is kept, or it is blanked: inside a comment, or as its first hyphen. -/
theorem Scan.keep_cases (scan : Scan) (c : UInt8) (rest : Bytes) :
    (scan.keep c rest = c ∧ (scan ≠ .comment → scan.next c rest ≠ .comment)) ∨
    (scan.keep c rest = blank ∧ (scan ≠ .comment → c = hyphen)) := by
  cases scan with
  | quoted quote =>
    refine .inl ⟨rfl, fun _ hcomment => ?_⟩
    rw [Scan.next] at hcomment
    split at hcomment <;> cases hcomment
  | comment =>
    by_cases hline : c = newline
    · exact .inl ⟨if_pos hline, fun h => absurd rfl h⟩
    · exact .inr ⟨if_neg hline, fun h => absurd rfl h⟩
  | code =>
    by_cases hstarts : startsComment c rest = true
    · refine .inr ⟨if_pos hstarts, fun _ => ?_⟩
      simp only [startsComment, Bool.and_eq_true, beq_iff_eq] at hstarts
      exact hstarts.1
    · refine .inl ⟨if_neg hstarts, fun _ hcomment => ?_⟩
      rw [Scan.next, if_neg hstarts] at hcomment
      split at hcomment <;> cases hcomment

/-- Stripping takes hyphens away, and some of them if it changes anything. -/
theorem strip_hyphens (scan : Scan) (text : Bytes) :
    (stripLineComments scan text).count hyphen ≤ text.count hyphen ∧
    (scan ≠ .comment → stripLineComments scan text ≠ text →
      (stripLineComments scan text).count hyphen < text.count hyphen) := by
  induction text generalizing scan with
  | nil => exact ⟨Nat.le_refl _, fun _ h => absurd rfl h⟩
  | cons c rest ih =>
    rw [stripLineComments]
    rcases scan.keep_cases c rest with ⟨hkeep, hnext⟩ | ⟨hblank, hfirst⟩
    · rw [hkeep, List.count_cons, List.count_cons]
      refine ⟨Nat.add_le_add_right (ih _).1 _, fun hscan hne => ?_⟩
      apply Nat.add_lt_add_right
      apply (ih _).2 (hnext hscan)
      intro hsame
      exact hne (by rw [hsame])
    · rw [hblank, List.count_cons_of_ne (by decide)]
      constructor
      · exact (ih _).1.trans (List.count_le_count_cons)
      · intro hscan _
        rw [hfirst hscan, List.count_cons_self]
        exact Nat.lt_succ_of_le (ih _).1

/-! ## Pieces -/

/-- The quote that is open at the end of a text. -/
def quoteAfter (quote : Option UInt8) (text : Bytes) : Option UInt8 := text.foldl nextQuote quote

theorem nextQuote_semicolon : nextQuote none semicolon = none := rfl

theorem pieces_cons_semicolon (text : Bytes) :
    pieces none (semicolon :: text) = [] :: pieces none text := rfl

theorem pieces_cons {quote : Option UInt8} {c : UInt8} (h : ¬ (quote = none ∧ c = semicolon))
    (text : Bytes) :
    pieces quote (c :: text) =
      (c :: (cut (nextQuote quote c) text).1) :: (cut (nextQuote quote c) text).2 := by
  rw [pieces, cut, if_neg h]

/-- Two texts: the last piece of the first one goes on with the first of the second. -/
theorem pieces_append {quote : Option UInt8} {text last : Bytes} {early : List Bytes}
    (h : pieces quote text = early ++ [last]) (later : Bytes) :
    pieces quote (text ++ later) =
      early ++ (last ++ (cut (quoteAfter quote text) later).1) :: (cut (quoteAfter quote text) later).2 := by
  induction text generalizing quote early last with
  | nil =>
    obtain ⟨rfl, hlast⟩ := List.append_inj' (show [] ++ [[]] = early ++ [last] from h) rfl
    cases hlast
    rfl
  | cons c text ih =>
    by_cases hbreak : quote = none ∧ c = semicolon
    · obtain ⟨rfl, rfl⟩ := hbreak
      rw [pieces_cons_semicolon] at h
      cases early with
      | nil => cases h
      | cons first early =>
        obtain ⟨rfl, hrest⟩ := List.cons.inj h
        rw [List.cons_append, pieces_cons_semicolon, ih hrest]
        rfl
    · rw [pieces_cons hbreak] at h
      rw [List.cons_append, pieces_cons hbreak]
      cases early with
      | nil =>
        obtain ⟨hlast, hrest⟩ := List.cons.inj h
        have hnone : pieces (nextQuote quote c) text = [] ++ [(cut (nextQuote quote c) text).1] := by
          rw [pieces, hrest]
          rfl
        have happend := ih hnone
        obtain ⟨hfirst, hmore⟩ := List.cons.inj happend
        rw [hfirst, hmore, ← hlast]
        rfl
      | cons first early =>
        obtain ⟨hfirst, hrest⟩ := List.cons.inj h
        have hsplit : pieces (nextQuote quote c) text =
            ((cut (nextQuote quote c) text).1 :: early) ++ [last] := by
          rw [pieces, hrest]
          rfl
        obtain ⟨hkeep, hmore⟩ := List.cons.inj (ih hsplit)
        rw [hkeep, hmore, ← hfirst]
        rfl

theorem exists_last_piece (quote : Option UInt8) (text : Bytes) :
    ∃ early last, pieces quote text = early ++ [last] := by
  rcases List.eq_nil_or_concat (pieces quote text) with h | ⟨early, last, h⟩
  · cases h
  · exact ⟨early, last, h.trans List.concat_eq_append⟩

/-- A semicolon outside quotes ends a piece. -/
theorem pieces_semicolon {quote : Option UInt8} {text : Bytes} (h : quoteAfter quote text = none)
    (later : Bytes) : pieces quote (text ++ semicolon :: later) = pieces quote text ++ pieces none later := by
  obtain ⟨early, last, hpieces⟩ := exists_last_piece quote text
  have hcut : cut none (semicolon :: later) = ([], pieces none later) := rfl
  rw [pieces_append hpieces, h, hcut, hpieces, List.append_nil, List.append_assoc, List.singleton_append]

/-- The first piece is the whole text or ends at a semicolon outside quotes. -/
theorem cut_cases (quote : Option UInt8) (text : Bytes) :
    cut quote text = (text, []) ∨
    ∃ later, text = (cut quote text).1 ++ semicolon :: later ∧
      (cut quote text).2 = pieces none later ∧ quoteAfter quote (cut quote text).1 = none := by
  induction text generalizing quote with
  | nil => exact .inl rfl
  | cons c text ih =>
    rw [cut]
    split
    · rename_i hbreak
      obtain ⟨rfl, rfl⟩ := hbreak
      exact .inr ⟨text, rfl, rfl, rfl⟩
    · rcases ih (nextQuote quote c) with hwhole | ⟨later, htext, hmore, hquote⟩
      · rw [hwhole]
        exact .inl rfl
      · refine .inr ⟨later, ?_, hmore, hquote⟩
        dsimp only
        rw [List.cons_append, ← htext]

theorem nextQuote_spaces {c : UInt8} : isspace c = true → isQuote c = false ∧ c ≠ semicolon :=
  forall_byte (p := fun c => isspace c = true → isQuote c = false ∧ c ≠ semicolon)
    (by decide +kernel) c

theorem quoteAfter_spaces {ws : Bytes} (hws : Spaces ws) : quoteAfter none ws = none := by
  induction ws with
  | nil => rfl
  | cons c ws ih =>
    obtain ⟨hc, hws⟩ := List.forall_mem_cons.mp hws
    have hnext : nextQuote none c = none := by simp [nextQuote, (nextQuote_spaces hc).1]
    rw [quoteAfter, List.foldl_cons, hnext]
    exact ih hws

/-- Whitespace is no end of a piece. -/
theorem cut_spaces {ws : Bytes} (hws : Spaces ws) (text : Bytes) :
    cut none (ws ++ text) = (ws ++ (cut none text).1, (cut none text).2) := by
  induction ws with
  | nil => rfl
  | cons c ws ih =>
    obtain ⟨hc, hws⟩ := List.forall_mem_cons.mp hws
    obtain ⟨hquote, hsemi⟩ := nextQuote_spaces hc
    have hnext : nextQuote none c = none := by simp [nextQuote, hquote]
    rw [List.cons_append, cut, if_neg (fun h => hsemi h.2), hnext, ih hws]
    rfl

/-- A quote is closed by the same byte. -/
theorem mem_of_closed {quote : UInt8} {text : Bytes} (h : quoteAfter (some quote) text = none) :
    quote ∈ text := by
  induction text with
  | nil => cases h
  | cons c text ih =>
    by_cases hc : c = quote
    · exact hc ▸ List.mem_cons_self
    · have hnext : nextQuote (some quote) c = some quote := by simp [nextQuote, hc]
      rw [quoteAfter, List.foldl_cons, hnext] at h
      exact List.mem_cons_of_mem c (ih h)

theorem pieces_hyphens (quote : Option UInt8) (text : Bytes) :
    ((pieces quote text).map (List.count hyphen)).sum = text.count hyphen := by
  induction text generalizing quote with
  | nil => rfl
  | cons c text ih =>
    by_cases hbreak : quote = none ∧ c = semicolon
    · obtain ⟨rfl, rfl⟩ := hbreak
      have hrest := ih none
      rw [pieces_cons_semicolon, List.count_cons_of_ne (by decide), ← hrest]
      simp
    · have hrest := ih (nextQuote quote c)
      rw [pieces_cons hbreak]
      simp only [pieces, List.map_cons, List.sum_cons, List.count_cons] at hrest ⊢
      omega

theorem mem_of_piece {quote : Option UInt8} {text piece : Bytes} (h : piece ∈ pieces quote text)
    {c : UInt8} (hc : c ∈ piece) : c ∈ text := by
  induction text generalizing quote piece with
  | nil =>
    rw [List.mem_singleton.mp h] at hc
    cases hc
  | cons d text ih =>
    by_cases hbreak : quote = none ∧ d = semicolon
    · obtain ⟨rfl, rfl⟩ := hbreak
      rw [pieces_cons_semicolon] at h
      rcases List.mem_cons.mp h with rfl | h
      · cases hc
      · exact List.mem_cons_of_mem _ (ih h hc)
    · rw [pieces_cons hbreak] at h
      rcases List.mem_cons.mp h with rfl | h
      · rcases List.mem_cons.mp hc with rfl | hc
        · exact List.mem_cons_self
        · exact List.mem_cons_of_mem _ (ih List.mem_cons_self hc)
      · exact List.mem_cons_of_mem _ (ih (List.mem_cons_of_mem _ h) hc)

/-- A byte that is no semicolon is in a piece. -/
theorem piece_of_mem (quote : Option UInt8) {text : Bytes} {c : UInt8} (hc : c ∈ text) :
    c = semicolon ∨ ∃ piece ∈ pieces quote text, c ∈ piece := by
  induction text generalizing quote with
  | nil => cases hc
  | cons d text ih =>
    by_cases hbreak : quote = none ∧ d = semicolon
    · obtain ⟨rfl, rfl⟩ := hbreak
      rcases List.mem_cons.mp hc with rfl | hc
      · exact .inl rfl
      · refine (ih none hc).imp_right ?_
        rintro ⟨piece, hpiece, hmem⟩
        exact ⟨piece, List.mem_cons_of_mem _ hpiece, hmem⟩
    · rw [pieces_cons hbreak]
      rcases List.mem_cons.mp hc with rfl | hc
      · exact .inr ⟨_, List.mem_cons_self, List.mem_cons_self⟩
      · refine (ih (nextQuote quote d) hc).imp_right ?_
        rintro ⟨piece, hpiece, hmem⟩
        rcases List.mem_cons.mp hpiece with rfl | hpiece
        · exact ⟨_, List.mem_cons_self, List.mem_cons_of_mem _ hmem⟩
        · exact ⟨piece, List.mem_cons_of_mem _ hpiece, hmem⟩

theorem strip_nulFree {text : Bytes} (h : 0 ∉ text) (scan : Scan) : 0 ∉ stripLineComments scan text := by
  induction text generalizing scan with
  | nil => exact h
  | cons c text ih =>
    obtain ⟨hc, htext⟩ := not_or.mp (List.mem_cons.not.mp h)
    rw [stripLineComments, List.mem_cons, not_or]
    refine ⟨?_, ih htext _⟩
    rcases scan.keep_cases c text with ⟨hkeep, -⟩ | ⟨hblank, -⟩
    · rw [hkeep]
      exact hc
    · rw [hblank]
      decide

theorem pieces_nulFree {text : Bytes} (h : 0 ∉ text) (quote : Option UInt8) :
    ∀ piece ∈ pieces quote text, 0 ∉ piece :=
  fun _ hpiece hmem => h (mem_of_piece hpiece hmem)

/-! ## Plans -/

theorem trimStatement_eq_nil {piece : Bytes} : trimStatement piece = [] ↔ Spaces piece := by
  constructor
  · intro h
    exact List.dropWhile_eq_nil_iff.mp (Storage.trim_eq_nil h)
  · intro h
    rw [trimStatement, Storage.trim, List.dropWhile_eq_nil_iff.mpr h]
    rfl

/-- A piece without the whitespace around it. -/
theorem trimStatement_spec (piece : Bytes) : ∃ ws ws', Spaces ws ∧ Spaces ws' ∧
    piece = ws ++ (trimStatement piece ++ ws') := by
  obtain ⟨ws', hws', htail⟩ := Storage.trim_append piece
  refine ⟨piece.takeWhile isspace, ws', List.all_eq_true.mp List.all_takeWhile, hws', ?_⟩
  rw [trimStatement, ← htail, List.takeWhile_append_dropWhile]

theorem trimStatement_accepts {piece : Bytes} {query : Query} :
    Accepts (trimStatement piece) query ↔ Accepts piece query := by
  obtain ⟨ws, ws', hws, hws', hpiece⟩ := trimStatement_spec piece
  constructor
  · intro h
    rw [hpiece]
    exact (Accepts.skip_iff hws).mpr (h.append_spaces hws')
  · intro h
    rw [hpiece] at h
    refine Accepts.drop_trailing ws' (fun c hc => ?_) ((Accepts.skip_iff hws).mp h)
    simp [isTrailing, hws' c hc]

theorem trimStatement_nulFree {piece : Bytes} (h : 0 ∉ piece) : 0 ∉ trimStatement piece := by
  obtain ⟨ws, ws', -, -, hpiece⟩ := trimStatement_spec piece
  intro hmem
  apply h
  rw [hpiece]
  exact List.mem_append_right ws (List.mem_append_left ws' hmem)

def unsupported : SqlError := sqlSetError [ascii "unsupported SQL statement"]

/-- The one message for a text that is not blank and no statement. -/
theorem parseSqlText_refused {text : Bytes} (hnul : 0 ∉ text) (hblank : ¬ Spaces text)
    (h : ∀ query, ¬ Accepts text query) : (parseSqlText text .zero).2 = .error unsupported := by
  have hnonblank : ¬ (peek text = 0 ∨ tokenizeSql text = false) := by
    rintro (hpeek | htoken)
    · cases text with
      | nil => exact hblank (List.forall_mem_nil _)
      | cons c text => exact hnul (hpeek ▸ List.mem_cons_self)
    · rw [tokenizeSql, cString_eq_self hnul, List.any_eq_false] at htoken
      exact hblank fun c hc => by simpa using htoken c hc
  rcases hresult : parseSqlText text .zero with ⟨query, e | u⟩
  · rw [parseSqlText, if_neg hnonblank] at hresult
    split at hresult
    · cases hresult
    · split at hresult
      · cases hresult
      · cases hresult
        rfl
  · exact absurd ((accepts_parse_iff hnul query).mpr hresult) (h query)

section Plan

variable {piece : Bytes} {executedAny : Bool}

theorem plan_blank (h : Spaces piece) (pieces : List Bytes) :
    plan executedAny (piece :: pieces) = plan executedAny pieces := by
  rw [plan, if_pos (trimStatement_eq_nil.mpr h)]

theorem plan_accepted (hnul : 0 ∉ piece) {query : Query} (h : Accepts piece query)
    (pieces : List Bytes) :
    plan executedAny (piece :: pieces) = (query :: (plan true pieces).1, (plan true pieces).2) := by
  have hparse := (accepts_parse_iff (trimStatement_nulFree hnul) query).mp (trimStatement_accepts.mpr h)
  rw [plan, if_neg fun hblank => h.nonblank (trimStatement_eq_nil.mp hblank), hparse]

theorem plan_refused (hnul : 0 ∉ piece) (hblank : ¬ Spaces piece)
    (h : ∀ query, ¬ Accepts piece query) (pieces : List Bytes) :
    plan executedAny (piece :: pieces) = ([], .error unsupported) := by
  have hnone : trimStatement piece ≠ [] := fun hnil => hblank (trimStatement_eq_nil.mp hnil)
  have hfirst : isspace (peek (trimStatement piece)) = false := Storage.peek_trim piece
  have htrimmed : ¬ Spaces (trimStatement piece) := by
    intro hspaces
    rw [hspaces _ (peek_mem hnone)] at hfirst
    cases hfirst
  have hparse := parseSqlText_refused (trimStatement_nulFree hnul) htrimmed fun query hquery =>
    h query (trimStatement_accepts.mp hquery)
  rw [plan, if_neg hnone]
  rcases hresult : parseSqlText (trimStatement piece) .zero with ⟨query, e | u⟩
  · rw [hresult] at hparse
    cases hparse
    rfl
  · rw [hresult] at hparse
    cases hparse

/-- A plan with a result of 1 whose first piece is not blank. -/
theorem plan_ok (hnul : 0 ∉ piece) (hblank : ¬ Spaces piece) {pieces : List Bytes}
    (h : (plan executedAny (piece :: pieces)).2 = .ok ()) :
    ∃ query, Accepts piece query := by
  by_contra hnone
  rw [plan_refused hnul hblank fun query hquery => hnone ⟨query, hquery⟩] at h
  cases h

/-- The queries of a plan have no hyphens but those of the pieces. -/
theorem plan_hyphens {pieces : List Bytes} (hnul : ∀ piece ∈ pieces, 0 ∉ piece) (executedAny : Bool) :
    ((plan executedAny pieces).1.map Query.hyphens).sum ≤
      (pieces.map (List.count hyphen)).sum := by
  induction pieces generalizing executedAny with
  | nil => exact Nat.zero_le _
  | cons piece pieces ih =>
    obtain ⟨hpiece, hpieces⟩ := List.forall_mem_cons.mp hnul
    rw [List.map_cons, List.sum_cons]
    by_cases hblank : Spaces piece
    · rw [plan_blank hblank]
      exact (ih hpieces _).trans (Nat.le_add_left _ _)
    · by_cases haccepts : ∃ query, Accepts piece query
      · obtain ⟨query, hquery⟩ := haccepts
        rw [plan_accepted hpiece hquery, List.map_cons, List.sum_cons, ← hquery.count_hyphen]
        exact Nat.add_le_add_left (ih hpieces _) _
      · rw [plan_refused hpiece hblank fun query hquery => haccepts ⟨query, hquery⟩]
        exact Nat.zero_le _

end Plan

end MiniSql.Runtime
