import MiniSql.Query.Padding
import MiniSql.Runtime.Scanning

/-!
# Comments in a script

A line comment behind whitespace becomes a run of blanks. The scans of the script see
the same pieces with it and without it, and the parser skips whitespace of any length
between tokens. But a value that the parser takes as quoted may go on over the end of
a line where the scans see no quote; then the blanks become part of the value.
-/

namespace MiniSql.Runtime

open Query

/-! ## The scan at the comment -/

/-- The quote that is open in a state of the scan. -/
def Scan.quote : Scan → Option UInt8
  | .quoted quote => some quote
  | .code => none
  | .comment => none

theorem nextQuote_keep (scan : Scan) (c : UInt8) (rest : Bytes) :
    nextQuote scan.quote (scan.keep c rest) = (scan.next c rest).quote := by
  cases scan with
  | quoted quote =>
    by_cases hc : c = quote <;> simp [Scan.quote, Scan.keep, Scan.next, nextQuote, hc]
  | comment =>
    simp only [Scan.quote, Scan.keep, Scan.next]
    split
    · subst c
      rfl
    · rfl
  | code =>
    simp only [Scan.quote, Scan.keep, Scan.next]
    by_cases hstarts : startsComment c rest = true
    · have hc : c = hyphen := by
        simp only [startsComment, Bool.and_eq_true, beq_iff_eq] at hstarts
        exact hstarts.1
      have hquote : isQuote c = false := hc ▸ rfl
      rw [if_pos hstarts, if_pos hstarts, hquote]
      rfl
    · rw [if_neg hstarts, if_neg hstarts, nextQuote]
      split <;> rfl

/-- The splitter sees the quotes that the stripping scan has seen. -/
theorem quoteAfter_strip (scan : Scan) (text : Bytes) :
    quoteAfter scan.quote (stripLineComments scan text) = (scan.after text).quote := by
  induction text generalizing scan with
  | nil => rfl
  | cons c text ih =>
    rw [stripLineComments, quoteAfter, List.foldl_cons, nextQuote_keep]
    exact ih (scan.next c text)

theorem isspace_ne_hyphen {c : UInt8} (h : isspace c = true) : c ≠ hyphen := by
  rintro rfl
  cases h

theorem parted_of_space {text : Bytes} (h : EndsInSpace text) (later : Bytes) : Parted text later := by
  obtain ⟨front, c, rfl, hc⟩ := h
  left
  simpa using isspace_ne_hyphen hc

theorem strip_endsInSpace {text : Bytes} (h : EndsInSpace text) (scan : Scan) :
    EndsInSpace (stripLineComments scan text) := by
  obtain ⟨front, c, rfl, hc⟩ := h
  have hparted : Parted front [c] := .inr (isspace_ne_hyphen hc)
  refine ⟨stripLineComments scan front, (scan.after front).keep c [], strip_append hparted scan, ?_⟩
  rcases (scan.after front).keep_cases c [] with ⟨hkeep, -⟩ | ⟨hblank, -⟩
  · rw [hkeep]
    exact hc
  · rw [hblank]
    rfl

theorem strip_comment {c : Bytes} (hc : newline ∉ c) (later : Bytes) :
    stripLineComments .comment (c ++ newline :: later) =
      List.replicate c.length blank ++ newline :: stripLineComments .code later := by
  induction c with
  | nil => rfl
  | cons d c ih =>
    obtain ⟨hd, hc⟩ := not_or.mp (List.mem_cons.not.mp hc)
    have hline : d ≠ newline := fun h => hd h.symm
    rw [List.cons_append, stripLineComments, Scan.keep, Scan.next, if_neg hline, if_neg hline, ih hc]
    rfl

/-- Outside quotes the comment and its end become blanks and the end of the line. -/
theorem strip_line {scan : Scan} (hscan : scan.quote = none) {c : Bytes} (hc : newline ∉ c)
    (later : Bytes) :
    stripLineComments scan (hyphen :: hyphen :: (c ++ newline :: later)) =
      (List.replicate (c.length + 2) blank ++ [newline]) ++ stripLineComments .code later := by
  have hcomment : stripLineComments scan (hyphen :: hyphen :: (c ++ newline :: later)) =
      blank :: blank :: stripLineComments .comment (c ++ newline :: later) := by
    cases scan with
    | quoted quote => cases hscan
    | comment => rfl
    | code => rfl
  rw [hcomment, strip_comment hc]
  simp [List.replicate_succ]

theorem strip_newline {scan : Scan} (hscan : scan.quote = none) (later : Bytes) :
    stripLineComments scan (newline :: later) = [newline] ++ stripLineComments .code later := by
  cases scan with
  | quoted quote => cases hscan
  | comment => rfl
  | code => rfl

/-! ## The pieces around the comment -/

/-- Whitespace at the end of a text ends its last piece. -/
theorem last_endsInSpace {quote : Option UInt8} {text last : Bytes} {early : List Bytes}
    (h : EndsInSpace text) (hpieces : pieces quote text = early ++ [last]) : EndsInSpace last := by
  obtain ⟨front, c, rfl, hc⟩ := h
  obtain ⟨early', last', hfront⟩ := exists_last_piece quote front
  have hcut : cut (quoteAfter quote front) [c] = ([c], []) := by
    rw [cut, if_neg fun hbreak => (nextQuote_spaces hc).2 hbreak.2]
    rfl
  rw [pieces_append hfront, hcut] at hpieces
  obtain ⟨-, hlast⟩ := List.append_inj' hpieces rfl
  cases hlast
  exact ⟨last', c, rfl, hc⟩

/-- Whitespace between two texts stands in one piece. -/
theorem pieces_pad {a last pad b : Bytes} {early : List Bytes} (ha : quoteAfter none a = none)
    (hpieces : pieces none a = early ++ [last]) (hpad : Spaces pad) :
    pieces none (a ++ (pad ++ b)) = early ++ (last ++ (pad ++ (cut none b).1)) :: (cut none b).2 := by
  rw [pieces_append hpieces, ha, cut_spaces hpad]

/-! ## The plans -/

/-- The loop gets past the piece. -/
def Passed (piece : Bytes) : Prop := Spaces piece ∨ ∃ query, Accepts piece query

theorem plan_passed {early : List Bytes} (hnul : ∀ piece ∈ early, 0 ∉ piece)
    (h : ∀ piece ∈ early, Passed piece) (executedAny : Bool) :
    ∃ queries executed, ∀ later, plan executedAny (early ++ later) =
      (queries ++ (plan executed later).1, (plan executed later).2) := by
  induction early generalizing executedAny with
  | nil => exact ⟨[], executedAny, fun _ => rfl⟩
  | cons piece early ih =>
    obtain ⟨hpiece, hearly⟩ := List.forall_mem_cons.mp hnul
    obtain ⟨hpassed, hrest⟩ := List.forall_mem_cons.mp h
    rcases hpassed with hblank | ⟨query, hquery⟩
    · obtain ⟨queries, executed, hplan⟩ := ih hearly hrest executedAny
      refine ⟨queries, executed, fun later => ?_⟩
      rw [List.cons_append, plan_blank hblank, hplan]
    · obtain ⟨queries, executed, hplan⟩ := ih hearly hrest true
      refine ⟨query :: queries, executed, fun later => ?_⟩
      rw [List.cons_append, plan_accepted hpiece hquery, hplan]
      rfl

/-- Behind a piece that is refused nothing matters. -/
theorem plan_stopped {early : List Bytes} (hnul : ∀ piece ∈ early, 0 ∉ piece)
    (h : ¬ ∀ piece ∈ early, Passed piece) (executedAny : Bool) :
    ∃ stopped, ∀ later, plan executedAny (early ++ later) = stopped := by
  induction early generalizing executedAny with
  | nil => exact absurd (List.forall_mem_nil _) h
  | cons piece early ih =>
    obtain ⟨hpiece, hearly⟩ := List.forall_mem_cons.mp hnul
    by_cases hpassed : Passed piece
    · have hrest : ¬ ∀ piece ∈ early, Passed piece :=
        fun hrest => h (List.forall_mem_cons.mpr ⟨hpassed, hrest⟩)
      rcases hpassed with hblank | ⟨query, hquery⟩
      · obtain ⟨stopped, hplan⟩ := ih hearly hrest executedAny
        refine ⟨stopped, fun later => ?_⟩
        rw [List.cons_append, plan_blank hblank, hplan]
      · obtain ⟨stopped, hplan⟩ := ih hearly hrest true
        refine ⟨(query :: stopped.1, stopped.2), fun later => ?_⟩
        rw [List.cons_append, plan_accepted hpiece hquery, hplan]
    · obtain ⟨hblank, hrefused⟩ := not_or.mp hpassed
      refine ⟨([], .error unsupported), fun later => ?_⟩
      rw [List.cons_append, plan_refused hpiece hblank fun query hquery => hrefused ⟨query, hquery⟩]

/-- A piece with another run of whitespace in it gives the same plan unless the run is
inside a value. -/
theorem plan_padded (tail : Bytes) {u pad pad' : Bytes} (hu : EndsInSpace u) (hpad : Spaces pad)
    (hne : pad ≠ []) (hpad' : Spaces pad') (hne' : pad' ≠ []) (hlen : pad'.length ≠ pad.length)
    (hnul : 0 ∉ u ++ (pad ++ tail)) (hnul' : 0 ∉ u ++ (pad' ++ tail)) (executedAny : Bool)
    (later : List Bytes) :
    plan executedAny ((u ++ (pad' ++ tail)) :: later) = plan executedAny ((u ++ (pad ++ tail)) :: later) ↔
      ¬ ∃ t : Tree, t.Derives (u ++ (pad ++ tail)) ∧ ∃ x ∈ t.spans, Crosses (pad ++ tail) x.1 x.2 := by
  by_cases haccepts : ∃ t : Tree, t.Derives (u ++ (pad ++ tail))
  · obtain ⟨t, ht⟩ := haccepts
    obtain ⟨t', ht', hquery⟩ := ht.padded hu hpad hne hpad' hlen
    rw [plan_accepted hnul ⟨t, ht, rfl⟩, plan_accepted hnul' ⟨t', ht', rfl⟩]
    constructor
    · rintro hsame ⟨t₂, ht₂, x, hx, hcross⟩
      rw [ht₂.unique hnul ht] at hx
      have hqueries : t'.query = t.query := by simpa using hsame
      exact hquery.mp hqueries x hx hcross
    · intro hnone
      rw [hquery.mpr fun x hx hcross => hnone ⟨t, ht, x, hx, hcross⟩]
  · have hsame : plan executedAny ((u ++ (pad' ++ tail)) :: later) =
        plan executedAny ((u ++ (pad ++ tail)) :: later) := by
      by_cases hblank : Spaces (u ++ (pad ++ tail))
      · have hblank' : Spaces (u ++ (pad' ++ tail)) :=
          Padded.spaces hpad' (.inr ⟨u, hu, rfl, rfl⟩) hblank
        rw [plan_blank hblank, plan_blank hblank']
      · have hblank' : ¬ Spaces (u ++ (pad' ++ tail)) := fun h =>
          hblank (Padded.spaces hpad (.inr ⟨u, hu, rfl, rfl⟩) h)
        rw [plan_refused hnul hblank, plan_refused hnul' hblank']
        · rintro query ⟨t', ht', -⟩
          obtain ⟨t, ht, -⟩ := ht'.padded hu hpad' hne' hpad hlen.symm
          exact haccepts ⟨t, ht⟩
        · rintro query ⟨t, ht, -⟩
          exact haccepts ⟨t, ht⟩
    refine iff_of_true hsame ?_
    rintro ⟨t, ht, -⟩
    exact haccepts ⟨t, ht⟩

/-! ## Scripts with and without a comment -/

/-- The pieces of a text that end in it. -/
def endedPieces (a : Bytes) : List Bytes := (pieces none (stripLineComments .code a)).dropLast

/-- The piece of a text that goes on behind it. -/
def openPiece (a : Bytes) : Bytes := (pieces none (stripLineComments .code a)).getLastD []

/-- The piece that a text begins with. -/
def firstPiece (b : Bytes) : Bytes := (cut none (stripLineComments .code b)).1

/-- The loop comes to the piece around the point between `a` and `b`, and the parser
takes the point as part of a value there. -/
def InsideValue (a b : Bytes) : Prop :=
  (∀ piece ∈ endedPieces a, Passed piece) ∧
  ∃ t : Tree, t.Derives (openPiece a ++ newline :: firstPiece b) ∧
    ∃ x ∈ t.spans, Crosses (newline :: firstPiece b) x.1 x.2

/-- Outside quotes a quote byte follows an opening parenthesis, a comma or an equals
sign; `before` is the last byte that is not whitespace. -/
def quotesPlaced (quote : Option UInt8) (before : UInt8) : Bytes → Bool
  | [] => true
  | c :: rest =>
    (quote.isSome || !isQuote c || before == 0x28 || before == comma || before == 0x3d) &&
      quotesPlaced (nextQuote quote c) (if isspace c then before else c) rest

theorem pieces_eq_ended (a : Bytes) :
    pieces none (stripLineComments .code a) = endedPieces a ++ [openPiece a] := by
  obtain ⟨early, last, hpieces⟩ := exists_last_piece none (stripLineComments .code a)
  rw [endedPieces, openPiece, hpieces, List.dropLast_concat, List.getLastD_concat]

theorem scriptPlan_pad {a text pad b : Bytes} (ha : EndsInSpace a)
    (houtside : (Scan.code.after a).quote = none) (hpad : Spaces pad)
    (htext : stripLineComments (Scan.code.after a) text = pad ++ stripLineComments .code b) :
    scriptPlan (a ++ text) = plan false (endedPieces a ++
      (openPiece a ++ (pad ++ firstPiece b)) :: (cut none (stripLineComments .code b)).2) := by
  have hquote : quoteAfter none (stripLineComments .code a) = none :=
    (quoteAfter_strip .code a).trans houtside
  rw [scriptPlan, strip_append (parted_of_space ha text), htext,
    pieces_pad hquote (pieces_eq_ended a) hpad, firstPiece]

/-- **Comments are invisible to scripts** unless the parser takes the end of the line
as part of a value. -/
theorem comment_invisible_iff (a b c : Bytes)
    (hnul : 0 ∉ a ++ hyphen :: hyphen :: (c ++ newline :: b)) (hspace : EndsInSpace a)
    (houtside : (Scan.code.after a).quote = none) (hline : newline ∉ c) :
    (∀ (σ : Type) (execute : Execute σ) (s : σ),
      executeSqlScript execute (a ++ hyphen :: hyphen :: (c ++ newline :: b)) s =
        executeSqlScript execute (a ++ newline :: b) s) ↔
      ¬ InsideValue a b := by
  have ha : 0 ∉ a := fun hmem => hnul (by simp [hmem])
  have hb : 0 ∉ b := fun hmem => hnul (by simp [hmem])
  have hblanks : Spaces (List.replicate (c.length + 2) blank ++ [newline]) := by
    intro d hd
    rcases List.mem_append.mp hd with hd | hd
    · rw [(List.mem_replicate.mp hd).2]
      rfl
    · rw [List.mem_singleton.mp hd]
      rfl
  have hnewline : Spaces [newline] := by simp [Spaces, isspace, newline]
  simp only [executeSqlScript_eq]
  rw [runQueries_eq_iff, scriptPlan_pad hspace houtside hblanks (strip_line houtside hline b),
    scriptPlan_pad hspace houtside hnewline (strip_newline houtside b), Prod.mk.eta, Prod.mk.eta]
  have hpieces := pieces_nulFree (strip_nulFree ha .code) none
  rw [pieces_eq_ended] at hpieces
  have hended : ∀ piece ∈ endedPieces a, 0 ∉ piece :=
    fun piece hpiece => hpieces piece (List.mem_append_left _ hpiece)
  have hopen : 0 ∉ openPiece a := hpieces _ (by simp)
  have hfirst : 0 ∉ firstPiece b := pieces_nulFree (strip_nulFree hb .code) none _ List.mem_cons_self
  by_cases hpassed : ∀ piece ∈ endedPieces a, Passed piece
  · obtain ⟨queries, executed, hplan⟩ := plan_passed hended hpassed false
    have hu := last_endsInSpace (strip_endsInSpace hspace .code) (pieces_eq_ended a)
    have hpadded := plan_padded (firstPiece b) hu hnewline (by simp) hblanks (by simp) (by simp)
      (by simp [hopen, hfirst, newline]) (by simp [hopen, hfirst, newline, blank]) executed
      (cut none (stripLineComments .code b)).2
    rw [hplan, hplan, InsideValue, and_iff_right hpassed]
    refine Iff.trans ?_ hpadded
    rw [Prod.mk.injEq, List.append_cancel_left_eq, ← Prod.ext_iff]
  · obtain ⟨stopped, hplan⟩ := plan_stopped hended hpassed false
    rw [hplan, hplan]
    exact iff_of_true rfl fun hinside => hpassed hinside.1

/-- A comment with a quote and a semicolon in it between the lines of a statement. -/
theorem comment_invisible_between_lines :
    ¬ InsideValue (ascii "select * from t ") (ascii "where id = 1;") := by
  refine (comment_invisible_iff _ _ (ascii " the row's key; all of it") (by decide +kernel)
    ⟨ascii "select * from t", blank, by decide, by decide⟩ (by decide +kernel) (by decide +kernel)).mp ?_
  simp only [executeSqlScript_eq]
  rw [runQueries_eq_iff]
  decide +kernel

/-- The parser opens a quote inside what the scans see as two quoted texts: the value
goes on over the end of the line, and the comment becomes part of it. -/
theorem comment_joins_value :
    let a := ascii "INSERT INTO t VALUES (('x,'y, "
    let b := ascii "')"
    EndsInSpace a ∧ (Scan.code.after a).quote = none ∧
    quotesPlaced none 0 (stripLineComments .code (a ++ b)) = true ∧
    executeSqlScript note (a ++ newline :: b) [] =
      some ([⟨.insert, some (ascii "t"), [ascii "('x", ascii "y, \n"], none⟩], [], .ok ()) ∧
    executeSqlScript note (a ++ hyphen :: hyphen :: (ascii "n" ++ newline :: b)) [] =
      some ([⟨.insert, some (ascii "t"), [ascii "('x", ascii "y,    \n"], none⟩], [], .ok ()) := by
  refine ⟨⟨ascii "INSERT INTO t VALUES (('x,'y,", blank, by decide, by decide⟩, ?_⟩
  decide +kernel

end MiniSql.Runtime
