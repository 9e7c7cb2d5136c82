import MiniSql.Runtime.Scanning

/-!
# Statement by statement

A script that is put together from statements of the grammar. It runs them one after
the other if the scans of the script agree with the parser about them: they see no
comment in a statement, no semicolon but the one at its end, and no quote that is
still open where the next statement begins. Otherwise it does something else.
-/

namespace MiniSql.Runtime

open Query

/-- Statements, separated by a semicolon and a newline. -/
def joined (statements : List Bytes) : Bytes := [semicolon, newline].intercalate statements

theorem joined_cons (s next : Bytes) (statements : List Bytes) :
    joined (s :: next :: statements) = s ++ semicolon :: newline :: joined (next :: statements) := by
  simp [joined, List.intercalate]

/-- The scans see no comment in the text, and one piece only that is not blank. -/
structure Whole (s : Bytes) : Prop where
  uncommented : stripLineComments .code s = s
  uncut : ∀ piece ∈ (cut none s).2, Spaces piece

/-- The scans see the statements as they are. -/
def WellCut : List Bytes → Prop
  | [] => True
  | [s] => Whole s
  | s :: next :: statements => Whole s ∧ quoteAfter none s = none ∧ WellCut (next :: statements)

/-! ## Texts without comments -/

/-- The scan with a quote open or not. -/
def Scan.ofQuote : Option UInt8 → Scan
  | none => .code
  | some quote => .quoted quote

/-- Without comments both scans see the same quotes. -/
theorem scan_after (quote : Option UInt8) {text : Bytes}
    (h : stripLineComments (.ofQuote quote) text = text) :
    (Scan.ofQuote quote).after text = .ofQuote (quoteAfter quote text) := by
  induction text generalizing quote with
  | nil => rfl
  | cons c text ih =>
    obtain ⟨hkeep, hrest⟩ := List.cons.inj h
    have hnext : (Scan.ofQuote quote).next c text = .ofQuote (nextQuote quote c) := by
      cases quote with
      | some q =>
        simp only [Scan.ofQuote, Scan.next, nextQuote]
        split <;> rfl
      | none =>
        simp only [Scan.ofQuote, Scan.next, nextQuote]
        split
        · rfl
        · split
          · rename_i hstarts
            rw [Scan.ofQuote, Scan.keep, if_pos hstarts] at hkeep
            rw [startsComment, ← hkeep] at hstarts
            simp [blank, hyphen] at hstarts
          · rfl
    rw [hnext] at hrest
    rw [Scan.after, hnext]
    exact ih _ hrest

/-- A text with a semicolon behind it has no comments if both parts have none. -/
theorem strip_semicolon {s : Bytes} (hs : stripLineComments .code s = s)
    (hquote : quoteAfter none s = none) (later : Bytes) :
    stripLineComments .code (s ++ semicolon :: newline :: later) =
      s ++ semicolon :: newline :: stripLineComments .code later := by
  have hscan : Scan.code.after s = .code := by
    have hafter := scan_after none hs
    rwa [hquote] at hafter
  have hparted : Parted s (semicolon :: newline :: later) :=
    .inr (show semicolon ≠ hyphen by decide)
  rw [strip_append hparted, hs, hscan]
  rfl

theorem strip_joined {statements : List Bytes} (h : WellCut statements) :
    stripLineComments .code (joined statements) = joined statements := by
  induction statements with
  | nil => rfl
  | cons s statements ih =>
    cases statements with
    | nil => simpa [joined, List.intercalate] using h.uncommented
    | cons next statements =>
      obtain ⟨hwhole, hquote, hrest⟩ := h
      rw [joined_cons, strip_semicolon hwhole.uncommented hquote, ih hrest]

theorem joined_hyphens (statements : List Bytes) :
    (joined statements).count hyphen = (statements.map (List.count hyphen)).sum := by
  induction statements with
  | nil => rfl
  | cons s statements ih =>
    cases statements with
    | nil => simp [joined, List.intercalate]
    | cons next statements =>
      rw [joined_cons, List.count_append, List.count_cons_of_ne (by decide),
        List.count_cons_of_ne (by decide), ih]
      rfl

/-! ## From the cuts to the plan -/

theorem plan_blanks {blanks : List Bytes} (h : ∀ piece ∈ blanks, Spaces piece) (executedAny : Bool)
    (pieces : List Bytes) : plan executedAny (blanks ++ pieces) = plan executedAny pieces := by
  induction blanks with
  | nil => rfl
  | cons piece blanks ih =>
    obtain ⟨hpiece, hblanks⟩ := List.forall_mem_cons.mp h
    rw [List.cons_append, plan_blank hpiece, ih hblanks]

/-- Whitespace in front of a text does not matter. -/
theorem plan_skip {c : UInt8} (hc : isspace c = true) (executedAny : Bool) (text : Bytes) :
    plan executedAny (pieces none (c :: text)) = plan executedAny (pieces none text) := by
  have hcut : cut none ([c] ++ text) = ([c] ++ (cut none text).1, (cut none text).2) :=
    cut_spaces (by simpa [Spaces] using hc) text
  have htrim : trimStatement (c :: (cut none text).1) = trimStatement (cut none text).1 := by
    rw [trimStatement, trimStatement, Storage.trim, Storage.trim, List.dropWhile_cons_of_pos hc]
  rw [List.singleton_append] at hcut
  rw [pieces, hcut, pieces]
  simp only [List.singleton_append, plan, htrim]

/-- The first piece of a statement that is not cut is a statement with the same query. -/
theorem first_piece {s : Bytes} {query : Query} (h : Accepts s query)
    (huncut : ∀ piece ∈ (cut none s).2, Spaces piece) : Accepts (cut none s).1 query := by
  rcases cut_cases none s with hwhole | ⟨later, hs, hmore, -⟩
  · rw [hwhole]
    exact h
  · refine Accepts.drop_trailing (semicolon :: later) ?_ (hs ▸ h)
    intro c hc
    rw [isTrailing]
    rcases List.mem_cons.mp hc with rfl | hc
    · rfl
    · rcases piece_of_mem none hc with rfl | ⟨piece, hpiece, hmem⟩
      · rfl
      · rw [huncut piece (hmore ▸ hpiece) c hmem]
        rfl

/-- A statement that is not cut is executed. -/
theorem plan_uncut {s : Bytes} (hnul : 0 ∉ s) {query : Query} (h : Accepts s query)
    (huncut : ∀ piece ∈ (cut none s).2, Spaces piece) (executedAny : Bool) (later : List Bytes) :
    plan executedAny (pieces none s ++ later) = (query :: (plan true later).1, (plan true later).2) := by
  have hfree := pieces_nulFree hnul none _ List.mem_cons_self
  rw [pieces, List.cons_append, plan_accepted hfree (first_piece h huncut), plan_blanks huncut]

/-- Statements that are cut well are executed one after the other. -/
theorem plan_joined {statements : List (Bytes × Query)} (hne : statements ≠ [])
    (h : ∀ x ∈ statements, 0 ∉ x.1 ∧ Accepts x.1 x.2) (hcut : WellCut (statements.map Prod.fst))
    (executedAny : Bool) :
    plan executedAny (pieces none (joined (statements.map Prod.fst))) =
      (statements.map Prod.snd, .ok ()) := by
  induction statements generalizing executedAny with
  | nil => exact absurd rfl hne
  | cons x statements ih =>
    obtain ⟨⟨hnul, haccepts⟩, hrest⟩ := List.forall_mem_cons.mp h
    cases statements with
    | nil =>
      have hplan := plan_uncut hnul haccepts hcut.uncut executedAny []
      simpa [joined, List.intercalate, plan] using hplan
    | cons next statements =>
      obtain ⟨hwhole, hquote, hcuts⟩ := hcut
      have hlater := ih (by simp) hrest hcuts true
      rw [List.map_cons, List.map_cons, joined_cons, pieces_semicolon hquote,
        plan_uncut hnul haccepts hwhole.uncut, plan_skip rfl]
      rw [List.map_cons] at hlater
      rw [hlater]
      rfl

/-! ## From the plan to the cuts -/

theorem isQuote_of_quoteAfter {quote : Option UInt8} (hquote : ∀ q, quote = some q → isQuote q = true)
    {text : Bytes} {q : UInt8} (h : quoteAfter quote text = some q) : isQuote q = true := by
  induction text generalizing quote with
  | nil => exact hquote q h
  | cons c text ih =>
    refine ih (fun q' hq' => ?_) h
    cases quote with
    | none =>
      rw [nextQuote] at hq'
      split at hq'
      · cases hq'
        assumption
      · cases hq'
    | some q =>
      rw [nextQuote] at hq'
      split at hq'
      · cases hq'
      · cases hq'
        exact hquote _ rfl

/-- If the first piece of a statement is a statement, the rest is its end. -/
theorem uncut_of_first {s : Bytes} (hnul : 0 ∉ s) {query query' : Query} (h : Accepts s query)
    (hfirst : Accepts (cut none s).1 query') :
    (∀ piece ∈ (cut none s).2, Spaces piece) ∧ ((cut none s).2 ≠ [] → quoteAfter none s = none) := by
  rcases cut_cases none s with hwhole | ⟨later, hs, hmore, hquote⟩
  · rw [hwhole]
    exact ⟨List.forall_mem_nil _, fun hne => absurd rfl hne⟩
  · have hlater : Spaces later := Accepts.continued (hs ▸ hnul) hfirst (hs ▸ h)
    have hblank : (cut none s).2 = [later] := by
      have hcut := cut_spaces hlater []
      rw [List.append_nil] at hcut
      rw [hmore, pieces, hcut]
      simp [cut]
    constructor
    · rw [hblank]
      simpa using hlater
    · intro _
      rw [hs, quoteAfter, List.foldl_append, List.foldl_cons]
      rw [quoteAfter] at hquote
      rw [hquote, nextQuote_semicolon]
      exact quoteAfter_spaces hlater

/-- The first piece of a statement is not blank. -/
theorem first_nonblank {s : Bytes} {query : Query} (h : Accepts s query) :
    ¬ Spaces (cut none s).1 := by
  intro hblank
  rcases cut_cases none s with hwhole | ⟨later, hs, -, -⟩
  · rw [hwhole] at hblank
    exact h.nonblank hblank
  · rw [hs] at h
    obtain ⟨t, ht, -⟩ := (Accepts.skip_iff hblank).mp h
    exact Bool.false_ne_true ht.first

/-- Where a quote stays open the piece goes on into the next statement. -/
theorem open_quote_refused {s : Bytes} {query query' : Query} (h : Accepts s query) {q : UInt8}
    (hquote : quoteAfter none s = some q) {later : Bytes} (hlater : ¬ Spaces later)
    (hnul : 0 ∉ s ++ (cut (some q) (semicolon :: newline :: later)).1)
    (h' : Accepts (s ++ (cut (some q) (semicolon :: newline :: later)).1) query') : False := by
  have hq : isQuote q = true := isQuote_of_quoteAfter (fun _ hnone => by cases hnone) hquote
  have hcut : (cut (some q) (semicolon :: newline :: later)).1 =
      semicolon :: newline :: (cut (some q) later).1 := by
    have hsemi : nextQuote (some q) semicolon = some q :=
      if_neg fun heq => absurd (heq ▸ hq) (by decide)
    have hline : nextQuote (some q) newline = some q :=
      if_neg fun heq => absurd (heq ▸ hq) (by decide)
    simp [cut, hsemi, hline]
  rw [hcut] at hnul h'
  obtain ⟨-, hblank⟩ := List.forall_mem_cons.mp (Accepts.continued hnul h h')
  rcases cut_cases (some q) later with hwhole | ⟨_, -, -, hclosed⟩
  · rw [hwhole] at hblank
    exact hlater hblank
  · have hspace := nextQuote_spaces (hblank q (mem_of_closed hclosed))
    rw [hq] at hspace
    cases hspace.1

theorem joined_nonblank {s : Bytes} (hs : ¬ Spaces s) (statements : List Bytes) :
    ¬ Spaces (joined (s :: statements)) := by
  intro hblank
  apply hs
  intro c hc
  cases statements with
  | nil => exact hblank c (by simpa [joined, List.intercalate] using hc)
  | cons next statements =>
    rw [joined_cons] at hblank
    exact hblank c (List.mem_append_left _ hc)

/-- The first statement of a script with a result of 1 is cut well. -/
theorem uncut_of_plan {s next : Bytes} {statements : List Bytes}
    (hnul : 0 ∉ joined (s :: next :: statements)) {query : Query} (h : Accepts s query)
    (hnext : ¬ Spaces next) {executedAny : Bool}
    (hplan : (plan executedAny (pieces none (joined (s :: next :: statements)))).2 = .ok ()) :
    (∀ piece ∈ (cut none s).2, Spaces piece) ∧ quoteAfter none s = none := by
  obtain ⟨early, last, hpieces⟩ := exists_last_piece none s
  have hall := pieces_nulFree hnul none
  rw [joined_cons] at hnul hplan hall
  have hs : 0 ∉ s := fun hmem => hnul (List.mem_append_left _ hmem)
  rw [pieces_append hpieces] at hplan hall
  cases early with
  | nil =>
    -- No semicolon was seen in the statement: its piece is the last one.
    obtain ⟨hlast, hmore⟩ := List.cons.inj hpieces
    have hwhole : last = s := by
      rcases cut_cases none s with hwhole | ⟨later, -, hlater, -⟩
      · rw [← hlast, hwhole]
      · rw [hlater] at hmore
        cases hmore
    subst hwhole
    refine ⟨by rw [hmore]; exact List.forall_mem_nil _, ?_⟩
    by_contra hopen
    obtain ⟨q, hquote⟩ := Option.ne_none_iff_exists'.mp hopen
    rw [hquote] at hplan hall
    have hfree := hall _ List.mem_cons_self
    have hblank : ¬ Spaces (last ++ (cut (some q) (semicolon :: newline :: joined (next :: statements))).1) :=
      fun hspaces => h.nonblank fun c hc => hspaces c (List.mem_append_left _ hc)
    obtain ⟨query', h'⟩ := plan_ok hfree hblank hplan
    exact open_quote_refused h hquote (joined_nonblank hnext statements) hfree h'
  | cons first early =>
    obtain ⟨hfirst, hmore⟩ := List.cons.inj hpieces
    rw [← hfirst] at hplan hall
    obtain ⟨query', h'⟩ := plan_ok (hall _ List.mem_cons_self) (first_nonblank h) hplan
    obtain ⟨huncut, hquote⟩ := uncut_of_first hs h h'
    exact ⟨huncut, hquote (by rw [hmore]; simp)⟩

theorem joined_nulFree {statements : List Bytes} (h : ∀ s ∈ statements, 0 ∉ s) : 0 ∉ joined statements := by
  induction statements with
  | nil => exact List.not_mem_nil
  | cons s statements ih =>
    obtain ⟨hs, hrest⟩ := List.forall_mem_cons.mp h
    cases statements with
    | nil => simpa [joined, List.intercalate] using hs
    | cons next statements =>
      rw [joined_cons]
      simp only [List.mem_append, List.mem_cons, not_or]
      exact ⟨hs, by decide, by decide, ih hrest⟩

/-- A script that runs its statements one after the other cuts them well. -/
theorem wellCut_of_plan {statements : List (Bytes × Query)}
    (h : ∀ x ∈ statements, 0 ∉ x.1 ∧ Accepts x.1 x.2)
    (hstrip : stripLineComments .code (joined (statements.map Prod.fst)) =
      joined (statements.map Prod.fst))
    {executedAny : Bool}
    (hplan : plan executedAny (pieces none (joined (statements.map Prod.fst))) =
      (statements.map Prod.snd, .ok ())) : WellCut (statements.map Prod.fst) := by
  induction statements generalizing executedAny with
  | nil => trivial
  | cons x statements ih =>
    obtain ⟨⟨hnul, haccepts⟩, hrest⟩ := List.forall_mem_cons.mp h
    cases statements with
    | nil =>
      have hone : joined ([x].map Prod.fst) = x.1 := by simp [joined, List.intercalate]
      rw [hone] at hstrip hplan
      have hfree := pieces_nulFree hnul none _ List.mem_cons_self
      obtain ⟨query, hfirst⟩ := plan_ok hfree (first_nonblank haccepts) (congrArg Prod.snd hplan)
      exact ⟨hstrip, (uncut_of_first hnul haccepts hfirst).1⟩
    | cons next statements =>
      have hfree : 0 ∉ joined ((x :: next :: statements).map Prod.fst) := by
        apply joined_nulFree
        intro s hs
        obtain ⟨y, hy, rfl⟩ := List.mem_map.mp hs
        exact (h y hy).1
      obtain ⟨huncut, hquote⟩ := uncut_of_plan hfree haccepts
        (hrest next List.mem_cons_self).2.nonblank (congrArg Prod.snd hplan)
      rw [List.map_cons, List.map_cons, joined_cons] at hstrip hplan
      -- Stripping keeps the lengths, so each statement is kept as it is.
      have hparted : Parted x.1 (semicolon :: newline :: joined (next.1 :: statements.map Prod.fst)) :=
        .inr (show semicolon ≠ hyphen by decide)
      have hsame : stripLineComments .code x.1 = x.1 := by
        rw [strip_append hparted] at hstrip
        exact (List.append_inj hstrip (length_strip _ _)).1
      rw [strip_semicolon hsame hquote] at hstrip
      have hlater : stripLineComments .code (joined (next.1 :: statements.map Prod.fst)) =
          joined (next.1 :: statements.map Prod.fst) := by
        simpa using List.append_cancel_left hstrip
      rw [pieces_semicolon hquote, plan_uncut hnul haccepts huncut, plan_skip rfl] at hplan
      have hplanned : plan true (pieces none (joined (next.1 :: statements.map Prod.fst))) =
          ((next :: statements).map Prod.snd, .ok ()) := by
        simpa [Prod.ext_iff] using hplan
      exact ⟨⟨hsame, huncut⟩, hquote, ih hrest hlater hplanned⟩

/-- A script that executes the queries of its statements has no comments: their hyphens
would be missing. -/
theorem strip_of_plan {text : Bytes} (hnul : 0 ∉ text) {queries : List Query}
    (hqueries : (scriptPlan text).1 = queries)
    (hhyphens : text.count hyphen = (queries.map Query.hyphens).sum) :
    stripLineComments .code text = text := by
  by_contra hne
  have hfewer := (strip_hyphens .code text).2 (by simp) hne
  have hplan := plan_hyphens (pieces_nulFree (strip_nulFree hnul .code) none) false
  rw [pieces_hyphens] at hplan
  change ((scriptPlan text).1.map _).sum ≤ _ at hplan
  rw [hqueries] at hplan
  omega

/-- The plan of a script is the queries of its statements exactly if the statements are
cut well. -/
theorem scriptPlan_joined_iff (statements : List (Bytes × Query)) (hne : statements ≠ [])
    (haccepts : ∀ x ∈ statements, 0 ∉ x.1 ∧ Accepts x.1 x.2) :
    scriptPlan (joined (statements.map Prod.fst)) = (statements.map Prod.snd, .ok ()) ↔
      WellCut (statements.map Prod.fst) := by
  have hnul : 0 ∉ joined (statements.map Prod.fst) := by
    apply joined_nulFree
    intro s hs
    obtain ⟨x, hx, rfl⟩ := List.mem_map.mp hs
    exact (haccepts x hx).1
  constructor
  · intro hplan
    have hhyphens : (joined (statements.map Prod.fst)).count hyphen =
        ((statements.map Prod.snd).map Query.hyphens).sum := by
      rw [joined_hyphens, List.map_map, List.map_map]
      congr 1
      exact List.map_congr_left fun x hx => (haccepts x hx).2.count_hyphen
    have hstrip := strip_of_plan hnul (congrArg Prod.fst hplan) hhyphens
    rw [scriptPlan, hstrip] at hplan
    exact wellCut_of_plan haccepts hstrip hplan
  · intro hcut
    rw [scriptPlan, strip_joined hcut, plan_joined hne haccepts hcut]

/-- **Scripts run statement by statement** exactly when the scans of the script see
the statements as the parser does. -/
theorem script_statements_iff (statements : List (Bytes × Query)) (hne : statements ≠ [])
    (hstatements : ∀ x ∈ statements, 0 ∉ x.1 ∧ parseSqlText x.1 .zero = (x.2, .ok ())) :
    (∀ (σ : Type) (execute : Execute σ) (s : σ),
      executeSqlScript execute (joined (statements.map Prod.fst)) s =
        runQueries execute (.ok ()) (statements.map Prod.snd) s) ↔
      WellCut (statements.map Prod.fst) := by
  have haccepts : ∀ x ∈ statements, 0 ∉ x.1 ∧ Accepts x.1 x.2 := fun x hx =>
    ⟨(hstatements x hx).1, (accepts_parse_iff (hstatements x hx).1 x.2).mpr (hstatements x hx).2⟩
  simp only [executeSqlScript_eq]
  rw [runQueries_eq_iff, Prod.mk.eta]
  exact scriptPlan_joined_iff statements hne haccepts

/-- A semicolon in a quoted value, and one at the end of its statement. -/
theorem script_statements_quoted :
    executeSqlScript note (joined [ascii "insert into t values ('a; b');", ascii "select * from t"]) [] =
      runQueries note (.ok ())
        [⟨.insert, some (ascii "t"), [ascii "a; b"], none⟩, ⟨.select, some (ascii "t"), [], none⟩] [] := by
  refine (script_statements_iff
    [(ascii "insert into t values ('a; b');", ⟨.insert, some (ascii "t"), [ascii "a; b"], none⟩),
      (ascii "select * from t", ⟨.select, some (ascii "t"), [], none⟩)]
    (by simp) (by decide +kernel)).mpr ?_ _ note []
  refine ⟨⟨by decide +kernel, ?_⟩, by decide +kernel, by decide +kernel, ?_⟩ <;>
  · simp only [Spaces]
    decide +kernel

/-- An apostrophe in an unquoted value opens a quote for the script: of two statements
that are accepted none is executed. -/
theorem apostrophe_hides_statement :
    let first := ascii "insert into users values (1, O'Brien)"
    let second := ascii "insert into users values (2, O'Hara)"
    parseSqlText first .zero =
      (⟨.insert, some (ascii "users"), [ascii "1", ascii "O'Brien"], none⟩, .ok ()) ∧
    parseSqlText second .zero =
      (⟨.insert, some (ascii "users"), [ascii "2", ascii "O'Hara"], none⟩, .ok ()) ∧
    executeSqlScript note (joined [first, second]) [] = some ([], [], .error unsupported) := by
  decide +kernel

end MiniSql.Runtime
