import MiniSql.Query.ValuePosition
import MiniSql.Runtime.Comments
import MiniSql.Runtime.StatementByStatement

/-!
# Parameters of a script: `apply_single_param`

The parameter is put into the text in place of the first `?` outside quotes, before
comments are stripped, statements cut and values read. So the text of the parameter is
read again: it is one value only where it is written like an unquoted value and the
scans see nothing in the resulting text that the parser does not.
-/

namespace MiniSql.Runtime

open Query

def placeholder : UInt8 := 0x3f

/-- The text in front of the first `?` outside quotes, and the text behind it. -/
def findPlaceholder (quote : Option UInt8) : Bytes → Option (Bytes × Bytes)
  | [] => none
  | c :: rest =>
    if quote = none ∧ c = placeholder then some ([], rest)
    else (findPlaceholder (nextQuote quote c) rest).map fun (front, post) => (c :: front, post)

/-- `allocated`: there is memory for the resolved text. -/
def applySingleParam (allocated : Bool) (sqlText paramValue : Bytes) : Except SqlError Bytes :=
  match findPlaceholder none sqlText with
  | none => .error (sqlSetError [ascii "--param was provided but no '?' placeholder was found"])
  | some (front, post) =>
    if allocated then .ok (front ++ (paramValue ++ post))
    else .error (sqlSetError [ascii "failed to allocate resolved query"])

/-- A script is refused before anything is executed, or executes this query only. -/
def OnlyExecutes (sqlText : Bytes) (query : Query) : Prop :=
  ∀ (σ : Type) (execute : Execute σ) (s : σ),
    (∃ e, executeSqlScript execute sqlText s = some (s, [], .error e)) ∨
    executeSqlScript execute sqlText s = runQueries execute (.ok ()) [query] s

/-- The text is written like an unquoted value. -/
def Plain (p : Bytes) : Prop :=
  p ≠ [] ∧ (∀ c ∈ p, isBareChar c = true) ∧ isQuote (peek p) = false

theorem findPlaceholder_spec {quote : Option UInt8} {text front post : Bytes}
    (h : findPlaceholder quote text = some (front, post)) : text = front ++ placeholder :: post := by
  induction text generalizing quote front with
  | nil => cases h
  | cons c text ih =>
    rw [findPlaceholder] at h
    split at h
    · rename_i hfound
      cases h
      rw [hfound.2]
      rfl
    · obtain ⟨⟨front', post'⟩, hrest, hpair⟩ := Option.map_eq_some_iff.mp h
      cases hpair
      rw [ih hrest]
      rfl

theorem onlyExecutes_iff {sqlText : Bytes} {query : Query} :
    OnlyExecutes sqlText query ↔
      (∃ e, scriptPlan sqlText = ([], .error e)) ∨ scriptPlan sqlText = ([query], .ok ()) := by
  constructor
  · intro h
    have hnoted := h _ note []
    rw [executeSqlScript_eq, runQueries_note, runQueries_note] at hnoted
    rcases hnoted with ⟨e, hnoted⟩ | hnoted
    · exact .inl ⟨e, by simpa [Prod.ext_iff] using hnoted⟩
    · exact .inr (by simpa [Prod.ext_iff] using hnoted)
  · rintro (⟨e, hplan⟩ | hplan) σ execute s
    · exact .inl ⟨e, by rw [executeSqlScript_eq, hplan]; rfl⟩
    · exact .inr (by rw [executeSqlScript_eq, hplan])

/-! ## The front of a template -/

theorem isQuote_iff {c : UInt8} : isQuote c = true ↔ c = singleQuote ∨ c = doubleQuote := by
  simp [isQuote]

/-- The statement around a placeholder that is a whole value. -/
theorem placeholder_apart {front post : Bytes} {t : Tree} (ht : t.Derives (front ++ placeholder :: post))
    (hspan : ([placeholder], post) ∈ t.spans) :
    ∃ (lead : Lead) (start ws : Bytes) (after : List Bytes), front = start ++ ws ∧ Spaces ws ∧
      (∀ cursor, lead.Reads (start ++ cursor) cursor) ∧ lead.Ends post after ∧
      ∀ p, t.fill post p = lead.query p after := by
  obtain ⟨lead, cursor, after, hreads, hvalue, hends, hfill⟩ := ht.apart hspan
  obtain ⟨start, hfront, hall⟩ := hreads.replace
  obtain ⟨ws, text, rfl, hws, htext⟩ := hvalue
  have hcut : front ++ [placeholder] = start ++ (ws ++ text) := by
    have hsame : (front ++ [placeholder]) ++ post = (start ++ (ws ++ text)) ++ post := by
      simpa using hfront
    exact List.append_cancel_right hsame
  refine ⟨lead, start, ws, after, ?_, hws, hall, hends, hfill⟩
  cases htext with
  | bare => simpa [← List.append_assoc] using hcut
  | quoted hquote =>
    rw [← List.append_assoc, ← List.append_assoc] at hcut
    obtain ⟨-, hlast⟩ := List.append_inj' hcut rfl
    rcases hquote with rfl | rfl <;> cases hlast

/-- Behind a value no quote follows. -/
theorem ends_not_quote {lead : Lead} {post : Bytes} {after : List Bytes} (hpost : 0 ∉ post)
    (h : lead.Ends post after) : isQuote (peek (skipWhitespace post)) = false := by
  have hsymbol : ∀ {c : UInt8} {rest : Bytes}, c ≠ 0 → isspace c = false → isQuote c = false →
      Symbol c post rest → isQuote (peek (skipWhitespace post)) = false := by
    intro c rest hc hspace hquote hsym
    rw [((symbol_iff hc hspace).mpr hsym).1]
    exact hquote
  cases lead with
  | select table column =>
    obtain ⟨-, semicolon, hend⟩ := h
    cases semicolon with
    | true =>
      obtain ⟨rest, hsemi, -⟩ := hend
      exact hsymbol (by decide) rfl rfl hsemi
    | false =>
      rw [(peek_skipWhitespace_eq_zero hpost).mpr hend]
      rfl
  | insert table before =>
    obtain ⟨closed, semicolon, hfrom, -⟩ := h
    cases hfrom with
    | close hclose => exact hsymbol (by decide) rfl rfl hclose
    | more hmark _ => exact hsymbol (by decide) rfl rfl hmark

/-! ## The parameter as a value -/

theorem Plain.value {p ws post : Bytes} (h : Plain p) (hp : 0 ∉ p) (hws : Spaces ws) :
    Value (ws ++ (p ++ post)) p post := by
  obtain ⟨hne, hbare, hquote⟩ := h
  refine ⟨ws, p, by simp, hws, .bare hne ?_ ?_⟩
  · intro c hc
    exact (isBareChar_iff fun hzero => hp (hzero ▸ hc)).mp (hbare c hc)
  · have hnot := mt isQuote_iff.mpr (Bool.eq_false_iff.mp hquote)
    exact not_or.mp hnot

theorem peek_skip_append {p : Bytes} (h : ¬ Spaces p) (post : Bytes) :
    peek (skipWhitespace (p ++ post)) = peek (skipWhitespace p) ∧ peek (skipWhitespace p) ∈ p := by
  have hne : skipWhitespace p ≠ [] := fun hnil => h (List.dropWhile_eq_nil_iff.mp hnil)
  have happend : skipWhitespace (p ++ post) = skipWhitespace p ++ post := by
    rw [skipWhitespace, List.dropWhile_append, if_neg (by rwa [List.isEmpty_iff])]
    rfl
  constructor
  · rw [happend, ← peek_append hne [] post, List.append_nil]
  · exact (List.dropWhile_suffix isspace).subset (peek_mem hne)

/-- A parameter that is read as itself is read as an unquoted value: for a quoted one
its first byte would have to be the quote. -/
theorem plain_of_value {p ws post text tail rest : Bytes} (hp : 0 ∉ p) (hws : Spaces ws)
    (hpost : isQuote (peek (skipWhitespace post)) = false) (htext : p ++ post = text ++ tail)
    (h : Value (ws ++ text) p rest) : Plain p := by
  obtain ⟨ws', token, heq, hws', htoken⟩ := h
  cases htoken with
  | bare hne hfree hquote =>
    refine ⟨hne, fun c hc => ?_, ?_⟩
    · exact (isBareChar_iff fun hzero => hp (hzero ▸ hc)).mpr (hfree c hc)
    · exact Bool.eq_false_iff.mpr (mt isQuote_iff.mp (not_or.mpr hquote))
  | @quoted q _ hquote _ hinside =>
    exfalso
    have hfirst : peek (skipWhitespace (p ++ post)) = q := by
      have hskip : skipWhitespace (ws ++ (p ++ post)) = skipWhitespace (p ++ post) :=
        List.dropWhile_append_of_pos hws
      have hall : ws ++ (p ++ post) = ws' ++ (q :: (p ++ [q] ++ rest ++ tail)) := by
        rw [htext, ← List.append_assoc, heq]
        simp
      rw [← hskip, hall, skipWhitespace_append hws' (by exact isspace_quote hquote)]
      rfl
    by_cases hblank : Spaces p
    · have hskip : skipWhitespace (p ++ post) = skipWhitespace post :=
        List.dropWhile_append_of_pos hblank
      rw [← hskip, hfirst, isQuote_iff.mpr hquote] at hpost
      cases hpost
    · obtain ⟨hsame, hmem⟩ := peek_skip_append hblank post
      rw [← hsame, hfirst] at hmem
      exact hinside hmem

/-! ## The first piece -/

theorem firstPiece_cons {c : UInt8} (hquote : isQuote c = false) (hhyphen : c ≠ hyphen)
    (hsemi : c ≠ semicolon) (text : Bytes) : firstPiece (c :: text) = c :: firstPiece text := by
  have hstarts : startsComment c text = false := by simp [startsComment, hhyphen]
  have hstrip : stripLineComments .code (c :: text) = c :: stripLineComments .code text := by
    simp [stripLineComments, Scan.keep, Scan.next, hquote, hstarts]
  have hnext : nextQuote none c = none := by simp [nextQuote, hquote]
  rw [firstPiece, hstrip, cut, if_neg fun hbreak => hsemi hbreak.2, hnext]
  rfl

theorem ordinary_byte {c : UInt8} : isspace c = true ∨ isIdentifierChar c = true →
    isQuote c = false ∧ c ≠ hyphen ∧ c ≠ semicolon :=
  forall_byte (p := fun c => isspace c = true ∨ isIdentifierChar c = true →
    isQuote c = false ∧ c ≠ hyphen ∧ c ≠ semicolon) (by decide +kernel) c

theorem firstPiece_nonblank {ws : Bytes} {c : UInt8} (hws : Spaces ws)
    (hc : isIdentifierChar c = true) (text : Bytes) : ¬ Spaces (firstPiece (ws ++ c :: text)) := by
  have hmem : c ∈ firstPiece (ws ++ c :: text) := by
    induction ws with
    | nil =>
      obtain ⟨hquote, hhyphen, hsemi⟩ := ordinary_byte (.inr hc)
      rw [List.nil_append, firstPiece_cons hquote hhyphen hsemi]
      exact List.mem_cons_self
    | cons d ws ih =>
      obtain ⟨hd, hws⟩ := List.forall_mem_cons.mp hws
      obtain ⟨hquote, hhyphen, hsemi⟩ := ordinary_byte (.inl hd)
      rw [List.cons_append, firstPiece_cons hquote hhyphen hsemi]
      exact List.mem_cons_of_mem d (ih hws)
  intro hblank
  have hspace := hblank c hmem
  rw [isspace_of_isIdentifierChar c hc] at hspace
  cases hspace

/-- The front of a template begins with a letter of its keyword. -/
theorem front_first {front post : Bytes} {t : Tree} (ht : t.Derives (front ++ placeholder :: post)) :
    ∃ ws c more, front = ws ++ c :: more ∧ Spaces ws ∧ isIdentifierChar c = true := by
  have hfirst := ht.first
  have hblank : ¬ Spaces front := by
    intro hspaces
    rw [skipWhitespace_append hspaces rfl] at hfirst
    cases hfirst
  obtain ⟨ws, hws, hfront, -⟩ := skipWhitespace_spec front
  rw [(peek_skip_append hblank _).1] at hfirst
  cases hskip : skipWhitespace front with
  | nil =>
    rw [hskip] at hfirst
    cases hfirst
  | cons c more =>
    rw [hskip] at hfront hfirst
    exact ⟨ws, c, more, hfront, hws, hfirst⟩

theorem plan_nil {pieces : List Bytes} (hnul : ∀ piece ∈ pieces, 0 ∉ piece) {executedAny : Bool}
    (h : plan executedAny pieces = ([], .ok ())) : ∀ piece ∈ pieces, Spaces piece := by
  induction pieces generalizing executedAny with
  | nil => exact List.forall_mem_nil _
  | cons piece pieces ih =>
    obtain ⟨hpiece, hrest⟩ := List.forall_mem_cons.mp hnul
    by_cases hblank : Spaces piece
    · rw [plan_blank hblank] at h
      exact List.forall_mem_cons.mpr ⟨hblank, ih hrest h⟩
    · obtain ⟨query, hquery⟩ := plan_ok hpiece hblank (congrArg Prod.snd h)
      rw [plan_accepted hpiece hquery] at h
      cases h

/-! ## What a resolved text executes -/

theorem hyphens_query (lead : Lead) (p : Bytes) (after : List Bytes) :
    (lead.query p after).hyphens = p.count hyphen + (lead.query [] after).hyphens := by
  cases lead with
  | select table column => simp [Lead.query, Query.hyphens]
  | insert table before =>
    simp only [Lead.query, Query.hyphens, List.map_append, List.map_cons, List.sum_append,
      List.sum_cons, List.count_nil]
    omega

theorem applySingleParam_spec {allocated : Bool} {template p resolved front post : Bytes}
    (hplace : findPlaceholder none template = some (front, post))
    (h : applySingleParam allocated template p = .ok resolved) : resolved = front ++ (p ++ post) := by
  rw [applySingleParam, hplace] at h
  cases allocated with
  | true => exact (Except.ok.inj h).symm
  | false => cases h

/-- A piece that is a statement goes on behind the front, or the template would end in
it. -/
theorem piece_behind_front {front rest post : Bytes} {t : Tree} {query : Query}
    (hnul : 0 ∉ front ++ placeholder :: post) (ht : t.Derives (front ++ placeholder :: post))
    (haccepts : Accepts (cut none (front ++ rest)).1 query) :
    ∃ text tail, (cut none (front ++ rest)).1 = front ++ text ∧ rest = text ++ tail := by
  rcases cut_cases none (front ++ rest) with hone | ⟨later, heq, -, -⟩
  · exact ⟨rest, [], by rw [hone], by simp⟩
  · generalize (cut none (front ++ rest)).1 = piece at heq haccepts ⊢
    rcases List.append_eq_append_iff.mp heq with ⟨text, hpiece, htext⟩ | ⟨more, rfl, hmore⟩
    · exact ⟨text, _, hpiece, htext⟩
    · cases more with
      | nil => exact ⟨[], rest, by simp, rfl⟩
      | cons c more =>
        obtain ⟨rfl, -⟩ := List.cons.inj hmore
        rw [List.append_assoc, List.cons_append] at hnul ht
        have hspaces := Accepts.continued hnul haccepts ⟨t, ht, rfl⟩
        cases hspaces placeholder (by simp)

section Resolved

variable {front p post : Bytes} {t : Tree} (ht : t.Derives (front ++ placeholder :: post))
  (hspan : ([placeholder], post) ∈ t.spans) (hnul : 0 ∉ front ++ (p ++ post))
include ht

theorem resolved_nonblank (p : Bytes) : ¬ Spaces (firstPiece (front ++ (p ++ post))) := by
  obtain ⟨ws, c, more, rfl, hws, hc⟩ := front_first ht
  rw [List.append_assoc]
  exact firstPiece_nonblank hws hc _

theorem plan_of_refused (hnul : 0 ∉ front ++ (p ++ post))
    (h : ∀ query, ¬ Accepts (firstPiece (front ++ (p ++ post))) query) :
    scriptPlan (front ++ (p ++ post)) = ([], .error unsupported) := by
  have hfree := pieces_nulFree (strip_nulFree hnul .code) none _ List.mem_cons_self
  exact plan_refused hfree (resolved_nonblank ht p) h _

include hspan

/-- The resolved text has the hyphens of the query it is meant to stand for. -/
theorem resolved_hyphens (p : Bytes) :
    (front ++ (p ++ post)).count hyphen = (t.fill post p).hyphens := by
  obtain ⟨lead, start, ws, after, hfront, hws, hreads, hends, hfill⟩ := placeholder_apart ht hspan
  have hmark : Plain [placeholder] := ⟨by simp, by decide +kernel, rfl⟩
  have htemplate : Accepts (front ++ placeholder :: post) (lead.query [placeholder] after) := by
    rw [hfront, List.append_assoc]
    exact (hreads _).accepts (hmark.value (by decide) hws) hends
  have hcount := htemplate.count_hyphen
  have hnone : [placeholder].count hyphen = 0 := rfl
  rw [hyphens_query, List.count_append, List.count_cons_of_ne (by decide)] at hcount
  rw [hfill, hyphens_query, List.count_append, List.count_append]
  omega

include hnul

theorem plan_of_plain (hplain : Plain p) (hwhole : Whole (front ++ (p ++ post))) :
    scriptPlan (front ++ (p ++ post)) = ([t.fill post p], .ok ()) := by
  obtain ⟨lead, start, ws, after, hfront, hws, hreads, hends, hfill⟩ := placeholder_apart ht hspan
  have hp : 0 ∉ p := fun hmem => hnul (by simp [hmem])
  have haccepts : Accepts (front ++ (p ++ post)) (t.fill post p) := by
    rw [hfill, hfront, List.append_assoc]
    exact (hreads _).accepts (hplain.value hp hws) hends
  have hplan := plan_uncut hnul haccepts hwhole.uncut false []
  rw [List.append_nil] at hplan
  rw [scriptPlan, hwhole.uncommented, hplan]
  rfl

/-- If the query of the template with the parameter is executed, the scans see the
text as it is. -/
theorem whole_of_plan (hplan : scriptPlan (front ++ (p ++ post)) = ([t.fill post p], .ok ())) :
    Whole (front ++ (p ++ post)) ∧ Accepts (cut none (front ++ (p ++ post))).1 (t.fill post p) := by
  have hhyphens : (front ++ (p ++ post)).count hyphen = ([t.fill post p].map Query.hyphens).sum := by
    simpa using resolved_hyphens ht hspan p
  have hstrip := strip_of_plan hnul (congrArg Prod.fst hplan) hhyphens
  have hblank := resolved_nonblank ht p
  rw [firstPiece, hstrip] at hblank
  rw [scriptPlan, hstrip, pieces] at hplan
  have hpieces := pieces_nulFree hnul none
  rw [pieces] at hpieces
  obtain ⟨hfirst, hrest⟩ := List.forall_mem_cons.mp hpieces
  obtain ⟨query, hquery⟩ := plan_ok hfirst hblank (congrArg Prod.snd hplan)
  rw [plan_accepted hfirst hquery] at hplan
  obtain ⟨hqueries, hlast⟩ := Prod.mk.inj hplan
  obtain ⟨rfl, hnone⟩ := List.cons.inj hqueries
  exact ⟨⟨hstrip, plan_nil hrest (Prod.ext hnone hlast)⟩, hquery⟩

theorem plain_of_plan (hplan : scriptPlan (front ++ (p ++ post)) = ([t.fill post p], .ok ())) :
    Plain p := by
  obtain ⟨lead, start, ws, after, hfront, hws, hreads, hends, hfill⟩ := placeholder_apart ht hspan
  obtain ⟨hwhole, hfirst⟩ := whole_of_plan ht hspan hnul hplan
  have hp : 0 ∉ p := fun hmem => hnul (by simp [hmem])
  have hpost : 0 ∉ post := fun hmem => hnul (by simp [hmem])
  have hfree := pieces_nulFree hnul none _ List.mem_cons_self
  have htemplate : 0 ∉ front ++ placeholder :: post := by
    have hfreeFront : 0 ∉ front := fun hmem => hnul (by simp [hmem])
    simp [hfreeFront, hpost, placeholder]
  obtain ⟨text, tail, hpiece, htext⟩ := piece_behind_front htemplate ht hfirst
  rw [hpiece] at hfirst hfree
  rw [hfill] at hfirst
  rw [hfront, List.append_assoc] at hfirst hfree
  obtain ⟨rest, hvalue⟩ := (hreads _).value hfree hfirst
  exact plain_of_value hp hws (ends_not_quote hpost hends) htext hvalue

end Resolved

/-- **A parameter is confined to its value** exactly when the resolved text is refused
or the parameter is written like an unquoted value and the scans see the text as it
is. -/
theorem parameter_confined_iff {template p resolved front post : Bytes} {t : Tree} {allocated : Bool}
    (hnul : 0 ∉ template) (hp : 0 ∉ p) (ht : t.Derives template)
    (hplace : findPlaceholder none template = some (front, post))
    (hspan : ([placeholder], post) ∈ t.spans)
    (hresolved : applySingleParam allocated template p = .ok resolved) :
    OnlyExecutes resolved (t.fill post p) ↔
      (∀ query, ¬ Accepts (firstPiece resolved) query) ∨ (Plain p ∧ Whole resolved) := by
  obtain rfl := findPlaceholder_spec hplace
  obtain rfl := applySingleParam_spec hplace hresolved
  have hfree : 0 ∉ front ++ (p ++ post) := by
    simp only [List.mem_append, List.mem_cons, not_or] at hnul ⊢
    exact ⟨hnul.1, hp, hnul.2.2⟩
  rw [onlyExecutes_iff]
  constructor
  · rintro (⟨e, hplan⟩ | hplan)
    · left
      intro query hquery
      have hpiece := pieces_nulFree (strip_nulFree hfree .code) none _ List.mem_cons_self
      rw [scriptPlan, pieces, plan_accepted hpiece hquery] at hplan
      cases hplan
    · exact .inr ⟨plain_of_plan ht hspan hfree hplan, (whole_of_plan ht hspan hfree hplan).1⟩
  · rintro (hrefused | ⟨hplain, hwhole⟩)
    · exact .inl ⟨unsupported, plan_of_refused ht hfree hrefused⟩
    · exact .inr (plan_of_plain ht hspan hfree hplain hwhole)

/-- The tree of a template with its condition's value left open. -/
def keyTemplate : Tree :=
  .select ⟨ascii " * from t where id = ?", ascii " from t where id = ?", ascii " t where id = ?",
    ascii "t", ascii " where id = ?",
    some ⟨ascii " id = ?", ascii "id", ascii " = ?", ascii " ?", ascii "?", []⟩, false⟩

theorem keyTemplate_derives : keyTemplate.Derives (ascii "select * from t where id = ?") := by
  have hnone : Spaces [] := List.forall_mem_nil _
  have hblank : Spaces [blank] := by simp [Spaces, isspace, blank]
  refine ⟨⟨[], ascii "select", by decide, hnone, by decide, by decide⟩, ⟨[blank], by decide, hblank⟩,
    ⟨[blank], ascii "from", by decide, hblank, by decide, by decide⟩,
    ⟨[blank], by decide, hblank, by decide, by decide +kernel, by decide⟩, ⟨?_, ?_, ?_, ?_⟩, hnone⟩
  · exact ⟨[blank], ascii "where", by decide, hblank, by decide, by decide⟩
  · exact ⟨[blank], by decide, hblank, by decide, by decide +kernel, by decide⟩
  · exact ⟨[blank], by decide, hblank⟩
  · exact ⟨[blank], ascii "?", by decide, hblank, .bare (by decide) (by decide +kernel) (by decide)⟩

theorem parameter_confined_key :
    OnlyExecutes (ascii "select * from t where id = 7")
      ⟨.select, some (ascii "t"), [], some ⟨ascii "id", ascii "7"⟩⟩ := by
  have hiff := parameter_confined_iff (p := ascii "7") (by decide +kernel) (by decide +kernel)
    keyTemplate_derives (show _ = some (ascii "select * from t where id = ", []) by decide +kernel)
    (List.mem_singleton.mpr rfl)
    (show applySingleParam true _ _ = .ok (ascii "select * from t where id = 7") by decide +kernel)
  refine hiff.mpr (.inr ⟨⟨by decide, by decide +kernel, by decide⟩, by decide +kernel, ?_⟩)
  simp only [Spaces]
  decide +kernel

/-- A parameter that ends the statement and begins another one. -/
theorem parameter_adds_statement :
    let template := ascii "insert into t values (1, ?)"
    let resolved := ascii "insert into t values (1, a); insert into t values (2, b)"
    parseSqlText template .zero =
      (⟨.insert, some (ascii "t"), [ascii "1", [placeholder]], none⟩, .ok ()) ∧
    applySingleParam true template (ascii "a); insert into t values (2, b") = .ok resolved ∧
    executeSqlScript note resolved [] =
      some ([⟨.insert, some (ascii "t"), [ascii "1", ascii "a"], none⟩,
        ⟨.insert, some (ascii "t"), [ascii "2", ascii "b"], none⟩], [], .ok ()) := by
  decide +kernel

end MiniSql.Runtime
