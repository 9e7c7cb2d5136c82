import MiniSql.Query.Grammar
import MiniSql.Query.Reachable
import MiniSql.Server.RequestHandler

/-!
# The lock that a request takes

The classifier and the parser read the first keyword of a text each in its own
way. Where the parser accepts, the classifier sees the same keyword: nothing
but whitespace stands before it, and one case of its letters determines the
other. So an INSERT is executed under the write lock only.
-/

namespace MiniSql.Server

open Index Query

/-! ## The first keyword -/

theorem toupper_tolower (c : UInt8) : toupper (tolower c) = toupper c :=
  forall_byte (p := fun c => toupper (tolower c) = toupper c) (by decide +kernel) c

theorem not_prefix_of_isIdentifierChar (c : UInt8) :
    isIdentifierChar c = true → c ≠ hyphen ∧ c ≠ semicolon :=
  forall_byte (p := fun c => isIdentifierChar c = true → c ≠ hyphen ∧ c ≠ semicolon)
    (by decide +kernel) c

theorem matchesKeyword_letters {letters word rest : Bytes} (hl : letters.map tolower = word) :
    matchesKeyword (letters ++ rest) (word.map toupper) = !isIdentifierChar (peek rest) := by
  subst hl
  induction letters with
  | nil => rfl
  | cons c letters ih =>
    rw [List.map_cons, List.map_cons, toupper_tolower, List.cons_append, matchesKeyword]
    simpa [peek] using ih

theorem matchesKeyword_first {text keyword : Bytes} {k : UInt8}
    (h : matchesKeyword text (k :: keyword) = true) : toupper (peek text) = k := by
  rw [matchesKeyword] at h
  by_contra hk
  rw [if_pos hk] at h
  cases h

/-- The prefix that the classifier skips is only whitespace where a keyword
follows. -/
theorem skipSqlPrefix_keyword {word s rest : Bytes} (hword : IsWord word) (h : Keyword word s rest) :
    ∃ letters, skipSqlPrefix s = letters ++ rest ∧ letters.map tolower = word ∧
      isIdentifierChar (peek rest) = false := by
  obtain ⟨ws, letters, rfl, hws, hlow, hend⟩ := h
  refine ⟨letters, ?_, hlow, hend⟩
  have hskip : (ws ++ letters ++ rest).dropWhile isspace = letters ++ rest := by
    rw [List.append_assoc]
    exact skipWhitespace_append hws (isspace_letters hword hlow)
  cases letters with
  | nil => exact absurd hlow.symm hword.nonempty
  | cons c letters =>
    have hc : isIdentifierChar c = true := by
      rw [← isIdentifierChar_tolower]
      exact List.all_eq_true.mp hword.ident _ (by simp [← hlow])
    obtain ⟨hdash, hsemi⟩ := not_prefix_of_isIdentifierChar c hc
    rw [skipSqlPrefix]
    split
    · rename_i hnil
      rw [hskip] at hnil
      cases hnil
    · rename_i d tail hcons
      rw [hskip] at hcons
      simp only [List.cons_append, List.cons.injEq] at hcons
      obtain ⟨rfl, rfl⟩ := hcons
      simp [hdash, hsemi]

/-- The classifier is past its prefix at the keyword that the parser matches. -/
theorem matchesKeyword_keyword {word s rest : Bytes} (hword : IsWord word)
    (h : Keyword word s rest) :
    skipSqlPrefix s ≠ [] ∧ matchesKeyword (skipSqlPrefix s) (word.map toupper) = true := by
  obtain ⟨letters, hskip, hlow, hend⟩ := skipSqlPrefix_keyword hword h
  constructor
  · intro hnil
    rw [hskip] at hnil
    have hletters : letters = [] := (List.append_eq_nil_iff.mp hnil).1
    subst hletters
    exact hword.nonempty hlow.symm
  · rw [hskip, matchesKeyword_letters hlow, hend]
    rfl

theorem classify_select {s rest : Bytes} (h : Keyword (ascii "select") s rest) :
    sqlServiceClassifyOperation s = .ok .read := by
  obtain ⟨hne, hselect⟩ := matchesKeyword_keyword (by decide) h
  rw [show (ascii "select").map toupper = ascii "SELECT" by decide] at hselect
  rw [sqlServiceClassifyOperation]
  simp only [hne, hselect, if_true, if_false]

theorem classify_insert {s rest : Bytes} (h : Keyword (ascii "insert") s rest) :
    sqlServiceClassifyOperation s = .ok .write := by
  obtain ⟨hne, hinsert⟩ := matchesKeyword_keyword (by decide) h
  rw [show (ascii "insert").map toupper = ascii "INSERT" by decide] at hinsert
  -- One text cannot begin with both keywords: their first letters differ.
  have hselect : matchesKeyword (skipSqlPrefix s) (ascii "SELECT") = false := by
    cases hs : matchesKeyword (skipSqlPrefix s) (ascii "SELECT") with
    | false => rfl
    | true =>
      have hi : toupper (peek (skipSqlPrefix s)) = 0x49 := matchesKeyword_first hinsert
      have hs : toupper (peek (skipSqlPrefix s)) = 0x53 := matchesKeyword_first hs
      exact absurd (hi.symm.trans hs) (by decide)
  rw [sqlServiceClassifyOperation]
  simp only [hne, hselect, hinsert, if_true, if_false, Bool.false_eq_true]

theorem classify_parsed {sqlText : Bytes} (hs : 0 ∉ sqlText) {query₀ query : Query}
    (h : parseSqlText sqlText query₀ = (query, .ok ())) :
    sqlServiceClassifyOperation sqlText =
      .ok (if query.type = .insert then .write else .read) := by
  obtain ⟨t, ht⟩ := parseSqlText_sound hs (congrArg Prod.snd h)
  have hquery : t.query = query := congrArg Prod.fst ((ht.parseSqlText hs query₀).symm.trans h)
  subst hquery
  cases t with
  | select t => exact classify_select ht.1
  | insert t => exact classify_insert ht.1

/-! ## Requests under the read lock -/

theorem buildSelectPayload_got {query : Query} {db db' : Db} {out : Except SqlError Bytes}
    (h : buildSelectPayload query db = some (db', out)) : ∃ got, Got db db' got := by
  unfold buildSelectPayload at h
  split at h
  · cases h
  · rename_i hget
    cases h
    exact ⟨_, dbContextGetTable_got hget⟩
  · rename_i hget
    split at h
    · cases h
    · split at h
      · cases h
      · cases h
        exact ⟨_, dbContextGetTable_got hget⟩
      · cases h
        exact ⟨_, dbContextGetTable_got hget⟩

theorem HttpRequest.sqlText_nulFree (request : HttpRequest) : 0 ∉ request.sqlText := cString_nulFree _

theorem requestOperation_classify {request : HttpRequest} {operation : SqlOperationKind}
    (h : requestOperation request = .ok operation) :
    sqlServiceClassifyOperation request.sqlText = .ok operation := by
  unfold requestOperation at h
  split at h
  · cases h
  · split at h
    · cases h
    · split at h
      · cases h
      · split at h
        · cases h
        · cases h
        · rename_i hclass
          cases h
          exact hclass

theorem sqlServiceExecute_read {sqlText : Bytes} (hs : 0 ∉ sqlText)
    (hread : sqlServiceClassifyOperation sqlText = .ok .read) {db db' : Db}
    {result : SqlServiceResult} (h : sqlServiceExecute sqlText db = some (db', result)) :
    db' = db ∨ ∃ got, Got db db' got := by
  unfold sqlServiceExecute at h
  split at h
  · cases h
    exact .inl rfl
  · rename_i query u hparse
    rw [classify_parsed hs hparse] at hread
    split at h
    · obtain ⟨⟨db₁, out⟩, hbuild, heq⟩ := Option.map_eq_some_iff.mp h
      cases heq
      exact .inr (buildSelectPayload_got hbuild)
    · rename_i hinsert
      rw [if_pos hinsert] at hread
      cases hread

theorem requestHandlerHandle_read {request : HttpRequest}
    (hread : requestOperation request = .ok .read) {db db' : Db} {response : HttpResponse}
    (h : requestHandlerHandle request db = some (db', response)) :
    db'.disk = db.disk ∧ db.ctx.tables <+: db'.ctx.tables := by
  have hclass := requestOperation_classify hread
  simp only [requestHandlerHandle, hread] at h
  obtain ⟨⟨db₁, result⟩, hrun, heq⟩ := Option.map_eq_some_iff.mp h
  cases heq
  rcases sqlServiceExecute_read request.sqlText_nulFree hclass hrun with hsame | ⟨got, hgot⟩
  · cases hsame
    exact ⟨rfl, List.prefix_rfl⟩
  · exact hgot.grows

/-- **The lock choice agrees with the execution.** A text that parses as an
INSERT is classified as a write and one that parses as a SELECT as a read, and
what the classifier refuses the parser refuses. A request that runs under the
read lock leaves every table file and every loaded table as it is; it may only
load further tables. -/
theorem lock_choice_agrees (sqlText : Bytes) (hs : 0 ∉ sqlText) :
    (∀ query₀ query, parseSqlText sqlText query₀ = (query, .ok ()) →
      (query.type = .insert → sqlServiceClassifyOperation sqlText = .ok .write) ∧
      (query.type = .select → sqlServiceClassifyOperation sqlText = .ok .read)) ∧
    (∀ query₀ e, sqlServiceClassifyOperation sqlText = .error e →
      ∃ query e', parseSqlText sqlText query₀ = (query, .error e')) ∧
    (∀ request db db' response, requestOperation request = .ok .read →
      requestHandlerHandle request db = some (db', response) →
      db'.disk = db.disk ∧ db.ctx.tables <+: db'.ctx.tables) := by
  refine ⟨?_, ?_, ?_⟩
  · intro query₀ query hparse
    have hclass := classify_parsed hs hparse
    constructor
    · intro htype
      rw [hclass, if_pos htype]
    · intro htype
      rw [hclass, htype]
      rfl
  · intro query₀ e hrefused
    cases hparse : parseSqlText sqlText query₀ with
    | mk query out =>
      cases out with
      | error e' => exact ⟨query, e', rfl⟩
      | ok u => simp [classify_parsed hs hparse] at hrefused
  · intro request db db' response hread hrun
    exact requestHandlerHandle_read hread hrun

theorem lock_choice_agrees_insert :
    sqlServiceClassifyOperation (ascii " Insert into users values (1)") = .ok .write :=
  (((lock_choice_agrees (ascii " Insert into users values (1)") (by decide)).1 .zero
    ⟨.insert, some (ascii "users"), [ascii "1"], none⟩ (by decide +kernel)).1 rfl)

end MiniSql.Server
