import MiniSql.Query.ParserMemory

/-!
# The memory of a parse

The loop over the values of an INSERT with the array it grows, `parse_insert`, and
`parse_sql_text` as a whole.
-/

namespace MiniSql.Query

open Alloc

section

variable {grants : Nat → Bool} {kept : Multiset Nat}

/-! ## The values of an INSERT -/

theorem parseValues_error {cursor : Bytes} {e : SqlError} (h : parseValue cursor = .error e) :
    parseValues cursor = .error e := by
  rw [parseValues]
  split
  · rename_i e' hvalue
    rw [h] at hvalue
    cases hvalue
    rfl
  · rename_i hvalue
    rw [h] at hvalue
    cases hvalue

/-- The loop adds the values of the plain loop to the array. -/
def Extended (array : Vec (Boxed Bytes)) (kept : Multiset Nat) (out : Vec (Boxed Bytes) × Bytes)
    (plain : List Bytes × Bytes) (owned : Multiset Nat) : Prop :=
  out.2 = plain.2 ∧ owned = out.1.blocks Boxed.blocks + kept ∧ out.1.Sound ∧
    out.1.cells.map Boxed.content = array.cells.map Boxed.content ++ plain.1

theorem parseValuesAlloc_runs {array : Vec (Boxed Bytes)} (h : array.Sound) (cursor : Bytes) :
    Runs (array.blocks Boxed.blocks + kept) (parseValuesAlloc grants array cursor)
      (Follows grants (parseValues cursor) kept (Extended array kept)) := by
  induction hlength : cursor.length using Nat.strongRecOn generalizing array cursor with
  | ind length ih =>
    subst hlength
    rw [parseValuesAlloc]
    apply (parseValueAlloc_runs cursor).bind
    intro out owned hout
    cases out with
    | error e =>
      obtain ⟨rfl, hplain⟩ := hout
      apply (Vec.free_runs h (.refl _) fun cell _ _ => freeBox_runs cell).seq
      exact Runs.pure ⟨rfl, hplain.imp_left parseValues_error⟩
    | ok out =>
      obtain ⟨value, rest, hshort⟩ := out
      obtain ⟨text, hplain, rfl, rfl⟩ := hout
      dsimp only
      rw [parseValues_cons hplain, add_left_comm]
      apply (Vec.grow_runs grants (by decide) h).bind
      intro grown owned hgrown
      cases grown with
      | none =>
        obtain ⟨rfl, hrefuses⟩ := hgrown
        rw [add_left_comm]
        apply (freeBox_runs value).seq
        apply (Vec.free_runs h (.refl _) fun cell _ _ => freeBox_runs cell).seq
        exact Runs.pure ⟨rfl, .inr hrefuses⟩
      | some grown =>
        obtain ⟨rfl, hsound, hcells, hroom⟩ := hgrown
        rw [add_left_comm]
        apply (Vec.push_runs hsound hroom value).bind
        rintro pushed owned ⟨rfl, hpushed, hpushedCells⟩
        have hcontents : pushed.cells.map Boxed.content =
            array.cells.map Boxed.content ++ [value.content] := by
          rw [hpushedCells, hcells, List.map_append, List.map_singleton]
        dsimp only
        split
        · have hskip : (skipWhitespace rest).length ≤ rest.length := length_dropWhile_le isspace rest
          refine (ih _ ?_ hpushed _ rfl).mono ?_
          · simp only [List.length_drop]
            omega
          · intro out owned hout
            cases out with
            | error e =>
              refine ⟨hout.1, hout.2.imp_left fun hrest => ?_⟩
              simp only [hrest]
            | ok out =>
              obtain ⟨⟨values, last⟩, hrest, rfl, howned, hout, hvalues⟩ := hout
              refine ⟨(value.content :: values, out.2), ?_, rfl, howned, hout, ?_⟩
              · simp only [hrest]
              · rw [hvalues, hcontents, List.append_assoc, List.singleton_append]
        · split
          · exact Runs.pure ⟨_, rfl, rfl, rfl, hpushed, hcontents⟩
          · apply (Vec.free_runs hpushed (List.reverse_perm _) fun cell _ _ => freeBox_runs cell).seq
            exact Runs.pure ⟨rfl, .inl rfl⟩

theorem parseInsertAlloc_runs (sql : Bytes) :
    Runs 0 (parseInsertAlloc grants sql .zero) (Parsed grants (parseInsert sql .zero)) := by
  unfold parseInsertAlloc parseInsert
  cases matchKeyword sql (ascii "insert") with
  | none => exact Runs.pure (parsed_zero grants _)
  | some cursor =>
    dsimp only
    cases matchKeyword cursor (ascii "into") with
    | none => exact Runs.pure (parsed_zero grants _)
    | some cursor =>
      apply (parseIdentifierAlloc_runs cursor).bind
      intro out owned hout
      cases out with
      | error e =>
        obtain ⟨rfl, hplain⟩ := hout
        refine Runs.pure ⟨rfl, QueryRecord.zero_sound, ?_, fun _ _ => rfl⟩
        refine hplain.imp (fun hplain => ?_) fun hrefuses => ⟨hrefuses, e, rfl⟩
        simp only [hplain]
        rfl
      | ok out =>
        obtain ⟨table, cursor⟩ := out
        obtain ⟨text, hplain, rfl, rfl⟩ := hout
        simp only [hplain]
        cases matchKeyword cursor (ascii "values") with
        | none => exact Runs.pure ⟨rfl, tableName_sound table, .inl rfl, fun _ _ => rfl⟩
        | some cursor =>
          dsimp only
          split
          · exact Runs.pure ⟨rfl, tableName_sound table, .inl rfl, fun _ _ => rfl⟩
          · have hblocks : (Vec.empty : Vec (Boxed Bytes)).blocks Boxed.blocks + ({table.block} + 0) =
                {table.block} + 0 := zero_add _
            rw [← hblocks]
            apply (parseValuesAlloc_runs Vec.empty_sound _).bind
            intro out owned hout
            cases out with
            | error e =>
              obtain ⟨rfl, hvalues⟩ := hout
              refine Runs.pure ⟨rfl, tableName_sound table, ?_, fun _ _ => rfl⟩
              refine hvalues.imp (fun hvalues => ?_) fun hrefuses => ⟨hrefuses, e, rfl⟩
              simp only [hvalues]
              rfl
            | ok out =>
              obtain ⟨array, cursor⟩ := out
              obtain ⟨⟨values, rest⟩, hvalues, rfl, rfl, hsound, hcontents⟩ := hout
              simp only [hvalues]
              split
              · refine Runs.pure ⟨?_, ⟨hsound.cells_null, fun _ => ⟨rfl, rfl⟩⟩, .inl ?_,
                  fun e he => by cases he⟩
                · simp only [QueryRecord.blocks, QueryRecord.zero, Vec.blocks, Option.map_some,
                    Option.map_none, blockOf]
                  abel
                · simp only [QueryRecord.query, hcontents]
                  rfl
              · apply (Vec.free_runs hsound (List.reverse_perm _) fun cell _ _ => freeBox_runs cell).seq
                exact Runs.pure ⟨rfl, tableName_sound table, .inl rfl, fun _ _ => rfl⟩

/-! ## The whole parser -/

/-- The two keywords differ in their first letter. -/
theorem insert_not_select {sql rest : Bytes} (h : matchKeyword sql (ascii "select") = some rest) :
    matchKeyword sql (ascii "insert") = none := by
  have hselect : ascii "select" = 0x73 :: ascii "elect" := by decide
  have hinsert : ascii "insert" = 0x69 :: ascii "nsert" := by decide
  rw [matchKeyword, hselect] at h
  rw [matchKeyword, hinsert]
  generalize skipWhitespace sql = start at h ⊢
  cases start with
  | nil => rfl
  | cons c scan =>
    simp only [matchLetters] at h ⊢
    by_cases hc : tolower c = tolower 0x73
    · rw [if_neg (by rw [hc]; decide)]
    · rw [if_neg hc] at h
      cases h

theorem parseInsert_of_select {sql : Bytes} {query : Query}
    (h : parseSelect sql .zero = (query, .ok ())) : ∃ e, (parseInsert sql .zero).2 = .error e := by
  cases hselect : matchKeyword sql (ascii "select") with
  | none => simp only [parseSelect, hselect, Prod.mk.injEq, reduceCtorEq, and_false] at h
  | some rest => exact ⟨_, by rw [parseInsert, insert_not_select hselect]⟩

/-- Only a SELECT that is accepted is typed as one. -/
theorem parseSelect_untyped (sql : Bytes) :
    (parseSelect sql .zero).2 = .ok () ∨ freeQuery (parseSelect sql .zero).1 = .zero := by
  fun_cases parseSelect sql .zero with
  | case7 _ _ _ _ _ _ _ _ _ _ condition => cases condition <;> exact .inr rfl
  | case6 => exact .inl rfl
  | _ => exact .inr rfl

theorem freeQuery_query {record : QueryRecord} (h : record.type = .insert) :
    freeQuery record.query = .zero := by
  simp only [freeQuery, QueryRecord.query, h]
  rfl

theorem parseSqlTextAlloc_runs (sql : Bytes) :
    Runs 0 (parseSqlTextAlloc grants sql .zero) fun result owned =>
      Parsed grants (parseSqlText sql .zero) result owned ∧
        ∀ e, result.2 = .error e → result.1 = .zero := by
  unfold parseSqlTextAlloc parseSqlText
  split
  · exact Runs.pure ⟨parsed_zero grants _, fun _ _ => rfl⟩
  · apply (parseSelectAlloc_runs sql).bind
    rintro ⟨record, out⟩ owned ⟨rfl, hsound, hselect, htype⟩
    cases out with
    | ok _ =>
      obtain hselect | ⟨-, e, he⟩ := hselect
      · refine Runs.pure ⟨⟨rfl, hsound, .inl ?_, htype⟩, fun e he => by cases he⟩
        simp only [hselect]
      · cases he
    | error e =>
      dsimp only
      apply (freeParsed_runs hsound).bind
      rintro left rest ⟨rfl, rfl⟩
      have hzero : QueryRecord.cleared record.type = .zero := by rw [htype e rfl]; rfl
      rw [hzero]
      apply (parseInsertAlloc_runs sql).bind
      rintro ⟨inserted, out⟩ owned ⟨rfl, hinserted, hinsert, hinsertType⟩
      cases out with
      | ok _ =>
        obtain hinsert | ⟨-, e', he'⟩ := hinsert
        · refine Runs.pure ⟨⟨rfl, hinserted, .inl ?_, fun e he => by cases he⟩, fun e he => by cases he⟩
          cases hplain : parseSelect sql .zero with
          | mk query out =>
            cases out with
            | ok _ =>
              obtain ⟨e', he'⟩ := parseInsert_of_select hplain
              rw [hinsert] at he'
              cases he'
            | error e' =>
              have huntyped := parseSelect_untyped sql
              rw [hplain] at huntyped
              have hfree : freeQuery query = .zero := huntyped.resolve_left fun h => by cases h
              simp only [hfree, hinsert]
        · cases he'
      | error e' =>
        dsimp only
        apply (freeParsed_runs hinserted).bind
        rintro left rest ⟨rfl, rfl⟩
        have hcleared : QueryRecord.cleared inserted.type = .zero := by rw [hinsertType e' rfl]; rfl
        rw [hcleared]
        refine Runs.pure ⟨⟨rfl, QueryRecord.zero_sound, ?_, fun _ _ => rfl⟩, fun _ _ => rfl⟩
        rcases hselect with hselect | ⟨hrefuses, -⟩
        · rcases hinsert with hinsert | ⟨hrefuses, -⟩
          · left
            simp only [hselect, freeQuery_query (htype e rfl), hinsert,
              freeQuery_query (hinsertType e' rfl)]
            rfl
          · exact .inr ⟨hrefuses, _, rfl⟩
        · exact .inr ⟨hrefuses, _, rfl⟩

end

/-- **The memory of a parse.** Whatever calls for memory are refused, and whatever blocks
the rest of the program holds: `parse_sql_text` has a result, so it frees nothing twice and
reads nothing freed, and afterwards exactly the blocks of the query are new. After a
failure there are none. A parse that succeeds gives the query of the plain parser; where
no call is refused, one that fails does so as the plain parser does. Either way `free_query`
then leaves the memory as it was before the parse. -/
theorem parser_memory (grants : Nat → Bool) (sql : Bytes) (ledger : Ledger) :
    ∃ record out parsed, parseSqlTextAlloc grants sql .zero ledger = some ((record, out), parsed) ∧
      parsed.live = ledger.live + record.blocks ∧
      ((∃ e, out = .error e) → record.blocks = 0) ∧
      (out = .ok () → parseSqlText sql .zero = (record.query, .ok ())) ∧
      ((∀ n, grants n = true) → parseSqlText sql .zero = (record.query, out)) ∧
      ∃ left freed, freeQueryAlloc record parsed = some (left, freed) ∧ freed.live = ledger.live := by
  have hparse : Runs 0 (parseSqlTextAlloc grants sql .zero) _ := parseSqlTextAlloc_runs sql
  obtain ⟨⟨record, out⟩, parsed, owned, hrun, hlive, ⟨rfl, hsound, hfollows, -⟩, hzero⟩ :=
    hparse ledger.live ledger (add_zero _).symm
  obtain ⟨left, freed, rest, hfree, hfreed, -, rfl⟩ :=
    freeQueryAlloc_runs hsound ledger.live parsed hlive
  refine ⟨record, out, parsed, hrun, hlive, ?_, ?_, ?_, left, freed, hfree, ?_⟩
  · rintro ⟨e, rfl⟩
    obtain rfl : record = .zero := hzero e rfl
    rfl
  · rintro rfl
    exact hfollows.resolve_right fun h => by obtain ⟨-, e, he⟩ := h; cases he
  · intro hgrants
    apply hfollows.resolve_right
    rintro ⟨⟨n, hn⟩, -⟩
    rw [hgrants n] at hn
    cases hn
  · rw [hfreed, add_zero]

end MiniSql.Query
