import MiniSql.Storage.SchemaMemory

/-!
# The memory of a schema file

The loop over the lines of a schema file, and `load_schema` as a whole: what it owns and
what it loses when it has a result, and that it has none at a line without `=`.
-/

namespace MiniSql.Storage

open Alloc

section

variable {grants : Nat → Bool} {kept : Multiset Nat} {schema : SchemaRecord}

/-- What a line does, or several of them. -/
def LinesSet (grants : Nat → Bool) (plain : Option (Except SqlError Schema)) (schema : SchemaRecord)
    (lines : List Bytes) (text : Nat) (kept : Multiset Nat) :
    Except SqlError SchemaRecord → Multiset Nat → Prop
  | .error e, owned => (plain = some (.error e) ∨ Refuses grants) ∧ ∃ lost, owned = lost + kept ∧
      (lost = 0 ∨ (∃ entry, e = invalidColumn entry) ∨ Replaces schema lines)
  | .ok next, owned => plain = some (.ok next.schema) ∧ next.columns.Sound ∧
      (∀ key ∈ replacedKeys,
        (next.holds key).toNat ≤ (schema.holds key).toNat + (valuesOf key lines).length) ∧
      ∃ lost, owned = {text} + (next.owns + (lost + kept)) ∧ (lost = 0 ∨ Replaces schema lines)

theorem valuesOf_line {key value line : Bytes} (h : lineEntry line = some (key, value)) (other : Bytes) :
    valuesOf other [line] = if key = other then [value] else [] := by
  simp only [valuesOf, List.filterMap_cons, entryValue_some h, List.filterMap_nil]
  by_cases hkey : key = other <;> simp [hkey]

theorem replaces_line {key value line : Bytes} (h : lineEntry line = some (key, value))
    (hholds : schema.holds key = true) : Replaces schema [line] := by
  refine ⟨key, ?_, ?_⟩
  · simp only [SchemaRecord.holds, Bool.or_eq_true, Bool.and_eq_true, beq_iff_eq] at hholds
    simp only [replacedKeys, List.mem_cons, List.not_mem_nil, or_false]
    exact hholds.imp And.left And.left
  · rw [hholds, valuesOf_line h, if_pos rfl]
    exact Nat.lt_succ_self 1

theorem held_line {key value line : Bytes} (h : lineEntry line = some (key, value)) {other : Bytes}
    {next : SchemaRecord} (hholds : next.holds other = true → schema.holds other = true ∨ other = key) :
    (next.holds other).toNat ≤ (schema.holds other).toNat + (valuesOf other [line]).length := by
  cases hnext : next.holds other with
  | false => exact Nat.zero_le _
  | true =>
    rcases hholds hnext with hold | rfl
    · rw [hold]
      exact Nat.le_add_right _ _
    · rw [valuesOf_line h, if_pos rfl]
      exact Nat.le_add_left _ _

/-- A line without `=` is not reached. -/
theorem schemaLineAlloc_runs (h : schema.columns.Sound) (prior : SqlError) (text : Nat) {line : Bytes}
    (hline : schemaLine schema.schema line ≠ none) :
    Runs ({text} + (schema.owns + kept)) (schemaLineAlloc grants prior text schema line)
      (LinesSet grants (schemaLine schema.schema line) schema [line] text kept) := by
  unfold schemaLineAlloc
  dsimp only
  split
  · rename_i hblank
    refine Runs.pure ⟨by simp [schemaLine, hblank], h, fun key _ => Nat.le_add_right _ _, 0, ?_, .inl rfl⟩
    rw [zero_add]
  · rename_i hblank
    cases hcut : cutAt 0x3d (trimInPlace line) with
    | none =>
      refine absurd ?_ hline
      simp [schemaLine, hblank, hcut]
    | some cut =>
      obtain ⟨key, value⟩ := cut
      have hentry : lineEntry line = some (trimInPlace key, trimInPlace value) := by simp [lineEntry, hcut]
      have hplain : schemaLine schema.schema line =
          some ((setKey schema.schema (trimInPlace key) (trimInPlace value)).map findPrimaryKey) := by
        simp [schemaLine, hcut, hblank]
      rw [hplain, add_left_comm]
      apply (setKeyAlloc_runs h prior _ _).bind
      rintro ⟨next, out⟩ owned ⟨hsound, hok, herror, hholds, lost, rfl, hlost⟩
      have howned : next.owns + (lost + ({text} + kept)) = {text} + (next.owns + (lost + kept)) := by
        abel
      rw [howned]
      cases out with
      | error e =>
        apply (dropSchema_runs hsound text).seq
        refine Runs.pure ⟨(herror e rfl).imp_left fun hset => by rw [hset]; rfl, lost, rfl, ?_⟩
        exact hlost.imp_right (Or.imp (by simp) (replaces_line hentry))
      | ok _ =>
        have hle : next.owns ≤ {text} + (next.owns + (lost + kept)) :=
          (Multiset.le_add_right _ _).trans (Multiset.le_add_left _ _)
        apply (findPrimaryKeyAlloc_runs hsound hle).bind
        rintro found left ⟨rfl, hcolumns, howns, hfound, hschema⟩
        refine Runs.pure ⟨?_, hcolumns ▸ hsound, ?_, lost, by rw [howns], ?_⟩
        · rw [hok rfl, hschema]
          rfl
        · intro other _
          rw [hfound]
          exact held_line hentry (hholds other)
        · rcases hlost with hlost | ⟨entry, hentry⟩ | hlost
          · exact .inl hlost
          · cases hentry
          · exact .inr (replaces_line hentry hlost)

theorem valuesOf_cons (key line : Bytes) (lines : List Bytes) :
    valuesOf key (line :: lines) = valuesOf key [line] ++ valuesOf key lines :=
  List.filterMap_append (l := [line])

theorem Replaces.first {line : Bytes} (h : Replaces schema [line]) (lines : List Bytes) :
    Replaces schema (line :: lines) := by
  obtain ⟨key, hkey, hcount⟩ := h
  refine ⟨key, hkey, ?_⟩
  rw [valuesOf_cons, List.length_append]
  omega

theorem Replaces.later {next : SchemaRecord} {line : Bytes} {lines : List Bytes}
    (h : Replaces next lines) (hheld : ∀ key ∈ replacedKeys,
      (next.holds key).toNat ≤ (schema.holds key).toNat + (valuesOf key [line]).length) :
    Replaces schema (line :: lines) := by
  obtain ⟨key, hkey, hcount⟩ := h
  refine ⟨key, hkey, ?_⟩
  have hle := hheld key hkey
  rw [valuesOf_cons, List.length_append]
  omega

theorem schemaLinesAlloc_runs (h : schema.columns.Sound) (prior : SqlError) (text : Nat)
    {lines : List Bytes} (hlines : setLines schema.schema lines ≠ none) :
    Runs ({text} + (schema.owns + kept)) (schemaLinesAlloc grants prior text schema lines)
      (LinesSet grants (setLines schema.schema lines) schema lines text kept) := by
  induction lines generalizing schema kept with
  | nil => exact Runs.pure ⟨rfl, h, fun key _ => Nat.le_add_right _ _, 0, by rw [zero_add], .inl rfl⟩
  | cons line lines ih =>
    have hfirst := (andThen_defined_iff.mp hlines).1
    apply (schemaLineAlloc_runs h prior text hfirst).bind
    intro out owned hout
    cases out with
    | error e =>
      obtain ⟨hplain, lost, rfl, hlost⟩ := hout
      refine Runs.pure ⟨hplain.imp_left fun hplain => ?_, lost, rfl,
        hlost.imp_right (Or.imp_right fun h => h.first lines)⟩
      rw [setLines, hplain]
      rfl
    | ok next =>
      obtain ⟨hplain, hnext, hheld, lost, rfl, hlost⟩ := hout
      have hrest : setLines schema.schema (line :: lines) = setLines next.schema lines := by
        rw [setLines, hplain]
        rfl
      rw [hrest] at hlines ⊢
      apply (ih hnext hlines).mono
      intro out owned hout
      cases out with
      | error e =>
        obtain ⟨hplain, more, rfl, hmore⟩ := hout
        refine ⟨hplain, more + lost, (add_assoc _ _ _).symm, ?_⟩
        rcases hmore with rfl | hentry | hreplaces
        · exact (hlost.imp (fun hlost => by rw [hlost, add_zero]) fun h => .inr (h.first lines))
        · exact .inr (.inl hentry)
        · exact .inr (.inr (hreplaces.later hheld))
      | ok last =>
        obtain ⟨hplain, hlast, hheld', more, rfl, hmore⟩ := hout
        refine ⟨hplain, hlast, ?_, more + lost, by rw [add_assoc], ?_⟩
        · intro key hkey
          have h₁ := hheld key hkey
          have h₂ := hheld' key hkey
          rw [valuesOf_cons, List.length_append]
          omega
        · rcases hmore with rfl | hreplaces
          · exact (hlost.imp (fun hlost => by rw [hlost, add_zero]) fun h => h.first lines)
          · exact .inr (hreplaces.later hheld)

/-! ## The file -/

/-- The columns or the primary key stand in the file more than once. -/
def GivenTwice (file : Option Bytes) : Prop :=
  ∃ text, file = some text ∧ ∃ key ∈ replacedKeys, 1 < (valuesOf key (textLines text)).length

/-- The text of the file, in memory. -/
def TextRead (grants : Nat → Bool) (missing : SqlError) (file : Option Bytes) (kept : Multiset Nat) :
    Except SqlError (Boxed Bytes) → Multiset Nat → Prop
  | .error e, owned => owned = kept ∧ ((file = none ∧ e = missing) ∨ Refuses grants)
  | .ok text, owned => owned = {text.block} + kept ∧ file = some text.content

/-- A schema for the file. -/
def SchemaLoaded (grants : Nat → Bool) (plain : Option (Except SqlError Schema)) (file : Option Bytes)
    (kept : Multiset Nat) : Except SqlError SchemaRecord → Multiset Nat → Prop
  | .error e, owned => (plain = some (.error e) ∨ Refuses grants) ∧ ∃ lost, owned = lost + kept ∧
      (lost = 0 ∨ (∃ entry, e = invalidColumn entry) ∨ GivenTwice file)
  | .ok schema, owned => plain = some (.ok schema.schema) ∧ schema.columns.Sound ∧
      ∃ lost, owned = schema.owns + (lost + kept) ∧ (lost = 0 ∨ GivenTwice file)

theorem start_owns (name : Boxed Bytes) (kept : Multiset Nat) :
    {name.block} + kept = (SchemaRecord.start name).owns + kept := by
  simp [SchemaRecord.owns, SchemaRecord.start, Vec.blocks, Vec.empty, blockOf]

theorem readTextFileAlloc_runs (missing : SqlError) (file : Option Bytes) :
    Runs kept (readTextFileAlloc grants missing file) (TextRead grants missing file kept) := by
  cases file with
  | none => exact Runs.pure ⟨rfl, .inl ⟨rfl, rfl⟩⟩
  | some contents =>
    apply (box_runs grants contents).bind
    intro text owned htext
    cases text with
    | none => exact Runs.pure ⟨htext.1, .inr htext.2⟩
    | some text => exact Runs.pure ⟨htext.1, by rw [htext.2]⟩

theorem loadSchemaAlloc_runs (prior missing : SqlError) (tableName : Bytes) {file : Option Bytes}
    (hfile : loadSchemaFile missing tableName file ≠ none) :
    Runs kept (loadSchemaAlloc grants prior missing tableName file)
      (SchemaLoaded grants (loadSchemaFile missing tableName file) file kept) := by
  apply (box_runs grants tableName).bind
  intro name owned hname
  cases name with
  | none =>
    exact Runs.pure ⟨.inr hname.2, 0, by rw [hname.1, zero_add], .inl rfl⟩
  | some name =>
    obtain ⟨rfl, rfl⟩ := hname
    rw [start_owns]
    apply (readTextFileAlloc_runs missing file).bind
    intro text owned htext
    cases text with
    | error e =>
      obtain ⟨rfl, hplain⟩ := htext
      apply (freeSchema_runs Vec.empty_sound).bind
      rintro _ left ⟨-, rfl⟩
      refine Runs.pure ⟨hplain.imp_left ?_, 0, (zero_add _).symm, .inl rfl⟩
      rintro ⟨rfl, rfl⟩
      rfl
    | ok text =>
      obtain ⟨rfl, rfl⟩ := htext
      rw [loadSchemaFile, loadSchema_eq] at hfile ⊢
      have hlines : setLines (SchemaRecord.start name).schema (textLines text.content) ≠ none :=
        (andThen_defined_iff.mp hfile).1
      apply (schemaLinesAlloc_runs Vec.empty_sound prior text.block hlines).bind
      intro out owned hout
      have htwice : Replaces (.start name) (textLines text.content) → GivenTwice (some text.content) := by
        rintro ⟨key, hkey, hcount⟩
        have hholds : (SchemaRecord.start name).holds key = false := by
          simp [SchemaRecord.holds, SchemaRecord.start, Vec.empty]
        rw [hholds] at hcount
        exact ⟨_, rfl, key, hkey, by simpa using hcount⟩
      cases out with
      | error e =>
        obtain ⟨hplain, lost, rfl, hlost⟩ := hout
        refine Runs.pure ⟨hplain.imp_left fun hplain => ?_, lost, rfl,
          hlost.imp_right (Or.imp_right htwice)⟩
        exact congrArg (andThen · _) hplain
      | ok schema =>
        obtain ⟨hplain, hsound, -, lost, rfl, hlost⟩ := hout
        have hload : andThen (setLines (.empty name.content) (textLines text.content))
            (fun schema => some (checkColumns schema)) = some (checkColumns schema.schema) :=
          congrArg (andThen · _) hplain
        rw [hload]
        apply (freeBox_runs text).seq
        cases hcheck : checkColumns schema.schema with
        | error e =>
          apply (freeSchema_runs hsound).bind
          rintro _ left ⟨-, rfl⟩
          exact Runs.pure ⟨.inl rfl, lost, rfl, hlost.imp_right fun h => .inr (htwice h)⟩
        | ok checked =>
          obtain ⟨rfl, -⟩ := checkColumns_ok_iff.mp hcheck
          exact Runs.pure ⟨rfl, hsound, lost, rfl, hlost.imp_right htwice⟩

/-! ## A line without `=` -/

/-- The message about such a line reads the text that was freed. -/
theorem schemaLineAlloc_faults (h : schema.columns.Sound) (prior : SqlError) (text : Nat) {line : Bytes}
    (hline : schemaLine schema.schema line = none) :
    Faults ({text} + (schema.owns + kept)) (schemaLineAlloc grants prior text schema line) := by
  unfold schemaLineAlloc
  dsimp only
  rcases schemaLine_eq schema.schema line with ⟨-, -, hok⟩ | ⟨hblank, hentry, -⟩ | ⟨key, value, -, hset⟩
  · rw [hok] at hline
    cases hline
  · rw [lineEntry, Option.map_eq_none_iff] at hentry
    rw [if_neg (by simpa using hblank), hentry]
    exact (dropSchema_runs h text).touch_faults (Multiset.le_add_left _ _) _
  · rw [hset] at hline
    cases hline

theorem schemaLinesAlloc_faults (hgrants : ¬ Refuses grants) (h : schema.columns.Sound)
    (prior : SqlError) (text : Nat) {lines : List Bytes}
    (hlines : setLines schema.schema lines = none) :
    Faults ({text} + (schema.owns + kept)) (schemaLinesAlloc grants prior text schema lines) := by
  induction lines generalizing schema kept with
  | nil => cases hlines
  | cons line lines ih =>
    rw [setLines] at hlines
    by_cases hline : schemaLine schema.schema line = none
    · exact (schemaLineAlloc_faults h prior text hline).bind _
    · apply (schemaLineAlloc_runs h prior text hline).faults
      intro out owned hout
      cases out with
      | error e =>
        obtain ⟨hplain, -⟩ := hout
        rw [hplain.resolve_right hgrants] at hlines
        cases hlines
      | ok next =>
        obtain ⟨hplain, hnext, -, lost, rfl, -⟩ := hout
        rw [hplain] at hlines
        exact ih hnext hlines

theorem loadSchemaAlloc_faults (hgrants : ¬ Refuses grants) (prior missing : SqlError)
    (tableName : Bytes) {text : Bytes} (htext : loadSchema tableName text = none) :
    Faults kept (loadSchemaAlloc grants prior missing tableName (some text)) := by
  apply (box_runs grants tableName).faults
  intro name owned hname
  cases name with
  | none => exact absurd hname.2 hgrants
  | some name =>
    obtain ⟨rfl, rfl⟩ := hname
    rw [start_owns]
    apply (readTextFileAlloc_runs missing (some text)).faults
    intro contents owned hcontents
    cases contents with
    | error e =>
      rcases hcontents.2 with ⟨hnone, -⟩ | hrefuses
      · cases hnone
      · exact absurd hrefuses hgrants
    | ok contents =>
      obtain ⟨rfl, hsame⟩ := hcontents
      cases hsame
      have hlines : setLines (SchemaRecord.start name).schema (textLines contents.content) = none := by
        by_contra hlines
        refine absurd htext ?_
        rw [loadSchema_eq, ← ne_eq, andThen_defined_iff]
        exact ⟨hlines, by simp⟩
      exact (schemaLinesAlloc_faults hgrants Vec.empty_sound prior contents.block hlines).bind _

end

end MiniSql.Storage
