import MiniSql.Index.LoadDefined
import MiniSql.Query.Reachable

/-!
# When running a query is defined

A query leaves defined behaviour where the load of its table does, and an INSERT also
where the key of the new row is looked for beyond its fields.
-/

namespace MiniSql.Query

open Storage Index

/-- If the values make a row of the table, its key is one of the fields. -/
def SafeToInsert (table : TableState) (values : List Bytes) : Prop :=
  ∀ fields, insertFields table values = .ok fields → WellTyped table.schema fields →
    KeyInRange table.schema

/-- What a query needs of the files and the tables to have a result. -/
structure SafeToRun (query : Query) (db : Db) : Prop where
  load : ∀ tableName, query.tableName = some tableName →
    findTable db.ctx.tables tableName = none → SafeToLoad db.disk tableName
  insert : query.type = .insert → ∀ db' position table,
    dbContextGetTable db query.tableName = some (db', .ok position) →
    db'.ctx.tables[position]? = some table → SafeToInsert table query.values

theorem dbContextGetTable_defined_iff (db : Db) (tableName : Option Bytes) :
    dbContextGetTable db tableName ≠ none ↔
      ∀ name, tableName = some name → findTable db.ctx.tables name = none →
        SafeToLoad db.disk name := by
  cases tableName with
  | none => simp [dbContextGetTable]
  | some tableName =>
    simp only [Option.some.injEq, forall_eq']
    cases hfind : findTable db.ctx.tables tableName with
    | some position => simp [dbContextGetTable, hfind]
    | none =>
      rw [← tableStateLoad_defined_iff db.disk db.ctx.dbRoot]
      rcases hload : tableStateLoad db.disk db.ctx.dbRoot tableName with _ | e | table
      · simp [dbContextGetTable, hfind, hload]
      · simp [dbContextGetTable, hfind, hload]
      · simp [dbContextGetTable, hfind, hload]

/-- The table that a query gets is in memory. -/
theorem Got.here {db db' : Db} {position : Nat} (h : Got db db' (.ok position)) :
    ∃ table, db'.ctx.tables[position]? = some table := by
  cases h with
  | found hhere => exact ⟨_, hhere⟩
  | @loaded _ table => exact ⟨table, by simp⟩

theorem prepareInsert_defined_iff {table : TableState} (ht : table.Valid) (values : List Bytes) :
    prepareInsert table values ≠ none ↔ SafeToInsert table values := by
  rcases hfields : insertFields table values with e | fields
  · simp [prepareInsert, SafeToInsert, hfields]
  · have htyped : checkFields validateValue table.schema.columns fields = .ok () ↔
        WellTyped table.schema fields :=
      checkFields_ok_iff (fun _ _ => checkValue_ok_iff) (insertFields_length hfields)
    simp only [SafeToInsert, hfields, Except.ok.injEq, forall_eq', ← htyped]
    rcases hcheck : checkFields validateValue table.schema.columns fields with e | u
    · simp [prepareInsert, hfields, hcheck]
    · have hrow := htyped.mp hcheck
      simp only [forall_const]
      by_cases hkey : KeyInRange table.schema
      · refine iff_of_true ?_ hkey
        obtain ⟨field, hfield⟩ := keyField_of_typed hkey hrow
        rcases hfound : found (keyMap table.schema table.rows (atoi field)) with ⟨_ | _, row⟩
        · simp [prepareInsert, hfields, hcheck, hfield, search_represents ht.index, hfound]
        · simp [prepareInsert, hfields, hcheck, hfield, search_represents ht.index, hfound]
      · refine iff_of_false ?_ hkey
        simp [prepareInsert, hfields, hcheck, keyField_none hkey hrow]

theorem executeInsert_defined_iff {db : Db} (hdb : Valid db) {query : Query}
    (htype : query.type = .insert) : executeInsert query db ≠ none ↔ SafeToRun query db := by
  rcases hget : dbContextGetTable db query.tableName with _ | ⟨db', e | position⟩
  · refine iff_of_false (by simp [executeInsert, hget]) fun hsafe => ?_
    exact (dbContextGetTable_defined_iff db query.tableName).mpr hsafe.load hget
  · have hload := (dbContextGetTable_defined_iff db query.tableName).mp (by simp [hget])
    refine iff_of_true (by simp [executeInsert, hget]) ⟨hload, fun _ db₁ position table hget' => ?_⟩
    cases hget.symm.trans hget'
  · have hload := (dbContextGetTable_defined_iff db query.tableName).mp (by simp [hget])
    have hgot := dbContextGetTable_got hget
    obtain ⟨table, hhere⟩ := hgot.here
    have ht := (hgot.valid hdb).tables table (List.mem_of_getElem? hhere)
    have hinsert : SafeToRun query db ↔ SafeToInsert table query.values := by
      constructor
      · intro hsafe
        exact hsafe.insert htype db' position table hget hhere
      · intro hsafe
        refine ⟨hload, fun _ db₁ position₁ table₁ hget' hhere' => ?_⟩
        cases hget.symm.trans hget'
        cases hhere.symm.trans hhere'
        exact hsafe
    rw [hinsert, ← prepareInsert_defined_iff ht]
    rcases hprep : prepareInsert table query.values with _ | e | ⟨fields, id⟩
    · simp [executeInsert, hget, hhere, hprep]
    · simp [executeInsert, hget, hhere, hprep]
    · have hprepared := prepareInsert_ok hprep
      obtain ⟨index, hins, -⟩ := hprepared.insert ht
      simp [executeInsert, hget, hhere, hprep, commitInsert_eq hprepared _ _ _ hins]

end MiniSql.Query
