import MiniSql.Server.WorkAlone

/-!
# The work of a request among others

Whatever the other requests do to the tables, as long as the loaded tables keep
their names a SELECT from a loaded table only reads, and an INSERT keeps the
names.
-/

namespace MiniSql.Server

open Storage Index Query

/-! ## What the work may change -/

namespace Work

variable {α β : Type}

/-- `Prog.Guarantees`, for the value of work that succeeds. -/
def Guarantees (I : Db → Prop) (G : Db → Db → Prop) (Q : α → Prop) (work : Work α) : Prop :=
  Prog.Guarantees I G (fun result => ∀ a, result = some (.ok a) → Q a) work

variable {I : Db → Prop} {G : Db → Db → Prop} {Q : α → Prop} {R : β → Prop}

theorem guarantees_of {result : Option (Except SqlError α)}
    (h : ∀ a, result = some (.ok a) → Q a) : (of result).Guarantees I G Q := h

theorem guarantees_any (result : Option (Except SqlError α)) :
    (of result).Guarantees I G fun _ => True :=
  guarantees_of fun _ _ => trivial

theorem guarantees_fail (e : SqlError) : (fail e : Work α).Guarantees I G Q :=
  guarantees_of (by simp)

theorem guarantees_pure {a : α} (h : Q a) : (pure a : Work α).Guarantees I G Q :=
  guarantees_of (by simpa using h)

theorem Guarantees.bind {work : Work α} (hwork : work.Guarantees I G Q) {next : α → Work β}
    (hnext : ∀ a, Q a → (next a).Guarantees I G R) : (work >>= next).Guarantees I G R := by
  apply Prog.Guarantees.bind hwork
  intro result hresult
  rcases result with _ | e | a
  · exact guarantees_of (by simp)
  · exact guarantees_fail e
  · exact hnext a (hresult a rfl)

end Work

section

variable {α : Type} {I : Db → Prop} {G : Db → Db → Prop}

theorem readTable_guarantees (hG : ∀ db, I db → G db db) (position : Nat)
    (f : TableState → Option α) : (readTable position f).Guarantees I G fun _ => True :=
  Prog.Guarantees.read hG fun _ _ _ _ => trivial

theorem searchWork_guarantees (hG : ∀ db, I db → G db db) (position : Nat) (key : Int) :
    (searchWork position key).Guarantees I G fun _ => True := by
  have hdescend (levels : Nat) (path : List Nat) :
      (descendWork position key levels path).Guarantees I G fun _ => True := by
    induction levels generalizing path with
    | zero => exact Work.guarantees_any none
    | succ levels ih =>
      apply (readTable_guarantees hG position _).bind
      intro node _
      cases node with
      | leaf address entries next => exact Work.guarantees_any _
      | branch keys children => exact ih _
  apply (readTable_guarantees hG position _).bind
  intro levels _
  split
  · exact Work.guarantees_pure trivial
  · exact hdescend levels []

theorem change_guarantees {f : Db → Db} (h : ∀ db, I db → G db (f db)) :
    (change f).Guarantees I G fun _ => True :=
  Prog.Guarantees.bind (Prog.Guarantees.write h) fun _ _ => Work.guarantees_any _

end

/-! ## SELECT only reads -/

section

variable {names : List Bytes} {position : Nat}

theorem getTableWork_reads {tableName : Bytes}
    (h : names.findIdx? (· == tableName) = some position) :
    (getTableWork (some tableName)).Guarantees (HasNames names) (fun s t => t = s) (· = position) := by
  have hcount : (Prog.read fun db : Db => db.ctx.tables.length).ReadsOnly (HasNames names)
      (· = names.length) :=
    Prog.Guarantees.read (fun _ _ => rfl) fun db hdb => by rw [← hdb, List.length_map]
  apply Prog.Guarantees.bind hcount
  rintro count rfl
  apply Prog.Guarantees.bind (scanNames_reads names tableName names.length 0 (Nat.zero_add _))
  rintro found rfl
  rw [List.drop_zero, h]
  exact Work.guarantees_of (by simp)

theorem readTable_reads {α : Type} (f : TableState → Option α) :
    (readTable position f).Guarantees (HasNames names) (fun s t => t = s) fun _ => True :=
  readTable_guarantees (fun _ _ => rfl) position f

theorem searchWork_reads (key : Int) :
    (searchWork position key).Guarantees (HasNames names) (fun s t => t = s) fun _ => True := by
  apply searchWork_guarantees
  intro db _
  rfl

theorem rowObjectsWork_reads (schema : Schema) (selects : Row → Option Bool) (count rowIndex : Nat) :
    (rowObjectsWork position schema selects count rowIndex).Guarantees (HasNames names)
      (fun s t => t = s) fun _ => True := by
  induction count generalizing rowIndex with
  | zero => exact Work.guarantees_pure trivial
  | succ count ih =>
    apply (readTable_reads _).bind
    intro row _
    cases selects row with
    | none => exact Work.guarantees_any none
    | some selected =>
      cases selected with
      | false => exact ih (rowIndex + 1)
      | true =>
        apply (Work.guarantees_any _).bind
        intro object _
        apply (ih (rowIndex + 1)).bind
        intro objects _
        exact Work.guarantees_pure trivial

theorem selectObjectsWork_reads (schema : Schema) (condition : Option Condition) :
    (selectObjectsWork position schema condition).Guarantees (HasNames names) (fun s t => t = s)
      fun _ => True := by
  cases condition with
  | none =>
    apply (readTable_reads _).bind
    intro count _
    exact rowObjectsWork_reads schema _ count 0
  | some condition =>
    rw [selectObjectsWork]
    split
    · split
      · exact Work.guarantees_fail _
      · apply (searchWork_reads _).bind
        rintro ⟨found, rowIndex⟩ _
        cases found with
        | false => exact Work.guarantees_pure trivial
        | true =>
          apply (readTable_reads _).bind
          intro row _
          apply (Work.guarantees_any _).bind
          intro object _
          exact Work.guarantees_pure trivial
    · split
      · exact Work.guarantees_fail _
      · apply (readTable_reads _).bind
        intro count _
        exact rowObjectsWork_reads schema _ count 0

theorem selectWork_reads {tableName : Bytes} {query : Query} (hname : query.tableName = some tableName)
    (hfind : names.findIdx? (· == tableName) = some position) :
    (selectWork query).Guarantees (HasNames names) (fun s t => t = s) fun _ => True := by
  rw [selectWork, hname]
  apply (getTableWork_reads hfind).bind
  rintro position rfl
  apply (readTable_reads _).bind
  intro schema _
  apply (selectObjectsWork_reads schema query.condition).bind
  intro objects _
  exact Work.guarantees_pure trivial

end

/-! ## INSERT keeps the names -/

theorem map_modify_of_eq {α β : Type} {f : α → α} {g : α → β} (h : ∀ a, g (f a) = g a) (l : List α)
    (i : Nat) : (l.modify i f).map g = l.map g := by
  apply List.ext_getElem?
  intro j
  rw [List.getElem?_map, List.getElem?_map, List.getElem?_modify]
  cases l[j]? with
  | none => rfl
  | some a => by_cases hij : i = j <;> simp [hij, h]

section

variable {names : List Bytes} {position : Nat}

/-- What an INSERT guarantees. -/
abbrev KeepsNames (names : List Bytes) {α : Type} (work : Work α) : Prop :=
  work.Guarantees (HasNames names) (fun _ t => HasNames names t) fun _ => True

theorem readTable_keeps {α : Type} (f : TableState → Option α) :
    KeepsNames names (readTable position f) :=
  readTable_guarantees (fun _ h => h) position f

theorem modifyTable_keeps {f : TableState → TableState} (hf : ∀ table, (f table).name = table.name) :
    KeepsNames names (modifyTable position f) := by
  apply change_guarantees
  intro db hdb
  exact (map_modify_of_eq hf db.ctx.tables position).trans hdb

theorem appendFile_keeps (tableName bytes : Bytes) : KeepsNames names (appendFile tableName bytes) :=
  change_guarantees fun _ hdb => hdb

theorem appendCsvRowWork_keeps (tableName : Bytes) (fields : Row) :
    KeepsNames names (appendCsvRowWork tableName fields) := by
  have hbytes (bytes : Bytes) : KeepsNames names (appendBytes tableName bytes) := by
    induction bytes with
    | nil => exact Work.guarantees_pure trivial
    | cons byte bytes ih => exact (appendFile_keeps tableName [byte]).bind fun _ _ => ih
  rw [appendCsvRowWork]
  split
  · exact Work.guarantees_fail _
  · exact (appendFile_keeps tableName []).bind fun _ _ => hbytes (csvLine fields)

theorem setIndex_keeps (scratch : List BPTree) (index : BPTree) :
    KeepsNames names (setIndex position scratch index) := by
  induction scratch with
  | nil => exact modifyTable_keeps fun _ => rfl
  | cons torn scratch ih =>
    refine Work.Guarantees.bind (modifyTable_keeps ?_) fun _ _ => ih
    intro table
    rfl

theorem updateNextId_keeps (id : Int) : KeepsNames names (updateNextId position id) := by
  apply (readTable_keeps _).bind
  intro nextId _
  split
  · exact modifyTable_keeps fun _ => rfl
  · exact Work.guarantees_pure trivial

theorem dbContextReloadTable_names {db db' : Db} {tableName : Bytes} {out : Except SqlError Unit}
    (h : dbContextReloadTable db tableName = some (db', out)) :
    db'.ctx.tables.map TableState.name = db.ctx.tables.map TableState.name := by
  unfold dbContextReloadTable at h
  split at h
  · cases h
    rfl
  · rename_i position hfind
    obtain ⟨old, hold, hname⟩ := findTable_some hfind
    split at h
    · cases h
    · cases h
      rfl
    · rename_i reloaded hload
      cases h
      exact names_set hold ((tableStateLoad_name hload).trans hname.symm)

theorem reloadTableWork_keeps (tableName : Bytes) : KeepsNames names (reloadTableWork tableName) := by
  intro db hdb
  refine ⟨?_, Work.guarantees_any _⟩
  change HasNames names (((dbContextReloadTable db tableName).map Prod.fst).getD db)
  cases hreload : dbContextReloadTable db tableName with
  | none => exact hdb
  | some out => exact (dbContextReloadTable_names hreload).trans hdb

theorem commitWork_keeps (scratch : List BPTree) (tableName : Bytes) (fields : Row) (id : Int) :
    KeepsNames names (commitWork scratch tableName position fields id) := by
  apply (appendCsvRowWork_keeps tableName fields).bind
  intro _ _
  apply (readTable_keeps _).bind
  intro rowIndex _
  refine Work.Guarantees.bind (modifyTable_keeps ?_) fun _ _ => ?_
  · intro table
    rfl
  apply (readTable_keeps _).bind
  intro index _
  rcases bptreeInsert allocated index id rowIndex with _ | ⟨index', e | _⟩
  · exact Work.guarantees_any none
  · apply (setIndex_keeps scratch index').bind
    intro _ _
    apply (reloadTableWork_keeps tableName).bind
    intro _ _
    exact Work.guarantees_fail e
  · apply (setIndex_keeps scratch index').bind
    intro _ _
    apply (updateNextId_keeps id).bind
    intro _ _
    exact Work.guarantees_pure trivial

theorem insertWork_keeps (scratch : List BPTree) {tableName : Bytes} {query : Query}
    (hname : query.tableName = some tableName)
    (hfind : names.findIdx? (· == tableName) = some position) :
    KeepsNames names (insertWork scratch query) := by
  have hget : (getTableWork (some tableName)).Guarantees (HasNames names)
      (fun _ t => HasNames names t) (· = position) :=
    Prog.ReadsOnly.keeps (getTableWork_reads hfind)
  rw [insertWork, hname]
  apply hget.bind
  rintro position rfl
  apply (readTable_keeps _).bind
  intro schema _
  have hfields : KeepsNames names (insertFieldsWork position schema query.values) := by
    rw [insertFieldsWork]
    split
    · exact Work.guarantees_pure trivial
    · split
      · exact (readTable_keeps _).bind fun _ _ => Work.guarantees_pure trivial
      · exact Work.guarantees_fail _
  apply hfields.bind
  intro fields _
  apply (Work.guarantees_any _).bind
  intro _ _
  apply (Work.guarantees_any _).bind
  intro field _
  refine Work.Guarantees.bind (searchWork_guarantees (fun _ hdb => hdb) position _) ?_
  intro found _
  split
  · exact Work.guarantees_fail _
  · exact commitWork_keeps scratch _ fields _

end

end MiniSql.Server
