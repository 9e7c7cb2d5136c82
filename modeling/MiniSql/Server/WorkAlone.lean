import MiniSql.Server.Work

/-!
# The work of a request, alone

Nobody else at the database, the single accesses add up to what the sequential
code does: `eval_selectWork` and `eval_insertWork` give the payload and the
database of `build_select_payload` and `execute_insert` on a loaded table. The
names of the loaded tables determine what the scan of `db_context_get_table`
finds, also among others.
-/

namespace MiniSql.Server

open Storage Index Query

/-! ## Running work alone -/

namespace Work

variable {α β : Type}

def eval (work : Work α) (db : Db) : Option (Except SqlError α) × Db := Prog.eval work db

/-- Run the next work on what the first left, unless that has failed. -/
def evalNext (next : α → Work β) :
    Option (Except SqlError α) × Db → Option (Except SqlError β) × Db
  | (none, db) => (none, db)
  | (some (.error e), db) => (some (.error e), db)
  | (some (.ok a), db) => (next a).eval db

@[simp] theorem eval_of (result : Option (Except SqlError α)) (db : Db) :
    (of result).eval db = (result, db) := rfl

@[simp] theorem eval_pure (a : α) (db : Db) : (pure a : Work α).eval db = (some (.ok a), db) := rfl

@[simp] theorem eval_bind (work : Work α) (next : α → Work β) (db : Db) :
    (work >>= next).eval db = evalNext next (work.eval db) := by
  refine (Prog.eval_bind _ _ db).trans ?_
  unfold eval
  obtain ⟨_ | e | a, db'⟩ := Prog.eval work db
  · rfl
  · rfl
  · rfl

@[simp] theorem evalNext_ok (next : α → Work β) (a : α) (db : Db) :
    evalNext next (some (.ok a), db) = (next a).eval db := rfl

/-- Work that goes on without changing the database. -/
theorem evalNext_andThen {next : α → Work β} {f : α → Option (Except SqlError β)} {db : Db}
    (h : ∀ a, (next a).eval db = (f a, db)) (result : Option (Except SqlError α)) :
    evalNext next (result, db) = (andThen result f, db) := by
  rcases result with _ | e | a
  · rfl
  · rfl
  · exact h a

end Work

@[simp] theorem eval_readTable {α : Type} (position : Nat) (f : TableState → Option α) (db : Db) :
    (readTable position f).eval db = (((db.ctx.tables[position]?).bind f).map .ok, db) := rfl

@[simp] theorem eval_change (f : Db → Db) (db : Db) :
    (change f).eval db = (some (.ok ()), f db) := rfl

/-! ## Loaded tables -/

/-- The tables that are loaded, by name. -/
def HasNames (names : List Bytes) (db : Db) : Prop := db.ctx.tables.map TableState.name = names

theorem HasNames.getElem? {names : List Bytes} {db : Db} (h : HasNames names db) (index : Nat) :
    (db.ctx.tables[index]?).map TableState.name = names[index]? := by
  rw [← h, List.getElem?_map]

theorem scanNames_reads (names : List Bytes) (tableName : Bytes) (count index : Nat)
    (hcount : index + count = names.length) :
    (scanNames tableName count index).ReadsOnly (HasNames names) fun found =>
      found = ((names.drop index).findIdx? (· == tableName)).map (· + index) := by
  induction count generalizing index with
  | zero =>
    change none = _
    rw [List.drop_eq_nil_of_le (by omega)]
    rfl
  | succ count ih =>
    have hlt : index < names.length := by omega
    have hread : (Prog.read fun db : Db => (db.ctx.tables[index]?).map TableState.name).ReadsOnly
        (HasNames names) (· = names[index]?) :=
      Prog.Guarantees.read (fun _ _ => rfl) fun db hdb => hdb.getElem? index
    rw [scanNames]
    apply hread.bind
    rintro name rfl
    rw [List.getElem?_eq_getElem hlt, List.drop_eq_getElem_cons hlt, List.findIdx?_cons]
    by_cases hname : names[index] = tableName
    · rw [if_pos (by simpa using hname), if_pos (by rw [hname])]
      exact congrArg some (Nat.zero_add index).symm
    · rw [if_neg (by simpa using hname), if_neg (by simpa using hname)]
      have hnext := ih (index + 1) (by omega)
      rw [Option.map_map]
      simpa [Function.comp_def, Nat.add_comm, Nat.add_left_comm] using hnext

theorem eval_getTableWork {db : Db} {tableName : Bytes} {position : Nat} {table : TableState}
    (h : Loaded db tableName position table) :
    (getTableWork (some tableName)).eval db = (some (.ok position), db) := by
  have hfind := h.find
  rw [findTable_names] at hfind
  obtain ⟨hsame, hfound⟩ := (scanNames_reads (db.ctx.tables.map TableState.name) tableName
    db.ctx.tables.length 0 (by simp)).eval (s := db) rfl
  rw [List.drop_zero, hfind] at hfound
  rw [Work.eval, getTableWork, Prog.eval_bind, Prog.eval_read, Prog.eval_bind, hsame, hfound]
  rfl

/-! ## SELECT alone -/

theorem height_pos (node : BPTreeNode) : 0 < height node := by
  cases node with
  | leaf _ _ _ => exact Nat.one_pos
  | branch _ _ => exact Nat.succ_pos _

theorem height_le_heightAll {child : BPTreeNode} {children : List BPTreeNode}
    (h : child ∈ children) : height child ≤ heightAll children := by
  induction children with
  | nil => cases h
  | cons c cs ih =>
    rw [heightAll]
    rcases List.mem_cons.mp h with rfl | h
    · exact Nat.le_max_left _ _
    · exact Nat.le_trans (ih h) (Nat.le_max_right _ _)

theorem nodeAt_concat {root node : BPTreeNode} {path : List Nat} (h : nodeAt root path = some node)
    (index : Nat) : nodeAt root (path ++ [index]) = child? node index := by
  rw [nodeAt, List.foldlM_append, ← nodeAt, h]
  simp

section

variable {db : Db} {tableName : Bytes} {position : Nat} {table : TableState}
  (h : Loaded db tableName position table)
include h

theorem eval_descendWork {root node : BPTreeNode} (hroot : table.index.root = some root) (key : Int)
    {levels : Nat} {path : List Nat} (hnode : nodeAt root path = some node)
    (hlevels : height node ≤ levels) :
    (descendWork position key levels path).eval db = ((searchNode key node).map .ok, db) := by
  induction levels generalizing path node with
  | zero =>
    have := height_pos node
    omega
  | succ levels ih =>
    simp only [descendWork, Work.eval_bind, eval_readTable, h.here, Option.bind_some, hroot, hnode,
      Option.map_some, Work.evalNext_ok]
    cases node with
    | leaf address entries next => rfl
    | branch keys children =>
      have hnext := nodeAt_concat hnode (childIndex keys key)
      rw [searchNode, searchChild_eq]
      cases hchild : children[childIndex keys key]? with
      | none =>
        -- The child is a null pointer: the next access is not defined.
        cases levels with
        | zero => rfl
        | succ levels =>
          simp only [descendWork, Work.eval_bind, eval_readTable, h.here, Option.bind_some, hroot,
            hnext, child?, hchild]
          rfl
      | some child =>
        apply ih (hnext.trans hchild)
        have hle := height_le_heightAll (List.mem_of_getElem? hchild)
        rw [height] at hlevels
        omega

theorem eval_searchWork (key : Int) :
    (searchWork position key).eval db = ((bptreeSearch table.index key).map .ok, db) := by
  simp only [searchWork, Work.eval_bind, eval_readTable, h.here, Option.bind_some, Option.map_some,
    Work.evalNext_ok]
  cases hroot : table.index.root with
  | none =>
    rw [bptreeSearch, hroot]
    rfl
  | some root =>
    have hpos := height_pos root
    rw [Option.map_some, Option.getD_some, if_neg (by omega), bptreeSearch, hroot]
    exact eval_descendWork h hroot key rfl (Nat.le_refl _)

theorem eval_rowObjectsWork (selects : Row → Option Bool) (count rowIndex : Nat)
    (hcount : rowIndex + count = table.rows.length) :
    (rowObjectsWork position table.schema selects count rowIndex).eval db =
      (rowObjects table.schema selects (table.rows.drop rowIndex), db) := by
  induction count generalizing rowIndex with
  | zero =>
    rw [List.drop_eq_nil_of_le (by omega)]
    rfl
  | succ count ih =>
    have hlt : rowIndex < table.rows.length := by omega
    rw [List.drop_eq_getElem_cons hlt, rowObjectsWork, rowObjects]
    simp only [Work.eval_bind, eval_readTable, h.here, Option.bind_some,
      List.getElem?_eq_getElem hlt, Option.map_some, Work.evalNext_ok]
    cases selects table.rows[rowIndex] with
    | none => rfl
    | some selected =>
      cases selected with
      | false => exact ih (rowIndex + 1) (by omega)
      | true =>
        simp only [Work.eval_bind, Work.eval_of]
        apply Work.evalNext_andThen
        intro object
        rw [Work.eval_bind, ih (rowIndex + 1) (by omega)]
        exact Work.evalNext_andThen (fun _ => rfl) _

theorem eval_foundObjectsWork (found : Bool × Int) :
    (foundObjectsWork position table.schema found).eval db = (foundObjects table found, db) := by
  obtain ⟨found, rowIndex⟩ := found
  cases found with
  | false => rfl
  | true =>
    simp only [foundObjectsWork, foundObjects, Work.eval_bind, eval_readTable, h.here,
      Option.bind_some]
    cases table.rows[rowIndex.toNat]? with
    | none => rfl
    | some row =>
      simp only [Option.map_some, Work.evalNext_ok, Work.eval_bind, Work.eval_of]
      exact Work.evalNext_andThen (fun _ => rfl) _

theorem eval_selectObjectsWork (condition : Option Condition) :
    (selectObjectsWork position table.schema condition).eval db =
      (selectObjects table condition, db) := by
  have hrows (selects : Row → Option Bool) :=
    eval_rowObjectsWork h selects table.rows.length 0 (Nat.zero_add _)
  cases condition with
  | none =>
    simp only [selectObjectsWork, selectObjects, Work.eval_bind, eval_readTable, h.here,
      Option.bind_some, Option.map_some, Work.evalNext_ok]
    exact hrows _
  | some condition =>
    rw [selectObjectsWork, selectObjects]
    by_cases hid : condition.column = ascii "id"
    · rw [if_pos hid, if_pos hid]
      by_cases hint : isIntegerString condition.value = false
      · rw [if_pos hint, if_pos hint]
        rfl
      · rw [if_neg hint, if_neg hint]
        rw [Work.eval_bind, eval_searchWork h]
        cases bptreeSearch table.index (atoi condition.value) with
        | none => rfl
        | some found => exact eval_foundObjectsWork h found
    · rw [if_neg hid, if_neg hid]
      cases findColumnIndex table.schema condition.column with
      | none => rfl
      | some columnIndex =>
        simp only [Work.eval_bind, eval_readTable, h.here, Option.bind_some, Option.map_some,
          Work.evalNext_ok]
        exact hrows _

theorem eval_selectWork {query : Query} (hname : query.tableName = some tableName) :
    ∃ out, (selectWork query).eval db = (out, db) ∧
      buildSelectPayload query db = out.map fun out => (db, out) := by
  refine ⟨andThen (selectObjects table query.condition) fun objects =>
    some (.ok (selectPayload tableName objects)), ?_, ?_⟩
  · simp only [selectWork, hname, Work.eval_bind, eval_getTableWork h, Work.evalNext_ok,
      eval_readTable, h.here, Option.bind_some, Option.map_some, eval_selectObjectsWork h,
      Option.getD_some]
    exact Work.evalNext_andThen (fun _ => rfl) _
  · simp only [buildSelectPayload, hname, h.getTable, h.here, Option.getD_some]
    rcases selectObjects table query.condition with _ | e | objects
    · rfl
    · rfl
    · rfl

theorem eval_insertFieldsWork (values : List Bytes) :
    (insertFieldsWork position table.schema values).eval db =
      (some (insertFields table values), db) := by
  rw [insertFieldsWork, insertFields]
  split
  · rfl
  · split
    · simp only [Work.eval_bind, eval_readTable, h.here, Option.bind_some, Option.map_some,
        Work.evalNext_ok, Work.eval_pure]
    · rfl

end

/-! ## INSERT alone -/

theorem writeTable_writeTable (disk : Disk) (tableName file file' : Bytes) :
    writeTable (writeTable disk tableName file) tableName file' = writeTable disk tableName file' := by
  simp only [writeTable, Disk.mk.injEq, true_and]
  funext name
  split
  · rfl
  · rfl

theorem eval_appendFile (disk : Disk) (ctx : DbContext) (tableName file bytes : Bytes) :
    (appendFile tableName bytes).eval ⟨writeTable disk tableName file, ctx⟩ =
      (some (.ok ()), ⟨writeTable disk tableName (file ++ bytes), ctx⟩) := by
  rw [appendFile, eval_change, writeTable_writeTable]
  simp [writeTable]

theorem eval_appendBytes (disk : Disk) (ctx : DbContext) (tableName file bytes : Bytes) :
    (appendBytes tableName bytes).eval ⟨writeTable disk tableName file, ctx⟩ =
      (some (.ok ()), ⟨writeTable disk tableName (file ++ bytes), ctx⟩) := by
  induction bytes generalizing file with
  | nil => rw [List.append_nil]; rfl
  | cons byte bytes ih =>
    rw [appendBytes, Work.eval_bind, eval_appendFile, Work.evalNext_ok, ih, List.append_assoc]
    rfl

theorem eval_appendCsvRowWork (db : Db) (tableName : Bytes) {fields : Row}
    (hfields : fields.isEmpty = false) :
    (appendCsvRowWork tableName fields).eval db = (some (.ok ()),
      ⟨writeTable db.disk tableName ((db.disk.tables tableName).getD [] ++ csvLine fields),
        db.ctx⟩) := by
  rw [appendCsvRowWork, hfields, if_neg Bool.false_ne_true, Work.eval_bind, appendFile, eval_change,
    Work.evalNext_ok, eval_appendBytes, List.append_nil]

section

variable {ctx : DbContext} {position : Nat} (hlt : position < ctx.tables.length) (disk : Disk)
include hlt

theorem setTable_here (table : TableState) :
    (ctx.setTable position table).tables[position]? = some table := by
  simp [DbContext.setTable, hlt]

theorem eval_modifyTable (table : TableState) (f : TableState → TableState) :
    (modifyTable position f).eval ⟨disk, ctx.setTable position table⟩ =
      (some (.ok ()), ⟨disk, ctx.setTable position (f table)⟩) := by
  rw [modifyTable, eval_change]
  simp [DbContext.setTable, List.modify_eq_set_getElem?, hlt]

theorem eval_setIndex (scratch : List BPTree) (table : TableState) (index : BPTree) :
    (setIndex position scratch index).eval ⟨disk, ctx.setTable position table⟩ =
      (some (.ok ()), ⟨disk, ctx.setTable position { table with index }⟩) := by
  induction scratch generalizing table with
  | nil => exact eval_modifyTable hlt disk table _
  | cons torn scratch ih =>
    rw [setIndex, Work.eval_bind, eval_modifyTable hlt, Work.evalNext_ok, ih]

theorem eval_updateNextId (table : TableState) (id : Int) :
    (updateNextId position id).eval ⟨disk, ctx.setTable position table⟩ = (some (.ok ()),
      ⟨disk, ctx.setTable position { table with nextId := nextIdAfter table.nextId id }⟩) := by
  simp only [updateNextId, Work.eval_bind, eval_readTable, setTable_here hlt, Option.bind_some,
    Option.map_some, Work.evalNext_ok, nextIdAfter]
  split
  · exact eval_modifyTable hlt disk table _
  · rfl

end

theorem setTable_self {ctx : DbContext} {position : Nat} {table : TableState}
    (here : ctx.tables[position]? = some table) : ctx.setTable position table = ctx := by
  obtain ⟨hlt, rfl⟩ := List.getElem?_eq_some_iff.mp here
  simp [DbContext.setTable]

theorem eval_commitWork {ctx : DbContext} {position : Nat} (hlt : position < ctx.tables.length)
    (disk : Disk) (scratch : List BPTree) (tableName : Bytes) {table : TableState}
    {values : List Bytes} {fields : Row} {id : Int} (hprep : Prepared table values fields id)
    {index : BPTree}
    (hindex : bptreeInsert allocated table.index id table.rows.length = some (index, .ok ())) :
    (commitWork scratch tableName position fields id).eval ⟨disk, ctx.setTable position table⟩ =
      (some (.ok [.insertDone]),
        ⟨writeTable disk tableName ((disk.tables tableName).getD [] ++ csvLine fields),
          ctx.setTable position (insertedTable table fields id index)⟩) := by
  simp only [commitWork, Work.eval_bind, eval_appendCsvRowWork _ tableName hprep.nonempty,
    Work.evalNext_ok, eval_readTable, setTable_here hlt, Option.bind_some, Option.map_some,
    eval_modifyTable hlt, appendRowToMemory, hindex, eval_setIndex hlt, eval_updateNextId hlt,
    Work.eval_pure, insertedTable]

theorem eval_insertWork {db : Db} {tableName : Bytes} {position : Nat} {table : TableState}
    (h : Loaded db tableName position table) (ht : table.Valid) (scratch : List BPTree)
    {query : Query} (hname : query.tableName = some tableName) :
    ∃ out db', (insertWork scratch query).eval db = (out, db') ∧
      executeInsert query db = (out.map fun out => (db', out)) ∧ (out = none → db' = db) := by
  have hwork : (insertWork scratch query).eval db =
      Work.evalNext (fun prepared => commitWork scratch tableName position prepared.1 prepared.2)
        (prepareInsert table query.values, db) := by
    simp only [insertWork, hname, Work.eval_bind, eval_getTableWork h, Work.evalNext_ok,
      eval_readTable, h.here, Option.bind_some, Option.map_some, eval_insertFieldsWork h,
      Option.getD_some, prepareInsert]
    cases insertFields table query.values with
    | error e => rfl
    | ok fields =>
      simp only [Work.evalNext_ok, Work.eval_bind, Work.eval_of]
      cases checkFields validateValue table.schema.columns fields with
      | error e => rfl
      | ok u =>
        simp only [Work.evalNext_ok, Work.eval_bind, Work.eval_of]
        cases keyField table.schema fields with
        | none => rfl
        | some field =>
          simp only [Option.map_some, Work.evalNext_ok, Work.eval_bind, eval_searchWork h]
          rcases bptreeSearch table.index (atoi field) with _ | ⟨_ | _, row⟩
          · rfl
          · rfl
          · rfl
  rw [hwork]
  simp only [executeInsert, hname, h.getTable, h.here, Option.getD_some]
  rcases hprep : prepareInsert table query.values with _ | e | ⟨fields, id⟩
  · exact ⟨none, db, rfl, rfl, fun _ => rfl⟩
  · exact ⟨some (.error e), db, rfl, rfl, fun _ => rfl⟩
  · have hprep := prepareInsert_ok hprep
    obtain ⟨index, hindex, -⟩ := hprep.insert ht
    have hlt := (List.getElem?_eq_some_iff.mp h.here).1
    have hcommit := eval_commitWork hlt db.disk scratch tableName hprep hindex
    rw [setTable_self h.here] at hcommit
    exact ⟨_, _, hcommit, commitInsert_eq hprep db tableName position hindex, by simp⟩

end MiniSql.Server
