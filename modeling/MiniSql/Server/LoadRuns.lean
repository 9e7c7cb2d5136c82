import MiniSql.Lib.Threads
import MiniSql.Server.LoadsAlone

/-!
# Runs in which loads are alone

When the steps of a load are taken only while no other reader is in its section,
a first access does what `db_context_get_table` does alone: outside a load the
steps of a reader leave the memory as it is, and during a load nobody else
depends on the memory. Every reader that gets enough steps answers.
-/

namespace MiniSql.Server

open Storage Index Query

/-! ## In step with the sequential code -/

theorem Local.of_outside {ι : Type} {db : Db} {select : Select} {i : ι} {m : Memory ι} {pc : ReaderPc}
    (h : Local db select i m pc) (houtside : pc.outside = true) (m' : Memory ι) :
    Local db select i m' pc := by
  cases pc with
  | waiting => trivial
  | done answer => exact h
  | _ => cases houtside

section

variable {ι : Type} [DecidableEq ι] {db : Db} {selects : ι → Select}

theorem readerStep_memory {select : Select} (i : ι) (m : Memory ι) {pc : ReaderPc}
    (h : pc.loads = false) : (readerStep db.disk db.ctx.dbRoot select i m pc).1 = m := by
  cases pc with
  | waiting => rfl
  | scan index =>
    rw [readerStep]
    repeat' split
    all_goals rfl
  | read slot =>
    rw [readerStep, Memory.follow]
    repeat' split
    all_goals rfl
  | done answer => rfl
  | _ => cases h

/-- Every reader is in step with the sequential code. -/
structure Readers.InStep (db : Db) (selects : ι → Select) (s : Readers ι) : Prop where
  good : s.memory.Good db
  readers : ∀ i, Local db (selects i) i s.memory (s.pc i)

theorem Readers.InStep.step {s : Readers ι} (h : s.InStep db selects) {i : ι} (halone : s.Alone i) :
    (s.step db selects i).InStep db selects := by
  obtain ⟨hgood, hlocal⟩ := readerStep_kept h.good (h.readers i)
  refine ⟨hgood, ?_⟩
  intro j
  by_cases hji : j = i
  · subst hji
    simpa only [Readers.step, Function.update_self] using hlocal
  · simp only [Readers.step, Function.update_of_ne hji]
    cases hloads : (s.pc i).loads with
    | false =>
      rw [readerStep_memory i s.memory hloads]
      exact h.readers j
    | true => exact (h.readers j).of_outside (halone hloads j hji) _

theorem Readers.InStep.run {s : Readers ι} (h : s.InStep db selects) {schedule : List ι}
    (halone : s.LoadsAlone db selects schedule) : (s.run db selects schedule).InStep db selects := by
  induction schedule generalizing s with
  | nil => exact h
  | cons i schedule ih => exact ih (h.step halone.1) halone.2

omit [DecidableEq ι] in
theorem Readers.inStep_initial (hdb : Reachable db) :
    (Readers.initial db.ctx : Readers ι).InStep db selects := by
  have htables : (Readers.initial db.ctx : Readers ι).memory.tables = db.ctx.tables :=
    List.take_length
  refine ⟨⟨Nat.le_refl _, ?_⟩, fun _ => trivial⟩
  rw [htables]
  exact ⟨fun _ h => h, fun _ h => .inl h, hdb.valid.names⟩

end

/-! ## Every reader gets to its answer -/

/-- Behind the load, or without one. -/
def ReaderPc.settled : ReaderPc → Bool
  | .takeSlot | .read _ | .done _ => true
  | _ => false

/-- At most so many steps are left when there are never more than `size` tables
and the schema file has `length` bytes. Each line of the file takes two steps. -/
def stepsLeft {ι : Type} (size length : Nat) (m : Memory ι) : ReaderPc → Nat
  | .waiting => size + 2 * length + 12
  | .scan index => (size - index) + 2 * length + 11
  | .grow => 2 * length + 10
  | .begin => 2 * length + 9
  | .openSchema _ => 2 * length + 8
  | .handleLine _ _ => 2 * (m.cursor.elim 0 fun cursor => cursor.2.length) + 7
  | .nextLine _ => 2 * (m.cursor.elim 0 fun cursor => cursor.2.length) + 6
  | .endSchema _ => 5
  | .loadRows _ => 4
  | .publish => 3
  | .takeSlot => 2
  | .read _ => 1
  | .done _ => 0

def Select.schemaLength (select : Select) (db : Db) : Nat :=
  ((db.disk.schemas select.tableName).getD []).length

/-- Steps after which a SELECT among `readers` is answered. -/
def Select.stepBound (select : Select) (db : Db) (readers : Nat) : Nat :=
  db.ctx.tables.length + readers + 2 * select.schemaLength db + 12

theorem stepsLeft_eq_zero {ι : Type} {size length : Nat} {m : Memory ι} {pc : ReaderPc}
    (h : stepsLeft size length m pc = 0) : ∃ answer, pc = .done answer := by
  cases pc with
  | done answer => exact ⟨answer, rfl⟩
  | read slot => cases h
  | _ => simp only [stepsLeft] at h; omega

/-- The steps of others do not count for a reader that is outside. -/
theorem stepsLeft_of_outside {ι : Type} (size length : Nat) {pc : ReaderPc}
    (h : pc.outside = true) (m m' : Memory ι) : stepsLeft size length m pc = stepsLeft size length m' pc := by
  cases pc with
  | waiting => rfl
  | done answer => rfl
  | _ => cases h

section

variable {ι : Type} {size length : Nat} {m : Memory ι} {slot : Pointer} {bound : Nat}

theorem follow_stepsLeft {next : TableState → Memory ι × ReaderPc}
    (h : ∀ table, stepsLeft size length (next table).1 (next table).2 ≤ bound) :
    stepsLeft size length (m.follow slot next).1 (m.follow slot next).2 ≤ bound := by
  rw [Memory.follow]
  split
  · split
    · exact Nat.zero_le _
    · exact h _
  · exact Nat.zero_le _

theorem strtok_stepsLeft (owner : ι) (cursor : Bytes) :
    stepsLeft size length (m.strtok slot owner cursor).1 (m.strtok slot owner cursor).2 ≤
      2 * cursor.length + 5 := by
  rw [Memory.strtok]
  cases hline : Storage.strtok cursor with
  | none => simp [stepsLeft]
  | some token =>
    have hshort := strtok_shorter hline
    simp only [stepsLeft, Option.elim_some]
    omega

variable [DecidableEq ι] {db : Db} {select : Select}

theorem readerStep_stepsLeft (i : ι) (hsize : m.tableCount ≤ size) (pc : ReaderPc) :
    stepsLeft size (select.schemaLength db) (readerStep db.disk db.ctx.dbRoot select i m pc).1
        (readerStep db.disk db.ctx.dbRoot select i m pc).2 ≤
      stepsLeft size (select.schemaLength db) m pc - 1 := by
  cases pc with
  | waiting => simp [readerStep, stepsLeft]
  | scan index =>
    rw [readerStep]
    split
    · split
      · exact Nat.zero_le _
      · split
        · simp only [stepsLeft]
          omega
        · simp only [stepsLeft]
          omega
    · simp only [stepsLeft]
      omega
  | grow => simp [readerStep, stepsLeft]
  | begin =>
    apply follow_stepsLeft
    intro table
    simp [stepsLeft]
  | openSchema slot =>
    apply follow_stepsLeft
    intro table
    cases htext : db.disk.schemas select.tableName with
    | none => exact Nat.zero_le _
    | some text =>
      apply Nat.le_trans (strtok_stepsLeft i (cString text))
      have hle : (cString text).length ≤ text.length := (List.takeWhile_sublist _).length_le
      simp only [stepsLeft, Select.schemaLength, htext, Option.getD_some]
      omega
  | handleLine slot line =>
    apply follow_stepsLeft
    intro table
    split
    · exact Nat.zero_le _
    · exact Nat.zero_le _
    · exact Nat.le_refl _
  | nextLine slot =>
    rw [readerStep]
    split
    · exact Nat.zero_le _
    · rename_i owner cursor hcursor
      apply Nat.le_trans (strtok_stepsLeft owner cursor)
      simp [stepsLeft, hcursor]
  | endSchema slot =>
    apply follow_stepsLeft
    intro table
    split
    · exact Nat.zero_le _
    · exact Nat.le_refl _
  | loadRows slot =>
    apply follow_stepsLeft
    intro table
    repeat' split
    · exact Nat.zero_le _
    · exact Nat.zero_le _
    · exact Nat.zero_le _
    · exact Nat.le_refl _
  | publish => exact Nat.le_refl _
  | takeSlot => exact Nat.le_refl _
  | read slot =>
    apply follow_stepsLeft
    intro table
    exact Nat.le_refl _
  | done answer => exact Nat.le_refl _

/-- Only `publish` counts a table. -/
theorem readerStep_tableCount (i : ι) {pc : ReaderPc} (hpc : pc ≠ .publish) :
    (readerStep db.disk db.ctx.dbRoot select i m pc).1.tableCount = m.tableCount := by
  have hfree : (m.freeText i).tableCount = m.tableCount := by
    obtain ⟨cursor, hfree⟩ := m.freeText_eq i
    rw [hfree]
  have hstrtok (m' : Memory ι) (slot : Pointer) (owner : ι) (cursor : Bytes) :
      (m'.strtok slot owner cursor).1.tableCount = m'.tableCount := by
    rw [Memory.strtok]
    split
    · rfl
    · rfl
  have hfollow (slot : Pointer) (next : TableState → Memory ι × ReaderPc)
      (h : ∀ table, (next table).1.tableCount = m.tableCount) :
      (m.follow slot next).1.tableCount = m.tableCount := by
    rw [Memory.follow]
    repeat' split
    · rfl
    · exact h _
    · rfl
  cases pc with
  | publish => exact absurd rfl hpc
  | grow => rfl
  | begin => exact hfollow _ _ fun _ => rfl
  | openSchema slot =>
    apply hfollow
    intro table
    split
    · rfl
    · exact hstrtok _ _ _ _
  | handleLine slot line =>
    apply hfollow
    intro table
    split
    · rfl
    · exact hfree
    · rfl
  | nextLine slot =>
    rw [readerStep]
    split
    · rfl
    · exact hstrtok _ _ _ _
  | endSchema slot =>
    apply hfollow
    intro table
    split
    · exact hfree
    · exact hfree
  | loadRows slot =>
    apply hfollow
    intro table
    repeat' split
    all_goals rfl
  | takeSlot => rfl
  | _ => rw [readerStep_memory i m rfl]

theorem readerStep_settled (i : ι) {pc : ReaderPc} (h : pc.settled = true) :
    (readerStep db.disk db.ctx.dbRoot select i m pc).2.settled = true := by
  cases pc with
  | takeSlot => rfl
  | read slot =>
    rw [readerStep, Memory.follow]
    repeat' split
    all_goals rfl
  | done answer => rfl
  | _ => cases h

end

section

variable {ι : Type} [Fintype ι] [DecidableEq ι] {db : Db} {selects : ι → Select} {s : Readers ι}

/-- A reader publishes one table at most. -/
def Readers.Counted (db : Db) (s : Readers ι) : Prop :=
  s.memory.tableCount ≤ db.ctx.tables.length + Threads.count ReaderPc.settled s.pc

theorem Readers.Counted.step (h : s.Counted db) (i : ι) : (s.step db selects i).Counted db := by
  have hcount := Threads.count_update ReaderPc.settled s.pc i
    (readerStep db.disk db.ctx.dbRoot (selects i) i s.memory (s.pc i)).2
  unfold Readers.Counted at h ⊢
  simp only [Readers.step]
  by_cases hpublish : s.pc i = .publish
  · rw [hpublish] at hcount ⊢
    simp only [readerStep, ReaderPc.settled, Bool.toNat_false, Bool.toNat_true] at hcount ⊢
    omega
  · rw [readerStep_tableCount i hpublish]
    cases hold : (s.pc i).settled with
    | false =>
      rw [hold, Bool.toNat_false] at hcount
      omega
    | true =>
      rw [hold, readerStep_settled i hold] at hcount
      omega

/-- Steps that the reader `i` has left at most. -/
def Readers.left (db : Db) (selects : ι → Select) (i : ι) (s : Readers ι) : Nat :=
  stepsLeft (db.ctx.tables.length + Fintype.card ι) ((selects i).schemaLength db) s.memory (s.pc i)

theorem Readers.left_step (hcounted : s.Counted db) {j : ι} (halone : s.Alone j) (i : ι) :
    (s.step db selects j).left db selects i ≤ s.left db selects i - if j = i then 1 else 0 := by
  unfold Readers.left
  by_cases hji : j = i
  · subst hji
    have hsize : s.memory.tableCount ≤ db.ctx.tables.length + Fintype.card ι :=
      Nat.le_trans hcounted (Nat.add_le_add_left (Threads.count_le_card _ _) _)
    rw [if_pos rfl]
    simpa only [Readers.step, Function.update_self] using readerStep_stepsLeft j hsize (s.pc j)
  · rw [if_neg hji, Nat.sub_zero]
    simp only [Readers.step, Function.update_of_ne (Ne.symm hji)]
    cases hloads : (s.pc j).loads with
    | false => rw [readerStep_memory j s.memory hloads]
    | true =>
      have houtside := halone hloads i (Ne.symm hji)
      exact Nat.le_of_eq (stepsLeft_of_outside _ _ houtside _ _)

theorem Readers.left_run (hcounted : s.Counted db) {schedule : List ι}
    (halone : s.LoadsAlone db selects schedule) (i : ι) :
    (s.run db selects schedule).left db selects i ≤ s.left db selects i - schedule.count i := by
  induction schedule generalizing s with
  | nil => exact Nat.le_refl _
  | cons j schedule ih =>
    have hstep : (s.step db selects j).left db selects i ≤ _ :=
      Readers.left_step hcounted halone.1 i
    have hrest := ih (hcounted.step j) halone.2
    simp only [List.count_cons, beq_iff_eq]
    change ((s.step db selects j).run db selects schedule).left db selects i ≤ _
    omega

/-- **First accesses that load alone are safe.** In every run in which each step
of a load is taken while every other reader is outside its section, every SELECT
that is answered gets the answer that it gets alone, every SELECT with enough
steps is answered, and every table name is entered once. -/
theorem first_access_alone (hdb : Reachable db) (selects : ι → Select) (schedule : List ι)
    (halone : (Readers.initial db.ctx).LoadsAlone db selects schedule) :
    let s := (Readers.initial db.ctx).run db selects schedule
    (∀ i answer, s.pc i = .done answer → answer = (selects i).alone db) ∧
      (∀ i, (selects i).stepBound db (Fintype.card ι) ≤ schedule.count i →
        s.pc i = .done ((selects i).alone db)) ∧
      (s.memory.tables.map TableState.name).Nodup := by
  intro s
  have h : s.InStep db selects := (Readers.inStep_initial hdb).run halone
  have hanswer : ∀ i answer, s.pc i = .done answer → answer = (selects i).alone db := by
    intro i answer hdone
    have hlocal := h.readers i
    rwa [hdone] at hlocal
  refine ⟨hanswer, ?_, h.good.grown.names⟩
  intro i hsteps
  have hcounted : (Readers.initial db.ctx : Readers ι).Counted db := Nat.le_add_right _ _
  have hleft : s.left db selects i ≤
      (selects i).stepBound db (Fintype.card ι) - schedule.count i :=
    Readers.left_run hcounted halone i
  obtain ⟨answer, hdone⟩ := stepsLeft_eq_zero (Nat.le_zero.mp (hleft.trans (by omega)))
  rw [hdone, hanswer i answer hdone]

end

/-- One reader loads the table, then both read it. -/
theorem first_access_alone_users :
    let s := (Readers.initial usersDb.ctx).run usersDb bothUsers
      (List.replicate 17 0 ++ [1, 1, 0, 1])
    (∃ answer, s.pc 1 = .done (some (.ok answer)) ∧
      (bothUsers 1).alone usersDb = some (.ok answer)) ∧
      (s.memory.tables.map TableState.name).Nodup := by
  intro s
  have halone : (Readers.initial usersDb.ctx).LoadsAlone usersDb bothUsers
      (List.replicate 17 0 ++ [1, 1, 0, 1]) := by decide +kernel
  obtain ⟨hanswers, -, hnames⟩ :=
    first_access_alone (.create usersDisk (ascii "db")) bothUsers _ halone
  have hdone : s.pc 1 = .done (some (.ok (selectPayload (ascii "users")
      [ascii "\x7b\"id\":1,\"name\":\"ann\"\x7d", ascii "\x7b\"id\":7,\"name\":\"bob\"\x7d"]))) := by
    decide +kernel
  exact ⟨⟨_, hdone, (hanswers 1 _ hdone).symm⟩, hnames⟩

end MiniSql.Server
