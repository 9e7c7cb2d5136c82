import Mathlib

/-!
# Who frees what

Programs that call `malloc`, `realloc` and `free`, with the blocks that are allocated as
their state. A program has no result when it frees or touches a block that is not
allocated. `Runs owned prog post` says that the program, started with some blocks of its
own beside any others, has a result and leaves the others alone; `post` relates the result
to the blocks that are the program's own at the end.
-/

namespace MiniSql.Alloc

/-- The blocks that are allocated. Each call for memory names a block of its own by the
number of calls before it. -/
structure Ledger where
  live : Multiset Nat
  calls : Nat
  nodup : live.Nodup
  earlier : ∀ block ∈ live, block < calls

namespace Ledger

def refuse (ledger : Ledger) : Ledger where
  live := ledger.live
  calls := ledger.calls + 1
  nodup := ledger.nodup
  earlier := fun block hblock => Nat.lt_succ_of_lt (ledger.earlier block hblock)

def grant (ledger : Ledger) : Ledger where
  live := {ledger.calls} + ledger.live
  calls := ledger.calls + 1
  nodup := by
    rw [Multiset.singleton_add, Multiset.nodup_cons]
    exact ⟨fun hmem => Nat.lt_irrefl _ (ledger.earlier _ hmem), ledger.nodup⟩
  earlier := by
    intro block hblock
    rcases Multiset.mem_add.mp hblock with hnew | hold
    · exact Multiset.mem_singleton.mp hnew ▸ Nat.lt_succ_self _
    · exact Nat.lt_succ_of_lt (ledger.earlier block hold)

def release (ledger : Ledger) (block : Nat) : Ledger where
  live := ledger.live.erase block
  calls := ledger.calls
  nodup := ledger.nodup.erase block
  earlier := fun other hother => ledger.earlier other (Multiset.mem_of_mem_erase hother)

end Ledger

abbrev Allocating (α : Type) : Type := StateT Ledger Option α

def malloc (grants : Nat → Bool) : Allocating (Option Nat) := fun ledger =>
  if grants ledger.calls then some (some ledger.calls, ledger.grant)
  else some (none, ledger.refuse)

/-- An access through a pointer. -/
def touch : Option Nat → Allocating Unit
  | none => fun _ => none
  | some block => fun ledger => if block ∈ ledger.live then some ((), ledger) else none

def free : Option Nat → Allocating Unit
  | none => pure ()
  | some block => fun ledger =>
    if block ∈ ledger.live then some ((), ledger.release block) else none

/-- `realloc`: a new block for the old one, which stays where there is no memory. -/
def realloc (grants : Nat → Bool) : Option Nat → Allocating (Option Nat)
  | none => malloc grants
  | some old => do
    touch (some old)
    match ← malloc grants with
    | none => pure none
    | some block => do
      free (some old)
      pure (some block)

/-- A pointer, with what it points to. -/
structure Boxed (α : Type) where
  block : Nat
  content : α
  deriving DecidableEq, Repr

/-- Memory for a copy. -/
def box (grants : Nat → Bool) {α : Type} (content : α) : Allocating (Option (Boxed α)) := do
  match ← malloc grants with
  | none => pure none
  | some block => pure (some ⟨block, content⟩)

def freeBox {α : Type} (pointer : Boxed α) : Allocating Unit := free (some pointer.block)

/-- A loop over the cells of an array. -/
def forCells {α : Type} (array : Option Nat) (visit : α → Allocating Unit) :
    List α → Allocating Unit
  | [] => pure ()
  | cell :: cells => do
    touch array
    visit cell
    forCells array visit cells

/-- Free an array, and before it what its cells hold. -/
def freeArray {α : Type} (array : Option Nat) (release : α → Allocating Unit) (cells : List α) :
    Allocating Unit := do
  forCells array release cells
  free array

/-- An array in memory, null at first. The cells below its count stand in a list. -/
structure Vec (α : Type) where
  array : Option Nat
  capacity : Nat
  cells : List α

namespace Vec

variable {α : Type}

def empty : Vec α := ⟨none, 0, []⟩

/-- A larger array; nothing if there is no memory for it. -/
def enlarge (grants : Nat → Bool) (capacity : Nat) (vec : Vec α) : Allocating (Option (Vec α)) := do
  match ← realloc grants vec.array with
  | none => pure none
  | some array => pure (some ⟨some array, capacity, vec.cells⟩)

/-- Room for one more cell, in an array that doubles from `first` cells. -/
def grow (grants : Nat → Bool) (first : Nat) (vec : Vec α) : Allocating (Option (Vec α)) :=
  if vec.cells.length = vec.capacity then
    vec.enlarge grants (if vec.capacity = 0 then first else vec.capacity * 2)
  else pure (some vec)

/-- Write the cell behind the last one. There is no result if the array has no such cell. -/
def push (vec : Vec α) (cell : α) : Allocating (Vec α) :=
  if vec.cells.length < vec.capacity then do
    touch vec.array
    pure { vec with cells := vec.cells ++ [cell] }
  else fun _ => none

end Vec

/-! ## Rules -/

variable {α β : Type} {owned : Multiset Nat}

def Runs (owned : Multiset Nat) (prog : Allocating α) (post : α → Multiset Nat → Prop) : Prop :=
  ∀ (others : Multiset Nat) (ledger : Ledger), ledger.live = others + owned →
    ∃ a ledger' owned', prog ledger = some (a, ledger') ∧ ledger'.live = others + owned' ∧
      post a owned'

/-- The program has no result: it touches or frees what is not its own. -/
def Faults (owned : Multiset Nat) (prog : Allocating α) : Prop :=
  ∀ (others : Multiset Nat) (ledger : Ledger), ledger.live = others + owned → prog ledger = none

/-- Some call for memory is refused. -/
def Refuses (grants : Nat → Bool) : Prop := ∃ n, grants n = false

/-- A call for memory: a new block beside `kept`, or nothing and `before`. -/
def Granted (grants : Nat → Bool) (before kept : Multiset Nat) :
    Option Nat → Multiset Nat → Prop
  | none, owned => owned = before ∧ Refuses grants
  | some block, owned => owned = {block} + kept

/-- Memory for a copy: the copy beside `kept`, or nothing. -/
def Copied (grants : Nat → Bool) (kept : Multiset Nat) (content : α) :
    Option (Boxed α) → Multiset Nat → Prop
  | none, owned => owned = kept ∧ Refuses grants
  | some copy, owned => owned = {copy.block} + kept ∧ copy.content = content

/-- The blocks of a pointer that may be null. -/
def blockOf : Option Nat → Multiset Nat
  | none => 0
  | some block => {block}

/-- The result of a plain function, unless memory was refused. A failure leaves `kept`. -/
def Follows {ε γ : Type} (grants : Nat → Bool) (plain : Except ε γ) (kept : Multiset Nat)
    (holds : α → γ → Multiset Nat → Prop) : Except ε α → Multiset Nat → Prop
  | .error e, owned => owned = kept ∧ (plain = .error e ∨ Refuses grants)
  | .ok a, owned => ∃ c, plain = .ok c ∧ holds a c owned

def Boxed.blocks (pointer : Boxed α) : Multiset Nat := {pointer.block}

namespace Runs

variable {prog : Allocating α} {post : α → Multiset Nat → Prop}

theorem pure {a : α} (h : post a owned) : Runs owned (Pure.pure a) post := by
  intro others ledger hlive
  exact ⟨a, ledger, owned, rfl, hlive, h⟩

theorem bind {next : α → Allocating β} {last : β → Multiset Nat → Prop}
    (h : Runs owned prog post) (hnext : ∀ a owned', post a owned' → Runs owned' (next a) last) :
    Runs owned (prog >>= next) last := by
  intro others ledger hlive
  obtain ⟨a, ledger₁, owned₁, hprog, hlive₁, hpost⟩ := h others ledger hlive
  obtain ⟨b, ledger₂, owned₂, hrest, hlive₂, hlast⟩ :=
    hnext a owned₁ hpost others ledger₁ hlive₁
  refine ⟨b, ledger₂, owned₂, ?_, hlive₂, hlast⟩
  show (prog ledger).bind _ = _
  rw [hprog]
  exact hrest

theorem mono {last : α → Multiset Nat → Prop} (h : Runs owned prog post)
    (himp : ∀ a owned', post a owned' → last a owned') : Runs owned prog last := by
  intro others ledger hlive
  obtain ⟨a, ledger', owned', hprog, hlive', hpost⟩ := h others ledger hlive
  exact ⟨a, ledger', owned', hprog, hlive', himp a owned' hpost⟩

/-- A program for its effect on memory only. -/
theorem seq {prog : Allocating Unit} {next : Unit → Allocating β} {last : β → Multiset Nat → Prop}
    {owned' : Multiset Nat} (h : Runs owned prog fun _ rest => rest = owned')
    (hnext : Runs owned' (next ()) last) : Runs owned (prog >>= next) last := by
  apply h.bind
  intro _ rest hrest
  exact hrest ▸ hnext

theorem faults {next : α → Allocating β} (h : Runs owned prog post)
    (hnext : ∀ a owned', post a owned' → Faults owned' (next a)) : Faults owned (prog >>= next) := by
  intro others ledger hlive
  obtain ⟨a, ledger', owned', hprog, hlive', hpost⟩ := h others ledger hlive
  show (prog ledger).bind _ = none
  rw [hprog]
  exact hnext a owned' hpost others ledger' hlive'

end Runs

theorem malloc_runs (grants : Nat → Bool) : Runs owned (malloc grants) (Granted grants owned owned) := by
  intro others ledger hlive
  cases hgrants : grants ledger.calls with
  | true =>
    refine ⟨some ledger.calls, ledger.grant, _, by rw [malloc, hgrants]; rfl, ?_, rfl⟩
    show {ledger.calls} + ledger.live = _
    rw [hlive, add_left_comm]
  | false =>
    exact ⟨none, ledger.refuse, _, by rw [malloc, hgrants]; rfl, hlive, rfl, _, hgrants⟩

theorem touch_runs {block : Nat} (hmem : block ∈ owned) :
    Runs owned (touch (some block)) fun _ rest => rest = owned := by
  intro others ledger hlive
  refine ⟨(), ledger, owned, if_pos ?_, hlive, rfl⟩
  rw [hlive]
  exact Multiset.mem_add.mpr (.inr hmem)

theorem Faults.bind {prog : Allocating α} (h : Faults owned prog) (next : α → Allocating β) :
    Faults owned (prog >>= next) := by
  intro others ledger hlive
  show (prog ledger).bind _ = none
  rw [h others ledger hlive]
  rfl

/-- An access to a block of its own that it has given up. -/
theorem Runs.touch_faults {prog : Allocating α} {left : Multiset Nat} {block : Nat}
    (h : Runs ({block} + owned) prog fun _ rest => rest = left) (hleft : left ≤ owned)
    (next : Unit → Allocating β) :
    Faults ({block} + owned) (prog >>= fun _ => touch (some block) >>= next) := by
  intro others ledger hlive
  obtain ⟨a, ledger', rest, hprog, hlive', rfl⟩ := h others ledger hlive
  have hnodup : (block ::ₘ (others + owned)).Nodup := by
    have hnodup := ledger.nodup
    rwa [hlive, add_left_comm, Multiset.singleton_add] at hnodup
  have hfreed : touch (some block) ledger' = none := by
    apply if_neg
    rw [hlive']
    exact fun hmem => (Multiset.nodup_cons.mp hnodup).1
      (Multiset.mem_of_le (Multiset.add_le_add_left hleft) hmem)
  show (prog ledger).bind _ = none
  rw [hprog]
  show (touch (some block) ledger').bind _ = none
  rw [hfreed]
  rfl

theorem free_runs (pointer : Option Nat) :
    Runs (blockOf pointer + owned) (free pointer) fun _ rest => rest = owned := by
  cases pointer with
  | none => exact Runs.pure (zero_add _)
  | some block =>
    intro others ledger hlive
    rw [blockOf, Multiset.singleton_add, Multiset.add_cons] at hlive
    refine ⟨(), ledger.release block, owned, if_pos ?_, ?_, rfl⟩
    · rw [hlive]
      exact Multiset.mem_cons_self _ _
    · show ledger.live.erase block = _
      rw [hlive, Multiset.erase_cons_head]

theorem freeBox_runs (pointer : Boxed α) :
    Runs (pointer.blocks + owned) (freeBox pointer) fun _ rest => rest = owned :=
  free_runs (some pointer.block)

theorem realloc_runs (grants : Nat → Bool) (old : Option Nat) :
    Runs (blockOf old + owned) (realloc grants old) (Granted grants (blockOf old + owned) owned) := by
  cases old with
  | none =>
    simp only [blockOf, zero_add]
    exact malloc_runs grants
  | some old =>
    apply (touch_runs (Multiset.mem_add.mpr (.inl (Multiset.mem_singleton_self old)))).seq
    apply (malloc_runs grants).bind
    intro given owned' hgiven
    cases given with
    | none => exact Runs.pure hgiven
    | some block =>
      obtain rfl : owned' = {block} + (blockOf (some old) + owned) := hgiven
      rw [add_left_comm]
      exact (free_runs (some old)).seq (Runs.pure rfl)

theorem box_runs (grants : Nat → Bool) (content : α) :
    Runs owned (box grants content) (Copied grants owned content) := by
  apply (malloc_runs grants).bind
  intro given owned' hgiven
  cases given with
  | none => exact Runs.pure hgiven
  | some block => exact Runs.pure ⟨hgiven, rfl⟩

/-- A loop that releases what the cells own. -/
theorem forCells_release {array : Option Nat} {release : α → Allocating Unit}
    {blocks : α → Multiset Nat} {cells : List α}
    (hrelease : ∀ cell ∈ cells, ∀ rest, Runs (blocks cell + rest) (release cell) fun _ left => left = rest)
    (harray : ∀ cell ∈ cells, ∃ block ∈ owned, array = some block) :
    Runs ((cells.map blocks).sum + owned) (forCells array release cells)
      fun _ left => left = owned := by
  induction cells with
  | nil => exact Runs.pure (zero_add owned)
  | cons cell cells ih =>
    obtain ⟨block, hblock, rfl⟩ := harray cell List.mem_cons_self
    rw [List.map_cons, List.sum_cons, add_assoc]
    apply (touch_runs (by simp [hblock])).seq
    apply (hrelease cell List.mem_cons_self _).seq
    exact ih (fun other hother => hrelease other (List.mem_cons_of_mem _ hother))
      fun other hother => harray other (List.mem_cons_of_mem _ hother)

/-- A loop that only reads. -/
theorem forCells_read {array : Option Nat} {visit : α → Allocating Unit} {cells : List α}
    (hvisit : ∀ cell ∈ cells, Runs owned (visit cell) fun _ left => left = owned)
    (harray : ∀ cell ∈ cells, ∃ block ∈ owned, array = some block) :
    Runs owned (forCells array visit cells) fun _ left => left = owned := by
  induction cells with
  | nil => exact Runs.pure rfl
  | cons cell cells ih =>
    obtain ⟨block, hblock, rfl⟩ := harray cell List.mem_cons_self
    apply (touch_runs hblock).seq
    apply (hvisit cell List.mem_cons_self).seq
    exact ih (fun other hother => hvisit other (List.mem_cons_of_mem _ hother))
      fun other hother => harray other (List.mem_cons_of_mem _ hother)

theorem freeArray_runs {array : Option Nat} {release : α → Allocating Unit}
    {blocks : α → Multiset Nat} {cells : List α}
    (hrelease : ∀ cell ∈ cells, ∀ rest, Runs (blocks cell + rest) (release cell) fun _ left => left = rest)
    (hnull : array = none → cells = []) :
    Runs ((cells.map blocks).sum + (blockOf array + owned)) (freeArray array release cells)
      fun _ left => left = owned := by
  refine (forCells_release hrelease ?_).seq (free_runs array)
  intro cell hcell
  cases array with
  | none =>
    rw [hnull rfl] at hcell
    cases hcell
  | some block => exact ⟨block, by simp [blockOf], rfl⟩

namespace Vec

structure Sound (vec : Vec α) : Prop where
  null : vec.array = none → vec.capacity = 0
  room : vec.cells.length ≤ vec.capacity

/-- What an array owns, with what its cells own. -/
def blocks (cellBlocks : α → Multiset Nat) (vec : Vec α) : Multiset Nat :=
  (vec.cells.map cellBlocks).sum + blockOf vec.array

theorem empty_sound : (empty : Vec α).Sound := ⟨fun _ => rfl, Nat.le_refl 0⟩

variable {vec : Vec α} {cellBlocks : α → Multiset Nat} {kept : Multiset Nat}

theorem Sound.cells_null (h : vec.Sound) (hnull : vec.array = none) : vec.cells = [] := by
  have hroom := h.room
  rw [h.null hnull] at hroom
  exact List.eq_nil_of_length_eq_zero (Nat.le_zero.mp hroom)

theorem mem_blocks {cell : α} {block : Nat} (hcell : cell ∈ vec.cells) (hblock : block ∈ cellBlocks cell) :
    block ∈ vec.blocks cellBlocks := by
  rw [blocks, Multiset.mem_add]
  exact .inl (Multiset.mem_of_le
    (List.single_le_sum (fun _ _ => Multiset.zero_le _) _ (List.mem_map_of_mem hcell)) hblock)

theorem Sound.array_mem (h : vec.Sound) (cellBlocks : α → Multiset Nat) {cell : α}
    (hcell : cell ∈ vec.cells) : ∃ array ∈ vec.blocks cellBlocks, vec.array = some array := by
  cases harray : vec.array with
  | none =>
    rw [h.cells_null harray] at hcell
    cases hcell
  | some array => exact ⟨array, by simp [blocks, harray, blockOf], rfl⟩

/-- The cells in any order. -/
theorem free_runs (h : vec.Sound) {order : List α} (horder : order.Perm vec.cells)
    {release : α → Allocating Unit}
    (hrelease : ∀ cell ∈ vec.cells, ∀ rest,
      Runs (cellBlocks cell + rest) (release cell) fun _ left => left = rest) :
    Runs (vec.blocks cellBlocks + kept) (freeArray vec.array release order) fun _ left => left = kept := by
  rw [blocks, ← (horder.map cellBlocks).sum_eq, add_assoc]
  apply freeArray_runs fun cell hcell => hrelease cell (horder.mem_iff.mp hcell)
  intro hnull
  exact List.Perm.eq_nil (h.cells_null hnull ▸ horder)

/-- An array with room for one more cell, or nothing. -/
def Grown (grants : Nat → Bool) (cellBlocks : α → Multiset Nat) (vec : Vec α) (kept : Multiset Nat) :
    Option (Vec α) → Multiset Nat → Prop
  | none, owned => owned = vec.blocks cellBlocks + kept ∧ Refuses grants
  | some grown, owned => owned = grown.blocks cellBlocks + kept ∧ grown.Sound ∧
      grown.cells = vec.cells ∧ grown.cells.length < grown.capacity

theorem enlarge_runs (grants : Nat → Bool) {capacity : Nat} (hroom : vec.cells.length < capacity) :
    Runs (vec.blocks cellBlocks + kept) (vec.enlarge grants capacity)
      (Grown grants cellBlocks vec kept) := by
  have hblocks : vec.blocks cellBlocks + kept =
      blockOf vec.array + ((vec.cells.map cellBlocks).sum + kept) := by
    rw [blocks, add_comm (vec.cells.map cellBlocks).sum, add_assoc]
  rw [hblocks]
  apply (realloc_runs grants vec.array).bind
  intro array owned harray
  cases array with
  | none => exact Runs.pure ⟨harray.1.trans hblocks.symm, harray.2⟩
  | some array =>
    refine Runs.pure ⟨?_, ⟨(fun hnull => by cases hnull), hroom.le⟩, rfl, hroom⟩
    rw [harray, ← add_assoc, add_comm _ (vec.cells.map cellBlocks).sum]
    rfl

theorem grow_runs (grants : Nat → Bool) {first : Nat} (hfirst : 0 < first) (h : vec.Sound) :
    Runs (vec.blocks cellBlocks + kept) (vec.grow grants first) (Grown grants cellBlocks vec kept) := by
  unfold grow
  split
  · apply enlarge_runs
    split <;> omega
  · rename_i hroom
    exact Runs.pure ⟨rfl, h, rfl, Nat.lt_of_le_of_ne h.room hroom⟩

theorem push_runs (h : vec.Sound) (hroom : vec.cells.length < vec.capacity) (cell : α) :
    Runs (cellBlocks cell + (vec.blocks cellBlocks + kept)) (vec.push cell) fun pushed owned =>
      owned = pushed.blocks cellBlocks + kept ∧ pushed.Sound ∧ pushed.cells = vec.cells ++ [cell] := by
  cases harray : vec.array with
  | none =>
    rw [h.null harray] at hroom
    exact absurd hroom (Nat.not_lt_zero _)
  | some array =>
    rw [push, if_pos hroom, harray]
    have hmem : array ∈ cellBlocks cell + (vec.blocks cellBlocks + kept) := by
      simp [blocks, harray, blockOf]
    apply (touch_runs hmem).seq
    refine Runs.pure ⟨?_, ⟨(fun hnull => by cases hnull), ?_⟩, rfl⟩
    · rw [blocks, blocks, harray, List.map_append, List.sum_append, List.map_singleton,
        List.sum_singleton, ← add_assoc, ← add_assoc, add_comm (cellBlocks cell)]
    · simpa using hroom

end Vec

end MiniSql.Alloc
