import Mathlib

/-!
# Linked cells in memory

A memory is a list of cells, each with an address of its own and the address of the
next one. `Linked start cells stop` says that the links lead from `start` through
exactly `cells` to `stop`. A stretch of the cells may be exchanged for any other that
leads from the same start to the same stop.
-/

structure Cell (A C : Type) where
  address : A
  content : C
  next : Option A

namespace Cell

variable {A C : Type} {start stop : Option A} {memory cells : List (Cell A C)}

def Linked : Option A → List (Cell A C) → Option A → Prop
  | start, [], stop => start = stop
  | start, cell :: cells, stop => start = some cell.address ∧ Linked cell.next cells stop

theorem linked_append {xs ys : List (Cell A C)} :
    Linked start (xs ++ ys) stop ↔ ∃ mid, Linked start xs mid ∧ Linked mid ys stop := by
  induction xs generalizing start with
  | nil => simp [Linked]
  | cons x xs ih => simp [Linked, ih, and_assoc]

theorem Linked.exchange {before mid mid' after : List (Cell A C)}
    (h : Linked start (before ++ mid ++ after) stop)
    (hmid : ∀ {p q}, Linked p mid q → Linked p mid' q) :
    Linked start (before ++ mid' ++ after) stop := by
  simp only [linked_append] at h ⊢
  obtain ⟨q, ⟨p, hbefore, hhere⟩, hafter⟩ := h
  exact ⟨q, ⟨p, hbefore, hmid hhere⟩, hafter⟩

section

variable [DecidableEq A]

/-- The cell at an address. -/
def at? (memory : List (Cell A C)) (address : A) : Option (Cell A C) :=
  memory.find? fun cell => cell.address = address

theorem at?_eq_some (hdistinct : (memory.map Cell.address).Nodup) {cell : Cell A C}
    (hcell : cell ∈ memory) : at? memory cell.address = some cell := by
  induction memory with
  | nil => cases hcell
  | cons first rest ih =>
    rw [List.map_cons, List.nodup_cons] at hdistinct
    rcases List.mem_cons.mp hcell with rfl | hcell
    · simp [at?]
    · have hne : first.address ≠ cell.address := by
        intro heq
        exact hdistinct.1 (heq ▸ List.mem_map_of_mem hcell)
      have hrest : List.find? (fun c => decide (c.address = cell.address)) rest = some cell :=
        ih hdistinct.2 hcell
      simp [at?, hne, hrest]

/-- The cells that the links pass from an address on, with a bound on their number.
There is none if a link leads nowhere or the bound is reached. -/
def follow (memory : List (Cell A C)) : Nat → Option A → Option (List (Cell A C))
  | 0, _ => none
  | _ + 1, none => some []
  | fuel + 1, some address =>
    match at? memory address with
    | none => none
    | some cell => (follow memory fuel cell.next).map (cell :: ·)

theorem Linked.follow (h : Linked start cells none) (hdistinct : (memory.map Cell.address).Nodup)
    (hcells : ∀ cell ∈ cells, cell ∈ memory) {fuel : Nat} (hfuel : cells.length < fuel) :
    follow memory fuel start = some cells := by
  induction cells generalizing start fuel with
  | nil =>
    obtain ⟨fuel, rfl⟩ : ∃ n, fuel = n + 1 := ⟨fuel - 1, by omega⟩
    obtain rfl : start = none := h
    rfl
  | cons cell cells ih =>
    obtain ⟨fuel, rfl⟩ : ∃ n, fuel = n + 1 := ⟨fuel - 1, by omega⟩
    obtain ⟨rfl, hrest⟩ := h
    obtain ⟨hcell, hcells⟩ := List.forall_mem_cons.mp hcells
    have hfollow := ih hrest hcells (Nat.lt_of_succ_lt_succ hfuel)
    simp only [Cell.follow, at?_eq_some hdistinct hcell, hfollow, Option.map_some]

end

end Cell
