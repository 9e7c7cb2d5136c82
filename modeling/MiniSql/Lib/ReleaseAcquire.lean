import Mathlib

/-!
# Release and acquire

An operational memory model for atomic variables. Each variable has a history of
messages, in the order in which they were written, and each thread a view: how far
into each history it is bound to look. A load may return any message that is not
older than the view of the thread says. A read-modify-write acts on the newest
message. A message carries the view that its release handed over, and an acquire
takes it up.
-/

namespace ReleaseAcquire

variable {ν : Type}

abbrev View (ν : Type) := ν → Nat

structure Message (ν : Type) where
  value : Int
  view : View ν

/-- The messages of one variable: the older ones, oldest first, and the newest. -/
structure History (ν : Type) where
  older : List (Message ν)
  newest : Message ν

/-- The message at an index, the newest one from its own index on. -/
def History.get (history : History ν) (index : Nat) : Message ν :=
  history.older.getD index history.newest

def History.write (history : History ν) (message : Message ν) : History ν :=
  ⟨history.older ++ [history.newest], message⟩

abbrev Memory (ν : Type) := ν → History ν

/-- Every variable holds its initial value and nobody has seen anything. -/
def Memory.initial (values : ν → Int) : Memory ν := fun x => ⟨[], ⟨values x, fun _ => 0⟩⟩

def Memory.latest (memory : Memory ν) (x : ν) : Int := (memory x).newest.value

inductive Order
  | acquire
  | release
  | acqRel
  deriving DecidableEq, Repr

def Order.acquires : Order → Bool
  | .acquire | .acqRel => true
  | .release => false

def Order.releases : Order → Bool
  | .release | .acqRel => true
  | .acquire => false

variable [DecidableEq ν]

/-- The view of a thread that has come to the message at an index. -/
def View.reach (view : View ν) (x : ν) (index : Nat) : View ν :=
  Function.update view x (max (view x) index)

/-- An acquire load: the value, and the view of the thread behind it. The message
is the one at the index that is asked for, if the thread may still see that one. -/
def Memory.load (memory : Memory ν) (view : View ν) (x : ν) (index : Nat) : Int × View ν :=
  let seen := min (max (view x) index) (memory x).older.length
  let message := (memory x).get seen
  (message.value, (view ⊔ message.view).reach x seen)

/-- A read-modify-write. Without release it hands on what the message before it
handed over. -/
def Memory.modify (memory : Memory ν) (view : View ν) (x : ν) (order : Order) (f : Int → Int) :
    Memory ν × View ν :=
  let last := (memory x).newest
  let merged := if order.acquires then view ⊔ last.view else view
  let reached := merged.reach x ((memory x).older.length + 1)
  let released := if order.releases then last.view ⊔ reached else last.view
  (Function.update memory x ((memory x).write ⟨f last.value, released⟩), reached)

/-- A release store. -/
def Memory.store (memory : Memory ν) (view : View ν) (x : ν) (value : Int) : Memory ν × View ν :=
  let reached := view.reach x ((memory x).older.length + 1)
  (Function.update memory x ((memory x).write ⟨value, reached⟩), reached)

theorem Memory.latest_modify (memory : Memory ν) (view : View ν) (x : ν) (order : Order)
    (f : Int → Int) (y : ν) :
    (memory.modify view x order f).1.latest y =
      if y = x then f (memory.latest x) else memory.latest y := by
  by_cases hy : y = x
  · subst hy
    simp [Memory.modify, Memory.latest, History.write]
  · simp [Memory.modify, Memory.latest, hy]

theorem Memory.latest_store (memory : Memory ν) (view : View ν) (x : ν) (value : Int) (y : ν) :
    (memory.store view x value).1.latest y = if y = x then value else memory.latest y := by
  by_cases hy : y = x
  · subst hy
    simp [Memory.store, Memory.latest, History.write]
  · simp [Memory.store, Memory.latest, hy]

end ReleaseAcquire
