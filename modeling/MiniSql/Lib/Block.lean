import Mathlib

/-!
# Stores into a block of memory

A block is the list of its cells. A store outside of it has no result, so that a program
with a result stores nothing outside. What was stored from the first cell on is a text
that the block begins with; stores behind it make the text longer, and a block of
another size that takes its place begins with it too.
-/

namespace Block

variable {α : Type*} {block text : List α}

def store (block : List α) (index : Nat) (item : α) : Option (List α) :=
  if index < block.length then some (block.set index item) else none

/-- Stores into cells that follow each other. -/
def storeAll (block : List α) (index : Nat) : List α → Option (List α)
  | [] => some block
  | item :: items => (store block index item).bind fun block => storeAll block (index + 1) items

/-- The block begins with the text, and has so many cells. -/
def Holds (size : Nat) (text block : List α) : Prop := text <+: block ∧ block.length = size

theorem holds_nil (block : List α) : Holds block.length [] block := ⟨List.nil_prefix, rfl⟩

theorem Holds.shorter {size : Nat} {more : List α} (h : Holds size (text ++ more) block) :
    Holds size text block :=
  ⟨(List.prefix_append text more).trans h.1, h.2⟩

theorem Holds.take_length {size : Nat} (h : Holds size text block) : block.take text.length = text :=
  (List.prefix_iff_eq_take.mp h.1).symm

theorem Holds.store {size : Nat} (h : Holds size text block) (hroom : text.length < size) (item : α) :
    ∃ block', Block.store block text.length item = some block' ∧ Holds size (text ++ [item]) block' := by
  obtain ⟨⟨rest, rfl⟩, hsize⟩ := h
  refine ⟨_, if_pos (hsize ▸ hroom), ?_, by rw [List.length_set, hsize]⟩
  cases rest with
  | nil =>
    rw [List.append_nil] at hsize
    omega
  | cons cell rest =>
    refine ⟨rest, ?_⟩
    simp

theorem Holds.storeAll {size : Nat} (h : Holds size text block) (items : List α)
    (hroom : text.length + items.length ≤ size) :
    ∃ block', Block.storeAll block text.length items = some block' ∧
      Holds size (text ++ items) block' := by
  induction items generalizing text block with
  | nil => exact ⟨block, rfl, by rwa [List.append_nil]⟩
  | cons item items ih =>
    rw [List.length_cons] at hroom
    obtain ⟨next, hstore, hnext⟩ := h.store (by omega) item
    have hlength : (text ++ [item]).length = text.length + 1 := by simp
    obtain ⟨block', hall, hholds⟩ := ih hnext (by omega)
    rw [hlength] at hall
    refine ⟨block', ?_, ?_⟩
    · rw [Block.storeAll, hstore, Option.bind_some, hall]
    · rwa [List.append_assoc, List.singleton_append] at hholds

/-! ## Blocks of another size -/

/-- What is given when cells are asked for: a block of that size, with whatever stands in
it, or nothing. -/
structure Allocator (α : Type*) where
  get : Nat → Option (List α)
  size : ∀ {n : Nat} {block : List α}, get n = some block → block.length = n

/-- The cells of a block, as far as there is room, in a block that was given. -/
def resize (block fresh : List α) : List α := block.take fresh.length ++ fresh.drop block.length

theorem length_resize (block fresh : List α) : (resize block fresh).length = fresh.length := by
  simp only [resize, List.length_append, List.length_take, List.length_drop]
  omega

theorem Holds.resize {size : Nat} (h : Holds size text block) (fresh : List α)
    (hroom : text.length ≤ fresh.length) : Holds fresh.length text (resize block fresh) := by
  obtain ⟨⟨rest, rfl⟩, -⟩ := h
  refine ⟨?_, length_resize _ _⟩
  rw [Block.resize, List.take_append, List.take_of_length_le hroom, List.append_assoc]
  exact List.prefix_append _ _

end Block
