import Mathlib

/-!
# Logs

A log grows at its end. `Each P log` says of every entry of a log that it stands
in the relation `P` to what was logged before it.
-/

namespace History

variable {ε : Type}

def Each (P : List ε → ε → Prop) (log : List ε) : Prop :=
  ∀ before entry after, log = before ++ entry :: after → P before entry

variable {P : List ε → ε → Prop} {log : List ε}

theorem each_nil : Each P [] := by
  intro before entry after h
  simp at h

theorem Each.concat (h : Each P log) {entry : ε} (hlast : P log entry) :
    Each P (log ++ [entry]) := by
  intro before other after heq
  rcases List.eq_nil_or_concat after with rfl | ⟨rest, last, rfl⟩
  · obtain ⟨rfl, hentry⟩ := List.append_inj' heq rfl
    cases hentry
    exact hlast
  · rw [List.concat_eq_append, ← List.cons_append, ← List.append_assoc] at heq
    exact h before other rest (List.append_inj' heq rfl).1

end History
