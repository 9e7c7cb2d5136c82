import Mathlib

/-!
# Programs of single accesses to a shared state

A `Prog σ α` computes an `α` and gets at a shared state `σ` only in accesses, one
at a time: an access reads the state, may replace it, and goes on with what it
read. `eval` runs a program alone. What a program does among others is said by
`Guarantees I G Q`: as long as every state it meets satisfies `I`, each of its
accesses is a change that `G` allows, and its result satisfies `Q`.
-/

inductive Prog (σ α : Type) : Type
  | ret (result : α)
  | access (change : σ → σ) (next : σ → Prog σ α)

namespace Prog

variable {σ α β γ : Type}

def bind : Prog σ α → (α → Prog σ β) → Prog σ β
  | .ret a, f => f a
  | .access change next, f => .access change fun s => (next s).bind f

def read (f : σ → α) : Prog σ α := .access id fun s => .ret (f s)

def write (change : σ → σ) : Prog σ Unit := .access change fun _ => .ret ()

/-- Run a program alone. -/
def eval : Prog σ α → σ → α × σ
  | .ret a, s => (a, s)
  | .access change next, s => (next s).eval (change s)

@[simp] theorem eval_ret (a : α) (s : σ) : (ret a : Prog σ α).eval s = (a, s) := rfl

@[simp] theorem eval_access (change : σ → σ) (next : σ → Prog σ α) (s : σ) :
    (access change next).eval s = (next s).eval (change s) := rfl

@[simp] theorem eval_read (f : σ → α) (s : σ) : (read f).eval s = (f s, s) := rfl

@[simp] theorem eval_bind (p : Prog σ α) (f : α → Prog σ β) (s : σ) :
    (p.bind f).eval s = (f (p.eval s).1).eval (p.eval s).2 := by
  induction p generalizing s with
  | ret a => rfl
  | access change next ih => exact ih s (change s)

/-! ## Guarantees -/

def Guarantees (I : σ → Prop) (G : σ → σ → Prop) (Q : α → Prop) : Prog σ α → Prop
  | .ret a => Q a
  | .access change next => ∀ s, I s → G s (change s) ∧ (next s).Guarantees I G Q

/-- The program leaves the state alone. -/
abbrev ReadsOnly (I : σ → Prop) (Q : α → Prop) (p : Prog σ α) : Prop :=
  p.Guarantees I (fun s t => t = s) Q

/-- The program keeps the invariant at every access. -/
abbrev Keeps (I : σ → Prop) (Q : α → Prop) (p : Prog σ α) : Prop :=
  p.Guarantees I (fun _ t => I t) Q

namespace Guarantees

variable {I : σ → Prop} {G : σ → σ → Prop} {Q : α → Prop} {R : β → Prop} {p : Prog σ α}

theorem bind (hp : p.Guarantees I G Q) {f : α → Prog σ β} (hf : ∀ a, Q a → (f a).Guarantees I G R) :
    (p.bind f).Guarantees I G R := by
  induction p with
  | ret a => exact hf a hp
  | access change next ih =>
    intro s hs
    exact ⟨(hp s hs).1, ih s (hp s hs).2⟩

theorem weaken {G' : σ → σ → Prop} {Q' : α → Prop} (hp : p.Guarantees I G Q)
    (hG : ∀ s, I s → ∀ t, G s t → G' s t) (hQ : ∀ a, Q a → Q' a) : p.Guarantees I G' Q' := by
  induction p with
  | ret a => exact hQ a hp
  | access change next ih =>
    intro s hs
    exact ⟨hG s hs _ (hp s hs).1, ih s (hp s hs).2⟩

theorem read {f : σ → α} (hG : ∀ s, I s → G s s) (hf : ∀ s, I s → Q (f s)) :
    (Prog.read f).Guarantees I G Q := by
  intro s hs
  exact ⟨hG s hs, hf s hs⟩

theorem write {change : σ → σ} (h : ∀ s, I s → G s (change s)) :
    (Prog.write change).Guarantees I G (fun _ => True) := by
  intro s hs
  exact ⟨h s hs, trivial⟩

end Guarantees

theorem ReadsOnly.keeps {I : σ → Prop} {Q : α → Prop} {p : Prog σ α} (h : p.ReadsOnly I Q) :
    p.Keeps I Q :=
  h.weaken (fun _ hs _ ht => ht ▸ hs) fun _ ha => ha

theorem ReadsOnly.eval {I : σ → Prop} {Q : α → Prop} {p : Prog σ α} (h : p.ReadsOnly I Q) {s : σ}
    (hs : I s) : (p.eval s).2 = s ∧ Q (p.eval s).1 := by
  induction p generalizing s with
  | ret a => exact ⟨rfl, h⟩
  | access change next ih =>
    obtain ⟨hsame, hnext⟩ := h s hs
    rw [eval_access, hsame]
    exact ih s hnext hs

end Prog
