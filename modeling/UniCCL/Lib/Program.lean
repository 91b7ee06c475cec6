import Mathlib.Tactic.TypeStar

/-! # Programs that act on their surroundings

A program is a tree: it is done with a value, or it performs an action and goes on
with the reply. The type of a reply depends on the action. What an action may do to
a state is a relation, and a program is judged by every reply it may get.
-/

inductive Program {ι : Type} (ρ : ι → Type) (α : Type)
  | done (a : α)
  | act (i : ι) (next : ρ i → Program ρ α)

namespace Program

variable {ι : Type} {ρ : ι → Type} {α β : Type}

def bind : Program ρ α → (α → Program ρ β) → Program ρ β
  | done a, f => f a
  | act i next, f => act i fun r => bind (next r) f

instance : Monad (Program ρ) where
  pure := done
  bind := bind

/-! ## Length -/

/-- The program is done after at most that many actions, whatever the replies are. -/
def EndsIn : Program ρ α → Nat → Prop
  | done _, _ => True
  | act _ _, 0 => False
  | act _ next, n + 1 => ∀ r, (next r).EndsIn n

theorem EndsIn.mono {p : Program ρ α} {m n : Nat} (h : p.EndsIn m) (hmn : m ≤ n) :
    p.EndsIn n := by
  induction p generalizing m n with
  | done a => trivial
  | act i next ih =>
      cases m with
      | zero => exact h.elim
      | succ m =>
          obtain ⟨n, rfl⟩ : ∃ n', n = n' + 1 := ⟨n - 1, by omega⟩
          exact fun r => ih r (h r) (Nat.le_of_succ_le_succ hmn)

theorem EndsIn.bind {p : Program ρ α} {f : α → Program ρ β} {m n : Nat} (hp : p.EndsIn m)
    (hf : ∀ a, (f a).EndsIn n) : (p >>= f).EndsIn (m + n) := by
  induction p generalizing m with
  | done a => exact (hf a).mono (Nat.le_add_left n m)
  | act i next ih =>
      cases m with
      | zero => exact hp.elim
      | succ m =>
          rw [Nat.succ_add]
          exact fun r => ih r (hp r)

/-- One action in front of the rest. -/
theorem EndsIn.first {p : Program ρ α} {f : α → Program ρ β} {n : Nat} (hp : p.EndsIn 1)
    (hf : ∀ a, (f a).EndsIn n) : (p >>= f).EndsIn (n + 1) := by
  rw [Nat.add_comm]
  exact hp.bind hf

/-- A program that needs no action is done. -/
theorem EndsIn.done_of_zero {p : Program ρ α} (h : p.EndsIn 0) : ∃ a, p = done a := by
  cases p with
  | done a => exact ⟨a, rfl⟩
  | act i next => exact h.elim

/-! ## Every reply -/

section Always

variable {τ : Type}

/-- From state `t` on, whatever the actions do and reply, each of them satisfies `G`
and the program ends where `Q` holds. -/
def Always (does : (i : ι) → τ → τ → ρ i → Prop) (G : ι → τ → τ → Prop) (Q : α → τ → Prop) :
    Program ρ α → τ → Prop
  | done a, t => Q a t
  | act i next, t => ∀ t' r, does i t t' r → G i t t' ∧ (next r).Always does G Q t'

variable {does : (i : ι) → τ → τ → ρ i → Prop} {G G' : ι → τ → τ → Prop} {Q : α → τ → Prop}

theorem Always.conseq {Q' : α → τ → Prop} {p : Program ρ α} {t : τ} (h : p.Always does G Q t)
    (hG : ∀ i s s', G i s s' → G' i s s') (hQ : ∀ a s, Q a s → Q' a s) :
    p.Always does G' Q' t := by
  induction p generalizing t with
  | done a => exact hQ a t h
  | act i next ih =>
      intro t' r hdoes
      obtain ⟨hstep, hnext⟩ := h t' r hdoes
      exact ⟨hG i t t' hstep, ih r hnext⟩

/-- Sequencing: what the first part ends with is where the second starts. -/
theorem Always.bind {R : β → τ → Prop} {p : Program ρ α} {f : α → Program ρ β} {t : τ}
    (h : p.Always does G Q t) (hf : ∀ a s, Q a s → (f a).Always does G R s) :
    (p >>= f).Always does G R t := by
  induction p generalizing t with
  | done a => exact hf a t h
  | act i next ih =>
      intro t' r hdoes
      obtain ⟨hstep, hnext⟩ := h t' r hdoes
      exact ⟨hstep, ih r hnext⟩

/-- A relation that every action keeps, as far as the rule allows it, relates the start
to the end. -/
theorem Always.along (R : τ → τ → Prop) (refl : ∀ s, R s s)
    (trans : ∀ s s' s'', R s s' → R s' s'' → R s s'')
    (hdoes : ∀ i s s' r, does i s s' r → G i s s' → R s s') {p : Program ρ α} {t : τ}
    (h : p.Always does G Q t) : p.Always does G (fun a s => Q a s ∧ R t s) t := by
  induction p generalizing t with
  | done a => exact ⟨h, refl t⟩
  | act i next ih =>
      intro t' r hstep
      obtain ⟨hG, hnext⟩ := h t' r hstep
      refine ⟨hG, (ih r hnext).conseq (fun _ _ _ h => h) fun a s hs => ⟨hs.1, ?_⟩⟩
      exact trans t t' s (hdoes i t t' r hstep hG) hs.2

end Always

end Program
