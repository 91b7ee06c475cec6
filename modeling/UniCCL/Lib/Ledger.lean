import Mathlib.Data.Multiset.AddSub

/-! # Ledgers of counted resources

A resource that is acquired several times must be released as often. Posting a
release of a resource that is not held fails, so a ledger that posts completely
never releases twice and never releases what it does not hold.
-/

namespace Ledger

variable {α : Type*} [DecidableEq α]

inductive Entry (α : Type*)
  | acquire (a : α)
  | release (a : α)
deriving DecidableEq

/-- The resources held after one entry. -/
def post (held : Multiset α) : Entry α → Option (Multiset α)
  | .acquire a => some (a ::ₘ held)
  | .release a => if a ∈ held then some (held.erase a) else none

/-- The resources held after a list of entries, `none` if some release was of a
resource not held at that moment. -/
def balance (held : Multiset α) : List (Entry α) → Option (Multiset α)
  | [] => some held
  | e :: es => (post held e).bind fun held' => balance held' es

@[simp] theorem balance_nil (held : Multiset α) : balance held [] = some held := rfl

@[simp] theorem balance_acquire (held : Multiset α) (a : α) (es : List (Entry α)) :
    balance held (.acquire a :: es) = balance (a ::ₘ held) es := rfl

@[simp] theorem balance_release_cons (held : Multiset α) (a : α) (es : List (Entry α)) :
    balance (a ::ₘ held) (.release a :: es) = balance held es := by
  simp [balance, post]

theorem balance_append (held : Multiset α) (es fs : List (Entry α)) :
    balance held (es ++ fs) = (balance held es).bind fun held' => balance held' fs := by
  induction es generalizing held with
  | nil => rfl
  | cons e es ih =>
      simp only [List.cons_append, balance]
      cases post held e with
      | none => rfl
      | some held' => exact ih held'

/-- What is held besides stays held. -/
theorem balance_add (frame : Multiset α) {held held' : Multiset α} {es : List (Entry α)}
    (h : balance held es = some held') : balance (held + frame) es = some (held' + frame) := by
  induction es generalizing held with
  | nil =>
      rw [balance_nil, Option.some.inj h]
  | cons e es ih =>
      cases e with
      | acquire a =>
          rw [balance_acquire, ← Multiset.cons_add]
          exact ih h
      | release a =>
          by_cases ha : a ∈ held
          · have hrest : balance (held.erase a) es = some held' := by
              simpa only [balance, post, if_pos ha, Option.bind_some] using h
            have hframe : a ∈ held + frame := Multiset.mem_add.mpr (.inl ha)
            simp only [balance, post, if_pos hframe, Option.bind_some]
            rw [Multiset.erase_add_left_pos frame ha]
            exact ih hrest
          · simp [balance, post, ha] at h

/-- A release undoes the acquisition it follows. -/
theorem balance_bracket (held : Multiset α) (a : α) :
    balance held [.acquire a, .release a] = some held := by
  simp

/-- At every moment of a bracket at least what was held before it is held. -/
theorem balance_prefix_bracket (held : Multiset α) {a : α} {es : List (Entry α)}
    (hes : es <+: [.acquire a, .release a]) :
    ∃ held', balance held es = some held' ∧ held ≤ held' := by
  obtain ⟨rest, hrest⟩ := hes
  match es with
  | [] => exact ⟨held, rfl, le_refl held⟩
  | [e] =>
      obtain ⟨rfl, _⟩ := List.cons.inj hrest
      exact ⟨a ::ₘ held, rfl, Multiset.le_cons_self held a⟩
  | e :: f :: es =>
      obtain ⟨rfl, htail⟩ := List.cons.inj hrest
      obtain ⟨rfl, hnil⟩ := List.cons.inj htail
      obtain ⟨rfl, rfl⟩ := List.append_eq_nil_iff.mp hnil
      exact ⟨held, balance_bracket held a, le_refl held⟩

end Ledger
