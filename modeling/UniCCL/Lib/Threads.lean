import Mathlib.Logic.Function.Basic
import UniCCL.Lib.Mealy
import UniCCL.Lib.Program

/-! # Programs that share a store

Each thread is a program, and a scheduler picks the thread that performs its next
action and what the surroundings answer to it. A contract says what holds of the
store between any two actions, what each thread may rely on while others act and
what it guarantees to them. Threads that keep the contract one by one keep it in
every interleaving.
-/

namespace Threads

variable {κ ι : Type} {ρ : ι → Type} {ε σ α β : Type}

/-- What an action of a thread does to the store, given what the surroundings answer. -/
abbrev Semantics (κ : Type) {ι : Type} (ρ : ι → Type) (ε σ : Type) : Type :=
  κ → (i : ι) → ε → σ → σ × ρ i

structure Config (κ : Type) {ι : Type} (ρ : ι → Type) (σ α : Type) where
  store : σ
  threads : κ → Program ρ α

/-! ## Runs -/

section Runs

variable [DecidableEq κ] (sem : Semantics κ ρ ε σ)

/-- The next action of one thread; a thread that is done stays as it is. -/
def step (c : Config κ ρ σ α) (k : κ) (e : ε) : Config κ ρ σ α :=
  match c.threads k with
  | .done _ => c
  | .act i next =>
      let r := sem k i e c.store
      ⟨r.1, Function.update c.threads k (next r.2)⟩

/-- The threads under a scheduler, as a machine without outputs. -/
def machine (start : Config κ ρ σ α) : Mealy (κ × ε) (Config κ ρ σ α) Unit where
  start := start
  step c x := (step sem c x.1 x.2, ())

/-- The configuration a schedule leads to. -/
def run (start : Config κ ρ σ α) (schedule : List (κ × ε)) : Config κ ρ σ α :=
  (machine sem start).after start schedule

/-- A schedule in two parts. -/
theorem run_append (start : Config κ ρ σ α) (before after : List (κ × ε)) :
    run sem start (before ++ after) = run sem (run sem start before) after := by
  have hsame (c d : Config κ ρ σ α) : ∀ (schedule : List (κ × ε)) (c' : Config κ ρ σ α),
      (machine sem c).after c' schedule = (machine sem d).after c' schedule := by
    intro schedule
    induction schedule with
    | nil => exact fun _ => rfl
    | cons x schedule ih => exact fun c' => ih (step sem c' x.1 x.2)
  rw [run, Mealy.after_append]
  exact hsame _ _ after _

theorem step_of_done {c : Config κ ρ σ α} {k : κ} {a : α} (h : c.threads k = .done a) (e : ε) :
    step sem c k e = c := by
  simp only [step, h]

theorem step_of_act {c : Config κ ρ σ α} {k : κ} {i : ι} {next : ρ i → Program ρ α}
    (h : c.threads k = .act i next) (e : ε) :
    step sem c k e =
      ⟨(sem k i e c.store).1, Function.update c.threads k (next (sem k i e c.store).2)⟩ := by
  simp only [step, h]

/-! ## Progress -/

/-- A step spends one action of its thread and none of another. -/
theorem step_endsIn {c : Config κ ρ σ α} {j : κ} {n : Nat} (h : (c.threads j).EndsIn n) (k : κ)
    (e : ε) : ((step sem c k e).threads j).EndsIn (if k = j then n - 1 else n) := by
  cases hk : c.threads k with
  | done a =>
      rw [step_of_done sem hk]
      by_cases hkj : k = j
      · subst hkj
        rw [hk]
        trivial
      · rw [if_neg hkj]
        exact h
  | act i next =>
      rw [step_of_act sem hk]
      by_cases hkj : k = j
      · subst hkj
        rw [hk] at h
        simp only [if_pos, Function.update_self]
        cases n with
        | zero => exact h.elim
        | succ n => exact h _
      · simp only [if_neg hkj, Function.update_of_ne (Ne.symm hkj)]
        exact h

/-- A thread that is scheduled as often as its program is long is done. -/
theorem run_done {c : Config κ ρ σ α} {j : κ} {n : Nat} (h : (c.threads j).EndsIn n)
    (schedule : List (κ × ε)) (hn : n ≤ (schedule.map Prod.fst).count j) :
    ∃ a, (run sem c schedule).threads j = .done a := by
  suffices hrest : ∀ (c' : Config κ ρ σ α) (n : Nat), (c'.threads j).EndsIn n →
      (((machine sem c).after c' schedule).threads j).EndsIn
        (n - (schedule.map Prod.fst).count j) by
    refine Program.EndsIn.done_of_zero ?_
    have hend := hrest c n h
    rw [Nat.sub_eq_zero_of_le hn] at hend
    exact hend
  clear h hn
  induction schedule with
  | nil => exact fun c' n h => h
  | cons x schedule ih =>
      intro c' n h
      have hstep := ih _ _ (step_endsIn sem h x.1 x.2)
      refine hstep.mono ?_
      rw [List.map_cons, List.count_cons]
      by_cases hx : x.1 = j
      · simp only [hx, if_pos, beq_self_eq_true]
        omega
      · simp only [if_neg hx, beq_eq_false_iff_ne.mpr hx]
        exact Nat.le_refl _

end Runs

/-! ## Contracts -/

/-- What holds between actions, what a thread relies on and what it guarantees. -/
structure Contract (κ σ : Type) where
  inv : σ → Prop
  rely : κ → σ → σ → Prop
  guarantee : κ → σ → σ → Prop
  rely_refl : ∀ k s, rely k s s
  rely_trans : ∀ k s t u, rely k s t → rely k t u → rely k s u
  rely_of_guarantee : ∀ k j s t, j ≠ k → inv s → inv t → guarantee k s t → rely j s t

namespace Contract

variable (C : Contract κ σ) (sem : Semantics κ ρ ε σ) (ok : ε → Prop)

/-- From store `s` on the rest of thread `k` keeps the contract for every allowed
answer, and it ends where `Q` holds, while the others do what `k` relies on. -/
def Safe (k : κ) (Q : α → σ → Prop) : Program ρ α → σ → Prop
  | .done a, s => ∀ t, C.inv t → C.rely k s t → Q a t
  | .act i next, s => ∀ t, C.inv t → C.rely k s t → ∀ e, ok e →
      C.inv (sem k i e t).1 ∧ C.guarantee k t (sem k i e t).1 ∧
        Safe k Q (next (sem k i e t).2) (sem k i e t).1

variable {C sem ok} {k : κ} {Q : α → σ → Prop}

theorem Safe.stable {p : Program ρ α} {s t : σ} (h : C.Safe sem ok k Q p s)
    (hst : C.rely k s t) : C.Safe sem ok k Q p t := by
  cases p with
  | done a => exact fun u hu htu => h u hu (C.rely_trans k s t u hst htu)
  | act i next => exact fun u hu htu => h u hu (C.rely_trans k s t u hst htu)

theorem Safe.done {a : α} {s : σ} (h : C.Safe sem ok k Q (.done a) s) (hs : C.inv s) : Q a s :=
  h s hs (C.rely_refl k s)

theorem Safe.conseq {Q' : α → σ → Prop} {p : Program ρ α} {s : σ} (h : C.Safe sem ok k Q p s)
    (hQ : ∀ a t, C.inv t → Q a t → Q' a t) : C.Safe sem ok k Q' p s := by
  induction p generalizing s with
  | done a => exact fun t ht hst => hQ a t ht (h t ht hst)
  | act i next ih =>
      intro t ht hst e he
      obtain ⟨hinv, hg, hnext⟩ := h t ht hst e he
      exact ⟨hinv, hg, ih _ hnext⟩

/-- Sequencing: what the first part ends with is where the second starts. -/
theorem Safe.bind {R : β → σ → Prop} {p : Program ρ α} {f : α → Program ρ β} {s : σ}
    (h : C.Safe sem ok k Q p s) (hs : C.inv s)
    (hf : ∀ a t, C.inv t → Q a t → C.Safe sem ok k R (f a) t) :
    C.Safe sem ok k R (p >>= f) s := by
  induction p generalizing s with
  | done a => exact hf a s hs (h.done hs)
  | act i next ih =>
      intro t ht hst e he
      obtain ⟨hinv, hg, hnext⟩ := h t ht hst e he
      exact ⟨hinv, hg, ih _ hnext hinv⟩

/-- A program that only looks at its own part of the store may be judged there. `J` is
what it knows of the rest; nothing that happens makes it false. -/
theorem Safe.of_always {τ : Type} (own : σ → τ) {does : (i : ι) → τ → τ → ρ i → Prop}
    {G : ι → τ → τ → Prop} {L : α → τ → Prop} {J : σ → Prop}
    (hown : ∀ s t, C.rely k s t → own t = own s) (hJ : ∀ s t, C.rely k s t → J s → J t)
    (hdoes : ∀ i e s, ok e → does i (own s) (own (sem k i e s).1) (sem k i e s).2)
    (hkeep : ∀ i e s, ok e → C.inv s → J s → G i (own s) (own (sem k i e s).1) →
      C.inv (sem k i e s).1 ∧ C.guarantee k s (sem k i e s).1 ∧ J (sem k i e s).1)
    {p : Program ρ α} {s : σ} (hs : J s) (h : p.Always does G L (own s)) :
    C.Safe sem ok k (fun a t => L a (own t) ∧ J t) p s := by
  induction p generalizing s with
  | done a =>
      intro t _ hst
      rw [hown s t hst]
      exact ⟨h, hJ s t hst hs⟩
  | act i next ih =>
      intro t ht hst e he
      rw [← hown s t hst] at h
      obtain ⟨hstep, hnext⟩ := h _ _ (hdoes i e t he)
      obtain ⟨hinv, hg, hafter⟩ := hkeep i e t he ht (hJ s t hst hs) hstep
      exact ⟨hinv, hg, ih _ hafter hnext⟩

/-! ## Interleavings -/

variable {P : κ → α → σ → Prop}

/-- Every thread of a configuration is safe from its store on. -/
structure Kept (C : Contract κ σ) (sem : Semantics κ ρ ε σ) (ok : ε → Prop)
    (P : κ → α → σ → Prop) (c : Config κ ρ σ α) : Prop where
  inv : C.inv c.store
  safe : ∀ k, C.Safe sem ok k (P k) (c.threads k) c.store

theorem Kept.step [DecidableEq κ] {c : Config κ ρ σ α} (h : C.Kept sem ok P c) (k : κ) {e : ε}
    (he : ok e) :
    C.Kept sem ok P (Threads.step sem c k e) := by
  cases hk : c.threads k with
  | done a =>
      rw [step_of_done sem hk]
      exact h
  | act i next =>
      rw [step_of_act sem hk]
      have hsafe := h.safe k
      rw [hk] at hsafe
      obtain ⟨hinv, hg, hnext⟩ := hsafe c.store h.inv (C.rely_refl k c.store) e he
      refine ⟨hinv, fun j => ?_⟩
      by_cases hj : j = k
      · subst hj
        simp only [Function.update_self]
        exact hnext
      · simp only [Function.update_of_ne hj]
        exact (h.safe j).stable (C.rely_of_guarantee k j _ _ hj h.inv hinv hg)

/-- Threads that keep the contract one by one keep it in every interleaving. -/
theorem Kept.run [DecidableEq κ] {c : Config κ ρ σ α} (h : C.Kept sem ok P c)
    (schedule : List (κ × ε)) (hok : ∀ x ∈ schedule, ok x.2) :
    C.Kept sem ok P (Threads.run sem c schedule) :=
  Mealy.after_invariant (machine sem c) (C.Kept sem ok P) (fun x => ok x.2)
    (fun _ x hc hx => hc.step x.1 hx) h schedule hok

/-- A thread that is done has ended where its postcondition holds. -/
theorem Kept.post {c : Config κ ρ σ α} (h : C.Kept sem ok P c) {k : κ} {a : α}
    (hk : c.threads k = .done a) : P k a c.store := by
  have hsafe := h.safe k
  rw [hk] at hsafe
  exact hsafe.done h.inv

end Contract

end Threads
