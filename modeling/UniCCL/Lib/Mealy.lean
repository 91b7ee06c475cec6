import Mathlib.Tactic.TypeStar

/-! # Deterministic machines with outputs

A run feeds a list of inputs to a machine one at a time and records every input
with the output it produced. Facts about all runs come from one step: an
invariant, an invariant shared with a history variable that folds over the
recorded run, and a simulation by a second machine, which explains the outputs
and makes all states with one abstract counterpart indistinguishable. Steps that
change no abstract state may be left out of a run.
-/

/-- One step consumes an input and yields the next state and an output. -/
structure Mealy (ι σ ο : Type*) where
  start : σ
  step : σ → ι → σ × ο

namespace Mealy

variable {ι σ τ ο υ η : Type*} (M : Mealy ι σ ο)

/-- The state after the inputs. -/
def after (s : σ) : List ι → σ
  | [] => s
  | i :: is => after (M.step s i).1 is

/-- Every input with the output it produced, in order. -/
def trace (s : σ) : List ι → List (ι × ο)
  | [] => []
  | i :: is => (i, (M.step s i).2) :: trace (M.step s i).1 is

/-- The outputs in order. -/
def outputs (s : σ) (is : List ι) : List ο := (M.trace s is).map Prod.snd

@[simp] theorem outputs_cons (s : σ) (i : ι) (is : List ι) :
    M.outputs s (i :: is) = (M.step s i).2 :: M.outputs (M.step s i).1 is := rfl

theorem after_append (s : σ) (is js : List ι) :
    M.after s (is ++ js) = M.after (M.after s is) js := by
  induction is generalizing s with
  | nil => rfl
  | cons i is ih => exact ih (M.step s i).1

theorem after_snoc (s : σ) (is : List ι) (i : ι) :
    M.after s (is ++ [i]) = (M.step (M.after s is) i).1 := by
  rw [after_append]
  rfl

/-! ## Invariants -/

/-- What one step preserves, every run preserves, as long as each input is allowed. -/
theorem after_invariant (I : σ → Prop) (ok : ι → Prop)
    (hstep : ∀ s i, I s → ok i → I (M.step s i).1) {s : σ} (hs : I s) (is : List ι)
    (his : ∀ i ∈ is, ok i) : I (M.after s is) := by
  induction is generalizing s with
  | nil => exact hs
  | cons i is ih =>
      exact ih (hstep s i hs (his i (by simp))) fun j hj => his j (by simp [hj])

/-- A history variable folds `note` over the recorded run. -/
def history (note : η → ι × ο → η) (h : η) (tr : List (ι × ο)) : η := tr.foldl note h

/-- A relation between the state and a history variable that every allowed step
keeps holds after every run of allowed inputs. -/
theorem history_invariant (R : σ → η → Prop) {note : η → ι × ο → η} (ok : ι → Prop)
    (hstep : ∀ s h i, R s h → ok i → R (M.step s i).1 (note h (i, (M.step s i).2)))
    {s : σ} {h : η} (hR : R s h) (is : List ι) (his : ∀ i ∈ is, ok i) :
    R (M.after s is) (history note h (M.trace s is)) := by
  induction is generalizing s h with
  | nil => exact hR
  | cons i is ih =>
      exact ih (hstep s h i hR (his i (by simp))) fun j hj => his j (by simp [hj])

/-- A property of every step of a run: of the state before it, its input and its
output. -/
def Always (P : σ → ι → ο → Prop) (s : σ) (is : List ι) : Prop :=
  ∀ before i rest, is = before ++ i :: rest →
    P (M.after s before) i (M.step (M.after s before) i).2

theorem always_congr {P Q : σ → ι → ο → Prop} {s : σ}
    (h : ∀ before i, P (M.after s before) i (M.step (M.after s before) i).2 ↔
      Q (M.after s before) i (M.step (M.after s before) i).2) (is : List ι) :
    M.Always P s is ↔ M.Always Q s is :=
  ⟨fun hP before i rest his => (h before i).mp (hP before i rest his),
    fun hQ before i rest his => (h before i).mpr (hQ before i rest his)⟩

/-! ## Simulation -/

/-- `N` explains `M` through `view`: related states stay related, and what is seen
of each output of `M` is the output of `N`. -/
structure Simulation (M : Mealy ι σ ο) (N : Mealy ι τ υ) (R : σ → τ → Prop) (view : ο → υ) :
    Prop where
  start : R M.start N.start
  state : ∀ s t i, R s t → R (M.step s i).1 (N.step t i).1
  output : ∀ s t i, R s t → view (M.step s i).2 = (N.step t i).2

namespace Simulation

variable {M : Mealy ι σ ο} {N : Mealy ι τ υ} {R : σ → τ → Prop} {view : ο → υ}

theorem after (sim : Simulation M N R view) {s : σ} {t : τ} (h : R s t) (is : List ι) :
    R (M.after s is) (N.after t is) := by
  induction is generalizing s t with
  | nil => exact h
  | cons i is ih => exact ih (sim.state s t i h)

theorem outputs (sim : Simulation M N R view) {s : σ} {t : τ} (h : R s t) (is : List ι) :
    (M.outputs s is).map view = N.outputs t is := by
  induction is generalizing s t with
  | nil => rfl
  | cons i is ih =>
      simp only [outputs_cons, List.map_cons, sim.output s t i h, ih (sim.state s t i h)]

/-- Two states with one abstract counterpart cannot be told apart by any inputs. -/
theorem indistinguishable (sim : Simulation M N R view) {s s' : σ} {t : τ}
    (h : R s t) (h' : R s' t) (is : List ι) :
    (M.outputs s is).map view = (M.outputs s' is).map view := by
  rw [sim.outputs h is, sim.outputs h' is]

/-- What every step of the simulating machine yields while an invariant holds of it, every
recorded step is seen to yield. -/
theorem recorded (sim : Simulation M N R view) {I : τ → Prop} {Q : ι → υ → Prop}
    (hstep : ∀ t i, I t → I (N.step t i).1 ∧ Q i (N.step t i).2) {s : σ} {t : τ} (h : R s t)
    (hI : I t) (is : List ι) : I (N.after t is) ∧ ∀ x ∈ M.trace s is, Q x.1 (view x.2) := by
  induction is generalizing s t with
  | nil => exact ⟨hI, fun x hx => absurd hx List.not_mem_nil⟩
  | cons i is ih =>
      obtain ⟨hnext, hfirst⟩ := hstep t i hI
      obtain ⟨hafter, hrest⟩ := ih (sim.state s t i h) hnext
      refine ⟨hafter, ?_⟩
      intro x hx
      rcases List.mem_cons.mp hx with rfl | hx
      · rw [← sim.output s t i h] at hfirst
        exact hfirst
      · exact hrest x hx

end Simulation

/-! ## Leaving steps out -/

/-- The second record is the first without some of its inert entries. -/
inductive Thinned (inert : ι × ο → Prop) : List (ι × ο) → List (ι × ο) → Prop
  | nil : Thinned inert [] []
  | keep (x : ι × ο) {tr tr' : List (ι × ο)} :
      Thinned inert tr tr' → Thinned inert (x :: tr) (x :: tr')
  | drop {x : ι × ο} {tr tr' : List (ι × ο)} :
      inert x → Thinned inert tr tr' → Thinned inert (x :: tr) tr'

/-- When inert steps of the simulating machine keep its state, the inputs that are left
produce the outputs that are left, and lead to states that are related to one state. -/
theorem Simulation.thinned {M : Mealy ι σ ο} {N : Mealy ι τ υ} {R : σ → τ → Prop} {view : ο → υ}
    (sim : Simulation M N R view) {inert : ι × ο → Prop}
    (hinert : ∀ s t i, R s t → inert (i, (M.step s i).2) → (N.step t i).1 = t) {s s' : σ} {t : τ}
    (h : R s t) (h' : R s' t) {is : List ι} {tr : List (ι × ο)}
    (hthin : Thinned inert (M.trace s is) tr) :
    (M.outputs s' (tr.map Prod.fst)).map view = (tr.map Prod.snd).map view ∧
      ∃ u, R (M.after s is) u ∧ R (M.after s' (tr.map Prod.fst)) u := by
  induction is generalizing s s' t tr with
  | nil =>
      cases hthin
      exact ⟨rfl, t, h, h'⟩
  | cons i is ih =>
      have hnext := sim.state s t i h
      cases hthin with
      | keep _ hrest =>
          obtain ⟨houtputs, hstates⟩ := ih hnext (sim.state s' t i h') hrest
          refine ⟨?_, hstates⟩
          simp only [List.map_cons, outputs_cons, houtputs, sim.output s t i h, sim.output s' t i h']
      | drop hx hrest =>
          rw [hinert s t i h hx] at hnext
          exact ih hnext h' hrest

end Mealy
