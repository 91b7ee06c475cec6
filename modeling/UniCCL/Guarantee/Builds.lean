import UniCCL.Guarantee.Handles
import UniCCL.Proof.Serving

/-! # Guarantees on every build

What holds whatever platform the wrapper is built for: on macOS with the other spelling
among the names that are tried and a name of the library that may be anything, and on a
platform that supports no backend, where every library that opens is closed again.
-/

namespace UniCCL

open CString

/-! ## Refinement -/

/-- On every build the wrapper returns, stores, opens, closes and calls what the abstract
wrapper of the build does, and stands for its state. -/
theorem build_refines (os : Os) (is : List (World × Call)) :
    ((wrapper os).outputs .start is).map Output.view = (abstractWrapper os).outputs .idle is ∧
      Refines ((wrapper os).after .start is) ((abstractWrapper os).after .idle is) :=
  ⟨(wrapper_simulation os).outputs (wrapper_simulation os).start is,
    (wrapper_simulation os).after (wrapper_simulation os).start is⟩

theorem reinit_as_fresh_on (os : Os) (t c : List (World × Call))
    (h : ((wrapper os).after .start t).gState = .uninit) :
    ((wrapper os).outputs ((wrapper os).after .start t) c).map Output.view =
      ((wrapper os).outputs .start c).map Output.view :=
  outputs_of_uninit h c

/-- On macOS only the other spelling opens, and the name that is reported is not one of any
library. -/
theorem reinit_as_fresh_on_apple :
    let w : World := { World.serving ncclRow (.returning 3) with
      dlopen := fun name => if name = .lit "libnccl.dylib" then some ⟨0⟩ else none
      expired := fun _ => .lit "?" }
    let t := [(w, Call.init), (w, .groupStart), (w, .finalize)]
    let c := [(w, Call.init), (w, .getLibraryPath), (w, .diagnose)]
    ((wrapper .apple).outputs ((wrapper .apple).after .start t) c).map Output.view =
      ((wrapper .apple).outputs .start c).map Output.view :=
  reinit_as_fresh_on .apple _ _ (by decide)

/-! ## Handles -/

theorem handles_balanced_on (os : Os) (is : List (World × Call)) :
    Ledger.balance 0 (ledgerOf (eventsOf ((wrapper os).trace .start is))) =
      some (owned ((wrapper os).after .start is)) :=
  balance_run os is (wrapper_simulation os).start

/-! ## NULL slots -/

theorem not_nullCall_of_loading {es : List Event} (h : ∀ e ∈ es, e.isLoading = true) :
    .nullCall ∉ es := by
  intro hmem
  cases h .nullCall hmem

theorem not_nullCall_operate (w : World) (s : Session) (e : Int32) (op : Op) (c : Call) :
    .nullCall ∉ (operate w s e op c).2.events := by
  cases hb : s.backing op with
  | none =>
      rw [operate_unsupported hb]
      exact List.not_mem_nil
  | some f =>
      by_cases hok : c.argsValid ∧ c.idFits s.family
      · rw [operate_dispatched hb hok]
        intro hmem
        cases List.mem_singleton.mp hmem
      · rw [operate_invalid hb hok]
        exact List.not_mem_nil

theorem not_nullCall_operation (os : Os) {a : Abstract} {w : World} {c : Call} {op : Op}
    (hop : c.op = some op) : .nullCall ∉ (abstractStep os a w c).2.events := by
  cases a with
  | idle =>
      rw [abstractStep_operation_idle hop]
      exact List.not_mem_nil
  | live s e =>
      rw [abstractStep_operation_live hop]
      exact not_nullCall_operate w s e op c

theorem not_nullCall_step (os : Os) (a : Abstract) (w : World) (c : Call) :
    .nullCall ∉ (abstractStep os a w c).2.events := by
  cases c with
  | init =>
      cases a with
      | idle => exact not_nullCall_of_loading (openSession_loading os w)
      | live s e => exact List.not_mem_nil
  | finalize =>
      cases a with
      | idle => exact List.not_mem_nil
      | live s e =>
          intro hmem
          cases List.mem_singleton.mp hmem
  | diagnose => exact not_nullCall_of_loading (probeEvents_loading os w _)
  | isInitialized | backendName | getLibraryPath | getVersion | printBackendInfo | commAvailable
  | getUniqueIdAvailable | allreduceAvailable | broadcastAvailable | groupStartAvailable
  | groupEndAvailable | getLastError =>
      cases a <;> exact List.not_mem_nil
  | _ => exact not_nullCall_operation os rfl

theorem slots_never_null (os : Os) (is : List (World × Call)) :
    .nullCall ∉ eventsOf ((wrapper os).trace .start is) := by
  have hviews := ((wrapper_simulation os).recorded (I := fun _ => True)
    (Q := fun _ o => .nullCall ∉ o.events)
    (fun a i _ => ⟨trivial, not_nullCall_step os a i.1 i.2⟩)
    (wrapper_simulation os).start trivial is).2
  intro hmem
  obtain ⟨x, hx, hcall⟩ := List.mem_flatMap.mp hmem
  exact hviews x hx (List.mem_filter.mpr ⟨hcall, rfl⟩)

/-! ## Builds without a backend -/

def Barren (os : Os) : Prop := ∀ d ∈ uniccBackends, backendSupportedOnPlatform os d.type = false

instance (os : Os) : Decidable (Barren os) :=
  inferInstanceAs (Decidable (∀ d ∈ uniccBackends, backendSupportedOnPlatform os d.type = false))

/-- A call that had no session: it left nothing open, called no backend, and an operation
was refused. -/
structure Dormant (c : Call) (o : Output) : Prop where
  closed : Ledger.balance 0 (ledgerOf o.events) = some 0
  loading : ∀ e ∈ o.events, e.isVisible = true → e.isLoading = true
  failed : c = .init → o.ret ≠ rcOf .ok
  refused : c.op.isSome → o.ret = rcOf .errNotInitialized

section Barren

variable {os : Os}

theorem dormant_view {c : Call} {o : Output} : Dormant c o.view ↔ Dormant c o := by
  have hledger : ledgerOf o.view.events = ledgerOf o.events := ledgerOf_visible o.events
  constructor
  · intro h
    have hclosed := h.closed
    rw [hledger] at hclosed
    exact ⟨hclosed, fun e he hvisible => h.loading e (List.mem_filter.mpr ⟨he, hvisible⟩) hvisible,
      h.failed, h.refused⟩
  · intro h
    refine ⟨?_, fun e he => h.loading e (List.mem_of_mem_filter he), h.failed, h.refused⟩
    rw [hledger]
    exact h.closed

theorem openSession_barren (hos : Barren os) (w : World) :
    (openSession os w).next = .idle ∧ (openSession os w).rc ≠ .ok := by
  rcases openSession_cases os w with ⟨o, s, -, -, -, hof⟩ | ⟨hnone, hrc, -⟩
  · cases (hos s.family s.family_mem).symm.trans hof.supported
  · refine ⟨?_, hrc⟩
    unfold Opening.next
    rw [hnone]

theorem Dormant.of_silent {c : Call} {o : Output} (hinit : c ≠ .init) (hevents : o.events = [])
    (hrefused : c.op.isSome → o.ret = rcOf .errNotInitialized) : Dormant c o := by
  refine ⟨?_, ?_, fun h => absurd h hinit, hrefused⟩
  · rw [hevents]
    rfl
  · rw [hevents]
    simp

theorem dormant_step (hos : Barren os) (w : World) (c : Call) :
    (abstractStep os .idle w c).1 = .idle ∧ Dormant c (abstractStep os .idle w c).2 := by
  cases hop : c.op with
  | some op =>
      rw [abstractStep_operation_idle hop]
      refine ⟨rfl, .of_silent ?_ rfl fun _ => rfl⟩
      rintro rfl
      cases hop
  | none =>
      have hreport : ¬ c.op.isSome := by
        rw [hop]
        exact Bool.false_ne_true
      cases c with
      | init =>
          obtain ⟨hnext, hrc⟩ := openSession_barren hos w
          have hclosed := balance_openSession os w
          rw [hnext] at hclosed
          exact ⟨hnext, hclosed, fun e he _ => openSession_loading os w e he,
            fun _ hok => hrc (rcOf_inj.mp hok), fun h => absurd h hreport⟩
      | diagnose =>
          exact ⟨rfl, balance_probe 0 os w _, fun e he _ => probeEvents_loading os w _ e he,
            by simp, fun h => absurd h hreport⟩
      | _ => exact ⟨rfl, .of_silent (by simp) rfl fun h => absurd h hreport⟩

/-- Built for a platform without a backend, the wrapper never holds a library past the call
that opened it and never calls into one, whatever the environment selects. -/
theorem barren_build_dormant (hos : Barren os) (is : List (World × Call)) :
    ((wrapper os).after .start is).gState = .uninit ∧
      ∀ x ∈ (wrapper os).trace .start is, Dormant x.1.2 x.2 := by
  obtain ⟨hidle, hviews⟩ := (wrapper_simulation os).recorded (I := fun a => a = .idle)
    (Q := fun i o => Dormant i.2 o)
    (fun a i ha => by rw [ha]; exact dormant_step hos i.1 i.2) (wrapper_simulation os).start rfl is
  have hafter := (wrapper_simulation os).after (wrapper_simulation os).start is
  rw [hidle] at hafter
  refine ⟨NoSession.gState (IdleProcess.toNoSession hafter), fun x hx => ?_⟩
  exact dormant_view.mp (hviews x hx)

theorem barren_build_dormant_windows :
    let w := World.serving onecclRow (.returning 0)
    let is := [(w, .init), (w, Call.groupStart)]
    ((wrapper .windows).after .start is).gState = .uninit ∧
      ∀ x ∈ (wrapper .windows).trace .start is, Dormant x.1.2 x.2 :=
  barren_build_dormant (by decide) _

end Barren

end UniCCL
