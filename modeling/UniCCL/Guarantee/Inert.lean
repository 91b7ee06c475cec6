import UniCCL.Proof.Client

/-! # Calls that may be left out

Getters, gates, diagnoses, refused operations, operations that succeed, failed attempts
to initialize: a program that leaves some of them out sees nothing change in the calls
that remain.
-/

namespace UniCCL

open CString

/-- The call is no `unicc_init` or `unicc_finalize` that succeeded, and no native function
returned an error during it. -/
structure Inert (x : (World × Call) × Output) : Prop where
  init : x.1.2 = .init → x.2.isOk = false
  finalize : x.1.2 = .finalize → x.2.isOk = false
  native : ∀ f args rc, .native f args rc ∈ x.2.events → ¬ 0 < rc

theorem inert_view {i : World × Call} {o : Output} : Inert (i, o.view) ↔ Inert (i, o) := by
  constructor
  · exact fun h => ⟨h.init, h.finalize,
      fun f args rc hmem => h.native f args rc (native_mem_view.mpr hmem)⟩
  · exact fun h => ⟨h.init, h.finalize,
      fun f args rc hmem => h.native f args rc (native_mem_view.mp hmem)⟩

theorem operate_inert {w : World} {s : Session} {e : Int32} {op : Op} {c : Call}
    (h : Inert ((w, c), (operate w s e op c).2)) : (operate w s e op c).1 = .live s e := by
  cases hb : s.backing op with
  | none => rw [operate_unsupported hb]
  | some f =>
      by_cases hok : c.argsValid ∧ c.idFits s.family
      · have hrc : ¬ 0 < (w.invoke f (c.directArgs s.family)).rc := by
          refine h.native f (c.directArgs s.family) _ ?_
          rw [operate_dispatched hb hok]
          exact List.mem_singleton_self _
        rw [operate_dispatched hb hok]
        exact congrArg (Abstract.live s) (if_neg hrc)
      · rw [operate_invalid hb hok]

theorem abstractStep_inert {os : Os} {a : Abstract} {w : World} {c : Call}
    (h : Inert ((w, c), (abstractStep os a w c).2)) : (abstractStep os a w c).1 = a := by
  cases hop : c.op with
  | some op =>
      cases a with
      | idle => rw [abstractStep_operation_idle hop]
      | live s e =>
          rw [abstractStep_operation_live hop] at h ⊢
          exact operate_inert h
  | none =>
      cases c with
      | init =>
          cases a with
          | idle =>
              have hspec := openSession_spec os w
              show (openSession os w).next = .idle
              unfold Opening.next
              cases hs : (openSession os w).session with
              | none => rfl
              | some s =>
                  rw [hs] at hspec
                  have hfail : ((openSession os w).rc.code == UniccResult.ok.code) = false :=
                    h.init rfl
                  rw [hspec.1] at hfail
                  cases hfail
          | live s e => rfl
      | finalize =>
          cases a with
          | idle => rfl
          | live s e =>
              have hfail : (UniccResult.ok.code == UniccResult.ok.code) = false := h.finalize rfl
              cases hfail
      | _ => cases a <;> first | rfl | cases hop

/-- Any inert calls may be left out of a run: each call that remains returns, stores and
invokes what it did, and afterwards no further calls can tell the two processes apart. -/
theorem inert_calls_erasable (os : Os) (is : List (World × Call))
    {tr : List ((World × Call) × Output)}
    (hthin : Mealy.Thinned Inert ((wrapper os).trace .start is) tr) :
    ((wrapper os).outputs .start (tr.map Prod.fst)).map Output.view =
        (tr.map Prod.snd).map Output.view ∧
      ∀ js, ((wrapper os).outputs ((wrapper os).after .start (tr.map Prod.fst)) js).map Output.view =
        ((wrapper os).outputs ((wrapper os).after .start is) js).map Output.view := by
  have hinert (p : Process) (a : Abstract) (i : World × Call) (h : Refines p a)
      (hi : Inert (i, ((wrapper os).step p i).2)) : ((abstractWrapper os).step a i).1 = a := by
    rw [← inert_view, (wrapper_simulation os).output p a i h] at hi
    exact abstractStep_inert hi
  have hstart := (wrapper_simulation os).start
  obtain ⟨houtputs, a, hwhole, hthinned⟩ :=
    (wrapper_simulation os).thinned hinert hstart hstart hthin
  exact ⟨houtputs, fun js => (wrapper_simulation os).indistinguishable hthinned hwhole js⟩

theorem inert_calls_erasable_oneccl :
    let w := World.serving onecclRow (.returning 0)
    let tr := (wrapper .linux).trace .start [(w, .init)]
    ((wrapper .linux).outputs .start (tr.map Prod.fst)).map Output.view =
        (tr.map Prod.snd).map Output.view ∧
      ∀ js, ((wrapper .linux).outputs
          ((wrapper .linux).after .start (tr.map Prod.fst)) js).map Output.view =
        ((wrapper .linux).outputs
          ((wrapper .linux).after .start [(w, .init), (w, .backendName), (w, .init)]) js).map
          Output.view := by
  intro w tr
  refine inert_calls_erasable .linux [(w, .init), (w, .backendName), (w, .init)] ?_
  have hsecond :
      (outputOf .linux (reached .linux [(w, .init), (w, .backendName)]) w .init).events = [] := by
    decide
  refine .keep _ (.drop ⟨by simp, by simp, fun f args rc h => by cases h⟩
    (.drop ⟨fun _ => by decide, by simp, fun f args rc h => ?_⟩ .nil))
  exact absurd (hsecond ▸ h) List.not_mem_nil

end UniCCL
