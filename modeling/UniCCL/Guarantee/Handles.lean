import UniCCL.Lib.Ledger
import UniCCL.Proof.History

/-! # Library handles over whole runs

`dlopen` and `dlclose` events read as a ledger of handles. A library that is opened
twice is held twice, so a handle is still open while any of its references is held.
-/

namespace UniCCL

open CString

/-! ## Reading events as a ledger -/

def Event.entry : Event → Option (Ledger.Entry Handle)
  | .dlopen _ (some h) => some (.acquire h)
  | .dlclose h => some (.release h)
  | _ => none

def ledgerOf (events : List Event) : List (Ledger.Entry Handle) := events.filterMap Event.entry

def eventsOf (trace : List ((World × Call) × Output)) : List Event :=
  trace.flatMap fun x => x.2.events

/-- The handles an initialized process is to hold, and an uninitialized one is not. -/
def owned (p : Process) : Multiset Handle :=
  if p.gState = .init then p.gHandle.elim 0 fun h => {h} else 0

theorem ledgerOf_append (es fs : List Event) :
    ledgerOf (es ++ fs) = ledgerOf es ++ ledgerOf fs := List.filterMap_append

theorem ledgerOf_visible (es : List Event) :
    ledgerOf (es.filter (·.isVisible)) = ledgerOf es := by
  unfold ledgerOf
  rw [List.filterMap_filter]
  apply List.filterMap_congr
  intro e _
  cases e <;> rfl

theorem ledgerOf_tryNames (w : World) (names : List CStr) :
    ledgerOf (tryNames w names).1 =
      match (tryNames w names).2 with
      | some o => [.acquire o.handle]
      | none => [] := by
  induction names with
  | nil => rfl
  | cons name names ih =>
      cases hd : w.dlopen name with
      | some handle =>
          rw [tryNames_cons_some hd]
          rfl
      | none =>
          rw [tryNames_cons_none hd]
          exact ih

theorem ledgerOf_probeEvents (os : Os) (w : World) (name : CStr) :
    ledgerOf (probeEvents os w name) = [] ∨
      ∃ h, ledgerOf (probeEvents os w name) = [.acquire h, .release h] := by
  have htry := ledgerOf_tryNames w (attemptedNames os name)
  unfold probeEvents
  rcases ht : tryNames w (attemptedNames os name) with ⟨events, opened⟩
  rw [ht] at htry
  cases opened with
  | none => exact .inl htry
  | some o =>
      refine .inr ⟨o.handle, ?_⟩
      rw [ledgerOf_append, htry]
      rfl

/-! ## What one call does to the ledger -/

def Abstract.owned (a : Abstract) : Multiset Handle :=
  match a.session? with
  | some s => {s.handle}
  | none => 0

theorem Refines.owned {p : Process} {a : Abstract} (h : Refines p a) :
    UniCCL.owned p = a.owned := by
  unfold UniCCL.owned
  cases a with
  | idle =>
      have idle : IdleProcess p := h
      rw [idle.gState]
      rfl
  | live s e =>
      have live : LiveProcess s e p := h
      rw [live.gState, live.gHandle]
      rfl

theorem ledgerOf_operate (w : World) (s : Session) (e : Int32) (op : Op) (c : Call) :
    ledgerOf (operate w s e op c).2.events = [] := by
  cases hb : s.backing op with
  | none =>
      rw [operate_unsupported hb]
      rfl
  | some f =>
      by_cases hok : c.argsValid ∧ c.idFits s.family
      · rw [operate_dispatched hb hok]
        rfl
      · rw [operate_invalid hb hok]
        rfl

theorem balance_openSession (os : Os) (w : World) :
    Ledger.balance 0 (ledgerOf (openSession os w).events) =
      some (openSession os w).next.owned := by
  have htry := ledgerOf_tryNames w (attemptedNames os (selectedName w))
  rcases openSession_cases os w with ⟨o, s, ho, hopen, -, hof⟩ | ⟨hnone, -, hevents⟩
  · rw [ho] at htry
    rw [hopen]
    dsimp only [Opening.next, Abstract.owned, Abstract.session?]
    rw [htry, hof.handle]
    rfl
  · have hidle : (openSession os w).next = .idle := by
      unfold Opening.next
      rw [hnone]
    rw [hidle]
    rcases hevents with hevents | ⟨ho, hevents⟩ | ⟨o, ho, hevents⟩
    · rw [hevents]
      rfl
    · rw [ho] at htry
      rw [hevents, htry]
      rfl
    · rw [ho] at htry
      dsimp only at htry
      rw [hevents, ledgerOf_append, htry]
      exact Ledger.balance_bracket 0 o.handle

theorem balance_probe (held : Multiset Handle) (os : Os) (w : World) (name : CStr) :
    Ledger.balance held (ledgerOf (probeEvents os w name)) = some held := by
  rcases ledgerOf_probeEvents os w name with hnone | ⟨h, hbracket⟩
  · rw [hnone]
    rfl
  · rw [hbracket]
    exact Ledger.balance_bracket held h

theorem balance_operation (os : Os) {a : Abstract} {w : World} {c : Call} {op : Op}
    (hop : c.op = some op) :
    Ledger.balance a.owned (ledgerOf (abstractStep os a w c).2.events) =
      some (abstractStep os a w c).1.owned := by
  have hsession : (abstractStep os a w c).1.session? = a.session? := operation_session hop a w
  unfold Abstract.owned
  rw [hsession]
  cases a with
  | idle =>
      rw [abstractStep_operation_idle hop]
      rfl
  | live s e =>
      rw [abstractStep_operation_live hop, ledgerOf_operate]
      rfl

/-- Each call posts to the ledger what turns the owned handles before it into those
after it. -/
theorem balance_step (os : Os) (a : Abstract) (w : World) (c : Call) :
    Ledger.balance a.owned (ledgerOf (abstractStep os a w c).2.events) =
      some (abstractStep os a w c).1.owned := by
  cases c with
  | init =>
      cases a with
      | idle => exact balance_openSession os w
      | live s e => rfl
  | finalize =>
      cases a with
      | idle => rfl
      | live s e => exact Ledger.balance_release_cons 0 s.handle []
  | diagnose => exact balance_probe _ os w _
  | isInitialized | backendName | getLibraryPath | getVersion | printBackendInfo | commAvailable
  | getUniqueIdAvailable | allreduceAvailable | broadcastAvailable | groupStartAvailable
  | groupEndAvailable | getLastError =>
      cases a <;> rfl
  | _ => exact balance_operation os rfl

/-! ## Runs -/

theorem balance_run (os : Os) (is : List (World × Call)) {p : Process} {a : Abstract}
    (h : Refines p a) :
    Ledger.balance a.owned (ledgerOf (eventsOf ((wrapper os).trace p is))) =
      some (owned ((wrapper os).after p is)) := by
  induction is generalizing p a with
  | nil =>
      show some a.owned = _
      rw [← h.owned]
      rfl
  | cons i is ih =>
      have hevents := congrArg Output.events ((wrapper_simulation os).output p a i h)
      have hledger : ledgerOf ((wrapper os).step p i).2.events =
          ledgerOf (abstractStep os a i.1 i.2).2.events := by
        rw [← ledgerOf_visible]
        exact congrArg ledgerOf hevents
      show Ledger.balance a.owned (ledgerOf (_ ++ _)) = _
      rw [ledgerOf_append, Ledger.balance_append, hledger, balance_step]
      exact ih ((wrapper_simulation os).state p a i h)

theorem balance_prefix_probe (held : Multiset Handle) (os : Os) (w : World) (name : CStr)
    {es : List (Ledger.Entry Handle)} (hes : es <+: ledgerOf (probeEvents os w name)) :
    ∃ held', Ledger.balance held es = some held' ∧ held ≤ held' := by
  rcases ledgerOf_probeEvents os w name with hnone | ⟨h, hbracket⟩
  · rw [hnone, List.prefix_nil] at hes
    subst hes
    exact ⟨held, rfl, le_refl held⟩
  · rw [hbracket] at hes
    exact Ledger.balance_prefix_bracket held hes

theorem diagnose_step (os : Os) (w : World) (p : Process) :
    ((wrapper os).step p (w, .diagnose)).1.globals = p.globals ∧
      (outputOf os p w .diagnose).events.filter (·.isVisible) =
        probeEvents os w (diagnosedName w p) := by
  obtain ⟨p', hdiag, hterse⟩ := uniccDiagnose_spec os w { p with log := [] }
  have hquiet := quiet_of_diagnosis hterse
  have hcall : callApi os w { p with log := [] } .diagnose = (p', rcOf .ok, .none) := by
    simp only [callApi, hdiag]
  have hglobals := Process.globals_of_quiet hquiet
  have hevents := Process.visible_of_quiet hquiet
  simp only [outputOf, wrapper, hcall]
  exact ⟨hglobals, hevents⟩

/-- After every run exactly the live handle is held, and no release was of a handle
that was not open. A diagnosis in any reachable state changes no global and no
holding, and whatever is held stays held at every moment of it. -/
theorem handles_balanced (is : List (World × Call)) :
    Ledger.balance 0 (ledgerOf (eventsOf (recorded .linux is))) =
      some (owned (reached .linux is)) ∧
    ∀ w, (reached .linux (is ++ [(w, .diagnose)])).globals = (reached .linux is).globals ∧
      Ledger.balance (owned (reached .linux is))
          (ledgerOf (outputOf .linux (reached .linux is) w .diagnose).events) =
        some (owned (reached .linux is)) ∧
      ∀ before, before <+: (outputOf .linux (reached .linux is) w .diagnose).events →
        ∃ held, Ledger.balance (owned (reached .linux is)) (ledgerOf before) = some held ∧
          owned (reached .linux is) ≤ held := by
  refine ⟨balance_run .linux is (wrapper_simulation .linux).start, ?_⟩
  intro w
  obtain ⟨hglobals, hevents⟩ := diagnose_step .linux w (reached .linux is)
  have hledger := ledgerOf_visible (outputOf .linux (reached .linux is) w .diagnose).events
  rw [hevents] at hledger
  refine ⟨?_, ?_, ?_⟩
  · show ((wrapper .linux).after .start (is ++ [(w, .diagnose)])).globals = _
    rw [Mealy.after_snoc]
    exact hglobals
  · rw [← hledger]
    exact balance_probe _ _ w _
  · intro before hbefore
    have hprefix : ledgerOf before <+:
        ledgerOf (outputOf .linux (reached .linux is) w .diagnose).events := hbefore.filterMap _
    rw [← hledger] at hprefix
    exact balance_prefix_probe _ _ w _ hprefix

end UniCCL
