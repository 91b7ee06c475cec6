import UniCCL.Proof.Lifecycle

/-! # The wrapper refines the abstract wrapper

One relation between processes and abstract states, one step lemma with a case
for each kind of call, and the simulation they give. The statics of the binder do
not occur in the relation: what they hold between sessions cannot be observed.
-/

namespace UniCCL

open CString

/-! ## What the globals show of the abstract state -/

theorem Refines.state {p : Process} {a : Abstract} (h : Refines p a) :
    decide (p.gState = .init) = a.session?.isSome := by
  cases a with
  | idle =>
      have idle : IdleProcess p := h
      rw [idle.gState]
      rfl
  | live s e =>
      rw [LiveProcess.gState h]
      rfl

theorem Refines.offers {p : Process} {a : Abstract} (h : Refines p a) (op : Op) :
    (decide (p.gState = .init) && p.unicc.filled op) = a.offers op := by
  cases a with
  | idle =>
      have idle : IdleProcess p := h
      rw [idle.gState]
      rfl
  | live s e =>
      have hfilled := (LiveProcess.bound h).filled op
      rw [LiveProcess.gState h, hfilled]
      rfl

theorem Refines.lastError {p : Process} {a : Abstract} (h : Refines p a) :
    p.gLastBackendResult = a.lastError := by
  cases a with
  | idle => exact NoSession.gLastBackendResult (IdleProcess.toNoSession h)
  | live s e => exact LiveProcess.gLastBackendResult h

theorem Refines.offersBoth {p : Process} {a : Abstract} (h : Refines p a) :
    (decide (p.gState = .init) && p.unicc.commInitRank.isSome && p.unicc.getUniqueId.isSome) =
      (a.offers .commInitRank && a.offers .getUniqueId) := by
  rw [← h.offers, ← h.offers]
  cases decide (p.gState = .init) <;> rfl

theorem Refines.backendName {p : Process} {a : Abstract} (h : Refines p a) :
    uniccBackendName p = a.backendName := by
  unfold uniccBackendName uniccGetBackendType
  cases a with
  | idle =>
      have idle : IdleProcess p := h
      rw [idle.gState]
      rfl
  | live s e =>
      have live : LiveProcess s e p := h
      rw [live.gState, live.gBackendType, backendNameFromType_type s.family_mem]
      rfl

theorem Refines.libraryPath {p : Process} {a : Abstract} (h : Refines p a) :
    p.gLibPath.str = a.libraryPath := by
  cases a with
  | idle => exact IdleProcess.gLibPath h
  | live s e => exact LiveProcess.gLibPath h

/-! ## One call -/

/-- The call on the process is the call on the abstract state. -/
structure Explained (os : Os) (w : World) (c : Call) (p : Process) (a : Abstract) : Prop where
  state : Refines (callApi os w p c).1 (abstractStep os a w c).1
  ret : (callApi os w p c).2.1 = (abstractStep os a w c).2.ret
  out : (callApi os w p c).2.2 = (abstractStep os a w c).2.out
  events : (callApi os w p c).1.log.filter (·.isVisible) = (abstractStep os a w c).2.events

section Step

variable {os : Os} {w : World} {c : Call} {p : Process} {a : Abstract}

theorem Explained.of_eq {p' : Process} {r : Ret} {o : OutParam} {a' : Abstract} {out : Output}
    (hcall : callApi os w p c = (p', r, o)) (habs : abstractStep os a w c = (a', out))
    (hstate : Refines p' a') (hret : r = out.ret) (hout : o = out.out)
    (hevents : p'.log.filter (·.isVisible) = out.events) : Explained os w c p a := by
  constructor
  · rw [hcall, habs]
    exact hstate
  · rw [hcall, habs]
    exact hret
  · rw [hcall, habs]
    exact hout
  · rw [hcall, habs]
    exact hevents

theorem abstractStep_operation_idle {op : Op} (hop : c.op = some op) :
    abstractStep os .idle w c = (.idle, refuse c .errNotInitialized) := by
  cases c <;> first | rfl | cases hop

theorem abstractStep_operation_live {op : Op} {s : Session} {e : Int32} (hop : c.op = some op) :
    abstractStep os (.live s e) w c = operate w s e op c := by
  cases c <;> cases hop <;> rfl

/-- Without a session every operation is refused before it looks at anything. -/
theorem operation_idle (idle : IdleProcess p) {op : Op} (hop : c.op = some op) :
    callApi os w p c = (p, rcOf .errNotInitialized, c.outBefore) := by
  have hstate : p.gState ≠ .init := by
    rw [idle.gState]
    decide
  cases c <;> simp only [Call.op, reduceCtorEq] at hop
  all_goals
    simp only [callApi, uniccBackendVersion, uniccGetUniqueId, uniccCommInitRank,
      uniccCommDestroy, uniccCommCount, uniccCommUserRank, uniccAllreduce, uniccBroadcast,
      uniccGroupStart, uniccGroupEnd, callSlot, callIntSlot, if_pos hstate]
    rfl

/-- An operation stays in its session, and all its events are native calls. -/
theorem operate_spec (w : World) (s : Session) (e : Int32) (op : Op) (c : Call) :
    (∃ e', (operate w s e op c).1 = .live s e') ∧
      (operate w s e op c).2.events.filter (·.isVisible) = (operate w s e op c).2.events := by
  cases hb : s.backing op with
  | none =>
      rw [operate_unsupported hb]
      exact ⟨⟨e, rfl⟩, rfl⟩
  | some f =>
      by_cases hok : c.argsValid ∧ c.idFits s.family
      · rw [operate_dispatched hb hok]
        exact ⟨⟨_, rfl⟩, rfl⟩
      · rw [operate_invalid hb hok]
        exact ⟨⟨e, rfl⟩, rfl⟩

theorem LiveProcess.withLastError {s : Session} {e : Int32} (live : LiveProcess s e p)
    (e' : Int32) (log : List Event) :
    LiveProcess s e' { p with gLastBackendResult := e', log := log } :=
  ⟨live.gState, live.gHandle, live.gBackendHandle, live.gBackendType, live.gLibPath, rfl,
    live.bound⟩

theorem explained_operation (h : Refines p a) (hlog : p.log = []) {op : Op}
    (hop : c.op = some op) : Explained os w c p a := by
  cases a with
  | idle =>
      refine .of_eq (operation_idle h hop) (abstractStep_operation_idle hop) h rfl rfl ?_
      rw [hlog]
      rfl
  | live s e =>
      obtain ⟨⟨e', hstate⟩, hvisible⟩ := operate_spec w s e op c
      have hcall : Performs os w s e op c p := performs h hop
      have habs : abstractStep os (.live s e) w c = (.live s e', (operate w s e op c).2) := by
        rw [abstractStep_operation_live hop, ← hstate]
      unfold Performs at hcall
      rw [hlog, List.nil_append, hstate] at hcall
      exact .of_eq hcall habs (LiveProcess.withLastError h e' _) rfl rfl hvisible

theorem Explained.of_report (h : Refines p a) (hlog : p.log = [])
    (hcall : (callApi os w p c).1.quiet = p.quiet)
    (hval : (callApi os w p c).2 = reportOn a c)
    (habs : abstractStep os a w c = (a, ⟨(reportOn a c).1, (reportOn a c).2, []⟩)) :
    Explained os w c p a := by
  have hcall' : callApi os w p c =
      ((callApi os w p c).1, (reportOn a c).1, (reportOn a c).2) := by
    rw [← hval]
  have hglobals := congrArg Process.globals hcall
  have hevents := congrArg Process.log hcall
  have hquiet : p.quiet.log = [] := by
    show p.log.filter _ = []
    rw [hlog]
    rfl
  exact .of_eq hcall' habs (h.of_globals hglobals) rfl rfl (hevents.trans hquiet)

theorem explained_init (h : Refines p a) (hlog : p.log = []) : Explained os w .init p a := by
  cases a with
  | idle =>
      obtain ⟨p', hinit, hleft, hevents⟩ := uniccInit_of_idle os h w
      have hcall : callApi os w p .init = (p', rcOf (openSession os w).rc, .none) := by
        simp only [callApi, hinit]
      refine .of_eq hcall rfl hleft rfl rfl ?_
      rw [hevents, hlog]
      rfl
  | live s e =>
      have hcall : callApi os w p .init = (p, rcOf .errAlreadyInitialized, .none) := by
        simp only [callApi, uniccInit_of_live h os w]
      refine .of_eq hcall rfl h rfl rfl ?_
      rw [hlog]
      rfl

theorem explained_finalize (h : Refines p a) (hlog : p.log = []) :
    Explained os w .finalize p a := by
  cases a with
  | idle =>
      have hcall : callApi os w p .finalize = (p, rcOf .errNotInitialized, .none) := by
        simp only [callApi, uniccFinalize_of_idle h]
      refine .of_eq hcall rfl h rfl rfl ?_
      rw [hlog]
      rfl
  | live s e =>
      obtain ⟨p', hfin, hidle, hevents⟩ := uniccFinalize_of_live h
      have hcall : callApi os w p .finalize = (p', rcOf .ok, .none) := by
        simp only [callApi, hfin]
      refine .of_eq hcall rfl hidle rfl rfl ?_
      rw [hevents, hlog]
      rfl

theorem Refines.diagnosed (h : Refines p a) (w : World) : diagnosedName w p = a.diagnosed w := by
  unfold diagnosedName
  cases a with
  | idle =>
      have idle : IdleProcess p := h
      rw [idle.gState]
      rfl
  | live s e =>
      have live : LiveProcess s e p := h
      rw [if_pos live.gState, live.gLibPath]
      rfl

theorem explained_diagnose (h : Refines p a) (hlog : p.log = []) :
    Explained os w .diagnose p a := by
  obtain ⟨p', hdiag, hterse⟩ := uniccDiagnose_spec os w p
  have hquiet := quiet_of_diagnosis hterse
  have hcall : callApi os w p .diagnose = (p', rcOf .ok, .none) := by
    simp only [callApi, hdiag]
  have hevents := Process.visible_of_quiet hquiet
  rw [hlog, h.diagnosed w] at hevents
  exact .of_eq hcall rfl (h.of_globals (Process.globals_of_quiet hquiet)) rfl rfl hevents

/-- A gate reports whether its operation can be requested. -/
theorem Explained.of_gate (h : Refines p a) (hlog : p.log = []) (op : Op)
    (hcall : callApi os w p c =
      (p, .int (truth (decide (p.gState = .init) && p.unicc.filled op)), .none))
    (hval : reportOn a c = (.int (truth (a.offers op)), .none))
    (habs : abstractStep os a w c = (a, ⟨(reportOn a c).1, (reportOn a c).2, []⟩)) :
    Explained os w c p a := by
  refine .of_report h hlog ?_ ?_ habs
  · rw [hcall]
  · rw [hcall, hval, h.offers]

/-- Every call on every process in the relation. -/
theorem explained (os : Os) (h : Refines p a) (hlog : p.log = []) : Explained os w c p a := by
  cases c with
  | init => exact explained_init h hlog
  | finalize => exact explained_finalize h hlog
  | diagnose => exact explained_diagnose h hlog
  | isInitialized =>
      refine .of_report h hlog rfl ?_ rfl
      exact congrArg (fun b => (Ret.int (truth b), OutParam.none)) h.state
  | backendName =>
      refine .of_report h hlog rfl ?_ rfl
      exact congrArg (fun s => (Ret.str s, OutParam.none)) h.backendName
  | getLibraryPath =>
      refine .of_report h hlog rfl ?_ rfl
      exact congrArg (fun s => (Ret.str s, OutParam.none)) h.libraryPath
  | getVersion buf => exact .of_report h hlog rfl rfl rfl
  | printBackendInfo =>
      exact .of_report h hlog (uniccPrintBackendInfo_quiet p) rfl rfl
  | commAvailable =>
      refine .of_report h hlog rfl ?_ rfl
      exact congrArg (fun b => (Ret.int (truth b), OutParam.none)) h.offersBoth
  | getUniqueIdAvailable => exact .of_gate h hlog .getUniqueId rfl rfl rfl
  | allreduceAvailable => exact .of_gate h hlog .allreduce rfl rfl rfl
  | broadcastAvailable => exact .of_gate h hlog .broadcast rfl rfl rfl
  | groupStartAvailable => exact .of_gate h hlog .groupStart rfl rfl rfl
  | groupEndAvailable => exact .of_gate h hlog .groupEnd rfl rfl rfl
  | getLastError raw =>
      refine .of_report h hlog rfl ?_ (by cases raw <;> rfl)
      cases raw with
      | none => rfl
      | some r =>
          exact congrArg (fun v => (rcOf .ok, OutParam.int (some { r with val := v }))) h.lastError
  | backendVersion version => exact explained_operation h hlog rfl
  | getUniqueId id => exact explained_operation h hlog rfl
  | commInitRank comm nranks id rank => exact explained_operation h hlog rfl
  | commDestroy comm => exact explained_operation h hlog rfl
  | commCount comm count => exact explained_operation h hlog rfl
  | commUserRank comm rank => exact explained_operation h hlog rfl
  | allreduce sendbuf recvbuf count datatype op comm stream =>
      exact explained_operation h hlog rfl
  | broadcast buf count datatype root comm stream => exact explained_operation h hlog rfl
  | groupStart => exact explained_operation h hlog rfl
  | groupEnd => exact explained_operation h hlog rfl

end Step

/-! ## The simulation -/

theorem wrapper_view (os : Os) (p : Process) (i : World × Call) :
    ((wrapper os).step p i).2.view =
      let r := callApi os i.1 { p with log := [] } i.2
      ⟨r.2.1, r.2.2, r.1.log.filter (·.isVisible)⟩ := rfl

/-- Whatever the wrapper does, up to stderr, the abstract wrapper does. -/
theorem wrapper_simulation (os : Os) :
    Mealy.Simulation (wrapper os) (abstractWrapper os) Refines Output.view where
  start := idle_start
  state p a i h := by
    have hclear : Refines { p with log := [] } a := h.of_globals rfl
    exact (explained os (w := i.1) (c := i.2) hclear rfl).state.of_globals rfl
  output p a i h := by
    have hclear : Refines { p with log := [] } a := h.of_globals rfl
    have hex := explained os (w := i.1) (c := i.2) hclear rfl
    rw [wrapper_view]
    dsimp only
    rw [hex.ret, hex.out, hex.events]
    rfl

end UniCCL
