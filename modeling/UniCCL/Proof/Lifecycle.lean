import UniCCL.Proof.Diagnosis
import UniCCL.Proof.Dispatch

/-! # Initializing, finalizing and diagnosing

`unicc_init` on an idle process decides as `openSession` does and leaves a live
process or an idle one, whatever the statics hold; `unicc_finalize` makes a live
process idle; `unicc_diagnose` changes no global.
-/

namespace UniCCL

open CString

namespace Process

/-- The globals, without the message buffer of `dlerror` and the log. -/
def globals (p : Process) : Process := { p with dlerrorBuf := none, lastError := 0, log := [] }

@[simp] theorem quiet_globals (p : Process) : p.quiet.globals = p.globals := rfl

@[simp] theorem extend_globals (p : Process) (es : List Event) :
    (p.extend es).globals = p.globals := rfl

theorem globals_of_quiet {p q : Process} {es : List Event} (h : q.quiet = p.quiet.extend es) :
    q.globals = p.globals := by
  rw [← quiet_globals q, h, extend_globals, quiet_globals]

theorem visible_of_quiet {p q : Process} {es : List Event} (h : q.quiet = p.quiet.extend es) :
    q.log.filter (·.isVisible) = p.log.filter (·.isVisible) ++ es := by
  have hlog := congrArg log h
  exact hlog

end Process

theorem LiveProcess.of_globals {s : Session} {e : Int32} {p q : Process}
    (live : LiveProcess s e p) (h : q.globals = p.globals) : LiveProcess s e q := by
  have hq : LiveProcess s e q.globals := by
    rw [h]
    exact ⟨live.gState, live.gHandle, live.gBackendHandle, live.gBackendType, live.gLibPath,
      live.gLastBackendResult, live.bound⟩
  exact ⟨hq.gState, hq.gHandle, hq.gBackendHandle, hq.gBackendType, hq.gLibPath,
    hq.gLastBackendResult, hq.bound⟩

theorem NoSession.of_globals {p q : Process} (ns : NoSession p)
    (h : q.globals = p.globals) : NoSession q := by
  have hq : NoSession q.globals := by
    rw [h]
    exact ⟨ns.gState, ns.gHandle, ns.gBackendHandle, ns.gBackendType, ns.gLastBackendResult,
      ns.unicc⟩
  exact ⟨hq.gState, hq.gHandle, hq.gBackendHandle, hq.gBackendType, hq.gLastBackendResult,
    hq.unicc⟩

theorem IdleProcess.of_globals {p q : Process} (idle : IdleProcess p)
    (h : q.globals = p.globals) : IdleProcess q := by
  have hpath : q.globals.gLibPath.str = .empty := by
    rw [h]
    exact idle.gLibPath
  exact ⟨idle.toNoSession.of_globals h, hpath⟩

theorem NoSession.withPath {p : Process} (ns : NoSession p) (path : CharArray libPathCap) :
    NoSession { p with gLibPath := path } :=
  ⟨ns.gState, ns.gHandle, ns.gBackendHandle, ns.gBackendType, ns.gLastBackendResult, ns.unicc⟩

theorem NoSession.terminate {p : Process} (ns : NoSession p) (path : CharArray libPathCap) :
    IdleProcess { p with gLibPath := path.terminate } :=
  ⟨ns.withPath _, CharArray.str_terminate _ (by decide)⟩

def Refines (p : Process) : Abstract → Prop
  | .idle => IdleProcess p
  | .live s e => LiveProcess s e p

theorem Refines.of_globals {p q : Process} {a : Abstract} (h : Refines p a)
    (hg : q.globals = p.globals) : Refines q a := by
  cases a with
  | idle => exact IdleProcess.of_globals h hg
  | live s e => exact LiveProcess.of_globals h hg

theorem idle_start : IdleProcess .start :=
  ⟨⟨rfl, rfl, rfl, rfl, rfl, rfl⟩, CharArray.str_zero (by decide)⟩

/-! ## Validation of an opened library -/

section Validate

variable {os : Os} {w : World} {o : OpenedLib w} {d : BackendInfo}

theorem validate_of_unidentified (hd : probedRow w (some o.handle) = none) (path : CStr) :
    o.validate os path = (.errSymbolNotFound, none) := by
  unfold OpenedLib.validate
  split
  · rfl
  · next d hd' => cases hd.symm.trans hd'

theorem validate_of_identified (hd : probedRow w (some o.handle) = some d) (path : CStr) :
    o.validate os path =
      if backendSupportedOnPlatform os d.type then
        if hc : Complete w o.handle d then
          (.ok, some ⟨w, o.path, path, o.handle, d, o.opened, hd, hc⟩)
        else (.errSymbolNotFound, none)
      else (.errBackendNotSupported, none) := by
  unfold OpenedLib.validate
  split
  · next h => cases h.symm.trans hd
  · next d' hd' =>
      cases hd.symm.trans hd'
      rfl

theorem validate_of_unsupported (hd : probedRow w (some o.handle) = some d)
    (hos : backendSupportedOnPlatform os d.type = false) (path : CStr) :
    o.validate os path = (.errBackendNotSupported, none) := by
  rw [validate_of_identified hd, if_neg (by rw [hos]; exact Bool.false_ne_true)]

theorem validate_of_core (hd : probedRow w (some o.handle) = some d)
    (hos : backendSupportedOnPlatform os d.type = true) (hcore : Complete w o.handle d)
    (path : CStr) :
    o.validate os path = (.ok, some ⟨w, o.path, path, o.handle, d, o.opened, hd, hcore⟩) := by
  rw [validate_of_identified hd, if_pos hos, dif_pos hcore]

theorem validate_of_missing (hd : probedRow w (some o.handle) = some d)
    (hos : backendSupportedOnPlatform os d.type = true) (hcore : ¬ Complete w o.handle d)
    (path : CStr) : o.validate os path = (.errSymbolNotFound, none) := by
  rw [validate_of_identified hd, if_pos hos, dif_neg hcore]

end Validate

/-! ## The branches of an opening -/

section Open

variable {os : Os} {w : World} {o : OpenedLib w}

theorem openSession_tooLong (h : libPathCap ≤ (selectedName w).strlen) :
    openSession os w = ⟨.errInvalidArgument, [], none⟩ := by
  unfold openSession
  rw [if_pos h]

theorem openSession_unopened (hlen : (selectedName w).strlen < libPathCap)
    (h : (tryNames w (attemptedNames os (selectedName w))).2 = none) :
    openSession os w =
      ⟨if envValue w uniccLibraryVar = none ∧ envValue w uniccBackendVar = none then
        .errNoBackend else .errBackendLoad,
        (tryNames w (attemptedNames os (selectedName w))).1, none⟩ := by
  unfold openSession
  rw [if_neg (Nat.not_le.mpr hlen)]
  rcases ht : tryNames w (attemptedNames os (selectedName w)) with ⟨events, opened⟩
  rw [ht] at h
  cases h
  dsimp only
  split <;> rfl

theorem openSession_opened (hlen : (selectedName w).strlen < libPathCap)
    (h : (tryNames w (attemptedNames os (selectedName w))).2 = some o) :
    openSession os w =
      match o.validate os (shownPath w (selectedName w) o.path) with
      | (rc, some s) => ⟨rc, (tryNames w (attemptedNames os (selectedName w))).1, some s⟩
      | (rc, none) =>
          ⟨rc, (tryNames w (attemptedNames os (selectedName w))).1 ++ [.dlclose o.handle],
            none⟩ := by
  unfold openSession
  rw [if_neg (Nat.not_le.mpr hlen)]
  rcases ht : tryNames w (attemptedNames os (selectedName w)) with ⟨events, opened⟩
  rw [ht] at h
  cases h
  rfl

end Open

/-! ## `unicc_init` -/

section Init

variable {w : World} {p q : Process}

def BoundBy (os : Os) (o : OpenedLib w) (path : CStr) (q : Process) : Prop :=
  match o.validate os path with
  | (rc, some s) => rc = .ok ∧ LiveProcess s 0
      { q with gLastBackendResult := 0, gHandle := some o.handle, gState := .init }
  | (rc, none) => rc ≠ .ok ∧ NoSession q

/-- The binding stage, on a process whose path buffer already holds what is reported. -/
theorem vtable_stage (os : Os) (o : OpenedLib w) {path : CStr} (ns : NoSession q)
    (hpath : q.gLibPath.str = path) :
    ∃ q', uniccVtableInit os w (some o.handle) q = ((o.validate os path).1, q') ∧
      q'.quiet.log = q.quiet.log ∧ BoundBy os o path q' := by
  unfold BoundBy
  cases hd : probedRow w (some o.handle) with
  | none =>
      obtain ⟨q', hinit, hq'⟩ := uniccVtableInit_of_unidentified os q hd
      have hlog := congrArg Process.log hq'
      have hglobals := congrArg Process.globals hq'
      rw [validate_of_unidentified hd]
      exact ⟨q', hinit, hlog, by decide, ns.of_globals hglobals⟩
  | some d =>
      cases hos : backendSupportedOnPlatform os d.type with
      | false =>
          obtain ⟨q', hinit, hq'⟩ := uniccVtableInit_of_unsupported q hd hos
          have hlog := congrArg Process.log hq'
          have hglobals := congrArg Process.globals hq'
          rw [validate_of_unsupported hd hos]
          exact ⟨q', hinit, hlog, by decide, ns.of_globals hglobals⟩
      | true =>
          by_cases hcore : Complete w o.handle d
          · have huser : q.unicc.commUserRank = none := by
              rw [ns.unicc]
              rfl
            obtain ⟨s, t, q', hinit, hq', hbound⟩ := uniccVtableInit_of_core q hd hos hcore
            rw [huser, leftBy_none, resolved_row (probedRow_mem hd)] at hbound
            have hlog := congrArg Process.log hq'
            have hhandle := congrArg Process.gBackendHandle hq'
            have htype := congrArg Process.gBackendType hq'
            have hstr := congrArg (fun p : Process => p.gLibPath.str) hq'
            have hstatics : q'.statics = s := congrArg Process.statics hq'
            have htable : q'.unicc = t := congrArg Process.unicc hq'
            rw [← hstatics, ← htable] at hbound
            rw [validate_of_core hd hos hcore]
            exact ⟨q', hinit, hlog, rfl, rfl, rfl, hhandle, htype, hstr.trans hpath, rfl, hbound⟩
          · obtain ⟨s, q', hinit, hq'⟩ := uniccVtableInit_of_missing q hd hos hcore
            have hcleared : NoSession ({ q.quiet with statics := s, unicc := .zero } : Process) :=
              ⟨ns.gState, ns.gHandle, ns.gBackendHandle, ns.gBackendType, ns.gLastBackendResult,
                rfl⟩
            have hlog := congrArg Process.log hq'
            have hglobals := congrArg Process.globals hq'
            rw [validate_of_missing hd hos hcore]
            exact ⟨q', hinit, hlog, by decide, hcleared.of_globals hglobals⟩

theorem uniccInit_of_idle (os : Os) (idle : IdleProcess p) (w : World) :
    ∃ p', uniccInit os w p = ((openSession os w).rc, p') ∧ Refines p' (openSession os w).next ∧
      p'.log.filter (·.isVisible) =
        p.log.filter (·.isVisible) ++ (openSession os w).events := by
  obtain ⟨q, hdetect, hterse⟩ := uniccLoaderDetectBackend_spec w p
  have hq := Process.quiet_of_terse_eq hterse
  have hqLog := congrArg Process.log hq
  have hqGlobals := congrArg Process.globals hq
  have hidle : IdleProcess q := idle.of_globals hqGlobals
  have hstate : ¬ p.gState = .init := by
    rw [idle.gState]
    decide
  simp only [uniccInit, if_neg hstate, hdetect, ne_eq, not_true_eq_false, if_false,
    Option.join_some]
  by_cases hlen : libPathCap ≤ (selectedName w).strlen
  · rw [openSession_tooLong hlen, if_pos hlen]
    exact ⟨q, rfl, hidle, hqLog.trans (List.append_nil _).symm⟩
  · rw [if_neg hlen]
    have hfits := Nat.not_le.mp hlen
    rcases uniccLoaderLoad_spec os w (selectedName w) none (some q.gLibPath) q with
      ⟨hnone, r, hload, hr, -⟩ | ⟨o, r, hsome, hload, hr⟩
    · rw [openSession_unopened hfits hnone]
      have hr := quiet_of_tryNames hr
      have hidle' :=
        (hidle.toNoSession.of_globals (Process.globals_of_quiet hr)).terminate q.gLibPath
      have hlog := (Process.visible_of_quiet hr).trans (congrArg (· ++ _) hqLog)
      simp only [hload, reduceCtorEq, not_false_eq_true, if_true, true_and, Option.map_some,
        Option.getD_some, uniccLoaderGetEnvBackend, uniccLoaderGetEnvLibpath, envValue_eq]
      by_cases henv : envValue w uniccBackendVar = none ∧ envValue w uniccLibraryVar = none
      · rw [if_pos henv, if_pos henv.symm]
        exact ⟨_, rfl, hidle', hlog⟩
      · rw [if_neg henv, if_neg fun h => henv h.symm]
        exact ⟨_, rfl, hidle', hlog⟩
    · rw [openSession_opened hfits hsome]
      have hr := quiet_of_tryNames hr
      simp only [hload, not_true_eq_false, if_false, Option.map_some, Option.getD_some,
        Option.join_some]
      have hns := (hidle.toNoSession.of_globals (Process.globals_of_quiet hr)).withPath
        (q.gLibPath.terminate.snprintf (reportedPath w (selectedName w) o.path))
      have hshown := CharArray.str_snprintf q.gLibPath.terminate
        (reportedPath w (selectedName w) o.path) (by decide)
      have hlog := (Process.visible_of_quiet hr).trans (congrArg (· ++ _) hqLog)
      obtain ⟨t, hvtable, hvlog, hbound⟩ := vtable_stage os o hns hshown
      have htlog := hvlog.trans hlog
      simp only [hvtable]
      unfold BoundBy at hbound
      unfold shownPath
      generalize o.validate os _ = validated at hbound ⊢
      obtain ⟨rc, session⟩ := validated
      cases session with
      | some s =>
          obtain ⟨rfl, hlive⟩ := hbound
          exact ⟨_, rfl, hlive, htlog⟩
      | none =>
          obtain ⟨hrc, hleft⟩ := hbound
          have hgone : NoSession (uniccLoaderUnload (some o.handle) t) := hleft.of_globals rfl
          have hclosed := Process.visible_of_quiet
            (Process.quiet_of_terse (Process.dlclose_terse o.handle t))
          dsimp only
          rw [if_pos hrc]
          refine ⟨_, rfl, hgone.terminate _, hclosed.trans ?_⟩
          rw [← List.append_assoc]
          exact congrArg (· ++ [Event.dlclose o.handle]) htlog

theorem uniccInit_of_live {s : Session} {e : Int32} (live : LiveProcess s e p) (os : Os)
    (w : World) : uniccInit os w p = (.errAlreadyInitialized, p) := by
  unfold uniccInit
  rw [if_pos live.gState]

end Init

/-! ## `unicc_finalize` -/

theorem uniccFinalize_of_idle {p : Process} (idle : IdleProcess p) :
    uniccFinalize p = (.errNotInitialized, p) := by
  unfold uniccFinalize
  rw [if_pos]
  rw [idle.gState]
  decide

theorem uniccFinalize_of_live {s : Session} {e : Int32} {p : Process}
    (live : LiveProcess s e p) :
    ∃ p', uniccFinalize p = (.ok, p') ∧ IdleProcess p' ∧ p'.log = p.log ++ [.dlclose s.handle] := by
  have hunload : uniccLoaderUnload (uniccVtableCleanup p).gHandle (uniccVtableCleanup p) =
      (uniccVtableCleanup p).record (.dlclose s.handle) := by
    show (uniccVtableCleanup p).dlclose p.gHandle = _
    rw [live.gHandle]
    rfl
  simp only [uniccFinalize, if_neg (not_not_intro live.gState), hunload]
  exact ⟨_, rfl, ⟨⟨rfl, rfl, rfl, rfl, rfl, rfl⟩, CharArray.str_terminate _ (by decide)⟩, rfl⟩

/-! ## `unicc_diagnose` -/

def diagnosedName (w : World) (p : Process) : CStr :=
  if p.gState = .init then p.gLibPath.str else selectedName w

theorem uniccDiagnose_spec (os : Os) (w : World) (p : Process) :
    ∃ p', uniccDiagnose os w p = (.ok, p') ∧
      p'.terse = p.terse.extend (diagnosisEvents os w (diagnosedName w p)) := by
  unfold uniccDiagnose diagnosedName
  by_cases h : p.gState = .init
  · rw [if_pos h, if_pos h]
    exact ⟨_, rfl, uniccDiagnoseBackend_terse os w _ p⟩
  · obtain ⟨q, hdetect, hq⟩ := uniccLoaderDetectBackend_spec w p
    rw [if_neg h, if_neg h, hdetect]
    refine ⟨_, rfl, ?_⟩
    rw [← hq]
    exact uniccDiagnoseBackend_terse os w _ q

end UniCCL
