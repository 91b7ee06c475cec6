import UniCCL.Guarantee.Lifecycle

/-! # What a diagnosis says about initializing

The report of `unicc_diagnose` and the outcome of `unicc_init` in the same situation,
computed by two paths of the code: a list of suffixes in the loader and the symbols the
binder resolves.
-/

namespace UniCCL

open CString

/-! ## Agreement -/

def Diagnoses (os : Os) (p : Process) (w : World) (h : Handle) (d : BackendInfo) : Prop :=
  (∃ name, .dlopen name (some h) ∈ (outputOf os p w .diagnose).events) ∧ Identifies w h d

/-- A diagnosis tells what `unicc_init` would do instead: it opens the same library, and
the symbols it calls missing are those whose absence makes `unicc_init` fail or leaves a
slot NULL. -/
structure DiagnosisPredicts (os : Os) (p : Process) (w : World) : Prop where
  opens : ∀ name h, .dlopen name (some h) ∈ (outputOf os p w .diagnose).events ↔
    .dlopen name (some h) ∈ (outputOf os p w .init).events
  missing : ∀ h d, Diagnoses os p w h d → ∀ sym, d.Owns sym →
    (missingLine sym ∈ (outputOf os p w .diagnose).events ↔
      ∃ op, sym = d.symbol op ∧ d.has op = true ∧ w.dlsym (some h) sym = none)
  fails : ∀ h d, Diagnoses os p w h d → ((outputOf os p w .init).ret ≠ rcOf .ok ↔
    ∃ op ∈ Op.core, missingLine (d.symbol op) ∈ (outputOf os p w .diagnose).events)
  null : ∀ h d, Diagnoses os p w h d → (outputOf os p w .init).ret = rcOf .ok →
    ∀ op, d.has op = true →
      (((wrapper os).step p (w, .init)).1.unicc.filled op = false ↔
        missingLine (d.symbol op) ∈ (outputOf os p w .diagnose).events)
  clean : ∀ h d, Diagnoses os p w h d →
    (∀ sym, d.Owns sym → missingLine sym ∉ (outputOf os p w .diagnose).events) →
      (outputOf os p w .init).ret = rcOf .ok ∧
        ∀ op, d.has op = true → ((wrapper os).step p (w, .init)).1.unicc.filled op = true

/-- A name too long for `unicc_init` does not open, the library exports the symbols of its
family that the report does not list, and a platform that does not support the family is
not the only thing that keeps the library out. -/
structure ReportSuffices (os : Os) (w : World) : Prop where
  fits : libPathCap ≤ (selectedName w).strlen →
    ∀ name ∈ attemptedNames os (selectedName w), w.dlopen name = none
  unlisted : ∀ o d, (tryNames w (attemptedNames os (selectedName w))).2 = some o →
    Identifies w o.handle d → ∀ op, d.has op = true → op.suffix ∉ diagnoseSuffixes →
      (w.dlsym (some o.handle) (d.symbol op)).isSome
  supported : ∀ o d, (tryNames w (attemptedNames os (selectedName w))).2 = some o →
    Identifies w o.handle d → Complete w o.handle d → backendSupportedOnPlatform os d.type = true

/-! ## Names opened -/

theorem tryNames_opened_iff {w : World} {names : List CStr} {name : CStr} {h : Handle} :
    .dlopen name (some h) ∈ (tryNames w names).1 ↔
      ∃ o, (tryNames w names).2 = some o ∧ o.path = name ∧ o.handle = h := by
  constructor
  · intro hmem
    induction names with
    | nil => cases hmem
    | cons first names ih =>
        cases hd : w.dlopen first with
        | some handle =>
            rw [tryNames_cons_some hd] at hmem ⊢
            cases List.mem_singleton.mp hmem
            exact ⟨_, rfl, rfl, rfl⟩
        | none =>
            rw [tryNames_cons_none hd] at hmem ⊢
            rcases List.mem_cons.mp hmem with hfirst | hrest
            · cases hfirst
            · exact ih hrest
  · rintro ⟨o, ho, rfl, rfl⟩
    exact tryNames_opened_event ho

/-- The indented lines of a diagnosis are the symbol report of the library that opens. -/
theorem diagnose_indented {os : Os} {p : Process} (h : p.gState = .uninit) (w : World) :
    (outputOf os p w .diagnose).events.filter (·.isIndented) =
      match (tryNames w (attemptedNames os (selectedName w))).2 with
      | none => []
      | some o => reportEvents w (some o.handle) := by
  obtain ⟨p', hdiag, hterse⟩ := uniccDiagnose_spec os w { p with log := [] }
  have hname : diagnosedName w { p with log := [] } = selectedName w := by
    simp [diagnosedName, h]
  have hlog := Process.filter_of_terse (fun _ => Event.not_remark_of_indented) hterse
  rw [hname, diagnosisEvents_indented] at hlog
  simp only [outputOf, wrapper, callApi, hdiag]
  exact hlog

theorem mem_view {o : Output} {e : Event} (he : e.isVisible = true) :
    e ∈ o.view.events ↔ e ∈ o.events := by
  simp [Output.view, he]

section Idle

variable {os : Os} {p : Process} {w : World} {name sym : CStr} {h : Handle} {d : BackendInfo}
  {op : Op} {o : OpenedLib w}

theorem diagnose_opened_iff (idle : IdleProcess p) :
    .dlopen name (some h) ∈ (outputOf os p w .diagnose).events ↔
      ∃ o, (tryNames w (attemptedNames os (selectedName w))).2 = some o ∧ o.path = name ∧
        o.handle = h := by
  have hview : (outputOf os p w .diagnose).view =
      ⟨rcOf .ok, .none, probeEvents os w (selectedName w)⟩ :=
    (wrapper_simulation os).output p .idle (w, .diagnose) idle
  rw [← mem_view rfl, hview, ← tryNames_opened_iff]
  dsimp only [probeEvents]
  rcases tryNames w (attemptedNames os (selectedName w)) with ⟨events, opened⟩
  cases opened with
  | none => exact Iff.rfl
  | some o => simp

theorem init_opened_iff (idle : IdleProcess p) :
    .dlopen name (some h) ∈ (outputOf os p w .init).events ↔
      (selectedName w).strlen < libPathCap ∧
        ∃ o, (tryNames w (attemptedNames os (selectedName w))).2 = some o ∧ o.path = name ∧
          o.handle = h := by
  rw [← mem_view rfl, init_output idle w, ← tryNames_opened_iff]
  by_cases hlen : libPathCap ≤ (selectedName w).strlen
  · rw [openSession_tooLong hlen]
    simp [Nat.not_lt.mpr hlen]
  · have hfits := Nat.not_le.mp hlen
    cases ho : (tryNames w (attemptedNames os (selectedName w))).2 with
    | none =>
        rw [openSession_unopened hfits ho]
        simp [hfits]
    | some o =>
        rw [openSession_opened hfits ho]
        rcases o.validate os _ with ⟨rc, session⟩
        cases session <;> simp [hfits]

/-! ## Outcome of `unicc_init` -/

theorem init_ok_iff (idle : IdleProcess p) (hfits : (selectedName w).strlen < libPathCap)
    (ho : (tryNames w (attemptedNames os (selectedName w))).2 = some o)
    (hid : Identifies w o.handle d) :
    (outputOf os p w .init).ret = rcOf .ok ↔
      backendSupportedOnPlatform os d.type = true ∧ Complete w o.handle d := by
  have hret : (outputOf os p w .init).ret = rcOf (openSession os w).rc :=
    congrArg Output.ret (init_output idle w)
  have hrow := probedRow_iff.mpr hid
  rw [hret, rcOf_inj, openSession_opened hfits ho]
  cases hos : backendSupportedOnPlatform os d.type with
  | false =>
      rw [validate_of_unsupported hrow hos]
      simp
  | true =>
      by_cases hcore : Complete w o.handle d
      · rw [validate_of_core hrow hos hcore]
        exact iff_of_true rfl ⟨rfl, hcore⟩
      · rw [validate_of_missing hrow hos hcore]
        exact iff_of_false (by simp) fun h => hcore h.2

theorem init_filled (idle : IdleProcess p) (hfits : (selectedName w).strlen < libPathCap)
    (ho : (tryNames w (attemptedNames os (selectedName w))).2 = some o)
    (hid : Identifies w o.handle d) (hos : backendSupportedOnPlatform os d.type = true)
    (hcore : Complete w o.handle d) (op : Op) :
    ((wrapper os).step p (w, .init)).1.unicc.filled op = (backing w o.handle d op).isSome := by
  have hrow := probedRow_iff.mpr hid
  have hstate := (wrapper_simulation os).state p .idle (w, .init) idle
  have hnext : ((abstractWrapper os).step .idle (w, .init)).1 = (openSession os w).next := rfl
  rw [hnext, openSession_opened hfits ho, validate_of_core hrow hos hcore] at hstate
  exact (LiveProcess.bound hstate).filled op

/-! ## Lines of the report -/

theorem owns_symbol (hd : d ∈ uniccBackends) (op : Op) : d.Owns (d.symbol op) := by
  have hblank : ∀ d ∈ uniccBackends, ∀ op ∈ Op.all, 32 ∉ (d.symbol op).bytes := by decide
  exact ⟨List.prefix_append _ _, hblank d hd op (by cases op <;> decide)⟩

theorem missing_printed_iff (idle : IdleProcess p)
    (ho : (tryNames w (attemptedNames os (selectedName w))).2 = some o)
    (hd : d ∈ uniccBackends) (howns : d.Owns sym) :
    missingLine sym ∈ (outputOf os p w .diagnose).events ↔
      (∃ s ∈ diagnoseSuffixes, sym = d.name ++ s) ∧ w.dlsym (some o.handle) sym = none := by
  have hreport : (outputOf os p w .diagnose).events.filter (·.isIndented) =
      reportEvents w (some o.handle) := by
    rw [diagnose_indented idle.gState w, ho]
  rw [← missing_reported_iff hd howns, ← hreport, List.mem_filter]
  exact ⟨fun hmem => ⟨hmem, rfl⟩, fun hmem => hmem.1⟩

theorem symbol_listed_iff :
    (∃ s ∈ diagnoseSuffixes, d.symbol op = d.name ++ s) ↔ op.suffix ∈ diagnoseSuffixes := by
  constructor
  · rintro ⟨s, hs, hsym⟩
    rwa [CStr.append_left_cancel hsym]
  · intro hs
    exact ⟨op.suffix, hs, rfl⟩

end Idle

theorem listed_has (d : BackendInfo) {s : CStr} (hs : s ∈ diagnoseSuffixes) :
    ∃ op : Op, op.suffix = s ∧ d.has op = true := by
  have hall : ∀ s ∈ diagnoseSuffixes, ∃ op ∈ Op.all, op.suffix = s ∧ op ≠ .commUserRank := by
    decide
  obtain ⟨op, -, hsuffix, hne⟩ := hall s hs
  refine ⟨op, hsuffix, ?_⟩
  simp [BackendInfo.has, hne]

theorem core_has (d : BackendInfo) {op : Op} (hop : op ∈ Op.core) : d.has op = true := by
  have hall : ∀ op ∈ Op.core, op ≠ .commUserRank := by decide
  simp [BackendInfo.has, hall op hop]

/-! ## Prediction -/

section Predict

variable {os : Os} {p : Process} {w : World} {o : OpenedLib w} {d : BackendInfo} {op : Op}

theorem fits_of_predicts (idle : IdleProcess p) (hpredicts : DiagnosisPredicts os p w)
    (ho : (tryNames w (attemptedNames os (selectedName w))).2 = some o) :
    (selectedName w).strlen < libPathCap := by
  have hopened := (diagnose_opened_iff idle).mpr ⟨o, ho, rfl, rfl⟩
  exact ((init_opened_iff idle).mp ((hpredicts.opens _ _).mp hopened)).1

theorem reportSuffices_of_predicts (idle : IdleProcess p) (hpredicts : DiagnosisPredicts os p w) :
    ReportSuffices os w := by
  have hdiagnosed {o : OpenedLib w} {d : BackendInfo}
      (ho : (tryNames w (attemptedNames os (selectedName w))).2 = some o)
      (hid : Identifies w o.handle d) : Diagnoses os p w o.handle d :=
    ⟨⟨_, (diagnose_opened_iff idle).mpr ⟨o, ho, rfl, rfl⟩⟩, hid⟩
  refine ⟨?_, ?_, ?_⟩
  · intro hlen
    rw [← tryNames_none_iff]
    cases ho : (tryNames w (attemptedNames os (selectedName w))).2 with
    | none => rfl
    | some o => exact absurd (fits_of_predicts idle hpredicts ho) (Nat.not_lt.mpr hlen)
  · intro o d ho hid op hhas hunlisted
    by_contra habsent
    have hnone := Option.not_isSome_iff_eq_none.mp habsent
    have howns := owns_symbol hid.mem op
    have hprinted := (hpredicts.missing o.handle d (hdiagnosed ho hid) _ howns).mpr
      ⟨op, rfl, hhas, hnone⟩
    have hlisted := ((missing_printed_iff idle ho hid.mem howns).mp hprinted).1
    exact hunlisted (symbol_listed_iff.mp hlisted)
  · intro o d ho hid hcore
    have hfits := fits_of_predicts idle hpredicts ho
    by_contra hos
    have hfails : (outputOf os p w .init).ret ≠ rcOf .ok :=
      fun hok => hos ((init_ok_iff idle hfits ho hid).mp hok).1
    obtain ⟨op, hop, hprinted⟩ := (hpredicts.fails o.handle d (hdiagnosed ho hid)).mp hfails
    have hnone := ((missing_printed_iff idle ho hid.mem (owns_symbol hid.mem op)).mp hprinted).2
    have hexported := hcore op hop
    rw [hnone] at hexported
    cases hexported

theorem ReportSuffices.fits_of_opened (hreport : ReportSuffices os w)
    (ho : (tryNames w (attemptedNames os (selectedName w))).2 = some o) :
    (selectedName w).strlen < libPathCap := by
  by_contra hlen
  have hnone := tryNames_none_iff.mpr (hreport.fits (Nat.le_of_not_lt hlen))
  cases ho.symm.trans hnone

/-- Only a missing core symbol is left to make `unicc_init` fail. -/
theorem ReportSuffices.ok_iff (hreport : ReportSuffices os w) (idle : IdleProcess p)
    (ho : (tryNames w (attemptedNames os (selectedName w))).2 = some o)
    (hid : Identifies w o.handle d) :
    (outputOf os p w .init).ret = rcOf .ok ↔ Complete w o.handle d := by
  rw [init_ok_iff idle (hreport.fits_of_opened ho) ho hid]
  exact ⟨fun h => h.2, fun hcore => ⟨hreport.supported o d ho hid hcore, hcore⟩⟩

theorem symbol_missing_iff (idle : IdleProcess p) (hreport : ReportSuffices os w)
    (ho : (tryNames w (attemptedNames os (selectedName w))).2 = some o)
    (hid : Identifies w o.handle d) (hhas : d.has op = true) :
    missingLine (d.symbol op) ∈ (outputOf os p w .diagnose).events ↔
      w.dlsym (some o.handle) (d.symbol op) = none := by
  rw [missing_printed_iff idle ho hid.mem (owns_symbol hid.mem op), symbol_listed_iff]
  refine ⟨fun h => h.2, fun hnone => ⟨?_, hnone⟩⟩
  by_contra hunlisted
  have hexported := hreport.unlisted o d ho hid op hhas hunlisted
  rw [hnone] at hexported
  cases hexported

theorem incomplete_iff_missing (idle : IdleProcess p) (hreport : ReportSuffices os w)
    (ho : (tryNames w (attemptedNames os (selectedName w))).2 = some o)
    (hid : Identifies w o.handle d) :
    ¬ Complete w o.handle d ↔
      ∃ op ∈ Op.core, missingLine (d.symbol op) ∈ (outputOf os p w .diagnose).events := by
  have hmissing : ∀ op ∈ Op.core,
      (missingLine (d.symbol op) ∈ (outputOf os p w .diagnose).events ↔
        w.dlsym (some o.handle) (d.symbol op) = none) :=
    fun op hop => symbol_missing_iff idle hreport ho hid (core_has d hop)
  constructor
  · intro hincomplete
    by_contra hprinted
    apply hincomplete
    intro op hop
    rw [← Option.ne_none_iff_isSome]
    intro hnone
    exact hprinted ⟨op, hop, (hmissing op hop).mpr hnone⟩
  · rintro ⟨op, hop, hprinted⟩ hcore
    have hexported := hcore op hop
    rw [(hmissing op hop).mp hprinted] at hexported
    cases hexported

theorem exported_of_clean (idle : IdleProcess p) (hreport : ReportSuffices os w)
    (ho : (tryNames w (attemptedNames os (selectedName w))).2 = some o)
    (hid : Identifies w o.handle d)
    (hclean : ∀ sym, d.Owns sym → missingLine sym ∉ (outputOf os p w .diagnose).events)
    (hhas : d.has op = true) : (w.dlsym (some o.handle) (d.symbol op)).isSome := by
  rw [← Option.ne_none_iff_isSome, ne_eq, ← symbol_missing_iff idle hreport ho hid hhas]
  exact hclean _ (owns_symbol hid.mem op)

theorem predicts_of_reportSuffices (idle : IdleProcess p) (hreport : ReportSuffices os w) :
    DiagnosisPredicts os p w := by
  have hdiagnosed : ∀ {h d}, Diagnoses os p w h d →
      ∃ o, (tryNames w (attemptedNames os (selectedName w))).2 = some o ∧ o.handle = h := by
    rintro h d ⟨⟨name, hopened⟩, -⟩
    obtain ⟨o, ho, -, hhandle⟩ := (diagnose_opened_iff idle).mp hopened
    exact ⟨o, ho, hhandle⟩
  refine ⟨?_, ?_, ?_, ?_, ?_⟩
  · intro name h
    rw [diagnose_opened_iff idle, init_opened_iff idle]
    constructor
    · rintro ⟨o, ho, hpath⟩
      exact ⟨hreport.fits_of_opened ho, o, ho, hpath⟩
    · exact fun hinit => hinit.2
  · intro h d hdiag sym howns
    obtain ⟨o, ho, rfl⟩ := hdiagnosed hdiag
    constructor
    · intro hprinted
      obtain ⟨⟨s, hs, hsym⟩, hnone⟩ :=
        (missing_printed_iff idle ho hdiag.2.mem howns).mp hprinted
      obtain ⟨op, rfl, hhas⟩ := listed_has d hs
      exact ⟨op, hsym, hhas, hnone⟩
    · rintro ⟨op, rfl, hhas, hnone⟩
      exact (symbol_missing_iff idle hreport ho hdiag.2 hhas).mpr hnone
  · intro h d hdiag
    obtain ⟨o, ho, rfl⟩ := hdiagnosed hdiag
    rw [ne_eq, hreport.ok_iff idle ho hdiag.2]
    exact incomplete_iff_missing idle hreport ho hdiag.2
  · intro h d hdiag hok op hhas
    obtain ⟨o, ho, rfl⟩ := hdiagnosed hdiag
    have hcore := (hreport.ok_iff idle ho hdiag.2).mp hok
    have hos := hreport.supported o d ho hdiag.2 hcore
    rw [init_filled idle (hreport.fits_of_opened ho) ho hdiag.2 hos hcore, backing, if_pos hhas,
      symbol_missing_iff idle hreport ho hdiag.2 hhas]
    exact Option.isSome_eq_false_iff.trans Option.isNone_iff_eq_none
  · intro h d hdiag hclean
    obtain ⟨o, ho, rfl⟩ := hdiagnosed hdiag
    have hexported : ∀ op, d.has op = true → (w.dlsym (some o.handle) (d.symbol op)).isSome :=
      fun op hhas => exported_of_clean idle hreport ho hdiag.2 hclean hhas
    have hcore : Complete w o.handle d := fun op hop => hexported op (core_has d hop)
    have hos := hreport.supported o d ho hdiag.2 hcore
    refine ⟨(hreport.ok_iff idle ho hdiag.2).mpr hcore, ?_⟩
    intro op hhas
    rw [init_filled idle (hreport.fits_of_opened ho) ho hdiag.2 hos hcore, backing, if_pos hhas]
    exact hexported op hhas

end Predict

/-- On an uninitialized process a diagnosis predicts `unicc_init` exactly when a name too
long for it opens nothing, no symbol outside the report's list is missing, and the
platform supports the family or a core symbol is missing anyway. -/
theorem diagnosis_predicts_init_iff (os : Os) (is : List (World × Call)) (w : World)
    (h : (reached os is).gState = .uninit) :
    DiagnosisPredicts os (reached os is) w ↔ ReportSuffices os w :=
  ⟨reportSuffices_of_predicts (reached_idle h), predicts_of_reportSuffices (reached_idle h)⟩

theorem diagnosis_predicts_init_oneccl :
    DiagnosisPredicts .linux (reached .linux []) (World.serving onecclRow (.returning 0)) := by
  refine (diagnosis_predicts_init_iff .linux [] _ rfl).mpr
    ⟨fun hlen => absurd hlen (by decide), ?_, fun _ _ _ _ _ => rfl⟩
  intro o d ho hid op hhas hunlisted
  have hserved := serving_identifies (d := onecclRow) (by decide) (.returning 0) o.handle
  have hrow := (probedRow_iff.mpr hid).symm.trans (probedRow_iff.mpr hserved)
  cases hrow
  exact serving_exports _ op

/-- An NCCL library without `ncclGetUniqueId` is reported as complete. -/
theorem diagnosis_omits_get_unique_id :
    let w := { World.serving ncclRow (.returning 0) with
      dlsym := fun h sym => if sym = ncclRow.symbol .getUniqueId then none
        else (World.serving ncclRow (.returning 0)).dlsym h sym }
    ¬ DiagnosisPredicts .linux (reached .linux []) w := by
  intro w hpredicts
  have hid : Identifies w ⟨0⟩ ncclRow := ⟨by decide, by decide, by decide⟩
  have hexported := (reportSuffices_of_predicts idle_start hpredicts).unlisted
    ⟨.lit "libnccl.so", ⟨0⟩, rfl⟩ ncclRow rfl hid .getUniqueId (by decide) (by decide)
  exact absurd hexported (by decide)

end UniCCL
