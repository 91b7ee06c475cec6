import UniCCL.Proof.Loader

/-! # What a diagnosis does and prints

A diagnosis opens one library, reports on it and closes it. The lines of the symbol
report are its only indented ones, so they can be told from everything else on stderr.
-/

namespace UniCCL

open CString

/-! ## The symbol report -/

theorem foldl_eprint {α : Type} (text : α → CStr) (l : List α) (p : Process) :
    l.foldl (fun p a => p.eprint (text a)) p = p.extend (l.map fun a => .stderr (text a)) := by
  induction l generalizing p with
  | nil => exact (Process.extend_nil p).symm
  | cons a l ih =>
      rw [List.foldl_cons, ih]
      exact Process.extend_extend p [.stderr (text a)] _

theorem foldl_extend {α : Type} (es : α → List Event) (l : List α) (p : Process) :
    l.foldl (fun p a => p.extend (es a)) p = p.extend (l.flatMap es) := by
  induction l generalizing p with
  | nil => exact (Process.extend_nil p).symm
  | cons a l ih => rw [List.foldl_cons, ih, Process.extend_extend, List.flatMap_cons]

def reportEvents (w : World) (handle : Option Handle) : List Event :=
  uniccBackends.flatMap fun d =>
    diagnoseSuffixes.map fun s => .stderr (reportLine w handle d.name s)

theorem reportSymbols_eq (w : World) (handle : Option Handle) (p : Process) :
    reportSymbols w handle p = p.extend (reportEvents w handle) := by
  unfold reportSymbols reportEvents
  simp only [foldl_eprint, foldl_extend]

theorem reportEvents_indented (w : World) (handle : Option Handle) :
    ∀ e ∈ reportEvents w handle, e.isIndented = true := by
  intro e he
  obtain ⟨d, -, hline⟩ := List.mem_flatMap.mp he
  obtain ⟨s, -, rfl⟩ := List.mem_map.mp hline
  rfl

/-- The line of the report for a symbol that is not found. -/
def missingLine (sym : CStr) : Event :=
  .stderr (.lit "  " ++ sym.padRight 22 ++ .lit " " ++ .lit "NOT FOUND" ++ .lit "\n")

theorem reportLine_eq_missing_iff {w : World} {handle : Option Handle} {name suffix sym : CStr}
    (hblank : 32 ∉ (symbolName name suffix).bytes) (hsym : 32 ∉ sym.bytes) :
    Event.stderr (reportLine w handle name suffix) = missingLine sym ↔
      symbolName name suffix = sym ∧ w.dlsym handle sym = none := by
  cases hfound : w.dlsym handle (symbolName name suffix) with
  | none =>
      simp only [reportLine, missingLine, hfound, Option.isSome_none, Bool.false_eq_true, if_false]
      constructor
      · intro h
        have hpad := CStr.append_right_cancel (CStr.append_right_cancel
          (CStr.append_right_cancel (Event.stderr.inj h)))
        have heq := CStr.padRight_inj hblank hsym (CStr.append_left_cancel hpad)
        exact ⟨heq, heq ▸ hfound⟩
      · rintro ⟨rfl, -⟩
        rfl
  | some f =>
      simp only [reportLine, missingLine, hfound, Option.isSome_some, if_true]
      constructor
      · intro h
        have hstatus := CStr.append_right_cancel (Event.stderr.inj h)
        -- The texts end in `OK` and in `NOT FOUND`.
        have hlast := congrArg (fun t : CStr => t.bytes.getLast?) hstatus
        simp only [CStr.append_bytes, List.getLast?_append] at hlast
        exact nomatch hlast
      · rintro ⟨rfl, hnone⟩
        cases hfound.symm.trans hnone

/-- A symbol of a family: its prefix is the name of the row, and it holds no blank. -/
structure BackendInfo.Owns (d : BackendInfo) (sym : CStr) : Prop where
  named : d.name.bytes <+: sym.bytes
  noBlank : 32 ∉ sym.bytes

/-- For a symbol of a row the report says that it is not found exactly when it is on the
report's list and not exported. -/
theorem missing_reported_iff {d : BackendInfo} (hd : d ∈ uniccBackends) {sym : CStr}
    (howns : d.Owns sym) (w : World) (handle : Option Handle) :
    missingLine sym ∈ reportEvents w handle ↔
      (∃ s ∈ diagnoseSuffixes, sym = d.name ++ s) ∧ w.dlsym handle sym = none := by
  have hblank : ∀ d ∈ uniccBackends, ∀ s ∈ diagnoseSuffixes,
      32 ∉ (symbolName d.name s).bytes := by decide
  have hname : ∀ d ∈ uniccBackends, ∀ s ∈ diagnoseSuffixes,
      symbolName d.name s = d.name ++ s := by decide
  have hfamily : ∀ d ∈ uniccBackends, ∀ d' ∈ uniccBackends, ∀ s ∈ diagnoseSuffixes,
      d.name.bytes <+: (symbolName d'.name s).bytes → d' = d := by decide
  unfold reportEvents
  simp only [List.mem_flatMap, List.mem_map]
  constructor
  · rintro ⟨d', hd', s, hs, hline⟩
    obtain ⟨hsym, hnone⟩ :=
      (reportLine_eq_missing_iff (hblank d' hd' s hs) howns.noBlank).mp hline
    have hprefix := howns.named
    rw [← hsym] at hprefix
    have hsame := hfamily d hd d' hd' s hs hprefix
    rw [hsame, hname d hd s hs] at hsym
    exact ⟨⟨s, hs, hsym.symm⟩, hnone⟩
  · rintro ⟨⟨s, hs, hsym⟩, hnone⟩
    refine ⟨d, hd, s, hs, ?_⟩
    rw [reportLine_eq_missing_iff (hblank d hd s hs) howns.noBlank]
    exact ⟨(hname d hd s hs).trans hsym.symm, hnone⟩

/-! ## `unicc_diagnose_backend` -/

/-- A diagnosis of a library opens it at most once, reports on it and closes it. -/
def diagnosisEvents (os : Os) (w : World) (name : CStr) : List Event :=
  match tryNames w (attemptedNames os name) with
  | (events, none) => events
  | (events, some o) => events ++ reportEvents w (some o.handle) ++ [.dlclose o.handle]

theorem uniccDiagnoseBackend_terse (os : Os) (w : World) (name : CStr) (p : Process) :
    (uniccDiagnoseBackend os w (some name) p).terse =
      p.terse.extend (diagnosisEvents os w name) := by
  simp only [uniccDiagnoseBackend, diagnosisEvents]
  generalize hq : (((p.eprint _).eprint _).eprint _).eprint _ = q
  have hhead : q.terse = p.terse := by
    rw [← hq]
    iterate 4 rw [Process.eprint_terse _ (by rfl)]
  rcases uniccLoaderLoad_spec (n := 0) os w name none none q with
    ⟨hnone, r, hload, hterse, -⟩ | ⟨o, r, hsome, hload, hterse⟩
  · rcases ht : tryNames w (attemptedNames os name) with ⟨events, opened⟩
    rw [ht] at hnone hterse
    cases hnone
    rw [hhead] at hterse
    rw [hload]
    refine (Process.eprint_terse _ (by cases os <;> rfl)).trans ?_
    exact (Process.eprint_terse r (by rfl)).trans hterse
  · rcases ht : tryNames w (attemptedNames os name) with ⟨events, opened⟩
    rw [ht] at hsome hterse
    cases hsome
    rw [hhead] at hterse
    rw [hload]
    have hid := (identify_terse w (some o.handle) r).trans hterse
    simp only [if_true, Option.join_some]
    generalize uniccLoaderIdentifyBackend w (some o.handle) r = identified at hid ⊢
    obtain ⟨type, t⟩ := identified
    refine (Process.eprint_terse _ (by rfl)).trans ?_
    refine (Process.dlclose_terse o.handle _).trans ?_
    rw [reportSymbols_eq, Process.extend_terse _ fun e he =>
      Event.not_remark_of_indented (reportEvents_indented w _ e he)]
    rw [Process.eprint_terse _ (by rfl), Process.eprint_terse t (by rfl)]
    rw [hid, Process.extend_extend, Process.extend_extend, ← List.append_assoc]

theorem diagnosisEvents_visible (os : Os) (w : World) (name : CStr) :
    (diagnosisEvents os w name).filter (·.isVisible) = probeEvents os w name := by
  have htry := tryNames_loading w (attemptedNames os name)
  unfold diagnosisEvents probeEvents
  rcases ht : tryNames w (attemptedNames os name) with ⟨events, opened⟩
  rw [ht] at htry
  have hopen : events.filter (·.isVisible) = events :=
    List.filter_eq_self.mpr fun e he => Event.visible_of_loading (htry e he)
  cases opened with
  | none => exact hopen
  | some o =>
      have hreport : (reportEvents w (some o.handle)).filter (·.isVisible) = [] := by
        rw [List.filter_eq_nil_iff]
        intro e he
        simp [Event.not_visible_of_indented (reportEvents_indented w _ e he)]
      rw [List.filter_append, List.filter_append, hopen, hreport, List.append_nil]
      rfl

theorem diagnosisEvents_indented (os : Os) (w : World) (name : CStr) :
    (diagnosisEvents os w name).filter (·.isIndented) =
      match (tryNames w (attemptedNames os name)).2 with
      | none => []
      | some o => reportEvents w (some o.handle) := by
  have htry := tryNames_loading w (attemptedNames os name)
  unfold diagnosisEvents
  rcases ht : tryNames w (attemptedNames os name) with ⟨events, opened⟩
  rw [ht] at htry
  have hopen : events.filter (·.isIndented) = [] := by
    rw [List.filter_eq_nil_iff]
    intro e he hindented
    have hvisible := Event.visible_of_loading (htry e he)
    rw [Event.not_visible_of_indented hindented] at hvisible
    cases hvisible
  cases opened with
  | none => exact hopen
  | some o =>
      rw [List.filter_append, List.filter_append, hopen,
        List.filter_eq_self.mpr (reportEvents_indented w (some o.handle))]
      exact List.append_nil _

theorem quiet_of_diagnosis {os : Os} {w : World} {name : CStr} {p q : Process}
    (h : q.terse = p.terse.extend (diagnosisEvents os w name)) :
    q.quiet = p.quiet.extend (probeEvents os w name) := by
  rw [Process.quiet_of_terse h, diagnosisEvents_visible]

/-! ## `unicc_print_backend_info` -/

theorem uniccPrintBackendInfo_quiet (p : Process) :
    (uniccPrintBackendInfo p).2.quiet = p.quiet := by
  simp [uniccPrintBackendInfo, uniccBackends]

end UniCCL
