import UniCCL.Proof.Output

/-! # What the loader does

Each loader function is summarized once: its result, and its effect on the terse
process. Later proofs cite these summaries and do not unfold the loader.
-/

namespace UniCCL

open CString

/-! ## Selection -/

theorem envValue_eq (w : World) (name : CStr) : getNonemptyEnv w name = envValue w name := by
  unfold getNonemptyEnv envValue
  cases w.getenv name with
  | none => rfl
  | some value =>
      by_cases h : value.bytes = []
      · have he : value = CStr.empty := CStr.eq_empty_iff.mpr h
        simp [he, Option.filter]
      · have he : value ≠ CStr.empty := fun he => h (CStr.eq_empty_iff.mp he)
        simp [h, he, Option.filter]

theorem uniccLoaderDetectBackend_spec (w : World) (p : Process) :
    ∃ p', uniccLoaderDetectBackend w (some none) p = (.ok, some (some (selectedName w)), p') ∧
      p'.terse = p.terse := by
  unfold uniccLoaderDetectBackend selectedName
  simp only [uniccLoaderGetEnvLibpath, uniccLoaderGetEnvBackend, envValue_eq, rowNamed]
  cases envValue w uniccLibraryVar with
  | some path => exact ⟨_, rfl, Process.eprint_terse p (by rfl)⟩
  | none =>
      cases envValue w uniccBackendVar with
      | none => exact ⟨_, rfl, Process.eprint_terse p (by rfl)⟩
      | some name =>
          cases hrow : uniccBackends.find? fun d => d.name = name with
          | some d =>
              simp only [hrow]
              exact ⟨_, rfl, Process.eprint_terse p (by rfl)⟩
          | none =>
              simp only [hrow]
              refine ⟨_, rfl, (Process.eprint_terse _ (by rfl)).trans ?_⟩
              exact Process.eprint_terse p (by rfl)

/-! ## The names that are tried -/

/-- Where no two rows share a library name, the first row found is the only one. -/
theorem filterMap_libName {rows : List BackendInfo} (h : (rows.map (·.libName)).Nodup)
    (name : CStr) :
    (rows.filterMap fun d => if d.libName = name then d.libNameAlt else none) =
      ((rows.find? fun d => d.libName = name).bind (·.libNameAlt)).toList := by
  induction rows with
  | nil => rfl
  | cons d rows ih =>
      obtain ⟨hnot, hrows⟩ := List.nodup_cons.mp h
      by_cases hd : d.libName = name
      · have hrest : (rows.filterMap fun d => if d.libName = name then d.libNameAlt else none) =
            [] := by
          rw [List.filterMap_eq_nil_iff]
          intro d' hd'
          rw [if_neg]
          intro hsame
          exact hnot (List.mem_map.mpr ⟨d', hd', hsame.trans hd.symm⟩)
        rw [List.find?_cons_of_pos (by simpa using hd), List.filterMap_cons, if_pos hd, hrest,
          Option.bind_some]
        cases d.libNameAlt <;> rfl
      · rw [List.find?_cons_of_neg (by simpa using hd), List.filterMap_cons, if_neg hd, ih hrows]

/-- The fallback of the first row found is the only one the table has. -/
theorem candidateNames_eq (name : CStr) :
    candidateNames name = name :: (altNameOf name).toList :=
  congrArg (name :: ·) (filterMap_libName (by decide) name)

theorem respelling_apple (libPath : CStr) : respelling .apple libPath = dylibSpelling libPath := by
  unfold respelling dylibSpelling
  by_cases h : libPath.strlen > 3 ∧ libPath.endsWith (.lit ".so")
  · have hkept : libPath.precise (Int32.ofNat (libPath.strlen - 3)) =
        libPath.take (keptLength libPath.strlen) := by
      rw [CStr.precise_ofNat]
      by_cases hint : (libPath.strlen - 3) % 2 ^ 32 < 2 ^ 31
      · simp only [keptLength, if_pos hint]
      · simp only [keptLength, if_neg hint]
        exact (CStr.take_of_strlen_le (Nat.le_refl _)).symm
    rw [if_pos ⟨rfl, h⟩, if_pos h]
    dsimp only
    rw [hkept]
    rfl
  · rw [if_neg fun hall => h hall.2, if_neg h]

theorem respelling_of_ne {os : Os} (h : os ≠ .apple) (libPath : CStr) :
    respelling os libPath = none := if_neg fun hall => h hall.1

/-! ## Loading -/

theorem tryNames_cons_some {w : World} {name : CStr} {names : List CStr} {handle : Handle}
    (h : w.dlopen name = some handle) :
    tryNames w (name :: names) = ([.dlopen name (some handle)], some ⟨name, handle, h⟩) := by
  simp only [tryNames]
  split
  · next handle' h' =>
      cases h.symm.trans h'
      rfl
  · next h' => cases h.symm.trans h'

theorem tryNames_cons_none {w : World} {name : CStr} {names : List CStr}
    (h : w.dlopen name = none) :
    tryNames w (name :: names) =
      (.dlopen name none :: (tryNames w names).1, (tryNames w names).2) := by
  simp only [tryNames]
  split
  · next handle' h' => cases h.symm.trans h'
  · rfl

theorem tryNames_loading (w : World) (names : List CStr) :
    ∀ e ∈ (tryNames w names).1, e.isLoading = true := by
  induction names with
  | nil =>
      intro e he
      cases he
  | cons name names ih =>
      intro e he
      cases hd : w.dlopen name with
      | some handle =>
          rw [tryNames_cons_some hd] at he
          cases List.mem_singleton.mp he
          rfl
      | none =>
          rw [tryNames_cons_none hd] at he
          rcases List.mem_cons.mp he with rfl | hrest
          · rfl
          · exact ih e hrest

theorem tryNames_none_iff {w : World} {names : List CStr} :
    (tryNames w names).2 = none ↔ ∀ name ∈ names, w.dlopen name = none := by
  induction names with
  | nil => simp [tryNames]
  | cons name names ih =>
      cases hd : w.dlopen name with
      | some handle => simp [tryNames_cons_some hd, hd]
      | none =>
          rw [tryNames_cons_none hd, ih, List.forall_mem_cons]
          exact ⟨fun h => ⟨hd, h⟩, fun h => h.2⟩

theorem tryNames_append_some {w : World} {names : List CStr} {o : OpenedLib w}
    (h : (tryNames w names).2 = some o) (more : List CStr) :
    tryNames w (names ++ more) = tryNames w names := by
  induction names with
  | nil => simp [tryNames] at h
  | cons name names ih =>
      cases hd : w.dlopen name with
      | some handle => rw [List.cons_append, tryNames_cons_some hd, tryNames_cons_some hd]
      | none =>
          rw [tryNames_cons_none hd] at h
          rw [List.cons_append, tryNames_cons_none hd, tryNames_cons_none hd, ih h]

theorem tryNames_append_none {w : World} {names : List CStr}
    (h : (tryNames w names).2 = none) (more : List CStr) :
    tryNames w (names ++ more) =
      ((tryNames w names).1 ++ (tryNames w more).1, (tryNames w more).2) := by
  induction names with
  | nil => rfl
  | cons name names ih =>
      have hd := tryNames_none_iff.mp h name List.mem_cons_self
      rw [tryNames_cons_none hd] at h ⊢
      rw [List.cons_append, tryNames_cons_none hd, ih h]
      rfl

theorem tryNames_singleton_events (w : World) (name : CStr) :
    (tryNames w [name]).1 = [.dlopen name (w.dlopen name)] := by
  cases h : w.dlopen name with
  | some handle => rw [tryNames_cons_some h]
  | none =>
      rw [tryNames_cons_none h]
      rfl

theorem tryNames_path_mem {w : World} {names : List CStr} {o : OpenedLib w}
    (h : (tryNames w names).2 = some o) : o.path ∈ names := by
  induction names with
  | nil => simp [tryNames] at h
  | cons name names ih =>
      cases hd : w.dlopen name with
      | some handle =>
          rw [tryNames_cons_some hd] at h
          cases h
          simp
      | none =>
          rw [tryNames_cons_none hd] at h
          exact List.mem_cons_of_mem _ (ih h)

theorem quiet_of_tryNames {w : World} {names : List CStr} {p q : Process}
    (h : q.terse = p.terse.extend (tryNames w names).1) :
    q.quiet = p.quiet.extend (tryNames w names).1 := by
  have hvisible : (tryNames w names).1.filter (·.isVisible) = (tryNames w names).1 :=
    List.filter_eq_self.mpr fun e he => Event.visible_of_loading (tryNames_loading w names e he)
  rw [Process.quiet_of_terse h, hvisible]

def attempt (os : Os) (w : World) (name loaded : CStr) (p : Process) : Option Opened × Process :=
  match p.uniccPlatformDlopen os w name with
  | (some handle, p) => (some (loaded, handle), p)
  | (none, p) => (none, p)

theorem attempt_of_dlopen {os : Os} {w : World} {name : CStr} {result : Option Handle}
    (h : w.dlopen name = result) (loaded : CStr) (p : Process) :
    attempt os w name loaded p =
      (result.map (loaded, ·), (p.uniccPlatformDlopen os w name).2) := by
  have hfst := Process.uniccPlatformDlopen_fst os w name p
  unfold attempt
  rcases hr : p.uniccPlatformDlopen os w name with ⟨handle?, q⟩
  rw [hr] at hfst
  cases hfst.trans h
  cases handle? <;> rfl

/-- The buffer of `dlerror` after names have been tried in vain: on Windows it is written
only when it is asked for. -/
def bufferAfter (os : Os) (w : World) (names : List CStr) (before : Option CStr) : Option CStr :=
  if os = .windows then before else (names.getLast?.map w.dlerrorText).or before

/-- A name that may be tried once the ones before it have failed: the fallback of the
table, or the macOS spelling. -/
theorem attempt_optional {os : Os} {w : World} {name? : Option CStr} (loaded : CStr → CStr)
    {text : CStr → CStr} (htext : ∀ name, Event.isRemark (.stderr (text name)) = true)
    {p : Process} {r : Option Opened × Process} (hr : r = match name? with
      | none => (none, p)
      | some name => attempt os w name (loaded name) (p.eprint (text name))) :
    ((tryNames w name?.toList).2 = none ∧ ∃ q, r = (none, q) ∧
        q.terse = p.terse.extend (tryNames w name?.toList).1 ∧
        q.dlerrorBuf = bufferAfter os w name?.toList p.dlerrorBuf) ∨
      ∃ o q, (tryNames w name?.toList).2 = some o ∧ r = (some (loaded o.path, o.handle), q) ∧
        q.terse = p.terse.extend (tryNames w name?.toList).1 := by
  cases name? with
  | none =>
      refine .inl ⟨rfl, p, hr, (Process.extend_nil _).symm, ?_⟩
      unfold bufferAfter
      split <;> rfl
  | some name =>
      have hterse := Process.uniccPlatformDlopen_terse os w name (p.eprint (text name))
      rw [Process.eprint_terse p (htext name)] at hterse
      rw [Option.toList_some]
      cases h : w.dlopen name with
      | none =>
          rw [h] at hterse
          rw [tryNames_cons_none h]
          refine .inl ⟨rfl, _, hr.trans (attempt_of_dlopen h _ _), hterse, ?_⟩
          rw [Process.dlerrorBuf_of_none os h]
          unfold bufferAfter
          split <;> rfl
      | some handle =>
          rw [h] at hterse
          rw [tryNames_cons_some h]
          exact .inr ⟨⟨name, handle, h⟩, _, rfl, hr.trans (attempt_of_dlopen h _ _), hterse⟩

theorem attemptedNames_linux (libPath : CStr) :
    attemptedNames .linux libPath = candidateNames libPath := List.append_nil _

/-- The tries after the first one has failed: the fallback of the table, then on macOS
the other spelling. -/
def openFallbacks (os : Os) (w : World) (libPath : CStr) (p : Process) :
    Option Opened × Process :=
  let (opened, p) := openAlt os w libPath p
  match os, opened with
  | .apple, none => openDylib w libPath p
  | _, opened => (opened, p)

theorem openWithFallback_of_none (os : Os) {w : World} {libPath : CStr}
    (h : w.dlopen libPath = none) (p : Process) :
    let e := (p.uniccPlatformDlopen os w libPath).2.uniccPlatformDlerror os
    openWithFallback os w libPath p = match openFallbacks os w libPath e.2 with
      | (some opened, r) => (some opened, r)
      | (none, r) =>
          let cause := match e.1 with
            | some ref => r.readDlerror ref
            | none => .lit "(no error)"
          let r := r.eprint
            (.lit "[UniCCL:ERROR] Failed to load backend library: " ++ libPath ++ .lit "\n")
          (none, r.eprint (.lit "[UniCCL:ERROR] " ++ cause ++ .lit "\n")) := by
  have hfst := Process.uniccPlatformDlopen_fst os w libPath p
  rw [h] at hfst
  unfold openWithFallback openFallbacks
  rcases hd : p.uniccPlatformDlopen os w libPath with ⟨handle?, q⟩
  rw [hd] at hfst
  cases hfst
  dsimp only
  rcases openAlt os w libPath (q.uniccPlatformDlerror os).2 with ⟨opened, r⟩
  cases opened with
  | some opened => cases os <;> rfl
  | none =>
      cases os with
      | apple =>
          dsimp only
          rcases openDylib w libPath r with ⟨opened, r'⟩
          cases opened <;> rfl
      | linux | windows | other => rfl

theorem openAlt_eq (os : Os) (w : World) (libPath : CStr) (p : Process) :
    openAlt os w libPath p = match altNameOf libPath with
      | none => (none, p)
      | some alt => attempt os w alt alt (p.eprint (.lit "[UniCCL] " ++ libPath ++
          .lit " not found, trying fallback " ++ alt ++ .lit "\n")) := by
  unfold openAlt
  cases altNameOf libPath <;> rfl

theorem openFallbacks_of_some {os : Os} {w : World} {libPath : CStr} {p q : Process}
    {opened : Opened} (h : openAlt os w libPath p = (some opened, q)) :
    openFallbacks os w libPath p = (some opened, q) := by
  unfold openFallbacks
  rw [h]
  cases os <;> rfl

theorem openFallbacks_of_none (os : Os) {w : World} {libPath : CStr} {p q : Process}
    (h : openAlt os w libPath p = (none, q)) :
    openFallbacks os w libPath p = match respelling os libPath with
      | none => (none, q)
      | some dylib => attempt os w dylib (w.expired dylib) (q.eprint (.lit "[UniCCL] " ++
          libPath ++ .lit " not found, trying macOS spelling " ++ dylib ++ .lit "\n")) := by
  unfold openFallbacks
  rw [h]
  cases os with
  | apple =>
      rw [respelling_apple]
      dsimp only
      unfold openDylib
      cases dylibSpelling libPath <;> rfl
  | linux | windows | other =>
      rw [respelling_of_ne (by decide)]

/-- The name whose message a load prints that fails: on Windows the message was formatted
before the further tries. -/
def blamedName (os : Os) (libPath : CStr) : CStr :=
  if os = .windows then libPath else lastTried os libPath

theorem bufferAfter_fallbacks (os : Os) (w : World) (libPath : CStr) :
    bufferAfter os w (respelling os libPath).toList
        (bufferAfter os w (altNameOf libPath).toList (some (failureText os w libPath))) =
      some (failureText os w (blamedName os libPath)) := by
  unfold bufferAfter blamedName
  by_cases hos : os = .windows
  · rw [if_pos hos, if_pos hos, if_pos hos]
  · rw [if_neg hos, if_neg hos, if_neg hos]
    unfold failureText
    rw [if_neg hos, if_neg hos, lastTried, attemptedNames, candidateNames_eq]
    cases respelling os libPath <;> cases altNameOf libPath <;> rfl

theorem openFallbacks_spec (os : Os) {w : World} {libPath : CStr} {p : Process}
    (hfirst : w.dlopen libPath = none) (hbuf : p.dlerrorBuf = some (failureText os w libPath)) :
    let further := (altNameOf libPath).toList ++ (respelling os libPath).toList
    ((tryNames w further).2 = none ∧ ∃ q, openFallbacks os w libPath p = (none, q) ∧
        q.terse = p.terse.extend (tryNames w further).1 ∧
        q.dlerrorBuf = some (failureText os w (blamedName os libPath))) ∨
      ∃ o q, (tryNames w further).2 = some o ∧
        openFallbacks os w libPath p = (some (reportedPath w libPath o.path, o.handle), q) ∧
        q.terse = p.terse.extend (tryNames w further).1 := by
  intro further
  rcases attempt_optional id (fun _ => rfl) (openAlt_eq os w libPath p) with
    ⟨halt, q, hq, hterse, hqbuf⟩ | ⟨o, q, halt, hq, hterse⟩
  · -- The fallback failed or there is none: only the other spelling is left.
    have htry := tryNames_append_none halt (respelling os libPath).toList
    rcases attempt_optional w.expired (fun _ => rfl) (openFallbacks_of_none os hq) with
      ⟨hdylib, r, hr, hrterse, hrbuf⟩ | ⟨o, r, hdylib, hr, hrterse⟩
    · refine .inl ⟨by rw [htry]; exact hdylib, r, hr, ?_, ?_⟩
      · rw [hrterse, hterse, Process.extend_extend, htry]
      · rw [hrbuf, hqbuf, hbuf]
        exact bufferAfter_fallbacks os w libPath
    · refine .inr ⟨o, r, by rw [htry]; exact hdylib, ?_, ?_⟩
      · have hcandidates : ∀ name ∈ candidateNames libPath, w.dlopen name = none := by
          rw [candidateNames_eq]
          exact List.forall_mem_cons.mpr ⟨hfirst, tryNames_none_iff.mp halt⟩
        have hnot : o.path ∉ candidateNames libPath := by
          intro hmem
          cases o.opened.symm.trans (hcandidates o.path hmem)
        rw [hr, reportedPath, if_neg hnot]
      · rw [hrterse, hterse, Process.extend_extend, htry]
  · have htry := tryNames_append_some halt (respelling os libPath).toList
    have hmem : o.path ∈ candidateNames libPath := by
      rw [candidateNames_eq]
      exact List.mem_cons_of_mem _ (tryNames_path_mem halt)
    refine .inr ⟨o, q, by rw [htry]; exact halt, ?_, by rw [htry]; exact hterse⟩
    rw [openFallbacks_of_some hq, reportedPath, if_pos hmem]
    rfl

/-- Either no name opens, and the last line printed is read from the buffer of `dlerror`,
or the first name that opens is handed on. -/
theorem openWithFallback_spec (os : Os) (w : World) (libPath : CStr) (p : Process) :
    ((tryNames w (attemptedNames os libPath)).2 = none ∧
        ∃ q, openWithFallback os w libPath p = (none, q) ∧
          q.terse = p.terse.extend (tryNames w (attemptedNames os libPath)).1 ∧
          q.log.getLast? = some (.stderr (.lit "[UniCCL:ERROR] " ++
            failureText os w (blamedName os libPath) ++ .lit "\n"))) ∨
      ∃ o q, (tryNames w (attemptedNames os libPath)).2 = some o ∧
        openWithFallback os w libPath p = (some (reportedPath w libPath o.path, o.handle), q) ∧
        q.terse = p.terse.extend (tryNames w (attemptedNames os libPath)).1 := by
  have hnames : attemptedNames os libPath =
      libPath :: ((altNameOf libPath).toList ++ (respelling os libPath).toList) := by
    rw [attemptedNames, candidateNames_eq, List.cons_append]
  have hterse := Process.uniccPlatformDlopen_terse os w libPath p
  rw [hnames]
  cases h : w.dlopen libPath with
  | some handle =>
      have hreported : reportedPath w libPath libPath = libPath := if_pos List.mem_cons_self
      have hfst := Process.uniccPlatformDlopen_fst os w libPath p
      rw [tryNames_cons_some h]
      rw [h] at hterse hfst
      refine .inr ⟨⟨libPath, handle, h⟩, _, rfl, ?_, hterse⟩
      unfold openWithFallback
      rcases hd : p.uniccPlatformDlopen os w libPath with ⟨handle?, q⟩
      rw [hd] at hfst
      cases hfst
      dsimp only
      rw [hreported]
  | none =>
      obtain ⟨href, hbuf⟩ := Process.uniccPlatformDlerror_of_none os h p
      have hasked := Process.uniccPlatformDlerror_terse os (p.uniccPlatformDlopen os w libPath).2
      rw [h] at hterse
      rw [tryNames_cons_none h, openWithFallback_of_none os h]
      rcases openFallbacks_spec os h hbuf with
        ⟨hnone, r, hr, hrterse, hrbuf⟩ | ⟨o, r, hsome, hr, hrterse⟩
      · rw [hr, href]
        refine .inl ⟨hnone, _, rfl, ?_, ?_⟩
        · refine (Process.eprint_terse _ (by rfl)).trans ?_
          refine (Process.eprint_terse r (by rfl)).trans ?_
          rw [hrterse, hasked, hterse, Process.extend_extend, List.singleton_append]
        · simp [Process.eprint, Process.record, Process.readDlerror, hrbuf]
      · rw [hr]
        refine .inr ⟨o, r, hsome, rfl, ?_⟩
        rw [hrterse, hasked, hterse, Process.extend_extend, List.singleton_append]

/-- A load reports no library only after every name has failed, with the message the
buffer of `dlerror` holds by then. -/
theorem uniccLoaderLoad_spec {n : Nat} (os : Os) (w : World) (libPath : CStr)
    (out : Option Handle) (resolved : Option (CharArray n)) (p : Process) :
    ((tryNames w (attemptedNames os libPath)).2 = none ∧ ∃ p',
        uniccLoaderLoad os w (some libPath) (some out) resolved p =
          ⟨.errBackendLoad, some none, resolved.map CharArray.terminate, p'⟩ ∧
        p'.terse = p.terse.extend (tryNames w (attemptedNames os libPath)).1 ∧
        p'.log.getLast? = some (.stderr (.lit "[UniCCL:ERROR] " ++
          failureText os w (blamedName os libPath) ++ .lit "\n"))) ∨
      ∃ o p', (tryNames w (attemptedNames os libPath)).2 = some o ∧
        uniccLoaderLoad os w (some libPath) (some out) resolved p =
          ⟨.ok, some (some o.handle),
            resolved.map fun b => b.terminate.snprintf (reportedPath w libPath o.path), p'⟩ ∧
        p'.terse = p.terse.extend (tryNames w (attemptedNames os libPath)).1 := by
  simp only [uniccLoaderLoad]
  generalize hfirst : p.eprint (.lit "[UniCCL] Loading backend library: " ++ libPath ++
    .lit "\n") = first
  have hsame : first.terse = p.terse := by
    rw [← hfirst]
    exact Process.eprint_terse p (by rfl)
  rcases openWithFallback_spec os w libPath first with
    ⟨hnone, q, hq, hterse, hlast⟩ | ⟨o, q, hsome, hq, hterse⟩
  · rw [hsame] at hterse
    rw [hq]
    exact .inl ⟨hnone, q, rfl, hterse, hlast⟩
  · rw [hsame] at hterse
    rw [hq]
    refine .inr ⟨o, q.eprint (.lit "[UniCCL] Successfully loaded backend library\n"), hsome, ?_,
      (Process.eprint_terse q (by rfl)).trans hterse⟩
    cases resolved <;> rfl

theorem altNameOf_fits {name alt : CStr} (h : altNameOf name = some alt) :
    alt.strlen < libPathCap := by
  have hall : ∀ d ∈ uniccBackends, ∀ alt ∈ d.libNameAlt, alt.strlen < libPathCap := by
    decide
  unfold altNameOf at h
  obtain ⟨d, hd, halt⟩ := Option.bind_eq_some_iff.mp h
  exact hall d (List.mem_of_find?_eq_some hd) alt halt

theorem candidateNames_fit {name path : CStr} (hname : name.strlen < libPathCap)
    (h : path ∈ candidateNames name) : path.strlen < libPathCap := by
  rw [candidateNames_eq] at h
  rcases List.mem_cons.mp h with rfl | h
  · exact hname
  · exact altNameOf_fits (by simpa using h)

/-! ## Identification -/

theorem uniccLoaderIdentifyBackend_of_none {w : World} {h : Handle} {p : Process}
    (hrow : probedRow w (some h) = none) :
    ∃ p', uniccLoaderIdentifyBackend w (some h) p = (.unknown, p') ∧ p'.quiet = p.quiet := by
  simp only [uniccLoaderIdentifyBackend, hrow]
  exact ⟨_, rfl, by simp⟩

theorem uniccLoaderIdentifyBackend_of_some {w : World} {h : Handle} {p : Process}
    {d : BackendInfo} (hrow : probedRow w (some h) = some d) :
    ∃ p', uniccLoaderIdentifyBackend w (some h) p = (d.type, p') ∧ p'.quiet = p.quiet := by
  simp only [uniccLoaderIdentifyBackend, hrow]
  exact ⟨_, rfl, by simp⟩

theorem identify_terse (w : World) (handle : Option Handle) (p : Process) :
    (uniccLoaderIdentifyBackend w handle p).2.terse = p.terse := by
  unfold uniccLoaderIdentifyBackend
  cases handle with
  | none => exact Process.eprint_terse p (by rfl)
  | some h =>
      dsimp only
      cases probedRow w (some h) with
      | none => exact (Process.eprint_terse _ (by rfl)).trans (Process.eprint_terse p (by rfl))
      | some d => exact (Process.eprint_terse _ (by rfl)).trans (Process.eprint_terse p (by rfl))

theorem probedRow_mem {w : World} {h : Option Handle} {d : BackendInfo}
    (hrow : probedRow w h = some d) : d ∈ uniccBackends :=
  List.mem_reverse.mp (List.mem_of_find?_eq_some hrow)

/-- The probe loop stops at the row of highest priority, since the table is ordered. -/
theorem probedRow_identifies {w : World} {h : Handle} {d : BackendInfo}
    (hrow : probedRow w (some h) = some d) : Identifies w h d := by
  have hsorted : uniccBackends.Pairwise fun d d' => d.priority < d'.priority := by decide
  have hreverse := List.pairwise_reverse.mpr hsorted
  obtain ⟨hprobe, before, after, hsplit, hnone⟩ := List.find?_eq_some_iff_append.mp hrow
  refine ⟨probedRow_mem hrow, hprobe, ?_⟩
  intro d' hd' hexported
  rw [hsplit, List.pairwise_append] at hreverse
  have hin : d' ∈ before ++ d :: after := by
    rw [← hsplit]
    exact List.mem_reverse.mpr hd'
  rcases List.mem_append.mp hin with hbefore | hrest
  · have habsent := hnone d' hbefore
    rw [hexported] at habsent
    cases habsent
  · rcases List.mem_cons.mp hrest with rfl | hafter
    · exact Int32.le_refl _
    · exact Int32.le_of_lt ((List.pairwise_cons.mp hreverse.2.1).1 d' hafter)

theorem probedRow_iff {w : World} {h : Handle} {d : BackendInfo} :
    probedRow w (some h) = some d ↔ Identifies w h d := by
  have hinj : ∀ d ∈ uniccBackends, ∀ d' ∈ uniccBackends, d.priority = d'.priority → d = d' := by
    decide
  refine ⟨probedRow_identifies, ?_⟩
  intro hid
  cases hrow : probedRow w (some h) with
  | none =>
      have habsent := List.find?_eq_none.mp hrow d (List.mem_reverse.mpr hid.mem)
      exact absurd hid.probe habsent
  | some d' =>
      have hid' := probedRow_identifies hrow
      have hle := hid.highest d' hid'.mem hid'.probe
      have hge := hid'.highest d hid.mem hid.probe
      rw [hinj d' hid'.mem d hid.mem (Int32.le_antisymm hle hge)]

/-- Types are distinct in the table, so a row is found again by its type. -/
theorem familyOf_type {d : BackendInfo} (hd : d ∈ uniccBackends) : familyOf d.type = some d := by
  have hall : ∀ d ∈ uniccBackends, familyOf d.type = some d := by decide
  exact hall d hd

theorem type_ne_unknown {d : BackendInfo} (hd : d ∈ uniccBackends) : d.type ≠ .unknown := by
  have hall : ∀ d ∈ uniccBackends, d.type ≠ .unknown := by decide
  exact hall d hd

theorem backendNameFromType_type {d : BackendInfo} (hd : d ∈ uniccBackends) :
    backendNameFromType d.type = d.name := by
  have hall : ∀ d ∈ uniccBackends, backendNameFromType d.type = d.name := by decide
  exact hall d hd

end UniCCL
