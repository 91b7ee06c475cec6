import UniCCL.Proof.Serving

/-! # Which names a load tries, and what a failed load reports

On macOS the `.dylib` spelling of a name passes through an array of 160 bytes that is
local to its block, and the reason given for a failure is read from the buffer of
`dlerror` after the fallbacks have been tried. Both are right on an exact set of inputs.
-/

namespace UniCCL

open CString

/-! ## The names tried on macOS -/

/-- A name that ends in `.so`, with `.dylib` there instead. -/
def macSpelling (libPath : CStr) : Option CStr :=
  if libPath.strlen > 3 ∧ libPath.endsWith (.lit ".so") then
    some (libPath.take (libPath.strlen - 3) ++ .lit ".dylib")
  else none

def intendedNames (libPath : CStr) : List CStr :=
  candidateNames libPath ++ (macSpelling libPath).toList

/-- A load that tried the intended names, succeeded if one of them opened, and reports
that one. -/
structure TriesIntendedNames {n : Nat} (w : World) (libPath : CStr) (p : Process)
    (r : LoadResult n) : Prop where
  names : r.proc.log.filter (·.isVisible) =
    p.log.filter (·.isVisible) ++ (tryNames w (intendedNames libPath)).1
  success : r.rc = .ok ↔ ∃ name ∈ intendedNames libPath, (w.dlopen name).isSome
  reported : ∀ o b, (tryNames w (intendedNames libPath)).2 = some o →
    r.resolvedPath = some b → o.path.strlen < n → b.str = o.path

/-- When the respelling is reached it fits its array, and the array still holds it when
the opened name is copied to the caller. -/
def RespellingSurvives {n : Nat} (w : World) (libPath : CStr)
    (resolved : Option (CharArray n)) : Prop :=
  (∀ name ∈ candidateNames libPath, w.dlopen name = none) →
    ∀ dylib, macSpelling libPath = some dylib → dylib.strlen < dylibCap ∧
      ((w.dlopen dylib).isSome → resolved.isSome → dylib.strlen < n →
        CharArray.formatted n (w.expired dylib) = dylib)

theorem dylibSpelling_of_lt {libPath dylib : CStr} (h : macSpelling libPath = some dylib)
    (hlt : dylib.strlen < dylibCap) : dylibSpelling libPath = some dylib := by
  unfold macSpelling at h
  split at h
  · next hso =>
      cases h
      have hcut : (libPath.take (libPath.strlen - 3)).strlen = libPath.strlen - 3 := by
        simp only [CStr.strlen, CStr.take_bytes, List.length_take]
        omega
      have hshort : libPath.strlen - 3 < dylibCap := by
        rw [CStr.strlen_append, hcut] at hlt
        omega
      have hint : (libPath.strlen - 3) % 2 ^ 32 = libPath.strlen - 3 :=
        Nat.mod_eq_of_lt (Nat.lt_trans hshort (by decide))
      rw [dylibSpelling, if_pos hso]
      dsimp only
      rw [CStr.precise_ofNat, hint, if_pos (Nat.lt_trans hshort (by decide)),
        CharArray.formatted_of_lt hlt]
  · cases h

theorem dylibSpelling_of_none {libPath : CStr} (h : macSpelling libPath = none) :
    dylibSpelling libPath = none := by
  unfold macSpelling at h
  split at h
  · cases h
  · next hso => rw [dylibSpelling, if_neg hso]

theorem dylibSpelling_of_le {libPath dylib : CStr} (h : macSpelling libPath = some dylib)
    (hle : dylibCap ≤ dylib.strlen) :
    ∃ cut, dylibSpelling libPath = some cut ∧ cut ≠ dylib := by
  unfold macSpelling at h
  split at h
  · next hso =>
      rw [dylibSpelling, if_pos hso]
      refine ⟨_, rfl, ?_⟩
      intro he
      have hlt : dylib.strlen < dylibCap := by
        rw [← he]
        exact Nat.lt_of_le_of_lt (CStr.strlen_take_le _ _) (by decide)
      omega
  · cases h

theorem attemptedNames_apple {libPath : CStr}
    (h : ∀ dylib, macSpelling libPath = some dylib → dylib.strlen < dylibCap) :
    attemptedNames .apple libPath = intendedNames libPath := by
  unfold attemptedNames intendedNames
  rw [respelling_apple]
  cases hmac : macSpelling libPath with
  | none => rw [dylibSpelling_of_none hmac]
  | some dylib => rw [dylibSpelling_of_lt hmac (h dylib hmac)]

section Load

variable {n : Nat} {w : World} {libPath dylib : CStr} {out : Option Handle}
  {resolved : Option (CharArray n)} {p : Process}

/-- Where the platform tries what is intended, only the name reported can be wrong. -/
theorem tries_iff_reported
    (h : tryNames w (attemptedNames .apple libPath) = tryNames w (intendedNames libPath)) :
    TriesIntendedNames w libPath p
        (uniccLoaderLoad .apple w (some libPath) (some out) resolved p) ↔
      ∀ o, (tryNames w (intendedNames libPath)).2 = some o → resolved.isSome →
        o.path.strlen < n → CharArray.formatted n (reportedPath w libPath o.path) = o.path := by
  have hspec := uniccLoaderLoad_spec .apple w libPath out resolved p
  rw [h] at hspec
  rcases hspec with ⟨hnone, p', hload, hterse, -⟩ | ⟨o, p', hsome, hload, hterse⟩
  · rw [hload]
    have hall := tryNames_none_iff.mp hnone
    constructor
    · intro _ o ho
      cases hnone.symm.trans ho
    · intro _
      refine ⟨Process.visible_of_quiet (quiet_of_tryNames hterse), ⟨nofun, ?_⟩, ?_⟩
      · rintro ⟨name, hname, hopens⟩
        rw [hall name hname] at hopens
        cases hopens
      · intro o b ho
        cases hnone.symm.trans ho
  · rw [hload]
    constructor
    · intro htries o' ho' hresolved hfits
      cases hsome.symm.trans ho'
      obtain ⟨b, rfl⟩ := Option.isSome_iff_exists.mp hresolved
      rw [← CharArray.str_snprintf b.terminate _ (by omega)]
      exact htries.reported o _ hsome rfl hfits
    · intro hreported
      refine ⟨Process.visible_of_quiet (quiet_of_tryNames hterse), ⟨fun _ => ?_, fun _ => rfl⟩, ?_⟩
      · exact ⟨o.path, tryNames_path_mem hsome, by rw [o.opened]; rfl⟩
      · intro o' b ho' hb hfits
        cases hsome.symm.trans ho'
        obtain ⟨b', rfl, rfl⟩ := Option.map_eq_some_iff.mp hb
        rw [CharArray.str_snprintf _ _ (by omega)]
        exact hreported o hsome rfl hfits

theorem load_visible :
    (uniccLoaderLoad .apple w (some libPath) (some out) resolved p).proc.log.filter
        (·.isVisible) =
      p.log.filter (·.isVisible) ++ (tryNames w (attemptedNames .apple libPath)).1 := by
  rcases uniccLoaderLoad_spec .apple w libPath out resolved p with
    ⟨-, p', hload, hterse, -⟩ | ⟨o, p', -, hload, hterse⟩
  · rw [hload]
    exact Process.visible_of_quiet (quiet_of_tryNames hterse)
  · rw [hload]
    exact Process.visible_of_quiet (quiet_of_tryNames hterse)

theorem tries_of_opened {o : OpenedLib w} (h : (tryNames w (candidateNames libPath)).2 = some o) :
    TriesIntendedNames w libPath p
      (uniccLoaderLoad .apple w (some libPath) (some out) resolved p) := by
  have hintended : tryNames w (intendedNames libPath) = tryNames w (candidateNames libPath) :=
    tryNames_append_some h _
  have hattempted : tryNames w (attemptedNames .apple libPath) =
      tryNames w (candidateNames libPath) := tryNames_append_some h _
  rw [tries_iff_reported (hattempted.trans hintended.symm), hintended]
  intro o' ho' _ hfits
  rw [reportedPath, if_pos (tryNames_path_mem ho'), CharArray.formatted_of_lt hfits]

theorem tries_of_unrespelled (h : (tryNames w (candidateNames libPath)).2 = none)
    (hmac : macSpelling libPath = none) :
    TriesIntendedNames w libPath p
      (uniccLoaderLoad .apple w (some libPath) (some out) resolved p) := by
  have hagree : attemptedNames .apple libPath = intendedNames libPath :=
    attemptedNames_apple (by rw [hmac]; nofun)
  have hintended : intendedNames libPath = candidateNames libPath := by
    rw [intendedNames, hmac]
    exact List.append_nil _
  rw [tries_iff_reported (congrArg (tryNames w) hagree), hintended]
  intro o ho
  cases h.symm.trans ho

theorem intendedNames_of_some (hmac : macSpelling libPath = some dylib) :
    intendedNames libPath = candidateNames libPath ++ [dylib] := by
  rw [intendedNames, hmac]
  rfl

theorem tries_iff_of_fits (h : (tryNames w (candidateNames libPath)).2 = none)
    (hmac : macSpelling libPath = some dylib) (hlt : dylib.strlen < dylibCap) :
    TriesIntendedNames w libPath p
        (uniccLoaderLoad .apple w (some libPath) (some out) resolved p) ↔
      ((w.dlopen dylib).isSome → resolved.isSome → dylib.strlen < n →
        CharArray.formatted n (w.expired dylib) = dylib) := by
  have hnew : ∀ o : OpenedLib w, o.path ∉ candidateNames libPath := by
    intro o hmem
    cases o.opened.symm.trans (tryNames_none_iff.mp h o.path hmem)
  have hagree : attemptedNames .apple libPath = intendedNames libPath := by
    apply attemptedNames_apple
    intro dylib' hdylib'
    cases hmac.symm.trans hdylib'
    exact hlt
  rw [tries_iff_reported (congrArg (tryNames w) hagree), intendedNames_of_some hmac,
    tryNames_append_none h]
  constructor
  · intro hreported hopens hresolved hfits
    obtain ⟨handle, hd⟩ := Option.isSome_iff_exists.mp hopens
    have hkept := hreported ⟨dylib, handle, hd⟩ (by rw [tryNames_cons_some hd]) hresolved hfits
    rwa [reportedPath, if_neg (hnew ⟨dylib, handle, hd⟩)] at hkept
  · intro hkept o ho hresolved hfits
    have hpath : o.path = dylib := List.mem_singleton.mp (tryNames_path_mem ho)
    have hopens : (w.dlopen dylib).isSome := by
      rw [← hpath, o.opened]
      rfl
    rw [reportedPath, if_neg (hnew o), hpath]
    rw [hpath] at hfits
    exact hkept hopens hresolved hfits

theorem not_tries_of_cut (h : (tryNames w (candidateNames libPath)).2 = none)
    (hmac : macSpelling libPath = some dylib) (hle : dylibCap ≤ dylib.strlen) :
    ¬ TriesIntendedNames w libPath p
      (uniccLoaderLoad .apple w (some libPath) (some out) resolved p) := by
  intro htries
  obtain ⟨cut, hcut, hne⟩ := dylibSpelling_of_le hmac hle
  have hattempted : attemptedNames .apple libPath = candidateNames libPath ++ [cut] := by
    rw [attemptedNames, respelling_apple, hcut]
    rfl
  have hnames := load_visible.symm.trans htries.names
  rw [hattempted, intendedNames_of_some hmac, tryNames_append_none h, tryNames_append_none h,
    tryNames_singleton_events, tryNames_singleton_events] at hnames
  have hlast := List.append_cancel_left (List.append_cancel_left hnames)
  simp only [List.cons.injEq, Event.dlopen.injEq] at hlast
  exact hne hlast.1.1

end Load

/-- A load on macOS tries the intended names exactly when a respelling it reaches survives
its array. -/
theorem load_tries_intended_names_iff {n : Nat} (w : World) (libPath : CStr)
    (out : Option Handle) (resolved : Option (CharArray n)) (p : Process) :
    TriesIntendedNames w libPath p
        (uniccLoaderLoad .apple w (some libPath) (some out) resolved p) ↔
      RespellingSurvives w libPath resolved := by
  cases h : (tryNames w (candidateNames libPath)).2 with
  | some o =>
      refine ⟨fun _ hall => ?_, fun _ => tries_of_opened h⟩
      have hnone := tryNames_none_iff.mpr hall
      cases h.symm.trans hnone
  | none =>
      have hall := tryNames_none_iff.mp h
      cases hmac : macSpelling libPath with
      | none =>
          refine ⟨fun _ _ dylib hdylib => ?_, fun _ => tries_of_unrespelled h hmac⟩
          cases hmac.symm.trans hdylib
      | some dylib =>
          by_cases hlt : dylib.strlen < dylibCap
          · rw [tries_iff_of_fits h hmac hlt]
            constructor
            · intro hkept _ dylib' hdylib'
              cases hmac.symm.trans hdylib'
              exact ⟨hlt, hkept⟩
            · intro hsurvives
              exact (hsurvives hall dylib hmac).2
          · refine ⟨fun htries => ?_, fun hsurvives => ?_⟩
            · exact absurd htries (not_tries_of_cut h hmac (Nat.le_of_not_lt hlt))
            · exact absurd (hsurvives hall dylib hmac).1 hlt

/-- A name of 157 bytes that ends in `.so`: the `.dylib` spelling has 160. -/
def longName : CStr := ⟨List.replicate 154 97, by decide⟩ ++ .lit ".so"

/-- Nothing opens, and the respelling of a long name is cut to `.dyli`. -/
theorem load_tries_cut_name :
    let w := { World.serving ncclRow (.returning 0) with dlopen := fun _ => none }
    longName.strlen < libPathCap ∧
      ¬ TriesIntendedNames w longName .start
        (uniccLoaderLoad .apple w (some longName) (some none)
          (some (CharArray.zero libPathCap)) .start) := by
  intro w
  have hmac : macSpelling longName = some (longName.take 154 ++ .lit ".dylib") := by
    decide +kernel
  have hcut : dylibCap ≤ (longName.take 154 ++ .lit ".dylib").strlen := by decide +kernel
  have hclosed := tryNames_none_iff.mpr fun name (_ : name ∈ candidateNames longName) =>
    (rfl : w.dlopen name = none)
  exact ⟨by decide +kernel, not_tries_of_cut hclosed hmac hcut⟩

/-! ## The reason given for a failure -/

/-- A failed load gives its reason in its last line: the message for the name itself. -/
def ReportsPrimary {n : Nat} (os : Os) (w : World) (libPath : CStr) (r : LoadResult n) : Prop :=
  r.rc = .errBackendLoad → r.proc.log.getLast? =
    some (.stderr (.lit "[UniCCL:ERROR] " ++ failureText os w libPath ++ .lit "\n"))

/-- Where a failing `dlopen` overwrites the message, the last name tried when no name opens
fails with the message of the first. -/
def LastFailsAsFirst (os : Os) (w : World) (libPath : CStr) : Prop :=
  os ≠ .windows → (∀ name ∈ attemptedNames os libPath, w.dlopen name = none) →
    w.dlerrorText (lastTried os libPath) = w.dlerrorText libPath

theorem blamed_iff (os : Os) (w : World) (libPath : CStr) :
    failureText os w (blamedName os libPath) = failureText os w libPath ↔
      (os ≠ .windows → w.dlerrorText (lastTried os libPath) = w.dlerrorText libPath) := by
  unfold failureText blamedName
  by_cases hos : os = .windows
  · rw [if_pos hos, if_pos hos, if_pos hos]
    exact ⟨fun _ h => absurd hos h, fun _ => rfl⟩
  · rw [if_neg hos, if_neg hos, if_neg hos]
    exact ⟨fun h _ => h, fun h => h hos⟩

/-- A failed load reports the primary failure exactly when the build is one for Windows or
the last name tried fails with the same message. -/
theorem failed_load_reports_primary_iff {n : Nat} (os : Os) (w : World) (libPath : CStr)
    (out : Option Handle) (resolved : Option (CharArray n)) (p : Process) :
    ReportsPrimary os w libPath (uniccLoaderLoad os w (some libPath) (some out) resolved p) ↔
      LastFailsAsFirst os w libPath := by
  rcases uniccLoaderLoad_spec os w libPath out resolved p with
    ⟨hnone, p', hload, -, hlast⟩ | ⟨o, p', hsome, hload, -⟩
  · rw [hload]
    have hall := tryNames_none_iff.mp hnone
    constructor
    · intro hreports hos _
      have hsame := hlast.symm.trans (hreports rfl)
      have htext := Event.stderr.inj (Option.some.inj hsame)
      exact (blamed_iff os w libPath).mp
        (CStr.append_left_cancel (CStr.append_right_cancel htext)) hos
    · intro hsame _
      rw [hlast, (blamed_iff os w libPath).mpr fun hos => hsame hos hall]
  · rw [hload]
    refine ⟨fun _ _ hall => ?_, fun _ hrc => by cases hrc⟩
    have hnone := tryNames_none_iff.mpr hall
    cases hsome.symm.trans hnone

theorem failed_load_reports_fallback :
    let w := { World.serving ncclRow (.returning 0) with
      dlopen := fun _ => none, dlerrorText := fun name => name }
    ¬ ReportsPrimary .linux w ncclRow.libName
      (uniccLoaderLoad .linux w (some ncclRow.libName) (some none)
        (none : Option (CharArray 0)) .start) := by
  intro w hreports
  exact absurd (hreports (by decide)) (by decide)

end UniCCL
