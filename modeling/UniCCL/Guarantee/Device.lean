import UniCCL.Guarantee.Handles
import UniCCL.Spec.Device

/-! # Loading a device runtime

`unicc_devmem_load` takes the first candidate that serves, leaves exactly its library
open and changes nothing of the wrapper in the same process.
-/

namespace UniCCL

open CString

/-! ## Trying candidates -/

section Try

variable {w : World} {c : Candidate} {cs ds : List Candidate} {h : Handle}

theorem tryRuntimes_of_none (ho : w.dlopen c.lib = none) :
    tryRuntimes w (c :: cs) =
      (.dlopen c.lib none :: (tryRuntimes w cs).1, (tryRuntimes w cs).2) := by
  simp only [tryRuntimes, ho]

theorem tryRuntimes_of_serves (ho : w.dlopen c.lib = some h) (hs : c.Serves w h) :
    tryRuntimes w (c :: cs) = ([.dlopen c.lib (some h)], some (c, h)) := by
  simp only [tryRuntimes, ho, if_pos hs]

theorem tryRuntimes_of_lacks (ho : w.dlopen c.lib = some h) (hs : ¬ c.Serves w h) :
    tryRuntimes w (c :: cs) =
      (.dlopen c.lib (some h) :: .dlclose h :: (tryRuntimes w cs).1, (tryRuntimes w cs).2) := by
  simp only [tryRuntimes, ho, if_neg hs]

/-- A candidate that is passed over does not open, or what opens does not serve. -/
def Candidate.Passed (w : World) (c : Candidate) : Prop :=
  ∀ h, w.dlopen c.lib = some h → ¬ c.Serves w h

theorem tryRuntimes_append :
    tryRuntimes w (cs ++ ds) =
      match (tryRuntimes w cs).2 with
      | some taken => ((tryRuntimes w cs).1, some taken)
      | none => ((tryRuntimes w cs).1 ++ (tryRuntimes w ds).1, (tryRuntimes w ds).2) := by
  induction cs with
  | nil => rfl
  | cons c cs ih =>
      rw [List.cons_append]
      cases ho : w.dlopen c.lib with
      | none =>
          rw [tryRuntimes_of_none ho, tryRuntimes_of_none ho, ih]
          cases (tryRuntimes w cs).2 <;> rfl
      | some h =>
          by_cases hs : c.Serves w h
          · rw [tryRuntimes_of_serves ho hs, tryRuntimes_of_serves ho hs]
          · rw [tryRuntimes_of_lacks ho hs, tryRuntimes_of_lacks ho hs, ih]
            cases (tryRuntimes w cs).2 <;> rfl

theorem tryRuntimes_spec (cs : List Candidate) :
    match (tryRuntimes w cs).2 with
    | some (c, h) => ∃ before after, cs = before ++ c :: after ∧ w.dlopen c.lib = some h ∧
        c.Serves w h ∧ ∀ d ∈ before, d.Passed w
    | none => ∀ d ∈ cs, d.Passed w := by
  induction cs with
  | nil => exact nofun
  | cons c cs ih =>
      by_cases hserves : ∃ h, w.dlopen c.lib = some h ∧ c.Serves w h
      · obtain ⟨h, ho, hs⟩ := hserves
        rw [tryRuntimes_of_serves ho hs]
        exact ⟨[], cs, rfl, ho, hs, nofun⟩
      · have hpassed : c.Passed w := fun h ho hs => hserves ⟨h, ho, hs⟩
        have hrest : (tryRuntimes w (c :: cs)).2 = (tryRuntimes w cs).2 := by
          cases ho : w.dlopen c.lib with
          | none => rw [tryRuntimes_of_none ho]
          | some h => rw [tryRuntimes_of_lacks ho (hpassed h ho)]
        rw [hrest]
        cases ht : (tryRuntimes w cs).2 with
        | none =>
            rw [ht] at ih
            exact List.forall_mem_cons.mpr ⟨hpassed, ih⟩
        | some taken =>
            rw [ht] at ih
            obtain ⟨before, after, rfl, ho, hs, hbefore⟩ := ih
            exact ⟨c :: before, after, rfl, ho, hs, List.forall_mem_cons.mpr ⟨hpassed, hbefore⟩⟩

theorem balance_tryRuntimes (held : Multiset Handle) (cs : List Candidate) :
    Ledger.balance held (ledgerOf (tryRuntimes w cs).1) =
      some (match (tryRuntimes w cs).2 with | some (_, h) => h ::ₘ held | none => held) := by
  induction cs with
  | nil => rfl
  | cons c cs ih =>
      cases ho : w.dlopen c.lib with
      | none =>
          rw [tryRuntimes_of_none ho]
          exact ih
      | some h =>
          by_cases hs : c.Serves w h
          · rw [tryRuntimes_of_serves ho hs]
            rfl
          · rw [tryRuntimes_of_lacks ho hs]
            show Ledger.balance held (.acquire h :: .release h :: _) = _
            rw [Ledger.balance_acquire, Ledger.balance_release_cons]
            exact ih

end Try

/-! ## The two functions of `devmem.c` -/

section Load

variable (w : World)

theorem devmemSymbol_eq {family function : CStr} (hf : family ∈ [CStr.lit "cuda", .lit "hip"])
    (hfn : function ∈ deviceFunctions) : devmemSymbol family function = family ++ function := by
  have hall : ∀ family ∈ [CStr.lit "cuda", .lit "hip"], ∀ function ∈ deviceFunctions,
      (family ++ function).strlen < 64 := by decide
  exact CharArray.formatted_of_lt (hall family hf function hfn)

/-- The six symbols fit their buffer, so they are looked up whole. -/
theorem resolve_eq {family : CStr} (hf : family ∈ [CStr.lit "cuda", .lit "hip"]) (lib : CStr)
    (h : Handle) (api : Devmem) (p : Process) :
    { (api.resolve w h family p).1 with runtime := some family } =
      Candidate.table w ⟨lib, family⟩ h := by
  have hsym {function : CStr} (hfn : function ∈ deviceFunctions) := devmemSymbol_eq hf hfn
  simp only [Devmem.resolve, Candidate.table, Process.dlsym_terse]
  rw [hsym (by decide), hsym (by decide), hsym (by decide), hsym (by decide), hsym (by decide),
    hsym (by decide)]

theorem resolve_terse (h : Handle) (family : CStr) (api : Devmem) (p : Process) :
    (api.resolve w h family p).2.terse = p.terse := by
  simp only [Devmem.resolve, Process.dlsym_terse]

theorem filled_iff {family : CStr} (lib : CStr) (h : Handle) {api : Devmem}
    (hapi : { api with runtime := some family } = Candidate.table w ⟨lib, family⟩ h) :
    api.filled = true ↔ Candidate.Serves w ⟨lib, family⟩ h := by
  have hfilled : api.filled = (Candidate.table w ⟨lib, family⟩ h).filled := by
    rw [← hapi]
    rfl
  rw [hfilled]
  simp [Devmem.filled, Candidate.table, Candidate.Serves, deviceFunctions, and_assoc]

theorem loadRuntimeFrom_spec {family : CStr} (hf : family ∈ [CStr.lit "cuda", .lit "hip"])
    (libs : List CStr) (lastErr : Option Process.DlerrorRef) (api : Devmem) (p : Process) :
    let r := loadRuntimeFrom w family lastErr libs api p
    let t := tryRuntimes w (libs.map (⟨·, family⟩))
    r.2.2.quiet = p.quiet.extend t.1 ∧
      match t.2 with
      | some (c, h) => r.1 = 0 ∧ r.2.1 = c.table w h
      | none => r.1 = -1 := by
  induction libs generalizing lastErr api p with
  | nil =>
      refine ⟨?_, rfl⟩
      simp [loadRuntimeFrom, tryRuntimes]
  | cons lib libs ih =>
      have hopen := Process.quiet_of_terse (Process.dlopen_terse w lib p)
      dsimp only
      rw [List.map_cons]
      cases ho : w.dlopen lib with
      | none =>
          have hstep : p.dlopen w lib = (none, (p.dlopen w lib).2) := by
            simp only [Process.dlopen, ho]
          rw [ho] at hopen
          rw [tryRuntimes_of_none (c := ⟨lib, family⟩) ho]
          unfold loadRuntimeFrom
          rw [hstep]
          dsimp only
          obtain ⟨hquiet, hresult⟩ := ih (p.dlopen w lib).2.dlerror api (p.dlopen w lib).2
          refine ⟨?_, hresult⟩
          rw [hquiet, hopen, Process.extend_extend]
          rfl
      | some h =>
          have hstep : p.dlopen w lib = (some h, (p.dlopen w lib).2) := by
            simp only [Process.dlopen, ho]
          have hapi := resolve_eq w hf lib h api (p.dlopen w lib).2
          have hfilled := filled_iff w lib h hapi
          have hlooked := resolve_terse w h family api (p.dlopen w lib).2
          rw [ho] at hopen
          rw [← Process.quiet_of_terse_eq hlooked] at hopen
          unfold loadRuntimeFrom
          rw [hstep]
          dsimp only
          by_cases hs : Candidate.Serves w ⟨lib, family⟩ h
          · rw [tryRuntimes_of_serves (c := ⟨lib, family⟩) ho hs, if_pos (hfilled.mpr hs)]
            exact ⟨hopen, rfl, hapi⟩
          · rw [tryRuntimes_of_lacks (c := ⟨lib, family⟩) ho hs,
              if_neg fun hfull => hs (hfilled.mp hfull)]
            obtain ⟨hquiet, hresult⟩ := ih lastErr
              (api.resolve w h family (p.dlopen w lib).2).1
              ((api.resolve w h family (p.dlopen w lib).2).2.dlclose (some h))
            refine ⟨?_, hresult⟩
            rw [hquiet, Process.quiet_of_terse (Process.dlclose_terse h _), hopen,
              Process.extend_extend, Process.extend_extend]
            rfl

theorem uniccDevmemLoad_spec (api : Devmem) (p : Process) :
    let r := uniccDevmemLoad w api p
    let t := tryRuntimes w Candidate.all
    r.2.2.quiet = p.quiet.extend t.1 ∧
      match t.2 with
      | some (c, h) => r.1 = 0 ∧ r.2.1 = c.table w h
      | none => r.1 = -1 := by
  have hcuda : CStr.lit "cuda" ∈ [CStr.lit "cuda", .lit "hip"] := by decide
  have hhip : CStr.lit "hip" ∈ [CStr.lit "cuda", .lit "hip"] := by decide
  obtain ⟨hquiet, hresult⟩ := loadRuntimeFrom_spec w hcuda cudaLibs none api p
  dsimp only
  rw [Candidate.all, tryRuntimes_append]
  unfold uniccDevmemLoad loadRuntime
  cases ht : (tryRuntimes w (cudaLibs.map (⟨·, .lit "cuda"⟩))).2 with
  | some taken =>
      rw [ht] at hresult
      dsimp only
      rw [if_pos hresult.1]
      exact ⟨hquiet, rfl, hresult.2⟩
  | none =>
      rw [ht] at hresult
      have hfail : (loadRuntimeFrom w (.lit "cuda") none cudaLibs api p).1 ≠ 0 := by
        rw [hresult]
        decide
      dsimp only
      rw [if_neg hfail]
      obtain ⟨hquiet', hresult'⟩ := loadRuntimeFrom_spec w hhip hipLibs none
        (loadRuntimeFrom w (.lit "cuda") none cudaLibs api p).2.1
        (loadRuntimeFrom w (.lit "cuda") none cudaLibs api p).2.2
      rw [hquiet, Process.extend_extend] at hquiet'
      cases ht' : (tryRuntimes w (hipLibs.map (⟨·, .lit "hip"⟩))).2 with
      | some taken =>
          rw [ht'] at hresult'
          rw [if_pos hresult'.1]
          exact ⟨hquiet', rfl, hresult'.2⟩
      | none =>
          rw [ht'] at hresult'
          have hfail' : (loadRuntimeFrom w (.lit "hip") none hipLibs
              (loadRuntimeFrom w (.lit "cuda") none cudaLibs api p).2.1
              (loadRuntimeFrom w (.lit "cuda") none cudaLibs api p).2.2).1 ≠ 0 := by
            rw [hresult']
            decide
          rw [if_neg hfail']
          exact ⟨hquiet', rfl⟩

theorem table_filled {c : Candidate} {h : Handle} (hs : c.Serves w h) :
    (c.table w h).filled = true := by
  simpa [Devmem.filled, Candidate.table, Candidate.Serves, deviceFunctions, and_assoc] using hs

/-- A load, from an empty log on: the table it fills, the handle it keeps, and nothing
of the wrapper's globals. -/
theorem uniccDevmemLoad_result (api : Devmem) (p : Process) :
    let r := uniccDevmemLoad w api { p with log := [] }
    r.2.2.globals = p.globals ∧
      match (tryRuntimes w Candidate.all).2 with
      | some (c, h) => r.1 = 0 ∧ r.2.1 = c.table w h ∧ r.2.1.filled = true ∧
          ∀ held, Ledger.balance held (ledgerOf r.2.2.log) = some (h ::ₘ held)
      | none => r.1 = -1 ∧ ∀ held, Ledger.balance held (ledgerOf r.2.2.log) = some held := by
  obtain ⟨hquiet, hresult⟩ := uniccDevmemLoad_spec w api { p with log := [] }
  have hfirst := tryRuntimes_spec (w := w) Candidate.all
  have hbalance (held : Multiset Handle) := balance_tryRuntimes (w := w) held Candidate.all
  have hevents := Process.visible_of_quiet hquiet
  have hledger : ledgerOf (uniccDevmemLoad w api { p with log := [] }).2.2.log =
      ledgerOf (tryRuntimes w Candidate.all).1 := by
    rw [← ledgerOf_visible, hevents]
    rfl
  have hglobals : (uniccDevmemLoad w api { p with log := [] }).2.2.globals =
      ({ p with log := [] } : Process).globals := Process.globals_of_quiet hquiet
  dsimp only
  rw [hledger]
  refine ⟨hglobals, ?_⟩
  cases ht : (tryRuntimes w Candidate.all).2 with
  | some taken =>
      rw [ht] at hresult hfirst
      simp only [ht] at hbalance
      obtain ⟨-, -, -, -, hs, -⟩ := hfirst
      refine ⟨hresult.1, hresult.2, ?_, hbalance⟩
      rw [hresult.2]
      exact table_filled w hs
  | none =>
      rw [ht] at hresult
      simp only [ht] at hbalance
      exact ⟨hresult, hbalance⟩

/-- The load takes the first candidate, CUDA before HIP, that opens and exports all six
functions; its pointers are that library's, and its handle is what stays open. Without
such a candidate it fails and closes whatever it opened. The wrapper's globals in the
same process are as they were. -/
theorem devmem_load_first (api : Devmem) (p : Process) :
    let r := uniccDevmemLoad w api { p with log := [] }
    r.2.2.globals = p.globals ∧
    ((∃ before c after h, Candidate.all = before ++ c :: after ∧ (∀ d ∈ before, d.Passed w) ∧
        w.dlopen c.lib = some h ∧ c.Serves w h ∧
        r.1 = 0 ∧ r.2.1 = c.table w h ∧ r.2.1.filled = true ∧
        ∀ held, Ledger.balance held (ledgerOf r.2.2.log) = some (h ::ₘ held)) ∨
      ((∀ d ∈ Candidate.all, d.Passed w) ∧ r.1 = -1 ∧
        ∀ held, Ledger.balance held (ledgerOf r.2.2.log) = some held)) := by
  obtain ⟨hglobals, hresult⟩ := uniccDevmemLoad_result w api p
  have hfirst := tryRuntimes_spec (w := w) Candidate.all
  refine ⟨hglobals, ?_⟩
  cases ht : (tryRuntimes w Candidate.all).2 with
  | some taken =>
      rw [ht] at hresult hfirst
      obtain ⟨before, after, hall, ho, hs, hbefore⟩ := hfirst
      exact .inl ⟨before, taken.1, after, taken.2, hall, hbefore, ho, hs, hresult⟩
  | none =>
      rw [ht] at hresult hfirst
      exact .inr ⟨hfirst, hresult⟩

end Load

end UniCCL
