import UniCCL.Proof.Serving

/-! # The lifecycle over whole runs

The two shapes a reachable process can have on Linux, the decision `unicc_init` takes
there, and the independence of a lifecycle from the ones before it.
-/

namespace UniCCL

open CString

/-! ## The two shapes -/

structure UninitShape (p : Process) : Prop where
  gState : p.gState = .uninit
  slots : ∀ op, p.unicc.filled op = false
  gBackendType : p.gBackendType = .unknown
  gHandle : p.gHandle = none
  gBackendHandle : p.gBackendHandle = none
  gLibPath : p.gLibPath.str = .empty
  gLastBackendResult : p.gLastBackendResult = 0

/-- The shape of a process whose last `unicc_init` was `i`, with the handle and the
row that call found. -/
structure InitShape (i : LastInit) (h : Handle) (d : BackendInfo) (p : Process) : Prop where
  gState : p.gState = .init
  gHandle : p.gHandle = some h
  gBackendHandle : p.gBackendHandle = some h
  opened : i.world.dlopen p.gLibPath.str = some h
  openedByInit : .dlopen p.gLibPath.str (some h) ∈ i.events
  gBackendType : (uniccLoaderIdentifyBackend i.world (some h) p).1 = p.gBackendType
  family : familyOf p.gBackendType = some d
  core : ∀ op ∈ Op.core, p.unicc.filled op = true
  slots : ∀ op, p.unicc.filled op = true →
    ∃ f, slotTarget p.statics p.unicc op = some f ∧
      i.world.dlsym (some h) (d.name ++ op.suffix) = some f

theorem IdleProcess.shape {p : Process} (idle : IdleProcess p) : UninitShape p where
  gState := idle.gState
  slots op := by
    rw [idle.unicc]
    cases op <;> rfl
  gBackendType := idle.gBackendType
  gHandle := idle.gHandle
  gBackendHandle := idle.gBackendHandle
  gLibPath := idle.gLibPath
  gLastBackendResult := idle.gLastBackendResult

theorem LiveProcess.shape {s : Session} {e : Int32} {p : Process} (live : LiveProcess s e p)
    {i : LastInit} (hopened : (openSession .linux i.world).session = some s)
    (hmem : .dlopen s.name (some s.handle) ∈ i.events) :
    InitShape i s.handle s.family p := by
  have hworld := openSession_world hopened
  have hpath : p.gLibPath.str = s.name := live.gLibPath.trans (openSession_path hopened)
  refine ⟨live.gState, live.gHandle, live.gBackendHandle, ?_, ?_, ?_, ?_, ?_, ?_⟩
  · rw [hpath, ← hworld]
    exact s.opened
  · rw [hpath]
    exact hmem
  · obtain ⟨p', hid, -⟩ := uniccLoaderIdentifyBackend_of_some (p := p) s.identified
    rw [← hworld, hid, live.gBackendType]
  · rw [live.gBackendType]
    exact familyOf_type s.family_mem
  · intro op hop
    rw [live.bound.filled]
    exact live.bound.core op hop
  · intro op hfilled
    rw [live.bound.filled, Option.isSome_iff_exists] at hfilled
    obtain ⟨f, hf⟩ := hfilled
    refine ⟨f, ?_, ?_⟩
    · rw [live.bound.target]
      exact hf
    · rw [← hworld]
      exact backing_some hf

/-- After every run the process has one of the two shapes, the one the caller's own
note of the last successful `unicc_init` tells. -/
theorem lifecycle_coherent (is : List (World × Call)) :
    match lastInit (recorded .linux is) with
    | none => UninitShape (reached .linux is)
    | some i => ∃ h d, InitShape i h d (reached .linux is) := by
  cases hlast : lastInit (recorded .linux is) with
  | none => exact (reached_of_none hlast).shape
  | some i =>
      obtain ⟨s, e, live, hopened, hmem⟩ := reached_of_some hlast
      exact ⟨s.handle, s.family, live.shape hopened hmem⟩

/-! ## The decision of `unicc_init` -/

theorem init_output {os : Os} {p : Process} (idle : IdleProcess p) (w : World) :
    (outputOf os p w .init).view =
      ⟨rcOf (openSession os w).rc, .none, (openSession os w).events⟩ :=
  (wrapper_simulation os).output p .idle (w, .init) idle

theorem init_state {os : Os} {p : Process} (idle : IdleProcess p) (w : World) :
    ((wrapper os).step p (w, .init)).1.gState = .init ↔ (openSession os w).rc = .ok := by
  have hspec := openSession_spec os w
  have hafter : Refines ((wrapper os).step p (w, .init)).1 (openSession os w).next :=
    (wrapper_simulation os).state p .idle (w, .init) idle
  unfold Opening.next at hafter
  cases hs : (openSession os w).session with
  | none =>
      rw [hs] at hspec hafter
      have hidle : IdleProcess ((wrapper os).step p (w, .init)).1 := hafter
      rw [hidle.gState]
      exact ⟨fun h => (by cases h), fun h => absurd h hspec⟩
  | some s =>
      rw [hs] at hspec hafter
      exact ⟨fun _ => hspec.1, fun _ => LiveProcess.gState hafter⟩

/-- On an uninitialized process `unicc_init` returns, opens and closes what its
documentation says, and the process is initialized exactly when it returns `ok`. -/
theorem init_decision (is : List (World × Call)) (w : World)
    (h : (reached .linux is).gState = .uninit) :
    let name := selectedName w
    let tried := tryNames w (candidateNames name)
    let o := (outputOf .linux (reached .linux is) w .init).view
    (libPathCap ≤ name.strlen → o.ret = rcOf .errInvalidArgument ∧ o.events = []) ∧
    (name.strlen < libPathCap → tried.2 = none →
      o.ret = rcOf (if envValue w uniccLibraryVar = none ∧ envValue w uniccBackendVar = none then
        .errNoBackend else .errBackendLoad) ∧ o.events = tried.1) ∧
    (∀ l, name.strlen < libPathCap → tried.2 = some l →
      ((∃ d, Identifies w l.handle d ∧ Complete w l.handle d) →
        o.ret = rcOf .ok ∧ o.events = tried.1) ∧
      ((¬ ∃ d, Identifies w l.handle d ∧ Complete w l.handle d) →
        o.ret = rcOf .errSymbolNotFound ∧ o.events = tried.1 ++ [.dlclose l.handle])) ∧
    ((reached .linux (is ++ [(w, .init)])).gState = .init ↔ o.ret = rcOf .ok) := by
  have hidle := reached_idle h
  have hstate : ((wrapper .linux).step (reached .linux is) (w, .init)).1.gState = .init ↔
      (openSession .linux w).rc = .ok := init_state hidle w
  dsimp only
  rw [init_output hidle w, reached, Mealy.after_snoc, ← attemptedNames_linux]
  refine ⟨?_, ?_, ?_, ?_⟩
  · intro hlen
    rw [openSession_tooLong hlen]
    exact ⟨rfl, rfl⟩
  · intro hlen hnone
    rw [openSession_unopened hlen hnone]
    exact ⟨rfl, rfl⟩
  · intro l hlen hopened
    rw [openSession_opened hlen hopened]
    refine ⟨?_, fun hnot => ?_⟩
    · rintro ⟨d, hid, hcore⟩
      rw [validate_of_core (probedRow_iff.mpr hid) rfl hcore]
      exact ⟨rfl, rfl⟩
    · cases hd : probedRow w (some l.handle) with
      | none =>
          rw [validate_of_unidentified hd]
          exact ⟨rfl, rfl⟩
      | some d =>
          have hmissing : ¬ Complete w l.handle d :=
            fun hcore => hnot ⟨d, probedRow_identifies hd, hcore⟩
          rw [validate_of_missing hd rfl hmissing]
          exact ⟨rfl, rfl⟩
  · rw [rcOf_inj]
    exact hstate

theorem init_decision_oneccl :
    let w := World.serving onecclRow (.returning 0)
    let o := (outputOf .linux (reached .linux []) w .init).view
    o.ret = rcOf .ok ∧ o.events = [.dlopen (.lit "libnccl.so") (some ⟨0⟩)] := by
  intro w
  obtain ⟨-, -, hopened, -⟩ := init_decision [] w rfl
  have hid := serving_identifies (d := onecclRow) (by decide) (.returning 0) ⟨0⟩
  exact (hopened ⟨.lit "libnccl.so", ⟨0⟩, rfl⟩ (by decide) rfl).1
    ⟨onecclRow, hid, serving_complete ⟨0⟩⟩

/-! ## A new lifecycle -/

/-- Once it is uninitialized, the wrapper answers and acts as in a fresh process,
whatever the earlier lifecycles left in the statics and in the path buffer. -/
theorem reinit_as_fresh (t c : List (World × Call)) (h : (reached .linux t).gState = .uninit) :
    ((wrapper .linux).outputs (reached .linux t) c).map Output.view =
      ((wrapper .linux).outputs .start c).map Output.view := outputs_of_uninit h c

/-- ECCL has no `CommUserRank`; the static an NCCL lifecycle left is not seen. -/
theorem reinit_as_fresh_eccl :
    let w := World.serving ncclRow (.returning 3)
    let w' := World.serving ecclRow (.returning 0)
    let c := [(w', Call.init), (w', .commUserRank ⟨16⟩ (some ⟨⟨32⟩, 7⟩)), (w', .backendName)]
    ((wrapper .linux).outputs (reached .linux [(w, .init), (w, .groupStart), (w, .finalize)]) c).map
        Output.view = ((wrapper .linux).outputs .start c).map Output.view :=
  reinit_as_fresh _ _ (by decide)

end UniCCL
