import UniCCL.Proof.Refinement

/-! # Runs and their last successful initialization

What a caller can note while it uses the wrapper: the world of the last
`unicc_init` that succeeded and the events of that call, until a `unicc_finalize`
succeeds. The session of a reachable process was opened in that world by that call.
-/

namespace UniCCL

open CString

/-! ## The note a caller keeps -/

/-- A successful `unicc_init`: what the world answered and what the call did. -/
structure LastInit where
  world : World
  events : List Event

def noteInit (last : Option LastInit) (x : (World × Call) × Output) : Option LastInit :=
  match x.1.2 with
  | .init => if x.2.ret = rcOf .ok then some ⟨x.1.1, x.2.events⟩ else last
  | .finalize => if x.2.ret = rcOf .ok then none else last
  | _ => last

/-- The last successful `unicc_init` of a recorded run, unless it has been undone. -/
def lastInit (trace : List ((World × Call) × Output)) : Option LastInit :=
  Mealy.history noteInit none trace

def reached (os : Os) (is : List (World × Call)) : Process := (wrapper os).after .start is

def recorded (os : Os) (is : List (World × Call)) : List ((World × Call) × Output) :=
  (wrapper os).trace .start is

/-- What a call returns and does after a run. -/
def outputOf (os : Os) (p : Process) (w : World) (c : Call) : Output :=
  ((wrapper os).step p (w, c)).2

/-! ## Operations after a run -/

section Operations

variable {os : Os} {p : Process} {c : Call} {op : Op}

theorem outputOf_live {s : Session} {e : Int32} (live : LiveProcess s e p)
    (hop : c.op = some op) (w : World) : outputOf os p w c = (operate w s e op c).2 := by
  have hclear : LiveProcess s e { p with log := [] } := live.of_globals rfl
  have hperf : Performs os w s e op c { p with log := [] } := performs hclear hop
  unfold Performs at hperf
  simp only [outputOf, wrapper, hperf, List.nil_append]

theorem outputOf_idle (idle : IdleProcess p) (hop : c.op = some op) (w : World) :
    outputOf os p w c = refuse c .errNotInitialized := by
  have hclear : IdleProcess { p with log := [] } := idle.of_globals rfl
  simp only [outputOf, wrapper, operation_idle hclear hop]
  rfl

end Operations

/-! ## Opening -/

section Opening

variable {os : Os} {w : World}

theorem tryNames_opened_event {names : List CStr} {o : OpenedLib w}
    (h : (tryNames w names).2 = some o) :
    .dlopen o.path (some o.handle) ∈ (tryNames w names).1 := by
  induction names with
  | nil => simp [tryNames] at h
  | cons name names ih =>
      cases hd : w.dlopen name with
      | some handle =>
          rw [tryNames_cons_some hd] at h ⊢
          cases h
          exact List.mem_cons_self
      | none =>
          rw [tryNames_cons_none hd] at h ⊢
          exact List.mem_cons_of_mem _ (ih h)

structure Session.Of (s : Session) (os : Os) (o : OpenedLib w) (path : CStr) : Prop where
  world : s.world = w
  name : s.name = o.path
  path : s.path = path
  handle : s.handle = o.handle
  supported : backendSupportedOnPlatform os s.family.type = true

theorem validate_spec (os : Os) (o : OpenedLib w) (path : CStr) :
    match o.validate os path with
    | (rc, some s) => rc = .ok ∧ s.Of os o path
    | (rc, none) => rc ≠ .ok := by
  cases hd : probedRow w (some o.handle) with
  | none =>
      rw [validate_of_unidentified hd]
      exact (by decide : UniccResult.errSymbolNotFound ≠ .ok)
  | some d =>
      cases hos : backendSupportedOnPlatform os d.type with
      | false =>
          rw [validate_of_unsupported hd hos]
          exact (by decide : UniccResult.errBackendNotSupported ≠ .ok)
      | true =>
          by_cases hcore : Complete w o.handle d
          · rw [validate_of_core hd hos hcore]
            exact ⟨rfl, rfl, rfl, rfl, rfl, hos⟩
          · rw [validate_of_missing hd hos hcore]
            exact (by decide : UniccResult.errSymbolNotFound ≠ .ok)

/-- What an opening does: it leaves a session of the library that opened, or it fails
with nothing tried, with nothing opened, or with the library closed again. -/
theorem openSession_cases (os : Os) (w : World) :
    let tried := tryNames w (attemptedNames os (selectedName w))
    (∃ o s, tried.2 = some o ∧ openSession os w = ⟨.ok, tried.1, some s⟩ ∧
      (selectedName w).strlen < libPathCap ∧ s.Of os o (shownPath w (selectedName w) o.path)) ∨
    ((openSession os w).session = none ∧ (openSession os w).rc ≠ .ok ∧
      ((openSession os w).events = [] ∨
        (tried.2 = none ∧ (openSession os w).events = tried.1) ∨
        ∃ o, tried.2 = some o ∧ (openSession os w).events = tried.1 ++ [.dlclose o.handle])) := by
  intro tried
  by_cases hlen : libPathCap ≤ (selectedName w).strlen
  · rw [openSession_tooLong hlen]
    exact .inr ⟨rfl, by simp, .inl rfl⟩
  · have hfits := Nat.not_le.mp hlen
    cases ho : tried.2 with
    | none =>
        rw [openSession_unopened hfits ho]
        refine .inr ⟨rfl, ?_, .inr (.inl ⟨rfl, rfl⟩)⟩
        dsimp only
        split <;> decide
    | some o =>
        have hspec := validate_spec os o (shownPath w (selectedName w) o.path)
        rw [openSession_opened hfits ho]
        generalize o.validate os _ = validated at hspec ⊢
        obtain ⟨rc, session⟩ := validated
        cases session with
        | some s =>
            obtain ⟨rfl, hof⟩ := hspec
            exact .inl ⟨o, s, rfl, rfl, hfits, hof⟩
        | none => exact .inr ⟨rfl, hspec, .inr (.inr ⟨o, rfl, rfl⟩)⟩

theorem openSession_spec (os : Os) (w : World) :
    match (openSession os w).session with
    | some s => (openSession os w).rc = .ok ∧ s.world = w ∧
        .dlopen s.name (some s.handle) ∈ (openSession os w).events
    | none => (openSession os w).rc ≠ .ok := by
  rcases openSession_cases os w with ⟨o, s, ho, hopen, -, hof⟩ | ⟨hnone, hrc, -⟩
  · have hevent := tryNames_opened_event ho
    rw [← hof.name, ← hof.handle] at hevent
    rw [hopen]
    exact ⟨rfl, hof.world, hevent⟩
  · rw [hnone]
    exact hrc

theorem openSession_world {s : Session} (h : (openSession os w).session = some s) :
    s.world = w := by
  have hspec := openSession_spec os w
  rw [h] at hspec
  exact hspec.2.1

/-- On Linux what is reported is the name that opened. -/
theorem openSession_path {s : Session} (h : (openSession .linux w).session = some s) :
    s.path = s.name := by
  rcases openSession_cases .linux w with ⟨o, s', ho, hopen, hfits, hof⟩ | ⟨hnone, -⟩
  · rw [hopen] at h
    cases h
    have hmem := tryNames_path_mem ho
    rw [attemptedNames_linux] at hmem
    rw [hof.path, hof.name, shownPath, reportedPath, if_pos hmem]
    exact CharArray.formatted_of_lt (candidateNames_fit hfits hmem)
  · rw [hnone] at h
    cases h

theorem tryNames_closed_loading (w : World) (names : List CStr) (h : Handle) :
    ∀ e ∈ (tryNames w names).1 ++ [.dlclose h], e.isLoading = true := by
  intro e he
  rcases List.mem_append.mp he with htry | hclose
  · exact tryNames_loading w names e htry
  · cases List.mem_singleton.mp hclose
    rfl

theorem probeEvents_loading (os : Os) (w : World) (name : CStr) :
    ∀ e ∈ probeEvents os w name, e.isLoading = true := by
  have htry := tryNames_loading w (attemptedNames os name)
  have hclosed := tryNames_closed_loading w (attemptedNames os name)
  unfold probeEvents
  rcases ht : tryNames w (attemptedNames os name) with ⟨events, opened⟩
  rw [ht] at htry hclosed
  cases opened with
  | none => exact htry
  | some o => exact hclosed o.handle

theorem openSession_loading (os : Os) (w : World) :
    ∀ e ∈ (openSession os w).events, e.isLoading = true := by
  have htry := tryNames_loading w (attemptedNames os (selectedName w))
  rcases openSession_cases os w with ⟨o, s, -, hopen, -⟩ | ⟨-, -, hevents⟩
  · rw [hopen]
    exact htry
  · rcases hevents with hnone | ⟨-, hevents⟩ | ⟨o, -, hevents⟩
    · simp [hnone]
    · rw [hevents]
      exact htry
    · rw [hevents]
      exact tryNames_closed_loading w _ o.handle

end Opening

/-! ## The note describes the session -/

/-- The abstract state is live exactly since the noted initialization, with the session
that was opened then. -/
def Tracks (os : Os) (a : Abstract) (last : Option LastInit) : Prop :=
  match a.session?, last with
  | none, none => True
  | some s, some i => (openSession os i.world).session = some s ∧
      .dlopen s.name (some s.handle) ∈ i.events
  | _, _ => False

section Session

variable {os : Os} {a : Abstract} {last : Option LastInit} {c : Call}

theorem operation_session {op : Op} (hop : c.op = some op) (a : Abstract) (w : World) :
    (abstractStep os a w c).1.session? = a.session? := by
  cases a with
  | idle => rw [abstractStep_operation_idle hop]
  | live s e =>
      rw [abstractStep_operation_live hop]
      obtain ⟨⟨e', hstate⟩, -⟩ := operate_spec w s e op c
      rw [hstate]
      rfl

/-- Only `unicc_init` and `unicc_finalize` change the session. -/
theorem abstractStep_session (hinit : c ≠ .init) (hfin : c ≠ .finalize) (a : Abstract)
    (w : World) : (abstractStep os a w c).1.session? = a.session? := by
  cases c <;> first
    | contradiction
    | exact operation_session rfl a w
    | cases a <;> rfl

theorem Tracks.of_session {a' : Abstract} (h : Tracks os a last)
    (hs : a'.session? = a.session?) : Tracks os a' last := by
  unfold Tracks at h ⊢
  rw [hs]
  exact h

end Session

def Noted (os : Os) (p : Process) (last : Option LastInit) : Prop :=
  ∃ a, Refines p a ∧ Tracks os a last

theorem noteInit_of_ne {last : Option LastInit} {w : World} {c : Call} (o : Output)
    (hinit : c ≠ .init) (hfin : c ≠ .finalize) : noteInit last ((w, c), o) = last := by
  unfold noteInit
  split <;> first | contradiction | rfl

theorem noteInit_init (last : Option LastInit) (w : World) (o : Output) :
    noteInit last ((w, .init), o) =
      if o.ret = rcOf .ok then some ⟨w, o.events⟩ else last := rfl

theorem noteInit_finalize (last : Option LastInit) (w : World) (o : Output) :
    noteInit last ((w, .finalize), o) = if o.ret = rcOf .ok then none else last := rfl

theorem rcOf_inj {rc rc' : UniccResult} : rcOf rc = rcOf rc' ↔ rc = rc' := by
  simp [rcOf]

theorem tracks_opening (os : Os) (w : World) {o : Output}
    (hret : o.ret = rcOf (openSession os w).rc)
    (hevents : o.events.filter (·.isVisible) = (openSession os w).events) :
    Tracks os (abstractStep os .idle w .init).1
      (if o.ret = rcOf .ok then some ⟨w, o.events⟩ else none) := by
  have hspec := openSession_spec os w
  have hstep : (abstractStep os .idle w .init).1.session? = (openSession os w).session := by
    show (openSession os w).next.session? = _
    unfold Opening.next
    cases (openSession os w).session <;> rfl
  unfold Tracks
  rw [hstep, hret]
  cases hs : (openSession os w).session with
  | none =>
      rw [hs] at hspec
      rw [if_neg fun h => hspec (rcOf_inj.mp h)]
      trivial
  | some s =>
      rw [hs] at hspec
      obtain ⟨hok, -, hmem⟩ := hspec
      rw [← hevents] at hmem
      rw [if_pos (rcOf_inj.mpr hok)]
      exact ⟨hs, (List.mem_filter.mp hmem).1⟩

theorem noted_step (os : Os) (p : Process) (last : Option LastInit) (i : World × Call)
    (h : Noted os p last) :
    Noted os ((wrapper os).step p i).1 (noteInit last (i, ((wrapper os).step p i).2)) := by
  obtain ⟨a, href, htrack⟩ := h
  obtain ⟨w, c⟩ := i
  refine ⟨_, (wrapper_simulation os).state p a (w, c) href, ?_⟩
  have hview := (wrapper_simulation os).output p a (w, c) href
  generalize ((wrapper os).step p (w, c)).2 = o at hview
  have hret := congrArg Output.ret hview
  have hevents := congrArg Output.events hview
  by_cases hinit : c = .init
  · subst hinit
    rw [noteInit_init]
    cases a with
    | idle =>
        cases last with
        | none => exact tracks_opening os w hret hevents
        | some i => exact htrack.elim
    | live s e =>
        have hrefused : o.ret = rcOf .errAlreadyInitialized := hret
        rw [hrefused, if_neg (by decide)]
        exact htrack
  · by_cases hfin : c = .finalize
    · subst hfin
      rw [noteInit_finalize]
      cases a with
      | idle =>
          have hrefused : o.ret = rcOf .errNotInitialized := hret
          rw [hrefused, if_neg (by decide)]
          exact htrack
      | live s e =>
          have hdone : o.ret = rcOf .ok := hret
          rw [hdone, if_pos rfl]
          trivial
    · rw [noteInit_of_ne _ hinit hfin]
      exact htrack.of_session (abstractStep_session hinit hfin a w)

/-- Every reachable process stands for an abstract state whose session, if any, was
opened by the last successful `unicc_init` of the run. -/
theorem reached_noted (os : Os) (is : List (World × Call)) :
    Noted os (reached os is) (lastInit (recorded os is)) := by
  have hstart : Noted os (wrapper os).start none := ⟨.idle, idle_start, trivial⟩
  exact Mealy.history_invariant (wrapper os) (Noted os) (fun _ => True)
    (fun p last i h _ => noted_step os p last i h) hstart is fun _ _ => trivial

section Reached

variable {os : Os} {is : List (World × Call)}

theorem reached_of_none (h : lastInit (recorded os is) = none) : IdleProcess (reached os is) := by
  obtain ⟨a, href, htrack⟩ := reached_noted os is
  rw [h] at htrack
  cases a with
  | idle => exact href
  | live s e => exact htrack.elim

theorem reached_of_some {i : LastInit} (h : lastInit (recorded os is) = some i) :
    ∃ s e, LiveProcess s e (reached os is) ∧ (openSession os i.world).session = some s ∧
      .dlopen s.name (some s.handle) ∈ i.events := by
  obtain ⟨a, href, htrack⟩ := reached_noted os is
  rw [h] at htrack
  cases a with
  | idle => exact htrack.elim
  | live s e => exact ⟨s, e, href, htrack.1, htrack.2⟩

theorem session_lasts {s : Session} {e : Int32} {p : Process} (live : LiveProcess s e p)
    (os : Os) (js : List (World × Call)) (hjs : ∀ j ∈ js, j.2 ≠ .finalize) :
    ∃ e', LiveProcess s e' ((wrapper os).after p js) := by
  refine Mealy.after_invariant (wrapper os) (fun p => ∃ e, LiveProcess s e p)
    (fun j => j.2 ≠ .finalize) ?_ ⟨e, live⟩ js hjs
  rintro p j ⟨e, live⟩ hj
  have hsession : (abstractStep os (.live s e) j.1 j.2).1.session? = some s := by
    by_cases hinit : j.2 = .init
    · rw [hinit]
      rfl
    · exact abstractStep_session hinit hj (.live s e) j.1
  have hafter : Refines ((wrapper os).step p j).1 (abstractStep os (.live s e) j.1 j.2).1 :=
    (wrapper_simulation os).state p (.live s e) j live
  cases ha : (abstractStep os (.live s e) j.1 j.2).1 with
  | idle =>
      rw [ha] at hsession
      cases hsession
  | live s' e' =>
      rw [ha] at hsession hafter
      cases hsession
      exact ⟨e', hafter⟩

theorem reached_idle (h : (reached os is).gState = .uninit) : IdleProcess (reached os is) := by
  obtain ⟨a, href, -⟩ := reached_noted os is
  cases a with
  | idle => exact href
  | live s e =>
      have hinit := LiveProcess.gState href
      rw [h] at hinit
      cases hinit

/-- Without a session nothing of what came before shows in what follows. -/
theorem outputs_of_uninit (h : (reached os is).gState = .uninit) (c : List (World × Call)) :
    ((wrapper os).outputs (reached os is) c).map Output.view =
      ((wrapper os).outputs .start c).map Output.view := by
  have hidle : Refines (reached os is) .idle := reached_idle h
  exact (wrapper_simulation os).indistinguishable hidle (wrapper_simulation os).start c

theorem reached_init (h : (reached os is).gState = .init) :
    ∃ i s e, lastInit (recorded os is) = some i ∧ LiveProcess s e (reached os is) ∧
      s.world = i.world := by
  cases hlast : lastInit (recorded os is) with
  | none =>
      have huninit := (reached_of_none hlast).gState
      rw [h] at huninit
      cases huninit
  | some i =>
      obtain ⟨s, e, live, hopened, -⟩ := reached_of_some hlast
      exact ⟨i, s, e, rfl, live, openSession_world hopened⟩

end Reached

end UniCCL
