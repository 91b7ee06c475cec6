import Mathlib.Data.List.Find
import UniCCL.Proof.Serving

/-! # The dispatch table over its own lifecycle

What `unicc_vtable_init` and `unicc_vtable_cleanup` leave in the table when they are
called in any order, without the API layer that calls them in pairs; what one bind
validates and installs; and which family of a hybrid library is bound.
-/

namespace UniCCL

open CString

/-! ## Failed inits -/

/-- An init that fails leaves a zero table and no backend type. -/
def FailureLeavesNothing (os : Os) (p : Process) (i : World × VtableCall)
    (o : Option UniccResult) : Prop :=
  match i.2 with
  | .init _ => o ≠ some .ok →
      ((vtableMachine os).step p i).1.unicc = .zero ∧
        uniccGetBackendType ((vtableMachine os).step p i).1 = .unknown
  | .cleanup => True

/-- An init whose library has to be refused is made while no backend type is published. -/
def RefusalMeetsUnbound (os : Os) (p : Process) (i : World × VtableCall) : Prop :=
  match i.2 with
  | .init handle => (∀ d, ¬ Accepts os i.1 handle d) → p.gBackendType = .unknown
  | .cleanup => True

def UnboundIsZero (p : Process) : Prop := p.gBackendType = .unknown → p.unicc = .zero

theorem Accepts.mem {os : Os} {w : World} {handle : Option Handle} {d : BackendInfo}
    (hacc : Accepts os w handle d) : d ∈ uniccBackends := by
  obtain ⟨h, -, hid, -⟩ := hacc
  exact hid.mem

theorem Accepts.unique {os : Os} {w : World} {handle : Option Handle} {d d' : BackendInfo}
    (hacc : Accepts os w handle d) (hacc' : Accepts os w handle d') : d = d' := by
  obtain ⟨h, rfl, hid, -⟩ := hacc
  obtain ⟨h', he, hid', -⟩ := hacc'
  cases he
  exact Option.some.inj ((probedRow_iff.mpr hid).symm.trans (probedRow_iff.mpr hid'))

theorem unboundIsZero_step (os : Os) (p : Process) (i : World × VtableCall)
    (inv : UnboundIsZero p) : UnboundIsZero ((vtableMachine os).step p i).1 := by
  obtain ⟨w, c⟩ := i
  cases c with
  | init handle =>
      by_cases hacc : ∃ d, Accepts os w handle d
      · obtain ⟨d, hacc⟩ := hacc
        obtain ⟨p', hinit, htype, -⟩ := uniccVtableInit_accepted hacc p
        simp only [vtableMachine, hinit]
        intro hunknown
        rw [htype] at hunknown
        exact absurd hunknown (type_ne_unknown hacc.mem)
      · obtain ⟨rc, p', hinit, -, htype, htable⟩ :=
          uniccVtableInit_refused (not_exists.mp hacc) p
        simp only [vtableMachine, hinit]
        intro hunknown
        rcases htable with hkept | hzero
        · rw [hkept]
          exact inv (htype.symm.trans hunknown)
        · exact hzero
  | cleanup => exact fun _ => rfl

theorem unboundIsZero_after (os : Os) (is : List (World × VtableCall)) :
    UnboundIsZero ((vtableMachine os).after .start is) :=
  Mealy.after_invariant _ UnboundIsZero (fun _ => True)
    (fun p i inv _ => unboundIsZero_step os p i inv) (fun _ => rfl) is fun _ _ => trivial

theorem failureLeavesNothing_step {os : Os} {p : Process} (inv : UnboundIsZero p)
    (i : World × VtableCall) :
    FailureLeavesNothing os p i ((vtableMachine os).step p i).2 ↔ RefusalMeetsUnbound os p i := by
  obtain ⟨w, c⟩ := i
  cases c with
  | init handle =>
      by_cases hacc : ∃ d, Accepts os w handle d
      · obtain ⟨d, hacc⟩ := hacc
        obtain ⟨p', hinit, -⟩ := uniccVtableInit_accepted hacc p
        simp only [FailureLeavesNothing, RefusalMeetsUnbound, vtableMachine, hinit]
        exact ⟨fun _ hno => absurd hacc (hno d), fun _ hne => absurd rfl hne⟩
      · have hno := not_exists.mp hacc
        obtain ⟨rc, p', hinit, hrc, htype, htable⟩ := uniccVtableInit_refused hno p
        simp only [FailureLeavesNothing, RefusalMeetsUnbound, vtableMachine, hinit]
        constructor
        · intro hleft _
          have hunknown := (hleft fun he => hrc (Option.some.inj he)).2
          exact htype.symm.trans hunknown
        · intro hmeets _
          have hunknown := hmeets hno
          refine ⟨?_, htype.trans hunknown⟩
          rcases htable with hkept | hzero
          · rw [hkept]
            exact inv hunknown
          · exact hzero
  | cleanup => exact Iff.rfl

/-- In a run every failed init leaves nothing behind exactly when each library that has
to be refused is refused while no type is published. -/
theorem failed_init_leaves_nothing_iff (os : Os) (is : List (World × VtableCall)) :
    (vtableMachine os).Always (FailureLeavesNothing os) .start is ↔
      (vtableMachine os).Always (fun p i _ => RefusalMeetsUnbound os p i) .start is :=
  Mealy.always_congr _
    (fun before i => failureLeavesNothing_step (unboundIsZero_after os before) i) is

/-- A library that exports nothing is refused, and the NCCL table stays in place. -/
theorem failed_init_keeps_nccl :
    let w := World.serving ncclRow (.returning 0)
    let bare := { w with dlsym := fun _ _ => none }
    let is := [(w, VtableCall.init (some ⟨0⟩)), (bare, .init (some ⟨1⟩))]
    ¬ (vtableMachine .linux).Always (FailureLeavesNothing .linux) .start is := by
  intro w bare is halways
  have hleft := halways [(w, .init (some ⟨0⟩))] (bare, .init (some ⟨1⟩)) [] rfl
  have hunknown := (hleft (by decide)).2
  exact absurd hunknown (by decide)

/-! ## Successful inits -/

/-- An init that succeeds fills the table as it fills an empty one, and every slot
reaches the library's own function or is NULL. -/
def DependsOnLibrary (os : Os) (p : Process) (i : World × VtableCall)
    (o : Option UniccResult) : Prop :=
  match i.2 with
  | .init handle => o = some .ok →
      let p' := ((vtableMachine os).step p i).1
      (∀ q : Process, q.unicc = .zero →
        let q' := ((vtableMachine os).step q i).1
        p'.unicc = q'.unicc ∧
          ∀ op, slotTarget p'.statics p'.unicc op = slotTarget q'.statics q'.unicc op) ∧
      ∃ h d, handle = some h ∧ Identifies i.1 h d ∧ ∀ op, p'.unicc.filled op = true →
        d.has op = true ∧ ∃ f, slotTarget p'.statics p'.unicc op = some f ∧
          i.1.dlsym (some h) (d.name ++ op.suffix) = some f
  | .cleanup => True

/-- A library of a family without `CommUserRank` is bound while that slot is NULL. -/
def UserRankSlotFree (os : Os) (p : Process) (i : World × VtableCall) : Prop :=
  match i.2 with
  | .init handle => ∀ d, Accepts os i.1 handle d → d.hasCommUserRank = false →
      p.unicc.commUserRank = none
  | .cleanup => True

theorem dependsOnLibrary_step (os : Os) (p : Process) (i : World × VtableCall) :
    DependsOnLibrary os p i ((vtableMachine os).step p i).2 ↔ UserRankSlotFree os p i := by
  obtain ⟨w, c⟩ := i
  cases c with
  | init handle =>
      by_cases hacc : ∃ d, Accepts os w handle d
      · obtain ⟨d, hacc⟩ := hacc
        obtain ⟨p', hinit, -, hbound⟩ := uniccVtableInit_accepted hacc p
        have hd := hacc.mem
        simp only [DependsOnLibrary, UserRankSlotFree, vtableMachine, hinit]
        constructor
        · intro hdepends d' hacc' hflag
          cases hacc.unique hacc'
          obtain ⟨q', hfresh, -, hempty⟩ := uniccVtableInit_accepted hacc .start
          have htable := ((hdepends trivial).1 .start rfl).1
          rw [hfresh] at htable
          have hleft : ∀ kept, leftBy w handle d kept .commUserRank = kept := by
            intro kept
            simp [leftBy, BackendInfo.has, hflag]
          have hslot := hbound.commUserRank
          rw [htable, hempty.commUserRank, hleft, hleft] at hslot
          exact hslot.symm
        · intro hfree _
          have haccepts := hacc
          obtain ⟨h, rfl, hid, -⟩ := haccepts
          rw [leftBy_row hd (hfree d hacc)] at hbound
          refine ⟨?_, h, d, rfl, hid, ?_⟩
          · intro q hq
            obtain ⟨q', hfresh, -, hempty⟩ := uniccVtableInit_accepted hacc q
            have hzero : q.unicc.commUserRank = none := by
              rw [hq]
              rfl
            rw [leftBy_row hd fun _ => hzero] at hempty
            simp only [hfresh]
            refine ⟨hbound.table_eq hempty, ?_⟩
            intro op
            rw [hbound.target, hempty.target]
          · intro op hfilled
            rw [hbound.filled] at hfilled
            obtain ⟨f, hf⟩ := Option.isSome_iff_exists.mp hfilled
            exact ⟨has_of_backing hfilled, f, (hbound.target op).trans hf, backing_some hf⟩
      · obtain ⟨rc, p', hinit, hrc, -⟩ := uniccVtableInit_refused (not_exists.mp hacc) p
        simp only [DependsOnLibrary, UserRankSlotFree, vtableMachine, hinit]
        exact ⟨fun _ d hd => absurd ⟨d, hd⟩ hacc, fun _ hok => absurd (Option.some.inj hok) hrc⟩
  | cleanup => exact Iff.rfl

/-- In a run every successful init depends on its library only exactly when each library
of a family without `CommUserRank` is bound while that slot is NULL. -/
theorem init_depends_on_library_iff (os : Os) (is : List (World × VtableCall)) :
    (vtableMachine os).Always (DependsOnLibrary os) .start is ↔
      (vtableMachine os).Always (fun p i _ => UserRankSlotFree os p i) .start is :=
  Mealy.always_congr _ (fun _ i => dependsOnLibrary_step os _ i) is

theorem init_eccl_keeps_nccl_slot :
    let w := World.serving ncclRow (.returning 0)
    let w' := World.serving ecclRow (.returning 0)
    let is := [(w, VtableCall.init (some ⟨0⟩)), (w', .init (some ⟨1⟩))]
    ¬ (vtableMachine .linux).Always (DependsOnLibrary .linux) .start is := by
  intro w w' is halways
  have hdepends := halways [(w, .init (some ⟨0⟩))] (w', .init (some ⟨1⟩)) [] rfl
  have htable := ((hdepends (by decide)).1 .start rfl).1
  have hslot := congrArg Vtable.commUserRank htable
  exact absurd hslot (by decide)

/-! ## One bind -/

theorem familyOf_eq_some_iff {type : BackendType} {d : BackendInfo} :
    familyOf type = some d ↔ d ∈ uniccBackends ∧ d.type = type := by
  constructor
  · intro h
    have htype := List.find?_some h
    exact ⟨List.mem_of_find?_eq_some h, of_decide_eq_true htype⟩
  · rintro ⟨hd, rfl⟩
    exact familyOf_type hd

/-- A bind succeeds exactly on a handle that exports the four core symbols of the type's
own row; a bind that fails changes no slot; and every slot that a bind fills reaches a
function that this bind resolved. -/
theorem bind_validates (w : World) (handle : Option Handle) (type : BackendType) (p : Process) :
    let r := uniccVtableBind w handle type p
    (r.1 = .ok ↔ ∃ d ∈ uniccBackends, d.type = type ∧
      ∀ op ∈ Op.core, (w.dlsym handle (d.name ++ op.suffix)).isSome) ∧
    (r.1 ≠ .ok → r.2.unicc = p.unicc) ∧
    (r.1 = .ok → ∃ d ∈ uniccBackends, d.type = type ∧
      ∀ op, d.has op = true → r.2.unicc.filled op = true →
        ∃ f, slotTarget r.2.statics r.2.unicc op = some f ∧
          w.dlsym handle (d.name ++ op.suffix) = some f) := by
  intro r
  cases hfam : familyOf type with
  | none =>
      have hno : ¬ ∃ d ∈ uniccBackends, d.type = type ∧
          ∀ op ∈ Op.core, (w.dlsym handle (d.name ++ op.suffix)).isSome := by
        rintro ⟨d, hd, htype, -⟩
        cases hfam.symm.trans (familyOf_eq_some_iff.mpr ⟨hd, htype⟩)
      have hrc : r.1 = .errBackendInitFailed := by simp only [r, uniccVtableBind, hfam]
      have htable : r.2.unicc = p.unicc := by
        simp only [r, uniccVtableBind, hfam]
        rfl
      rw [hrc]
      exact ⟨⟨fun h => (by cases h), fun h => absurd h hno⟩, fun _ => htable,
        fun h => (by cases h)⟩
  | some d =>
      obtain ⟨hd, htype⟩ := familyOf_eq_some_iff.mp hfam
      have hr : r = bindRow w handle d p := by simp only [r, uniccVtableBind, hfam]
      by_cases hcore : ∀ op ∈ Op.core, (resolved w handle d op).isSome
      · obtain ⟨s, t, hbind, hbound⟩ := bindRow_of_core w handle d p hcore
        rw [hr, hbind]
        refine ⟨⟨fun _ => ⟨d, hd, htype, (resolved_core_iff hd).mp hcore⟩, fun _ => rfl⟩,
          fun h => absurd rfl h, fun _ => ⟨d, hd, htype, ?_⟩⟩
        intro op hhas hfilled
        rw [hbound.filled, leftBy_of_has w handle d _ hhas, resolve_row hd] at hfilled
        obtain ⟨f, hf⟩ := Option.isSome_iff_exists.mp hfilled
        refine ⟨f, ?_, hf⟩
        rw [hbound.target, leftBy_of_has w handle d _ hhas, resolve_row hd]
        exact hf
      · obtain ⟨s, p', hbind, hp'⟩ := bindRow_of_missing w handle d p hcore
        have htable := congrArg Process.unicc hp'
        rw [hr, hbind]
        refine ⟨⟨fun h => (by cases h), ?_⟩, fun _ => htable, fun h => (by cases h)⟩
        rintro ⟨d', hd', htype', hall⟩
        cases hfam.symm.trans (familyOf_eq_some_iff.mpr ⟨hd', htype'⟩)
        exact absurd ((resolved_core_iff hd).mpr hall) hcore

/-! ## Hybrid libraries -/

/-- The order of the list in `docs/BACKENDS.md`. -/
def documentedOrder : List BackendInfo := [rcclRow, onecclRow, ecclRow, ncclRow]

def priorityOrder : List BackendInfo := [ecclRow, onecclRow, rcclRow, ncclRow]

def firstProbed (order : List BackendInfo) (w : World) (h : Handle) : Option BackendInfo :=
  order.find? fun d => (w.dlsym (some h) (d.name ++ Op.getVersion.suffix)).isSome

def World.hybrid (d d' : BackendInfo) (reply : NativeReply) : World :=
  { World.serving d reply with
    dlsym := fun h symbol => ((World.serving d reply).dlsym h symbol).or
      ((World.serving d' reply).dlsym h symbol) }

/-- The documented list names oneCCL before ECCL; the binder binds ECCL. -/
theorem hybrid_bound_against_documentation :
    let w := World.hybrid onecclRow ecclRow (.returning 0)
    firstProbed documentedOrder w ⟨0⟩ = some onecclRow ∧ Complete w ⟨0⟩ onecclRow ∧
      (uniccVtableInit .linux w (some ⟨0⟩) .start).2.gBackendType = .eccl := by
  decide

theorem probedRow_eq_firstProbed (w : World) (h : Handle) :
    probedRow w (some h) = firstProbed priorityOrder w h := by
  have horder : uniccBackends.reverse = priorityOrder := rfl
  have hprobe : ∀ d ∈ priorityOrder, d.probeSymbol = d.name ++ Op.getVersion.suffix := by decide
  unfold probedRow firstProbed
  rw [horder]
  apply List.find?_congr
  intro d hd
  rw [hprobe d hd]

theorem probedRow_nccl {w : World} {h : Handle} {d : BackendInfo}
    (hrow : probedRow w (some h) = some d) (htype : d.type = .nccl) :
    ∀ d' ∈ uniccBackends, d' ≠ ncclRow →
      w.dlsym (some h) (d'.name ++ Op.getVersion.suffix) = none := by
  have hnccl : ∀ d ∈ uniccBackends, d.type = .nccl → d = ncclRow := by decide
  have habove : ∀ d' ∈ uniccBackends, d' ≠ ncclRow → ¬ d'.priority ≤ ncclRow.priority := by
    decide
  have hprobe : ∀ d ∈ uniccBackends, d.probeSymbol = d.name ++ Op.getVersion.suffix := by
    decide
  obtain ⟨hmem, -, hhighest⟩ := probedRow_identifies hrow
  cases hnccl d hmem htype
  intro d' hd' hne
  rw [← hprobe d' hd', ← Option.not_isSome_iff_eq_none]
  exact fun hexported => habove d' hd' hne (hhighest d' hd' hexported)

/-- `unicc_vtable_init` binds the first family of the priority order whose probe the
library exports, or refuses the library without binding it; the generic `nccl` family
is bound only where no specific probe is exported. -/
theorem hybrid_bound_in_priority_order (os : Os) (w : World) (h : Handle) (p : Process) :
    let r := uniccVtableInit os w (some h) p
    (firstProbed priorityOrder w h = none → r.1 = .errSymbolNotFound) ∧
    (∀ d, firstProbed priorityOrder w h = some d →
      (backendSupportedOnPlatform os d.type = false →
        r.1 = .errBackendNotSupported ∧ r.2.unicc = p.unicc) ∧
      (backendSupportedOnPlatform os d.type = true → Complete w h d →
        r.1 = .ok ∧ r.2.gBackendType = d.type ∧
          backendNameFromType r.2.gBackendType = d.name ∧
          ∀ op, d.has op = true →
            slotTarget r.2.statics r.2.unicc op = w.dlsym (some h) (d.name ++ op.suffix)) ∧
      (backendSupportedOnPlatform os d.type = true → ¬ Complete w h d →
        r.1 = .errSymbolNotFound ∧ r.2.unicc = .zero)) ∧
    (r.1 = .ok → r.2.gBackendType = .nccl → ∀ d ∈ uniccBackends, d ≠ ncclRow →
      w.dlsym (some h) (d.name ++ Op.getVersion.suffix) = none) := by
  intro r
  rw [← probedRow_eq_firstProbed]
  cases hrow : probedRow w (some h) with
  | none =>
      obtain ⟨p', hinit, -⟩ := uniccVtableInit_of_unidentified os p hrow
      have hr : r = (.errSymbolNotFound, p') := hinit
      rw [hr]
      exact ⟨fun _ => rfl, nofun, nofun⟩
  | some d =>
      have hd := probedRow_mem hrow
      refine ⟨nofun, ?_⟩
      cases hos : backendSupportedOnPlatform os d.type with
      | false =>
          obtain ⟨p', hinit, hp'⟩ := uniccVtableInit_of_unsupported p hrow hos
          have htable := congrArg Process.unicc hp'
          have hr : r = (.errBackendNotSupported, p') := hinit
          rw [hr]
          refine ⟨?_, nofun⟩
          rintro d' ⟨⟩
          rw [hos]
          exact ⟨fun _ => ⟨rfl, htable⟩, nofun, nofun⟩
      | true =>
          by_cases hcore : Complete w h d
          · have hacc : Accepts os w (some h) d := ⟨h, rfl, probedRow_identifies hrow, hos, hcore⟩
            obtain ⟨p', hinit, htype, hbound⟩ := uniccVtableInit_accepted hacc p
            have hr : r = (.ok, p') := hinit
            rw [hr]
            refine ⟨?_, fun _ hnccl => probedRow_nccl hrow (htype.symm.trans hnccl)⟩
            rintro d' ⟨⟩
            rw [hos]
            refine ⟨nofun, fun _ _ => ⟨rfl, htype, ?_, ?_⟩, fun _ hno => absurd hcore hno⟩
            · rw [htype]
              exact backendNameFromType_type hd
            · intro op hhas
              rw [hbound.target, leftBy_of_has w (some h) _ _ hhas]
              exact resolve_row hd op
          · obtain ⟨s, p', hinit, hp'⟩ := uniccVtableInit_of_missing p hrow hos hcore
            have htable := congrArg Process.unicc hp'
            have hr : r = (.errSymbolNotFound, p') := hinit
            rw [hr]
            refine ⟨?_, nofun⟩
            rintro d' ⟨⟩
            rw [hos]
            exact ⟨nofun, fun _ hcomplete => absurd hcomplete hcore, fun _ _ => ⟨rfl, htable⟩⟩

theorem hybrid_bound_in_priority_order_eccl :
    let w := World.hybrid onecclRow ecclRow (.returning 0)
    let r := uniccVtableInit .linux w (some ⟨0⟩) .start
    r.1 = .ok ∧ r.2.gBackendType = .eccl := by
  intro w
  obtain ⟨-, hbound, -⟩ := hybrid_bound_in_priority_order .linux w ⟨0⟩ .start
  obtain ⟨hok, htype, -⟩ := (hbound ecclRow (by decide)).2.1 rfl (by decide)
  exact ⟨hok, htype⟩

end UniCCL
