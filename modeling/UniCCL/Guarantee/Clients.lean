import UniCCL.Proof.Client

/-! # The example programs keep the rules

Whatever the environment, the loadable libraries and the native functions answer, each
example ends, makes its calls in order, gives back what it acquired, and has every
operation it asks for carried out.
-/

namespace UniCCL

open CString Stdio Main

inductive Example
  | minimal (v : Minimal.Locals)
  | findPackage (v : FindPackage.Locals)

def Example.main : Example → Main Int32
  | minimal v => Minimal.main v
  | findPackage v => FindPackage.main v

/-- The operation was carried out by the function that the library of the process exports
for it, or it is a `unicc_comm_destroy` and the library exports none. -/
def CarriedOut (calls : List ((World × Call) × Output)) (x : (World × Call) × Output) : Prop :=
  ∀ op, x.1.2.op = some op → ∃ s, sessionOf calls = some s ∧
    ((∃ f args rc, s.exported op = some f ∧ .native f args rc ∈ x.2.events) ∨
      (op = .commDestroy ∧ s.exported op = none ∧ x.2.ret = rcOf .errNotSupported))

/-- A native `CommInitRank` gets the bytes that the native `GetUniqueId` wrote during
one of the calls, and joins alone. -/
def FedFrom (calls : List ((World × Call) × Output)) (x : (World × Call) × Output) : Prop :=
  x.1.2.op = some .commInitRank → ∀ f args rc, .native f args rc ∈ x.2.events →
    ∃ s, sessionOf calls = some s ∧ ∃ y ∈ calls, ∃ bytes, Wrote s y bytes ∧ Joined s x 1 0 bytes rc

structure Sound (r : Rank) : Prop where
  orderly : Orderly r
  carriedOut : ∀ x ∈ r.calls, CarriedOut r.calls x
  fed : ∀ x ∈ r.calls, FedFrom r.calls x

theorem CarriedOut.append {calls : List ((World × Call) × Output)} {x : (World × Call) × Output}
    (h : CarriedOut calls x) (more : List ((World × Call) × Output)) :
    CarriedOut (calls ++ more) x := by
  intro op hop
  obtain ⟨s, hs, hdone⟩ := h op hop
  exact ⟨s, sessionOf_of_recorded hs (List.prefix_append calls more), hdone⟩

theorem FedFrom.append {calls : List ((World × Call) × Output)} {x : (World × Call) × Output}
    (h : FedFrom calls x) (more : List ((World × Call) × Output)) : FedFrom (calls ++ more) x := by
  intro hop f args rc hmem
  obtain ⟨s, hs, y, hy, hbytes⟩ := h hop f args rc hmem
  exact ⟨s, sessionOf_of_recorded hs (List.prefix_append calls more), y,
    List.mem_append_left more hy, hbytes⟩

section Steps

variable {r : Rank} {s : Session} {held : Multiset Ptr} {m : Multiset Handle} {c : Call} {w : World}

theorem Sound.call (h : Sound r) (horderly : Orderly (r.call w c).1)
    (hout : CarriedOut r.calls ((w, c), (r.call w c).2))
    (hfed : FedFrom r.calls ((w, c), (r.call w c).2)) : Sound (r.call w c).1 := by
  refine ⟨horderly, fun x hx => ?_, fun x hx => ?_⟩
  · rcases List.mem_append.mp hx with hold | hnew
    · exact (h.carriedOut x hold).append _
    · rw [List.mem_singleton.mp hnew]
      exact hout.append _
  · rcases List.mem_append.mp hx with hold | hnew
    · exact (h.fed x hold).append _
    · rw [List.mem_singleton.mp hnew]
      exact hfed.append _

theorem sound_start (devmem : Devmem) : Sound (.start devmem) where
  orderly := Resting.orderly (standing_start devmem)
  carriedOut _ hx := absurd hx List.not_mem_nil
  fed _ hx := absurd hx List.not_mem_nil

structure Busy (r : Rank) (s : Session) (held : Multiset Ptr) : Prop where
  usage : Using r s held 0
  session : sessionOf r.calls = some s
  sound : Sound r

/-- The session does not change, as the first call does not. -/
theorem Busy.session_call (h : Busy r s held) (w : World) (c : Call) :
    sessionOf (r.call w c).1.calls = some s :=
  sessionOf_of_recorded h.session (List.prefix_append _ _)

theorem carriedOut_of_report {calls : List ((World × Call) × Output)} (hop : c.op = none)
    (o : Output) : CarriedOut calls ((w, c), o) := by
  intro op h
  cases hop.symm.trans h

theorem fedFrom_of_ne {calls : List ((World × Call) × Output)} (hop : c.op ≠ some .commInitRank)
    (o : Output) : FedFrom calls ((w, c), o) := fun h => absurd h hop

theorem Busy.report (h : Busy r s held) (hc : c.Reports) : Busy (r.call w c).1 s held := by
  have hneutral : Neutral held c := hc.neutral
  have hnext := h.usage.neutral hneutral w
  exact ⟨hnext, h.session_call w c, h.sound.call hnext.orderly (carriedOut_of_report hc.op _)
    (fedFrom_of_ne hneutral.make _)⟩

theorem Busy.carriedOut (h : Busy r s held) {op : Op} (hop : c.op = some op)
    {f : FnPtr} (hb : s.backing op = some f) (hok : c.argsValid ∧ c.idFits s.family) :
    CarriedOut r.calls ((w, c), (r.call w c).2) := by
  intro op' hop'
  cases hop.symm.trans hop'
  refine ⟨s, h.session, .inl ⟨f, c.directArgs s.family, (w.invoke f (c.directArgs s.family)).rc,
    exported_of_backing hb, ?_⟩⟩
  rw [← native_mem_view, h.usage.dispatched hop hb hok]
  exact List.mem_singleton_self _

theorem Busy.operation (h : Busy r s held) (hc : Neutral held c) {op : Op}
    (hop : c.op = some op) (hb : (s.backing op).isSome) (hok : c.argsValid ∧ c.idFits s.family) :
    Busy (r.call w c).1 s held := by
  have hnext := h.usage.neutral hc w
  obtain ⟨f, hf⟩ := Option.isSome_iff_exists.mp hb
  exact ⟨hnext, h.session_call w c, h.sound.call hnext.orderly (h.carriedOut hop hf hok)
    (fedFrom_of_ne hc.make _)⟩

theorem Using.getUniqueId_of_gate (h : Using r s held m)
    (hgate : (r.call w .commAvailable).2.code ≠ 0) : (s.backing .getUniqueId).isSome := by
  obtain ⟨e, h⟩ := h
  have hcode : (r.call w .commAvailable).2.code =
      truth ((s.backing .commInitRank).isSome && (s.backing .getUniqueId).isSome) := by
    show (r.call w .commAvailable).2.view.code = _
    rw [h.view]
    rfl
  rw [hcode] at hgate
  cases hb : (s.backing .getUniqueId).isSome with
  | true => rfl
  | false =>
      rw [hb, Bool.and_false] at hgate
      exact absurd rfl hgate

theorem Busy.initRank (h : Busy r s held) (comm : Ref Ptr) (id : Ref CommId)
    (hlen : id.val.len = s.family.uidBytes)
    (hwrote : ∃ y ∈ r.calls, Wrote s y (id.val.load id.val.len.toNat)) :
    let x := r.call w (.commInitRank (some comm) 1 (some id) 0)
    Busy x.1 s (if x.2.isOk then x.2.madeComm (some comm) ::ₘ held else held) := by
  have hnext := h.usage.make (some comm) 1 (some id) 0 w
  have hcore : Op.commInitRank ∈ Op.core := by decide
  obtain ⟨f, hf⟩ := Option.isSome_iff_exists.mp (backing_of_core s hcore)
  have hargs : (Call.commInitRank (some comm) 1 (some id) 0).argsValid :=
    ⟨rfl, by decide, by decide, by decide, id, rfl, by
      rw [hlen]
      exact uidBytes_ne_zero s.family_mem⟩
  refine ⟨hnext, h.session_call w _, h.sound.call hnext.orderly
    (h.carriedOut rfl hf ⟨hargs, hlen⟩) ?_⟩
  intro _ g args rc hmem
  obtain ⟨y, hy, hbytes⟩ := hwrote
  exact ⟨s, h.session, y, hy, _, hbytes, h.usage.joined hmem⟩

theorem Busy.destroy {comm : Ptr} (h : Busy r s (comm ::ₘ held)) :
    Busy (r.call w (.commDestroy comm)).1 s held := by
  have hnext := h.usage.destroy w
  refine ⟨hnext, h.session_call w _, h.sound.call hnext.orderly ?_
    (fedFrom_of_ne (by simp [Call.op]) _)⟩
  cases hb : s.backing .commDestroy with
  | none =>
      intro op hop
      cases hop
      have habsent : s.exported .commDestroy = none := by
        rwa [Session.backing, backing, if_pos (by simp [BackendInfo.has])] at hb
      refine ⟨s, h.session, .inr ⟨rfl, habsent, ?_⟩⟩
      show (r.call w (.commDestroy comm)).2.view.ret = _
      rw [h.usage.unsupported rfl hb]
      rfl
  | some f => exact h.carriedOut rfl hb ⟨trivial, trivial⟩

theorem Busy.finalize (h : Busy r s 0) :
    Resting (r.call w .finalize).1 0 ∧ Sound (r.call w .finalize).1 := by
  have hnext := (h.usage.finalize w).2
  exact ⟨hnext, h.sound.call hnext.orderly (carriedOut_of_report rfl _)
    (fedFrom_of_ne (by decide) _)⟩

end Steps

/-! ## The two programs -/

/-- The process is done: nothing is open, no communicator is left, and the exit status
says whether `unicc_init`, its first call, succeeded. -/
structure Settled (rc : Int32) (r : Rank) : Prop where
  resting : Resting r 0
  status : ∃ w o rest, r.calls = ((w, .init), o) :: rest ∧ rc = (if o.isOk then 0 else 1) ∧
    (o.isOk = true ↔ (openSession .linux w).session.isSome)

abbrev Keeps {α : Type} (p : Main α) (Q : α → Rank → Prop) (r : Rank) : Prop :=
  p.Always Rank.Does (fun _ _ r => Sound r) Q r

section Programs

variable {r : Rank} {s : Session} {held : Multiset Ptr}

theorem keeps_report {α : Type} {c : Call} {f : Output → Main α} {Q : α → Rank → Prop}
    (h : Busy r s held) (hc : c.Reports)
    (hf : ∀ w, Busy (r.call w c).1 s held → Keeps (f (r.call w c).2) Q (r.call w c).1) :
    Keeps (api c >>= f) Q r := by
  refine always_api fun w => ?_
  have hnext := h.report (w := w) hc
  exact ⟨hnext.sound, hf w hnext⟩

theorem keeps_operation {α : Type} {c : Call} {f : Output → Main α} {Q : α → Rank → Prop}
    (h : Busy r s held) (hc : Neutral held c) {op : Op} (hop : c.op = some op)
    (hb : (s.backing op).isSome) (hok : c.argsValid ∧ c.idFits s.family)
    (hf : ∀ w, Busy (r.call w c).1 s held → Keeps (f (r.call w c).2) Q (r.call w c).1) :
    Keeps (api c >>= f) Q r := by
  refine always_api fun w => ?_
  have hnext := h.operation (w := w) hc hop hb hok
  exact ⟨hnext.sound, hf w hnext⟩

theorem reduce_keeps (v : Minimal.Locals) {comm : Ptr} (h : Busy r s (comm ::ₘ held)) :
    Keeps (Minimal.reduce v comm) (fun _ r' => Busy r' s (comm ::ₘ held)) r := by
  refine keeps_report h ⟨rfl, by simp, by simp⟩ fun w h => ?_
  split
  · have hc : Neutral (comm ::ₘ held)
        (.allreduce v.input v.output 4 uniccF32 uniccSum comm .null) :=
      neutral_of_held rfl (by decide) (by decide) rfl (Multiset.mem_cons_self comm held)
    have hargs : (Call.allreduce v.input v.output 4 uniccF32 uniccSum comm .null).argsValid :=
      ⟨v.input_ne, v.output_ne, by decide, by decide, by decide⟩
    exact keeps_operation h hc rfl (backing_of_core s (by decide)) ⟨hargs, trivial⟩ fun w h => h
  · exact h

/-- An id of the session's length whose bytes the native function wrote is joined with,
and the communicator is destroyed. -/
theorem join_keeps (v : Minimal.Locals) (h : Busy r s 0) {id : CommId}
    (hlen : id.len = s.family.uidBytes) (hwrote : ∃ y ∈ r.calls, Wrote s y (id.load id.len.toNat)) :
    Keeps (Minimal.join v id) (fun _ r' => Busy r' s 0) r := by
  refine always_api fun w => ?_
  have hnext := h.initRank (w := w) ⟨v.comm, .null⟩ ⟨v.id.addr, id⟩ hlen hwrote
  refine ⟨hnext.sound, ?_⟩
  dsimp only at hnext
  split at hnext
  · rename_i hmade
    rw [if_pos hmade]
    refine (reduce_keeps v hnext).bind fun _ r' h' => always_api fun w' => ?_
    have hdone := h'.destroy (w := w')
    exact ⟨hdone.sound, hdone⟩
  · rename_i hmade
    rw [if_neg hmade]
    exact hnext

theorem communicate_keeps (v : Minimal.Locals) (h : Busy r s 0) :
    Keeps (Minimal.communicate v) (fun _ r' => Busy r' s 0) r := by
  refine always_api fun w => ?_
  have hgate := h.usage.getUniqueId_of_gate (w := w)
  have h := h.report (w := w) (c := .commAvailable) ⟨rfl, by simp, by simp⟩
  refine ⟨h.sound, ?_⟩
  split
  · rename_i hcode
    refine always_api fun w' => ?_
    have hid := h.usage.uniqueId (w := w') v.id
    have h := h.operation (w := w') (c := .getUniqueId (some v.id))
      (neutral_of_none rfl (by decide) (by decide) rfl) rfl (hgate hcode) ⟨rfl, trivial⟩
    refine ⟨h.sound, ?_⟩
    split
    · rename_i hok
      obtain ⟨hlen, hwrote⟩ := hid hok
      exact join_keeps v h hlen ⟨_, List.mem_append_right _ (List.mem_singleton_self _), hwrote⟩
    · exact h
  · exact h

theorem keeps_init {go : Main Int32} (d : Devmem)
    (hgo : ∀ r s, Busy r s 0 → Keeps go (fun rc r' => Resting r' 0 ∧ rc = 0) r) :
    Keeps (api .init >>= fun o => if o.isOk then go else pure 1) Settled (.start d) := by
  refine always_api fun w => ?_
  have hstart : Resting (.start d) 0 := standing_start d
  have hnext (horderly : Orderly ((Rank.start d).call w .init).1) :
      Sound ((Rank.start d).call w .init).1 :=
    (sound_start d).call horderly (carriedOut_of_report rfl _) (fedFrom_of_ne (by decide) _)
  rcases hstart.init w with ⟨hok, s, hs, husing⟩ | ⟨hfail, hs, hresting⟩
  · refine ⟨hnext husing.orderly, ?_⟩
    rw [if_pos hok]
    refine (always_recorded (hgo _ s ⟨husing, hs, hnext husing.orderly⟩)).conseq
      (fun _ _ _ h => h) ?_
    rintro rc r' ⟨⟨hresting, hrc⟩, rest, hcalls⟩
    refine ⟨hresting, w, ((Rank.start d).call w .init).2, rest, hcalls.symm, ?_, ?_⟩
    · rw [hrc, if_pos hok]
    · rw [hs]
      exact iff_of_true hok rfl
  · refine ⟨hnext hresting.orderly, ?_⟩
    rw [if_neg (by rw [hfail]; exact Bool.false_ne_true)]
    refine ⟨hresting, w, ((Rank.start d).call w .init).2, [], rfl, ?_, ?_⟩
    · rw [hfail, if_neg Bool.false_ne_true]
    · rw [hs, hfail]
      exact iff_of_false Bool.false_ne_true Bool.false_ne_true

theorem finalize_keeps (h : Busy r s 0) :
    Keeps (api .finalize >>= fun _ => pure (0 : Int32)) (fun rc r' => Resting r' 0 ∧ rc = 0) r := by
  refine always_api fun w => ?_
  obtain ⟨hresting, hsound⟩ := h.finalize (w := w)
  exact ⟨hsound, hresting, rfl⟩

theorem versions_keeps {go : Main Int32} {Q : Int32 → Rank → Prop} (ver : CharArray 64) (bv : Ptr)
    (h : Busy r s 0) (hgo : ∀ r', Busy r' s 0 → Keeps go Q r') :
    Keeps (api (.getVersion (some ver)) >>= fun _ =>
      api (.backendVersion (some ⟨bv, 0⟩)) >>= fun _ => api .backendName >>= fun _ => go) Q r := by
  refine keeps_report h ⟨rfl, by simp, by simp⟩ fun w h => ?_
  refine keeps_operation h (neutral_of_none rfl (by decide) (by decide) rfl) rfl
    (backing_of_core s (by decide)) ⟨rfl, trivial⟩ fun w h => ?_
  exact keeps_report h ⟨rfl, by simp, by simp⟩ fun w h => hgo _ h

theorem minimal_keeps (v : Minimal.Locals) (d : Devmem) :
    Keeps (Minimal.main v) Settled (.start d) := by
  refine keeps_init d fun r s h => versions_keeps v.ver v.bv h fun r h => ?_
  refine keeps_report h ⟨rfl, by simp, by simp⟩ fun w h => ?_
  exact (communicate_keeps v h).bind fun _ r' h' => finalize_keeps h'

theorem findPackage_keeps (v : FindPackage.Locals) (d : Devmem) :
    Keeps (FindPackage.main v) Settled (.start d) := by
  refine keeps_init d fun r s h => versions_keeps v.ver v.bv h fun r h => ?_
  exact keeps_report h ⟨rfl, by simp, by simp⟩ fun w h => finalize_keeps h

theorem Example.keeps (x : Example) (d : Devmem) : Keeps x.main Settled (.start d) :=
  match x with
  | minimal v => minimal_keeps v d
  | findPackage v => findPackage_keeps v d

theorem communicate_endsIn (v : Minimal.Locals) : (Minimal.communicate v).EndsIn 6 := by
  have hreduce (comm : Ptr) : (Minimal.reduce v comm).EndsIn 2 := by
    refine endsIn_api fun o => ?_
    split
    · exact endsIn_api fun _ => trivial
    · trivial
  have hjoin (id : CommId) : (Minimal.join v id).EndsIn 4 := by
    refine endsIn_api fun o => ?_
    split
    · exact (hreduce _).bind (n := 1) fun _ => endsIn_api fun _ => trivial
    · trivial
  refine endsIn_api fun o => ?_
  split
  · refine endsIn_api fun o => ?_
    split
    · exact hjoin _
    · trivial
  · trivial

theorem Example.endsIn (x : Example) : x.main.EndsIn 12 := by
  cases x with
  | minimal v =>
      refine endsIn_api fun o => ?_
      split
      · refine endsIn_api fun _ => endsIn_api fun _ => endsIn_api fun _ => endsIn_api fun _ => ?_
        exact (communicate_endsIn v).bind (n := 1) fun _ => endsIn_api fun _ => trivial
      · trivial
  | findPackage v =>
      refine endsIn_api fun o => ?_
      split
      · exact endsIn_api fun _ => endsIn_api fun _ => endsIn_api fun _ => endsIn_api fun _ =>
          endsIn_api fun _ => trivial
      · trivial

end Programs

/-! ## Any number of them on one host -/

def examplesStart (examples : Nat → Example) (stack : Nat → Devmem) (files : Files) :
    Threads.Config Nat Action.Reply Host Int32 where
  store := ⟨fun k => .start (stack k), files⟩
  threads k := (examples k).main

theorem examples_kept (examples : Nat → Example) (stack : Nat → Devmem) (files : Files)
    (schedule : List (Nat × Answer)) (k : Nat) :
    let s := Threads.run act (examplesStart examples stack files) schedule
    Sound (s.store.ranks k) ∧ ∀ rc, s.threads k = .done rc → Settled rc (s.store.ranks k) := by
  exact apart_run (examplesStart examples stack files) (fun k => sound_start (stack k))
    (fun k => (examples k).keeps (stack k)) schedule k

/-- Each example comes to its end, with no library open: the calls came in order, every
communicator that was made has been given to `unicc_comm_destroy`, and the status is 1
exactly when `unicc_init` failed. -/
theorem examples_settle (examples : Nat → Example) (stack : Nat → Devmem) (files : Files)
    (schedule : List (Nat × Answer)) (k : Nat) :
    let s := Threads.run act (examplesStart examples stack files) schedule
    usageOf (s.store.ranks k).calls ≠ .misused ∧
    (12 ≤ (schedule.map Prod.fst).count k → ∃ rc, s.threads k = .done rc) ∧
    ∀ rc, s.threads k = .done rc →
      IdleProcess (s.store.ranks k).proc ∧ usageOf (s.store.ranks k).calls = .closed ∧
      Ledger.balance 0 (ledgerOf (s.store.ranks k).events) = some 0 ∧
      (∀ before x after, (s.store.ranks k).calls = before ++ x :: after →
        ∀ comm, Made x comm → ∃ y ∈ after, y.1.2 = .commDestroy comm) ∧
      ∃ w o rest, (s.store.ranks k).calls = ((w, .init), o) :: rest ∧
        rc = (if o.isOk then 0 else 1) ∧
          (o.isOk = true ↔ (openSession .linux w).session.isSome) := by
  dsimp only
  obtain ⟨hsound, hpost⟩ := examples_kept examples stack files schedule k
  refine ⟨hsound.orderly, fun hcount => ?_, fun rc hrc => ?_⟩
  · exact Threads.run_done act (c := examplesStart examples stack files) (examples k).endsIn
      schedule hcount
  · obtain ⟨hresting, hstatus⟩ := hpost rc hrc
    have husage := Standing.usage hresting
    refine ⟨Standing.refines hresting, husage, Standing.ledger hresting, ?_, hstatus⟩
    intro before x after hcalls comm hmade
    rw [hcalls] at husage
    exact destroyed_of_closed husage hmade

/-- Whenever an example asks for an operation, the function that its library exports for it
carries it out, except for `unicc_comm_destroy` where the library exports none; and a
native `CommInitRank` gets the whole id that the native `GetUniqueId` of the same process
wrote. -/
theorem examples_carried_out (examples : Nat → Example) (stack : Nat → Devmem) (files : Files)
    (schedule : List (Nat × Answer)) (k : Nat) :
    let calls := ((Threads.run act (examplesStart examples stack files) schedule).store.ranks k).calls
    ∀ x ∈ calls,
      (∀ op, x.1.2.op = some op → ∃ s, sessionOf calls = some s ∧
        ((∃ f args rc, s.exported op = some f ∧ .native f args rc ∈ x.2.events) ∨
          (op = .commDestroy ∧ s.exported op = none ∧ x.2.ret = rcOf .errNotSupported))) ∧
      (x.1.2.op = some .commInitRank → ∀ f args rc, .native f args rc ∈ x.2.events →
        ∃ s, sessionOf calls = some s ∧
          ∃ y ∈ calls, ∃ bytes, Wrote s y bytes ∧ Joined s x 1 0 bytes rc) := by
  dsimp only
  intro x hx
  obtain ⟨hsound, -⟩ := examples_kept examples stack files schedule k
  exact ⟨hsound.carriedOut x hx, hsound.fed x hx⟩

end UniCCL
