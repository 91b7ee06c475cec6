import UniCCL.Guarantee.Device
import UniCCL.Model.Integration
import UniCCL.Proof.Client

/-! # A rank of the integration test on its own

The parts of `test_integration.c` that leave the files alone, each judged in the
process that runs it: the calls stay in order, a communicator is joined only under the
rank's own number and on its own device, and only with the id that the rank holds.
-/

namespace UniCCL

open CString Stdio Main

/-! ## The device runtime of a process -/

def Action.Inside : Action → Prop
  | .api _ | .devmemLoad | .device _ => True
  | _ => False

theorem Action.Inside.files {i : Action} (h : i.Inside) (k : Nat) (e : Answer) (s : Host) :
    (act k i e s).1.files = s.files := by
  cases i <;> first | rfl | exact h.elim

def DeviceCall.takes : DeviceCall → Option Int32
  | .setDevice device => some device
  | _ => none

theorem Devmem.pointer_isSome {api : Devmem} (h : api.filled = true) (c : DeviceCall) :
    (api.pointer c).isSome = true := by
  simp only [Devmem.filled, Bool.and_eq_true] at h
  obtain ⟨⟨⟨⟨⟨hmalloc, hmemcpy⟩, hmemset⟩, hfree⟩, hset⟩, hcount⟩ := h
  cases c with
  | getDeviceCount => exact hcount
  | setDevice => exact hset
  | malloc => exact hmalloc
  | memcpy => exact hmemcpy
  | memset => exact hmemset
  | free => exact hfree

/-- The last load of a device runtime took the library `d`, and the device calls go to
its functions. -/
def Rank.HasRuntime (r : Rank) (d : Handle) : Prop :=
  ∃ w c, r.loads.getLast? = some w ∧ (tryRuntimes w Candidate.all).2 = some (c, d) ∧
    r.devmem = c.table w d

/-- A load that succeeds fills the table and leaves its library open besides; one that
fails leaves what was open. -/
theorem Standing.load {r : Rank} {a : Abstract} {u : Usage} {m : Multiset Handle}
    (h : Standing r a u m) (w : World) :
    ((r.load w).2 = 0 ∧ (r.load w).1.devmem.filled = true ∧
      ∃ d, (r.load w).1.HasRuntime d ∧ Standing (r.load w).1 a u (d ::ₘ m)) ∨
      (r.load w).2 ≠ 0 := by
  obtain ⟨hglobals, hresult⟩ := uniccDevmemLoad_result w r.devmem r.proc
  cases ht : (tryRuntimes w Candidate.all).2 with
  | none =>
      rw [ht] at hresult
      refine .inr ?_
      show (uniccDevmemLoad w r.devmem { r.proc with log := [] }).1 ≠ 0
      rw [hresult.1]
      decide
  | some taken =>
      rw [ht] at hresult
      obtain ⟨hrc, htable, hfilled, hledger⟩ := hresult
      have hlast : (r.load w).1.loads.getLast? = some w := List.getLast?_concat
      refine .inl ⟨hrc, hfilled, taken.2, ⟨w, taken.1, hlast, ht, htable⟩,
        h.refines.of_globals hglobals, h.usage, ?_⟩
      have hevents : (r.load w).1.events =
          r.events ++ (uniccDevmemLoad w r.devmem { r.proc with log := [] }).2.2.log := rfl
      rw [hevents, ledgerOf_append, Ledger.balance_append, h.ledger, Option.bind_some, hledger,
        Multiset.add_cons]

/-! ## Ids in recorded calls -/

theorem obtained_snoc (calls : List ((World × Call) × Output)) (x : (World × Call) × Output) :
    obtained (calls ++ [x]) = if obtained calls = [] then handedOut x else obtained calls := by
  unfold obtained Mealy.history
  rw [List.foldl_append]
  rfl

theorem obtained_snoc_of_none {x : (World × Call) × Output} (hx : handedOut x = [])
    (calls : List ((World × Call) × Output)) : obtained (calls ++ [x]) = obtained calls := by
  rw [obtained_snoc, hx]
  split
  · rename_i h
    exact h.symm
  · rfl

theorem handedOut_of_ne {w : World} {c : Call} (h : c.op ≠ some .getUniqueId) (o : Output) :
    handedOut ((w, c), o) = [] := by
  cases c <;> first | rfl | exact absurd rfl h

theorem CommId.length_load (id : CommId) {n : Nat} (hn : n ≤ uniccCommIdMax) :
    (id.load n).length = n := by
  rw [CommId.load, List.length_take, List.length_ofFn]
  exact Nat.min_eq_left hn

namespace Integration

/-! ## What a rank has done -/

def OnDevice (k : Nat) (r : Rank) : Prop :=
  ∃ y ∈ r.issued, y.call = .setDevice (.ofNat k) ∧ y.reply.rc = 0

/-- If the call reaches the native `CommInitRank`, it joins rank `k` to the world with
the bytes `b`, which are as long as its backend's ids, and device `k` has been taken. -/
def Entered (world k : Nat) (b : List UInt8) (r : Rank) (x : (World × Call) × Output) : Prop :=
  x.1.2.op = some .commInitRank → ∀ f args rc, .native f args rc ∈ x.2.events →
    k < world ∧ OnDevice k r ∧ ∃ s, sessionOf r.calls = some s ∧
      b.length = s.family.uidBytes.toNat ∧ Joined s x (.ofNat world) (.ofNat k) b rc

/-- What holds of rank `k` all along, when `b` are the bytes of the id it holds. -/
structure Proper (world k : Nat) (b : List UInt8) (r : Rank) : Prop where
  orderly : Orderly r
  entered : ∀ x ∈ r.calls, Entered world k b r x
  issued : ∀ y ∈ r.issued, y.fn.isSome ∧ ∀ d, y.call = .setDevice d → d = .ofNat k
  wrote : obtained r.calls ≠ [] → ∃ s, sessionOf r.calls = some s ∧
    ∃ y ∈ r.calls, Wrote s y (obtained r.calls)

/-- An action inside rank `k` after which it is as it should be. -/
structure Turn (world k : Nat) (b : List UInt8) (i : Action) (r r' : Rank) : Prop where
  inside : i.Inside
  obtained : obtained r'.calls = obtained r.calls
  proper : Proper world k b r'

abbrev Stays {α : Type} (world k : Nat) (b : List UInt8) (p : Main α) (Q : α → Rank → Prop)
    (r : Rank) : Prop :=
  p.Always Rank.Does (Turn world k b) Q r

structure Member (world k : Nat) (b : List UInt8) (r : Rank) (s : Session)
    (held : Multiset Ptr) (m : Multiset Handle) : Prop where
  usage : Using r s held m
  session : sessionOf r.calls = some s
  proper : Proper world k b r

theorem proper_start (world k : Nat) (b : List UInt8) (devmem : Devmem) :
    Proper world k b (.start devmem) where
  orderly := Resting.orderly (standing_start devmem)
  entered _ hx := absurd hx List.not_mem_nil
  issued _ hy := absurd hy List.not_mem_nil
  wrote h := absurd rfl h

section Steps

variable {world k : Nat} {b : List UInt8} {r : Rank} {s : Session} {held : Multiset Ptr}
  {m : Multiset Handle} {c : Call} {w : World}

theorem Entered.grow {r' : Rank} {x : (World × Call) × Output} (h : Entered world k b r x)
    (hcalls : r.calls <+: r'.calls) (hissued : r.issued <+: r'.issued) :
    Entered world k b r' x := by
  intro hop f args rc hmem
  obtain ⟨hk, ⟨y, hy, hbound⟩, s, hs, hjoined⟩ := h hop f args rc hmem
  exact ⟨hk, ⟨y, hissued.subset hy, hbound⟩, s, sessionOf_of_recorded hs hcalls, hjoined⟩

theorem entered_of_ne {x : (World × Call) × Output} (hop : x.1.2.op ≠ some .commInitRank) :
    Entered world k b r x := fun h => absurd h hop

theorem Proper.call (h : Proper world k b r) (horderly : Orderly (r.call w c).1)
    (hentered : Entered world k b (r.call w c).1 ((w, c), (r.call w c).2))
    (hid : handedOut ((w, c), (r.call w c).2) = []) :
    Turn world k b (.api c) r (r.call w c).1 := by
  have hcalls : r.calls <+: (r.call w c).1.calls := List.prefix_append _ _
  have hobtained : UniCCL.obtained (r.call w c).1.calls = UniCCL.obtained r.calls :=
    obtained_snoc_of_none hid r.calls
  refine ⟨trivial, hobtained, horderly, fun x hx => ?_, h.issued, fun hne => ?_⟩
  · rcases List.mem_append.mp hx with hold | hnew
    · exact (h.entered x hold).grow hcalls List.prefix_rfl
    · rw [List.mem_singleton.mp hnew]
      exact hentered
  · rw [hobtained] at hne ⊢
    obtain ⟨s, hs, y, hy, hwrote⟩ := h.wrote hne
    exact ⟨s, sessionOf_of_recorded hs hcalls, y, hcalls.subset hy, hwrote⟩

theorem Member.neutral (h : Member world k b r s held m) (hc : Neutral held c)
    (hid : c.op ≠ some .getUniqueId) (w : World) :
    Turn world k b (.api c) r (r.call w c).1 ∧ Member world k b (r.call w c).1 s held m := by
  have hnext := h.usage.neutral hc w
  have hturn := h.proper.call (w := w) hnext.orderly (entered_of_ne hc.make) (handedOut_of_ne hid _)
  exact ⟨hturn, hnext, sessionOf_of_recorded h.session (List.prefix_append _ _), hturn.proper⟩

theorem Member.report (h : Member world k b r s held m) (hc : c.Reports) (w : World) :
    Turn world k b (.api c) r (r.call w c).1 ∧ Member world k b (r.call w c).1 s held m :=
  h.neutral hc.neutral (by simp [hc.op]) w

/-- A device call through a filled table; only the rank's own device is ever taken. -/
theorem Member.issue (h : Member world k b r s held m) (hfilled : r.devmem.filled = true)
    {d : DeviceCall} (hd : ∀ n, d = .setDevice n → n = .ofNat k) (reply : DeviceReply) :
    Turn world k b (.device d) r (r.issue d reply) ∧
      Member world k b (r.issue d reply) s held m := by
  have hissued : r.issued <+: (r.issue d reply).issued := List.prefix_append _ _
  have hproper : Proper world k b (r.issue d reply) := by
    refine ⟨h.proper.orderly, fun x hx => ?_, fun y hy => ?_, h.proper.wrote⟩
    · exact (h.proper.entered x hx).grow List.prefix_rfl hissued
    · rcases List.mem_append.mp hy with hold | hnew
      · exact h.proper.issued y hold
      · rw [List.mem_singleton.mp hnew]
        exact ⟨Devmem.pointer_isSome hfilled d, hd⟩
  obtain ⟨e, hstanding⟩ := h.usage
  exact ⟨⟨trivial, rfl, hproper⟩, ⟨e, hstanding.refines, hstanding.usage, hstanding.ledger⟩,
    h.session, hproper⟩

theorem Member.load (h : Member world k b r s held m) (w : World) :
    Turn world k b .devmemLoad r (r.load w).1 ∧
      ((r.load w).2 = 0 → (r.load w).1.devmem.filled = true ∧
        ∃ d, (r.load w).1.HasRuntime d ∧ Member world k b (r.load w).1 s held (d ::ₘ m)) := by
  have hproper : Proper world k b (r.load w).1 :=
    ⟨h.proper.orderly, h.proper.entered, h.proper.issued, h.proper.wrote⟩
  refine ⟨⟨trivial, rfl, hproper⟩, fun hrc => ?_⟩
  obtain ⟨e, hstanding⟩ := h.usage
  rcases hstanding.load w with ⟨-, hfilled, d, hruntime, hnext⟩ | hfail
  · exact ⟨hfilled, d, hruntime, ⟨e, hnext⟩, h.session, hproper⟩
  · exact absurd hrc hfail

theorem Member.enter (h : Member world k b r s held m) (hk : k < world)
    (hbound : OnDevice k r) (comm : Ref Ptr) (id : Ref CommId)
    (hb : id.val.load id.val.len.toNat = b) (w : World) :
    let c : Call := .commInitRank (some comm) (.ofNat world) (some id) (.ofNat k)
    let x := r.call w c
    Turn world k b (.api c) r x.1 ∧
      Member world k b x.1 s (if x.2.isOk then x.2.commAfter comm.val ::ₘ held else held) m ∧
      (x.2.isOk = true → Joined s ((w, c), x.2) (.ofNat world) (.ofNat k) b 0) := by
  intro c x
  have hnext := h.usage.make (some comm) (.ofNat world) (some id) (.ofNat k) w
  have hsession : sessionOf x.1.calls = some s :=
    sessionOf_of_recorded h.session (List.prefix_append _ _)
  have hjoined {f : FnPtr} {args : List CArg} {rc : Int32} (hmem : .native f args rc ∈ x.2.events) :
      Joined s ((w, c), x.2) (.ofNat world) (.ofNat k) b rc := by
    rw [← hb]
    exact h.usage.joined hmem
  have hentered : Entered world k b x.1 ((w, c), x.2) := by
    intro _ f args rc (hmem : _ ∈ (r.call w c).2.events)
    obtain ⟨-, -, hfits, -⟩ := h.usage.native rfl hmem
    have hlen : id.val.len = s.family.uidBytes := hfits
    refine ⟨hk, hbound, s, hsession, ?_, hjoined hmem⟩
    rw [← hb, hlen]
    exact CommId.length_load _ (uidBytes_le_max s.family_mem)
  have hturn := h.proper.call (w := w) hnext.orderly hentered rfl
  refine ⟨hturn, ⟨hnext, hsession, hturn.proper⟩, fun hok => ?_⟩
  obtain ⟨f, -, -, -, -, hview⟩ := h.usage.succeeded rfl hok
  have hmem : .native f (c.directArgs s.family) 0 ∈ x.2.events := by
    rw [← native_mem_view, hview]
    exact List.mem_singleton_self _
  exact hjoined hmem

theorem Member.obtain_fails (h : Member world k b r s held m) (id : Ref CommId) (w : World)
    (hfail : (r.call w (.getUniqueId (some id))).2.isOk = false) :
    Turn world k b (.api (.getUniqueId (some id))) r (r.call w (.getUniqueId (some id))).1 := by
  have hnext := h.usage.neutral (c := .getUniqueId (some id))
    (neutral_of_none rfl (by decide) (by decide) rfl) w
  refine h.proper.call hnext.orderly (entered_of_ne (by simp [Call.op])) ?_
  exact if_neg (by rw [hfail]; exact Bool.false_ne_true)

/-- The first id that a rank obtains is written by the native function and as long as it
says. -/
theorem Member.obtain (h : ∀ b, Member world k b r s held m) (hnone : obtained r.calls = [])
    (id : Ref CommId) (w : World) (hok : (r.call w (.getUniqueId (some id))).2.isOk = true) :
    let x := r.call w (.getUniqueId (some id))
    let after := x.2.idAfter id.val
    obtained x.1.calls = after.load after.len.toNat ∧
      (after.load after.len.toNat).length = after.len.toNat ∧
      ∀ b, Member world k b x.1 s held m := by
  intro x after
  have hcalls : r.calls <+: x.1.calls := List.prefix_append _ _
  have hnew : ((w, Call.getUniqueId (some id)), x.2) ∈ x.1.calls :=
    List.mem_append_right _ (List.mem_singleton_self _)
  obtain ⟨hlen, hwrote⟩ := (h []).usage.uniqueId id hok
  have hbytes : UniCCL.obtained x.1.calls = after.load after.len.toNat := by
    have hsnoc := obtained_snoc r.calls ((w, Call.getUniqueId (some id)), x.2)
    have hmax : after.len.toNat ≤ uniccCommIdMax := by
      rw [hlen]
      exact uidBytes_le_max s.family_mem
    rw [if_pos hnone] at hsnoc
    rw [CommId.load_eq after hmax]
    exact hsnoc.trans (if_pos hok)
  have hlength : (after.load after.len.toNat).length = after.len.toNat := by
    rw [hlen]
    exact CommId.length_load _ (uidBytes_le_max s.family_mem)
  refine ⟨hbytes, hlength, fun b => ?_⟩
  have hnext := (h b).usage.neutral (c := .getUniqueId (some id))
    (neutral_of_none rfl (by decide) (by decide) rfl) w
  have hsession := sessionOf_of_recorded (h b).session hcalls
  refine ⟨hnext, hsession, hnext.orderly, fun y hy => ?_, (h b).proper.issued,
    fun _ => ⟨s, hsession, _, hnew, ?_⟩⟩
  · rcases List.mem_append.mp hy with hold | hlast
    · exact ((h b).proper.entered y hold).grow hcalls List.prefix_rfl
    · rw [List.mem_singleton.mp hlast]
      exact entered_of_ne (by simp [Call.op])
  · rw [hbytes]
    exact hwrote

end Steps

/-! ## The parts of `main` -/

structure Equipped (world k : Nat) (b : List UInt8) (r : Rank) (s : Session)
    (held : Multiset Ptr) : Prop where
  member : ∃ d, r.HasRuntime d ∧ Member world k b r s held {d}
  filled : r.devmem.filled = true

/-- What an exit status of 0 stands for: the rank has joined and reduced over the
communicator it joined, and of all it has acquired only the device runtime is left. -/
structure Finished (world k : Nat) (b : List UInt8) (r : Rank) : Prop where
  resting : ∃ d, r.HasRuntime d ∧ Resting r {d}
  reduced : ∃ s, sessionOf r.calls = some s ∧ ∃ x ∈ r.calls, ∃ y ∈ r.calls,
    Joined s x (.ofNat world) (.ofNat k) b 0 ∧ ReducedOver s y (x.2.commAfter .null)

section Parts

variable {world k : Nat} {b : List UInt8} {r : Rank} {s : Session} {held : Multiset Ptr}
  {α : Type} {Q : α → Rank → Prop}

theorem Equipped.api (h : Equipped world k b r s held) {c : Call} (hc : Neutral held c)
    (hid : c.op ≠ some .getUniqueId) (w : World) :
    Turn world k b (.api c) r (r.call w c).1 ∧ Equipped world k b (r.call w c).1 s held := by
  obtain ⟨d, hruntime, hmember⟩ := h.member
  obtain ⟨hturn, hnext⟩ := hmember.neutral hc hid w
  exact ⟨hturn, ⟨d, hruntime, hnext⟩, h.filled⟩

theorem stays_setDevice {f : DeviceReply → Main α} (h : Equipped world k b r s held)
    (hf : ∀ reply, Equipped world k b (r.issue (.setDevice (.ofNat k)) reply) s held →
      Stays world k b (f reply) Q (r.issue (.setDevice (.ofNat k)) reply)) :
    Stays world k b (device (.setDevice (.ofNat k)) >>= f) Q r := by
  refine always_device fun reply => ?_
  obtain ⟨d, hruntime, hmember⟩ := h.member
  obtain ⟨hturn, hnext⟩ :=
    hmember.issue h.filled (fun n hn => (DeviceCall.setDevice.inj hn).symm) reply
  exact ⟨hturn, hf reply ⟨⟨d, hruntime, hnext⟩, h.filled⟩⟩

theorem stays_device {c : DeviceCall} {f : DeviceReply → Main α} (h : Equipped world k b r s held)
    (hc : c.takes = none)
    (hf : ∀ reply, Equipped world k b (r.issue c reply) s held →
      Stays world k b (f reply) Q (r.issue c reply)) :
    Stays world k b (device c >>= f) Q r := by
  refine always_device fun reply => ?_
  have hother (n : Int32) (hn : c = .setDevice n) : n = .ofNat k := by
    rw [hn] at hc
    cases hc
  obtain ⟨d, hruntime, hmember⟩ := h.member
  obtain ⟨hturn, hnext⟩ := hmember.issue h.filled hother reply
  exact ⟨hturn, hf reply ⟨⟨d, hruntime, hnext⟩, h.filled⟩⟩

/-- Up to the backend version nothing depends on an id. -/
theorem bringUp_stays (v : Locals) (d : Devmem) :
    Stays world k b (bringUp v) (fun up r => up = true → ∃ s, ∀ b, Member world k b r s 0 0)
      (.start d) := by
  refine always_api fun w => ?_
  have hstart : Resting (.start d) 0 := standing_start d
  have hturn (horderly : Orderly ((Rank.start d).call w .init).1) (b : List UInt8) :=
    (proper_start world k b d).call horderly (entered_of_ne (by simp [Call.op]))
      (handedOut_of_ne (by simp [Call.op]) _)
  rcases hstart.init w with ⟨hok, s, hs, husing⟩ | ⟨hfail, -, hresting⟩
  · refine ⟨hturn husing.orderly b, ?_⟩
    rw [if_pos hok]
    have h (b : List UInt8) : Member world k b ((Rank.start d).call w .init).1 s 0 0 :=
      ⟨husing, hs, (hturn husing.orderly b).proper⟩
    refine always_api fun w => ?_
    have hnext (b : List UInt8) :=
      (h b).report (c := .backendName) ⟨rfl, by simp, by simp⟩ w
    refine ⟨(hnext b).1, always_api fun w' => ?_⟩
    have hnext' (b : List UInt8) :=
      (hnext b).2.report (c := .getLibraryPath) ⟨rfl, by simp, by simp⟩ w'
    refine ⟨(hnext' b).1, always_api fun w'' => ?_⟩
    have hlast (b : List UInt8) :=
      (hnext' b).2.neutral (c := .backendVersion (some ⟨v.bv, 0⟩))
        (neutral_of_none rfl (by decide) (by decide) rfl) (by simp [Call.op]) w''
    exact ⟨(hlast b).1, fun _ => ⟨s, fun b => (hlast b).2⟩⟩
  · refine ⟨hturn hresting.orderly b, ?_⟩
    rw [if_neg (by rw [hfail]; exact Bool.false_ne_true)]
    exact fun h => absurd h Bool.false_ne_true

/-- What rank `k` has obtained is not changed by a part that stays inside. -/
theorem stays_obtained {p : Main α} (h : Stays world k b p Q r) :
    Stays world k b p (fun a r' => Q a r' ∧ obtained r'.calls = obtained r.calls) r :=
  h.along (fun r r' : Rank => obtained r'.calls = obtained r.calls) (fun _ => rfl)
    (fun _ _ _ h h' => h'.trans h) fun _ _ _ _ _ hturn => hturn.obtained

theorem bindDevice_stays {c : Config} (hc : c.rank = .ofNat k) (h : Member world k b r s 0 0) :
    Stays world k b (bindDevice c)
      (fun bound r' => bound = true → Equipped world k b r' s 0 ∧ OnDevice k r') r := by
  refine always_devmemLoad fun w => ?_
  obtain ⟨hturn, hnext⟩ := h.load w
  refine ⟨hturn, ?_⟩
  split
  · rename_i hrc
    obtain ⟨hfilled, d, hruntime, hmember⟩ := hnext hrc
    have hequipped : Equipped world k b (r.load w).1 s 0 := ⟨⟨d, hruntime, hmember⟩, hfilled⟩
    refine stays_device hequipped rfl fun counted h => ?_
    dsimp only
    split
    · exact nofun
    · split
      · exact nofun
      · rw [hc]
        refine stays_setDevice h fun bound h => fun hbound => ⟨h, ?_⟩
        exact ⟨_, List.mem_append_right _ (List.mem_singleton_self _), rfl, of_decide_eq_true hbound⟩
  · exact nofun

theorem stays_allreduce {comm sendbuf recvbuf : Ptr} {f : Output → Main α}
    (h : Equipped world k b r s (comm ::ₘ 0))
    (hf : ∀ w, let x := r.call w (.allreduce sendbuf recvbuf 4 uniccF32 uniccSum comm .null)
      Equipped world k b x.1 s (comm ::ₘ 0) →
        (x.2.isOk = true → ∃ y ∈ x.1.calls, ReducedOver s y comm) →
          Stays world k b (f x.2) Q x.1) :
    Stays world k b (api (.allreduce sendbuf recvbuf 4 uniccF32 uniccSum comm .null) >>= f) Q r := by
  have hneutral : Neutral (comm ::ₘ 0) (.allreduce sendbuf recvbuf 4 uniccF32 uniccSum comm .null) :=
    neutral_of_held rfl (by decide) (by decide) rfl (Multiset.mem_cons_self comm 0)
  refine always_api fun w => ?_
  obtain ⟨hturn, hnext⟩ := h.api hneutral (by simp [Call.op]) w
  refine ⟨hturn, hf w hnext fun hok => ?_⟩
  obtain ⟨d, -, hmember⟩ := h.member
  exact ⟨_, List.mem_append_right _ (List.mem_singleton_self _), hmember.usage.reduced hok⟩

/-- The buffers go through the device's own functions and the sums through the
wrapper, on the communicator that is held. -/
theorem exchange_stays (v : Locals) {comm : Ptr} (h : Equipped world k b r s (comm ::ₘ 0)) :
    Stays world k b (exchange v comm)
      (fun sums r' => sums.isSome → Equipped world k b r' s (comm ::ₘ 0) ∧
        ∃ y ∈ r'.calls, ReducedOver s y comm) r := by
  refine stays_device h rfl fun send h => ?_
  split
  · refine stays_device h rfl fun recv h => ?_
    split
    · dsimp only
      refine stays_device h rfl fun copied h => ?_
      split
      · refine stays_device h rfl fun cleared h => ?_
        split
        · refine stays_allreduce h fun w h hreduced => ?_
          split
          · rename_i hok
            have hdone := hreduced hok
            refine stays_device h rfl fun back h => ?_
            split
            · exact fun _ => ⟨h, hdone⟩
            · exact nofun
          · exact nofun
        · exact nofun
      · exact nofun
    · exact nofun
  · exact nofun

/-- After the sums have been compared: only success leaves status 0. -/
theorem conclude_stays (c : Config) (v : Locals) {comm : Ptr} (dSend dRecv : Ptr)
    (h : Equipped world k b r s (comm ::ₘ 0)) :
    Stays world k b (conclude c v comm dSend dRecv)
      (fun rc r' => rc = 2 ∨ rc = 0 ∧ ∃ d, r'.HasRuntime d ∧ Resting r' {d}) r := by
  refine always_api fun w => ?_
  have hcount : Neutral (comm ::ₘ 0) (.commCount comm (some ⟨v.count, 0⟩)) :=
    neutral_of_held rfl (by decide) (by decide) rfl (Multiset.mem_cons_self comm 0)
  obtain ⟨hturn, h⟩ := h.api hcount (by simp [Call.op]) w
  refine ⟨hturn, ?_⟩
  split
  · refine stays_device h rfl fun _ h => stays_device h rfl fun _ h => always_api fun w => ?_
    obtain ⟨d, hruntime, hmember⟩ := h.member
    have hdestroyed := hmember.usage.destroy w
    have hturn := hmember.proper.call hdestroyed.orderly
      (entered_of_ne (by simp [Call.op])) (handedOut_of_ne (by simp [Call.op]) _)
    refine ⟨hturn, ?_⟩
    split
    · have hmember : Member world k b _ s 0 {d} :=
        ⟨hdestroyed, sessionOf_of_recorded hmember.session (List.prefix_append _ _), hturn.proper⟩
      refine always_api fun w => ?_
      obtain ⟨hturn, hmember⟩ :=
        hmember.report (c := .backendName) ⟨rfl, by simp, by simp⟩ w
      refine ⟨hturn, always_api fun w => ?_⟩
      obtain ⟨hok, hresting⟩ := hmember.usage.finalize w
      have hturn := hmember.proper.call hresting.orderly
        (entered_of_ne (by simp [Call.op])) (handedOut_of_ne (by simp [Call.op]) _)
      refine ⟨hturn, ?_⟩
      rw [if_pos hok]
      exact .inr ⟨rfl, d, hruntime, hresting⟩
    · exact .inl rfl
  · exact .inl rfl

theorem collective_stays {c : Config} (v : Locals) {id : CommId} (hk : k < world)
    (hworld : c.world = .ofNat world) (hrank : c.rank = .ofNat k)
    (hb : id.load id.len.toNat = b) (h : Equipped world k b r s 0) (hbound : OnDevice k r) :
    Stays world k b (collective c v id) (fun rc r' => rc = 2 ∨ rc = 0 ∧ Finished world k b r') r := by
  obtain ⟨d, hruntime, hmember⟩ := h.member
  unfold collective
  rw [hworld, hrank]
  refine always_api fun w => ?_
  obtain ⟨hturn, hnext, hjoined⟩ := hmember.enter hk hbound ⟨v.comm, .null⟩ ⟨v.id.addr, id⟩ hb w
  refine ⟨hturn, ?_⟩
  split
  · rename_i hok
    rw [if_pos hok] at hnext
    have hrecorded := List.mem_append_right r.calls (List.mem_singleton_self
      ((w, Call.commInitRank (some ⟨v.comm, .null⟩) (.ofNat world) (some ⟨v.id.addr, id⟩) (.ofNat k)),
        (r.call w (.commInitRank (some ⟨v.comm, .null⟩) (.ofNat world) (some ⟨v.id.addr, id⟩)
          (.ofNat k))).2))
    refine (always_recorded (exchange_stays v ⟨⟨d, by exact hruntime, hnext⟩, h.filled⟩)).bind ?_
    rintro sums r' ⟨hsums, hgrown⟩
    cases sums with
    | none => exact .inl rfl
    | some sums =>
        obtain ⟨h', y, hy, hreduced⟩ := hsums rfl
        refine (always_recorded (conclude_stays c v sums.1 sums.2 h')).conseq (fun _ _ _ h => h) ?_
        rintro rc r'' ⟨hrc | ⟨hrc, hresting⟩, hgrown'⟩
        · exact .inl hrc
        · have hsession := sessionOf_of_recorded hnext.session (hgrown.trans hgrown')
          exact .inr ⟨hrc, hresting, s, hsession, _, hgrown'.subset (hgrown.subset hrecorded), y,
            hgrown'.subset hy, hjoined hok, hreduced⟩
  · exact .inl rfl

theorem proceed_stays {c : Config} (v : Locals) {id : CommId} (hk : k < world)
    (hworld : c.world = .ofNat world) (hrank : c.rank = .ofNat k)
    (hb : id.load id.len.toNat = b) (h : Member world k b r s 0 0) :
    Stays world k b
      (bindDevice c >>= fun bound => if bound then collective c v id else pure 2)
      (fun rc r' => rc = 2 ∨ rc = 0 ∧ Finished world k b r') r := by
  refine (bindDevice_stays hrank h).bind fun bound r' hbound => ?_
  cases bound with
  | false => exact .inl rfl
  | true =>
      obtain ⟨h', hdevice⟩ := hbound rfl
      exact collective_stays v hk hworld hrank hb h' hdevice

end Parts

/-! ## Length -/

theorem bringUp_endsIn (v : Locals) : (bringUp v).EndsIn 4 := by
  refine .first (fun _ => trivial) fun rc => ?_
  split
  · exact .first (fun _ => trivial) fun _ => .first (fun _ => trivial) fun _ _ => trivial
  · trivial

theorem publish_endsIn (c : Config) (v : Locals) (id : CommId) : (publish c v id).EndsIn 4 := by
  unfold publish
  split
  · split
    · trivial
    · refine .first (fun _ => trivial) fun opened => ?_
      cases opened with
      | none => trivial
      | some f =>
          refine .first (fun _ => trivial) fun n => ?_
          split
          · exact .first (fun _ => trivial) fun _ _ => trivial
          · trivial
  · trivial

theorem poll_endsIn (uidFile : Option CStr) (tries : Nat) :
    (poll uidFile tries).EndsIn (tries * 4) := by
  have honce : (readOnce uidFile).EndsIn 3 := by
    cases uidFile with
    | none => trivial
    | some path =>
        refine .first (fun _ => trivial) fun opened => ?_
        cases opened with
        | none => trivial
        | some f => exact .first (fun _ => trivial) fun _ _ => trivial
  induction tries with
  | zero => trivial
  | succ tries ih =>
      rw [Nat.succ_mul, show tries * 4 + 4 = 3 + (tries * 4 + 1) by omega]
      refine honce.bind fun got => ?_
      split
      · exact .first (fun _ => trivial) fun _ => ih
      · trivial

theorem provideId_endsIn (c : Config) (v : Locals) : (provideId c v).EndsIn 5 := by
  refine .first (fun _ => trivial) fun got => ?_
  split
  · exact (publish_endsIn c v _).bind (n := 0) fun _ => trivial
  · trivial

theorem bootstrap_endsIn (c : Config) (v : Locals) : (bootstrap c v).EndsIn 12000 := by
  unfold bootstrap
  split
  · exact (provideId_endsIn c v).mono (by decide)
  · exact (poll_endsIn c.uidFile 3000).bind (n := 0) fun _ => trivial

theorem bindDevice_endsIn (c : Config) : (bindDevice c).EndsIn 3 := by
  refine .first (fun _ => trivial) fun rc => ?_
  split
  · refine .first (fun _ => trivial) fun counted => ?_
    dsimp only
    split
    · trivial
    · split
      · trivial
      · exact fun _ => trivial
  · trivial

theorem exchange_endsIn (v : Locals) (comm : Ptr) : (exchange v comm).EndsIn 6 := by
  refine .first (fun _ => trivial) fun send => ?_
  split
  · refine .first (fun _ => trivial) fun recv => ?_
    split
    · refine .first (fun _ => trivial) fun copied => ?_
      split
      · refine .first (fun _ => trivial) fun cleared => ?_
        split
        · refine .first (fun _ => trivial) fun rc => ?_
          split
          · exact fun _ => trivial
          · trivial
        · trivial
      · trivial
    · trivial
  · trivial

theorem conclude_endsIn (c : Config) (v : Locals) (comm dSend dRecv : Ptr) :
    (conclude c v comm dSend dRecv).EndsIn 6 := by
  refine .first (fun _ => trivial) fun counted => ?_
  split
  · refine .first (fun _ => trivial) fun _ => .first (fun _ => trivial) fun _ =>
      .first (fun _ => trivial) fun destroyed => ?_
    split
    · exact .first (fun _ => trivial) fun _ _ => trivial
    · trivial
  · trivial

theorem program_endsIn (l : Launch) (k : Nat) : (l.program k).EndsIn 12020 := by
  have hcollective (c : Config) (v : Locals) (id : CommId) : (collective c v id).EndsIn 13 := by
    refine .first (fun _ => trivial) fun made => ?_
    split
    · refine (exchange_endsIn v _).bind (n := 6) fun sums => ?_
      cases sums with
      | none => trivial
      | some sums => exact conclude_endsIn c v _ sums.1 sums.2
    · trivial
  have hbody (c : Config) (v : Locals) : (body c v).EndsIn 12020 := by
    refine (bringUp_endsIn v).bind (n := 12016) fun up => ?_
    split
    · refine (bootstrap_endsIn c v).bind (n := 16) fun out => ?_
      cases out with
      | none => trivial
      | some id =>
          refine (bindDevice_endsIn c).bind (n := 13) fun bound => ?_
          split
          · exact hcollective c v id
          · trivial
    · trivial
  unfold Launch.program
  split
  · unfold main
    split
    · trivial
    · exact hbody _ _
  · trivial

end Integration

end UniCCL
