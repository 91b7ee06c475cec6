import UniCCL.Lib.Await
import UniCCL.Proof.Rendezvous

/-! # Ranks to which nothing is refused

The way through `test_integration.c` on which every call succeeds. In surroundings that
refuse nothing rank 0 publishes its id within nine actions, and a rank that finds it
published while it still has a try left ends with status 0.
-/

namespace UniCCL.Integration

open CString Stdio Threads Main

/-! ## Surroundings that refuse nothing -/

/-- The answer opens a session of family `d` with every operation the test needs, runs
every native and device function with success, offers a device for each rank, and lets
every file operation through. -/
structure Fair (world : Nat) (d : BackendInfo) (e : Answer) : Prop where
  session : ∃ s, (openSession .linux e.world).session = some s ∧ s.family = d ∧
    ∀ op ∈ [Op.getUniqueId, .commDestroy, .commCount], (s.backing op).isSome
  native : ∀ f args, (e.world.invoke f args).rc = 0
  size : ∀ f comm out, (e.world.invoke f [.ptr comm, .ptr out]).intOut = some (.ofNat world)
  runtime : ∃ c ∈ Candidate.all, ¬ c.Passed e.world
  granted : e.granted = true
  transferred : uniccCommIdMax ≤ e.transferred
  flushed : uniccCommIdMax ≤ e.flushed
  device : e.device.rc = 0
  devices : ∃ n, e.device.count = some n ∧ ¬ n < 1 ∧ ¬ Int32.ofNat world > n
  memory : ∃ p, e.device.ptr = some p ∧ p ≠ .null
  sums : e.device.sumMatches = true

def fairWorld (reply : NativeReply) : World :=
  { World.serving ncclRow reply with
    dlsym := fun h symbol => ((World.serving ncclRow reply).dlsym h symbol).or
      (if symbol ∈ deviceFunctions.map (CStr.lit "cuda" ++ ·) then some ⟨20⟩ else none) }

/-- Every call succeeds, and there are as many devices as ranks. -/
def fairAnswer (world : Nat) : Answer where
  world := fairWorld ⟨0, some (.ofNat world), some ⟨4096⟩, fun _ => 7⟩
  granted := true
  transferred := uniccCommIdMax
  flushed := uniccCommIdMax
  device := ⟨0, some (.ofNat world), some ⟨4096⟩, true⟩

theorem fair_fairAnswer : Fair 2 ncclRow (fairAnswer 2) where
  session := by
    have hopens : (openSession .linux (fairAnswer 2).world).session.map (fun s => (s.family,
        [Op.getUniqueId, .commDestroy, .commCount].map fun op => (s.backing op).isSome)) =
          some (ncclRow, [true, true, true]) := by decide
    obtain ⟨s, hs, hboth⟩ := Option.map_eq_some_iff.mp hopens
    obtain ⟨hfamily, hbacked⟩ := Prod.mk.inj hboth
    refine ⟨s, hs, hfamily, ?_⟩
    simpa using hbacked
  native _ _ := rfl
  size _ _ _ := rfl
  runtime := by
    refine ⟨⟨.lit "libcudart.so", .lit "cuda"⟩, by simp [Candidate.all, cudaLibs], fun hpassed => ?_⟩
    exact hpassed ⟨0⟩ rfl (by decide)
  granted := rfl
  transferred := Nat.le_refl _
  flushed := Nat.le_refl _
  device := rfl
  devices := ⟨2, rfl, by decide, by decide⟩
  memory := ⟨_, rfl, by decide⟩
  sums := rfl

/-- What an action may do to the process that performs it in such surroundings. -/
def Rank.Fares (world : Nat) (d : BackendInfo) (i : Action) (r r' : Rank) (reply : i.Reply) : Prop :=
  match i, reply with
  | .api c, o => ∃ e, Fair world d e ∧ r.call e.world c = (r', o)
  | .devmemLoad, rc => ∃ e, Fair world d e ∧ r.load e.world = (r', rc)
  | .device c, reply => ∃ e, Fair world d e ∧ reply = e.device ∧ r' = r.issue c reply
  | _, _ => r' = r

theorem act_fares {world : Nat} {d : BackendInfo} (k : Nat) (i : Action) {e : Answer} (s : Host)
    (he : Fair world d e) :
    Rank.Fares world d i (s.ranks k) ((act k i e s).1.ranks k) (act k i e s).2 := by
  cases i with
  | api c =>
      refine ⟨e, he, ?_⟩
      simp only [act, Host.setRank_ranks_self]
      rfl
  | devmemLoad =>
      refine ⟨e, he, ?_⟩
      simp only [act, Host.setRank_ranks_self]
      rfl
  | device c =>
      refine ⟨e, he, rfl, ?_⟩
      simp only [act, Host.setRank_ranks_self]
  | _ => rfl

abbrev Succeeds {α : Type} (world : Nat) (d : BackendInfo) (p : Main α) (Q : α → Rank → Prop)
    (r : Rank) : Prop :=
  p.Always (Rank.Fares world d) (fun i _ _ => i.Inside) Q r

section Rules

variable {world : Nat} {d : BackendInfo} {α : Type} {Q : α → Rank → Prop} {r : Rank}

theorem succeeds_api {c : Call} {f : Output → Main α}
    (h : ∀ e, Fair world d e → Succeeds world d (f (r.call e.world c).2) Q (r.call e.world c).1) :
    Succeeds world d (api c >>= f) Q r := by
  rintro r' o ⟨e, he, hcall⟩
  have hnext := h e he
  rw [hcall] at hnext
  exact ⟨trivial, hnext⟩

theorem succeeds_devmemLoad {f : Int32 → Main α}
    (h : ∀ e, Fair world d e → Succeeds world d (f (r.load e.world).2) Q (r.load e.world).1) :
    Succeeds world d (devmemLoad >>= f) Q r := by
  rintro r' rc ⟨e, he, hload⟩
  have hnext := h e he
  rw [hload] at hnext
  exact ⟨trivial, hnext⟩

theorem succeeds_device {c : DeviceCall} {f : DeviceReply → Main α}
    (h : ∀ e, Fair world d e → Succeeds world d (f e.device) Q (r.issue c e.device)) :
    Succeeds world d (device c >>= f) Q r := by
  rintro r' reply ⟨e, he, rfl, rfl⟩
  exact ⟨trivial, h e he⟩

end Rules

/-! ## Operations that succeed -/

/-- Session `s` of family `d` is open, with the operations the test needs. -/
structure Serves (d : BackendInfo) (r : Rank) (s : Session) (held : Multiset Ptr) : Prop where
  usage : ∃ m, Using r s held m
  family : s.family = d
  backed : ∀ op ∈ [Op.getUniqueId, .commDestroy, .commCount], (s.backing op).isSome

section Operations

variable {d : BackendInfo} {r : Rank} {s : Session} {held : Multiset Ptr} {c : Call} {w : World}

theorem Serves.report (h : Serves d r s held) (hc : c.Reports) (w : World) :
    Serves d (r.call w c).1 s held := by
  obtain ⟨m, husing⟩ := h.usage
  exact ⟨⟨m, husing.neutral hc.neutral w⟩, h.family, h.backed⟩

theorem Serves.neutral (h : Serves d r s held) (hc : Neutral held c) (w : World) :
    Serves d (r.call w c).1 s held := by
  obtain ⟨m, husing⟩ := h.usage
  exact ⟨⟨m, husing.neutral hc w⟩, h.family, h.backed⟩

theorem Serves.issue (h : Serves d r s held) (c : DeviceCall) (reply : DeviceReply) :
    Serves d (r.issue c reply) s held := by
  obtain ⟨m, e, hstanding⟩ := h.usage
  exact ⟨⟨m, e, hstanding.refines, hstanding.usage, hstanding.ledger⟩, h.family, h.backed⟩

theorem Serves.load {world : Nat} {e : Answer} (h : Serves d r s held) (he : Fair world d e) :
    (r.load e.world).2 = 0 ∧ Serves d (r.load e.world).1 s held := by
  obtain ⟨m, ex, hstanding⟩ := h.usage
  rcases hstanding.load e.world with ⟨hrc, -, lib, -, hnext⟩ | hfail
  · exact ⟨hrc, ⟨lib ::ₘ m, ex, hnext⟩, h.family, h.backed⟩
  · obtain ⟨c, hc, hserves⟩ := he.runtime
    have hspec := tryRuntimes_spec (w := e.world) Candidate.all
    obtain ⟨-, hresult⟩ := uniccDevmemLoad_result e.world r.devmem r.proc
    cases ht : (tryRuntimes e.world Candidate.all).2 with
    | none =>
        rw [ht] at hspec
        exact absurd (hspec c hc) hserves
    | some taken =>
        rw [ht] at hresult
        exact absurd hresult.1 hfail

theorem Serves.succeeds (h : Serves d r s held) {op : Op} (hop : c.op = some op)
    (hb : (s.backing op).isSome) (hok : c.argsValid ∧ c.idFits d)
    (hrc : ∀ f args, (w.invoke f args).rc = 0) :
    (r.call w c).2.isOk = true ∧
      ∃ f, (r.call w c).2.out = c.outAfter d (w.invoke f (c.directArgs d)) := by
  obtain ⟨m, husing⟩ := h.usage
  obtain ⟨f, hf⟩ := Option.isSome_iff_exists.mp hb
  rw [← h.family] at hok ⊢
  have hview := husing.dispatched hop hf hok w
  rw [hrc] at hview
  refine ⟨?_, f, congrArg Output.out hview⟩
  rw [← view_isOk, hview]
  rfl

end Operations

/-! ## The parts of `main` -/

section Parts

variable {world : Nat} {d : BackendInfo} {r : Rank} {s : Session} {held : Multiset Ptr}

theorem bringUp_succeeds (v : Locals) (devmem : Devmem) :
    Succeeds world d (bringUp v) (fun up r => up = true ∧ ∃ s, Serves d r s 0) (.start devmem) := by
  have hstart : Resting (.start devmem) 0 := standing_start devmem
  refine succeeds_api fun e he => ?_
  obtain ⟨s, hs, hfamily, hbacked⟩ := he.session
  rcases hstart.init e.world with ⟨hok, s', hs', husing⟩ | ⟨-, hnone, -⟩
  · cases hs.symm.trans hs'
    have h : Serves d ((Rank.start devmem).call e.world .init).1 s 0 :=
      ⟨⟨0, husing⟩, hfamily, hbacked⟩
    rw [if_pos hok]
    refine succeeds_api fun e₁ _ => ?_
    have h := h.report (c := .backendName) ⟨rfl, by simp, by simp⟩ e₁.world
    refine succeeds_api fun e₂ _ => ?_
    have h := h.report (c := .getLibraryPath) ⟨rfl, by simp, by simp⟩ e₂.world
    refine succeeds_api fun e₃ he₃ => ?_
    obtain ⟨hok, -⟩ := h.succeeds (c := .backendVersion (some ⟨v.bv, 0⟩)) rfl
      (backing_of_core s (by decide)) ⟨rfl, trivial⟩ he₃.native
    exact ⟨hok, s, h.neutral (neutral_of_none rfl (by decide) (by decide) rfl) e₃.world⟩
  · cases hs.symm.trans hnone

theorem bindDevice_succeeds {c : Config} (hc : c.world = .ofNat world) (h : Serves d r s 0) :
    Succeeds world d (bindDevice c) (fun bound r => bound = true ∧ Serves d r s 0) r := by
  refine succeeds_devmemLoad fun e he => ?_
  have hloaded := h.load he
  rw [if_pos hloaded.1]
  refine succeeds_device fun e₁ he₁ => ?_
  obtain ⟨n, hn, hpositive, hroom⟩ := he₁.devices
  have h := hloaded.2.issue .getDeviceCount e₁.device
  rw [hn]
  dsimp only [Option.getD_some]
  rw [if_neg (by simp [he₁.device, hpositive]), if_neg (by rw [hc]; exact hroom)]
  refine succeeds_device fun e₂ he₂ => ⟨?_, h.issue _ _⟩
  rw [he₂.device]
  rfl

theorem exchange_succeeds (v : Locals) {comm : Ptr} (h : Serves d r s (comm ::ₘ 0)) :
    Succeeds world d (exchange v comm)
      (fun sums r => sums.isSome = true ∧ Serves d r s (comm ::ₘ 0)) r := by
  refine succeeds_device fun e₁ he₁ => ?_
  have h := h.issue (.malloc v.dSend bufferBytes) e₁.device
  obtain ⟨send, hsend, hsend_ne⟩ := he₁.memory
  rw [if_pos he₁.device, hsend]
  refine succeeds_device fun e₂ he₂ => ?_
  have h := h.issue (.malloc v.dRecv bufferBytes) e₂.device
  obtain ⟨recv, hrecv, hrecv_ne⟩ := he₂.memory
  rw [if_pos he₂.device, hrecv]
  dsimp only [Option.getD_some]
  refine succeeds_device fun e₃ he₃ => ?_
  have h := h.issue (.memcpy send v.hSend bufferBytes 1) e₃.device
  rw [if_pos he₃.device]
  refine succeeds_device fun e₄ he₄ => ?_
  have h := h.issue (.memset recv 0 bufferBytes) e₄.device
  rw [if_pos he₄.device]
  refine succeeds_api fun e₅ he₅ => ?_
  obtain ⟨hok, -⟩ := h.succeeds (c := .allreduce send recv 4 uniccF32 uniccSum comm .null) rfl
    (backing_of_core s (by decide)) ⟨⟨hsend_ne, hrecv_ne, by decide, by decide, by decide⟩, trivial⟩
    he₅.native
  have h := h.neutral (c := .allreduce send recv 4 uniccF32 uniccSum comm .null)
    (neutral_of_held rfl (by decide) (by decide) rfl (Multiset.mem_cons_self comm 0)) e₅.world
  rw [if_pos hok]
  refine succeeds_device fun e₆ he₆ => ⟨?_, h.issue _ _⟩
  rw [if_pos he₆.sums]
  rfl

theorem conclude_succeeds {c : Config} (v : Locals) {comm : Ptr} (dSend dRecv : Ptr)
    (hc : c.world = .ofNat world) (h : Serves d r s (comm ::ₘ 0)) :
    Succeeds world d (conclude c v comm dSend dRecv) (fun rc _ => rc = 0) r := by
  refine succeeds_api fun e₁ he₁ => ?_
  obtain ⟨hok, f, hout⟩ := h.succeeds (c := .commCount comm (some ⟨v.count, 0⟩)) rfl
    (h.backed _ (by decide)) ⟨rfl, trivial⟩ he₁.native
  have hcount : (r.call e₁.world (.commCount comm (some ⟨v.count, 0⟩))).2.intAfter 0 = c.world := by
    have hsize := he₁.size f comm v.count
    unfold Output.intAfter
    rw [hout, hc]
    simp [Call.outAfter, Call.directArgs, Ref.updated, hsize]
  have h := h.neutral (c := .commCount comm (some ⟨v.count, 0⟩))
    (neutral_of_held rfl (by decide) (by decide) rfl (Multiset.mem_cons_self comm 0)) e₁.world
  rw [if_pos ⟨hok, hcount⟩]
  refine succeeds_device fun e₂ _ => ?_
  have h := h.issue (.free dSend) e₂.device
  refine succeeds_device fun e₃ _ => ?_
  have h := h.issue (.free dRecv) e₃.device
  refine succeeds_api fun e₄ he₄ => ?_
  obtain ⟨hok, -⟩ := h.succeeds (c := .commDestroy comm) rfl (h.backed _ (by decide))
    ⟨trivial, trivial⟩ he₄.native
  obtain ⟨m, husing⟩ := h.usage
  have h : Serves d _ s 0 := ⟨⟨m, husing.destroy e₄.world⟩, h.family, h.backed⟩
  rw [if_pos hok]
  refine succeeds_api fun e₅ _ => ?_
  have h := h.report (c := .backendName) ⟨rfl, by simp, by simp⟩ e₅.world
  obtain ⟨m, husing⟩ := h.usage
  refine succeeds_api fun e₆ _ => ?_
  rw [if_pos (husing.finalize e₆.world).1]
  rfl

theorem collective_succeeds {c : Config} (v : Locals) {id : CommId} {k : Nat} (hk : k < world)
    (hlt : world < 2147483648) (hworld : c.world = .ofNat world) (hrank : c.rank = .ofNat k)
    (hlen : id.len = d.uidBytes) (h : Serves d r s 0) :
    Succeeds world d (collective c v id) (fun rc _ => rc = 0) r := by
  unfold collective
  rw [hworld, hrank]
  refine succeeds_api fun e he => ?_
  have hargs : (Call.commInitRank (some ⟨v.comm, .null⟩) (.ofNat world) (some ⟨v.id.addr, id⟩)
      (.ofNat k)).argsValid := by
    have hsize : (Int32.ofNat world).toInt = world := Int32.toInt_ofNat_of_lt hlt
    have hnumber : (Int32.ofNat k).toInt = k := Int32.toInt_ofNat_of_lt (hk.trans hlt)
    refine ⟨rfl, ?_, ?_, ?_, _, rfl, ?_⟩
    · rw [Int32.le_iff_toInt_le, hsize]
      exact Int.ofNat_le.mpr (Nat.lt_of_le_of_lt (Nat.zero_le k) hk)
    · rw [Int32.le_iff_toInt_le, hnumber]
      exact Int.natCast_nonneg k
    · rw [Int32.lt_iff_toInt_lt, hnumber, hsize]
      exact Int.ofNat_lt.mpr hk
    · rw [hlen, ← h.family]
      exact uidBytes_ne_zero s.family_mem
  obtain ⟨hok, -⟩ := h.succeeds (c := .commInitRank (some ⟨v.comm, .null⟩) (.ofNat world)
    (some ⟨v.id.addr, id⟩) (.ofNat k)) rfl (backing_of_core s (by decide)) ⟨hargs, hlen⟩ he.native
  obtain ⟨m, husing⟩ := h.usage
  have hmade := husing.make (some ⟨v.comm, .null⟩) (.ofNat world) (some ⟨v.id.addr, id⟩) (.ofNat k)
    e.world
  dsimp only at hmade
  rw [if_pos hok] at hmade ⊢
  have h : Serves d _ s _ := ⟨⟨m, hmade⟩, h.family, h.backed⟩
  refine (exchange_succeeds v h).bind fun sums r' hsums => ?_
  obtain ⟨hsome, h⟩ := hsums
  cases sums with
  | none => cases hsome
  | some sums => exact conclude_succeeds v sums.1 sums.2 hworld h

theorem proceed_succeeds {c : Config} (v : Locals) {id : CommId} {k : Nat} (hk : k < world)
    (hlt : world < 2147483648) (hworld : c.world = .ofNat world) (hrank : c.rank = .ofNat k)
    (hlen : id.len = d.uidBytes) (h : Serves d r s 0) :
    Succeeds world d
      (bindDevice c >>= fun bound => if bound then collective c v id else pure 2)
      (fun rc _ => rc = 0) r := by
  refine (bindDevice_succeeds hworld h).bind fun bound r' hbound => ?_
  obtain ⟨rfl, h⟩ := hbound
  exact collective_succeeds v hk hlt hworld hrank hlen h

end Parts

/-! ## Delivery -/

/-- The public file is empty or as long as an id, each rank's process is its own, and
only rank 0 touches the files. -/
def delivery (l : Launch) (d : BackendInfo) : Contract Nat Host where
  inv s := s.files.Offered d.uidBytes.toNat l.uidFile
  rely k s t := t.ranks k = s.ranks k ∧ (k = 0 → t.files = s.files) ∧
    s.files.Advances d.uidBytes.toNat l.uidFile t.files
  guarantee k s t := (∀ j, j ≠ k → t.ranks j = s.ranks j) ∧ (k ≠ 0 → t.files = s.files) ∧
    s.files.Advances d.uidBytes.toNat l.uidFile t.files
  rely_refl _ _ := ⟨rfl, fun _ => rfl, .refl ..⟩
  rely_trans _ _ _ _ hst htu :=
    ⟨htu.1.trans hst.1, fun hk => (htu.2.1 hk).trans (hst.2.1 hk), hst.2.2.trans htu.2.2⟩
  rely_of_guarantee _ j _ _ hj _ _ h :=
    ⟨h.1 j hj, fun hj0 => h.2.1 fun hk0 => hj (hj0.trans hk0.symm), h.2.2⟩

/-- The id is there, if any rank needs it. -/
def Delivered (l : Launch) (d : BackendInfo) (s : Host) : Prop :=
  1 < l.world → s.files.Ready d.uidBytes.toNat l.uidFile

theorem delivered_lasting (l : Launch) (d : BackendInfo) :
    (delivery l d).Lasting (Delivered l d) where
  rely _ _ _ h hs hw := (hs hw).advance h.2.2
  guarantee _ _ _ h hs hw := (hs hw).advance h.2.2

abbrev Delivers {α : Type} (l : Launch) (d : BackendInfo) (k : Nat) (p : Main α)
    (Q : α → Host → Prop) (s : Host) : Prop :=
  (delivery l d).Safe act (Fair l.world d) k Q p s

section Delivery

variable {l : Launch} {d : BackendInfo} {k : Nat} {s : Host} {α : Type}

theorem delivers_of_succeeds {p : Main α} {Q : α → Rank → Prop}
    (h : Succeeds l.world d p Q (s.ranks k)) :
    Delivers l d k p (fun a t => Q a (t.ranks k) ∧ (k = 0 → t.files = s.files)) s := by
  refine Contract.Safe.of_always (C := delivery l d) (J := fun t => k = 0 → t.files = s.files)
    (fun t : Host => t.ranks k) (fun _ _ hst => hst.1)
    (fun _ _ hst hs hk => (hst.2.1 hk).trans (hs hk)) (fun i e t he => act_fares k i t he)
    (fun i e t _ hinv hs hinside => ?_) (fun _ => rfl) h
  have hfiles : (act k i e t).1.files = t.files := hinside.files k e t
  refine ⟨?_, ⟨fun j hj => act_ranks hj i e t, fun _ => hfiles, ?_⟩, fun hk => hfiles.trans (hs hk)⟩
  · show (act k i e t).1.files.Offered _ _
    rw [hfiles]
    exact hinv
  · rw [hfiles]
    exact .refl ..

/-! ## Rank 0 publishes -/

def Sent (l : Launch) (d : BackendInfo) (r : Rank) (published : Bool) (t : Host) : Prop :=
  published = true ∧ Delivered l d t ∧ t.ranks 0 = r

theorem write_delivers {i : Action} {next : i.Reply → Main α} {Q : α → Host → Prop}
    (hnext : ∀ t e, t.files = s.files → t.ranks 0 = s.ranks 0 → Fair l.world d e →
      ∃ fs reply, act 0 i e t = (t.setFiles fs, reply) ∧
        t.files.Advances d.uidBytes.toNat l.uidFile fs ∧
        Delivers l d 0 (next reply) Q (t.setFiles fs)) :
    Delivers l d 0 (.act i next) Q s := by
  intro t hinv hst e he
  obtain ⟨fs, reply, hact, hadvances, hdelivers⟩ := hnext t e (hst.2.1 rfl) hst.1 he
  rw [hact]
  exact ⟨hadvances.offered hinv, ⟨fun _ _ => rfl, fun h => absurd rfl h, hadvances⟩, hdelivers⟩

theorem rename_delivers {tmp : CStr} {g : Nat} (hdir : s.files.dir tmp = some g)
    (hlen : (s.files.content g).length = d.uidBytes.toNat)
    (hsame : s.files.Ready d.uidBytes.toNat l.uidFile → s.files.dir l.uidFile = some g) :
    Delivers l d 0 (rename tmp l.uidFile) (Sent l d (s.ranks 0)) s := by
  refine write_delivers fun t e hfiles hranks he => ?_
  rw [← hfiles] at hdir hlen hsame
  obtain ⟨hok, hready⟩ : (t.files.rename tmp l.uidFile true).2 = true ∧
      (t.files.rename tmp l.uidFile true).1.Ready d.uidBytes.toNat l.uidFile :=
    Files.ready_rename hdir hlen
  refine ⟨(t.files.rename tmp l.uidFile true).1, true, ?_, Files.advances_rename hdir hlen hsame,
    fun u _ htu => ⟨rfl, fun _ => ?_, htu.1.trans hranks⟩⟩
  · show (t.setFiles (t.files.rename tmp l.uidFile e.granted).1,
      (t.files.rename tmp l.uidFile e.granted).2) = _
    rw [he.granted, hok]
    rfl
  · rw [htu.2.1 rfl]
    exact hready

theorem close_delivers {tmp : CStr} {f : Stream} {bytes : List UInt8}
    (hflushed : s.files.Flushed tmp f bytes) (hlen : bytes.length = d.uidBytes.toNat)
    (hsame : s.files.Ready d.uidBytes.toNat l.uidFile → s.files.dir l.uidFile = some f.file) :
    Delivers l d 0 (fclose f >>= fun _ => rename tmp l.uidFile) (Sent l d (s.ranks 0)) s := by
  refine write_delivers fun t e hfiles hranks _ => ?_
  rw [← hfiles] at hflushed hsame
  obtain ⟨hdir, hcontent⟩ := hflushed.fclose e.flushed
  refine ⟨_, _, rfl, Files.advances_of_same hdir hcontent, ?_⟩
  rw [← hranks]
  refine rename_delivers (g := f.file) ?_ ?_ fun hready => ?_
  · exact (congrFun hdir tmp).trans hflushed.named
  · show ((t.files.fclose f e.flushed).content f.file).length = _
    rw [hcontent, hflushed.content, hlen]
  · exact (congrFun hdir l.uidFile).trans (hsame (hready.of_same hdir.symm hcontent.symm))

theorem send_delivers {tmp : CStr} {f : Stream} {bytes : List UInt8} {n : Nat}
    (hblank : s.files.Blank l.uidFile) (hflushed : s.files.Flushed tmp f [])
    (hn : bytes.length = n) (hlen : bytes.length = d.uidBytes.toNat) (hpos : bytes.length ≠ 0)
    (hmax : bytes.length ≤ uniccCommIdMax) :
    Delivers l d 0
      (fwrite f bytes >>= fun sent =>
        if sent = n then fclose f >>= fun _ => rename tmp l.uidFile else pure false)
      (Sent l d (s.ranks 0)) s := by
  refine write_delivers fun t e hfiles hranks he => ?_
  rw [← hfiles] at hblank hflushed
  have haccepted : bytes.length ≤ e.transferred := hmax.trans he.transferred
  have hkept : bytes.length ≤ e.flushed := hmax.trans he.flushed
  have hadvances := hblank.advances_fwrite hpos hflushed haccepted hkept
  have hsame := hblank.ready_fwrite hpos hflushed haccepted hkept
  obtain ⟨hsent, hwritten, -⟩ := hflushed.fwrite haccepted hkept
  rw [hlen] at hadvances hsame
  refine ⟨_, _, rfl, hadvances, ?_⟩
  rw [← hranks]
  show Delivers l d 0 (if (t.files.fwrite f bytes e.transferred e.flushed).2 = n then
    fclose f >>= fun _ => rename tmp l.uidFile else .done false) _ _
  rw [if_pos (hsent.trans hn)]
  exact close_delivers hwritten hlen hsame

theorem publish_delivers {c : Config} (v : Locals) {id : CommId} (hfile : c.uidFile = some l.uidFile)
    (hworld : c.world = .ofNat l.world) (hd : d ∈ uniccBackends) (hid : id.len = d.uidBytes)
    (hblank : s.files.Blank l.uidFile) :
    Delivers l d 0 (publish c v id) (Sent l d (s.ranks 0)) s := by
  have hmax : d.uidBytes.toNat ≤ uniccCommIdMax := uidBytes_le_max hd
  have hlen : (id.load id.len.toNat).length = d.uidBytes.toNat := by
    rw [hid]
    exact CommId.length_load id hmax
  have hpos : d.uidBytes.toNat ≠ 0 := fun h => uidBytes_ne_zero hd (UInt64.toNat_inj.mp h)
  unfold publish
  rw [hfile]
  split
  · refine write_delivers fun t e hfiles hranks he => ?_
    rw [← hfiles] at hblank
    refine ⟨t.files.create (tmpName l.uidFile v.pid),
      some ⟨t.files.writeTarget (tmpName l.uidFile v.pid), true⟩, ?_,
      hblank.advances_create hpos (tmpName l.uidFile v.pid), ?_⟩
    · show (t.setFiles (t.files.fopenWrite (tmpName l.uidFile v.pid) e.granted).1,
        (t.files.fopenWrite (tmpName l.uidFile v.pid) e.granted).2) = _
      rw [he.granted]
      rfl
    · rw [← hranks]
      exact send_delivers (hblank.create (tmpName l.uidFile v.pid))
        (Files.flushed_create t.files (tmpName l.uidFile v.pid)) (by rw [hlen, hid]) hlen
        (by rw [hlen]; exact hpos) (by rw [hlen]; exact hmax)
  · rename_i hone
    refine fun t _ hst => ⟨rfl, fun hw => ?_, hst.1⟩
    refine absurd ?_ hone
    rw [hworld, gt_iff_lt, Int32.lt_iff_toInt_lt, Int32.toInt_ofNat_of_lt l.world_lt]
    exact Int.ofNat_lt.mpr hw

/-- The rank has its id, and a session that takes it. -/
def Supplied (d : BackendInfo) (k : Nat) (out : Option CommId) (t : Host) : Prop :=
  ∃ id se, out = some id ∧ id.len = d.uidBytes ∧ Serves d (t.ranks k) se 0

theorem getUniqueId_succeeds {world : Nat} {r : Rank} {se : Session} (id : Ref CommId)
    (h : Serves d r se 0) :
    Succeeds world d (api (.getUniqueId (some id)))
      (fun o r => o.isOk = true ∧ (o.idAfter id.val).len = d.uidBytes ∧ Serves d r se 0) r := by
  rintro r' o ⟨e, he, hcall⟩
  obtain ⟨hok, -⟩ := h.succeeds (c := .getUniqueId (some id)) rfl (h.backed _ (by decide))
    ⟨rfl, trivial⟩ he.native
  obtain ⟨m, husing⟩ := h.usage
  obtain ⟨hlen, -⟩ := husing.uniqueId id hok
  have hnext := h.neutral (c := .getUniqueId (some id))
    (neutral_of_none rfl (by decide) (by decide) rfl) e.world
  rw [h.family] at hlen
  rw [hcall] at hok hlen hnext
  exact ⟨trivial, hok, hlen, hnext⟩

theorem provideId_delivers {c : Config} (v : Locals) {se : Session}
    (hfile : c.uidFile = some l.uidFile) (hworld : c.world = .ofNat l.world)
    (hblank : s.files.Blank l.uidFile) (h : Serves d (s.ranks 0) se 0) :
    Delivers l d 0 (provideId c v) (fun out t => Supplied d 0 out t ∧ Delivered l d t) s := by
  have hd : d ∈ uniccBackends := h.family ▸ se.family_mem
  refine (delivers_of_succeeds (getUniqueId_succeeds v.id h)).bind (hblank.offered _) ?_
  rintro o t hinv ⟨⟨hok, hlen, h⟩, hfiles⟩
  rw [if_pos hok]
  rw [← hfiles rfl] at hblank
  refine (publish_delivers v hfile hworld hd hlen hblank).bind hinv ?_
  rintro published u _ ⟨rfl, hdelivered, hranks⟩
  intro t' _ hut'
  refine ⟨⟨_, se, rfl, hlen, ?_⟩, (delivered_lasting l d).rely 0 u t' hut' hdelivered⟩
  rw [hut'.1, hranks]
  exact h

/-! ## The other ranks wait -/

abbrev Waits {α : Type} (l : Launch) (d : BackendInfo) (k n : Nat) (p : Main α)
    (Q : α → Host → Prop) (s : Host) : Prop :=
  (delivery l d).InTime act (Fair l.world d) (Delivered l d) k Q n p s

theorem look_delivers {i : Action} {next : i.Reply → Main α} {Q : α → Host → Prop}
    (hsame : ∀ e t, (act k i e t).1 = t)
    (hnext : ∀ t e, (delivery l d).inv t → (delivery l d).rely k s t → Fair l.world d e →
      Delivers l d k (next (act k i e t).2) Q t) :
    Delivers l d k (.act i next) Q s := by
  intro t hinv hst e he
  rw [hsame e t]
  exact ⟨hinv, ⟨fun _ _ => rfl, fun _ => rfl, .refl ..⟩, hnext t e hinv hst he⟩

theorem look_waits {i : Action} {next : i.Reply → Main α} {Q : α → Host → Prop} {n : Nat}
    (hsame : ∀ e t, (act k i e t).1 = t)
    (hnext : ∀ t e, (delivery l d).inv t → (delivery l d).rely k s t → Fair l.world d e →
      Waits l d k (n - 1) (next (act k i e t).2) Q t) :
    Waits l d k n (.act i next) Q s := by
  refine Contract.InTime.act (delivered_lasting l d) fun t hinv hst e he => ?_
  rw [hsame e t]
  exact ⟨hinv, ⟨fun _ _ => rfl, fun _ => rfl, .refl ..⟩, hnext t e hinv hst he⟩

/-- A read has delivered a whole id, and the rank's own process is as it was. -/
def GotAll (d : BackendInfo) (k : Nat) (r : Rank) (got : List UInt8) (t : Host) : Prop :=
  got.length = d.uidBytes.toNat ∧ t.ranks k = r

theorem done_gotAll {got : List UInt8} (hlen : got.length = d.uidBytes.toNat) :
    Delivers l d k (.done got) (GotAll d k (s.ranks k)) s :=
  fun _ _ hst => ⟨hlen, hst.1⟩

/-- Once the id is there, the next try reads it. -/
theorem poll_delivers (hmax : d.uidBytes.toNat ≤ uniccCommIdMax) (hpos : d.uidBytes.toNat ≠ 0)
    (hready : s.files.Ready d.uidBytes.toNat l.uidFile) (tries : Nat) :
    Delivers l d k (poll (some l.uidFile) (tries + 1)) (GotAll d k (s.ranks k)) s := by
  refine look_delivers (fun _ _ => rfl) fun t e _ hst he => ?_
  have hready' := hready.advance hst.2.2
  obtain ⟨g, hg, hlen⟩ := hready'
  have hopen : t.files.fopenRead l.uidFile e.granted = some ⟨g, false⟩ := by
    rw [he.granted, Files.fopenRead_of_dir hg]
  rw [show (act k (.fopenRead l.uidFile) e t).2 = some ⟨g, false⟩ from hopen]
  refine look_delivers (fun _ _ => rfl) fun u e' _ htu he' => ?_
  have hlen' : (u.files.content g).length = d.uidBytes.toNat := by
    rw [(htu.2.2.ready ⟨g, hg, hlen⟩).2]
    exact hlen
  have hgot : (u.files.fread ⟨g, false⟩ uniccCommIdMax e'.transferred).length =
      d.uidBytes.toNat := by
    rw [Files.fread_whole (hlen'.trans_le hmax) he'.transferred]
    exact hlen'
  refine look_delivers (fun _ _ => rfl) fun v _ _ huv _ => ?_
  have hne : u.files.fread ⟨g, false⟩ uniccCommIdMax e'.transferred ≠ [] := fun h => by
    rw [h] at hgot
    exact hpos hgot.symm
  have hranks : v.ranks k = s.ranks k := huv.1.trans (htu.1.trans hst.1)
  rw [← hranks]
  show Delivers l d k (if u.files.fread ⟨g, false⟩ uniccCommIdMax e'.transferred = [] then _
    else .done (u.files.fread ⟨g, false⟩ uniccCommIdMax e'.transferred)) _ _
  rw [if_neg hne]
  exact done_gotAll hgot

/-- Each try takes four actions, and the last one may begin after the id is there. -/
theorem poll_waits (hmax : d.uidBytes.toNat ≤ uniccCommIdMax) (hpos : d.uidBytes.toNat ≠ 0)
    (hw : 1 < l.world) (tries n : Nat) (hn : n ≤ 4 * tries) :
    Waits l d k n (poll (some l.uidFile) (tries + 1)) (GotAll d k (s.ranks k)) s := by
  induction tries generalizing n s with
  | zero =>
      obtain rfl : n = 0 := by omega
      intro t _ hst hdelivered
      rw [← hst.1]
      exact poll_delivers hmax hpos (hdelivered hw) 0
  | succ tries ih =>
      refine look_waits (fun _ _ => rfl) fun t e hinv hst he => ?_
      obtain ⟨g, hg, hfits⟩ := hinv
      have hopen : t.files.fopenRead l.uidFile e.granted = some ⟨g, false⟩ := by
        rw [he.granted, Files.fopenRead_of_dir hg]
      rw [show (act k (.fopenRead l.uidFile) e t).2 = some ⟨g, false⟩ from hopen]
      refine look_waits (fun _ _ => rfl) fun u e' _ htu he' => ?_
      have hgot := (htu.2.2.fits g hfits).fread (f := ⟨g, false⟩) hmax he'.transferred
      refine look_waits (fun _ _ => rfl) fun v _ _ huv _ => ?_
      have hranks : v.ranks k = s.ranks k := huv.1.trans (htu.1.trans hst.1)
      rw [← hranks]
      show Waits l d k _ (if u.files.fread ⟨g, false⟩ uniccCommIdMax e'.transferred = [] then
        usleep 10000 >>= fun _ => poll (some l.uidFile) (tries + 1)
        else .done (u.files.fread ⟨g, false⟩ uniccCommIdMax e'.transferred)) _ _
      split
      · refine look_waits (fun _ _ => rfl) fun w _ _ hvw _ => ?_
        rw [← hvw.1]
        exact ih (n - 1 - 1 - 1 - 1) (by omega)
      · rename_i hne
        exact .of_safe (done_gotAll (hgot.resolve_left hne))

theorem consumeId_waits {c : Config} (v : Locals) {se : Session} (hfile : c.uidFile = some l.uidFile)
    (hw : 1 < l.world) (hinv : (delivery l d).inv s) (h : Serves d (s.ranks k) se 0) {n : Nat}
    (hn : n ≤ 11996) : Waits l d k n (consumeId c v) (Supplied d k) s := by
  have hd : d ∈ uniccBackends := h.family ▸ se.family_mem
  have hmax : d.uidBytes.toNat ≤ uniccCommIdMax := uidBytes_le_max hd
  have hpos : d.uidBytes.toNat ≠ 0 := fun h => uidBytes_ne_zero hd (UInt64.toNat_inj.mp h)
  unfold consumeId
  rw [hfile]
  refine (poll_waits hmax hpos hw 2999 n hn).first hinv ?_
  rintro got t _ ⟨hlen, hranks⟩
  intro u _ htu
  have hne : got ≠ [] := fun h => by
    rw [h] at hlen
    exact hpos hlen.symm
  rw [if_neg hne]
  refine ⟨_, se, rfl, ?_, ?_⟩
  · show UInt64.ofNat got.length = d.uidBytes
    rw [hlen, UInt64.ofNat_toNat]
  · rw [htu.1, hranks]
    exact h

/-! ## `main` -/

theorem rest_delivers {c : Config} (v : Locals) (hk : k < l.world)
    (hc : c = ⟨.ofNat l.world, .ofNat k, some l.uidFile⟩) {out : Option CommId}
    (h : Supplied d k out s) :
    Delivers l d k
      (match out with
        | none => pure 2
        | some id => bindDevice c >>= fun bound => if bound then collective c v id else pure 2)
      (fun rc _ => rc = 0) s := by
  obtain ⟨id, se, rfl, hlen, hserves⟩ := h
  have hworld : c.world = .ofNat l.world := by rw [hc]
  have hrank : c.rank = .ofNat k := by rw [hc]
  exact (delivers_of_succeeds (proceed_succeeds v hk l.world_lt hworld hrank hlen hserves)).conseq
    fun _ _ _ h => h.1

theorem bringUp_delivers (v : Locals) (hstart : s.ranks k = .start (l.devmem k)) :
    Delivers l d k (bringUp v)
      (fun up t =>
        (up = true ∧ ∃ se, Serves d (t.ranks k) se 0) ∧ (k = 0 → t.files = s.files)) s := by
  have hup : Succeeds l.world d (bringUp v) _ (.start (l.devmem k)) :=
    bringUp_succeeds v (l.devmem k)
  rw [← hstart] at hup
  exact delivers_of_succeeds hup

/-- A rank that is to read its id may take that many actions before the id is there. -/
theorem body_waits {c : Config} (v : Locals) (hk : k < l.world) (hk0 : k ≠ 0)
    (hc : c = ⟨.ofNat l.world, .ofNat k, some l.uidFile⟩) (hinv : (delivery l d).inv s)
    (hstart : s.ranks k = .start (l.devmem k)) :
    Waits l d k 11996 (body c v) (fun rc _ => rc = 0) s := by
  refine Contract.InTime.bind (delivered_lasting l d) (bringUp_delivers v hstart) hinv ?_
  rintro up t hinv' ⟨⟨rfl, se, h⟩, -⟩ n hn
  have hboot : bootstrap c v = consumeId c v := by
    refine if_neg fun h0 => hk0 ((rank_eq_zero_iff hk).mp ?_)
    rw [hc] at h0
    exact h0
  rw [if_pos rfl, hboot]
  have hfile : c.uidFile = some l.uidFile := by rw [hc]
  exact (consumeId_waits v hfile (by omega) hinv' h hn).first hinv'
    fun _ _ _ hsupplied => rest_delivers v hk hc hsupplied

/-- Rank 0 has published after nine actions. -/
theorem body_attains {c : Config} (v : Locals) (hk : 0 < l.world)
    (hc : c = ⟨.ofNat l.world, .ofNat 0, some l.uidFile⟩) (hblank : s.files.Blank l.uidFile)
    (hstart : s.ranks 0 = .start (l.devmem 0)) :
    (delivery l d).Attains act (Fair l.world d) (Delivered l d) 0 (fun rc _ => rc = 0) 9
      (body c v) s := by
  have hlasting := delivered_lasting l d
  refine Contract.Attains.bind (n := 5) hlasting (bringUp_delivers v hstart) (hblank.offered _)
    (bringUp_endsIn v) ?_
  rintro up t hinv ⟨⟨rfl, se, h⟩, hfiles⟩
  rw [← hfiles rfl] at hblank
  have hboot : bootstrap c v = provideId c v := if_pos (by rw [hc]; rfl)
  have hfile : c.uidFile = some l.uidFile := by rw [hc]
  have hworld : c.world = .ofNat l.world := by rw [hc]
  rw [if_pos rfl, hboot]
  refine Contract.Attains.bind (n := 0) hlasting (provideId_delivers v hfile hworld hblank h) hinv
    (provideId_endsIn c v) ?_
  rintro out u _ ⟨hsupplied, hdelivered⟩
  exact .of_safe hlasting hdelivered (rest_delivers v hk hc hsupplied)

end Delivery

end UniCCL.Integration
