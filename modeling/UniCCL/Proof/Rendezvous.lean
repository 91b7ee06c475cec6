import UniCCL.Lib.Publish
import UniCCL.Proof.Member

/-! # Ranks that meet through a file

The contract of the ranks of one launch. Rank 0 publishes the bytes of its id, and
whatever another rank reads is a beginning of them; each rank keeps its own process as
it should be. With `whole` no transfer is cut short, and a rank reads all or nothing.
-/

namespace UniCCL.Integration

open CString Stdio Threads Main

def Launch.tmp (l : Launch) : CStr := tmpName l.uidFile (l.locals 0).pid

/-- The bytes of the id that rank 0 has obtained; none before. -/
def idBytes (s : Host) : List UInt8 := obtained (s.ranks 0).calls

/-- Bytes that a rank may hold for its id. -/
def Received (whole : Prop) (b : List UInt8) (s : Host) : Prop :=
  b <+: idBytes s ∧ (whole → b = [] ∨ b = idBytes s)

def Unbroken (whole : Prop) (e : Answer) : Prop :=
  whole → uniccCommIdMax ≤ e.transferred ∧ uniccCommIdMax ≤ e.flushed

/-- Once there is an id it stays, and a file that carries it goes on carrying it. -/
structure Grows (l : Launch) (whole : Prop) (s t : Host) : Prop where
  bytes : idBytes s = [] ∨ idBytes t = idBytes s
  carries : ∀ g, s.files.Carries whole l.tmp (idBytes s) g →
    t.files.Carries whole l.tmp (idBytes t) g

/-- What holds between any two actions. -/
structure Inv (l : Launch) (whole : Prop) (s : Host) : Prop where
  ranks : ∀ k, ∃ b, Received whole b s ∧ Proper l.world k b (s.ranks k)
  file : s.files.Published whole l.tmp l.uidFile (idBytes s)

theorem Grows.refl (l : Launch) (whole : Prop) (s : Host) : Grows l whole s s :=
  ⟨.inr rfl, fun _ h => h⟩

section Contract

variable {l : Launch} {whole : Prop} {s t u : Host} {b : List UInt8} {k : Nat}

theorem Grows.trans (h : Grows l whole s t) (h' : Grows l whole t u) : Grows l whole s u := by
  refine ⟨?_, fun g hg => h'.carries g (h.carries g hg)⟩
  rcases h.bytes with hs | hst
  · exact .inl hs
  · rcases h'.bytes with ht | htu
    · exact .inl (hst.symm.trans ht)
    · exact .inr (htu.trans hst)

theorem received_nil (whole : Prop) (s : Host) : Received whole [] s :=
  ⟨List.nil_prefix, fun _ => .inl rfl⟩

theorem Received.grow (h : Received whole b s) (hgrows : Grows l whole s t) :
    Received whole b t := by
  rcases hgrows.bytes with hs | hst
  · have hb : b = [] := List.prefix_nil.mp (hs ▸ h.1)
    rw [hb]
    exact received_nil whole t
  · unfold Received
    rw [hst]
    exact h

/-- The ranks of a launch: each one's process is its own, and only rank 0 touches the
files. -/
def rendezvous (l : Launch) (whole : Prop) : Contract Nat Host where
  inv := Inv l whole
  rely k s t := t.ranks k = s.ranks k ∧ (k = 0 → t.files = s.files) ∧ Grows l whole s t
  guarantee k s t :=
    (∀ j, j ≠ k → t.ranks j = s.ranks j) ∧ (k ≠ 0 → t.files = s.files) ∧ Grows l whole s t
  rely_refl _ s := ⟨rfl, fun _ => rfl, .refl l whole s⟩
  rely_trans _ _ _ _ hst htu :=
    ⟨htu.1.trans hst.1, fun hk => (htu.2.1 hk).trans (hst.2.1 hk), hst.2.2.trans htu.2.2⟩
  rely_of_guarantee _ j _ _ hj _ _ h :=
    ⟨h.1 j hj, fun hj0 => h.2.1 fun hk0 => hj (hj0.trans hk0.symm), h.2.2⟩

/-! ## Actions inside one rank -/

/-- What an action inside rank `k` leaves to the others. -/
theorem inside_keeps (hinv : Inv l whole s) (hb : Received whole b s) {i : Action} {e : Answer}
    (hturn : Turn l.world k b i (s.ranks k) ((act k i e s).1.ranks k)) :
    Inv l whole (act k i e s).1 ∧ (rendezvous l whole).guarantee k s (act k i e s).1 ∧
      Received whole b (act k i e s).1 := by
  have hothers : ∀ j, j ≠ k → (act k i e s).1.ranks j = s.ranks j := fun j hj => act_ranks hj i e s
  have hfiles : (act k i e s).1.files = s.files := hturn.inside.files k e s
  have hbytes : idBytes (act k i e s).1 = idBytes s := by
    unfold idBytes
    by_cases hk : k = 0
    · subst hk
      exact hturn.obtained
    · rw [hothers 0 (Ne.symm hk)]
  have hgrows : Grows l whole s (act k i e s).1 := by
    refine ⟨.inr hbytes, fun g hg => ?_⟩
    rw [hfiles, hbytes]
    exact hg
  refine ⟨⟨fun j => ?_, ?_⟩, ⟨hothers, fun _ => hfiles, hgrows⟩, hb.grow hgrows⟩
  · by_cases hj : j = k
    · subst hj
      exact ⟨b, hb.grow hgrows, hturn.proper⟩
    · obtain ⟨b', hb', hproper⟩ := hinv.ranks j
      rw [hothers j hj]
      exact ⟨b', hb'.grow hgrows, hproper⟩
  · rw [hfiles, hbytes]
    exact hinv.file

/-- A program of one thread under the contract. -/
abbrev Keeps {α : Type} (l : Launch) (whole : Prop) (k : Nat) (p : Main α) (Q : α → Host → Prop)
    (s : Host) : Prop :=
  (rendezvous l whole).Safe act (Unbroken whole) k Q p s

/-- A part that stays inside rank `k` keeps the contract. -/
theorem keeps_of_stays {α : Type} {p : Main α} {Q : α → Rank → Prop} (hb : Received whole b s)
    (h : Stays l.world k b p Q (s.ranks k)) :
    Keeps l whole k p (fun a t => Q a (t.ranks k) ∧ Received whole b t) s :=
  Contract.Safe.of_always (C := rendezvous l whole) (fun t : Host => t.ranks k)
    (fun _ _ hst => hst.1) (fun _ _ hst hb => hb.grow hst.2.2) (fun i e t _ => act_does k i e t)
    (fun _ _ _ _ hinv hb hturn => inside_keeps hinv hb hturn) hb h

/-! ## Reading -/

theorem look_keeps {α : Type} {i : Action} {next : i.Reply → Main α} {Q : α → Host → Prop}
    (hsame : ∀ e t, (act k i e t).1 = t)
    (hnext : ∀ t e, Inv l whole t → (rendezvous l whole).rely k s t → Unbroken whole e →
      Keeps l whole k (next (act k i e t).2) Q t) :
    Keeps l whole k (.act i next) Q s := by
  intro t hinv hrely e he
  rw [hsame e t]
  exact ⟨hinv, ⟨fun _ _ => rfl, fun _ => rfl, .refl l whole t⟩, hnext t e hinv hrely he⟩

/-- An id that has been handed out is as long as its family's ids are. -/
theorem Inv.length_idBytes_le (h : Inv l whole s) : (idBytes s).length ≤ uniccCommIdMax := by
  obtain ⟨b, -, hproper⟩ := h.ranks 0
  by_cases hnone : idBytes s = []
  · rw [hnone]
    exact Nat.zero_le _
  · obtain ⟨se, -, y, -, hwrote⟩ := hproper.wrote hnone
    have hlen : (idBytes s).length = se.family.uidBytes.toNat := hwrote.2.1
    rw [hlen]
    exact uidBytes_le_max se.family_mem

/-- What a rank knows after a try: what it got is a beginning of the id, and its own
process is as it was. -/
def Got (whole : Prop) (k : Nat) (r : Rank) (got : List UInt8) (t : Host) : Prop :=
  Received whole got t ∧ got.length ≤ uniccCommIdMax ∧ t.ranks k = r

theorem done_got {got : List UInt8} (hgot : Received whole got s)
    (hlen : got.length ≤ uniccCommIdMax) :
    Keeps l whole k (.done got) (Got whole k (s.ranks k)) s :=
  fun _ _ hst => ⟨hgot.grow hst.2.2, hlen, hst.1⟩

theorem readOnce_keeps (uidFile : Option CStr)
    (hfile : ∀ path, uidFile = some path → path = l.uidFile) :
    Keeps l whole k (readOnce uidFile) (Got whole k (s.ranks k)) s := by
  cases uidFile with
  | none => exact done_got (received_nil whole s) (Nat.zero_le _)
  | some path =>
      obtain rfl := hfile path rfl
      refine look_keeps (fun _ _ => rfl) fun t e hinv hst _ => ?_
      rw [← hst.1]
      have hopened : (act k (.fopenRead l.uidFile) e t).2 = t.files.fopenRead l.uidFile e.granted :=
        rfl
      rw [hopened]
      cases hopen : t.files.fopenRead l.uidFile e.granted with
      | none => exact done_got (received_nil whole t) (Nat.zero_le _)
      | some f =>
          obtain ⟨g, hg, rfl⟩ := Files.fopenRead_spec hopen
          have hcarries := hinv.file g hg
          refine look_keeps (fun _ _ => rfl) fun u e' hinv' htu hunbroken => ?_
          rw [← htu.1]
          obtain ⟨hbegun, hwhole⟩ := (htu.2.2.carries g hcarries).fread (f := ⟨g, false⟩)
            hinv'.length_idBytes_le fun hw => (hunbroken hw).1
          refine look_keeps (fun _ _ => rfl) fun v _ _ huv _ => ?_
          rw [← huv.1]
          exact done_got (Received.grow ⟨hbegun, hwhole⟩ huv.2.2)
            ((List.length_take_le _ _).trans (Nat.min_le_right _ _))

theorem poll_keeps (uidFile : Option CStr) (hfile : ∀ path, uidFile = some path → path = l.uidFile)
    (tries : Nat) (hinv : Inv l whole s) :
    Keeps l whole k (poll uidFile tries) (Got whole k (s.ranks k)) s := by
  induction tries generalizing s with
  | zero => exact done_got (received_nil whole s) (Nat.zero_le _)
  | succ tries ih =>
      refine (readOnce_keeps uidFile hfile).bind hinv fun got t hinv' hgot => ?_
      obtain ⟨hreceived, hlen, hranks⟩ := hgot
      rw [← hranks]
      split
      · refine look_keeps (fun _ _ => rfl) fun u _ hinv'' htu _ => ?_
        rw [← htu.1]
        exact ih hinv''
      · exact done_got hreceived hlen

/-! ## Publishing -/

/-- An action of rank 0 on the files, which keeps what is published and what carries it. -/
theorem write_keeps {α : Type} {i : Action} {next : i.Reply → Main α} {Q : α → Host → Prop}
    (hnext : ∀ t e, Inv l whole t → (rendezvous l whole).rely 0 s t → Unbroken whole e →
      ∃ fs reply, act 0 i e t = (t.setFiles fs, reply) ∧
        fs.Published whole l.tmp l.uidFile (idBytes t) ∧
        (∀ g, t.files.Carries whole l.tmp (idBytes t) g → fs.Carries whole l.tmp (idBytes t) g) ∧
        Keeps l whole 0 (next reply) Q (t.setFiles fs)) :
    Keeps l whole 0 (.act i next) Q s := by
  intro t hinv hst e he
  obtain ⟨fs, reply, hact, hpublished, hcarries, hkeeps⟩ := hnext t e hinv hst he
  rw [hact]
  exact ⟨⟨hinv.ranks, hpublished⟩, ⟨fun _ _ => rfl, fun h => absurd rfl h, .inr rfl, hcarries⟩,
    hkeeps⟩

theorem done_same {α : Type} {a : α} (hr : s.ranks 0 = t.ranks 0) :
    Keeps l whole 0 (.done a) (fun _ u => u.ranks 0 = t.ranks 0) s :=
  fun _ _ hst => hst.1.trans hr

theorem idBytes_of_rely (hst : (rendezvous l whole).rely 0 s t) : idBytes t = idBytes s :=
  congrArg (fun r : Rank => obtained r.calls) hst.1

theorem rename_keeps (hname : whole → l.tmp ≠ l.uidFile) {g : Nat}
    (hstaged : s.files.Staged whole l.tmp (idBytes s) g) :
    Keeps l whole 0 (rename l.tmp l.uidFile) (fun _ t => t.ranks 0 = s.ranks 0) s := by
  refine write_keeps fun t e hinv hst _ => ?_
  rw [← hst.2.1 rfl, ← idBytes_of_rely hst] at hstaged
  exact ⟨_, _, rfl, Files.published_rename hinv.file hstaged hname e.granted,
    fun g hg => hg.rename l.uidFile e.granted, done_same hst.1⟩

theorem close_keeps (hname : whole → l.tmp ≠ l.uidFile) {f : Stream}
    (hwriting : s.files.Writing l.tmp f (idBytes s)) :
    Keeps l whole 0 (fclose f >>= fun _ => rename l.tmp l.uidFile)
      (fun _ t => t.ranks 0 = s.ranks 0) s := by
  refine write_keeps fun t e hinv hst hunbroken => ?_
  rw [← hst.2.1 rfl, ← idBytes_of_rely hst] at hwriting
  refine ⟨_, _, rfl, Files.published_fclose hinv.file hwriting e.flushed,
    fun g hg => hg.fclose hwriting e.flushed, ?_⟩
  rw [← hst.1]
  refine rename_keeps hname (hwriting.fclose fun hw => ?_)
  exact hinv.length_idBytes_le.trans (hunbroken hw).2

theorem send_keeps (hname : whole → l.tmp ≠ l.uidFile) {f : Stream} {n : Nat}
    (hlen : (idBytes s).length = n) (hwriting : s.files.Writing l.tmp f []) :
    Keeps l whole 0
      (fwrite f (idBytes s) >>= fun sent =>
        if sent = n then fclose f >>= fun _ => rename l.tmp l.uidFile else pure false)
      (fun _ t => t.ranks 0 = s.ranks 0) s := by
  refine write_keeps fun t e hinv hst _ => ?_
  rw [← hst.2.1 rfl] at hwriting
  rw [← idBytes_of_rely hst] at hlen ⊢
  refine ⟨_, _, rfl, Files.published_fwrite hinv.file hwriting e.transferred e.flushed,
    fun g hg => hg.fwrite hwriting e.transferred e.flushed, ?_⟩
  rw [← hst.1]
  show Keeps l whole 0 (if (t.files.fwrite f (idBytes t) e.transferred e.flushed).2 = n then
    fclose f >>= fun _ => rename l.tmp l.uidFile else .done false) _ _
  split
  · rename_i hsent
    refine close_keeps hname ?_
    -- all of the id has been accepted, so that is what has been written
    obtain ⟨left, hleft⟩ := hwriting.buffered
    obtain ⟨-, hcount, -⟩ :=
      Files.fwrite_spec (idBytes t) e.transferred e.flushed hwriting.writing hleft
    have hall : (idBytes t).take e.transferred = idBytes t := by
      refine List.take_of_length_le ?_
      rw [hcount, List.length_take] at hsent
      omega
    have hnext : (t.files.fwrite f (idBytes t) e.transferred e.flushed).1.Writing l.tmp f
        ((idBytes t).take e.transferred) := hwriting.fwrite e.transferred e.flushed
    rw [hall] at hnext
    exact hnext
  · exact done_same rfl

/-- The id goes out under the temporary name, and the file is renamed when all of it is
written. -/
theorem publish_keeps {c : Config} (hname : whole → l.tmp ≠ l.uidFile)
    (hfile : ∀ path, c.uidFile = some path → path = l.uidFile) {id : CommId}
    (hid : idBytes s = id.load id.len.toNat) (hlen : (idBytes s).length = id.len.toNat) :
    Keeps l whole 0 (publish c (l.locals 0) id) (fun _ t => t.ranks 0 = s.ranks 0) s := by
  unfold publish
  split
  · cases hc : c.uidFile with
    | none => exact done_same rfl
    | some path =>
        obtain rfl := hfile path hc
        refine write_keeps fun t e hinv hst _ => ?_
        have hopened : act 0 (.fopenWrite l.tmp) e t =
            if e.granted then
              (t.setFiles (t.files.create l.tmp), some ⟨t.files.writeTarget l.tmp, true⟩)
            else (t.setFiles t.files, none) := by
          unfold act Files.fopenWrite
          split <;> rfl
        rw [show tmpName l.uidFile (l.locals 0).pid = l.tmp from rfl, hopened]
        split
        · refine ⟨_, _, rfl, Files.published_create hinv.file hname, fun g hg => hg.create, ?_⟩
          have hcreated : idBytes (t.setFiles (t.files.create l.tmp)) = idBytes s :=
            (idBytes_of_rely hst : idBytes t = idBytes s)
          rw [← hcreated] at hid hlen
          rw [← hst.1, ← hid]
          exact send_keeps hname hlen (Files.writing_create t.files l.tmp)
        · exact ⟨_, _, rfl, hinv.file, fun _ hg => hg, done_same hst.1⟩
  · exact done_same rfl

/-! ## The bootstrap -/

def Holding (l : Launch) (whole : Prop) (k : Nat) (out : Option CommId) (t : Host) : Prop :=
  ∀ id, out = some id → ∃ b s, id.load id.len.toNat = b ∧ Received whole b t ∧
    Member l.world k b (t.ranks k) s 0 0

theorem done_none : Keeps l whole k (.done none) (Holding l whole k) s := fun _ _ _ => nofun

/-- Before there was an id, no rank has received one, so rank 0 may obtain any. -/
theorem obtain_keeps (hinv : Inv l whole s) (hnone : idBytes s = []) {r : Rank}
    (hproper : Proper l.world 0 [] r) :
    Inv l whole (s.setRank 0 r) ∧ (rendezvous l whole).guarantee 0 s (s.setRank 0 r) := by
  have hothers (j : Nat) (hj : j ≠ 0) := s.setRank_ranks_of_ne hj r
  have hgrows : Grows l whole s (s.setRank 0 r) := by
    refine ⟨.inl hnone, fun g hg => ?_⟩
    rw [hnone] at hg
    exact hg.of_nil _
  refine ⟨⟨fun j => ?_, fun g hg => ?_⟩, hothers, fun h => absurd rfl h, hgrows⟩
  · by_cases hj : j = 0
    · subst hj
      rw [Host.setRank_ranks_self]
      exact ⟨[], received_nil whole _, hproper⟩
    · obtain ⟨b, hb, h⟩ := hinv.ranks j
      rw [hothers j hj]
      exact ⟨b, hb.grow hgrows, h⟩
  · exact hgrows.carries g (hinv.file g hg)

theorem handOver_keeps {c : Config} {se : Session} {id : CommId} (hname : whole → l.tmp ≠ l.uidFile)
    (hfile : ∀ path, c.uidFile = some path → path = l.uidFile) (hinv : Inv l whole s)
    (hid : idBytes s = id.load id.len.toNat) (hlen : (idBytes s).length = id.len.toNat)
    (h : ∀ b, Member l.world 0 b (s.ranks 0) se 0 0) :
    Keeps l whole 0
      (publish c (l.locals 0) id >>= fun published => pure (if published then some id else none))
      (Holding l whole 0) s := by
  refine (publish_keeps hname hfile hid hlen).bind hinv fun published t _ hts => ?_
  intro u _ htu id' hid'
  have hus : u.ranks 0 = s.ranks 0 := htu.1.trans hts
  have hbytes : idBytes u = idBytes s := congrArg (fun r : Rank => obtained r.calls) hus
  cases published with
  | false => cases hid'
  | true =>
      cases hid'
      refine ⟨idBytes s, se, hid.symm, ?_, ?_⟩
      · rw [← hbytes]
        exact ⟨List.prefix_rfl, fun _ => .inr rfl⟩
      · rw [hus]
        exact h _

/-- The rule for the first `unicc_get_unique_id` of rank 0. -/
theorem getUniqueId_keeps {α : Type} {f : Output → Main α} {Q : α → Host → Prop} {se : Session}
    (h : ∀ b, Member l.world 0 b (s.ranks 0) se 0 0) (hnone : idBytes s = []) (id : Ref CommId)
    (hok : ∀ t o, Inv l whole t → o.isOk = true →
      idBytes t = (o.idAfter id.val).load (o.idAfter id.val).len.toNat →
      (idBytes t).length = (o.idAfter id.val).len.toNat →
      (∀ b, Member l.world 0 b (t.ranks 0) se 0 0) → Keeps l whole 0 (f o) Q t)
    (hfail : ∀ t o, Inv l whole t → o.isOk = false → Keeps l whole 0 (f o) Q t) :
    Keeps l whole 0 (api (.getUniqueId (some id)) >>= f) Q s := by
  intro t hinv hst e _
  rw [← idBytes_of_rely hst] at hnone
  rw [← hst.1] at h
  have hown := t.setRank_ranks_self 0 ((t.ranks 0).call e.world (.getUniqueId (some id))).1
  cases hres : ((t.ranks 0).call e.world (.getUniqueId (some id))).2.isOk with
  | true =>
      obtain ⟨hbytes, hlen, hnext⟩ := Member.obtain h hnone id e.world hres
      obtain ⟨hinv', hguarantee⟩ := obtain_keeps hinv hnone (hnext []).proper
      rw [← hown] at hbytes hnext
      exact ⟨hinv', hguarantee, hok _ _ hinv' hres hbytes ((congrArg _ hbytes).trans hlen) hnext⟩
  | false =>
      have hturn := (h []).obtain_fails id e.world hres
      rw [← hown] at hturn
      obtain ⟨hinv', hguarantee, -⟩ := inside_keeps hinv (received_nil whole t) hturn
      exact ⟨hinv', hguarantee, hfail _ _ hinv' hres⟩

theorem provideId_keeps {c : Config} {se : Session} (hname : whole → l.tmp ≠ l.uidFile)
    (hfile : ∀ path, c.uidFile = some path → path = l.uidFile)
    (h : ∀ b, Member l.world 0 b (s.ranks 0) se 0 0) (hnone : idBytes s = []) :
    Keeps l whole 0 (provideId c (l.locals 0)) (Holding l whole 0) s := by
  refine getUniqueId_keeps h hnone (l.locals 0).id (fun t o hinv hok hid hlen h => ?_)
    fun t o _ hfail => ?_
  · rw [if_pos hok]
    exact handOver_keeps hname hfile hinv hid hlen h
  · rw [if_neg (by rw [hfail]; exact Bool.false_ne_true)]
    exact done_none

/-- An id that was read has the length and the bytes that were read. -/
theorem load_received (id : CommId) {got : List UInt8} (hlen : got.length ≤ uniccCommIdMax) :
    (received id got).load (received id got).len.toNat = got := by
  have htoNat : (received id got).len.toNat = got.length := by
    have hmax : uniccCommIdMax = 4112 := rfl
    show (UInt64.ofNat got.length).toNat = got.length
    rw [UInt64.toNat_ofNat']
    omega
  have hbytes : (received id got).load got.length =
      (List.range got.length).map fun i => got.getD i 0 :=
    CommId.load_of_agree hlen fun i hi => if_pos hi
  rw [htoNat, hbytes]
  refine List.ext_getElem (by simp) fun i hi hi' => ?_
  rw [List.getElem_map, List.getElem_range, List.getD_eq_getElem?_getD,
    List.getElem?_eq_getElem hi', Option.getD_some]

theorem consumeId_keeps {c : Config} {se : Session} (v : Locals)
    (hfile : ∀ path, c.uidFile = some path → path = l.uidFile) (hinv : Inv l whole s)
    (h : ∀ b, Member l.world k b (s.ranks k) se 0 0) :
    Keeps l whole k (consumeId c v) (Holding l whole k) s := by
  refine (poll_keeps c.uidFile hfile 3000 hinv).bind hinv fun got t _ hgot => ?_
  obtain ⟨hreceived, hlen, hranks⟩ := hgot
  intro u _ htu id hid
  split at hid
  · cases hid
  · cases hid
    refine ⟨got, se, load_received v.id.val hlen, hreceived.grow htu.2.2, ?_⟩
    rw [htu.1, hranks]
    exact h got

/-! ## `main` -/

/-- How a rank ends: with status 2, or with status 0 and everything done. -/
def Outcome (l : Launch) (whole : Prop) (k : Nat) (rc : Int32) (t : Host) : Prop :=
  rc = 2 ∨ rc = 0 ∧ ∃ b, Received whole b t ∧ Finished l.world k b (t.ranks k)

theorem rank_eq_zero_iff (hk : k < l.world) : (Int32.ofNat k = 0) ↔ k = 0 := by
  rw [← Int32.toInt_inj, Int32.toInt_ofNat_of_lt (hk.trans l.world_lt), Int32.toInt_zero]
  exact Int.ofNat_eq_zero

theorem done_two : Keeps l whole k (.done 2) (Outcome l whole k) s := fun _ _ _ => .inl rfl

theorem body_keeps {c : Config} (hname : whole → l.tmp ≠ l.uidFile) (hinv : Inv l whole s)
    (hstart : s.ranks k = .start (l.devmem k)) (hk : k < l.world)
    (hc : c = ⟨.ofNat l.world, .ofNat k, some l.uidFile⟩) :
    Keeps l whole k (body c (l.locals k)) (Outcome l whole k) s := by
  have hworld : c.world = .ofNat l.world := by rw [hc]
  have hrank : c.rank = .ofNat k := by rw [hc]
  have hfile : ∀ path, c.uidFile = some path → path = l.uidFile := fun path h => by
    rw [hc] at h
    exact (Option.some.inj h).symm
  have hstays : Stays l.world k [] (bringUp (l.locals k)) _ (.start (l.devmem k)) :=
    bringUp_stays (l.locals k) (l.devmem k)
  have hup := stays_obtained hstays
  rw [← hstart] at hup
  refine (keeps_of_stays (received_nil whole s) hup).bind hinv fun up t hinv' hup' => ?_
  obtain ⟨⟨hmember, hnone⟩, -⟩ := hup'
  rw [hstart] at hnone
  cases up with
  | false => exact done_two
  | true =>
      obtain ⟨se, h⟩ := hmember rfl
      have hboot : Keeps l whole k (bootstrap c (l.locals k)) (Holding l whole k) t := by
        unfold bootstrap
        split
        · rename_i h0
          obtain rfl : k = 0 := (rank_eq_zero_iff hk).mp (hrank.symm.trans h0)
          exact provideId_keeps hname hfile h hnone
        · exact consumeId_keeps (l.locals k) hfile hinv' h
      refine hboot.bind hinv' fun out u hinv'' hout => ?_
      cases out with
      | none => exact done_two
      | some id =>
          obtain ⟨b, se', hb, hreceived, h'⟩ := hout id rfl
          refine (keeps_of_stays hreceived
            (proceed_stays (l.locals k) hk hworld hrank hb h')).conseq ?_
          rintro rc v - ⟨hrc | ⟨hrc, hfinished⟩, hreceived'⟩
          · exact .inl hrc
          · exact .inr ⟨hrc, b, hreceived', hfinished⟩

end Contract

end UniCCL.Integration
