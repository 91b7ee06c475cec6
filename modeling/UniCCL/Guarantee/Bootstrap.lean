import UniCCL.Guarantee.Operations

/-! # Availability and bootstrap ids over whole runs

What the gates promise in every reachable state, and what becomes of an id between
the process that gets it and a process that initializes a communicator with it.
-/

namespace UniCCL

open CString

/-! ## The bytes of an id -/

theorem uidBytes_ne_zero {d : BackendInfo} (hd : d ∈ uniccBackends) : d.uidBytes ≠ 0 := by
  have hall : ∀ d ∈ uniccBackends, d.uidBytes ≠ 0 := by decide
  exact hall d hd

theorem one_le_of_lt {rank nranks : Int32} (h0 : 0 ≤ rank) (hlt : rank < nranks) :
    1 ≤ nranks := by
  rw [Int32.le_iff_toInt_le] at h0 ⊢
  rw [Int32.lt_iff_toInt_lt] at hlt
  have hzero : (0 : Int32).toInt = 0 := rfl
  have hone : (1 : Int32).toInt = 1 := rfl
  omega

/-! ## The round trip -/

/-- What `unicc_get_unique_id` leaves in the caller's id after a native call that
returned `rc` and wrote `bytes`. -/
def IdHandedOut (d : BackendInfo) (rc : Int32) (bytes : Nat → UInt8) (before after : CommId) :
    Prop :=
  if rc = 0 then
    after.len = d.uidBytes ∧ ∀ k : Fin uniccCommIdMax,
      after.data k = if k.val < d.uidBytes.toNat then bytes k else before.data k
  else after = before

theorem outAfter_getUniqueId (d : BackendInfo) (reply : NativeReply) (id : Ref CommId) :
    ∃ after, (Call.getUniqueId (some id)).outAfter d reply = .id (some ⟨id.addr, after⟩) ∧
      IdHandedOut d reply.rc reply.uidOut id.val after := by
  unfold IdHandedOut
  by_cases hrc : reply.rc = 0
  · simp only [Call.outAfter, Option.map_some, if_pos hrc]
    refine ⟨_, rfl, ?_, fun _ => rfl⟩
    rw [CommId.store, UInt64.ofNat_toNat]
  · simp only [Call.outAfter, Option.map_some, if_neg hrc]
    exact ⟨id.val, rfl, rfl⟩

theorem id_handed_out {os : Os} {s : Session} {e : Int32} {p : Process}
    (live : LiveProcess s e p) (w : World) (id : Ref CommId) {f : FnPtr} {args : List CArg}
    {rc : Int32}
    (hcall : .native f args rc ∈ (outputOf os p w (.getUniqueId (some id))).events) :
    s.backing .getUniqueId = some f ∧ args = [.localUid s.family.uidBytes.toNat] ∧
      rc = (w.invoke f args).rc ∧
      ∃ after, (outputOf os p w (.getUniqueId (some id))).out = .id (some ⟨id.addr, after⟩) ∧
        IdHandedOut s.family rc (w.invoke f args).uidOut id.val after := by
  rw [outputOf_live live rfl] at hcall ⊢
  cases hb : s.backing .getUniqueId with
  | none =>
      rw [operate_unsupported hb] at hcall
      cases hcall
  | some g =>
      have hok : (Call.getUniqueId (some id)).argsValid ∧
          (Call.getUniqueId (some id)).idFits s.family := ⟨rfl, trivial⟩
      rw [operate_dispatched hb hok] at hcall ⊢
      cases List.mem_singleton.mp hcall
      exact ⟨rfl, rfl, rfl, outAfter_getUniqueId _ _ id⟩

/-- `unicc_comm_init_rank` with an id of `n` known bytes reaches the native function
exactly when `n` is the family's length, and then with those bytes. -/
theorem id_taken_in (os : Os) {s : Session} {e : Int32} {p : Process} (live : LiveProcess s e p)
    (w : World) (comm : Ref Ptr) {nranks rank : Int32} (h0 : 0 ≤ rank) (hlt : rank < nranks)
    (id : Ref CommId) {bytes : Nat → UInt8} (hne : id.val.len ≠ 0)
    (hagree : ∀ k : Fin uniccCommIdMax, k.val < id.val.len.toNat → id.val.data k = bytes k) :
    let o := outputOf os p w (.commInitRank (some comm) nranks (some id) rank)
    (id.val.len = s.family.uidBytes →
      ∃ f nranksArg, s.backing .commInitRank = some f ∧ nranksArg.value = .num nranks.toInt ∧
        let args := [.ptr comm.addr, nranksArg,
          .uid ((List.range id.val.len.toNat).map bytes), .int rank]
        o.events = [.native f args (w.invoke f args).rc]) ∧
    (id.val.len ≠ s.family.uidBytes →
      o = ⟨rcOf .errInvalidArgument, .comm (some comm), []⟩) := by
  intro o
  have hn := one_le_of_lt h0 hlt
  have hargs : (Call.commInitRank (some comm) nranks (some id) rank).argsValid :=
    ⟨rfl, hn, h0, hlt, id, rfl, hne⟩
  obtain ⟨f, hf⟩ := Option.isSome_iff_exists.mp (live.bound.core .commInitRank (by decide))
  have ho : o = (operate w s e .commInitRank _).2 := outputOf_live live rfl w
  refine ⟨?_, ?_⟩
  · intro hlen
    rw [operate_dispatched hf ⟨hargs, hlen⟩] at ho
    have hmax := uidBytes_le_max s.family_mem
    rw [← hlen] at hmax
    refine ⟨f, Call.nranksArg s.family nranks, hf, value_nranksArg s.family hn, ?_⟩
    rw [← CommId.load_of_agree hmax hagree, CommId.load_eq id.val hmax, hlen, ho]
    rfl
  · intro hlen
    have hbad : ¬ ((Call.commInitRank (some comm) nranks (some id) rank).argsValid ∧
        (Call.commInitRank (some comm) nranks (some id) rank).idFits s.family) :=
      fun hok => hlen hok.2
    rw [operate_invalid hf hbad] at ho
    exact ho

/-- An id that goes from one process to another: the bytes the native `GetUniqueId` of
the first wrote reach the native `CommInitRank` of the second exactly when the two
families have ids of one length. Only `len` and the first `len` bytes travel. -/
theorem id_round_trip (osA osB : Os) (isA isB : List (World × Call)) (wA wB : World)
    (dA dB : BackendInfo) (hA : (reached osA isA).gState = .init)
    (hdA : familyOf (reached osA isA).gBackendType = some dA)
    (hB : (reached osB isB).gState = .init)
    (hdB : familyOf (reached osB isB).gBackendType = some dB)
    (id : Ref CommId) (f : FnPtr) (args : List CArg) (rc : Int32)
    (hcall : .native f args rc ∈
      (outputOf osA (reached osA isA) wA (.getUniqueId (some id))).events) :
    slotTarget (reached osA isA).statics (reached osA isA).unicc .getUniqueId = some f ∧
    args = [.localUid dA.uidBytes.toNat] ∧
    ∃ handed, (outputOf osA (reached osA isA) wA (.getUniqueId (some id))).out =
        .id (some ⟨id.addr, handed⟩) ∧
      IdHandedOut dA rc (wA.invoke f args).uidOut id.val handed ∧
      ∀ (received : Ref CommId) (comm : Ref Ptr) (nranks rank : Int32), rc = 0 →
        received.val.len = handed.len →
        (∀ k : Fin uniccCommIdMax, k.val < handed.len.toNat →
          received.val.data k = handed.data k) →
        0 ≤ rank → rank < nranks →
        let o := outputOf osB (reached osB isB) wB
          (.commInitRank (some comm) nranks (some received) rank)
        (dA.uidBytes = dB.uidBytes → ∃ g nranksArg,
          slotTarget (reached osB isB).statics (reached osB isB).unicc .commInitRank = some g ∧
          nranksArg.value = .num nranks.toInt ∧
          let args' := [.ptr comm.addr, nranksArg,
            .uid ((List.range dA.uidBytes.toNat).map (wA.invoke f args).uidOut), .int rank]
          o.events = [.native g args' (wB.invoke g args').rc]) ∧
        (dA.uidBytes ≠ dB.uidBytes →
          o = ⟨rcOf .errInvalidArgument, .comm (some comm), []⟩) := by
  obtain ⟨-, sA, eA, -, liveA, -⟩ := reached_init hA
  obtain ⟨-, sB, eB, -, liveB, -⟩ := reached_init hB
  rw [liveA.gBackendType, familyOf_type sA.family_mem] at hdA
  rw [liveB.gBackendType, familyOf_type sB.family_mem] at hdB
  cases hdA
  cases hdB
  rw [liveA.bound.target, liveB.bound.target]
  obtain ⟨hf, hargs, -, handed, hout, hhanded⟩ := id_handed_out liveA wA id hcall
  refine ⟨hf, hargs, handed, hout, hhanded, ?_⟩
  intro received comm nranks rank hrc hlen hdata h0 hlt
  unfold IdHandedOut at hhanded
  rw [if_pos hrc] at hhanded
  obtain ⟨hhlen, hbytes⟩ := hhanded
  have hrlen : received.val.len = sA.family.uidBytes := hlen.trans hhlen
  have hne : received.val.len ≠ 0 := by
    rw [hrlen]
    exact uidBytes_ne_zero sA.family_mem
  have hagree : ∀ k : Fin uniccCommIdMax, k.val < received.val.len.toNat →
      received.val.data k = (wA.invoke f args).uidOut k := by
    intro k hk
    rw [hlen] at hk
    rw [hdata k hk, hbytes k, if_pos (by rw [← hhlen]; exact hk)]
  have htaken := id_taken_in osB liveB wB comm h0 hlt received hne hagree
  rw [hrlen] at htaken
  exact htaken

/-- From NCCL to ECCL: the lengths agree, though `nranks` has another type. -/
theorem id_round_trip_nccl_eccl :
    let wA := World.serving ncclRow ⟨0, none, none, fun k => UInt8.ofNat k⟩
    let wB := World.serving ecclRow (.returning 0)
    ∃ handed : CommId,
      (outputOf .linux (reached .linux [(wA, .init)]) wA
          (.getUniqueId (some ⟨⟨16⟩, ⟨0, fun _ => 9⟩⟩))).out = .id (some ⟨⟨16⟩, handed⟩) ∧
      ∃ g nranksArg, (outputOf .linux (reached .linux [(wB, .init)]) wB
          (.commInitRank (some ⟨⟨48⟩, .null⟩) 2 (some ⟨⟨32⟩, handed⟩) 1)).events =
        [.native g [.ptr ⟨48⟩, nranksArg, .uid ((List.range 128).map fun k => UInt8.ofNat k),
          .int 1] 0] := by
  intro wA wB
  obtain ⟨-, -, handed, hout, -, haccept⟩ := id_round_trip .linux .linux [(wA, .init)] [(wB, .init)]
    wA wB ncclRow ecclRow (by decide) (by decide) (by decide) (by decide) ⟨⟨16⟩, ⟨0, fun _ => 9⟩⟩
    ⟨4⟩ [.localUid 128] 0 (by decide)
  obtain ⟨g, nranksArg, -, -, hevents⟩ := (haccept ⟨⟨32⟩, handed⟩ ⟨⟨48⟩, .null⟩ 2 1 rfl rfl
    (fun _ _ => rfl) (by decide) (by decide)).1 rfl
  exact ⟨handed, hout, g, nranksArg, hevents⟩

/-! ## Availability -/

def Exported (w : World) (h : Handle) (d : BackendInfo) (op : Op) : Prop :=
  (op = .commUserRank → d.hasCommUserRank = true) ∧
    (w.dlsym (some h) (d.name ++ op.suffix)).isSome

instance (w : World) (h : Handle) (d : BackendInfo) (op : Op) : Decidable (Exported w h d op) :=
  inferInstanceAs (Decidable (_ ∧ _))

/-- The operation each gate is about; `unicc_comm_available` is about two. -/
def Call.gate : Call → Option Op
  | allreduceAvailable => some .allreduce
  | broadcastAvailable => some .broadcast
  | groupStartAvailable => some .groupStart
  | groupEndAvailable => some .groupEnd
  | getUniqueIdAvailable => some .getUniqueId
  | _ => none

theorem exported_iff (w : World) (h : Handle) (d : BackendInfo) (op : Op) :
    Exported w h d op ↔ (backing w h d op).isSome := by
  have hhas : d.has op = true ↔ (op = .commUserRank → d.hasCommUserRank = true) := by
    simp only [BackendInfo.has, Bool.or_eq_true, decide_eq_true_eq, ne_eq]
    rw [imp_iff_not_or, or_comm]
  unfold Exported backing
  rw [← hhas]
  by_cases h : d.has op = true
  · rw [if_pos h]
    exact ⟨fun he => he.2, fun he => ⟨h, he⟩⟩
  · rw [if_neg h]
    exact ⟨fun he => absurd he.1 h, fun he => (by cases he)⟩

theorem truth_eq {b : Bool} {P : Prop} [Decidable P] (h : b = true ↔ P) :
    truth b = if P then 1 else 0 := by
  unfold truth
  cases b with
  | true => rw [if_pos (h.mp rfl), if_pos rfl]
  | false => rw [if_neg fun hp => Bool.false_ne_true (h.mpr hp), if_neg Bool.false_ne_true]

theorem gate_output {os : Os} {p : Process} {a : Abstract} (h : Refines p a) (w : World) {c : Call}
    {op : Op} (hgate : c.gate = some op) :
    (outputOf os p w c).ret = .int (truth (a.offers op)) := by
  have hret := congrArg Output.ret ((wrapper_simulation os).output p a (w, c) h)
  refine hret.trans ?_
  cases c <;> cases hgate <;> cases a <;> rfl

theorem comm_gate_output {os : Os} {p : Process} {a : Abstract} (h : Refines p a) (w : World) :
    (outputOf os p w .commAvailable).ret =
      .int (truth (a.offers .commInitRank && a.offers .getUniqueId)) := by
  have hret := congrArg Output.ret ((wrapper_simulation os).output p a (w, .commAvailable) h)
  refine hret.trans ?_
  cases a <;> rfl

theorem operation_output {os : Os} {s : Session} {e : Int32} {p : Process}
    (live : LiveProcess s e p) (w : World) {c : Call} {op : Op} (hop : c.op = some op) :
    ((s.backing op).isSome →
      ¬ ((outputOf os p w c).ret = rcOf .errNotSupported ∧ (outputOf os p w c).events = []) ∧
      (c.argsValid → c.idFits s.family → ∃ f args rc, s.backing op = some f ∧
        (outputOf os p w c).events = [.native f args rc])) ∧
    (¬ (s.backing op).isSome →
      (outputOf os p w c).ret = rcOf .errNotSupported ∧ (outputOf os p w c).events = []) := by
  rw [outputOf_live live hop]
  cases hb : s.backing op with
  | none =>
      rw [operate_unsupported hb]
      exact ⟨fun h => (by cases h), fun _ => ⟨rfl, rfl⟩⟩
  | some f =>
      refine ⟨fun _ => ?_, fun h => absurd rfl h⟩
      by_cases hok : c.argsValid ∧ c.idFits s.family
      · rw [operate_dispatched hb hok]
        exact ⟨fun h => (by cases h.2), fun _ _ => ⟨f, _, _, rfl, rfl⟩⟩
      · rw [operate_invalid hb hok]
        have hne : rcOf .errInvalidArgument ≠ rcOf .errNotSupported := by decide
        exact ⟨fun h => hne h.1, fun ha hf => absurd ⟨ha, hf⟩ hok⟩

theorem id_length_of_ok {os : Os} {s : Session} {e : Int32} {p : Process}
    (live : LiveProcess s e p) (w : World) {id after : Ref CommId}
    (hret : (outputOf os p w (.getUniqueId (some id))).ret = rcOf .ok)
    (hout : (outputOf os p w (.getUniqueId (some id))).out = .id (some after)) :
    after.val.len = s.family.uidBytes := by
  rw [outputOf_live live rfl] at hret hout
  cases hb : s.backing .getUniqueId with
  | none =>
      rw [operate_unsupported hb] at hret
      cases hret
  | some f =>
      have hok : (Call.getUniqueId (some id)).argsValid ∧
          (Call.getUniqueId (some id)).idFits s.family := ⟨rfl, trivial⟩
      rw [operate_dispatched hb hok] at hret hout
      obtain ⟨handed, hafter, hhanded⟩ := outAfter_getUniqueId s.family
        (w.invoke f ((Call.getUniqueId (some id)).directArgs s.family)) id
      have hrc := unifiedCode_eq_ok.mp (Ret.int.inj hret)
      unfold IdHandedOut at hhanded
      rw [if_pos hrc] at hhanded
      cases hafter.symm.trans hout
      exact hhanded.1

theorem id_accepted {os : Os} {s : Session} {e : Int32} {p : Process}
    (live : LiveProcess s e p) (w : World) {id : Ref CommId}
    (hlen : id.val.len = s.family.uidBytes) (comm : Ref Ptr)
    {nranks rank : Int32} (h0 : 0 ≤ rank) (hlt : rank < nranks) :
    ∃ f args rc, s.backing .commInitRank = some f ∧
      (outputOf os p w (.commInitRank (some comm) nranks (some id) rank)).events =
        [.native f args rc] := by
  have hne : id.val.len ≠ 0 := by
    rw [hlen]
    exact uidBytes_ne_zero s.family_mem
  have hargs : (Call.commInitRank (some comm) nranks (some id) rank).argsValid :=
    ⟨rfl, one_le_of_lt h0 hlt, h0, hlt, id, rfl, hne⟩
  have hcore := live.bound.core .commInitRank (by decide)
  exact ((operation_output live w rfl).1 hcore).2 hargs hlen

/-- In every reachable state the library's exports, the gates and the operations
agree, and an id obtained in a lifecycle is accepted for the rest of it. -/
theorem availability_truthful (os : Os) (is : List (World × Call)) :
    match lastInit (recorded os is) with
    | none => (reached os is).gState = .uninit ∧ ∀ w c, c.gate.isSome ∨ c = .commAvailable →
        (outputOf os (reached os is) w c).ret = .int 0
    | some i => (reached os is).gState = .init ∧
        ∃ h d, (reached os is).gHandle = some h ∧ Identifies i.world h d ∧
        (∀ w c op, c.op = some op →
          let o := outputOf os (reached os is) w c
          (Exported i.world h d op →
            ¬ (o.ret = rcOf .errNotSupported ∧ o.events = []) ∧
            (c.argsValid → c.idFits d → ∃ f args rc,
              i.world.dlsym (some h) (d.name ++ op.suffix) = some f ∧
                o.events = [.native f args rc])) ∧
          (¬ Exported i.world h d op → o.ret = rcOf .errNotSupported ∧ o.events = [])) ∧
        (∀ w c op, c.gate = some op →
          (outputOf os (reached os is) w c).ret = .int (if Exported i.world h d op then 1 else 0)) ∧
        (∀ w, (outputOf os (reached os is) w .commAvailable).ret = .int
          (if Exported i.world h d .commInitRank ∧ Exported i.world h d .getUniqueId then 1
            else 0)) ∧
        ∀ w id after js, (outputOf os (reached os is) w .commAvailable).ret = .int 1 →
          (outputOf os (reached os is) w (.getUniqueId (some id))).ret = rcOf .ok →
          (outputOf os (reached os is) w (.getUniqueId (some id))).out = .id (some after) →
          (∀ j ∈ js, j.2 ≠ .finalize) →
          ∀ w' comm nranks rank received, received.val = after.val → 0 ≤ rank → rank < nranks →
            ∃ f args rc, i.world.dlsym (some h) (d.name ++ .lit "CommInitRank") = some f ∧
              (outputOf os (reached os (is ++ (w, .getUniqueId (some id)) :: js)) w'
                (.commInitRank (some comm) nranks (some received) rank)).events =
              [.native f args rc] := by
  cases hlast : lastInit (recorded os is) with
  | none =>
      have idle : Refines (reached os is) .idle := reached_of_none hlast
      refine ⟨(reached_of_none hlast).gState, ?_⟩
      intro w c hc
      rcases hc with hgate | rfl
      · obtain ⟨op, hop⟩ := Option.isSome_iff_exists.mp hgate
        exact gate_output idle w hop
      · exact comm_gate_output idle w
  | some i =>
      obtain ⟨s, e, live, hopened, -⟩ := reached_of_some hlast
      have hworld := openSession_world hopened
      have href : Refines (reached os is) (.live s e) := live
      have hexported : ∀ op, Exported i.world s.handle s.family op ↔ (s.backing op).isSome := by
        intro op
        rw [← hworld]
        exact exported_iff s.world s.handle s.family op
      have hsymbol {op : Op} {f : FnPtr} (hf : s.backing op = some f) :
          i.world.dlsym (some s.handle) (s.family.name ++ op.suffix) = some f := by
        rw [← hworld]
        exact backing_some hf
      refine ⟨live.gState, s.handle, s.family, live.gHandle, ?_, ?_, ?_, ?_, ?_⟩
      · rw [← hworld]
        exact probedRow_identifies s.identified
      · intro w c op hop
        obtain ⟨hsome, hnone⟩ := operation_output live w hop
        refine ⟨fun hex => ?_, fun hnot => hnone (mt (hexported op).mpr hnot)⟩
        obtain ⟨hserved, hruns⟩ := hsome ((hexported op).mp hex)
        refine ⟨hserved, fun hargs hfits => ?_⟩
        obtain ⟨f, args, rc, hf, hevents⟩ := hruns hargs hfits
        exact ⟨f, args, rc, hsymbol hf, hevents⟩
      · intro w c op hgate
        rw [gate_output href w hgate]
        exact congrArg Ret.int (truth_eq (hexported op).symm)
      · intro w
        rw [comm_gate_output href w]
        refine congrArg Ret.int (truth_eq ?_)
        rw [Bool.and_eq_true]
        exact and_congr (hexported .commInitRank).symm (hexported .getUniqueId).symm
      · intro w id after js _ hret hout hjs w' comm nranks rank received hval h0 hlt
        have hlen := id_length_of_ok live w hret hout
        rw [← hval] at hlen
        have hlater : ∀ j ∈ (w, Call.getUniqueId (some id)) :: js, j.2 ≠ .finalize := by
          intro j hj
          rcases List.mem_cons.mp hj with rfl | hj
          · exact fun h => by cases h
          · exact hjs j hj
        obtain ⟨e', live'⟩ := session_lasts live os _ hlater
        obtain ⟨f, args, rc, hf, hevents⟩ := id_accepted live' w' hlen comm h0 hlt
        rw [reached, Mealy.after_append]
        exact ⟨f, args, rc, hsymbol hf, hevents⟩

end UniCCL
