import UniCCL.Lib.CInt
import UniCCL.Proof.Binder

/-! # Operations on a live process

A process is live for a session when its globals hold the session's data and its
table reaches the session's functions. On such a process every backend operation
does what the session's direct call does, and nothing else.
-/

namespace UniCCL

open CString

/-- The process holds the session, with this raw result of the last failed call. -/
structure LiveProcess (s : Session) (e : Int32) (p : Process) : Prop where
  gState : p.gState = .init
  gHandle : p.gHandle = some s.handle
  gBackendHandle : p.gBackendHandle = some s.handle
  gBackendType : p.gBackendType = s.family.type
  gLibPath : p.gLibPath.str = s.path
  gLastBackendResult : p.gLastBackendResult = e
  bound : Bound s.backing s.family p.statics p.unicc

structure NoSession (p : Process) : Prop where
  gState : p.gState = .uninit
  gHandle : p.gHandle = none
  gBackendHandle : p.gBackendHandle = none
  gBackendType : p.gBackendType = .unknown
  gLastBackendResult : p.gLastBackendResult = 0
  unicc : p.unicc = .zero

structure IdleProcess (p : Process) : Prop extends NoSession p where
  gLibPath : p.gLibPath.str = .empty

theorem Session.family_mem (s : Session) : s.family ∈ uniccBackends := probedRow_mem s.identified

theorem Session.uidBytes (s : Session) : s.family.uidBytes = UInt64.ofNat s.family.uidKind.bytes :=
  uidBytes_row s.family_mem

theorem UidKind.toNat_bytes (k : UidKind) : (UInt64.ofNat k.bytes).toNat = k.bytes := by
  cases k <;> decide

/-! ## Pieces shared by the operations -/

def lastErrorAfter (rc e : Int32) : Int32 := if 0 < rc then rc else e

theorem mapBackendResult_eq (rc : Int32) (p : Process) :
    mapBackendResult rc p = (unifiedCode rc,
      { p with gLastBackendResult := lastErrorAfter rc p.gLastBackendResult }) := by
  unfold mapBackendResult unifiedCode lastErrorAfter
  by_cases h0 : rc = 0
  · subst h0
    rfl
  · rw [if_neg h0, if_neg h0]
    by_cases hneg : rc < 0
    · rw [if_pos hneg, if_pos hneg, if_neg (CInt.not_pos_of_neg hneg)]
    · rw [if_neg hneg, if_neg hneg, if_pos (CInt.pos_of_ne_of_not_neg h0 hneg)]

theorem unifiedCode_eq_ok {rc : Int32} : unifiedCode rc = UniccResult.ok.code ↔ rc = 0 := by
  unfold unifiedCode
  by_cases h0 : rc = 0
  · rw [if_pos h0]
    exact ⟨fun _ => h0, fun _ => rfl⟩
  · rw [if_neg h0]
    by_cases hneg : rc < 0
    · rw [if_pos hneg]
      exact Iff.rfl
    · rw [if_neg hneg]
      exact ⟨fun h => absurd h (by decide), fun h => absurd h h0⟩

theorem callNative_some (w : World) (f : FnPtr) (args : List CArg) (p : Process) :
    p.callNative w (some f) args =
      (w.invoke f args, p.record (.native f args (w.invoke f args).rc)) := rfl

/-- The process after a native call and the mapping of its result. -/
def Process.afterNative (p : Process) (w : World) (f : FnPtr) (args : List CArg) : Process :=
  { p with
    gLastBackendResult := lastErrorAfter (w.invoke f args).rc p.gLastBackendResult
    log := p.log ++ [.native f args (w.invoke f args).rc] }

theorem mapBackendResult_record (w : World) (f : FnPtr) (args : List CArg) (p : Process) :
    mapBackendResult (w.invoke f args).rc
        (p.record (.native f args (w.invoke f args).rc)) =
      (unifiedCode (w.invoke f args).rc, p.afterNative w f args) :=
  mapBackendResult_eq _ _

theorem lookupDt_eq (datatype : UInt32) :
    uniccDtmapLookupDt datatype.toInt32 = if datatype < 10 then datatype.toInt32 else -1 := by
  have hrange : (datatype.toInt32 ≥ 0 ∧ datatype.toInt32 < uniccDtCount) ↔ datatype < 10 :=
    CInt.toInt32_range_iff rfl
  unfold uniccDtmapLookupDt
  simp only [hrange]

theorem lookupOp_eq (op : UInt32) :
    uniccDtmapLookupOp op.toInt32 = if op < 4 then op.toInt32 else -1 := by
  have hrange : (op.toInt32 ≥ 0 ∧ op.toInt32 < uniccOpCount) ↔ op < 4 :=
    CInt.toInt32_range_iff rfl
  unfold uniccDtmapLookupOp
  simp only [hrange]

theorem not_neg_of_lt {v bound : UInt32} {n : Int32} (hn : n.toInt = bound.toNat)
    (h : v < bound) : ¬ v.toInt32 < 0 :=
  Int32.not_lt.mpr ((CInt.toInt32_range_iff hn).mpr h).1

theorem lookupDt_neg_iff (datatype : UInt32) :
    uniccDtmapLookupDt datatype.toInt32 < 0 ↔ ¬ datatype < 10 := by
  rw [lookupDt_eq]
  by_cases h : datatype < 10
  · rw [if_pos h]
    exact ⟨fun hneg => absurd hneg (not_neg_of_lt (n := uniccDtCount) rfl h), fun hn => absurd h hn⟩
  · rw [if_neg h]
    exact ⟨fun _ => h, fun _ => by decide⟩

theorem lookupOp_neg_iff (op : UInt32) : uniccDtmapLookupOp op.toInt32 < 0 ↔ ¬ op < 4 := by
  rw [lookupOp_eq]
  by_cases h : op < 4
  · rw [if_pos h]
    exact ⟨fun hneg => absurd hneg (not_neg_of_lt (n := uniccOpCount) rfl h), fun hn => absurd h hn⟩
  · rw [if_neg h]
    exact ⟨fun _ => h, fun _ => by decide⟩

theorem Ptr.isNull_iff (p : Ptr) : p.isNull = true ↔ p = .null := by
  cases p
  simp [Ptr.isNull, Ptr.null]

/-! ## The adapters of a bound table -/

theorem CommId.load_of_agree {id : CommId} {n : Nat} {bytes : Nat → UInt8}
    (hn : n ≤ uniccCommIdMax)
    (h : ∀ k : Fin uniccCommIdMax, k.val < n → id.data k = bytes k) :
    id.load n = (List.range n).map bytes := by
  apply List.ext_getElem
  · simp [CommId.load, hn]
  · intro k hk hk'
    have hkn : k < n := by simpa using hk'
    have hfin := h ⟨k, Nat.lt_of_lt_of_le hkn hn⟩ hkn
    simpa [CommId.load] using hfin

theorem CommId.load_eq (id : CommId) {n : Nat} (hn : n ≤ uniccCommIdMax) :
    id.load n = id.firstBytes n :=
  CommId.load_of_agree hn fun k _ => by rw [dif_pos k.isLt]

theorem uidBytes_le_max {d : BackendInfo} (hd : d ∈ uniccBackends) :
    d.uidBytes.toNat ≤ uniccCommIdMax := by
  have hall : ∀ d ∈ uniccBackends, d.uidBytes.toNat ≤ uniccCommIdMax := by decide
  exact hall d hd

/-- The size of the native id an adapter converts from and to. -/
def GetUniqueIdSlot.bytes : GetUniqueIdSlot → Nat
  | .wrapGetUniqueId128 => uniccUniqueIdBytes
  | .wrapGetUniqueId4096 => uniccOnecclUniqueIdBytes

def CommInitRankSlot.bytes : CommInitRankSlot → Nat
  | .wrapCommInitRankN128 | .wrapCommInitRankS128 => uniccUniqueIdBytes
  | .wrapCommInitRankS4096 => uniccOnecclUniqueIdBytes

theorem CommInitRankSlot.toNat_bytes (slot : CommInitRankSlot) :
    (UInt64.ofNat slot.bytes).toNat = slot.bytes := by
  cases slot <;> decide

/-- `nranks` in the type the adapter passes it as. -/
def CommInitRankSlot.nranksArg (nranks : Int32) : CommInitRankSlot → CArg
  | .wrapCommInitRankN128 => .int nranks
  | .wrapCommInitRankS128 | .wrapCommInitRankS4096 => .size (sizeOfInt nranks)

theorem GetUniqueIdSlot.call_eq (slot : GetUniqueIdSlot) (w : World) (id : Ref CommId)
    (p : Process) :
    slot.call w id p = wrapGetUniqueId w (slot.static p.statics) slot.bytes id p := by
  cases slot <;> rfl

theorem CommInitRankSlot.call_eq (slot : CommInitRankSlot) (w : World) (comm : Ref Ptr)
    (nranks : Int32) (id : Ref CommId) (rank : Int32) (p : Process) :
    slot.call w comm nranks id rank p = wrapCommInitRank w (slot.static p.statics) slot.bytes
      (slot.nranksArg nranks) comm id rank p := by
  cases slot <;> rfl

theorem uidAdapter_bytes (d : BackendInfo) : d.uidAdapter.bytes = d.uidKind.bytes := by
  unfold BackendInfo.uidAdapter
  cases d.uidKind <;> rfl

/-- The two adapters a row selects agree on the size of an id exactly when the large id
comes with `size_t` ranks. -/
theorem rankAdapter_bytes_iff (d : BackendInfo) :
    d.rankAdapter.bytes = d.uidKind.bytes ↔ (d.uidKind = .oneccl → d.nranksIsSizeT = true) := by
  unfold BackendInfo.rankAdapter
  cases d.nranksIsSizeT <;> cases d.uidKind <;> decide

theorem wrapGetUniqueId_some (w : World) (f : FnPtr) (n : Nat) (id : Ref CommId) (p : Process) :
    wrapGetUniqueId w (some f) n id p =
      let reply := w.invoke f [.localUid n]
      (reply.rc, if reply.rc = 0 then { id with val := id.val.store n reply.uidOut } else id,
        p.record (.native f [.localUid n] reply.rc)) := by
  unfold wrapGetUniqueId
  rw [callNative_some]
  by_cases h : (w.invoke f [.localUid n]).rc = 0
  · simp only [h, if_true]
  · simp only [h, if_false]

theorem uidAdapter_call {s : Session} {e : Int32} {p : Process} (live : LiveProcess s e p)
    (w : World) {f : FnPtr} (hf : s.backing .getUniqueId = some f) (id : Ref CommId) :
    s.family.uidAdapter.call w id p =
      let n := s.family.uidBytes.toNat
      let reply := w.invoke f [.localUid n]
      (reply.rc, if reply.rc = 0 then { id with val := id.val.store n reply.uidOut } else id,
        p.record (.native f [.localUid n] reply.rc)) := by
  rw [GetUniqueIdSlot.call_eq, uidAdapter_bytes, live.bound.uidStatic.trans hf, s.uidBytes,
    UidKind.toNat_bytes]
  exact wrapGetUniqueId_some w f _ id p

theorem wrapCommInitRank_some (w : World) (f : FnPtr) (n : Nat) (nranksArg : CArg)
    (comm : Ref Ptr) (id : Ref CommId) (rank : Int32) (p : Process) :
    wrapCommInitRank w (some f) n nranksArg comm id rank p =
      let args := [.ptr comm.addr, nranksArg, .uid (id.val.load n), .int rank]
      if id.val.len = UInt64.ofNat n then
        ((w.invoke f args).rc, comm.updated (w.invoke f args).commOut,
          p.record (.native f args (w.invoke f args).rc))
      else (UniccResult.errInvalidArgument.code, comm, p) := by
  unfold wrapCommInitRank
  rw [callNative_some, ite_not]

/-- The `comm_init_rank` adapter of the family refuses an id of another length and
otherwise passes the id's bytes and `nranks` in the family's types. -/
theorem rankAdapter_call {s : Session} {e : Int32} {p : Process} (live : LiveProcess s e p)
    (w : World) {f : FnPtr} (hf : s.backing .commInitRank = some f) (comm : Ref Ptr)
    {nranks : Int32} (hn : 1 ≤ nranks) (id : Ref CommId) (rank : Int32) :
    s.family.rankAdapter.call w comm nranks id rank p =
      let args := [.ptr comm.addr, Call.nranksArg s.family nranks,
        .uid (id.val.firstBytes s.family.uidBytes.toNat), .int rank]
      if id.val.len = s.family.uidBytes then
        ((w.invoke f args).rc, comm.updated (w.invoke f args).commOut,
          p.record (.native f args (w.invoke f args).rc))
      else (UniccResult.errInvalidArgument.code, comm, p) := by
  have hsize : sizeOfInt nranks = UInt64.ofNat nranks.toNatClampNeg := by
    refine CInt.toUInt64_of_nonneg ?_
    rw [Int32.le_iff_toInt_le] at hn ⊢
    exact Int.le_trans (by decide) hn
  have hnranks : s.family.rankAdapter.nranksArg nranks = Call.nranksArg s.family nranks := by
    unfold BackendInfo.rankAdapter Call.nranksArg
    by_cases hst : s.family.nranksIsSizeT = true
    · rw [if_pos hst, if_pos hst, ← hsize]
      cases s.family.uidKind <;> rfl
    · rw [if_neg hst, if_neg hst]
      rfl
  have hbytes := (rankAdapter_bytes_iff s.family).mpr (sizeT_of_oneccl s.family_mem)
  rw [← CommId.load_eq id.val (uidBytes_le_max s.family_mem), CommInitRankSlot.call_eq, hbytes,
    hnranks, live.bound.rankStatic.trans hf, s.uidBytes, UidKind.toNat_bytes]
  exact wrapCommInitRank_some w f _ _ comm id rank p

theorem broadcast_call {s : Session} {e : Int32} {p : Process} (live : LiveProcess s e p)
    (w : World) {f : FnPtr} (hf : s.backing .broadcast = some f) (buf : Ptr) (count : UInt64)
    (datatype : UInt32) (root : Int32) (comm stream : Ptr) :
    ∃ slot, p.unicc.broadcast = some slot ∧
      slot.call w buf count datatype.toInt32 root comm stream p =
        let args := (Call.broadcast buf count datatype root comm stream).directArgs s.family
        ((w.invoke f args).rc, p.record (.native f args (w.invoke f args).rc)) := by
  have hslot := live.bound.broadcast
  by_cases hdb : s.family.broadcastDoubleBuffered = true
  · rw [if_pos hdb] at hslot
    refine ⟨_, hslot, ?_⟩
    have hstatic := (live.bound.broadcastDb hdb).trans hf
    simp only [BroadcastSlot.call, wrapBroadcastDb, hstatic, callNative_some, Call.directArgs,
      hdb, if_true]
  · rw [if_neg hdb, hf] at hslot
    refine ⟨_, hslot, ?_⟩
    simp only [BroadcastSlot.call, callNative_some, Call.directArgs, hdb, Bool.false_eq_true,
      if_false]

/-! ## Every operation -/

/-- What an operation returns and leaves behind, in terms of the abstract one. -/
def Performs (os : Os) (w : World) (s : Session) (e : Int32) (op : Op) (c : Call)
    (p : Process) : Prop :=
  callApi os w p c =
    ({ p with
        gLastBackendResult := (operate w s e op c).1.lastError
        log := p.log ++ (operate w s e op c).2.events },
      (operate w s e op c).2.ret, (operate w s e op c).2.out)

section Operate

variable {os : Os} {w : World} {s : Session} {e : Int32} {op : Op} {c : Call} {p : Process}

theorem operate_unsupported (h : s.backing op = none) :
    operate w s e op c = (.live s e, refuse c .errNotSupported) := by
  simp only [operate, h]

theorem operate_invalid {f : FnPtr} (h : s.backing op = some f)
    (hbad : ¬ (c.argsValid ∧ c.idFits s.family)) :
    operate w s e op c = (.live s e, refuse c .errInvalidArgument) := by
  simp only [operate, h, if_neg hbad]

theorem operate_dispatched {f : FnPtr} (h : s.backing op = some f)
    (hok : c.argsValid ∧ c.idFits s.family) :
    operate w s e op c =
      (.live s (lastErrorAfter (w.invoke f (c.directArgs s.family)).rc e),
        ⟨.int (unifiedCode (w.invoke f (c.directArgs s.family)).rc),
          c.outAfter s.family (w.invoke f (c.directArgs s.family)),
          [.native f (c.directArgs s.family)
            (w.invoke f (c.directArgs s.family)).rc]⟩) := by
  simp only [operate, h, if_pos hok, lastErrorAfter]

theorem Performs.of_refused (live : LiveProcess s e p) {rc : UniccResult}
    (habs : operate w s e op c = (.live s e, refuse c rc))
    (hcall : callApi os w p c = (p, rcOf rc, c.outBefore)) : Performs os w s e op c p := by
  unfold Performs
  rw [habs, hcall]
  simp only [Abstract.lastError, refuse, ← live.gLastBackendResult, List.append_nil]

theorem Performs.of_dispatched (live : LiveProcess s e p) {f : FnPtr}
    (h : s.backing op = some f) (hok : c.argsValid ∧ c.idFits s.family)
    (hcall : callApi os w p c =
      (p.afterNative w f (c.directArgs s.family),
        .int (unifiedCode (w.invoke f (c.directArgs s.family)).rc),
        c.outAfter s.family (w.invoke f (c.directArgs s.family)))) :
    Performs os w s e op c p := by
  unfold Performs
  rw [operate_dispatched h hok, hcall]
  simp only [Abstract.lastError, Process.afterNative, ← live.gLastBackendResult]

end Operate

/-! ## The two common shapes -/

section Shapes

variable {os : Os} {w : World} {s : Session} {e : Int32} {op : Op} {p : Process}

theorem Performs.of_callSlot (live : LiveProcess s e p) (c : Call)
    (slot : Vtable → Option FnPtr) (hslot : slot p.unicc = s.backing op)
    (hcall : callApi os w p c =
      let r := callSlot w slot (c.directArgs s.family) p; (r.2, .int r.1, .none))
    (hok : c.argsValid ∧ c.idFits s.family) (hbefore : c.outBefore = .none)
    (hafter : ∀ reply, c.outAfter s.family reply = .none) : Performs os w s e op c p := by
  unfold callSlot at hcall
  rw [if_neg (not_not_intro live.gState), hslot] at hcall
  cases hb : s.backing op with
  | none =>
      rw [hb] at hcall
      refine .of_refused live (operate_unsupported hb) ?_
      rw [hcall, hbefore]
      rfl
  | some f =>
      simp only [hb, callNative_some] at hcall
      refine .of_dispatched live hb hok ?_
      rw [hcall, hafter, mapBackendResult_record]

theorem Performs.of_callIntSlot (live : LiveProcess s e p) (c : Call) (out : Option (Ref Int32))
    (slot : Vtable → Option FnPtr) (args : List CArg) (hslot : slot p.unicc = s.backing op)
    (hcall : callApi os w p c =
      let r := callIntSlot w slot args out p; (r.2.2, .int r.1, .int r.2.1))
    (hargs : ∀ r, out = some r → c.directArgs s.family = args ++ [.ptr r.addr])
    (hvalid : c.argsValid ↔ out.isSome) (hfits : c.idFits s.family)
    (hbefore : c.outBefore = .int out)
    (hafter : ∀ reply, c.outAfter s.family reply = .int (out.map (·.updated reply.intOut))) :
    Performs os w s e op c p := by
  unfold callIntSlot at hcall
  rw [if_neg (not_not_intro live.gState), hslot] at hcall
  cases hb : s.backing op with
  | none =>
      rw [hb] at hcall
      refine .of_refused live (operate_unsupported hb) ?_
      rw [hcall, hbefore]
      rfl
  | some f =>
      cases hout : out with
      | none =>
          rw [hb, hout] at hcall
          refine .of_refused live (operate_invalid hb ?_) ?_
          · rw [hvalid, hout]
            exact fun h => absurd h.1 (by decide)
          · rw [hcall, hbefore, hout]
            rfl
      | some r =>
          simp only [hb, hout, callNative_some] at hcall
          refine .of_dispatched live hb ⟨hvalid.mpr (by rw [hout]; rfl), hfits⟩ ?_
          rw [hcall, hafter, hargs r hout, mapBackendResult_record, hout]
          rfl

end Shapes

/-! ## Every operation -/

section Operations

variable {os : Os} {w : World} {s : Session} {e : Int32} {p : Process}

theorem performs_getUniqueId (live : LiveProcess s e p) (id : Option (Ref CommId)) :
    Performs os w s e .getUniqueId (.getUniqueId id) p := by
  have hslot := live.bound.getUniqueId
  cases hb : s.backing .getUniqueId with
  | none =>
      rw [hb] at hslot
      refine .of_refused live (operate_unsupported hb) ?_
      simp only [callApi, uniccGetUniqueId, live.gState, hslot]
      rfl
  | some f =>
      rw [hb] at hslot
      cases id with
      | none =>
          refine .of_refused live (operate_invalid hb fun h => absurd h.1 (by decide)) ?_
          simp only [callApi, uniccGetUniqueId, live.gState, hslot]
          rfl
      | some id =>
          refine .of_dispatched live hb ⟨rfl, trivial⟩ ?_
          simp only [callApi, uniccGetUniqueId, live.gState, hslot]
          simp only [Option.isSome_some, if_true, ne_eq, not_true_eq_false, if_false,
            uidAdapter_call live w hb id, mapBackendResult_record]
          rfl

theorem performs_commInitRank (live : LiveProcess s e p) (comm : Option (Ref Ptr))
    (nranks : Int32) (id : Option (Ref CommId)) (rank : Int32) :
    Performs os w s e .commInitRank (.commInitRank comm nranks id rank) p := by
  have hslot := live.bound.commInitRank
  obtain ⟨f, hb⟩ := Option.isSome_iff_exists.mp (live.bound.core .commInitRank (by decide))
  cases comm with
  | none =>
      refine .of_refused live (operate_invalid hb fun h => absurd h.1.1 (by decide)) ?_
      simp only [callApi, uniccCommInitRank, live.gState, hslot]
      rfl
  | some comm =>
      cases id with
      | none =>
          refine .of_refused live (operate_invalid hb ?_) ?_
          · rintro ⟨⟨-, -, -, -, r, hr, -⟩, -⟩
            exact absurd hr (by simp)
          · simp only [callApi, uniccCommInitRank, live.gState, hslot]
            rfl
      | some id =>
          by_cases hargs : nranks < 1 ∨ rank < 0 ∨ rank ≥ nranks ∨ id.val.len = 0
          · refine .of_refused live (operate_invalid hb ?_) ?_
            · rintro ⟨⟨-, hn, h0, hlt, r, hr, hlen⟩, -⟩
              cases hr
              rcases hargs with h | h | h | h
              · exact Int32.not_lt.mpr hn h
              · exact Int32.not_lt.mpr h0 h
              · exact Int32.not_le.mpr hlt h
              · exact hlen h
            · simp only [callApi, uniccCommInitRank, live.gState, hslot, if_pos hargs]
              rfl
          · have hvalid : (Call.commInitRank (some comm) nranks (some id) rank).argsValid := by
              simp only [not_or] at hargs
              obtain ⟨hn, h0, hlt, hlen⟩ := hargs
              exact ⟨rfl, Int32.not_lt.mp hn, Int32.not_lt.mp h0, Int32.not_le.mp hlt, id, rfl,
                hlen⟩
            have hcall := rankAdapter_call live w hb comm hvalid.2.1 id rank
            by_cases hlen : id.val.len = s.family.uidBytes
            · refine .of_dispatched live hb ⟨hvalid, hlen⟩ ?_
              simp only [callApi, uniccCommInitRank, live.gState, hslot, if_neg hargs, hcall,
                if_pos hlen, mapBackendResult_record]
              rfl
            · refine .of_refused live (operate_invalid hb fun h => hlen h.2) ?_
              simp only [callApi, uniccCommInitRank, live.gState, hslot, if_neg hargs, hcall,
                if_neg hlen]
              rfl

theorem performs_allreduce (live : LiveProcess s e p) (sendbuf recvbuf : Ptr) (count : UInt64)
    (datatype op : UInt32) (comm stream : Ptr) :
    Performs os w s e .allreduce (.allreduce sendbuf recvbuf count datatype op comm stream) p := by
  obtain ⟨f, hb⟩ := Option.isSome_iff_exists.mp (live.bound.core .allreduce (by decide))
  have hslot := live.bound.allreduce.trans hb
  by_cases hbuf : sendbuf.isNull ∨ recvbuf.isNull ∨ count = 0
  · refine .of_refused live (operate_invalid hb ?_) ?_
    · rintro ⟨⟨hs, hr, hc, -, -⟩, -⟩
      simp only [Ptr.isNull_iff] at hbuf
      rcases hbuf with h | h | h
      · exact hs h
      · exact hr h
      · exact hc h
    · simp only [callApi, uniccAllreduce, live.gState, hslot, if_pos hbuf]
      rfl
  · by_cases hmap : uniccDtmapLookupDt datatype.toInt32 < 0 ∨ uniccDtmapLookupOp op.toInt32 < 0
    · refine .of_refused live (operate_invalid hb ?_) ?_
      · rintro ⟨⟨-, -, -, hd, ho⟩, -⟩
        rcases hmap with h | h
        · exact (lookupDt_neg_iff datatype).mp h hd
        · exact (lookupOp_neg_iff op).mp h ho
      · simp only [callApi, uniccAllreduce, live.gState, hslot, if_neg hbuf, if_pos hmap]
        rfl
    · have hrange := hmap
      simp only [lookupDt_neg_iff, lookupOp_neg_iff, not_or, not_not] at hrange
      have hvalid :
          (Call.allreduce sendbuf recvbuf count datatype op comm stream).argsValid := by
        simp only [Ptr.isNull_iff, not_or] at hbuf
        exact ⟨hbuf.1, hbuf.2.1, hbuf.2.2, hrange.1, hrange.2⟩
      have hpos : ¬ (datatype.toInt32 < 0 ∨ op.toInt32 < 0) := by
        rintro (h | h)
        · exact not_neg_of_lt (n := uniccDtCount) rfl hrange.1 h
        · exact not_neg_of_lt (n := uniccOpCount) rfl hrange.2 h
      refine .of_dispatched live hb ⟨hvalid, trivial⟩ ?_
      simp only [callApi, uniccAllreduce, live.gState, hslot, if_neg hbuf, lookupDt_eq,
        lookupOp_eq, if_pos hrange.1, if_pos hrange.2, if_neg hpos, callNative_some]
      simp only [ne_eq, not_true_eq_false, if_false, mapBackendResult_record, Call.directArgs]
      rfl

theorem performs_broadcast (live : LiveProcess s e p) (buf : Ptr) (count : UInt64)
    (datatype : UInt32) (root : Int32) (comm stream : Ptr) :
    Performs os w s e .broadcast (.broadcast buf count datatype root comm stream) p := by
  obtain ⟨f, hb⟩ := Option.isSome_iff_exists.mp (live.bound.core .broadcast (by decide))
  obtain ⟨slot, hslot, hcall⟩ := broadcast_call live w hb buf count datatype root comm stream
  by_cases hbuf : buf.isNull ∨ count = 0
  · refine .of_refused live (operate_invalid hb ?_) ?_
    · rintro ⟨⟨hp, hc, -⟩, -⟩
      simp only [Ptr.isNull_iff] at hbuf
      rcases hbuf with h | h
      · exact hp h
      · exact hc h
    · simp only [callApi, uniccBroadcast, live.gState, hslot, if_pos hbuf]
      rfl
  · by_cases hmap : uniccDtmapLookupDt datatype.toInt32 < 0
    · refine .of_refused live (operate_invalid hb ?_) ?_
      · rintro ⟨⟨-, -, hd⟩, -⟩
        exact (lookupDt_neg_iff datatype).mp hmap hd
      · simp only [callApi, uniccBroadcast, live.gState, hslot, if_neg hbuf, if_pos hmap]
        rfl
    · have hrange : datatype < 10 := not_not.mp (mt (lookupDt_neg_iff datatype).mpr hmap)
      have hvalid : (Call.broadcast buf count datatype root comm stream).argsValid := by
        simp only [Ptr.isNull_iff, not_or] at hbuf
        exact ⟨hbuf.1, hbuf.2, hrange⟩
      refine .of_dispatched live hb ⟨hvalid, trivial⟩ ?_
      simp only [callApi, uniccBroadcast, live.gState, hslot, if_neg hbuf, lookupDt_eq,
        if_pos hrange, if_neg (not_neg_of_lt (n := uniccDtCount) rfl hrange), hcall]
      simp only [ne_eq, not_true_eq_false, if_false, mapBackendResult_record]
      rfl

/-- Every operation of a live process does what the session's direct call does. -/
theorem performs (live : LiveProcess s e p) {op : Op} {c : Call} (hop : c.op = some op) :
    Performs os w s e op c p := by
  cases c with
  | backendVersion version =>
      cases hop
      refine .of_callIntSlot live _ version (·.getVersion) [] live.bound.getVersion rfl ?_
        Iff.rfl trivial rfl fun _ => rfl
      rintro r rfl
      rfl
  | getUniqueId id =>
      cases hop
      exact performs_getUniqueId live id
  | commInitRank comm nranks id rank =>
      cases hop
      exact performs_commInitRank live comm nranks id rank
  | commDestroy comm =>
      cases hop
      exact .of_callSlot live _ (·.commDestroy) live.bound.commDestroy rfl ⟨trivial, trivial⟩
        rfl fun _ => rfl
  | commCount comm count =>
      cases hop
      refine .of_callIntSlot live _ count (·.commCount) [.ptr comm] live.bound.commCount rfl ?_
        Iff.rfl trivial rfl fun _ => rfl
      rintro r rfl
      rfl
  | commUserRank comm rank =>
      cases hop
      refine .of_callIntSlot live _ rank (·.commUserRank) [.ptr comm] live.bound.commUserRank
        rfl ?_ Iff.rfl trivial rfl fun _ => rfl
      rintro r rfl
      rfl
  | allreduce sendbuf recvbuf count datatype op comm stream =>
      cases hop
      exact performs_allreduce live sendbuf recvbuf count datatype op comm stream
  | broadcast buf count datatype root comm stream =>
      cases hop
      exact performs_broadcast live buf count datatype root comm stream
  | groupStart =>
      cases hop
      exact .of_callSlot live _ (·.groupStart) live.bound.groupStart rfl ⟨trivial, trivial⟩
        rfl fun _ => rfl
  | groupEnd =>
      cases hop
      exact .of_callSlot live _ (·.groupEnd) live.bound.groupEnd rfl ⟨trivial, trivial⟩
        rfl fun _ => rfl
  | _ => exact absurd hop (by simp [Call.op])

end Operations

end UniCCL
