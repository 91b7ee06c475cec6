import UniCCL.Guarantee.Lifecycle

/-! # Backend operations over whole runs

In every reachable state an operation is the direct call of the identified
family's function. A broadcast has the argument list the vendors declare exactly
for the families whose row passes the buffer twice.
-/

namespace UniCCL

open CString

/-! ## The argument list of a dispatched call -/

theorem value_toInt32 {v bound : UInt32} (h : v < bound) (hb : 2 * bound.toNat ≤ UInt32.size) :
    v.toInt32.toInt = v.toNat := by
  have hlt := UInt32.lt_iff_toNat_lt.mp h
  rw [CInt.toInt_toInt32, if_pos (by omega)]

theorem value_nranksArg (d : BackendInfo) {nranks : Int32} (h : 1 ≤ nranks) :
    (Call.nranksArg d nranks).value = .num nranks.toInt := by
  have hpos : (0 : Int32) ≤ nranks := by
    rw [Int32.le_iff_toInt_le] at h ⊢
    exact Int.le_trans (by decide) h
  unfold Call.nranksArg
  by_cases hst : d.nranksIsSizeT = true
  · rw [if_pos hst]
    exact congrArg ArgValue.num (CInt.toNat_size_of_nonneg hpos)
  · rw [if_neg hst]
    rfl

theorem directArgs_values (d : BackendInfo) {c : Call} (h : c.argsValid) :
    (c.directArgs d).map CArg.value = c.values d ∧ c.InRange := by
  cases c with
  | backendVersion version => cases version <;> exact ⟨rfl, trivial⟩
  | commCount comm count => cases count <;> exact ⟨rfl, trivial⟩
  | commUserRank comm rank => cases rank <;> exact ⟨rfl, trivial⟩
  | commInitRank comm nranks id rank =>
      obtain ⟨hcomm, hn, h0, hlt, r, rfl, -⟩ := h
      obtain ⟨comm, rfl⟩ := Option.isSome_iff_exists.mp hcomm
      refine ⟨?_, Int32.le_iff_toInt_le.mp hn, Int32.le_iff_toInt_le.mp h0,
        Int32.lt_iff_toInt_lt.mp hlt⟩
      simp only [Call.directArgs, Call.values, List.map_cons, value_nranksArg d hn]
      rfl
  | allreduce sendbuf recvbuf count datatype op comm stream =>
      obtain ⟨-, -, -, hd, ho⟩ := h
      have hd' := UInt32.lt_iff_toNat_lt.mp hd
      have ho' := UInt32.lt_iff_toNat_lt.mp ho
      refine ⟨?_, Nat.le_of_lt_succ hd', Nat.le_of_lt_succ ho'⟩
      simp only [Call.directArgs, Call.values, List.map_cons, CArg.value,
        value_toInt32 hd (by decide), value_toInt32 ho (by decide)]
      rfl
  | broadcast buf count datatype root comm stream =>
      obtain ⟨-, -, hd⟩ := h
      have hd' := UInt32.lt_iff_toNat_lt.mp hd
      refine ⟨?_, Nat.le_of_lt_succ hd'⟩
      simp only [Call.directArgs, Call.values]
      by_cases hdb : d.broadcastDoubleBuffered = true
      · simp only [if_pos hdb, List.map_cons, CArg.value, value_toInt32 hd (by decide)]
        rfl
      · simp only [if_neg hdb, List.map_cons, CArg.value, value_toInt32 hd (by decide)]
        rfl
  | _ => exact ⟨rfl, trivial⟩

/-! ## Dispatch -/

/-- In every initialized state an operation is the direct call of the function that the
loaded library exports under the identified family's name for it: one native call with
the caller's values, whose result and stores are what the caller gets. -/
theorem dispatch_refines (os : Os) (is : List (World × Call))
    (hinit : (reached os is).gState = .init) (w : World) (c : Call) (op : Op) (hop : c.op = some op) :
    ∃ i h d, lastInit (recorded os is) = some i ∧ (reached os is).gHandle = some h ∧
      Identifies i.world h d ∧ familyOf (reached os is).gBackendType = some d ∧
      ((reached os is).unicc.filled op = true → c.argsValid → c.idFits d →
        ∃ f args, i.world.dlsym (some h) (d.name ++ op.suffix) = some f ∧
          args.map CArg.value = c.values d ∧ c.InRange ∧
          outputOf os (reached os is) w c = ⟨.int (unifiedCode (w.invoke f args).rc),
            c.outAfter d (w.invoke f args), [.native f args (w.invoke f args).rc]⟩) ∧
      (¬ ((reached os is).unicc.filled op = true ∧ c.argsValid ∧ c.idFits d) →
        (outputOf os (reached os is) w c).events = []) := by
  obtain ⟨i, s, e, hlast, live, hworld⟩ := reached_init hinit
  rw [outputOf_live live hop w, live.bound.filled op, live.gBackendType]
  refine ⟨i, s.handle, s.family, hlast, live.gHandle, ?_, familyOf_type s.family_mem, ?_, ?_⟩
  · rw [← hworld]
    exact probedRow_identifies s.identified
  · intro hfilled hargs hfits
    obtain ⟨f, hf⟩ := Option.isSome_iff_exists.mp hfilled
    obtain ⟨hvalues, hrange⟩ := directArgs_values s.family hargs
    rw [operate_dispatched hf ⟨hargs, hfits⟩, ← hworld]
    exact ⟨f, c.directArgs s.family, backing_some hf, hvalues, hrange, rfl⟩
  · intro hnot
    cases hb : s.backing op with
    | none =>
        rw [operate_unsupported hb]
        rfl
    | some f =>
        rw [hb] at hnot
        rw [operate_invalid hb fun hok => hnot ⟨rfl, hok⟩]
        rfl

theorem dispatch_refines_oneccl :
    let w := World.serving onecclRow (.returning 0)
    let c := Call.commInitRank (some ⟨⟨16⟩, .null⟩) 4 (some ⟨⟨32⟩, ⟨4096, fun _ => 7⟩⟩) 3
    ∃ f args, args.map CArg.value = c.values onecclRow ∧
      (outputOf .linux (reached .linux [(w, .init)]) w c).events = [.native f args 0] := by
  intro w c
  obtain ⟨i, h, d, -, -, -, hfamily, hdispatch, -⟩ :=
    dispatch_refines .linux [(w, .init)] (by decide) w c .commInitRank rfl
  have hrow : familyOf (reached .linux [(w, .init)]).gBackendType = some onecclRow := by decide
  cases hrow.symm.trans hfamily
  obtain ⟨f, args, -, hvalues, -, houtput⟩ := hdispatch (by decide) (by decide) (by decide)
  exact ⟨f, args, hvalues, congrArg Output.events houtput⟩

/-! ## Broadcast -/

/-- An accepted broadcast is one call of the `Broadcast` that the loaded library exports
under the name of its family, and the seven parameters receive the caller's values. -/
def BroadcastDelivered (last : Option LastInit) (p : Process) (c : Call) (o : Output) : Prop :=
  match c with
  | .broadcast buf count datatype root comm stream => p.gState = .init → c.argsValid →
      ∃ i h d f args rc, last = some i ∧ p.gHandle = some h ∧ Identifies i.world h d ∧
        i.world.dlsym (some h) (d.name ++ .lit "Broadcast") = some f ∧
        o.events = [.native f args rc] ∧ BroadcastParams.receive args =
          some ⟨buf, buf, count, datatype.toInt32, root, comm, stream⟩
  | _ => True

/-- A broadcast that will be accepted is made while the identified row has the flag. -/
def BroadcastDoubleBuffered (p : Process) (c : Call) : Prop :=
  match c with
  | .broadcast .. => p.gState = .init → c.argsValid →
      ∃ d, familyOf p.gBackendType = some d ∧ d.broadcastDoubleBuffered = true
  | _ => True

theorem receive_directArgs_iff (d : BackendInfo) (buf : Ptr) (count : UInt64)
    (datatype : UInt32) (root : Int32) (comm stream : Ptr) :
    BroadcastParams.receive
        ((Call.broadcast buf count datatype root comm stream).directArgs d) =
      some ⟨buf, buf, count, datatype.toInt32, root, comm, stream⟩ ↔
      d.broadcastDoubleBuffered = true := by
  by_cases hdb : d.broadcastDoubleBuffered = true
  · simp only [Call.directArgs, if_pos hdb]
    exact ⟨fun _ => hdb, fun _ => rfl⟩
  · simp only [Call.directArgs, if_neg hdb]
    exact ⟨fun h => (by cases h), fun h => absurd h hdb⟩

theorem broadcast_delivered_step (os : Os) (is : List (World × Call)) (w : World) (c : Call) :
    BroadcastDelivered (lastInit (recorded os is)) (reached os is) c
        (outputOf os (reached os is) w c) ↔
      BroadcastDoubleBuffered (reached os is) c := by
  cases c with
  | broadcast buf count datatype root comm stream =>
      unfold BroadcastDelivered BroadcastDoubleBuffered
      refine forall_congr' fun hinit => forall_congr' fun hargs => ?_
      obtain ⟨i, s, e, hlast, live, hworld⟩ := reached_init hinit
      obtain ⟨f, hf⟩ := Option.isSome_iff_exists.mp (live.bound.core .broadcast (by decide))
      have hreceive := receive_directArgs_iff s.family buf count datatype root comm stream
      rw [outputOf_live live rfl, operate_dispatched hf ⟨hargs, trivial⟩, live.gBackendType,
        familyOf_type s.family_mem]
      constructor
      · rintro ⟨-, -, -, g, args, rc, -, -, -, -, hevents, hparams⟩
        cases hevents
        exact ⟨s.family, rfl, hreceive.mp hparams⟩
      · rintro ⟨d, hd, hdb⟩
        cases hd
        have hid : Identifies i.world s.handle s.family := by
          rw [← hworld]
          exact probedRow_identifies s.identified
        have hsymbol : i.world.dlsym (some s.handle) (s.family.name ++ .lit "Broadcast") =
            some f := by
          rw [← hworld]
          exact backing_some hf
        exact ⟨i, s.handle, s.family, f, _, _, hlast, live.gHandle, hid, hsymbol, rfl,
          hreceive.mpr hdb⟩
  | _ => exact Iff.rfl

/-- In a run every accepted broadcast is delivered exactly when every one is made to a
family whose row passes the buffer twice. -/
theorem broadcast_delivered_iff (os : Os) (is : List (World × Call)) :
    (∀ before w c rest, is = before ++ (w, c) :: rest →
        BroadcastDelivered (lastInit (recorded os before)) (reached os before) c
          (outputOf os (reached os before) w c)) ↔
      ∀ before w c rest, is = before ++ (w, c) :: rest →
        BroadcastDoubleBuffered (reached os before) c :=
  forall_congr' fun before => forall_congr' fun w => forall_congr' fun c =>
    forall_congr' fun _ => imp_congr_right fun _ => broadcast_delivered_step os before w c

/-- NCCL's `Broadcast` gets six arguments, its second parameter the count. -/
theorem broadcast_nccl_misdelivered :
    let w := World.serving ncclRow (.returning 0)
    let c := Call.broadcast ⟨16⟩ 4 7 0 ⟨48⟩ .null
    ¬ BroadcastDelivered (lastInit (recorded .linux [(w, .init)])) (reached .linux [(w, .init)]) c
      (outputOf .linux (reached .linux [(w, .init)]) w c) := by
  intro w c hdelivered
  have hcall : (outputOf .linux (reached .linux [(w, .init)]) w c).events = [.native ⟨3⟩
      [.ptr ⟨16⟩, .size 4, .int 7, .int 0, .ptr ⟨48⟩, .ptr .null] 0] := by decide
  obtain ⟨-, -, -, f, args, rc, -, -, -, -, hevents, hparams⟩ :=
    hdelivered (by decide) (by decide)
  cases hcall.symm.trans hevents
  cases hparams

end UniCCL
