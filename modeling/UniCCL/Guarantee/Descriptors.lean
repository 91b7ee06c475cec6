import UniCCL.Proof.Serving

/-! # Descriptor rows beyond the table

The binder works from the row alone. For which rows, shipped or not, do the two id
adapters it selects fit together, and which names survive the symbol buffer?
-/

namespace UniCCL

open CString

/-! ## What a row is to give -/

def ExportsAll (w : World) (handle : Option Handle) (d : BackendInfo) : Prop :=
  ∀ op, d.has op = true → (w.dlsym handle (d.symbol op)).isSome

/-- Every id the `get_unique_id` slot produces has the row's length, and the
`comm_init_rank` slot passes the bytes the native function wrote to the native
`CommInitRank`. -/
def IdsAccepted (w : World) (handle : Option Handle) (d : BackendInfo) (p : Process) : Prop :=
  ∃ g c fUid fInit, p.unicc.getUniqueId = some g ∧ p.unicc.commInitRank = some c ∧
    w.dlsym handle (d.symbol .getUniqueId) = some fUid ∧
    w.dlsym handle (d.symbol .commInitRank) = some fInit ∧
    ∀ (wA : World) (id : Ref CommId),
      let reply := wA.invoke fUid [.localUid d.uidBytes.toNat]
      let made := g.call wA id p
      made.1 = reply.rc ∧ (made.1 = 0 → made.2.1.val.len = d.uidBytes ∧
        ∀ (wB : World) (comm : Ref Ptr) (nranks rank : Int32), ∃ nranksArg,
          let args := [.ptr comm.addr, nranksArg,
            .uid ((List.range d.uidBytes.toNat).map reply.uidOut), .int rank]
          let joined := c.call wB comm nranks made.2.1 rank made.2.2
          joined.1 = (wB.invoke fInit args).rc ∧
            joined.2.2.log = made.2.2.log ++ [.native fInit args (wB.invoke fInit args).rc])

/-- Binding any library that has the row's symbols gives a table whose ids are accepted. -/
def BindsCoherently (d : BackendInfo) : Prop :=
  ∀ (w : World) (handle : Option Handle) (p : Process), ExportsAll w handle d →
    (bindRow w handle d p).1 = .ok ∧ IdsAccepted w handle d (bindRow w handle d p).2

/-! ## Names and the symbol buffer -/

/-- The longest symbol the binder needs fits `sym` with its terminator. -/
def NameFits (d : BackendInfo) : Prop :=
  (d.symbol .commInitRank).strlen < symCap

theorem symbolName_of_fits {d : BackendInfo} (hfits : NameFits d) (op : Op) :
    symbolName d.name op.suffix = d.symbol op := by
  have hop : op.suffix.strlen ≤ Op.commInitRank.suffix.strlen := by cases op <;> decide
  refine CharArray.formatted_of_lt ?_
  unfold NameFits BackendInfo.symbol at hfits
  rw [CStr.strlen_append] at hfits ⊢
  omega

theorem not_fits_iff {d : BackendInfo} : ¬ NameFits d ↔ 84 ≤ d.name.strlen := by
  have hsuffix : Op.commInitRank.suffix.strlen = 12 := by decide
  unfold NameFits BackendInfo.symbol
  rw [CStr.strlen_append, hsuffix, symCap]
  omega

/-- A name that does not fit leaves the symbol cut off, and no symbol of the family is
another one cut off. -/
theorem symbolName_ne_of_long {d : BackendInfo} (hlong : ¬ NameFits d) (op : Op) :
    d.symbol op ≠ symbolName d.name Op.commInitRank.suffix := by
  have hprefix : ∀ op : Op,
      op.suffix.bytes = Op.commInitRank.suffix.bytes.take op.suffix.bytes.length →
        op.suffix.bytes.length = 12 := by
    intro op
    cases op <;> decide
  intro he
  have hbytes : d.name.bytes ++ op.suffix.bytes =
      (d.name.bytes ++ Op.commInitRank.suffix.bytes).take 95 := congrArg CStr.bytes he
  have hname : 84 ≤ d.name.bytes.length := not_fits_iff.mp hlong
  have hcut : Op.commInitRank.suffix.bytes.length = 12 := by decide
  have hlen := congrArg List.length hbytes
  rw [List.length_take, List.length_append, List.length_append, hcut] at hlen
  have hsize : 95 - d.name.bytes.length = op.suffix.bytes.length := by omega
  rw [List.take_append, List.take_of_length_le (by omega), hsize] at hbytes
  have hfull := hprefix op (List.append_cancel_left hbytes)
  omega

/-! ## The rows that bind coherently -/

theorem bindRow_ok {w : World} {handle : Option Handle} {d : BackendInfo} {p : Process}
    (hok : (bindRow w handle d p).1 = .ok) :
    (∀ op ∈ Op.core, (resolved w handle d op).isSome) ∧
      Bound (leftBy w handle d p.unicc.commUserRank) d
        (bindRow w handle d p).2.statics (bindRow w handle d p).2.unicc := by
  by_cases hcore : ∀ op ∈ Op.core, (resolved w handle d op).isSome
  · obtain ⟨s, t, hbind, hbound⟩ := bindRow_of_core w handle d p hcore
    rw [hbind]
    exact ⟨hcore, hbound⟩
  · obtain ⟨s, p', hbind, -⟩ := bindRow_of_missing w handle d p hcore
    rw [hbind] at hok
    cases hok

theorem exportsAll_serving (d : BackendInfo) (reply : NativeReply) (handle : Option Handle) :
    ExportsAll (World.serving d reply) handle d :=
  fun op _ => serving_exports handle op

theorem fits_of_coherent {d : BackendInfo} (hcoh : BindsCoherently d) : NameFits d := by
  by_contra hlong
  have hbind := hcoh (World.serving d (.returning 0)) none .start (exportsAll_serving d _ none)
  have hcore := (bindRow_ok hbind.1).1 .commInitRank (by decide)
  rw [resolved_of_ne _ _ _ (by decide), resolve, serving_isSome_iff] at hcore
  obtain ⟨op, -, hsymbol⟩ := hcore
  exact symbolName_ne_of_long hlong op hsymbol

/-- A row whose flags select an adapter for another id is refused by its own adapter. -/
theorem bytes_of_coherent {d : BackendInfo} (hbytes : d.uidBytes = UInt64.ofNat d.uidKind.bytes)
    (hcoh : BindsCoherently d) : d.rankAdapter.bytes = d.uidKind.bytes := by
  let w := World.serving d (.returning 0)
  obtain ⟨hok, g, c, fUid, fInit, hg, hc, -, -, hids⟩ :=
    hcoh w none .start (exportsAll_serving d _ none)
  have hbound := (bindRow_ok hok).2
  have hslot := hbound.commInitRank
  rw [hc] at hslot
  cases hslot
  obtain ⟨hrc, hmade⟩ := hids w ⟨⟨16⟩, ⟨0, fun _ => 0⟩⟩
  obtain ⟨hlen, haccept⟩ := hmade hrc
  obtain ⟨nranksArg, hjoined, -⟩ := haccept w ⟨⟨32⟩, .null⟩ 1 0
  rw [CommInitRankSlot.call_eq] at hjoined
  by_contra hne
  have hother : (g.call w ⟨⟨16⟩, ⟨0, fun _ => 0⟩⟩ (bindRow w none d .start).2).2.1.val.len ≠
      UInt64.ofNat d.rankAdapter.bytes := by
    rw [hlen, hbytes]
    intro he
    have hnat := congrArg UInt64.toNat he
    rw [UidKind.toNat_bytes, CommInitRankSlot.toNat_bytes] at hnat
    exact hne hnat.symm
  rw [wrapCommInitRank, if_pos hother] at hjoined
  have hcode : UniccResult.errInvalidArgument.code = 0 := hjoined
  exact absurd hcode (by decide)

theorem idsAccepted_of_bound {sym : Op → Option FnPtr} {w : World} {handle : Option Handle}
    {d : BackendInfo} {p : Process} {fUid fInit : FnPtr}
    (hbytes : d.uidBytes = UInt64.ofNat d.uidKind.bytes)
    (hadapters : d.rankAdapter.bytes = d.uidKind.bytes) (hbound : Bound sym d p.statics p.unicc)
    (hsymUid : sym .getUniqueId = some fUid) (hsymInit : sym .commInitRank = some fInit)
    (hUid : w.dlsym handle (d.symbol .getUniqueId) = some fUid)
    (hInit : w.dlsym handle (d.symbol .commInitRank) = some fInit) :
    IdsAccepted w handle d p := by
  have hslotUid : p.unicc.getUniqueId = some d.uidAdapter := by
    rw [hbound.getUniqueId, hsymUid]
    rfl
  have hsize : d.uidBytes.toNat = d.uidKind.bytes := by
    rw [hbytes, UidKind.toNat_bytes]
  have hmax : d.uidKind.bytes ≤ uniccCommIdMax := by cases d.uidKind <;> decide
  refine ⟨d.uidAdapter, d.rankAdapter, fUid, fInit, hslotUid, hbound.commInitRank, hUid, hInit,
    ?_⟩
  intro wA id
  have hmade : d.uidAdapter.call wA id p =
      wrapGetUniqueId wA (some fUid) d.uidKind.bytes id p := by
    rw [GetUniqueIdSlot.call_eq, uidAdapter_bytes, hbound.uidStatic.trans hsymUid]
  rw [hsize, hmade, wrapGetUniqueId_some]
  refine ⟨rfl, ?_⟩
  intro hrc
  have hrc' : (wA.invoke fUid [.localUid d.uidKind.bytes]).rc = 0 := hrc
  simp only [if_pos hrc']
  refine ⟨hbytes.symm, ?_⟩
  intro wB comm nranks rank
  refine ⟨d.rankAdapter.nranksArg nranks, ?_⟩
  have hload :
      (id.val.store d.uidKind.bytes (wA.invoke fUid [.localUid d.uidKind.bytes]).uidOut).load
        d.uidKind.bytes = (List.range d.uidKind.bytes).map
          (wA.invoke fUid [.localUid d.uidKind.bytes]).uidOut :=
    CommId.load_of_agree hmax fun k hk => if_pos hk
  have hjoined : ∀ q : Process, q.statics = p.statics → ∀ received : Ref CommId,
      received.val.len = UInt64.ofNat d.uidKind.bytes →
      d.rankAdapter.call wB comm nranks received rank q =
        let args := [.ptr comm.addr, d.rankAdapter.nranksArg nranks,
          .uid (received.val.load d.uidKind.bytes), .int rank]
        ((wB.invoke fInit args).rc, comm.updated (wB.invoke fInit args).commOut,
          q.record (.native fInit args (wB.invoke fInit args).rc)) := by
    intro q hq received hlen
    rw [CommInitRankSlot.call_eq, hq, hbound.rankStatic.trans hsymInit, hadapters,
      wrapCommInitRank_some]
    exact if_pos hlen
  rw [← hload, hjoined (p.record _) rfl _ rfl]
  exact ⟨rfl, rfl⟩

theorem coherent_of_fits {d : BackendInfo} (hbytes : d.uidBytes = UInt64.ofNat d.uidKind.bytes)
    (hfits : NameFits d) (hadapters : d.rankAdapter.bytes = d.uidKind.bytes) :
    BindsCoherently d := by
  intro w handle p hexports
  have hresolve : ∀ op, resolve w handle d op.suffix = w.dlsym handle (d.symbol op) := by
    intro op
    rw [resolve, symbolName_of_fits hfits]
  have hne : ∀ op ∈ Op.core, op ≠ .commUserRank := by decide
  have hcore : ∀ op ∈ Op.core, (resolved w handle d op).isSome := by
    intro op hop
    rw [resolved_of_ne w handle d (hne op hop), hresolve]
    exact hexports op (has_of_ne d (hne op hop))
  obtain ⟨s, t, hbind, hbound⟩ := bindRow_of_core w handle d p hcore
  have hhasUid : d.has .getUniqueId = true := has_of_ne d (by decide)
  have hhasInit : d.has .commInitRank = true := has_of_ne d (by decide)
  obtain ⟨fUid, hUid⟩ := Option.isSome_iff_exists.mp (hexports .getUniqueId hhasUid)
  obtain ⟨fInit, hInit⟩ := Option.isSome_iff_exists.mp (hexports .commInitRank hhasInit)
  have hleft : ∀ op, d.has op = true →
      leftBy w handle d p.unicc.commUserRank op = w.dlsym handle (d.symbol op) := by
    intro op hhas
    rw [leftBy_of_has w handle d _ hhas, hresolve]
  rw [hbind]
  exact ⟨rfl, idsAccepted_of_bound hbytes hadapters hbound ((hleft _ hhasUid).trans hUid)
    ((hleft _ hhasInit).trans hInit) hUid hInit⟩

/-- A row with an id size of its own kind is bound coherently to every library with its
symbols exactly when its name fits and the large id comes with `size_t` ranks. -/
theorem binds_coherently_iff (d : BackendInfo)
    (hbytes : d.uidBytes = UInt64.ofNat d.uidKind.bytes) :
    BindsCoherently d ↔
      (d.symbol .commInitRank).strlen < symCap ∧
        (d.uidKind = .oneccl → d.nranksIsSizeT = true) := by
  rw [← rankAdapter_bytes_iff]
  exact ⟨fun hcoh => ⟨fits_of_coherent hcoh, bytes_of_coherent hbytes hcoh⟩,
    fun ⟨hfits, hadapters⟩ => coherent_of_fits hbytes hfits hadapters⟩

def intRankRow : BackendInfo :=
  { onecclRow with name := .lit "xccl", nranksIsSizeT := false }

theorem int_rank_row_incoherent :
    intRankRow.uidBytes = UInt64.ofNat intRankRow.uidKind.bytes ∧
      ¬ BindsCoherently intRankRow := by
  have hbytes : intRankRow.uidBytes = UInt64.ofNat intRankRow.uidKind.bytes := by decide
  refine ⟨hbytes, fun hcoh => ?_⟩
  exact absurd (bytes_of_coherent hbytes hcoh) (by decide)

theorem binds_coherently_iff_mccl :
    BindsCoherently { ecclRow with name := .lit "mccl", hasCommUserRank := true } :=
  (binds_coherently_iff _ (by decide)).mpr (by decide)

end UniCCL
