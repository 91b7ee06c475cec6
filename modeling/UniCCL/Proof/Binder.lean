import UniCCL.Proof.Loader

/-! # What the binder does

For any descriptor row the binder either reports a missing core symbol and touches
statics only, or fills the table so that every slot reaches the symbol of its own
operation. The facts that depend on the shipped rows are at the end of the file.
-/

namespace UniCCL

open CString

/-! ## A bound table -/

def UidKind.bytes : UidKind → Nat
  | .nccl => uniccUniqueIdBytes
  | .oneccl => uniccOnecclUniqueIdBytes

/-- The adapter the row's two flags select for `comm_init_rank`. -/
def BackendInfo.rankAdapter (d : BackendInfo) : CommInitRankSlot :=
  if d.nranksIsSizeT then
    (if d.uidKind = .oneccl then .wrapCommInitRankS4096 else .wrapCommInitRankS128)
  else .wrapCommInitRankN128

def BackendInfo.uidAdapter (d : BackendInfo) : GetUniqueIdSlot :=
  if d.uidKind = .oneccl then .wrapGetUniqueId4096 else .wrapGetUniqueId128

/-- The table and the statics under it reach exactly the functions `sym`. -/
structure Bound (sym : Op → Option FnPtr) (d : BackendInfo) (s : Statics) (t : Vtable) :
    Prop where
  core : ∀ op ∈ Op.core, (sym op).isSome
  getVersion : t.getVersion = sym .getVersion
  allreduce : t.allreduce = sym .allreduce
  broadcast : t.broadcast =
    if d.broadcastDoubleBuffered then some .wrapBroadcastDb
    else (sym .broadcast).map .native
  broadcastDb : d.broadcastDoubleBuffered = true → s.sBroadcastDb = sym .broadcast
  commInitRank : t.commInitRank = some d.rankAdapter
  rankStatic : d.rankAdapter.static s = sym .commInitRank
  getUniqueId : t.getUniqueId = if (sym .getUniqueId).isSome then some d.uidAdapter else none
  uidStatic : d.uidAdapter.static s = sym .getUniqueId
  commDestroy : t.commDestroy = sym .commDestroy
  commCount : t.commCount = sym .commCount
  commUserRank : t.commUserRank = sym .commUserRank
  groupStart : t.groupStart = sym .groupStart
  groupEnd : t.groupEnd = sym .groupEnd

namespace Bound

variable {sym : Op → Option FnPtr} {d : BackendInfo} {s : Statics} {t : Vtable}

theorem target (b : Bound sym d s t) (op : Op) : slotTarget s t op = sym op := by
  cases op
  case commInitRank => simp only [slotTarget, b.commInitRank, Option.bind_some, b.rankStatic]
  case broadcast =>
      simp only [slotTarget, b.broadcast]
      by_cases hdb : d.broadcastDoubleBuffered = true
      · rw [if_pos hdb]
        exact b.broadcastDb hdb
      · rw [if_neg hdb]
        cases sym .broadcast <;> rfl
  case getUniqueId =>
      simp only [slotTarget, b.getUniqueId]
      cases h : sym .getUniqueId with
      | none => rfl
      | some f => exact b.uidStatic.trans h
  case getVersion => exact b.getVersion
  case allreduce => exact b.allreduce
  case commDestroy => exact b.commDestroy
  case commCount => exact b.commCount
  case commUserRank => exact b.commUserRank
  case groupStart => exact b.groupStart
  case groupEnd => exact b.groupEnd

theorem table_eq {s' : Statics} {t' : Vtable} (b : Bound sym d s t) (b' : Bound sym d s' t') :
    t = t' := by
  obtain ⟨⟩ := t
  obtain ⟨⟩ := t'
  simp only [Vtable.mk.injEq]
  exact ⟨b.getVersion.trans b'.getVersion.symm, b.commInitRank.trans b'.commInitRank.symm,
    b.allreduce.trans b'.allreduce.symm, b.broadcast.trans b'.broadcast.symm,
    b.getUniqueId.trans b'.getUniqueId.symm, b.commDestroy.trans b'.commDestroy.symm,
    b.commCount.trans b'.commCount.symm, b.commUserRank.trans b'.commUserRank.symm,
    b.groupStart.trans b'.groupStart.symm, b.groupEnd.trans b'.groupEnd.symm⟩

theorem filled (b : Bound sym d s t) (op : Op) : t.filled op = (sym op).isSome := by
  cases op
  case commInitRank =>
      rw [b.core .commInitRank (by decide)]
      simp only [Vtable.filled, b.commInitRank, Option.isSome_some]
  case broadcast =>
      rw [b.core .broadcast (by decide)]
      have hsome := b.core .broadcast (by decide)
      simp only [Vtable.filled, b.broadcast]
      split
      · rfl
      · rw [Option.isSome_map]
        exact hsome
  case getUniqueId =>
      simp only [Vtable.filled, b.getUniqueId]
      cases sym .getUniqueId <;> rfl
  case getVersion => simp only [Vtable.filled, b.getVersion]
  case allreduce => simp only [Vtable.filled, b.allreduce]
  case commDestroy => simp only [Vtable.filled, b.commDestroy]
  case commCount => simp only [Vtable.filled, b.commCount]
  case commUserRank => simp only [Vtable.filled, b.commUserRank]
  case groupStart => simp only [Vtable.filled, b.groupStart]
  case groupEnd => simp only [Vtable.filled, b.groupEnd]

end Bound

/-! ## Binding any row -/

section Row

variable (w : World) (handle : Option Handle) (d : BackendInfo)

def resolved (op : Op) : Option FnPtr :=
  if d.has op then resolve w handle d op.suffix else none

/-- What a bind leaves the slots with: the symbols it looked up, and for an operation
the row lacks what the slot held before. -/
def leftBy (kept : Option FnPtr) (op : Op) : Option FnPtr :=
  if d.has op then resolve w handle d op.suffix else kept

theorem leftBy_none : leftBy w handle d none = resolved w handle d := rfl

theorem leftBy_of_has (kept : Option FnPtr) {op : Op} (h : d.has op = true) :
    leftBy w handle d kept op = resolve w handle d op.suffix := by
  simp [leftBy, h]

theorem resolved_of_has {op : Op} (h : d.has op = true) :
    resolved w handle d op = resolve w handle d op.suffix := by
  simp [resolved, h]

theorem has_of_ne {op : Op} (h : op ≠ .commUserRank) : d.has op = true := by
  simp [BackendInfo.has, h]

theorem resolved_of_ne {op : Op} (h : op ≠ .commUserRank) :
    resolved w handle d op = resolve w handle d op.suffix :=
  resolved_of_has w handle d (has_of_ne d h)

theorem coreMissing_resolveCore (s : Statics) :
    coreMissing d (resolveCore w handle d s) = false ↔
      ∀ op ∈ Op.core, (resolved w handle d op).isSome := by
  have hne : ∀ op ∈ Op.core, op ≠ .commUserRank := by decide
  have hv := resolved_of_ne w handle d (hne .getVersion (by decide))
  have hr := resolved_of_ne w handle d (hne .commInitRank (by decide))
  have ha := resolved_of_ne w handle d (hne .allreduce (by decide))
  have hb := resolved_of_ne w handle d (hne .broadcast (by decide))
  have hall : (∀ op ∈ Op.core, (resolved w handle d op).isSome) ↔
      (((resolve w handle d (.lit "GetVersion")).isSome ∧
        (resolve w handle d (.lit "AllReduce")).isSome) ∧
        (resolve w handle d (.lit "Broadcast")).isSome) ∧
        (resolve w handle d (.lit "CommInitRank")).isSome := by
    simp only [Op.core, List.forall_mem_cons, hv, hr, ha, hb, Op.suffix]
    exact ⟨fun ⟨v, r, a, b, _⟩ => ⟨⟨⟨v, a⟩, b⟩, r⟩,
      fun ⟨⟨⟨v, a⟩, b⟩, r⟩ => ⟨v, r, a, b, by simp⟩⟩
  rw [hall]
  unfold coreMissing resolveCore
  by_cases hdb : d.broadcastDoubleBuffered = true <;>
    by_cases hst : d.nranksIsSizeT = true <;>
    by_cases huk : d.uidKind = .oneccl <;>
    simp only [hdb, hst, huk, if_true, if_false, Bool.false_eq_true, Bool.or_eq_false_iff,
      Option.isNone_eq_false_iff]

/-- Optional binding never touches a static or a slot that core binding wrote. -/
theorem bindOptional_frame (s : Statics) (t : Vtable) :
    let r := bindOptional w handle d s t
    r.2.getVersion = t.getVersion ∧ r.2.commInitRank = t.commInitRank ∧
      r.2.allreduce = t.allreduce ∧ r.2.broadcast = t.broadcast ∧
      r.1.sBroadcastDb = s.sBroadcastDb ∧ r.1.sRankInitN128 = s.sRankInitN128 ∧
      r.1.sRankInitS128 = s.sRankInitS128 ∧ r.1.sRankInitS4096 = s.sRankInitS4096 := by
  unfold bindOptional
  by_cases huk : d.uidKind = .oneccl <;> by_cases hcr : d.hasCommUserRank = true <;>
    simp [huk, hcr]

/-- Each optional slot is what this bind resolved; `comm_user_rank` is left as it was
for a row without it. -/
theorem bindOptional_slots (s : Statics) (t : Vtable) :
    let r := bindOptional w handle d s t
    r.2.getUniqueId =
        (if (resolve w handle d (.lit "GetUniqueId")).isSome then some d.uidAdapter else none) ∧
      d.uidAdapter.static r.1 = resolve w handle d (.lit "GetUniqueId") ∧
      r.2.commDestroy = resolve w handle d (.lit "CommDestroy") ∧
      r.2.commCount = resolve w handle d (.lit "CommCount") ∧
      r.2.commUserRank =
        (if d.hasCommUserRank then resolve w handle d (.lit "CommUserRank")
          else t.commUserRank) ∧
      r.2.groupStart = resolve w handle d (.lit "GroupStart") ∧
      r.2.groupEnd = resolve w handle d (.lit "GroupEnd") := by
  unfold bindOptional BackendInfo.uidAdapter
  by_cases huk : d.uidKind = .oneccl <;> by_cases hcr : d.hasCommUserRank = true <;>
    simp [huk, hcr, GetUniqueIdSlot.static]

theorem resolveCore_values (s : Statics) :
    let r := resolveCore w handle d s
    r.sGetVersion = resolve w handle d (.lit "GetVersion") ∧
      r.sAllreduce = resolve w handle d (.lit "AllReduce") ∧
      (if d.broadcastDoubleBuffered then r.sBroadcastDb else r.sBroadcast) =
        resolve w handle d (.lit "Broadcast") ∧
      d.rankAdapter.static r = resolve w handle d (.lit "CommInitRank") := by
  unfold resolveCore BackendInfo.rankAdapter
  by_cases hdb : d.broadcastDoubleBuffered = true <;>
    by_cases hst : d.nranksIsSizeT = true <;>
    by_cases huk : d.uidKind = .oneccl <;>
    simp [hdb, hst, huk, CommInitRankSlot.static]

/-- A row whose core symbols resolve is bound, whatever the statics and the table held
before; only the slot of an operation the row lacks is left as it was. -/
theorem bindRow_of_core (p : Process)
    (hcore : ∀ op ∈ Op.core, (resolved w handle d op).isSome) :
    ∃ s t, bindRow w handle d p = (.ok, { p with statics := s, unicc := t }) ∧
      Bound (leftBy w handle d p.unicc.commUserRank) d s t := by
  have hmissing := (coreMissing_resolveCore w handle d p.statics).mpr hcore
  let s₁ := resolveCore w handle d p.statics
  let t₁ := installCore d s₁ p.unicc
  have hvalues := resolveCore_values w handle d p.statics
  have hframe := bindOptional_frame w handle d s₁ t₁
  have hslots := bindOptional_slots w handle d s₁ t₁
  refine ⟨(bindOptional w handle d s₁ t₁).1, (bindOptional w handle d s₁ t₁).2, ?_, ?_⟩
  · simp only [bindRow, hmissing, Bool.false_eq_true, if_false]
    rfl
  obtain ⟨hgv, hcr, har, hbc, hdb, hn, hs, hl⟩ := hframe
  obtain ⟨hid, hidStatic, hdestroy, hcount, hrank, hstart, hend⟩ := hslots
  obtain ⟨vgv, var, vbc, vcr⟩ := hvalues
  have hres : ∀ op, op ≠ .commUserRank →
      leftBy w handle d p.unicc.commUserRank op = resolve w handle d op.suffix :=
    fun op h => leftBy_of_has w handle d _ (has_of_ne d h)
  have hne : ∀ op ∈ Op.core, op ≠ .commUserRank := by decide
  constructor
  case core =>
      intro op hop
      have hsome := hcore op hop
      rw [resolved_of_ne w handle d (hne op hop)] at hsome
      rw [hres op (hne op hop)]
      exact hsome
  case getVersion =>
      rw [hgv, hres _ (by decide)]
      exact vgv
  case allreduce =>
      rw [har, hres _ (by decide)]
      exact var
  case broadcast =>
      rw [hbc, hres _ (by decide)]
      by_cases h : d.broadcastDoubleBuffered = true
      · simp [t₁, installCore, h]
      · simp only [h, Bool.false_eq_true, if_false] at vbc
        simp only [t₁, installCore, h, Bool.false_eq_true, if_false]
        exact congrArg _ vbc
  case broadcastDb =>
      intro h
      rw [hdb, hres _ (by decide)]
      simp only [h, if_true] at vbc
      exact vbc
  case commInitRank =>
      rw [hcr]
      rfl
  case rankStatic =>
      rw [hres _ (by decide)]
      refine Eq.trans ?_ vcr
      cases d.rankAdapter <;> assumption
  case getUniqueId =>
      rw [hres _ (by decide)]
      exact hid
  case uidStatic =>
      rw [hres _ (by decide)]
      exact hidStatic
  case commDestroy =>
      rw [hres _ (by decide)]
      exact hdestroy
  case commCount =>
      rw [hres _ (by decide)]
      exact hcount
  case commUserRank =>
      rw [hrank]
      by_cases h : d.hasCommUserRank = true
      · simp [leftBy, BackendInfo.has, h, Op.suffix]
      · simp [leftBy, BackendInfo.has, h, t₁, installCore]
  case groupStart =>
      rw [hres _ (by decide)]
      exact hstart
  case groupEnd =>
      rw [hres _ (by decide)]
      exact hend

theorem bindRow_of_missing (p : Process)
    (hcore : ¬ ∀ op ∈ Op.core, (resolved w handle d op).isSome) :
    ∃ s p', bindRow w handle d p = (.errSymbolNotFound, p') ∧
      p'.quiet = { p.quiet with statics := s } := by
  have hmissing : coreMissing d (resolveCore w handle d p.statics) = true := by
    rw [← Bool.not_eq_false, coreMissing_resolveCore]
    exact hcore
  simp only [bindRow, hmissing, if_true]
  refine ⟨resolveCore w handle d p.statics, _, rfl, ?_⟩
  rw [Process.eprint_quiet]
  rfl

end Row

/-! ## The shipped rows -/

/-- No symbol of a shipped family is cut off by the 96-byte buffer. -/
theorem symbolName_row {d : BackendInfo} (hd : d ∈ uniccBackends) (op : Op) :
    symbolName d.name op.suffix = d.symbol op := by
  have hall : ∀ d ∈ uniccBackends, d.name.strlen ≤ 6 := by decide
  have hname := hall d hd
  have hop : op.suffix.strlen ≤ 12 := by cases op <;> decide
  refine CharArray.formatted_of_lt ?_
  rw [CStr.strlen_append, symCap]
  omega

theorem uidBytes_row {d : BackendInfo} (hd : d ∈ uniccBackends) :
    d.uidBytes = UInt64.ofNat d.uidKind.bytes := by
  have hall : ∀ d ∈ uniccBackends, d.uidBytes = UInt64.ofNat d.uidKind.bytes := by decide
  exact hall d hd

theorem sizeT_of_oneccl {d : BackendInfo} (hd : d ∈ uniccBackends)
    (h : d.uidKind = .oneccl) : d.nranksIsSizeT = true := by
  have hall : ∀ d ∈ uniccBackends, d.uidKind = .oneccl → d.nranksIsSizeT = true := by decide
  exact hall d hd h

theorem resolve_row {w : World} {handle : Option Handle} {d : BackendInfo}
    (hd : d ∈ uniccBackends) (op : Op) :
    resolve w handle d op.suffix = w.dlsym handle (d.symbol op) := by
  unfold resolve
  rw [symbolName_row hd]

theorem resolved_row {w : World} {h : Handle} {d : BackendInfo} (hd : d ∈ uniccBackends) :
    resolved w (some h) d = backing w h d := by
  funext op
  unfold resolved backing resolve
  rw [symbolName_row hd]

theorem backing_some {w : World} {h : Handle} {d : BackendInfo} {op : Op} {f : FnPtr}
    (hf : backing w h d op = some f) : w.dlsym (some h) (d.name ++ op.suffix) = some f := by
  unfold backing at hf
  by_cases hhas : d.has op = true
  · rw [if_pos hhas] at hf
    exact hf
  · rw [if_neg hhas] at hf
    cases hf

theorem leftBy_row {w : World} {h : Handle} {d : BackendInfo} (hd : d ∈ uniccBackends)
    {kept : Option FnPtr} (hkept : d.hasCommUserRank = false → kept = none) :
    leftBy w (some h) d kept = backing w h d := by
  rw [← resolved_row hd]
  funext op
  unfold leftBy resolved
  by_cases hhas : d.has op = true
  · rw [if_pos hhas, if_pos hhas]
  · have hflag : d.hasCommUserRank = false := by
      simp only [BackendInfo.has, Bool.or_eq_true, not_or, Bool.not_eq_true] at hhas
      exact hhas.1
    rw [if_neg hhas, if_neg hhas, hkept hflag]

theorem has_of_backing {w : World} {h : Handle} {d : BackendInfo} {op : Op}
    (hsome : (backing w h d op).isSome) : d.has op = true := by
  unfold backing at hsome
  by_cases hhas : d.has op = true
  · exact hhas
  · rw [if_neg hhas] at hsome
    cases hsome

theorem uniccVtableInitFamily_row {w : World} {handle : Option Handle} {d : BackendInfo}
    (hd : d ∈ uniccBackends) (p : Process) :
    uniccVtableInitFamily w handle d.type p = bindRow w handle d p := by
  have hfam := familyOf_type hd
  have hne := type_ne_unknown hd
  unfold uniccVtableInitFamily
  cases ht : d.type with
  | unknown => exact absurd ht hne
  | nccl => simp [uniccVtableInitNccl, uniccVtableBind, ← ht, hfam]
  | rccl => simp [uniccVtableInitRccl, uniccVtableBind, ← ht, hfam]
  | oneccl => simp [uniccVtableInitOneccl, uniccVtableBind, ← ht, hfam]
  | eccl => simp [uniccVtableInitEccl, uniccVtableBind, ← ht, hfam]

theorem resolved_core_iff {w : World} {handle : Option Handle} {d : BackendInfo}
    (hd : d ∈ uniccBackends) :
    (∀ op ∈ Op.core, (resolved w handle d op).isSome) ↔
      ∀ op ∈ Op.core, (w.dlsym handle (d.symbol op)).isSome := by
  have hne : ∀ op ∈ Op.core, op ≠ .commUserRank := by decide
  have hsymbol : ∀ op ∈ Op.core, resolved w handle d op = w.dlsym handle (d.symbol op) := by
    intro op hop
    rw [resolved_of_ne w handle d (hne op hop), resolve_row hd]
  constructor
  · intro hall op hop
    rw [← hsymbol op hop]
    exact hall op hop
  · intro hall op hop
    rw [hsymbol op hop]
    exact hall op hop

/-! ## The branches of `unicc_vtable_init` -/

section VtableInit

variable {os : Os} {w : World} {h : Handle} {d : BackendInfo}

theorem uniccVtableInit_of_null (os : Os) (w : World) (p : Process) :
    ∃ p', uniccVtableInit os w none p = (.errSymbolNotFound, p') ∧ p'.quiet = p.quiet := by
  simp only [uniccVtableInit, uniccLoaderIdentifyBackend, if_true]
  exact ⟨_, rfl, by simp⟩

theorem uniccVtableInit_of_unidentified (os : Os) (p : Process)
    (hrow : probedRow w (some h) = none) :
    ∃ p', uniccVtableInit os w (some h) p = (.errSymbolNotFound, p') ∧
      p'.quiet = p.quiet := by
  obtain ⟨q, hid, hq⟩ := uniccLoaderIdentifyBackend_of_none (p := p) hrow
  simp only [uniccVtableInit, hid, if_true]
  exact ⟨_, rfl, by simp [hq]⟩

theorem uniccVtableInit_of_unsupported (p : Process) (hrow : probedRow w (some h) = some d)
    (hos : backendSupportedOnPlatform os d.type = false) :
    ∃ p', uniccVtableInit os w (some h) p = (.errBackendNotSupported, p') ∧
      p'.quiet = p.quiet := by
  have hd := probedRow_mem hrow
  obtain ⟨q, hid, hq⟩ := uniccLoaderIdentifyBackend_of_some (p := p) hrow
  simp only [uniccVtableInit, hid, type_ne_unknown hd, if_false,
    uniccLoaderCheckPlatformSupport, hos, Bool.false_eq_true, ne_eq, reduceCtorEq,
    not_false_eq_true, if_true]
  exact ⟨_, rfl, by simp [hq]⟩

theorem uniccVtableInit_of_core (p : Process) (hrow : probedRow w (some h) = some d)
    (hos : backendSupportedOnPlatform os d.type = true) (hcore : Complete w h d) :
    ∃ s t p', uniccVtableInit os w (some h) p = (.ok, p') ∧
      p'.quiet = { p.quiet with
        statics := s, unicc := t, gBackendType := d.type, gBackendHandle := some h } ∧
      Bound (leftBy w (some h) d p.unicc.commUserRank) d s t := by
  have hd := probedRow_mem hrow
  obtain ⟨q, hid, hq⟩ := uniccLoaderIdentifyBackend_of_some (p := p) hrow
  have hquser : q.quiet.unicc.commUserRank = p.unicc.commUserRank := by
    rw [hq]
    rfl
  obtain ⟨s, t, hbind, hbound⟩ :=
    bindRow_of_core w (some h) d q ((resolved_core_iff hd).mpr hcore)
  have hkept : Bound (leftBy w (some h) d q.quiet.unicc.commUserRank) d s t := hbound
  rw [hquser] at hkept
  refine ⟨s, t,
    { q with statics := s, unicc := t, gBackendType := d.type, gBackendHandle := some h },
    ?_, ?_, hkept⟩
  · simp only [uniccVtableInit, hid, type_ne_unknown hd, if_false,
      uniccLoaderCheckPlatformSupport, hos, if_true, ne_eq,
      not_true_eq_false, uniccVtableInitFamily_row hd, hbind]
  · rw [← hq]
    rfl

theorem uniccVtableInit_of_missing (p : Process) (hrow : probedRow w (some h) = some d)
    (hos : backendSupportedOnPlatform os d.type = true) (hcore : ¬ Complete w h d) :
    ∃ s p', uniccVtableInit os w (some h) p = (.errSymbolNotFound, p') ∧
      p'.quiet = { p.quiet with statics := s, unicc := .zero } := by
  have hd := probedRow_mem hrow
  obtain ⟨q, hid, hq⟩ := uniccLoaderIdentifyBackend_of_some (p := p) hrow
  obtain ⟨s, q', hbind, hq'⟩ :=
    bindRow_of_missing w (some h) d q fun hall => hcore ((resolved_core_iff hd).mp hall)
  refine ⟨s, { q' with unicc := .zero }, ?_, ?_⟩
  · simp only [uniccVtableInit, hid, type_ne_unknown hd, if_false,
      uniccLoaderCheckPlatformSupport, hos, if_true, ne_eq,
      not_true_eq_false, uniccVtableInitFamily_row hd, hbind]
    rfl
  · have hstep : ({ q' with unicc := Vtable.zero } : Process).quiet =
        { q'.quiet with unicc := .zero } := rfl
    rw [hstep, hq', hq]

theorem uniccVtableInit_accepted {handle : Option Handle} (hacc : Accepts os w handle d)
    (p : Process) :
    ∃ p', uniccVtableInit os w handle p = (.ok, p') ∧ p'.gBackendType = d.type ∧
      Bound (leftBy w handle d p.unicc.commUserRank) d p'.statics p'.unicc := by
  obtain ⟨h, rfl, hid, hos, hcore⟩ := hacc
  obtain ⟨s, t, p', hinit, hp', hbound⟩ :=
    uniccVtableInit_of_core p (probedRow_iff.mpr hid) hos hcore
  have htype := congrArg Process.gBackendType hp'
  have hstatics : p'.statics = s := congrArg Process.statics hp'
  have htable : p'.unicc = t := congrArg Process.unicc hp'
  rw [← hstatics, ← htable] at hbound
  exact ⟨p', hinit, htype, hbound⟩

/-- A library that is refused changes no type; the table is kept or cleared, depending
on how far the call came. -/
theorem uniccVtableInit_refused {handle : Option Handle} (hno : ∀ d, ¬ Accepts os w handle d)
    (p : Process) :
    ∃ rc p', uniccVtableInit os w handle p = (rc, p') ∧ rc ≠ .ok ∧
      p'.gBackendType = p.gBackendType ∧ (p'.unicc = p.unicc ∨ p'.unicc = .zero) := by
  have hkept : ∀ {p' : Process}, p'.quiet = p.quiet →
      p'.gBackendType = p.gBackendType ∧ (p'.unicc = p.unicc ∨ p'.unicc = .zero) := by
    intro p' hp'
    have htype := congrArg Process.gBackendType hp'
    have htable := congrArg Process.unicc hp'
    exact ⟨htype, .inl htable⟩
  cases handle with
  | none =>
      obtain ⟨p', hinit, hp'⟩ := uniccVtableInit_of_null os w p
      exact ⟨_, p', hinit, by decide, hkept hp'⟩
  | some h =>
      cases hrow : probedRow w (some h) with
      | none =>
          obtain ⟨p', hinit, hp'⟩ := uniccVtableInit_of_unidentified os p hrow
          exact ⟨_, p', hinit, by decide, hkept hp'⟩
      | some d =>
          cases hos : backendSupportedOnPlatform os d.type with
          | false =>
              obtain ⟨p', hinit, hp'⟩ := uniccVtableInit_of_unsupported p hrow hos
              exact ⟨_, p', hinit, by decide, hkept hp'⟩
          | true =>
              have hcore : ¬ Complete w h d := fun hcore =>
                hno d ⟨h, rfl, probedRow_identifies hrow, hos, hcore⟩
              obtain ⟨s, p', hinit, hp'⟩ := uniccVtableInit_of_missing p hrow hos hcore
              have htype := congrArg Process.gBackendType hp'
              have htable := congrArg Process.unicc hp'
              exact ⟨_, p', hinit, by decide, htype, .inr htable⟩

end VtableInit

end UniCCL
