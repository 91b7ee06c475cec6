import UniCCL.Lib.Mealy
import UniCCL.Model.Loader

/-! # The generic binder and the dispatch table

`unicc_bind.c`, the four per-family files and `unicc_vtable.c`. The binder writes
static pointers first and slots afterwards, each in the order of the source; an
adapter reads its static pointer when it is called, not when it is installed.
-/

namespace UniCCL

open CString

/-! ## Binding -/

/-- `snprintf(sym, sizeof sym, "%s<suffix>", d->name)` and the `dlsym` after it. -/
def resolve (w : World) (handle : Option Handle) (d : BackendInfo) (suffix : CStr) :
    Option FnPtr :=
  w.dlsym handle (symbolName d.name suffix)

/-- The core statics, written before anything is validated. -/
def resolveCore (w : World) (handle : Option Handle) (d : BackendInfo) (s : Statics) :
    Statics :=
  let s := { s with sGetVersion := resolve w handle d (.lit "GetVersion") }
  let s := { s with sAllreduce := resolve w handle d (.lit "AllReduce") }
  let s :=
    if d.broadcastDoubleBuffered then
      { s with sBroadcastDb := resolve w handle d (.lit "Broadcast") }
    else
      { s with sBroadcast := resolve w handle d (.lit "Broadcast") }
  if d.nranksIsSizeT then
    if d.uidKind = .oneccl then
      { s with sRankInitS4096 := resolve w handle d (.lit "CommInitRank") }
    else
      { s with sRankInitS128 := resolve w handle d (.lit "CommInitRank") }
  else
    { s with sRankInitN128 := resolve w handle d (.lit "CommInitRank") }

/-- The condition under which the binder reports missing core symbols. -/
def coreMissing (d : BackendInfo) (s : Statics) : Bool :=
  s.sGetVersion.isNone || s.sAllreduce.isNone ||
    (if d.broadcastDoubleBuffered then s.sBroadcastDb.isNone else s.sBroadcast.isNone) ||
    (if d.nranksIsSizeT then
      (if d.uidKind = .oneccl then s.sRankInitS4096.isNone else s.sRankInitS128.isNone)
    else s.sRankInitN128.isNone)

def installCore (d : BackendInfo) (s : Statics) (t : Vtable) : Vtable :=
  { t with
    getVersion := s.sGetVersion
    allreduce := s.sAllreduce
    broadcast :=
      if d.broadcastDoubleBuffered then some .wrapBroadcastDb
      else s.sBroadcast.map .native
    commInitRank := some <|
      if d.nranksIsSizeT then
        (if d.uidKind = .oneccl then .wrapCommInitRankS4096 else .wrapCommInitRankS128)
      else .wrapCommInitRankN128 }

/-- Each optional symbol is resolved and installed in turn. -/
def bindOptional (w : World) (handle : Option Handle) (d : BackendInfo)
    (s : Statics) (t : Vtable) : Statics × Vtable :=
  let uid := resolve w handle d (.lit "GetUniqueId")
  let (s, t) :=
    if d.uidKind = .oneccl then
      ({ s with sUidGet4096 := uid },
        { t with getUniqueId := if uid.isSome then some .wrapGetUniqueId4096 else none })
    else
      ({ s with sUidGet128 := uid },
        { t with getUniqueId := if uid.isSome then some .wrapGetUniqueId128 else none })
  let s := { s with sCommDestroy := resolve w handle d (.lit "CommDestroy") }
  let t := { t with commDestroy := s.sCommDestroy }
  let s := { s with sCommCount := resolve w handle d (.lit "CommCount") }
  let t := { t with commCount := s.sCommCount }
  let (s, t) :=
    if d.hasCommUserRank then
      let s := { s with sCommUserRank := resolve w handle d (.lit "CommUserRank") }
      (s, { t with commUserRank := s.sCommUserRank })
    else (s, t)
  let s := { s with sGroupStart := resolve w handle d (.lit "GroupStart") }
  let t := { t with groupStart := s.sGroupStart }
  let s := { s with sGroupEnd := resolve w handle d (.lit "GroupEnd") }
  (s, { t with groupEnd := s.sGroupEnd })

/-- `unicc_vtable_bind` after its descriptor row is known. -/
def bindRow (w : World) (handle : Option Handle) (d : BackendInfo) (p : Process) :
    UniccResult × Process :=
  let p := { p with statics := resolveCore w handle d p.statics }
  if coreMissing d p.statics then
    (.errSymbolNotFound, p.eprint (.lit "[UniCCL:ERROR] " ++ d.name ++
      .lit " backend library does not export the required core symbols\n"))
  else
    let p := { p with unicc := installCore d p.statics p.unicc }
    let (s, t) := bindOptional w handle d p.statics p.unicc
    (.ok, { p with statics := s, unicc := t })

def uniccVtableBind (w : World) (handle : Option Handle) (type : BackendType)
    (p : Process) : UniccResult × Process :=
  match familyOf type with
  | some d => bindRow w handle d p
  | none =>
      (.errBackendInitFailed, p.eprint
        (.lit "[UniCCL:ERROR] No binding descriptor for backend type " ++
          .lit (toString type.toNat) ++ .lit "\n"))

def uniccVtableInitNccl (w : World) (handle : Option Handle) (p : Process) :
    UniccResult × Process := uniccVtableBind w handle .nccl p

def uniccVtableInitRccl (w : World) (handle : Option Handle) (p : Process) :
    UniccResult × Process := uniccVtableBind w handle .rccl p

def uniccVtableInitOneccl (w : World) (handle : Option Handle) (p : Process) :
    UniccResult × Process := uniccVtableBind w handle .oneccl p

def uniccVtableInitEccl (w : World) (handle : Option Handle) (p : Process) :
    UniccResult × Process := uniccVtableBind w handle .eccl p

/-! ## The table's lifecycle -/

def uniccGetBackendType (p : Process) : BackendType := p.gBackendType

/-- The switch of `unicc_vtable_init`. -/
def uniccVtableInitFamily (w : World) (handle : Option Handle) (type : BackendType)
    (p : Process) : UniccResult × Process :=
  match type with
  | .nccl => uniccVtableInitNccl w handle p
  | .rccl => uniccVtableInitRccl w handle p
  | .oneccl => uniccVtableInitOneccl w handle p
  | .eccl => uniccVtableInitEccl w handle p
  | .unknown => (.errBackendInitFailed, p.eprint (.lit "[UniCCL:ERROR] Unknown backend type\n"))

def uniccVtableInit (os : Os) (w : World) (handle : Option Handle) (p : Process) :
    UniccResult × Process :=
  let (type, p) := uniccLoaderIdentifyBackend w handle p
  if type = .unknown then
    (.errSymbolNotFound, p.eprint (.lit "[UniCCL:ERROR] Could not identify backend type\n"))
  else
    let (ret, p) := uniccLoaderCheckPlatformSupport os type p
    if ret ≠ .ok then (ret, p)
    else
      let (ret, p) := uniccVtableInitFamily w handle type p
      if ret ≠ .ok then (ret, { p with unicc := .zero })
      else (.ok, { p with gBackendType := type, gBackendHandle := handle })

def uniccVtableCleanup (p : Process) : Process :=
  { p with unicc := .zero, gBackendHandle := none, gBackendType := .unknown }

/-- The two calls `unicc_vtable.h` exposes. -/
inductive VtableCall
  | init (handle : Option Handle)
  | cleanup

/-- The table's lifecycle without the API layer above it. A cleanup returns nothing. -/
def vtableMachine (os : Os) : Mealy (World × VtableCall) Process (Option UniccResult) where
  start := .start
  step p i :=
    match i.2 with
    | .init handle =>
        let (rc, p) := uniccVtableInit os i.1 handle p
        (p, some rc)
    | .cleanup => (uniccVtableCleanup p, none)

/-! ## Adapters -/

/-- `wrap_get_unique_id_128` and `wrap_get_unique_id_4096` differ in the static they
call and in the size of the native id. -/
def wrapGetUniqueId (w : World) (native : Option FnPtr) (bytes : Nat) (id : Ref CommId)
    (p : Process) : Int32 × Ref CommId × Process :=
  let (reply, p) := p.callNative w native [.localUid bytes]
  if reply.rc = 0 then (reply.rc, { id with val := id.val.store bytes reply.uidOut }, p)
  else (reply.rc, id, p)

def wrapGetUniqueId128 (w : World) (id : Ref CommId) (p : Process) :
    Int32 × Ref CommId × Process :=
  wrapGetUniqueId w p.statics.sUidGet128 uniccUniqueIdBytes id p

def wrapGetUniqueId4096 (w : World) (id : Ref CommId) (p : Process) :
    Int32 × Ref CommId × Process :=
  wrapGetUniqueId w p.statics.sUidGet4096 uniccOnecclUniqueIdBytes id p

/-- What the caller's object holds after a native function that may have stored to it. -/
def Ref.updated {α : Type} (r : Ref α) (stored : Option α) : Ref α :=
  { r with val := stored.getD r.val }

/-- The three `wrap_comm_init_rank` adapters differ in the static they call, in the
size of the native id and in the type `nranks` is passed as. -/
def wrapCommInitRank (w : World) (native : Option FnPtr) (bytes : Nat) (nranksArg : CArg)
    (comm : Ref Ptr) (id : Ref CommId) (rank : Int32) (p : Process) :
    Int32 × Ref Ptr × Process :=
  if id.val.len ≠ UInt64.ofNat bytes then (UniccResult.errInvalidArgument.code, comm, p)
  else
    let (reply, p) := p.callNative w native
      [.ptr comm.addr, nranksArg, .uid (id.val.load bytes), .int rank]
    (reply.rc, comm.updated reply.commOut, p)

/-- `(size_t)nranks`. -/
def sizeOfInt (n : Int32) : UInt64 := n.toInt64.toUInt64

def wrapCommInitRankN128 (w : World) (comm : Ref Ptr) (nranks : Int32) (id : Ref CommId)
    (rank : Int32) (p : Process) : Int32 × Ref Ptr × Process :=
  wrapCommInitRank w p.statics.sRankInitN128 uniccUniqueIdBytes (.int nranks) comm id rank p

def wrapCommInitRankS128 (w : World) (comm : Ref Ptr) (nranks : Int32) (id : Ref CommId)
    (rank : Int32) (p : Process) : Int32 × Ref Ptr × Process :=
  wrapCommInitRank w p.statics.sRankInitS128 uniccUniqueIdBytes (.size (sizeOfInt nranks))
    comm id rank p

def wrapCommInitRankS4096 (w : World) (comm : Ref Ptr) (nranks : Int32) (id : Ref CommId)
    (rank : Int32) (p : Process) : Int32 × Ref Ptr × Process :=
  wrapCommInitRank w p.statics.sRankInitS4096 uniccOnecclUniqueIdBytes
    (.size (sizeOfInt nranks)) comm id rank p

def wrapBroadcastDb (w : World) (buf : Ptr) (count : UInt64) (datatype root : Int32)
    (comm stream : Ptr) (p : Process) : Int32 × Process :=
  let (reply, p) := p.callNative w p.statics.sBroadcastDb
    [.ptr buf, .ptr buf, .size count, .int datatype, .int root, .ptr comm, .ptr stream]
  (reply.rc, p)

/-! ## Calls through a slot -/

def GetUniqueIdSlot.call (w : World) (slot : GetUniqueIdSlot) (id : Ref CommId)
    (p : Process) : Int32 × Ref CommId × Process :=
  match slot with
  | .wrapGetUniqueId128 => UniCCL.wrapGetUniqueId128 w id p
  | .wrapGetUniqueId4096 => UniCCL.wrapGetUniqueId4096 w id p

def CommInitRankSlot.call (w : World) (slot : CommInitRankSlot) (comm : Ref Ptr)
    (nranks : Int32) (id : Ref CommId) (rank : Int32) (p : Process) :
    Int32 × Ref Ptr × Process :=
  match slot with
  | .wrapCommInitRankN128 => UniCCL.wrapCommInitRankN128 w comm nranks id rank p
  | .wrapCommInitRankS128 => UniCCL.wrapCommInitRankS128 w comm nranks id rank p
  | .wrapCommInitRankS4096 => UniCCL.wrapCommInitRankS4096 w comm nranks id rank p

def BroadcastSlot.call (w : World) (slot : BroadcastSlot) (buf : Ptr) (count : UInt64)
    (datatype root : Int32) (comm stream : Ptr) (p : Process) : Int32 × Process :=
  match slot with
  | .wrapBroadcastDb => UniCCL.wrapBroadcastDb w buf count datatype root comm stream p
  | .native fn =>
      let (reply, p) := p.callNative w (some fn)
        [.ptr buf, .size count, .int datatype, .int root, .ptr comm, .ptr stream]
      (reply.rc, p)

end UniCCL
