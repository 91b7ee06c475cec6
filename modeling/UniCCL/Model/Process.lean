import UniCCL.Lib.Decimal
import UniCCL.Model.Backends

/-! # The state of a process that links the wrapper

The globals of `unicc_api.c`, `unicc_vtable.c` and `unicc_bind.c`, the message
buffer of `dlerror`, and the events of the API call in progress. Each field keeps
the name it has in the source.
-/

namespace UniCCL

open CString

/-- The adapters a `comm_init_rank` slot may hold. -/
inductive CommInitRankSlot
  | wrapCommInitRankN128
  | wrapCommInitRankS128
  | wrapCommInitRankS4096
deriving DecidableEq, Repr

/-- A `get_unique_id` slot holds one of the two adapters. -/
inductive GetUniqueIdSlot
  | wrapGetUniqueId128
  | wrapGetUniqueId4096
deriving DecidableEq, Repr

/-- A `broadcast` slot holds the native in-place function or the adapter over the
double-buffered one. -/
inductive BroadcastSlot
  | native (fn : FnPtr)
  | wrapBroadcastDb
deriving DecidableEq, Repr

/-- `unicc_vtable_t`; `none` is a NULL slot. -/
structure Vtable where
  getVersion : Option FnPtr
  commInitRank : Option CommInitRankSlot
  allreduce : Option FnPtr
  broadcast : Option BroadcastSlot
  getUniqueId : Option GetUniqueIdSlot
  commDestroy : Option FnPtr
  commCount : Option FnPtr
  commUserRank : Option FnPtr
  groupStart : Option FnPtr
  groupEnd : Option FnPtr
deriving DecidableEq

def Vtable.zero : Vtable := ⟨none, none, none, none, none, none, none, none, none, none⟩

/-- The fourteen static native pointers of `unicc_bind.c`. -/
structure Statics where
  sGetVersion : Option FnPtr
  sAllreduce : Option FnPtr
  sBroadcast : Option FnPtr
  sBroadcastDb : Option FnPtr
  sRankInitN128 : Option FnPtr
  sRankInitS128 : Option FnPtr
  sRankInitS4096 : Option FnPtr
  sUidGet128 : Option FnPtr
  sUidGet4096 : Option FnPtr
  sCommDestroy : Option FnPtr
  sCommCount : Option FnPtr
  sCommUserRank : Option FnPtr
  sGroupStart : Option FnPtr
  sGroupEnd : Option FnPtr
deriving DecidableEq

def Statics.zero : Statics :=
  ⟨none, none, none, none, none, none, none, none, none, none, none, none, none, none⟩

/-- `unicc_state_t`. -/
inductive UniccState
  | uninit
  | init
deriving DecidableEq, Repr

/-- `sizeof(g_lib_path)`. -/
abbrev libPathCap : Nat := 256

structure Process where
  gState : UniccState
  gHandle : Option Handle
  gLastBackendResult : Int32
  gLibPath : CharArray libPathCap
  unicc : Vtable
  gBackendHandle : Option Handle
  gBackendType : BackendType
  statics : Statics
  /-- the buffer `dlerror` hands out a reference to, once there is a message in it -/
  dlerrorBuf : Option CStr
  /-- what `GetLastError` returns -/
  lastError : UInt32
  log : List Event

namespace Process

/-- The static initializers. -/
def start : Process where
  gState := .uninit
  gHandle := none
  gLastBackendResult := 0
  gLibPath := .zero libPathCap
  unicc := .zero
  gBackendHandle := none
  gBackendType := .unknown
  statics := .zero
  dlerrorBuf := none
  lastError := 0
  log := []

def record (p : Process) (e : Event) : Process := { p with log := p.log ++ [e] }

/-- `fprintf(stderr, ...)`. -/
def eprint (p : Process) (text : CStr) : Process := p.record (.stderr text)

/-! ## Libdl -/

/-- `dlopen`: a failure overwrites the message buffer. -/
def dlopen (w : World) (name : CStr) (p : Process) : Option Handle × Process :=
  match w.dlopen name with
  | some h => (some h, p.record (.dlopen name (some h)))
  | none =>
      (none, { p.record (.dlopen name none) with dlerrorBuf := some (w.dlerrorText name) })

/-- `dlsym`: a failure overwrites the message buffer. -/
def dlsym (w : World) (handle : Option Handle) (symbol : CStr) (p : Process) :
    Option FnPtr × Process :=
  match w.dlsym handle symbol with
  | some f => (some f, p)
  | none => (none, { p with dlerrorBuf := some (w.dlsymText handle symbol) })

def dlclose (handle : Option Handle) (p : Process) : Process :=
  match handle with
  | some h => p.record (.dlclose h)
  | none => p

/-- What `dlerror` returns points into the shared buffer. -/
inductive DlerrorRef
  | buffer
deriving DecidableEq

/-- `dlerror`, NULL when nothing has failed. -/
def dlerror (p : Process) : Option DlerrorRef := p.dlerrorBuf.map fun _ => .buffer

/-- The text a `dlerror` reference points to now. -/
def readDlerror (p : Process) : DlerrorRef → CStr
  | .buffer => p.dlerrorBuf.getD .empty

/-! ## The platform layer -/

/-- `LoadLibraryA`: a failure leaves an error code and no message. -/
def loadLibrary (w : World) (name : CStr) (p : Process) : Option Handle × Process :=
  match w.dlopen name with
  | some h => (some h, p.record (.dlopen name (some h)))
  | none =>
      (none, { p.record (.dlopen name none) with lastError := w.loadErrorCode name })

def uniccPlatformDlopen (os : Os) (w : World) (path : CStr) (p : Process) :
    Option Handle × Process :=
  match os with
  | .windows => p.loadLibrary w path
  | .linux | .apple | .other => p.dlopen w path

def uniccPlatformDlclose (handle : Option Handle) (p : Process) : Process := p.dlclose handle

/-- On Windows the call itself writes the buffer, a static array of 256 bytes. -/
def uniccPlatformDlerror (os : Os) (p : Process) : Option DlerrorRef × Process :=
  match os with
  | .windows =>
      let text := CharArray.formatted 256 (.lit "GetLastError() = " ++ decimal p.lastError.toNat)
      (some .buffer, { p with dlerrorBuf := some text })
  | .linux | .apple | .other => (p.dlerror, p)

/-! ## Native calls -/

/-- The reply after a jump through NULL. Nothing observes it: the process is dead. -/
def noReply : NativeReply := ⟨0, none, none, fun _ => 0⟩

/-- A call through a native function pointer. -/
def callNative (w : World) (fn : Option FnPtr) (args : List CArg) (p : Process) :
    NativeReply × Process :=
  match fn with
  | some f => (w.invoke f args, p.record (.native f args (w.invoke f args).rc))
  | none => (noReply, p.record .nullCall)

end Process

end UniCCL
