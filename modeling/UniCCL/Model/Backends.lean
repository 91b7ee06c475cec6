import UniCCL.Model.Native

/-! # Result codes and the backend table

`unicc_errors.h`, `unicc_error.c`, the descriptor type of `unicc_backends.h` and
the table of `unicc_loader.c`.
-/

namespace UniCCL

open CString

/-- `unicc_result_t`. -/
inductive UniccResult
  | ok
  | errNoBackend
  | errBackendLoad
  | errBackendInitFailed
  | errSymbolNotFound
  | errNotInitialized
  | errAlreadyInitialized
  | errFinalized
  | errInvalidArgument
  | errNotSupported
  | errUnhandledBackend
  | errBackendNotSupported
  | errInvalidState
  | errOutOfMemory
deriving DecidableEq, Repr

namespace UniccResult

def code : UniccResult → Int32
  | ok => 0
  | errNoBackend => -1
  | errBackendLoad => -2
  | errBackendInitFailed => -3
  | errSymbolNotFound => -4
  | errNotInitialized => -5
  | errAlreadyInitialized => -6
  | errFinalized => -7
  | errInvalidArgument => -8
  | errNotSupported => -9
  | errUnhandledBackend => -10
  | errBackendNotSupported => -11
  | errInvalidState => -12
  | errOutOfMemory => -13

theorem code_injective : Function.Injective code := by
  intro a b h
  cases a <;> cases b <;> first | rfl | exact absurd h (by decide)

@[simp] theorem code_inj {a b : UniccResult} : a.code = b.code ↔ a = b :=
  code_injective.eq_iff

end UniccResult

/-- `unicc_error_string` on the codes of the enumeration. -/
def uniccErrorString : UniccResult → CStr
  | .ok => .lit "success"
  | .errNoBackend => .lit "no collective-communication backend library could be located"
  | .errBackendLoad => .lit "failed to load backend library"
  | .errBackendInitFailed => .lit "backend vtable initialization failed"
  | .errSymbolNotFound => .lit "a required core symbol is missing from the backend library"
  | .errNotInitialized => .lit "unicc not initialized (call unicc_init first)"
  | .errAlreadyInitialized => .lit "unicc already initialized"
  | .errFinalized => .lit "unicc has been finalized"
  | .errInvalidArgument => .lit "invalid argument"
  | .errNotSupported => .lit "operation not supported by the active backend (symbol missing)"
  | .errUnhandledBackend =>
      .lit "backend returned a non-zero native result (see unicc_get_last_error)"
  | .errBackendNotSupported => .lit "backend type is not supported on this platform"
  | .errInvalidState => .lit "invalid internal state"
  | .errOutOfMemory => .lit "out of memory"

/-- `unicc_backend_type_t`. -/
inductive BackendType
  | unknown
  | nccl
  | rccl
  | oneccl
  | eccl
deriving DecidableEq, Repr

/-- The enumerator's value, as `%d` prints it. -/
def BackendType.toNat : BackendType → Nat
  | unknown => 0
  | nccl => 1
  | rccl => 2
  | oneccl => 3
  | eccl => 4

/-- `unicc_uid_kind_t`. -/
inductive UidKind
  | nccl
  | oneccl
deriving DecidableEq, Repr

/-- `unicc_backend_info_t`. The three `int` flags are only ever tested. -/
structure BackendInfo where
  type : BackendType
  name : CStr
  libName : CStr
  libNameAlt : Option CStr
  probeSymbol : CStr
  priority : Int32
  uidBytes : UInt64
  uidKind : UidKind
  nranksIsSizeT : Bool
  broadcastDoubleBuffered : Bool
  hasCommUserRank : Bool
deriving DecidableEq

def ncclRow : BackendInfo where
  type := .nccl
  name := .lit "nccl"
  libName := .lit "libnccl.so"
  libNameAlt := some (.lit "libnccl.so.2")
  probeSymbol := .lit "ncclGetVersion"
  priority := 2
  uidBytes := 128
  uidKind := .nccl
  nranksIsSizeT := false
  broadcastDoubleBuffered := false
  hasCommUserRank := true

def rcclRow : BackendInfo where
  type := .rccl
  name := .lit "rccl"
  libName := .lit "librccl.so"
  libNameAlt := some (.lit "librccl.so.1")
  probeSymbol := .lit "rcclGetVersion"
  priority := 3
  uidBytes := 128
  uidKind := .nccl
  nranksIsSizeT := false
  broadcastDoubleBuffered := false
  hasCommUserRank := true

def onecclRow : BackendInfo where
  type := .oneccl
  name := .lit "oneccl"
  libName := .lit "libccl.so.2"
  libNameAlt := some (.lit "libccl.so")
  probeSymbol := .lit "onecclGetVersion"
  priority := 4
  uidBytes := UInt64.ofNat uniccOnecclUniqueIdBytes
  uidKind := .oneccl
  nranksIsSizeT := true
  broadcastDoubleBuffered := true
  hasCommUserRank := true

def ecclRow : BackendInfo where
  type := .eccl
  name := .lit "eccl"
  libName := .lit "libeccl.so"
  libNameAlt := none
  probeSymbol := .lit "ecclGetVersion"
  priority := 5
  uidBytes := 128
  uidKind := .nccl
  nranksIsSizeT := true
  broadcastDoubleBuffered := true
  hasCommUserRank := false

/-- `unicc_backends[UNICC_MAX_BACKENDS]`. -/
def uniccBackends : List BackendInfo := [ncclRow, rcclRow, onecclRow, ecclRow]

/-- `backend_name_from_type`, the same function in `unicc_api.c` and `unicc_loader.c`. -/
def backendNameFromType (type : BackendType) : CStr :=
  match uniccBackends.find? fun d => d.type = type with
  | some d => d.name
  | none => .lit "unknown"

/-- `family_of`. -/
def familyOf (type : BackendType) : Option BackendInfo :=
  uniccBackends.find? fun d => d.type = type

/-! ## Datatype and operation numbers -/

def uniccDtCount : Int32 := 10
def uniccOpCount : Int32 := 4

/-- `unicc_dtmap_lookup_dt`. -/
def uniccDtmapLookupDt (dt : Int32) : Int32 := if dt ≥ 0 ∧ dt < uniccDtCount then dt else -1

/-- `unicc_dtmap_lookup_op`. -/
def uniccDtmapLookupOp (op : Int32) : Int32 := if op ≥ 0 ∧ op < uniccOpCount then op else -1

end UniCCL
