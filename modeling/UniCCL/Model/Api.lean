import UniCCL.Model.Binder

/-! # The public API

`unicc_api.c`, one definition per function, and the machine whose inputs are API
calls together with what the world answers while the call runs.
-/

namespace UniCCL

open CString

def mapBackendResult (rc : Int32) (p : Process) : Int32 × Process :=
  if rc = 0 then (UniccResult.ok.code, p)
  else if rc < 0 then (rc, p)
  else (UniccResult.errUnhandledBackend.code, { p with gLastBackendResult := rc })

/-! ## Lifecycle -/

def uniccInit (os : Os) (w : World) (p : Process) : UniccResult × Process :=
  if p.gState = .init then (.errAlreadyInitialized, p)
  else
    let (rc, libPath, p) := uniccLoaderDetectBackend w (some none) p
    if rc ≠ .ok then (rc, p)
    else
      match libPath.join with
      | none => (.errNoBackend, p)
      | some libPath =>
          if libPath.strlen ≥ libPathCap then (.errInvalidArgument, p)
          else
            let r := uniccLoaderLoad os w (some libPath) (some none) (some p.gLibPath) p
            let p := { r.proc with gLibPath := r.resolvedPath.getD r.proc.gLibPath }
            if r.rc ≠ .ok then
              if r.rc = .errBackendLoad ∧ uniccLoaderGetEnvBackend w = none ∧
                  uniccLoaderGetEnvLibpath w = none then
                (.errNoBackend, p)
              else (r.rc, p)
            else
              let handle := r.outHandle.join
              let (rc, p) := uniccVtableInit os w handle p
              if rc ≠ .ok then
                let p := uniccLoaderUnload handle p
                (rc, { p with gLibPath := p.gLibPath.terminate })
              else
                (.ok, { p with gLastBackendResult := 0, gHandle := handle, gState := .init })

def uniccFinalize (p : Process) : UniccResult × Process :=
  if p.gState ≠ .init then (.errNotInitialized, p)
  else
    let p := uniccVtableCleanup p
    let p := uniccLoaderUnload p.gHandle p
    (.ok, { p with
      gHandle := none
      gLibPath := p.gLibPath.terminate
      gLastBackendResult := 0
      gState := .uninit })

/-- A C truth value. -/
def truth (b : Bool) : Int32 := if b then 1 else 0

def uniccIsInitialized (p : Process) : Int32 := truth (p.gState = .init)

/-! ## Version and diagnostics -/

def uniccBackendName (p : Process) : CStr :=
  if p.gState ≠ .init then .lit "unknown" else backendNameFromType (uniccGetBackendType p)

def uniccGetLibraryPath (p : Process) : CStr := p.gLibPath.str

def uniccVersionString : CStr := .lit "0.2.0-alpha"

/-- `len` is the size of the array `buf` points to. -/
def uniccGetVersion {len : Nat} (buf : Option (CharArray len)) :
    UniccResult × Option (CharArray len) :=
  match buf with
  | none => (.errInvalidArgument, none)
  | some buf =>
      if len = 0 then (.errInvalidArgument, some buf)
      else (.ok, some (buf.snprintf (.lit "UniCCL " ++ uniccVersionString)))

def uniccDiagnose (os : Os) (w : World) (p : Process) : UniccResult × Process :=
  if p.gState = .init then (.ok, uniccDiagnoseBackend os w (some p.gLibPath.str) p)
  else
    let (rc, path, p) := uniccLoaderDetectBackend w (some none) p
    if rc = .ok then (.ok, uniccDiagnoseBackend os w path.join p)
    else (.ok, uniccDiagnoseBackend os w none p)

/-! ## Operations of the backend

Each returns the result code, what its out-parameter refers to afterwards and the
process. Six of the ten have one of two common shapes.
-/

/-- An operation that passes its arguments on and gets nothing back. -/
def callSlot (w : World) (slot : Vtable → Option FnPtr) (args : List CArg) (p : Process) :
    Int32 × Process :=
  if p.gState ≠ .init then (UniccResult.errNotInitialized.code, p)
  else
    match slot p.unicc with
    | none => (UniccResult.errNotSupported.code, p)
    | some fn =>
        let (reply, p) := p.callNative w (some fn) args
        mapBackendResult reply.rc p

/-- An operation whose last argument is an `int *` that it checks for NULL. -/
def callIntSlot (w : World) (slot : Vtable → Option FnPtr) (args : List CArg)
    (out : Option (Ref Int32)) (p : Process) : Int32 × Option (Ref Int32) × Process :=
  if p.gState ≠ .init then (UniccResult.errNotInitialized.code, out, p)
  else
    match slot p.unicc with
    | none => (UniccResult.errNotSupported.code, out, p)
    | some fn =>
        match out with
        | none => (UniccResult.errInvalidArgument.code, none, p)
        | some out =>
            let (reply, p) := p.callNative w (some fn) (args ++ [.ptr out.addr])
            let (rc, p) := mapBackendResult reply.rc p
            (rc, some (out.updated reply.intOut), p)

def uniccBackendVersion (w : World) (version : Option (Ref Int32)) (p : Process) :
    Int32 × Option (Ref Int32) × Process := callIntSlot w (·.getVersion) [] version p

def uniccGetUniqueId (w : World) (id : Option (Ref CommId)) (p : Process) :
    Int32 × Option (Ref CommId) × Process :=
  if p.gState ≠ .init then (UniccResult.errNotInitialized.code, id, p)
  else
    match p.unicc.getUniqueId with
    | none => (UniccResult.errNotSupported.code, id, p)
    | some slot =>
        match id with
        | none => (UniccResult.errInvalidArgument.code, none, p)
        | some id =>
            let (rc, id, p) := slot.call w id p
            let (rc, p) := mapBackendResult rc p
            (rc, some id, p)

def uniccCommInitRank (w : World) (comm : Option (Ref Ptr)) (nranks : Int32)
    (id : Option (Ref CommId)) (rank : Int32) (p : Process) :
    Int32 × Option (Ref Ptr) × Process :=
  if p.gState ≠ .init then (UniccResult.errNotInitialized.code, comm, p)
  else
    match p.unicc.commInitRank with
    | none => (UniccResult.errNotSupported.code, comm, p)
    | some slot =>
        match comm, id with
        | some comm, some id =>
            if nranks < 1 ∨ rank < 0 ∨ rank ≥ nranks ∨ id.val.len = 0 then
              (UniccResult.errInvalidArgument.code, some comm, p)
            else
              let (rc, comm, p) := slot.call w comm nranks id rank p
              let (rc, p) := mapBackendResult rc p
              (rc, some comm, p)
        | comm, _ => (UniccResult.errInvalidArgument.code, comm, p)

def uniccCommDestroy (w : World) (comm : Ptr) (p : Process) : Int32 × Process :=
  callSlot w (·.commDestroy) [.ptr comm] p

def uniccCommCount (w : World) (comm : Ptr) (count : Option (Ref Int32)) (p : Process) :
    Int32 × Option (Ref Int32) × Process := callIntSlot w (·.commCount) [.ptr comm] count p

def uniccCommUserRank (w : World) (comm : Ptr) (rank : Option (Ref Int32)) (p : Process) :
    Int32 × Option (Ref Int32) × Process := callIntSlot w (·.commUserRank) [.ptr comm] rank p

/-- `datatype` and `op` are enumerations the compiler stores as `unsigned int`. -/
def uniccAllreduce (w : World) (sendbuf recvbuf : Ptr) (count : UInt64)
    (datatype op : UInt32) (comm stream : Ptr) (p : Process) : Int32 × Process :=
  if p.gState ≠ .init then (UniccResult.errNotInitialized.code, p)
  else
    match p.unicc.allreduce with
    | none => (UniccResult.errNotSupported.code, p)
    | some fn =>
        if sendbuf.isNull ∨ recvbuf.isNull ∨ count = 0 then
          (UniccResult.errInvalidArgument.code, p)
        else
          let dt := uniccDtmapLookupDt datatype.toInt32
          let rp := uniccDtmapLookupOp op.toInt32
          if dt < 0 ∨ rp < 0 then (UniccResult.errInvalidArgument.code, p)
          else
            let (reply, p) := p.callNative w (some fn)
              [.ptr sendbuf, .ptr recvbuf, .size count, .int dt, .int rp, .ptr comm, .ptr stream]
            mapBackendResult reply.rc p

def uniccBroadcast (w : World) (buf : Ptr) (count : UInt64) (datatype : UInt32)
    (root : Int32) (comm stream : Ptr) (p : Process) : Int32 × Process :=
  if p.gState ≠ .init then (UniccResult.errNotInitialized.code, p)
  else
    match p.unicc.broadcast with
    | none => (UniccResult.errNotSupported.code, p)
    | some slot =>
        if buf.isNull ∨ count = 0 then (UniccResult.errInvalidArgument.code, p)
        else
          let dt := uniccDtmapLookupDt datatype.toInt32
          if dt < 0 then (UniccResult.errInvalidArgument.code, p)
          else
            let (rc, p) := slot.call w buf count dt root comm stream p
            mapBackendResult rc p

def uniccGroupStart (w : World) (p : Process) : Int32 × Process :=
  callSlot w (·.groupStart) [] p

def uniccGroupEnd (w : World) (p : Process) : Int32 × Process :=
  callSlot w (·.groupEnd) [] p

/-! ## Gates and the raw result -/

def uniccCommAvailable (p : Process) : Int32 :=
  truth (p.gState = .init && p.unicc.commInitRank.isSome && p.unicc.getUniqueId.isSome)

def uniccGetUniqueIdAvailable (p : Process) : Int32 :=
  truth (p.gState = .init && p.unicc.getUniqueId.isSome)

def uniccAllreduceAvailable (p : Process) : Int32 :=
  truth (p.gState = .init && p.unicc.allreduce.isSome)

def uniccBroadcastAvailable (p : Process) : Int32 :=
  truth (p.gState = .init && p.unicc.broadcast.isSome)

def uniccGroupStartAvailable (p : Process) : Int32 :=
  truth (p.gState = .init && p.unicc.groupStart.isSome)

def uniccGroupEndAvailable (p : Process) : Int32 :=
  truth (p.gState = .init && p.unicc.groupEnd.isSome)

def uniccGetLastError (rawBackendResult : Option (Ref Int32)) (p : Process) :
    UniccResult × Option (Ref Int32) :=
  match rawBackendResult with
  | none => (.errInvalidArgument, none)
  | some r => (.ok, some { r with val := p.gLastBackendResult })

/-! ## Calls as inputs -/

/-- The functions `unicc.h` declares, with their arguments. -/
inductive Call
  | init
  | finalize
  | isInitialized
  | backendName
  | getLibraryPath
  | getVersion {len : Nat} (buf : Option (CharArray len))
  | backendVersion (version : Option (Ref Int32))
  | printBackendInfo
  | diagnose
  | getUniqueId (id : Option (Ref CommId))
  | commInitRank (comm : Option (Ref Ptr)) (nranks : Int32) (id : Option (Ref CommId))
      (rank : Int32)
  | commDestroy (comm : Ptr)
  | commCount (comm : Ptr) (count : Option (Ref Int32))
  | commUserRank (comm : Ptr) (rank : Option (Ref Int32))
  | commAvailable
  | getUniqueIdAvailable
  | allreduce (sendbuf recvbuf : Ptr) (count : UInt64) (datatype op : UInt32)
      (comm stream : Ptr)
  | broadcast (buf : Ptr) (count : UInt64) (datatype : UInt32) (root : Int32)
      (comm stream : Ptr)
  | groupStart
  | groupEnd
  | allreduceAvailable
  | broadcastAvailable
  | groupStartAvailable
  | groupEndAvailable
  | getLastError (rawBackendResult : Option (Ref Int32))

/-- The value a call returns. -/
inductive Ret
  | int (rc : Int32)
  | str (s : CStr)
deriving DecidableEq

/-- What the out-parameter of a call refers to when the call returns. -/
inductive OutParam
  | none
  | chars (buf : Option (List UInt8))
  | int (r : Option (Ref Int32))
  | comm (r : Option (Ref Ptr))
  | id (r : Option (Ref CommId))

structure Output where
  ret : Ret
  out : OutParam
  events : List Event

def rcOf (rc : UniccResult) : Ret := .int rc.code

/-- One call on a process whose log is empty. -/
def callApi (os : Os) (w : World) (p : Process) : Call → Process × Ret × OutParam
  | .init => let (rc, p) := uniccInit os w p; (p, rcOf rc, .none)
  | .finalize => let (rc, p) := uniccFinalize p; (p, rcOf rc, .none)
  | .isInitialized => (p, .int (uniccIsInitialized p), .none)
  | .backendName => (p, .str (uniccBackendName p), .none)
  | .getLibraryPath => (p, .str (uniccGetLibraryPath p), .none)
  | .getVersion buf =>
      let (rc, buf) := uniccGetVersion buf; (p, rcOf rc, .chars (buf.map (·.bytes)))
  | .backendVersion version =>
      let (rc, version, p) := uniccBackendVersion w version p; (p, .int rc, .int version)
  | .printBackendInfo => let (rc, p) := uniccPrintBackendInfo p; (p, rcOf rc, .none)
  | .diagnose => let (rc, p) := uniccDiagnose os w p; (p, rcOf rc, .none)
  | .getUniqueId id =>
      let (rc, id, p) := uniccGetUniqueId w id p; (p, .int rc, .id id)
  | .commInitRank comm nranks id rank =>
      let (rc, comm, p) := uniccCommInitRank w comm nranks id rank p; (p, .int rc, .comm comm)
  | .commDestroy comm => let (rc, p) := uniccCommDestroy w comm p; (p, .int rc, .none)
  | .commCount comm count =>
      let (rc, count, p) := uniccCommCount w comm count p; (p, .int rc, .int count)
  | .commUserRank comm rank =>
      let (rc, rank, p) := uniccCommUserRank w comm rank p; (p, .int rc, .int rank)
  | .commAvailable => (p, .int (uniccCommAvailable p), .none)
  | .getUniqueIdAvailable => (p, .int (uniccGetUniqueIdAvailable p), .none)
  | .allreduce sendbuf recvbuf count datatype op comm stream =>
      let (rc, p) := uniccAllreduce w sendbuf recvbuf count datatype op comm stream p
      (p, .int rc, .none)
  | .broadcast buf count datatype root comm stream =>
      let (rc, p) := uniccBroadcast w buf count datatype root comm stream p
      (p, .int rc, .none)
  | .groupStart => let (rc, p) := uniccGroupStart w p; (p, .int rc, .none)
  | .groupEnd => let (rc, p) := uniccGroupEnd w p; (p, .int rc, .none)
  | .allreduceAvailable => (p, .int (uniccAllreduceAvailable p), .none)
  | .broadcastAvailable => (p, .int (uniccBroadcastAvailable p), .none)
  | .groupStartAvailable => (p, .int (uniccGroupStartAvailable p), .none)
  | .groupEndAvailable => (p, .int (uniccGroupEndAvailable p), .none)
  | .getLastError raw =>
      let (rc, raw) := uniccGetLastError raw p; (p, rcOf rc, .int raw)

/-- The wrapper: each input is a call with the world's answers during that call,
each output is what the caller gets and what happened outside. -/
def wrapper (os : Os) : Mealy (World × Call) Process Output where
  start := .start
  step p i :=
    let (p, ret, out) := callApi os i.1 { p with log := [] } i.2
    ({ p with log := [] }, ⟨ret, out, p.log⟩)

end UniCCL
