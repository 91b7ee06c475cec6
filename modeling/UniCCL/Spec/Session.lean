import UniCCL.Spec.Operation

/-! # The abstract wrapper

A session is one library that some environment let the wrapper open, identify and
validate; everything a backend operation does follows from the session. The
abstract wrapper is idle or has one live session with the raw result of its last
failed native call. It has no table, no static pointers and no buffers. What depends on
the platform is which names are tried, which families are refused, and on macOS what is
reported of the name that opened.
-/

namespace UniCCL

open CString

/-! ## Opening a library -/

/-- A name that opens, with the handle it opens to. -/
structure OpenedLib (w : World) where
  path : CStr
  handle : Handle
  opened : w.dlopen path = some handle

/-- Names tried in order until one opens, with a record of every try. -/
def tryNames (w : World) : List CStr → List Event × Option (OpenedLib w)
  | [] => ([], none)
  | name :: names =>
      match h : w.dlopen name with
      | some handle => ([.dlopen name (some handle)], some ⟨name, handle, h⟩)
      | none =>
          let r := tryNames w names
          (.dlopen name none :: r.1, r.2)

/-- The value of a variable, unset and empty being the same. -/
def envValue (w : World) (name : CStr) : Option CStr := (w.getenv name).filter (· ≠ .empty)

/-- The library name the environment selects. -/
def selectedName (w : World) : CStr :=
  match envValue w uniccLibraryVar, envValue w uniccBackendVar with
  | some path, _ => path
  | none, some name =>
      match uniccBackends.find? fun d => d.name = name with
      | some d => d.libName
      | none => name
  | none, none => .lit "libnccl.so"

/-- The second names of the rows this is the library name of. -/
def secondNames (name : CStr) : List CStr :=
  uniccBackends.filterMap fun d => if d.libName = name then d.libNameAlt else none

def candidateNames (name : CStr) : List CStr := name :: secondNames name

/-- How many of the bytes of a name of length `n` are kept by the precision `n - 3`, which
is an `int`: a negative one keeps them all. -/
def keptLength (n : Nat) : Nat :=
  let precision := (n - 3) % 2 ^ 32
  if precision < 2 ^ 31 then precision else n

/-- The macOS spelling a platform tries, if any: as much of it as an array of 160 bytes
holds with its terminator. -/
def respelling (os : Os) (libPath : CStr) : Option CStr :=
  if os = .apple ∧ 3 < libPath.strlen ∧ libPath.endsWith (.lit ".so") then
    some ((libPath.take (keptLength libPath.strlen) ++ .lit ".dylib").take 159)
  else none

/-- The names a platform tries, in order. -/
def attemptedNames (os : Os) (libPath : CStr) : List CStr :=
  candidateNames libPath ++ (respelling os libPath).toList

/-- The last name a load that fails has tried. -/
def lastTried (os : Os) (libPath : CStr) : CStr := (attemptedNames os libPath).getLastD libPath

/-- The message of a load that fails for this name; on Windows it is made of a code. -/
def failureText (os : Os) (w : World) (name : CStr) : CStr :=
  if os = .windows then .lit "GetLastError() = " ++ decimal (w.loadErrorCode name).toNat
  else w.dlerrorText name

/-- What a load reports for the name that opened: the macOS spelling lay in an array
that is gone by then. -/
def reportedPath (w : World) (libPath path : CStr) : CStr :=
  if path ∈ candidateNames libPath then path else w.expired path

/-- What `g_lib_path` holds after `path` has opened for the selected name. -/
def shownPath (w : World) (name path : CStr) : CStr :=
  CharArray.formatted libPathCap (reportedPath w name path)

/-- The row of highest priority whose probe symbol a library exports. -/
structure Identifies (w : World) (h : Handle) (d : BackendInfo) : Prop where
  mem : d ∈ uniccBackends
  probe : (w.dlsym (some h) d.probeSymbol).isSome
  highest : ∀ d' ∈ uniccBackends, (w.dlsym (some h) d'.probeSymbol).isSome →
    d'.priority ≤ d.priority

/-- The library exports the four symbols its family must have. -/
def Complete (w : World) (h : Handle) (d : BackendInfo) : Prop :=
  ∀ op ∈ Op.core, (w.dlsym (some h) (d.symbol op)).isSome

instance (w : World) (h : Handle) (d : BackendInfo) : Decidable (Complete w h d) :=
  inferInstanceAs (Decidable (∀ op ∈ Op.core, (w.dlsym (some h) (d.symbol op)).isSome))

/-- The library behind a handle is one the table is to be filled from: its family is
`d`, the platform supports it and no core symbol is missing. -/
def Accepts (os : Os) (w : World) (handle : Option Handle) (d : BackendInfo) : Prop :=
  ∃ h, handle = some h ∧ Identifies w h d ∧ backendSupportedOnPlatform os d.type = true ∧
    Complete w h d

/-! ## Sessions -/

/-- A library that opened under `name` and is reported as `path`. -/
structure Session where
  world : World
  name : CStr
  path : CStr
  handle : Handle
  family : BackendInfo
  opened : world.dlopen name = some handle
  identified : probedRow world (some handle) = some family
  core : Complete world handle family

/-- The native function behind an operation of the session's library. -/
def Session.backing (s : Session) (op : Op) : Option FnPtr :=
  UniCCL.backing s.world s.handle s.family op

/-- What becomes of an opened library: the result code, and the session if it is `ok`. -/
def OpenedLib.validate (os : Os) {w : World} (o : OpenedLib w) (path : CStr) :
    UniccResult × Option Session :=
  match hd : probedRow w (some o.handle) with
  | none => (.errSymbolNotFound, none)
  | some d =>
      if backendSupportedOnPlatform os d.type then
        if hc : Complete w o.handle d then
          (.ok, some ⟨w, o.path, path, o.handle, d, o.opened, hd, hc⟩)
        else (.errSymbolNotFound, none)
      else (.errBackendNotSupported, none)

/-- The outcome of initializing: result code, events, and the session if it is `ok`. -/
structure Opening where
  rc : UniccResult
  events : List Event
  session : Option Session

/-- The documented decision function of `unicc_init`. -/
def openSession (os : Os) (w : World) : Opening :=
  let name := selectedName w
  if libPathCap ≤ name.strlen then ⟨.errInvalidArgument, [], none⟩
  else
    match tryNames w (attemptedNames os name) with
    | (events, none) =>
        if envValue w uniccLibraryVar = none ∧ envValue w uniccBackendVar = none then
          ⟨.errNoBackend, events, none⟩
        else ⟨.errBackendLoad, events, none⟩
    | (events, some o) =>
        match o.validate os (shownPath w name o.path) with
        | (rc, some session) => ⟨rc, events, some session⟩
        | (rc, none) => ⟨rc, events ++ [.dlclose o.handle], none⟩

/-- What a diagnosis of a library does outside: it opens it and closes it again. -/
def probeEvents (os : Os) (w : World) (name : CStr) : List Event :=
  match tryNames w (attemptedNames os name) with
  | (events, none) => events
  | (events, some o) => events ++ [.dlclose o.handle]

/-! ## The abstract machine -/

inductive Abstract
  | idle
  | live (s : Session) (lastError : Int32)

namespace Abstract

def session? : Abstract → Option Session
  | idle => none
  | live s _ => some s

def lastError : Abstract → Int32
  | idle => 0
  | live _ e => e

def backendName : Abstract → CStr
  | idle => .lit "unknown"
  | live s _ => s.family.name

def libraryPath : Abstract → CStr
  | idle => .empty
  | live s _ => s.path

/-- The library a diagnosis is about. -/
def diagnosed (a : Abstract) (w : World) : CStr :=
  match a with
  | idle => selectedName w
  | live s _ => s.path

/-- Whether an operation can be requested. -/
def offers (a : Abstract) (op : Op) : Bool :=
  match a with
  | idle => false
  | live s _ => (s.backing op).isSome

end Abstract

/-- The state an opening leads to. -/
def Opening.next (r : Opening) : Abstract :=
  match r.session with
  | some s => .live s 0
  | none => .idle

/-- The unified code for a native result. -/
def unifiedCode (rc : Int32) : Int32 :=
  if rc = 0 then UniccResult.ok.code
  else if rc < 0 then rc
  else UniccResult.errUnhandledBackend.code

/-- A refusal: a code of the wrapper, the out-parameter as it was, nothing done. -/
def refuse (c : Call) (rc : UniccResult) : Output := ⟨rcOf rc, c.outBefore, []⟩

/-- A backend operation on a live session. -/
def operate (w : World) (s : Session) (lastError : Int32) (op : Op) (c : Call) :
    Abstract × Output :=
  match s.backing op with
  | none => (.live s lastError, refuse c .errNotSupported)
  | some f =>
      if c.argsValid ∧ c.idFits s.family then
        let args := c.directArgs s.family
        let reply := w.invoke f args
        (.live s (if 0 < reply.rc then reply.rc else lastError),
          ⟨.int (unifiedCode reply.rc), c.outAfter s.family reply, [.native f args reply.rc]⟩)
      else (.live s lastError, refuse c .errInvalidArgument)

/-- The calls that only report. -/
def reportOn (a : Abstract) : Call → Ret × OutParam
  | .isInitialized => (.int (truth a.session?.isSome), .none)
  | .backendName => (.str a.backendName, .none)
  | .getLibraryPath => (.str a.libraryPath, .none)
  | .getVersion buf =>
      let (rc, buf) := uniccGetVersion buf; (rcOf rc, .chars (buf.map (·.bytes)))
  | .printBackendInfo => (rcOf .ok, .none)
  | .commAvailable => (.int (truth (a.offers .commInitRank && a.offers .getUniqueId)), .none)
  | .getUniqueIdAvailable => (.int (truth (a.offers .getUniqueId)), .none)
  | .allreduceAvailable => (.int (truth (a.offers .allreduce)), .none)
  | .broadcastAvailable => (.int (truth (a.offers .broadcast)), .none)
  | .groupStartAvailable => (.int (truth (a.offers .groupStart)), .none)
  | .groupEndAvailable => (.int (truth (a.offers .groupEnd)), .none)
  | .getLastError none => (rcOf .errInvalidArgument, .int none)
  | .getLastError (some r) => (rcOf .ok, .int (some { r with val := a.lastError }))
  | _ => (rcOf .ok, .none)

/-- One call on the abstract wrapper. -/
def abstractStep (os : Os) (a : Abstract) (w : World) (c : Call) : Abstract × Output :=
  match c.op, c, a with
  | some _, c, .idle => (.idle, refuse c .errNotInitialized)
  | some op, c, .live s e => operate w s e op c
  | none, .init, .idle =>
      let r := openSession os w
      (r.next, ⟨rcOf r.rc, .none, r.events⟩)
  | none, .init, .live s e => (.live s e, ⟨rcOf .errAlreadyInitialized, .none, []⟩)
  | none, .finalize, .idle => (.idle, ⟨rcOf .errNotInitialized, .none, []⟩)
  | none, .finalize, .live s _ => (.idle, ⟨rcOf .ok, .none, [.dlclose s.handle]⟩)
  | none, .diagnose, a => (a, ⟨rcOf .ok, .none, probeEvents os w (a.diagnosed w)⟩)
  | none, c, a => (a, ⟨(reportOn a c).1, (reportOn a c).2, []⟩)

/-- The abstract wrapper as a machine. -/
def abstractWrapper (os : Os) : Mealy (World × Call) Abstract Output where
  start := .idle
  step a i := abstractStep os a i.1 i.2

/-! ## What is seen of the wrapper -/

/-- Everything but the lines printed on stderr. -/
def Event.isVisible : Event → Bool
  | .stderr _ => false
  | _ => true

/-- An output without its lines on stderr. -/
def Output.view (o : Output) : Output := { o with events := o.events.filter (·.isVisible) }

end UniCCL
