import UniCCL.Model.Process

/-! # Selecting, loading and identifying a backend

`unicc_loader.c`, branch by branch, with the texts it prints. `os` stands for the
preprocessor symbols of the build.
-/

namespace UniCCL

open CString

def uniccBackendVar : CStr := .lit "UNICC_BACKEND"
def uniccLibraryVar : CStr := .lit "UNICC_LIBRARY"

def backendSupportedOnPlatform (os : Os) (_type : BackendType) : Bool :=
  match os with
  | .windows => false
  | .linux | .apple => true
  | .other => false

def getNonemptyEnv (w : World) (name : CStr) : Option CStr :=
  match w.getenv name with
  | some value => if value.bytes = [] then none else some value
  | none => none

def uniccLoaderGetEnvBackend (w : World) : Option CStr := getNonemptyEnv w uniccBackendVar

def uniccLoaderGetEnvLibpath (w : World) : Option CStr := getNonemptyEnv w uniccLibraryVar

/-- The first row whose `name` is the string. -/
def rowNamed (name : CStr) : Option BackendInfo :=
  uniccBackends.find? fun d => d.name = name

/-- The result, `*out_lib_path` afterwards (`none` for a NULL `out_lib_path`) and
the process. -/
def uniccLoaderDetectBackend (w : World) (outLibPath : Option (Option CStr)) (p : Process) :
    UniccResult × Option (Option CStr) × Process :=
  match outLibPath with
  | none => (.errInvalidArgument, none, p)
  | some _ =>
      match uniccLoaderGetEnvLibpath w with
      | some envLibpath =>
          (.ok, some (some envLibpath), p.eprint
            (.lit "[UniCCL] Using library path from UNICC_LIBRARY: " ++ envLibpath ++ .lit "\n"))
      | none =>
          match uniccLoaderGetEnvBackend w with
          | some envBackend =>
              let p := p.eprint
                (.lit "[UniCCL] Using backend from UNICC_BACKEND: " ++ envBackend ++ .lit "\n")
              match rowNamed envBackend with
              | some d => (.ok, some (some d.libName), p)
              | none => (.ok, some (some envBackend), p.eprint
                  (.lit "[UniCCL] '" ++ envBackend ++
                    .lit "' is not a known backend name; treating it as a library path\n"))
          | none =>
              (.ok, some (some ncclRow.libName), p.eprint
                (.lit "[UniCCL] Auto-detecting collective-communication backend...\n"))

/-! ## Loading -/

/-- The fallback of the first row whose `lib_name` is the string. -/
def altNameOf (libPath : CStr) : Option CStr :=
  (uniccBackends.find? fun d => d.libName = libPath).bind (·.libNameAlt)

/-- The string behind `loaded`, and the handle. -/
abbrev Opened := CStr × Handle

def openAlt (os : Os) (w : World) (libPath : CStr) (p : Process) : Option Opened × Process :=
  match altNameOf libPath with
  | none => (none, p)
  | some alt =>
      let p := p.eprint (.lit "[UniCCL] " ++ libPath ++ .lit " not found, trying fallback " ++
        alt ++ .lit "\n")
      match p.uniccPlatformDlopen os w alt with
      | (some handle, p) => (some (alt, handle), p)
      | (none, p) => (none, p)

/-- `char dylib[160]` of the macOS branch. -/
def dylibCap : Nat := 160

/-- The macOS spelling tried for a name, `none` when the name does not end in `.so`. -/
def dylibSpelling (libPath : CStr) : Option CStr :=
  if libPath.strlen > 3 ∧ libPath.endsWith (.lit ".so") then
    let precision := Int32.ofNat (libPath.strlen - 3)
    some (CharArray.formatted dylibCap (libPath.precise precision ++ .lit ".dylib"))
  else none

/-- The `__APPLE__` retry. `dylib` is local to its block, so `loaded` outlives the
array it points to. -/
def openDylib (w : World) (libPath : CStr) (p : Process) : Option Opened × Process :=
  match dylibSpelling libPath with
  | none => (none, p)
  | some dylib =>
      let p := p.eprint (.lit "[UniCCL] " ++ libPath ++
        .lit " not found, trying macOS spelling " ++ dylib ++ .lit "\n")
      match p.uniccPlatformDlopen .apple w dylib with
      | (some handle, p) => (some (w.expired dylib, handle), p)
      | (none, p) => (none, p)

/-- The names tried in order, each only when the ones before it failed. -/
def openWithFallback (os : Os) (w : World) (libPath : CStr) (p : Process) :
    Option Opened × Process :=
  match p.uniccPlatformDlopen os w libPath with
  | (some handle, p) => (some (libPath, handle), p)
  | (none, p) =>
      let (primaryErr, p) := p.uniccPlatformDlerror os
      let (opened, p) := openAlt os w libPath p
      let (opened, p) :=
        match os, opened with
        | .apple, none => openDylib w libPath p
        | _, opened => (opened, p)
      match opened with
      | some opened => (some opened, p)
      | none =>
          -- The reference is read only now, after the fallbacks have been tried.
          let cause := match primaryErr with
            | some ref => p.readDlerror ref
            | none => .lit "(no error)"
          let p := p.eprint
            (.lit "[UniCCL:ERROR] Failed to load backend library: " ++ libPath ++ .lit "\n")
          (none, p.eprint (.lit "[UniCCL:ERROR] " ++ cause ++ .lit "\n"))

/-- The result of `unicc_loader_load` with what its pointer arguments refer to
afterwards. -/
structure LoadResult (n : Nat) where
  rc : UniccResult
  outHandle : Option (Option Handle)
  resolvedPath : Option (CharArray n)
  proc : Process

/-- `resolved_cap` is the size `n` of the array `resolved_path` points to. -/
def uniccLoaderLoad (os : Os) (w : World) {n : Nat} (libPath : Option CStr)
    (outHandle : Option (Option Handle)) (resolvedPath : Option (CharArray n))
    (p : Process) : LoadResult n :=
  match outHandle with
  | none => ⟨.errInvalidArgument, none, resolvedPath, p⟩
  | some _ =>
      let resolvedPath := resolvedPath.map CharArray.terminate
      match libPath with
      | none => ⟨.errNoBackend, some none, resolvedPath,
          p.eprint (.lit "[UniCCL:ERROR] No backend library path provided\n")⟩
      | some libPath =>
          let p := p.eprint (.lit "[UniCCL] Loading backend library: " ++ libPath ++ .lit "\n")
          match openWithFallback os w libPath p with
          | (none, p) => ⟨.errBackendLoad, some none, resolvedPath, p⟩
          | (some (loaded, handle), p) =>
              ⟨.ok, some (some handle), resolvedPath.map (·.snprintf loaded),
                p.eprint (.lit "[UniCCL] Successfully loaded backend library\n")⟩

def uniccLoaderUnload (handle : Option Handle) (p : Process) : Process :=
  p.uniccPlatformDlclose handle

/-! ## Identification -/

/-- The row the probe loop stops at, walking the table from the last row down. -/
def probedRow (w : World) (handle : Option Handle) : Option BackendInfo :=
  uniccBackends.reverse.find? fun d => (w.dlsym handle d.probeSymbol).isSome

def uniccLoaderIdentifyBackend (w : World) (handle : Option Handle) (p : Process) :
    BackendType × Process :=
  match handle with
  | none =>
      (.unknown, p.eprint (.lit "[UniCCL:WARN] Cannot identify backend: null handle\n"))
  | some h =>
      let p := p.eprint (.lit "[UniCCL] Identifying backend type...\n")
      match probedRow w (some h) with
      | some d =>
          (d.type, p.eprint (.lit "[UniCCL] Detected " ++ d.name ++ .lit " backend\n"))
      | none =>
          (.unknown, p.eprint (.lit "[UniCCL:WARN] Could not identify backend type\n"))

def uniccLoaderCheckPlatformSupport (os : Os) (backend : BackendType) (p : Process) :
    UniccResult × Process :=
  if backendSupportedOnPlatform os backend then (.ok, p)
  else
    let p := p.eprint (.lit "[UniCCL:ERROR] Backend '" ++ backendNameFromType backend ++
      .lit "' is not supported on this platform\n")
    (.errBackendNotSupported,
      p.eprint (.lit "  NCCL, RCCL, oneCCL and ECCL are supported on Linux\n"))

/-! ## Diagnostics -/

/-- `unicc_platform_load_advice`. -/
def uniccPlatformLoadAdvice : Os → CStr
  | .apple =>
      .lit "Troubleshooting:\n" ++
      .lit "1. Check the library exists: ls -la <library_path>\n" ++
      .lit "2. Check library dependencies: otool -L <library_path>\n" ++
      .lit "3. Ensure DYLD_LIBRARY_PATH includes the GPU library directory\n" ++
      .lit "4. Verify NCCL/RCCL is installed for the target GPU platform\n"
  | .windows =>
      .lit "Troubleshooting:\n" ++
      .lit "1. Check the DLL exists and its path is on PATH\n" ++
      .lit "2. Check dependencies with dumpbin /dependents\n" ++
      .lit "3. Verify NCCL (or an NCCL DLL) supports Windows\n"
  | .linux | .other =>
      .lit "Troubleshooting:\n" ++
      .lit "1. Check the library exists: ls -la <library_path>\n" ++
      .lit "2. Check library dependencies: ldd <library_path>\n" ++
      .lit "3. List cached libraries: ldconfig -p | grep -E 'nccl|rccl'\n" ++
      .lit "4. Ensure LD_LIBRARY_PATH includes the GPU library directory\n" ++
      .lit "5. Verify NCCL/RCCL is installed for the target GPU platform\n"

/-- `char sym[96]`, in the diagnosis and in the binder. -/
def symCap : Nat := 96

/-- The string `snprintf(sym, sizeof sym, "%s%s", name, suffix)` leaves in `sym`. -/
def symbolName (name suffix : CStr) : CStr := CharArray.formatted symCap (name ++ suffix)

/-- `suffixes[]`. -/
def diagnoseSuffixes : List CStr :=
  [.lit "GetVersion", .lit "CommInitRank", .lit "AllReduce", .lit "Broadcast",
    .lit "GroupStart", .lit "GroupEnd"]

/-- One line of the symbol report. -/
def reportLine (w : World) (handle : Option Handle) (name suffix : CStr) : CStr :=
  let sym := symbolName name suffix
  .lit "  " ++ sym.padRight 22 ++ .lit " " ++
    (if (w.dlsym handle sym).isSome then .lit "OK" else .lit "NOT FOUND") ++ .lit "\n"

/-- The two nested loops of the report. -/
def reportSymbols (w : World) (handle : Option Handle) (p : Process) : Process :=
  uniccBackends.foldl (fun p d =>
    diagnoseSuffixes.foldl (fun p s => p.eprint (reportLine w handle d.name s)) p) p

def uniccDiagnoseBackend (os : Os) (w : World) (libPath : Option CStr) (p : Process) :
    Process :=
  let p := p.eprint (.lit "\n[UniCCL] === Backend Diagnostics ===\n")
  let p := p.eprint (.lit "Library path: " ++ libPath.getD (.lit "(null)") ++ .lit "\n")
  let p := p.eprint
    (.lit "UNICC_BACKEND: " ++ (w.getenv uniccBackendVar).getD (.lit "(not set)") ++ .lit "\n")
  let p := p.eprint
    (.lit "UNICC_LIBRARY: " ++ (w.getenv uniccLibraryVar).getD (.lit "(not set)") ++ .lit "\n")
  let r := uniccLoaderLoad os w (n := 0) libPath (some none) none p
  if r.rc = .ok then
    let handle := r.outHandle.join
    let (type, p) := uniccLoaderIdentifyBackend w handle r.proc
    let p := p.eprint
      (.lit "Identified backend type: " ++ backendNameFromType type ++ .lit "\n")
    let p := p.eprint (.lit "\nChecking symbols:\n")
    let p := reportSymbols w handle p
    let p := uniccLoaderUnload handle p
    p.eprint (.lit "\n=== End Diagnostics ===\n\n")
  else
    let p := r.proc.eprint
      (.lit "Failed to load backend: " ++ uniccErrorString r.rc ++ .lit "\n")
    if r.rc = .errBackendLoad then p.eprint (uniccPlatformLoadAdvice os) else p

def uniccPrintBackendInfo (p : Process) : UniccResult × Process :=
  let line (name library fallback : CStr) : CStr :=
    .lit "  " ++ name.padRight 8 ++ .lit " " ++ library.padRight 12 ++ .lit " " ++ fallback ++
      .lit "\n"
  let p := p.eprint (.lit "\n[UniCCL] Supported Backends:\n")
  let p := p.eprint (line (.lit "Name") (.lit "Library") (.lit "Fallback"))
  let p := p.eprint (line (.lit "----------") (.lit "------------") (.lit "----------"))
  let p := uniccBackends.foldl (fun p d =>
    p.eprint (line d.name d.libName (d.libNameAlt.getD (.lit "-")))) p
  (.ok, p.eprint (.lit "\n"))

end UniCCL
