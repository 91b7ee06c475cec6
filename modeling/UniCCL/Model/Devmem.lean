import UniCCL.Model.Process

/-! # The device-memory adapter

`devmem.c`: a CUDA or HIP runtime is found at run time by trying library names in
order until one opens and exports six functions.
-/

namespace UniCCL

open CString

/-- `unicc_devmem_t`; `none` is a NULL pointer. -/
structure Devmem where
  devMalloc : Option FnPtr
  devMemcpy : Option FnPtr
  devMemset : Option FnPtr
  devFree : Option FnPtr
  devSetDevice : Option FnPtr
  devGetDeviceCount : Option FnPtr
  runtime : Option CStr
deriving DecidableEq

/-- `sym[64]` after `snprintf(sym, sizeof(sym), "%s<function>", prefix)`. -/
def devmemSymbol (family function : CStr) : CStr := CharArray.formatted 64 (family ++ function)

/-- The six `dlsym` calls on one candidate. -/
def Devmem.resolve (w : World) (h : Handle) (family : CStr) (api : Devmem) (p : Process) :
    Devmem × Process :=
  let sym (function : String) (p : Process) :=
    p.dlsym w (some h) (devmemSymbol family (.lit function))
  let (devMalloc, p) := sym "Malloc" p
  let (devMemcpy, p) := sym "Memcpy" p
  let (devMemset, p) := sym "Memset" p
  let (devFree, p) := sym "Free" p
  let (devSetDevice, p) := sym "SetDevice" p
  let (devGetDeviceCount, p) := sym "GetDeviceCount" p
  ({ api with devMalloc, devMemcpy, devMemset, devFree, devSetDevice, devGetDeviceCount }, p)

/-- All six pointers are set. -/
def Devmem.filled (api : Devmem) : Bool :=
  api.devMalloc.isSome && api.devMemcpy.isSome && api.devMemset.isSome && api.devFree.isSome &&
    api.devSetDevice.isSome && api.devGetDeviceCount.isSome

/-- The loop of `load_runtime` over the names that are left, and the line printed
when none is. `lastErr` is the reference the last failing `dlopen` left. -/
def loadRuntimeFrom (w : World) (family : CStr) (lastErr : Option Process.DlerrorRef) :
    List CStr → Devmem → Process → Int32 × Devmem × Process
  | [], api, p =>
      let cause := match lastErr with
        | some ref => p.readDlerror ref
        | none => .lit "(no error)"
      (-1, api, p.eprint (.lit "[devmem] no device runtime found (" ++ family ++ .lit "): " ++
        cause ++ .lit "\n"))
  | lib :: libs, api, p =>
      match p.dlopen w lib with
      | (none, p) => loadRuntimeFrom w family p.dlerror libs api p
      | (some h, p) =>
          let (api, p) := api.resolve w h family p
          if api.filled then (0, { api with runtime := some family }, p)
          -- The candidate opens but lacks a function: it is closed and the next one tried.
          else loadRuntimeFrom w family lastErr libs api (p.dlclose (some h))

/-- `load_runtime`. -/
def loadRuntime (w : World) (libs : List CStr) (family : CStr) (api : Devmem) (p : Process) :
    Int32 × Devmem × Process := loadRuntimeFrom w family none libs api p

def cudaLibs : List CStr := [.lit "libcudart.so", .lit "libcudart.so.13", .lit "libcudart.so.12"]

def hipLibs : List CStr :=
  [.lit "libamdhip64.so", .lit "libamdhip64.so.6", .lit "libamdhip64.so.5", .lit "libamdhip64.so.4"]

def uniccDevmemLoad (w : World) (api : Devmem) (p : Process) : Int32 × Devmem × Process :=
  let (rc, api, p) := loadRuntime w cudaLibs (.lit "cuda") api p
  if rc = 0 then (0, api, p)
  else
    let (rc, api, p) := loadRuntime w hipLibs (.lit "hip") api p
    if rc = 0 then (0, api, p) else (-1, api, p)

end UniCCL
