import UniCCL.Model.Devmem
import UniCCL.Spec.Session

/-! # Which device runtime is to be used

The first candidate that opens and exports every function. A candidate that opens but
does not serve is closed again before the next one is tried.
-/

namespace UniCCL

open CString

/-- A library name with the prefix its functions carry. -/
structure Candidate where
  lib : CStr
  family : CStr

/-- The functions a device runtime must export. -/
def deviceFunctions : List CStr :=
  [.lit "Malloc", .lit "Memcpy", .lit "Memset", .lit "Free", .lit "SetDevice",
    .lit "GetDeviceCount"]

namespace Candidate

/-- CUDA before HIP. -/
def all : List Candidate :=
  cudaLibs.map (⟨·, .lit "cuda"⟩) ++ hipLibs.map (⟨·, .lit "hip"⟩)

/-- The library behind the handle exports every function of the candidate's family. -/
def Serves (w : World) (c : Candidate) (h : Handle) : Prop :=
  ∀ f ∈ deviceFunctions, (w.dlsym (some h) (c.family ++ f)).isSome

instance (w : World) (c : Candidate) (h : Handle) : Decidable (c.Serves w h) :=
  inferInstanceAs (Decidable (∀ f ∈ deviceFunctions, (w.dlsym (some h) (c.family ++ f)).isSome))

/-- The pointers of the candidate's functions. -/
def table (w : World) (c : Candidate) (h : Handle) : Devmem where
  devMalloc := w.dlsym (some h) (c.family ++ .lit "Malloc")
  devMemcpy := w.dlsym (some h) (c.family ++ .lit "Memcpy")
  devMemset := w.dlsym (some h) (c.family ++ .lit "Memset")
  devFree := w.dlsym (some h) (c.family ++ .lit "Free")
  devSetDevice := w.dlsym (some h) (c.family ++ .lit "SetDevice")
  devGetDeviceCount := w.dlsym (some h) (c.family ++ .lit "GetDeviceCount")
  runtime := some c.family

end Candidate

/-- What trying the candidates does outside, and the one that is taken. -/
def tryRuntimes (w : World) : List Candidate → List Event × Option (Candidate × Handle)
  | [] => ([], none)
  | c :: cs =>
      match w.dlopen c.lib with
      | none =>
          let r := tryRuntimes w cs
          (.dlopen c.lib none :: r.1, r.2)
      | some h =>
          if c.Serves w h then ([.dlopen c.lib (some h)], some (c, h))
          else
            let r := tryRuntimes w cs
            (.dlopen c.lib (some h) :: .dlclose h :: r.1, r.2)

end UniCCL
