import UniCCL.Lib.Stdio
import UniCCL.Lib.Threads
import UniCCL.Model.Api
import UniCCL.Model.Devmem

/-! # Processes that use the wrapper

The actions of a program linked with the wrapper: API calls, the file functions of
the bootstrap, and device calls through the pointers of `devmem.c`. Each process
has a wrapper of its own, the files are shared.
-/

namespace UniCCL

open CString Stdio

/-! ## Actions and replies -/

/-- A call through one pointer of `unicc_devmem_t`. -/
inductive DeviceCall
  | getDeviceCount
  | setDevice (device : Int32)
  | malloc (out : Ptr) (bytes : UInt64)
  | memcpy (dst src : Ptr) (bytes : UInt64) (kind : Int32)
  | memset (ptr : Ptr) (value : Int32) (bytes : UInt64)
  | free (ptr : Ptr)
deriving DecidableEq

/-- What a device function did: its result, the `int` or the pointer it stored if it
stored one, and whether the host buffer it filled then holds the sum that is expected. -/
structure DeviceReply where
  rc : Int32
  count : Option Int32
  ptr : Option Ptr
  sumMatches : Bool

inductive Action
  | api (c : Call)
  | fopenWrite (path : CStr)
  | fwrite (f : Stream) (bytes : List UInt8)
  | fclose (f : Stream)
  | rename (old new : CStr)
  | fopenRead (path : CStr)
  | fread (f : Stream) (cap : Nat)
  | usleep (usec : Nat)
  | devmemLoad
  | device (c : DeviceCall)

/-- What the program gets back. -/
def Action.Reply : Action → Type
  | .api _ => Output
  | .fopenWrite _ | .fopenRead _ => Option Stream
  | .fwrite _ _ => Nat
  | .fclose _ | .usleep _ => Unit
  | .rename _ _ => Bool
  | .fread _ _ => List UInt8
  | .devmemLoad => Int32
  | .device _ => DeviceReply

/-- What the surroundings answer to one action. -/
structure Answer where
  world : World
  /-- whether `fopen` or `rename` is permitted -/
  granted : Bool
  /-- how many bytes `fwrite` accepts or `fread` delivers -/
  transferred : Nat
  /-- how many of the buffered bytes reach the file -/
  flushed : Nat
  device : DeviceReply

/-! ## Processes -/

/-- A device call with the pointer it went through. -/
structure Issued where
  fn : Option FnPtr
  call : DeviceCall
  reply : DeviceReply

/-- One process: its wrapper, its device runtime, and what it has done. -/
structure Rank where
  proc : Process
  devmem : Devmem
  calls : List ((World × Call) × Output)
  /-- what the surroundings were at each `unicc_devmem_load` -/
  loads : List World
  issued : List Issued
  events : List Event

/-- The pointer a device call goes through. -/
def Devmem.pointer (api : Devmem) : DeviceCall → Option FnPtr
  | .getDeviceCount => api.devGetDeviceCount
  | .setDevice _ => api.devSetDevice
  | .malloc .. => api.devMalloc
  | .memcpy .. => api.devMemcpy
  | .memset .. => api.devMemset
  | .free _ => api.devFree

namespace Rank

/-- A process before `main`; `devmem` is what the stack holds. -/
def start (devmem : Devmem) : Rank := ⟨.start, devmem, [], [], [], []⟩

def call (r : Rank) (w : World) (c : Call) : Rank × Output :=
  let s := (wrapper .linux).step r.proc (w, c)
  ({ r with proc := s.1, calls := r.calls ++ [((w, c), s.2)], events := r.events ++ s.2.events },
    s.2)

def load (r : Rank) (w : World) : Rank × Int32 :=
  let (rc, devmem, p) := uniccDevmemLoad w r.devmem { r.proc with log := [] }
  ({ r with
      proc := { p with log := [] }
      devmem := devmem
      loads := r.loads ++ [w]
      events := r.events ++ p.log }, rc)

def issue (r : Rank) (c : DeviceCall) (reply : DeviceReply) : Rank :=
  { r with issued := r.issued ++ [⟨r.devmem.pointer c, c, reply⟩] }

end Rank

/-! ## The store -/

/-- The processes and the files they share. -/
structure Host where
  ranks : Nat → Rank
  files : Files

namespace Host

def setRank (s : Host) (k : Nat) (r : Rank) : Host :=
  { s with ranks := Function.update s.ranks k r }

def setFiles (s : Host) (files : Files) : Host := { s with files := files }

@[simp] theorem setRank_ranks_self (s : Host) (k : Nat) (r : Rank) : (s.setRank k r).ranks k = r := by
  simp only [setRank, Function.update_self]

theorem setRank_ranks_of_ne (s : Host) {j k : Nat} (hj : j ≠ k) (r : Rank) :
    (s.setRank k r).ranks j = s.ranks j :=
  Function.update_of_ne hj ..

end Host

/-- What an action of process `k` does. -/
def act (k : Nat) (i : Action) (e : Answer) (s : Host) : Host × i.Reply :=
  match i with
  | .api c =>
      let r := (s.ranks k).call e.world c
      (s.setRank k r.1, r.2)
  | .fopenWrite path =>
      let r := s.files.fopenWrite path e.granted
      (s.setFiles r.1, r.2)
  | .fwrite f bytes =>
      let r := s.files.fwrite f bytes e.transferred e.flushed
      (s.setFiles r.1, r.2)
  | .fclose f => (s.setFiles (s.files.fclose f e.flushed), ())
  | .rename old new =>
      let r := s.files.rename old new e.granted
      (s.setFiles r.1, r.2)
  | .fopenRead path => (s, s.files.fopenRead path e.granted)
  | .fread f cap => (s, s.files.fread f cap e.transferred)
  | .usleep _ => (s, ())
  | .devmemLoad =>
      let r := (s.ranks k).load e.world
      (s.setRank k r.1, r.2)
  | .device c => (s.setRank k ((s.ranks k).issue c e.device), e.device)

/-! ## Programs -/

/-- The body of a C function with these actions. -/
abbrev Main := Program Action.Reply

namespace Main

def api (c : Call) : Main Output := .act (.api c) .done
def fopenWrite (path : CStr) : Main (Option Stream) := .act (.fopenWrite path) .done
def fwrite (f : Stream) (bytes : List UInt8) : Main Nat := .act (.fwrite f bytes) .done
def fclose (f : Stream) : Main Unit := .act (.fclose f) .done
def rename (old new : CStr) : Main Bool := .act (.rename old new) .done
def fopenRead (path : CStr) : Main (Option Stream) := .act (.fopenRead path) .done
def fread (f : Stream) (cap : Nat) : Main (List UInt8) := .act (.fread f cap) .done
def usleep (usec : Nat) : Main Unit := .act (.usleep usec) .done
def devmemLoad : Main Int32 := .act .devmemLoad .done
def device (c : DeviceCall) : Main DeviceReply := .act (.device c) .done

end Main

namespace Output

/-- The `int` a call returns. -/
def code (o : Output) : Int32 :=
  match o.ret with
  | .int rc => rc
  | .str _ => 0

/-- The caller's `int` after the call. -/
def intAfter (o : Output) (before : Int32) : Int32 :=
  match o.out with
  | .int (some r) => r.val
  | _ => before

/-- The caller's `unicc_comm_t` after the call. -/
def commAfter (o : Output) (before : Ptr) : Ptr :=
  match o.out with
  | .comm (some r) => r.val
  | _ => before

/-- The caller's `unicc_comm_id_t` after the call. -/
def idAfter (o : Output) (before : CommId) : CommId :=
  match o.out with
  | .id (some r) => r.val
  | _ => before

end Output

end UniCCL
