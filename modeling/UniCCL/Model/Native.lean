import UniCCL.Lib.CString

/-! # The boundary of the wrapper

Values that cross between the caller, the wrapper and a loaded library, the
answers the operating system and the native functions give during one API call,
and the events such a call leaves behind.
-/

namespace UniCCL

open CString

/-- The operating systems the preprocessor tells apart. -/
inductive Os
  | linux
  | apple
  | windows
  | other
deriving DecidableEq, Repr

/-- A `void *` that is passed on and never followed; address zero is NULL. -/
structure Ptr where
  addr : UInt64
deriving DecidableEq, Repr

namespace Ptr

def null : Ptr := ⟨0⟩

def isNull (p : Ptr) : Bool := p.addr == 0

end Ptr

/-- A pointer argument that is followed: the address of the caller's object and
what the object holds. NULL is `none : Option (Ref α)`. -/
structure Ref (α : Type) where
  addr : Ptr
  val : α
deriving DecidableEq

/-- A library handle that a successful `dlopen` returned. The C type
`unicc_lib_handle_t` is `Option Handle`, NULL being `none`. -/
structure Handle where
  id : Nat
deriving DecidableEq, Repr

/-- A symbol address that a successful `dlsym` returned. -/
structure FnPtr where
  addr : Nat
deriving DecidableEq, Repr

/-! ## Bootstrap ids -/

def uniccUniqueIdBytes : Nat := 128
def uniccOnecclUniqueIdBytes : Nat := 4096
def uniccCommIdMax : Nat := 4112

/-- `unicc_comm_id_t`. -/
structure CommId where
  len : UInt64
  data : Fin uniccCommIdMax → UInt8

/-- `memcpy(id->data, uid.internal, n)` after `id->len = n`. -/
def CommId.store (id : CommId) (n : Nat) (uid : Nat → UInt8) : CommId where
  len := UInt64.ofNat n
  data := fun i => if i.val < n then uid i.val else id.data i

/-- `memcpy(uid.internal, id->data, n)`. -/
def CommId.load (id : CommId) (n : Nat) : List UInt8 :=
  (List.ofFn id.data).take n

/-! ## Native calls -/

/-- One argument of a native call, in the position it is passed. -/
inductive CArg
  /-- a pointer of the caller, passed on -/
  | ptr (p : Ptr)
  | int (v : Int32)
  | size (v : UInt64)
  /-- a native id of that many bytes, by value -/
  | uid (bytes : List UInt8)
  /-- the address of a local native id of `n` bytes -/
  | localUid (n : Nat)
deriving DecidableEq

/-- What a native function did by the time it returned: its result, what it stored
through an `int *` or a `unicc_comm_t *` parameter if it stored anything, and the
bytes that the local native id holds, if one was passed. -/
structure NativeReply where
  rc : Int32
  intOut : Option Int32
  commOut : Option Ptr
  uidOut : Nat → UInt8

/-- The answers of everything outside the wrapper during one API call. -/
structure World where
  getenv : CStr → Option CStr
  dlopen : CStr → Option Handle
  /-- the message `dlopen` leaves when it fails for this name -/
  dlerrorText : CStr → CStr
  /-- the error code `LoadLibraryA` leaves when it fails for this name -/
  loadErrorCode : CStr → UInt32
  /-- `dlsym`; the handle NULL is the global scope -/
  dlsym : Option Handle → CStr → Option FnPtr
  /-- the message `dlsym` leaves when it fails -/
  dlsymText : Option Handle → CStr → CStr
  invoke : FnPtr → List CArg → NativeReply
  /-- what is read where a local array held this string, once its block has ended -/
  expired : CStr → CStr

/-- What an API call did outside the wrapper, in order. -/
inductive Event
  | dlopen (name : CStr) (handle : Option Handle)
  | dlclose (handle : Handle)
  | native (fn : FnPtr) (args : List CArg) (rc : Int32)
  /-- a jump through a NULL function pointer: the process dies here -/
  | nullCall
  | stderr (text : CStr)
deriving DecidableEq

end UniCCL
