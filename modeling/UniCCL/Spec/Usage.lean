import UniCCL.Lib.Ledger
import UniCCL.Model.Clients
import UniCCL.Spec.Session

/-! # Using the wrapper in order

What a program that uses the wrapper is to do: request operations only between
`unicc_init` and `unicc_finalize`, work only on communicators it has made and not given
up, give each of them to one `unicc_comm_destroy`, and finalize when none is left. Calls
that only report may come at any time. A monitor reads the recorded calls and never
looks at the wrapper.
-/

namespace UniCCL

/-- Between initialization and finalization the communicators that are held, or the
verdict that some call came out of order. -/
inductive Usage
  | closed
  | opened (held : Multiset Ptr)
  | misused

/-- The communicator a call works on without ending it. -/
def Call.worksOn : Call → Option Ptr
  | commCount comm _ => some comm
  | commUserRank comm _ => some comm
  | allreduce _ _ _ _ _ comm _ => some comm
  | broadcast _ _ _ _ comm _ => some comm
  | _ => none

/-- The `unicc_comm_t` the caller has after a `unicc_comm_init_rank`. -/
def Output.madeComm (o : Output) (comm : Option (Ref Ptr)) : Ptr :=
  o.commAfter ((comm.map (·.val)).getD .null)

namespace Usage

/-- A call while nothing is initialized: the calls that only report are in order. -/
def noteClosed (c : Call) (o : Output) : Usage :=
  match c with
  | .init => if o.isOk then opened 0 else closed
  | .finalize => misused
  | c => if c.op.isSome then misused else closed

/-- A call between initialization and finalization. A communicator is given up by
`unicc_comm_destroy` whatever that returns, as some backends cannot destroy any. -/
def noteOpened (held : Multiset Ptr) (c : Call) (o : Output) : Usage :=
  match c with
  | .init => misused
  | .finalize => if held = 0 ∧ o.isOk then closed else misused
  | .commInitRank comm _ _ _ => if o.isOk then opened (o.madeComm comm ::ₘ held) else opened held
  | .commDestroy comm =>
      match Ledger.post held (.release comm) with
      | some held => opened held
      | none => misused
  | c =>
      match c.worksOn with
      | some comm => if comm ∈ held then opened held else misused
      | none => opened held

def note (u : Usage) (x : (World × Call) × Output) : Usage :=
  match u with
  | closed => noteClosed x.1.2 x.2
  | opened held => noteOpened held x.1.2 x.2
  | misused => misused

end Usage

/-- The usage after the recorded calls of a process. -/
def usageOf (calls : List ((World × Call) × Output)) : Usage :=
  Mealy.history Usage.note .closed calls

/-- The session of a process that initializes first and once. -/
def sessionOf (calls : List ((World × Call) × Output)) : Option Session :=
  match calls with
  | ((w, .init), _) :: _ => (openSession .linux w).session
  | _ => none

/-- The call is a successful `unicc_comm_init_rank` that left its caller this communicator. -/
def Made (x : (World × Call) × Output) (comm : Ptr) : Prop :=
  ∃ ref nranks id rank, x.1.2 = .commInitRank ref nranks id rank ∧ x.2.isOk = true ∧
    comm = x.2.madeComm ref

/-! ## Native calls in recorded calls -/

/-- What the session's library exports under its family's name for the operation. -/
def Session.exported (s : Session) (op : Op) : Option FnPtr :=
  s.world.dlsym (some s.handle) (s.family.name ++ op.suffix)

/-- The call is a `unicc_get_unique_id` whose native function succeeded after writing
these bytes, as many as an id of its family has. -/
def Wrote (s : Session) (x : (World × Call) × Output) (bytes : List UInt8) : Prop :=
  x.1.2.op = some .getUniqueId ∧ bytes.length = s.family.uidBytes.toNat ∧
    ∃ f, s.exported .getUniqueId = some f ∧ .native f [.localUid bytes.length] 0 ∈ x.2.events ∧
      bytes = (List.range bytes.length).map (x.1.1.invoke f [.localUid bytes.length]).uidOut

/-- The call invoked the native `CommInitRank` with these numbers and this id, and it
returned `rc`. -/
def Joined (s : Session) (x : (World × Call) × Output) (nranks rank : Int32)
    (bytes : List UInt8) (rc : Int32) : Prop :=
  x.1.2.op = some .commInitRank ∧ ∃ f comm n, s.exported .commInitRank = some f ∧
    .native f [.ptr comm, n, .uid bytes, .int rank] rc ∈ x.2.events ∧ n.value = .num nranks.toInt

/-- The call reduced over the communicator, with success in the backend. -/
def ReducedOver (s : Session) (x : (World × Call) × Output) (comm : Ptr) : Prop :=
  x.1.2.op = some .allreduce ∧ x.1.2.worksOn = some comm ∧
    ∃ f args, s.exported .allreduce = some f ∧ .native f args 0 ∈ x.2.events ∧ .ptr comm ∈ args

/-- The bytes of the id that a call has given to its caller, if it has given one. -/
def handedOut (x : (World × Call) × Output) : List UInt8 :=
  match x.1.2 with
  | .getUniqueId (some id) =>
      if x.2.isOk then (x.2.idAfter id.val).firstBytes (x.2.idAfter id.val).len.toNat else []
  | _ => []

/-- The bytes of the first id that the calls have given to their caller; none before. -/
def obtained (calls : List ((World × Call) × Output)) : List UInt8 :=
  Mealy.history (fun bytes x => if bytes = [] then handedOut x else bytes) [] calls

end UniCCL
