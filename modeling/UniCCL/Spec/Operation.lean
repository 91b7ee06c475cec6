import UniCCL.Model.Api

/-! # Operations as direct native calls

What a backend operation is for, without the dispatch table: a symbol of the
family, checks on the arguments, and the argument list a direct call of that
symbol would pass. Nothing here is computed from the wrapper.
-/

namespace UniCCL

open CString

/-- The ten operations the table has a slot for. -/
inductive Op
  | getVersion
  | commInitRank
  | allreduce
  | broadcast
  | getUniqueId
  | commDestroy
  | commCount
  | commUserRank
  | groupStart
  | groupEnd
deriving DecidableEq, Repr

namespace Op

def suffix : Op → CStr
  | getVersion => .lit "GetVersion"
  | commInitRank => .lit "CommInitRank"
  | allreduce => .lit "AllReduce"
  | broadcast => .lit "Broadcast"
  | getUniqueId => .lit "GetUniqueId"
  | commDestroy => .lit "CommDestroy"
  | commCount => .lit "CommCount"
  | commUserRank => .lit "CommUserRank"
  | groupStart => .lit "GroupStart"
  | groupEnd => .lit "GroupEnd"

/-- The operations a backend must export. -/
def core : List Op := [getVersion, commInitRank, allreduce, broadcast]

end Op

/-- The symbol of a family that backs an operation. -/
def BackendInfo.symbol (d : BackendInfo) (op : Op) : CStr := d.name ++ op.suffix

/-- The operations a family has: all but `CommUserRank` where the row excludes it. -/
def BackendInfo.has (d : BackendInfo) (op : Op) : Bool :=
  d.hasCommUserRank || op ≠ .commUserRank

/-- The native function that backs an operation, if the family has the operation and
the library exports it. -/
def backing (w : World) (h : Handle) (d : BackendInfo) (op : Op) : Option FnPtr :=
  if d.has op then w.dlsym (some h) (d.symbol op) else none

/-- The first `n` bytes of an id. -/
def CommId.firstBytes (id : CommId) (n : Nat) : List UInt8 :=
  (List.range n).map fun k => if h : k < uniccCommIdMax then id.data ⟨k, h⟩ else 0

namespace Call

/-- The operation a call is a request for; the other calls are the wrapper's own. -/
def op : Call → Option Op
  | backendVersion _ => some .getVersion
  | getUniqueId _ => some .getUniqueId
  | commInitRank .. => some .commInitRank
  | commDestroy _ => some .commDestroy
  | commCount .. => some .commCount
  | commUserRank .. => some .commUserRank
  | allreduce .. => some .allreduce
  | broadcast .. => some .broadcast
  | groupStart => some .groupStart
  | groupEnd => some .groupEnd
  | _ => none

/-- The arguments are ones a backend can be called with. -/
def argsValid : Call → Prop
  | backendVersion version => version.isSome
  | getUniqueId id => id.isSome
  | commInitRank comm nranks id rank =>
      comm.isSome ∧ 1 ≤ nranks ∧ 0 ≤ rank ∧ rank < nranks ∧ ∃ r, id = some r ∧ r.val.len ≠ 0
  | commCount _ count => count.isSome
  | commUserRank _ rank => rank.isSome
  | allreduce sendbuf recvbuf count datatype op _ _ =>
      sendbuf ≠ .null ∧ recvbuf ≠ .null ∧ count ≠ 0 ∧ datatype < 10 ∧ op < 4
  | broadcast buf count datatype _ _ _ => buf ≠ .null ∧ count ≠ 0 ∧ datatype < 10
  | _ => True

/-- A bootstrap id must have the length of the family's native id. -/
def idFits (d : BackendInfo) : Call → Prop
  | commInitRank _ _ (some id) _ => id.val.len = d.uidBytes
  | _ => True

/-- `nranks` in the type the family declares it with. -/
def nranksArg (d : BackendInfo) (nranks : Int32) : CArg :=
  if d.nranksIsSizeT then .size (UInt64.ofNat nranks.toNatClampNeg) else .int nranks

/-- The argument list of a direct call of the family's function. -/
def directArgs (d : BackendInfo) : Call → List CArg
  | backendVersion (some version) => [.ptr version.addr]
  | getUniqueId _ => [.localUid d.uidBytes.toNat]
  | commInitRank (some comm) nranks (some id) rank =>
      [.ptr comm.addr, nranksArg d nranks, .uid (id.val.firstBytes d.uidBytes.toNat), .int rank]
  | commDestroy comm => [.ptr comm]
  | commCount comm (some count) => [.ptr comm, .ptr count.addr]
  | commUserRank comm (some rank) => [.ptr comm, .ptr rank.addr]
  | allreduce sendbuf recvbuf count datatype op comm stream =>
      [.ptr sendbuf, .ptr recvbuf, .size count, .int datatype.toInt32, .int op.toInt32,
        .ptr comm, .ptr stream]
  | broadcast buf count datatype root comm stream =>
      if d.broadcastDoubleBuffered then
        [.ptr buf, .ptr buf, .size count, .int datatype.toInt32, .int root, .ptr comm,
          .ptr stream]
      else [.ptr buf, .size count, .int datatype.toInt32, .int root, .ptr comm, .ptr stream]
  | _ => []

/-- The out-parameter as the caller passed it. -/
def outBefore : Call → OutParam
  | backendVersion version => .int version
  | getUniqueId id => .id id
  | commInitRank comm _ _ _ => .comm comm
  | commCount _ count => .int count
  | commUserRank _ rank => .int rank
  | _ => .none

/-- The out-parameter after the native function has replied. A bootstrap id is handed
out only when the native function reports success. -/
def outAfter (d : BackendInfo) (reply : NativeReply) : Call → OutParam
  | backendVersion version => .int (version.map (·.updated reply.intOut))
  | getUniqueId id =>
      .id <| id.map fun r =>
        if reply.rc = 0 then { r with val := r.val.store d.uidBytes.toNat reply.uidOut } else r
  | commInitRank comm _ _ _ => .comm (comm.map (·.updated reply.commOut))
  | commCount _ count => .int (count.map (·.updated reply.intOut))
  | commUserRank _ rank => .int (rank.map (·.updated reply.intOut))
  | _ => .none

instance (c : Call) : Decidable c.argsValid := by
  cases c <;> unfold argsValid
  case commInitRank comm nranks id rank =>
    have : Decidable (∃ r, id = some r ∧ r.val.len ≠ 0) :=
      match id with
      | none => .isFalse (by simp)
      | some r => decidable_of_iff (r.val.len ≠ 0) (by simp)
    infer_instance
  all_goals infer_instance

instance (d : BackendInfo) (c : Call) : Decidable (c.idFits d) := by
  unfold idFits
  split <;> infer_instance

end Call

/-! ## What the arguments mean -/

/-- The value an argument has for the function that receives it, whatever C type
carries it. -/
inductive ArgValue
  | ptr (p : Ptr)
  | num (v : Int)
  | id (bytes : List UInt8)
  | localId (n : Nat)
deriving DecidableEq

def CArg.value : CArg → ArgValue
  | ptr p => .ptr p
  | int v => .num v.toInt
  | size v => .num v.toNat
  | uid bytes => .id bytes
  | localUid n => .localId n

namespace Call

/-- The caller's values in the order of the native parameters. -/
def values (d : BackendInfo) : Call → List ArgValue
  | backendVersion (some version) => [.ptr version.addr]
  | getUniqueId _ => [.localId d.uidBytes.toNat]
  | commInitRank (some comm) nranks (some id) rank =>
      [.ptr comm.addr, .num nranks.toInt, .id (id.val.firstBytes d.uidBytes.toNat),
        .num rank.toInt]
  | commDestroy comm => [.ptr comm]
  | commCount comm (some count) => [.ptr comm, .ptr count.addr]
  | commUserRank comm (some rank) => [.ptr comm, .ptr rank.addr]
  | allreduce sendbuf recvbuf count datatype op comm stream =>
      [.ptr sendbuf, .ptr recvbuf, .num count.toNat, .num datatype.toNat, .num op.toNat,
        .ptr comm, .ptr stream]
  | broadcast buf count datatype root comm stream =>
      let rest := [.num count.toNat, .num datatype.toNat, .num root.toInt, .ptr comm, .ptr stream]
      if d.broadcastDoubleBuffered then .ptr buf :: .ptr buf :: rest else .ptr buf :: rest
  | _ => []

/-- Numbers of a call are in the ranges the native functions expect. -/
def InRange : Call → Prop
  | commInitRank _ nranks _ rank =>
      1 ≤ nranks.toInt ∧ 0 ≤ rank.toInt ∧ rank.toInt < nranks.toInt
  | allreduce _ _ _ datatype op _ _ => datatype.toNat ≤ 9 ∧ op.toNat ≤ 3
  | broadcast _ _ datatype _ _ _ => datatype.toNat ≤ 9
  | _ => True

end Call

/-- The parameters of `Broadcast` as the vendors declare them. -/
structure BroadcastParams where
  sendbuff : Ptr
  recvbuff : Ptr
  count : UInt64
  datatype : Int32
  root : Int32
  comm : Ptr
  stream : Ptr
deriving DecidableEq

/-- What the seven parameters receive, `none` for a list that is not made for them. -/
def BroadcastParams.receive : List CArg → Option BroadcastParams
  | [.ptr sendbuff, .ptr recvbuff, .size count, .int datatype, .int root, .ptr comm,
      .ptr stream] => some ⟨sendbuff, recvbuff, count, datatype, root, comm, stream⟩
  | _ => none

/-! ## Slots -/

/-- The static pointer a `comm_init_rank` adapter calls. -/
def CommInitRankSlot.static (s : Statics) : CommInitRankSlot → Option FnPtr
  | .wrapCommInitRankN128 => s.sRankInitN128
  | .wrapCommInitRankS128 => s.sRankInitS128
  | .wrapCommInitRankS4096 => s.sRankInitS4096

def GetUniqueIdSlot.static (s : Statics) : GetUniqueIdSlot → Option FnPtr
  | .wrapGetUniqueId128 => s.sUidGet128
  | .wrapGetUniqueId4096 => s.sUidGet4096

def BroadcastSlot.static (s : Statics) : BroadcastSlot → Option FnPtr
  | .native fn => some fn
  | .wrapBroadcastDb => s.sBroadcastDb

/-- Whether the table has a slot for the operation filled. -/
def Vtable.filled (t : Vtable) : Op → Bool
  | .getVersion => t.getVersion.isSome
  | .commInitRank => t.commInitRank.isSome
  | .allreduce => t.allreduce.isSome
  | .broadcast => t.broadcast.isSome
  | .getUniqueId => t.getUniqueId.isSome
  | .commDestroy => t.commDestroy.isSome
  | .commCount => t.commCount.isSome
  | .commUserRank => t.commUserRank.isSome
  | .groupStart => t.groupStart.isSome
  | .groupEnd => t.groupEnd.isSome

/-- The native pointer a slot ultimately calls, `none` for a NULL slot and for an
adapter over a NULL pointer. -/
def slotTarget (s : Statics) (t : Vtable) : Op → Option FnPtr
  | .getVersion => t.getVersion
  | .commInitRank => t.commInitRank.bind (·.static s)
  | .allreduce => t.allreduce
  | .broadcast => t.broadcast.bind (·.static s)
  | .getUniqueId => t.getUniqueId.bind (·.static s)
  | .commDestroy => t.commDestroy
  | .commCount => t.commCount
  | .commUserRank => t.commUserRank
  | .groupStart => t.groupStart
  | .groupEnd => t.groupEnd

end UniCCL
