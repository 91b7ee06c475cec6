import UniCCL.Lib.Decimal
import UniCCL.Model.Clients

/-! # The integration test

`tests/integration/test_integration.c`, one process for each rank, and the launch by
`run_integration.sh`. Rank 0 publishes its bootstrap id in a file, the others poll
for it. What is printed on stdout and stderr is not kept, and whether the sums that
come back are the expected ones is for the device to say: they are floats.
-/

namespace UniCCL.Integration

open CString Stdio Main

/-! ## Configuration -/

def sizeVar : CStr := .lit "UNICC_TEST_WORLD_SIZE"
def rankVar : CStr := .lit "UNICC_TEST_WORLD_RANK"
def uidFileVar : CStr := .lit "UNICC_TEST_UID_FILE"

/-- `env_or`. -/
def envOr (getenv : CStr → Option CStr) (name dflt : CStr) : CStr :=
  match getenv name with
  | some v => if v.bytes = [] then dflt else v
  | none => dflt

/-- The first three variables of `main`. -/
structure Config where
  world : Int32
  rank : Int32
  uidFile : Option CStr

def configOf (getenv : CStr → Option CStr) : Config where
  world := atoi (envOr getenv sizeVar (.lit "1"))
  rank := atoi (envOr getenv rankVar (.lit "0"))
  uidFile := getenv uidFileVar

/-- The other automatic variables of `main`, with what they hold before it writes
them, and the process id. -/
structure Locals where
  bv : Ptr
  id : Ref CommId
  comm : Ptr
  count : Ptr
  dSend : Ptr
  dRecv : Ptr
  hSend : Ptr
  hRecv : Ptr
  pid : Nat

/-- `PATH_MAX`. -/
def pathMax : Nat := 4096

/-- `snprintf(tmp, sizeof tmp, "%s.tmp.%ld", uid_file, (long)getpid())`. -/
def tmpName (uidFile : CStr) (pid : Nat) : CStr :=
  CharArray.formatted pathMax (uidFile ++ .lit ".tmp." ++ decimal pid)

/-! ## `main` -/

/-- From `unicc_init` to the check of the backend version; `false` returns 2. -/
def bringUp (v : Locals) : Main Bool := do
  let rc ← api .init
  if rc.isOk then do
    let _ ← api .backendName
    let _ ← api .getLibraryPath
    let got ← api (.backendVersion (some ⟨v.bv, 0⟩))
    return got.isOk
  else return false

/-- The id is written to a sibling of the file, which is then renamed. -/
def publish (c : Config) (v : Locals) (id : CommId) : Main Bool :=
  if c.world > 1 then
    match c.uidFile with
    | none => return false
    | some uidFile => do
        match ← fopenWrite (tmpName uidFile v.pid) with
        | none => return false
        | some f => do
            let n ← fwrite f (id.load id.len.toNat)
            if n = id.len.toNat then do
              fclose f
              rename (tmpName uidFile v.pid) uidFile
            else return false
  else return true

/-- The branch of rank 0. -/
def provideId (c : Config) (v : Locals) : Main (Option CommId) := do
  let got ← api (.getUniqueId (some v.id))
  if got.isOk then do
    let published ← publish c v (got.idAfter v.id.val)
    return if published then some (got.idAfter v.id.val) else none
  else return none

/-- The body of the polling loop up to the sleep. -/
def readOnce (uidFile : Option CStr) : Main (List UInt8) :=
  match uidFile with
  | none => return []
  | some path => do
      match ← fopenRead path with
      | none => return []
      | some f => do
          let got ← fread f uniccCommIdMax
          fclose f
          return got

/-- The polling loop with that many tries left. -/
def poll (uidFile : Option CStr) : Nat → Main (List UInt8)
  | 0 => return []
  | tries + 1 => do
      let got ← readOnce uidFile
      if got = [] then do
        usleep 10000
        poll uidFile tries
      else return got

/-- `fread` into `id.data`, then `id.len = got`. -/
def received (id : CommId) (got : List UInt8) : CommId := id.store got.length fun i => got.getD i 0

/-- The branch of the other ranks. -/
def consumeId (c : Config) (v : Locals) : Main (Option CommId) := do
  let got ← poll c.uidFile 3000
  return if got = [] then none else some (received v.id.val got)

def bootstrap (c : Config) (v : Locals) : Main (Option CommId) :=
  if c.rank = 0 then provideId c v else consumeId c v

/-- Each rank takes the device of its own number. -/
def bindDevice (c : Config) : Main Bool := do
  let rc ← devmemLoad
  if rc = 0 then do
    let counted ← device .getDeviceCount
    let gpuCount := counted.count.getD 0
    if counted.rc ≠ 0 ∨ gpuCount < 1 then return false
    else if c.world > gpuCount then return false
    else do
      let bound ← device (.setDevice c.rank)
      return bound.rc = 0
  else return false

/-- `n * sizeof(float)`. -/
def bufferBytes : UInt64 := 16

/-- From the device buffers to the comparison of the sums, with the two pointers. -/
def exchange (v : Locals) (comm : Ptr) : Main (Option (Ptr × Ptr)) := do
  let send ← device (.malloc v.dSend bufferBytes)
  if send.rc = 0 then do
    let recv ← device (.malloc v.dRecv bufferBytes)
    if recv.rc = 0 then do
      let dSend := send.ptr.getD .null
      let dRecv := recv.ptr.getD .null
      let copied ← device (.memcpy dSend v.hSend bufferBytes 1)
      if copied.rc = 0 then do
        let cleared ← device (.memset dRecv 0 bufferBytes)
        if cleared.rc = 0 then do
          let rc ← api (.allreduce dSend dRecv 4 uniccF32 uniccSum comm .null)
          if rc.isOk then do
            let back ← device (.memcpy v.hRecv dRecv bufferBytes 2)
            return if back.sumMatches then some (dSend, dRecv) else none
          else return none
        else return none
      else return none
    else return none
  else return none

/-- After the comparison: the size of the communicator, and the way down. -/
def conclude (c : Config) (v : Locals) (comm dSend dRecv : Ptr) : Main Int32 := do
  let counted ← api (.commCount comm (some ⟨v.count, 0⟩))
  if counted.isOk ∧ counted.intAfter 0 = c.world then do
    let _ ← device (.free dSend)
    let _ ← device (.free dRecv)
    let destroyed ← api (.commDestroy comm)
    if destroyed.isOk then do
      let _ ← api .backendName
      let rc ← api .finalize
      return if rc.isOk then 0 else 2
    else return 2
  else return 2

/-- From the communicator on. -/
def collective (c : Config) (v : Locals) (id : CommId) : Main Int32 := do
  let made ← api (.commInitRank (some ⟨v.comm, .null⟩) c.world (some ⟨v.id.addr, id⟩) c.rank)
  if made.isOk then do
    match ← exchange v (made.commAfter .null) with
    | none => return 2
    | some (dSend, dRecv) => conclude c v (made.commAfter .null) dSend dRecv
  else return 2

/-- What `main` does once the configuration is checked. -/
def body (c : Config) (v : Locals) : Main Int32 := do
  let up ← bringUp v
  if up then do
    match ← bootstrap c v with
    | none => return 2
    | some id => do
        let bound ← bindDevice c
        if bound then collective c v id else return 2
  else return 2

def main (c : Config) (v : Locals) : Main Int32 :=
  if c.world < 1 ∨ c.rank < 0 ∨ c.rank ≥ c.world then return 2 else body c v

/-! ## The launch -/

/-- What `run_integration.sh` adds to the environment of the process with rank `r`. -/
def rankEnv (inherited : CStr → Option CStr) (world : Nat) (uidFile : CStr) (r : Nat) :
    CStr → Option CStr := fun name =>
  if name = sizeVar then some (decimal world)
  else if name = rankVar then some (decimal r)
  else if name = uidFileVar then some uidFile
  else inherited name

/-- One run of the script: the number of ranks, the file `mktemp` has just created, the
rest of the environment, and for each process its variables and what its stack holds. -/
structure Launch where
  world : Nat
  uidFile : CStr
  inherited : CStr → Option CStr
  locals : Nat → Locals
  devmem : Nat → Devmem
  files : Files
  /-- the ranks can be numbered by an `int` -/
  world_lt : world < 2147483648
  /-- the file of `mktemp` is empty, closed and has no other name -/
  uidFile_new : ∃ f, files.dir uidFile = some f ∧ files.content f = [] ∧
    files.buffered f = none ∧ ∀ path, files.dir path = some f → path = uidFile

/-- The program of process `r`; the script starts those below the world size. -/
def Launch.program (l : Launch) (r : Nat) : Main Int32 :=
  if r < l.world then main (configOf (rankEnv l.inherited l.world l.uidFile r)) (l.locals r)
  else return 0

def Launch.start (l : Launch) : Threads.Config Nat Action.Reply Host Int32 where
  store := ⟨fun r => .start (l.devmem r), l.files⟩
  threads := l.program

/-- The processes after some actions, each of the process that is picked. -/
def Launch.after (l : Launch) (schedule : List (Nat × Answer)) :
    Threads.Config Nat Action.Reply Host Int32 := Threads.run act l.start schedule

/-- The exit status of a process that has ended. -/
def exitOf : Main Int32 → Option Int32
  | .done rc => some rc
  | .act .. => none

/-- The script prints PASSED: every process it waited for ended with status 0. -/
def passed (world : Nat) (s : Threads.Config Nat Action.Reply Host Int32) : Bool :=
  (List.range world).all fun r => exitOf (s.threads r) = some 0

end UniCCL.Integration
