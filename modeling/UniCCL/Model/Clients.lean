import UniCCL.Model.Rank

/-! # The example programs

`examples/minimal.c` and `examples/find_package-consumer/main.c`, as the calls they
make and the value `main` returns. What they print is not kept; the getters whose
results are printed are called.
-/

namespace UniCCL

open CString Main

/-- `UNICC_F32` and `UNICC_SUM`. -/
def uniccF32 : UInt32 := 7
def uniccSum : UInt32 := 0

/-- `rc == UNICC_OK`. -/
def Output.isOk (o : Output) : Bool := o.code == UniccResult.ok.code

namespace Minimal

/-- The automatic variables of `main`, with what they hold before it writes them. -/
structure Locals where
  ver : CharArray 64
  bv : Ptr
  id : Ref CommId
  comm : Ptr
  input : Ptr
  output : Ptr
  input_ne : input ≠ .null
  output_ne : output ≠ .null

/-- The block under `unicc_allreduce_available`. -/
def reduce (v : Locals) (comm : Ptr) : Main Unit := do
  let available ← api .allreduceAvailable
  if available.code ≠ 0 then do
    let _ ← api (.allreduce v.input v.output 4 uniccF32 uniccSum comm .null)
    return ()
  else return ()

/-- The block under `unicc_get_unique_id`, with the id it left. -/
def join (v : Locals) (id : CommId) : Main Unit := do
  let made ← api (.commInitRank (some ⟨v.comm, .null⟩) 1 (some ⟨v.id.addr, id⟩) 0)
  if made.isOk then do
    reduce v (made.commAfter .null)
    let _ ← api (.commDestroy (made.commAfter .null))
    return ()
  else return ()

/-- The block under `unicc_comm_available`. -/
def communicate (v : Locals) : Main Unit := do
  let available ← api .commAvailable
  if available.code ≠ 0 then do
    let got ← api (.getUniqueId (some v.id))
    if got.isOk then join v (got.idAfter v.id.val) else return ()
  else return ()

def main (v : Locals) : Main Int32 := do
  let rc ← api .init
  if rc.isOk then do
    let _ ← api (.getVersion (some v.ver))
    let _ ← api (.backendVersion (some ⟨v.bv, 0⟩))
    let _ ← api .backendName
    let _ ← api .getLibraryPath
    communicate v
    let _ ← api .finalize
    return 0
  else return 1

end Minimal

namespace FindPackage

structure Locals where
  ver : CharArray 64
  bv : Ptr

def main (v : Locals) : Main Int32 := do
  let rc ← api .init
  if rc.isOk then do
    let _ ← api (.getVersion (some v.ver))
    let _ ← api (.backendVersion (some ⟨v.bv, 0⟩))
    let _ ← api .backendName
    let _ ← api .allreduceAvailable
    let _ ← api .finalize
    return 0
  else return 1

end FindPackage

end UniCCL
