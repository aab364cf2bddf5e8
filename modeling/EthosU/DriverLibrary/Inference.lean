import EthosU.DriverLibrary.Network

/-!
# Inferences

The class `Inference` of the driver library.  Its constructors end in `create`, which fills in an
`ethosu_uapi_inference_create` on the stack and hands it to the driver; from then on the inference
runs, and the object polls, cancels and queries it through its descriptor.

`create` fills the struct with three loops.  The counters the first two of them increment are
members of the struct itself, and the tensor arena takes the first place among the input feature
maps.  `Inference.encode` performs the same stores on a flat memory and keeps a record of the
subscripts it used.  The struct starts out with whatever the stack held.
-/

set_option autoImplicit false

namespace EthosU

structure Inference where
  fd : Fd
  network : Shared Network
  ifmBuffers : List (Shared Buffer)
  ofmBuffers : List (Shared Buffer)
  arenaBuffer : Shared Buffer

namespace Inference

/-! ## Filling in the request -/

/-- What the loops of `create` leave behind: the struct, and the subscripts of the stores to its
two arrays of descriptors. -/
structure Encoded where
  uapi : Words
  ifmSubscripts : List Nat
  ofmSubscripts : List Nat

section

open InferenceCreate

/-- The stores to `ifm_count` and `ifm_fd`. -/
def storeIfm (uapi : Words) (fds : List UInt32) : Words :=
  uapi.storeCounted ifmCount ifmFd fds

/-- The stores to `ofm_count` and `ofm_fd`. -/
def storeOfm (uapi : Words) (fds : List UInt32) : Words :=
  uapi.storeCounted ofmCount ofmFd fds

/-- The stores to `pmu_config.events`. -/
def storeEvents (uapi : Words) (counterConfigs : List UInt32) : Words :=
  uapi.fill events (fun i ↦ counterConfigs.getD i 0) ethosuPmuEventMax

/-- The struct `create` hands to the driver, from the one it found on the stack. -/
def encode (uapi : Words) (arena : Fd) (ifm ofm : List Fd) (counterConfigs : List UInt32)
    (cycleCounterEnable : Bool) : Encoded :=
  let ifmWords := (arena :: ifm).map Int32.toUInt32
  let ofmWords := ofm.map Int32.toUInt32
  let ifmStored := storeIfm uapi ifmWords
  let ofmStored := storeOfm ifmStored ofmWords
  { uapi := (storeEvents ofmStored counterConfigs).store cycleCount
      (if cycleCounterEnable then 1 else 0)
    ifmSubscripts := uapi.storeCountedSubscripts ifmCount ifmFd ifmWords
    ofmSubscripts := ifmStored.storeCountedSubscripts ofmCount ofmFd ofmWords }

end

variable (env : Env)

/-- The descriptors of a list of buffers. -/
def getFds (buffers : List (Shared Buffer)) : List Fd := buffers.map fun b ↦ b.obj.fd

/-- The request `create` makes from the process `p`. -/
def request (p : Process) (arenaBuffer : Shared Buffer)
    (ifmBuffers ofmBuffers : List (Shared Buffer)) (counterConfigs : List UInt32)
    (cycleCounterEnable : Bool) : Encoded :=
  encode (env.stack p.trace) arenaBuffer.obj.fd (getFds ifmBuffers) (getFds ofmBuffers)
    counterConfigs cycleCounterEnable

def create (network : Shared Network) (arenaBuffer : Shared Buffer)
    (ifmBuffers ofmBuffers : List (Shared Buffer)) (counterConfigs : List UInt32)
    (cycleCounterEnable : Bool) : M Fd := do
  if ifmBuffers.length > ethosuFdMax then throw (.error "IFM buffer overflow")
  if ofmBuffers.length > ethosuFdMax then throw (.error "OFM buffer overflow")
  if counterConfigs.length ≠ ethosuPmuEventMax then
    throw (.error "Wrong size of counter configurations")
  let p ← get
  let encoded := request env p arenaBuffer ifmBuffers ofmBuffers counterConfigs cycleCounterEnable
  let reply ← eioctl env (.inferenceCreate network.obj.fd encoded.uapi)
  return reply.ret

/-! ## Constructors and destructor -/

def initializeCounterConfig : List UInt32 := List.replicate ethosuPmuEventMax 0

/-- `std::copy(counters.begin(), counters.end(), counterConfigs.begin())`. -/
def copyCounters (counters counterConfigs : List UInt32) : List UInt32 :=
  counters ++ counterConfigs.drop counters.length

/-- `DEFAULT_ARENA_SIZE_OF_MB << 20`. -/
def defaultArenaSize : UInt64 := (16 : UInt64) <<< 20

/-- `~shared_ptr<Network>`. -/
def releaseNetwork (network : Shared Network) : M Unit := network.release (Network.destroy env)

/-- The members of an inference go away, in the reverse of the order they are declared in. -/
def releaseMembers (network : Shared Network) (ifmBuffers ofmBuffers : List (Shared Buffer))
    (arenaBuffer : Option (Shared Buffer)) : M Unit :=
  destroyBoth (arenaBuffer.forM (Buffer.release env))
    (destroyBoth (ofmBuffers.forM (Buffer.release env))
      (destroyBoth (ifmBuffers.forM (Buffer.release env)) (releaseNetwork env network)))

/-- The constructor from IFM and OFM buffers and counters, which allocates an arena of its own. -/
def ofBuffers (network : Shared Network) (ifmBuffers ofmBuffers : List (Shared Buffer))
    (counters : List UInt32) (enableCycleCounter : Bool) : M Inference := do
  network.copy
  ifmBuffers.forM Shared.copy
  ofmBuffers.forM Shared.copy
  let arenaBuffer ← unwinding (releaseMembers env network ifmBuffers ofmBuffers none) do
    if counters.length > ethosuPmuEventMax then
      throw (.error "PMU Counters argument to large.")
    let arenaBuffer ← Buffer.new env network.obj.device defaultArenaSize
    makeShared arenaBuffer
  unwinding (releaseMembers env network ifmBuffers ofmBuffers (some arenaBuffer)) do
    arenaBuffer.obj.resize env defaultArenaSize
    let fd ← create env network arenaBuffer ifmBuffers ofmBuffers
      (copyCounters counters initializeCounterConfig) enableCycleCounter
    return ⟨fd, network, ifmBuffers, ofmBuffers, arenaBuffer⟩

/-- The constructor from IFM and OFM buffers alone, which sets no counter. -/
def ofBuffersOnly (network : Shared Network) (ifmBuffers ofmBuffers : List (Shared Buffer)) :
    M Inference :=
  ofBuffers env network ifmBuffers ofmBuffers [] false

/-- The constructor that is given its arena. -/
def ofArena (network : Shared Network) (arenaBuffer : Shared Buffer) (counters : List UInt32)
    (enableCycleCounter : Bool) : M Inference := do
  network.copy
  arenaBuffer.copy
  unwinding (releaseMembers env network [] [] (some arenaBuffer)) do
    if counters.length > ethosuPmuEventMax then
      throw (.error "PMU Counters argument to large.")
    let fd ← create env network arenaBuffer [] []
      (copyCounters counters initializeCounterConfig) enableCycleCounter
    return ⟨fd, network, [], [], arenaBuffer⟩

def destroy (inference : Inference) : M Unit :=
  destroyBoth (discard (eclose env inference.fd))
    (releaseMembers env inference.network inference.ifmBuffers inference.ofmBuffers
      (some inference.arenaBuffer))

/-- `~shared_ptr<Inference>`. -/
def release (inference : Shared Inference) : M Unit := Shared.release inference (destroy env)

/-! ## Waiting, cancelling, querying -/

/-- The nanoseconds of a second. -/
def nanosec : Int64 := 1000000000

/-- The timeout `wait` passes to `ppoll`, nothing for a negative one. -/
def pollTimeout (timeoutNanos : Int64) : Option Timespec :=
  if timeoutNanos < 0 then none
  else some ⟨timeoutNanos / nanosec, timeoutNanos % nanosec⟩

/-- A negative timeout returns the number of ready descriptors as a `bool`, any other one compares
that number with zero. -/
def wait (inference : Inference) (timeoutNanos : Int64) : M Bool := do
  let reply ← eppoll env inference.fd (pollTimeout timeoutNanos)
  return if timeoutNanos < 0 then reply.ret != 0 else reply.ret == 0

def cancel (inference : Inference) : M Bool := do
  let reply ← eioctl env (.inferenceCancel inference.fd)
  return Status.ofWord (reply.data 0) == some .ok

def status (inference : Inference) : M Status := do
  let reply ← eioctl env (.inferenceStatus inference.fd)
  match Status.ofWord (reply.data 0) with
  | some status => return status
  | none => throw (.error "Unknown inference status")

/-- A counter that is not configured is reported as zero. -/
def getPmuCounters (inference : Inference) : M (List UInt32) := do
  let reply ← eioctl env (.inferenceStatus inference.fd)
  return (List.range ethosuPmuEventMax).map fun i ↦
    if reply.data (ResultStatus.configEvents + i) ≠ 0 then reply.data (ResultStatus.countEvents + i)
    else 0

/-- The lower word comes first. -/
def getCycleCounter (inference : Inference) : M UInt64 := do
  let reply ← eioctl env (.inferenceStatus inference.fd)
  return (reply.data ResultStatus.cycleCount).toUInt64
    ||| (reply.data (ResultStatus.cycleCount + 1)).toUInt64 <<< 32

end Inference

end EthosU
