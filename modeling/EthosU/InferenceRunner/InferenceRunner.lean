import EthosU.DriverLibrary.Inference
import EthosU.InferenceRunner.PrePostProcessing

/-!
# The inference runner

`utils/inference_runner/inference_runner.cpp`: a network is created from a file or from an index,
and then one inference for every IFM file, with buffers of its own.

The program is modelled from its options to the point where all inferences have been submitted; what
it does with them afterwards is to wait and to print.
-/

set_option autoImplicit false

namespace EthosU

open Wp

namespace InferenceRunner

/-- The variables the command line sets. -/
structure Options where
  networkArg : String
  networkIndex : Int32 := -1
  ifmArg : List String
  enabledCounters : List UInt8 := List.replicate ethosuPmuEventMax 0
  devArg : String := "/dev/ethosu0"
  lblArg : String := "labels.txt"
  enableCycleCounter : Bool := false

variable (env : Env)

/-- The destructor of a vector of buffers. -/
def releaseAll (buffers : List (Shared Buffer)) : M Unit := buffers.forM (Buffer.release env)

def allocAndFill (device : Device) (filename : String) : M (Shared Buffer) := do
  let stream := env.files filename
  if !stream.opens then throw (.exit 1)
  let size := stream.tellg
  let buffer ← Buffer.new env device size >>= makeShared
  unwinding (Buffer.release env buffer) do
    buffer.obj.resize env size
    stream.read buffer.obj.fd (← buffer.obj.data env) size
    return buffer

/-- The pass of the first loop of `createInference` for one tensor of the network. -/
def fillIfm (device : Device) (filename : String) (ifmSize : UInt64) (inputType : Int32)
    (inputShape : List UInt64) : M (Shared Buffer) := do
  let buffer ← Buffer.new env device ifmSize >>= makeShared
  unwinding (Buffer.release env buffer) do
    buffer.obj.resize env ifmSize
    match ElementType.ofTensorType inputType with
    | some t =>
      let _ ← getInputFromFile env t filename (← buffer.obj.data env) inputShape
      return buffer
    | none => throw (.exit 1)

/-- The first loop of `createInference`, which appends to `ifm`. -/
def fillIfms (device : Device) (filename : String) :
    List (UInt64 × Int32 × List UInt64) → List (Shared Buffer) → M (List (Shared Buffer))
  | [], ifm => return ifm
  | (ifmSize, inputType, inputShape) :: tensors, ifm => do
    let buffer ← unwinding (releaseAll env ifm)
      (fillIfm env device filename ifmSize inputType inputShape)
    fillIfms device filename tensors (ifm ++ [buffer])

/-- The second loop of `createInference`, which appends to `ofm`. -/
def allocOfms (device : Device) : List UInt64 → List (Shared Buffer) → M (List (Shared Buffer))
  | [], ofm => return ofm
  | size :: sizes, ofm => do
    let buffer ← unwinding (releaseAll env ofm) (Buffer.new env device size >>= makeShared)
    allocOfms device sizes (ofm ++ [buffer])

/-- The tensors of a network, as `createInference` goes through them. -/
def ifmTensors (network : Network) : List (UInt64 × Int32 × List UInt64) :=
  network.ifmDims.zip (network.ifmTypes.zip network.ifmShapes)

def createInference (device : Device) (network : Shared Network) (filename : String)
    (counters : List UInt8) (enableCycleCounter : Bool) : M (Shared Inference) := do
  let ifm ← fillIfms env device filename (ifmTensors network.obj) []
  let ofm ← unwinding (releaseAll env ifm) (allocOfms env device network.obj.ofmDims [])
  let inference ← unwinding (destroyBoth (releaseAll env ofm) (releaseAll env ifm))
    (Inference.ofBuffers env network ifm ofm (counters.map UInt8.toUInt32) enableCycleCounter
      >>= makeShared)
  destroyBoth (releaseAll env ofm) (releaseAll env ifm)
  return inference

/-- The network, from a file or from the index of one in the firmware. -/
def createNetwork (o : Options) (device : Device) : M (Shared Network) := do
  if o.networkIndex < 0 then
    let networkBuffer ← allocAndFill env device o.networkArg
    let network ← unwinding (Buffer.release env networkBuffer)
      (Network.ofBuffer env device networkBuffer >>= makeShared)
    Buffer.release env networkBuffer
    return network
  else
    Network.ofIndex env device o.networkIndex.toUInt32 >>= makeShared

/-- One inference per IFM file. -/
def createInferences (o : Options) (device : Device) (network : Shared Network) :
    List String → List (Shared Inference) → M (List (Shared Inference))
  | [], inferences => return inferences
  | filename :: filenames, inferences => do
    let inference ← unwinding (inferences.forM (Inference.release env))
      (createInference env device network filename o.enabledCounters o.enableCycleCounter)
    createInferences o device network filenames (inferences ++ [inference])

/-- `main`, from the options to the point where it waits for the inferences. -/
def submit (o : Options) : M (Device × Shared Network × List (Shared Inference)) := do
  if !(env.files o.lblArg).opens then throw (.exit 1)
  let device ← Device.new env o.devArg
  unwinding (device.destroy env) do
    discard (eioctl env (.ping device.fd))
    discard (eioctl env (.versionReq device.fd))
    device.capabilities env
    let network ← createNetwork env o device
    let inferences ← unwinding (Inference.releaseNetwork env network)
      (createInferences env o device network o.ifmArg [])
    return (device, network, inferences)

end InferenceRunner

end EthosU
