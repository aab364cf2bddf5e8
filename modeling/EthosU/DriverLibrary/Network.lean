import EthosU.DriverLibrary.Buffer

/-!
# Networks

The class `Network` of the driver library.  A network is created from a buffer that holds a model,
or from the index of a model built into the firmware; either way the constructor asks the driver
for the tensors of the network and keeps what it is told in vectors.

`NETWORK_INFO` fills in fixed-size arrays, and the loops that copy them run up to the counts the
driver reported.
-/

set_option autoImplicit false

namespace EthosU

structure Network where
  fd : Fd
  buffer : Option (Shared Buffer)
  ifmDims : List UInt64
  ofmDims : List UInt64
  ifmDataOffset : List Int32
  ofmDataOffset : List Int32
  ifmShapes : List (List UInt64)
  ofmShapes : List (List UInt64)
  ifmTypes : List Int32
  ofmTypes : List Int32
  device : Device
  isVelaModel : Bool

namespace NetworkInfo.Tensors

variable (t : NetworkInfo.Tensors) (info : Words)

/-- The indices of the tensors, `0, …, count - 1`. -/
def indices : List Nat := List.range (info t.count).toNat

def sizes : List UInt64 := (t.indices info).map fun i ↦ (info (t.size + i)).toUInt64

def typesOf : List Int32 := (t.indices info).map fun i ↦ (info (t.types + i)).toInt32

def dataOffsets : List Int32 := (t.indices info).map fun i ↦ (info (t.offset + i)).toInt32

/-- The shape of tensor `i`: the first `dims[i]` entries of row `i`. -/
def shape (i : Nat) : List UInt64 :=
  (List.range (info (t.dims + i)).toNat).map fun j ↦
    (info (t.shapes + ethosuDimMax * i + j)).toUInt64

def shapesOf : List (List UInt64) := (t.indices info).map (t.shape info)

end NetworkInfo.Tensors

namespace Network

variable (env : Env)

/-- The network at `fd`, with the vectors `collectNetworkInfo` fills from the driver's reply. -/
def ofInfo (device : Device) (fd : Fd) (buffer : Option (Shared Buffer)) (info : Words) :
    Network where
  fd := fd
  buffer := buffer
  ifmDims := NetworkInfo.ifm.sizes info
  ofmDims := NetworkInfo.ofm.sizes info
  ifmDataOffset := NetworkInfo.ifm.dataOffsets info
  ofmDataOffset := NetworkInfo.ofm.dataOffsets info
  ifmShapes := NetworkInfo.ifm.shapesOf info
  ofmShapes := NetworkInfo.ofm.shapesOf info
  ifmTypes := NetworkInfo.ifm.typesOf info
  ofmTypes := NetworkInfo.ofm.typesOf info
  device := device
  isVelaModel := info NetworkInfo.isVela != 0

/-- The part the two constructors share: create the network, collect its information, and close
the descriptor again if that fails. -/
def create (device : Device) (buffer : Option (Shared Buffer)) (type : NetworkType)
    (arg : UInt32) : M Network := do
  let created ← eioctl env (.networkCreate device.fd type arg)
  let reply ← catching (discard (eclose env created.ret)) (eioctl env (.networkInfo created.ret))
  return ofInfo device created.ret buffer reply.data

def ofBuffer (device : Device) (buffer : Shared Buffer) : M Network := do
  buffer.copy
  unwinding (Buffer.release env buffer)
    (create env device (some buffer) .buffer buffer.obj.fd.toUInt32)

def ofIndex (device : Device) (index : UInt32) : M Network :=
  create env device none .index index

def destroy (network : Network) : M Unit :=
  destroyBoth (discard (eclose env network.fd)) (network.buffer.forM (Buffer.release env))

def getInputCount (network : Network) : Nat := network.ifmTypes.length

def getOutputCount (network : Network) : Nat := network.ofmTypes.length

/-- `getInputDataOffset` and `getOutputDataOffset`: comparing the `int` index with a `size_t`
turns a negative one into a number above every size. -/
def dataOffsetAt (msg : String) (offsets : List Int32) (index : Int32) : M Int32 :=
  if h : index.toInt64.toUInt64.toNat < offsets.length then
    return offsets[index.toInt64.toUInt64.toNat]
  else throw (.error msg)

def getInputDataOffset (network : Network) (index : Int32) : M Int32 :=
  dataOffsetAt "Invalid input index or non vela model" network.ifmDataOffset index

def getOutputDataOffset (network : Network) (index : Int32) : M Int32 :=
  dataOffsetAt "Invalid output index or non vela model" network.ofmDataOffset index

end Network

end EthosU
