import EthosU.DriverLibrary.Inference

/-!
# The interpreter

The class `Interpreter` of the driver library: a network, a tensor arena and at most one inference,
behind an interface that is told to `Invoke`.

The methods run on a `Session`, the process together with the object.  An exception leaves the
members as they were when it was thrown, so an `Invoke` that throws after it has replaced the
inference has replaced it for good.
-/

set_option autoImplicit false

namespace EthosU

open Wp

structure TensorInfo where
  type : Int32
  shape : List UInt64

structure Interpreter where
  device : Device
  networkBuffer : Option (Shared Buffer)
  arenaBuffer : Option (Shared Buffer)
  network : Option (Shared Network)
  inference : Option (Shared Inference)
  arenaSizeOfMB : Int64
  pmuCounters : List UInt8
  enableCycleCounter : Bool

/-- The state a method works on. -/
structure Session where
  proc : Process
  this : Interpreter

/-- Methods. -/
abbrev Method (α : Type) := EStateM Exception Session α

/-- A method does something that is not about the object. -/
def onProc {α : Type} (x : M α) : Method α :=
  onPart Session.proc (fun s p ↦ { s with proc := p }) x

@[simp] theorem wp_onProc {α : Type} (x : M α) {Q : α → Session → Prop}
    {E : Exception → Session → Prop} {s : Session} :
    wp (onProc x) Q E s
      ↔ wp x (fun a p ↦ Q a { s with proc := p }) (fun e p ↦ E e { s with proc := p }) s.proc :=
  wp_onPart x

/-- A program runs a method on an object of its own, and keeps the object. -/
def onObject {α : Type} (this : Interpreter) (x : Method α) : M (α × Interpreter) :=
  onPart (fun p ↦ ⟨p, this⟩) (fun _ s ↦ s.proc) do
    let a ← x
    return (a, (← get).this)

@[simp] theorem wp_onObject {α : Type} (this : Interpreter) (x : Method α)
    {Q : α × Interpreter → Process → Prop} {E : Exception → Process → Prop} {p : Process} :
    wp (onObject this x) Q E p
      ↔ wp x (fun a s ↦ Q (a, s.this) s.proc) (fun e s ↦ E e s.proc) ⟨p, this⟩ := by
  rw [onObject, wp_onPart, wp_bind]
  exact Iff.rfl

/-- `std::shared_ptr::operator->` on a member.  The library never checks a pointer, so the model
of a call through an empty one is a crash. -/
def deref {α : Type} (ptr : Option α) : Method α :=
  match ptr with
  | some a => return a
  | none => throw .crash

namespace Interpreter

variable (env : Env)

/-! ## Destruction -/

/-- The members go away, in the reverse of the order they are declared in. -/
def destroy (this : Interpreter) : M Unit :=
  destroyBoth (this.inference.forM (Inference.release env))
    (destroyBoth (this.network.forM (Inference.releaseNetwork env))
      (destroyBoth (this.arenaBuffer.forM (Buffer.release env))
        (destroyBoth (this.networkBuffer.forM (Buffer.release env)) (this.device.destroy env))))

/-! ## Construction -/

/-- `ifstream stream(model, ios::binary)`. -/
def openModel (model : String) : M File :=
  if (env.files model).opens then return env.files model
  else throw (.error "Failed to open model file")

/-- The constructor's body, on an object whose pointers are all empty. -/
def init (model : String) : Method Unit := do
  let this := (← get).this
  onProc (this.device.capabilities env)
  let stream ← onProc (openModel env model)
  let size := stream.tellg
  let networkBuffer ← onProc (Buffer.new env this.device size >>= makeShared)
  modify fun s ↦ { s with this := { s.this with networkBuffer := some networkBuffer } }
  onProc (networkBuffer.obj.resize env size)
  onProc do stream.read networkBuffer.obj.fd (← networkBuffer.obj.data env) size
  let network ← onProc (Network.ofBuffer env this.device networkBuffer >>= makeShared)
  modify fun s ↦ { s with this := { s.this with network := some network } }
  if !network.obj.isVelaModel then
    throw (.error "Only support models compiled by vela.")
  let arenaBufferSize := (this.arenaSizeOfMB <<< 20).toUInt64
  let arenaBuffer ← onProc (Buffer.new env this.device arenaBufferSize >>= makeShared)
  modify fun s ↦ { s with this := { s.this with arenaBuffer := some arenaBuffer } }
  onProc (arenaBuffer.obj.resize env arenaBufferSize)

/-- The object the constructor's body starts from.  Nothing initialises `enableCycleCounter`. -/
def blank (p : Process) (device : Device) (arenaSizeOfMB : Int64) : Interpreter where
  device := device
  networkBuffer := none
  arenaBuffer := none
  network := none
  inference := none
  arenaSizeOfMB := arenaSizeOfMB
  pmuCounters := []
  enableCycleCounter := env.heapBool p.trace

/-- When the body throws, the members that were constructed are destroyed. -/
def new (model device : String) (arenaSizeOfMB : Int64) : M Interpreter := do
  let device ← Device.new env device
  let p ← get
  let constructed ← onObject (blank env p device arenaSizeOfMB)
    (unwinding (do onProc ((← get).this.destroy env)) (init env model))
  return constructed.2

/-! ## Methods -/

def setPmuCycleCounters (counters : List UInt8) (cycleCounter : Bool) : Method Unit := do
  if counters.length ≠ ethosuPmuEventMax then throw (.error "PMU event count is invalid.")
  modify fun s ↦
    { s with this := { s.this with pmuCounters := counters, enableCycleCounter := cycleCounter } }

/-- The default argument of `Invoke`. -/
def defaultTimeoutNanos : Int64 := 60000000000

/-- The new inference is constructed before the assignment destroys the one it replaces. -/
def invoke (timeoutNanos : Int64) : Method Unit := do
  let this := (← get).this
  let network ← deref this.network
  let arenaBuffer ← deref this.arenaBuffer
  let inference ← onProc (Inference.ofArena env network arenaBuffer
    (this.pmuCounters.map UInt8.toUInt32) this.enableCycleCounter >>= makeShared)
  modify fun s ↦ { s with this := { s.this with inference := some inference } }
  onProc (this.inference.forM (Inference.release env))
  let _ ← onProc (inference.obj.wait env timeoutNanos)
  let status ← onProc (inference.obj.status env)
  if status ≠ .ok then throw (.error "Failed to invoke.")

def getPmuCounters : Method (List UInt32) := do
  let inference ← deref (← get).this.inference
  onProc (inference.obj.getPmuCounters env)

def getCycleCounter : Method UInt64 := do
  let inference ← deref (← get).this.inference
  onProc (inference.obj.getCycleCounter env)

/-- `typed_input_buffer` and `typed_output_buffer`: an address, as a signed number because the
offset it adds is signed. -/
def typedBuffer (dataOffset : Network → Int32 → M Int32) (index : Int32) : Method Int := do
  let this := (← get).this
  let network ← deref this.network
  let offset ← onProc (dataOffset network.obj index)
  let arenaBuffer ← deref this.arenaBuffer
  let data ← onProc (arenaBuffer.obj.data env)
  return data + offset.toInt

def typedInputBuffer (index : Int32) : Method Int :=
  typedBuffer env Network.getInputDataOffset index

def typedOutputBuffer (index : Int32) : Method Int :=
  typedBuffer env Network.getOutputDataOffset index

/-- `TensorInfo{types[i], shapes[i]}` for `count` tensors, or nothing if a subscript is out of
range. -/
def tensorInfos (count : Nat) (types : List Int32) (shapes : List (List UInt64)) :
    Option (List TensorInfo) :=
  (List.range count).mapM fun i ↦ do return ⟨← types[i]?, ← shapes[i]?⟩

def getInputInfo : Method (List TensorInfo) := do
  let network ← deref (← get).this.network
  deref (tensorInfos network.obj.getInputCount network.obj.ifmTypes network.obj.ifmShapes)

def getOutputInfo : Method (List TensorInfo) := do
  let network ← deref (← get).this.network
  deref (tensorInfos network.obj.getOutputCount network.obj.ofmTypes network.obj.ofmShapes)

/-! ## Callers -/

/-- The public calls that talk to the driver, or change what later ones say to it. -/
inductive Call
  | setPmuCycleCounters (counters : List UInt8) (cycleCounter : Bool)
  | invoke (timeoutNanos : Int64)
  deriving DecidableEq, Repr

def perform : Call → Method Unit
  | .setPmuCycleCounters counters cycleCounter => setPmuCycleCounters counters cycleCounter
  | .invoke timeoutNanos => invoke env timeoutNanos

/-- A caller that catches what a call throws, and remembers it. -/
def attempt (x : Method Unit) : Method (Option Exception) :=
  tryCatch (do x; return none) fun e ↦ if e.fatal then throw e else return some e

/-- A caller that makes one call after the other, whatever they throw. -/
def performAll : List Call → Method (List (Option Exception))
  | [] => return []
  | call :: calls => do
    let outcome ← attempt (perform env call)
    let outcomes ← performAll calls
    return outcome :: outcomes

/-- An interpreter is constructed and used.  What is left is what each call threw, and the object.
-/
def live (model device : String) (arenaSizeOfMB : Int64) (calls : List Call) :
    M (List (Option Exception) × Interpreter) := do
  let this ← new env model device arenaSizeOfMB
  onObject this (performAll env calls)

end Interpreter

end EthosU
