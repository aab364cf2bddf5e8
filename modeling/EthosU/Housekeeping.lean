import EthosU.DriverLibrary.Interpreter
import EthosU.Lib.Invariant

/-!
# Housekeeping

Most system calls of the driver library prepare something or clean up.  This file says that its
operations keep every invariant of the process that such calls keep, so that whoever has an
invariant needs to look at the other calls only: `BUFFER_CREATE`, `NETWORK_CREATE` with a buffer,
`INFERENCE_CREATE` and `ppoll`.

* `Stable` is what is asked of an invariant: housekeeping keeps it, and it is not about the use
  counts of shared objects.
* An operation that makes one of the other calls keeps the invariant if that call does; the lemma
  about it has this as a hypothesis.
-/

set_option autoImplicit false

namespace EthosU

open Wp

/-- The calls that are housekeeping. -/
def Request.isHousekeeping : Request → Bool
  | .bufferCreate _ _ => false
  | .networkCreate _ .buffer _ => false
  | .inferenceCreate _ _ => false
  | .ppoll _ _ => false
  | _ => true

/-- A call keeps the invariant. -/
def Survives (env : Env) (I : Process → Prop) (req : Request) : Prop :=
  ∀ p, I p → I (p.called env req)

/-- Housekeeping keeps the invariant, and so do the use counts. -/
structure Stable (env : Env) (I : Process → Prop) : Prop where
  survives : ∀ req, req.isHousekeeping = true → Survives env I req
  counted : ∀ p uses made, I p → I { p with uses := uses, made := made }

section

variable {env : Env} {I : Process → Prop} {α : Type}

/-! ## System calls -/

theorem keeps_checked {req : Request} (h : Survives env I req) (msg : String) :
    Keeps I (checked env msg req) := fun p hp ↦
  (wp_checked env msg req).2 ⟨fun _ ↦ h p hp, fun _ ↦ h p hp⟩

theorem keeps_destroyBoth {x y : M Unit} (hx : Keeps I x) (hy : Keeps I y) :
    Keeps I (destroyBoth x y) :=
  (Keeps.onThrow hy hx).bind fun _ ↦ hy

theorem keeps_noexcept {x : M Unit} (hx : Keeps I x) : Keeps I (noexcept x) :=
  hx.tryCatch fun _ ↦ .throw _

variable (h : Stable env I)

include h

theorem Stable.checked (msg : String) {req : Request} (hreq : req.isHousekeeping = true) :
    Keeps I (checked env msg req) :=
  keeps_checked (h.survives req hreq) msg

theorem Stable.discarded (msg : String) {req : Request} (hreq : req.isHousekeeping = true) :
    Keeps I (discard (EthosU.checked env msg req)) :=
  (h.checked msg hreq).discard

/-! ## Shared pointers -/

theorem Stable.makeShared (obj : α) : Keeps I (makeShared obj) := fun p hp ↦ h.counted p _ _ hp

theorem Stable.copy (s : Shared α) : Keeps I s.copy := .modify fun p hp ↦ h.counted p _ _ hp

theorem Stable.release (s : Shared α) {destructor : α → M Unit} (hd : Keeps I (destructor s.obj)) :
    Keeps I (s.release destructor) := by
  refine Keeps.get.bind fun p ↦ (Keeps.modify fun q hq ↦ h.counted q _ _ hq).bind fun _ ↦ ?_
  exact .ite (keeps_noexcept hd) (.pure _)

/-! ## Devices and buffers -/

theorem Stable.deviceNew (device : String) : Keeps I (Device.new env device) :=
  (h.checked _ rfl).bind fun _ ↦ .pure _

theorem Stable.deviceDestroy (device : Device) : Keeps I (device.destroy env) := h.discarded _ rfl

theorem Stable.capabilities (device : Device) : Keeps I (device.capabilities env) :=
  h.discarded _ rfl

/-- The second half of the constructor. -/
theorem Stable.mapping (fd : Fd) (capacity : UInt64) :
    Keeps I (catching (discard (eclose env fd)) (emmap env capacity fd)) :=
  Keeps.onThrow (h.discarded _ rfl) (h.checked _ rfl)

theorem Stable.bufferNew {device : Device} {capacity : UInt64}
    (hcreate : Survives env I (.bufferCreate device.fd capacity.toUInt32)) :
    Keeps I (Buffer.new env device capacity) :=
  (keeps_checked hcreate _).bind fun _ ↦ (h.mapping _ _).bind fun _ ↦ .pure _

theorem Stable.makeBuffer {device : Device} {capacity : UInt64}
    (hcreate : Survives env I (.bufferCreate device.fd capacity.toUInt32)) :
    Keeps I (Buffer.new env device capacity >>= EthosU.makeShared) :=
  (h.bufferNew hcreate).bind fun _ ↦ h.makeShared _

theorem Stable.bufferDestroy (buffer : Buffer) : Keeps I (buffer.destroy env) :=
  (Keeps.onThrow (h.discarded _ rfl) (h.discarded _ rfl)).bind fun _ ↦ h.discarded _ rfl

theorem Stable.bufferRelease (buffer : Shared Buffer) : Keeps I (Buffer.release env buffer) :=
  h.release buffer (h.bufferDestroy buffer.obj)

theorem Stable.resize (buffer : Buffer) (size offset : UInt64) :
    Keeps I (buffer.resize env size offset) := h.discarded _ rfl

theorem Stable.data (buffer : Buffer) : Keeps I (buffer.data env) :=
  ((h.checked _ rfl).bind fun _ ↦ .pure _).bind fun _ ↦ .pure _

/-! ## Networks -/

theorem Stable.networkCreate {device : Device} {type : NetworkType} {arg : UInt32}
    (hcreate : Survives env I (.networkCreate device.fd type arg))
    (buffer : Option (Shared Buffer)) : Keeps I (Network.create env device buffer type arg) :=
  (keeps_checked hcreate _).bind fun _ ↦
    (Keeps.onThrow (h.discarded _ rfl) (h.checked _ rfl)).bind fun _ ↦ .pure _

theorem Stable.networkOfIndex (device : Device) (index : UInt32) :
    Keeps I (Network.ofIndex env device index) :=
  h.networkCreate (h.survives _ rfl) none

theorem Stable.networkOfBuffer {device : Device} {buffer : Shared Buffer}
    (hcreate : Survives env I (.networkCreate device.fd .buffer buffer.obj.fd.toUInt32)) :
    Keeps I (Network.ofBuffer env device buffer) :=
  (h.copy buffer).bind fun _ ↦
    Keeps.onThrow (h.bufferRelease buffer) (h.networkCreate hcreate (some buffer))

theorem Stable.releaseNetwork (network : Shared Network) :
    Keeps I (Inference.releaseNetwork env network) :=
  h.release network (keeps_destroyBoth (h.discarded _ rfl) (.optionForM _ h.bufferRelease))

omit h in
theorem keeps_dataOffsetAt (msg : String) (offsets : List Int32) (index : Int32) :
    Keeps I (Network.dataOffsetAt msg offsets index) := by
  rw [Network.dataOffsetAt]
  split
  · exact .pure _
  · exact .throw _

/-! ## Inferences -/

theorem Stable.releaseMembers (network : Shared Network)
    (ifmBuffers ofmBuffers : List (Shared Buffer)) (arenaBuffer : Option (Shared Buffer)) :
    Keeps I (Inference.releaseMembers env network ifmBuffers ofmBuffers arenaBuffer) :=
  keeps_destroyBoth (.optionForM _ h.bufferRelease)
    (keeps_destroyBoth (.listForM _ h.bufferRelease)
      (keeps_destroyBoth (.listForM _ h.bufferRelease) (h.releaseNetwork network)))

theorem Stable.inferenceRelease (inference : Shared Inference) :
    Keeps I (Inference.release env inference) :=
  h.release inference (keeps_destroyBoth (h.discarded _ rfl) (h.releaseMembers _ _ _ _))

theorem Stable.status (inference : Inference) : Keeps I (inference.status env) := by
  refine (h.checked _ rfl).bind fun reply ↦ ?_
  cases Status.ofWord (reply.data 0) with
  | none => exact .throw _
  | some status => exact .pure _

omit h in
theorem keeps_wait {inference : Inference} {timeoutNanos : Int64}
    (hpoll : Survives env I (.ppoll inference.fd (Inference.pollTimeout timeoutNanos))) :
    Keeps I (inference.wait env timeoutNanos) :=
  (keeps_checked hpoll _).bind fun _ ↦ .pure _

omit h in
/-- What is asked of the invariant is about the struct as it is filled in in the state reached. -/
theorem keeps_create {network arenaBuffer} {ifmBuffers ofmBuffers : List (Shared Buffer)}
    {counterConfigs : List UInt32} {enableCycleCounter : Bool}
    (hsent : ∀ p, I p → counterConfigs.length = ethosuPmuEventMax →
      I (p.called env (.inferenceCreate network.obj.fd (Inference.request env p arenaBuffer
        ifmBuffers ofmBuffers counterConfigs enableCycleCounter).uapi))) :
    Keeps I (Inference.create env network arenaBuffer ifmBuffers ofmBuffers counterConfigs
      enableCycleCounter) := by
  intro p hp
  rw [Inference.create, wp_ite]
  refine ⟨fun _ ↦ hp, fun _ ↦ ?_⟩
  rw [wp_ite]
  refine ⟨fun _ ↦ hp, fun _ ↦ ?_⟩
  rw [wp_ite]
  refine ⟨fun _ ↦ hp, fun hcounters ↦ ?_⟩
  have hcalled := hsent p hp (not_not.1 hcounters)
  rw [wp_bind, wp_get, wp_bind, eioctl, wp_checked]
  exact ⟨fun _ ↦ hcalled, fun _ ↦ hcalled⟩

theorem Stable.ofBuffers {network : Shared Network} {ifmBuffers ofmBuffers : List (Shared Buffer)}
    {counters : List UInt32} {enableCycleCounter : Bool}
    (hcreate : ∀ capacity, Survives env I (.bufferCreate network.obj.device.fd capacity))
    (hsent : ∀ p arenaBuffer, I p → I (p.called env (.inferenceCreate network.obj.fd
      (Inference.request env p arenaBuffer ifmBuffers ofmBuffers
        (Inference.copyCounters counters Inference.initializeCounterConfig)
        enableCycleCounter).uapi))) :
    Keeps I
      (Inference.ofBuffers env network ifmBuffers ofmBuffers counters enableCycleCounter) := by
  refine (h.copy network).bind fun _ ↦ (Keeps.listForM _ h.copy).bind fun _ ↦
    (Keeps.listForM _ h.copy).bind fun _ ↦ ?_
  refine (Keeps.onThrow (h.releaseMembers _ _ _ _) (.ite (.throw _)
    (h.makeBuffer (hcreate _)))).bind fun arenaBuffer ↦ ?_
  refine Keeps.onThrow (h.releaseMembers _ _ _ _) ((h.resize _ _ _).bind fun _ ↦ ?_)
  exact (keeps_create fun p hp _ ↦ hsent p arenaBuffer hp).bind fun _ ↦ .pure _

theorem Stable.ofArena {network arenaBuffer} {counters : List UInt32} {enableCycleCounter : Bool}
    (hsent : ∀ p, I p → counters.length ≤ ethosuPmuEventMax →
      I (p.called env (.inferenceCreate network.obj.fd
        (Inference.request env p arenaBuffer [] []
          (Inference.copyCounters counters Inference.initializeCounterConfig)
          enableCycleCounter).uapi))) :
    Keeps I (Inference.ofArena env network arenaBuffer counters enableCycleCounter) := by
  refine (h.copy network).bind fun _ ↦ (h.copy arenaBuffer).bind fun _ ↦
    Keeps.onThrow (h.releaseMembers _ _ _ _) ?_
  by_cases hcounters : counters.length > ethosuPmuEventMax
  · rw [if_pos hcounters]
    exact Keeps.throw _
  · rw [if_neg hcounters]
    exact (keeps_create fun p hp _ ↦ hsent p hp (Nat.le_of_not_lt hcounters)).bind fun _ ↦ .pure _

/-! ## Interpreters -/

theorem Stable.interpreterDestroy (i : Interpreter) : Keeps I (i.destroy env) :=
  keeps_destroyBoth (.optionForM _ h.inferenceRelease)
    (keeps_destroyBoth (.optionForM _ h.releaseNetwork)
      (keeps_destroyBoth (.optionForM _ h.bufferRelease)
        (keeps_destroyBoth (.optionForM _ h.bufferRelease) (h.deviceDestroy _))))

omit h in
/-- A method does something that is not about the object. -/
theorem keeps_onProc {x : M α} (hx : Keeps I x) : Keeps (fun s : Session ↦ I s.proc) (onProc x) :=
  hx.onPart (fun _ hs ↦ hs) fun _ _ _ hp ↦ hp

omit h in
/-- What is not about the object leaves it alone. -/
theorem keeps_this {i : Interpreter} (x : M α) : Keeps (fun s : Session ↦ s.this = i) (onProc x) :=
  fun _ hs ↦ (wp_onProc x).2 (wp_of_forall (fun _ _ ↦ hs) fun _ _ ↦ hs)

omit h in
theorem keeps_deref {J : Session → Prop} (ptr : Option α) : Keeps J (deref ptr) := by
  cases ptr with
  | none => exact .throw _
  | some a => exact .pure _

/-- An address is handed out. -/
theorem Stable.typedBuffer {dataOffset : Network → Int32 → M Int32}
    (hoffset : ∀ network index, Keeps I (dataOffset network index)) (index : Int32) :
    Keeps (fun s : Session ↦ I s.proc) (Interpreter.typedBuffer env dataOffset index) :=
  Keeps.get.bind fun _ ↦ (keeps_deref _).bind fun network ↦
    (keeps_onProc (hoffset network.obj index)).bind fun _ ↦ (keeps_deref _).bind fun arenaBuffer ↦
      (keeps_onProc (h.data arenaBuffer.obj)).bind fun _ ↦ .pure _

omit h in
theorem keeps_this_typedBuffer {i : Interpreter} (dataOffset : Network → Int32 → M Int32)
    (index : Int32) :
    Keeps (fun s : Session ↦ s.this = i) (Interpreter.typedBuffer env dataOffset index) :=
  Keeps.get.bind fun _ ↦ (keeps_deref _).bind fun _ ↦ (keeps_this _).bind fun _ ↦
    (keeps_deref _).bind fun _ ↦ (keeps_this _).bind fun _ ↦ .pure _

theorem Stable.typedInputBuffer (index : Int32) :
    Keeps (fun s : Session ↦ I s.proc) (Interpreter.typedInputBuffer env index) :=
  h.typedBuffer (fun _ _ ↦ keeps_dataOffsetAt _ _ _) index

omit h in
/-- A program runs a method on an object of its own. -/
theorem keeps_onObject {x : Method α} (hx : Keeps (fun s : Session ↦ I s.proc) x)
    (this : Interpreter) : Keeps I (onObject this x) :=
  (hx.bind fun _ ↦ Keeps.get.bind fun _ ↦ .pure _).onPart (fun _ hp ↦ hp) fun _ _ _ hs ↦ hs

/-- The scope of an object. -/
theorem Stable.scope {x : Method α} (hx : Keeps (fun s : Session ↦ I s.proc) x) :
    Keeps (fun s : Session ↦ I s.proc)
      (unwinding (do onProc ((← get).this.destroy env)) x) :=
  Keeps.onThrow (Keeps.get.bind fun s ↦ keeps_onProc (h.interpreterDestroy s.this)) hx

end

end EthosU
