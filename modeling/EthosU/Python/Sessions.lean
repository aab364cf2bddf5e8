import EthosU.InFlight
import EthosU.Lib.Contents
import EthosU.Python.InterpreterWrapper
import EthosU.Spacing

/-!
# Python programs

A Python program makes an interpreter and then sets inputs, invokes and gets outputs in any order,
catching what is raised.  All tensors are pieces of the arena, in which the device computes while an
inference is under way, and nothing but the order of the calls keeps the program and the device from
disturbing each other.

* `Npu` is a device that may leave anything in the memory while it works, and nothing else is known
  of it.  `working` is what it works on.
* `session` is what a program does, with a record of every call.
* `known` is what the program may rely on: an input holds what has been set since the last
  inference, every tensor holds what the device has left in it when it is done, and a tensor that
  overlaps one that has been set is not to be relied on.
* `AllExplained` says that this is what there is: the driver finds it whenever it is asked for
  something, `get_output` returns it, and nothing outside the arena is written to.
* `sessions_explained` proves it for every program.  `relied` is the same knowledge for a program
  that has not seen `Invoke` fail, from its calls alone.
-/

set_option autoImplicit false

namespace EthosU

open Wp

/-! ## What the device works on -/

/-- The inferences that have been created and have not come to an end.  Closing the descriptor of
one does not end it. -/
def working : List Event → List Fd
  | [] => []
  | .ended fd :: past => (working past).erase fd
  | .call req reply :: past => (Event.call req reply).started.toList ++ working past

/-- The number of inferences that have been created. -/
def starts (t : List Event) : Nat := t.countP fun e ↦ e.started.isSome

/-- From `old` to `new` there has been nothing to work on. -/
def Idle (old new : List Event) : Prop := working old = [] ∧ starts new = starts old

/-- The device works on nothing but `l`, and has been given `n` inferences. -/
def Busy (l : List Fd) (n : Nat) (t : List Event) : Prop := working t ⊆ l ∧ starts t = n

instance decidableIdle (old new : List Event) : Decidable (Idle old new) :=
  inferInstanceAs (Decidable (_ ∧ _))

/-- What a device has made of the memory, from the events when a call was made, those until now and
what there was.  It leaves the memory alone when it has nothing to work on.  What it does in the
course of a call shows when the call is over, since no call looks at what it has asked for. -/
structure Npu where
  leaves : List Event → List Event → (Int → UInt8) → Int → UInt8
  quiet : ∀ old new mem, Idle old new → leaves old new mem = mem

/-- The driver calls an inference completed only when it has come to an end. -/
def Kernel.Completes (kernel : Kernel) : Prop :=
  ∀ past fd, ¬ (kernel.answer past (.inferenceStatus fd)).ret < 0 →
    Status.ofWord ((kernel.answer past (.inferenceStatus fd)).data 0) = some .ok →
    fd ∉ working past

/-- The answers in the trace are those of the kernel. -/
def Answers (env : Env) (t : List Event) : Prop :=
  ∀ req reply, .call req reply ∈ t → ∃ past, reply = env.kernel.answer past req

namespace InterpreterWrapper

/-! ## Calls -/

inductive Call
  | setInput (i : UInt64) (input : NdArray)
  | getOutput (i : UInt64)
  | invoke (timeoutNanos : Int64)
  | getInputDetails
  | getOutputDetails

inductive Outcome
  | done
  | array (a : NdArray)
  | details (l : List TensorDetails)
  /-- An exception that has been set. -/
  | raised (e : PyError)
  /-- An exception that has been thrown. -/
  | thrown (e : Exception)

/-- A call, with the process before and after it, and the memory when the program goes on. -/
structure Entry where
  call : Call
  outcome : Outcome
  before : Process
  after : Process
  settled : Int → UInt8

section

variable (env : Env) (npu : Npu) (inputInfo outputInfo : List TensorInfo)

def perform : Call → Method Outcome
  | .setInput i input => do
    match ← setInput env inputInfo i input with
    | some e => return .raised e
    | none => return .done
  | .getOutput i => do
    match ← getOutput env outputInfo i with
    | .error e => return .raised e
    | .ok a => return .array a
  | .invoke timeoutNanos => do
    invoke env timeoutNanos
    return .done
  | .getInputDetails => return .details (getInputDetails inputInfo)
  | .getOutputDetails => return .details (getOutputDetails outputInfo)

/-- The program catches what can be caught. -/
def attempt (call : Call) : Method Outcome :=
  tryCatch (perform env inputInfo outputInfo call) fun e ↦
    if e.fatal then throw e else return .thrown e

/-- The device gets on with its work. -/
def settle (before : List Event) : Method Unit :=
  modify fun s ↦ { s with proc :=
    { s.proc with mem := npu.leaves before s.proc.trace s.proc.mem } }

/-- One call after the other, whatever is raised.  The record has the latest call first. -/
def session : List Call → List Entry → Method (List Entry)
  | [], log => return log
  | call :: calls, log => do
    let before := (← get).proc
    let outcome ← attempt env inputInfo outputInfo call
    let after := (← get).proc
    settle npu before.trace
    session calls (⟨call, outcome, before, after, (← get).proc.mem⟩ :: log)

end

/-! ## What a program may rely on -/

/-- A tensor of the network. -/
inductive Slot
  | input (k : Nat)
  | output (k : Nat)
  deriving DecidableEq, Repr

namespace Slot

def tensors : Slot → NetworkInfo.Tensors
  | input _ => NetworkInfo.ifm
  | output _ => NetworkInfo.ofm

def index : Slot → Nat
  | input k => k
  | output k => k

variable (x : Slot) (info : Words)

/-- There is such a tensor. -/
def Exists : Prop := x.index < (info x.tensors.count).toNat

instance decidableExists : Decidable (x.Exists info) := inferInstanceAs (Decidable (_ < _))

def dtype : DType := ethosUTypeToPyType (x.tensors.tensor info x.index).type

def shape : List Nat := (x.tensors.tensor info x.index).shape.map UInt64.toNat

/-- The number of bytes of its elements. -/
def nbytes : Nat := (x.shape info).foldr (· * ·) 1 * (x.dtype info).itemSize.getD 0

/-- Where it begins in the arena. -/
def start : Nat := (info (x.tensors.offset + x.index)).toNat

end Slot

/-- The counts are within the limits, and the tensors in the arena. -/
structure FitsArena (info : Words) : Prop where
  inputs : NetworkInfo.ifm.WithinLimits info
  outputs : NetworkInfo.ofm.WithinLimits info
  within : ∀ x : Slot, x.Exists info →
    x.start info + x.nbytes info ≤ Interpreter.arenaLength defaultArenaSizeOfMB

section

variable (info : Words) (base : Nat)

/-- The addresses of the bytes of a tensor, in an arena at `base`. -/
def cells (x : Slot) : List Int :=
  if x.Exists info then (consecutive (x.nbytes info)).map fun k ↦ base + x.start info + k else []

/-- What a call makes of what is known.  Only an array whose elements lie in order arrives as the
program sees it. -/
def Entry.update (e : Entry) (σ : Contents Slot UInt8) : Contents Slot UInt8 :=
  if Idle e.before.trace e.after.trace then
    match e.call, e.outcome with
    | .setInput i input, .done => σ.put (cells info base) (.input i.toNat)
        (if input.InOrder then some input.elements else none)
    | _, _ => σ
  else if working e.after.trace = [] then .read (cells info base) e.settled
  else .nothing

/-- What is known of the tensors after the calls so far, latest first. -/
def known : List Entry → Contents Slot UInt8
  | [] => .nothing
  | e :: past => e.update info base (known past)

end

/-- What a program may rely on that has not seen `Invoke` fail. -/
def relied (info : Words) (base : Nat) : List Entry → Contents Slot UInt8
  | [] => .nothing
  | e :: past =>
    match e.call, e.outcome with
    | .setInput i input, .done => (relied info base past).put (cells info base) (.input i.toNat)
        (if input.InOrder then some input.elements else none)
    | .invoke _, _ => .read (cells info base) e.settled
    | _, _ => relied info base past

/-- What the driver is asked for: inferences of this network in this arena. -/
def Sends (network : Shared Network) (arena : Shared Buffer) (req : Request) : Prop :=
  ∀ fd uapi, req = .inferenceCreate fd uapi →
    fd = network.obj.fd ∧ (InferenceCreate.ifmFds uapi).head? = some arena.obj.fd

/-- What has been asked for since `start` has been asked for with the memory as it was then. -/
def Asks (network : Shared Network) (arena : Shared Buffer) (start p : Process) : Prop :=
  ∃ made, p.submissions = made ++ start.submissions
    ∧ ∀ m ∈ made, m.mem = start.mem ∧ Sends network arena m.req

/-- A call comes to what it should, if `found` is what there is in an output. -/
def Fitting (inputInfo outputInfo : List TensorInfo) (found : Nat → List UInt8 → Prop) :
    Call → Outcome → Prop
  | .setInput i input, outcome => outcome = match checkInput inputInfo i input with
    | .error e => .raised e
    | .ok () => .done
  | .getOutput i, .raised _ => outputInfo.length ≤ i.toNat
  | .getOutput i, .array a => ∃ info, outputInfo[i.toNat]? = some info
    ∧ a.dtype = ethosUTypeToPyType info.type ∧ a.shape = info.shape.map UInt64.toNat
    ∧ a.Proper ∧ a.InOrder ∧ found i.toNat a.elements
  | .invoke _, .done => True
  | .invoke _, .thrown _ => True
  | .getInputDetails, outcome => outcome = .details (getInputDetails inputInfo)
  | .getOutputDetails, outcome => outcome = .details (getOutputDetails outputInfo)
  | _, _ => False

/-- What a call gives the device to do, and what of it is left when the call returns. -/
def Leaves : Call → Outcome → List Event → List Event → Prop
  | .invoke _, .done, old, new => Busy (working old) (starts old + 1) new
  | .invoke _, _, _, _ => True
  | _, _, old, new => Busy (working old) (starts old) new

theorem Fitting.mono {inputInfo outputInfo : List TensorInfo}
    {found found' : Nat → List UInt8 → Prop} (h : ∀ k bytes, found k bytes → found' k bytes)
    {call : Call} {outcome : Outcome}
    (hfitting : Fitting inputInfo outputInfo found call outcome) :
    Fitting inputInfo outputInfo found' call outcome := by
  cases call with
  | getOutput i =>
    cases outcome with
    | array a =>
      obtain ⟨tensor, htensor, hdtype, hshape, hproper, horder, hfound⟩ := hfitting
      exact ⟨tensor, htensor, hdtype, hshape, hproper, horder, h _ _ hfound⟩
    | _ => exact hfitting
  | invoke timeoutNanos => cases outcome <;> exact hfitting
  | _ => exact hfitting

/-- What is true of a call, in the light of the calls before it. -/
structure Explained (network : Shared Network) (arena : Shared Buffer) (info : Words)
    (inputInfo outputInfo : List TensorInfo) (past : List Entry) (e : Entry) : Prop where
  /-- What is known is so. -/
  agrees : (known info arena.obj.dataPtr past).Agrees (cells info arena.obj.dataPtr) e.before.mem
  /-- The driver is asked for things with the memory like that. -/
  asks : Asks network arena e.before e.after
  fitting : Fitting inputInfo outputInfo
    (fun k bytes ↦ ∀ content, known info arena.obj.dataPtr past (.output k) = some content →
      bytes = content) e.call e.outcome
  leaves : Leaves e.call e.outcome e.before.trace e.after.trace
  /-- Nothing but the arena is written to. -/
  contained : ∀ a : Int, (a < arena.obj.dataPtr
      ∨ arena.obj.dataPtr + Interpreter.arenaLength defaultArenaSizeOfMB ≤ a) →
    e.after.mem a = e.before.mem a

/-- The process in which the next call is made. -/
def resume (start : Process) : List Entry → Process
  | [] => start
  | e :: _ => { e.after with mem := e.settled }

/-- Everything is explained, and nothing has happened between the calls but what the device did. -/
def AllExplained (network : Shared Network) (arena : Shared Buffer) (info : Words)
    (inputInfo outputInfo : List TensorInfo) (start : Process) : List Entry → Prop
  | [] => True
  | e :: past => e.before = resume start past
    ∧ Explained network arena info inputInfo outputInfo past e
    ∧ AllExplained network arena info inputInfo outputInfo start past

end InterpreterWrapper

/-! ## What the device has been doing -/

section

variable {env : Env} {p : Process} {l : List Fd} {n : Nat}

theorem Busy.past (h : Busy l n p.trace) : Busy l n (p.past env) := by
  rw [Process.past]
  induction env.kernel.ended p.trace with
  | nil => exact h
  | cons fd fds ih =>
    exact ⟨List.Subset.trans List.erase_subset ih.1,
      (List.countP_cons_of_neg (by simp [Event.started])).trans ih.2⟩

/-- Only creating an inference gives the device something to do. -/
theorem Busy.call {t : List Event} (h : Busy l n t) {req : Request} (reply : Reply)
    (hreq : req.isInferenceCreate = false) : Busy l n (.call req reply :: t) := by
  have hstarted : (Event.call req reply).started = none := by
    cases req <;> first | rfl | simp [Request.isInferenceCreate] at hreq
  rw [Busy, working, hstarted]
  exact ⟨h.1, (List.countP_cons_of_neg (by simp [hstarted])).trans h.2⟩

theorem Busy.called (h : Busy l n p.trace) {req : Request} (hreq : req.isInferenceCreate = false) :
    Busy l n (p.called env req).trace :=
  Busy.call h.past _ hreq

theorem stable_busy (env : Env) (l : List Fd) (n : Nat) : Stable env fun p ↦ Busy l n p.trace where
  survives req hreq p hp := by
    refine hp.called ?_
    cases req <;> first | rfl | simp [Request.isHousekeeping] at hreq
  counted _ _ _ hp := hp

/-- A new inference is one more. -/
theorem Busy.created (h : Busy l n p.trace) {network : Fd} {uapi : Words}
    (hgranted : ¬ (p.reply env (.inferenceCreate network uapi)).ret < 0) :
    Busy ((p.reply env (.inferenceCreate network uapi)).ret :: l) (n + 1)
      (p.called env (.inferenceCreate network uapi)).trace := by
  have hpast : Busy l n (p.past env) := h.past
  have hstarted : (Event.call (.inferenceCreate network uapi)
      (p.reply env (.inferenceCreate network uapi))).started
      = some (p.reply env (.inferenceCreate network uapi)).ret := if_neg hgranted
  rw [Process.called_trace, Busy, working, hstarted]
  refine ⟨List.cons_subset_cons _ hpast.1, ?_⟩
  rw [starts, List.countP_cons_of_pos (by rw [hstarted]; rfl)]
  exact congrArg (· + 1) hpast.2

/-- It has come to an end. -/
theorem Busy.finished {fd : Fd} {t : List Event} (h : Busy (fd :: l) n t) (hfd : fd ∉ working t) :
    Busy l n t := by
  refine ⟨fun fd' hfd' ↦ ?_, h.2⟩
  rcases List.mem_cons.1 (h.1 hfd') with rfl | hmem
  · exact absurd hfd' hfd
  · exact hmem

theorem wp_ofArena_busy {network : Shared Network} {arenaBuffer : Shared Buffer}
    {counters : List UInt32} {enableCycleCounter : Bool} (h : Busy l n p.trace) :
    wp (Inference.ofArena env network arenaBuffer counters enableCycleCounter)
      (fun inference p' ↦ Busy (inference.fd :: l) (n + 1) p'.trace) (fun _ _ ↦ True) p := by
  rw [Inference.ofArena, wp_bind, wp_copy, wp_bind, wp_copy, unwinding, wp_onThrow]
  refine wp_mono (Q := fun inference p' ↦ Busy (inference.fd :: l) (n + 1) p'.trace)
    (E := fun _ _ ↦ True) ?_ (fun _ _ hq ↦ hq) (fun e p' _ ↦ ?_)
  · rw [wp_ite]
    refine ⟨fun _ ↦ trivial, fun _ ↦ ?_⟩
    rw [wp_bind, Inference.create, wp_ite]
    refine ⟨fun _ ↦ trivial, fun _ ↦ ?_⟩
    rw [wp_ite]
    refine ⟨fun _ ↦ trivial, fun _ ↦ ?_⟩
    rw [wp_ite]
    refine ⟨fun _ ↦ trivial, fun _ ↦ ?_⟩
    rw [wp_bind, wp_get, wp_bind, eioctl, wp_checked]
    exact ⟨fun _ ↦ trivial, h.created⟩
  · split
    · exact wp_of_forall (fun _ _ ↦ trivial) fun _ _ ↦ trivial
    · trivial

/-- **An inference that is called completed is over.** -/
theorem wp_invoke_busy (hcompletes : env.kernel.Completes) (timeoutNanos : Int64) {s : Session}
    (h : Busy l n s.proc.trace) :
    wp (Interpreter.invoke env timeoutNanos) (fun _ s' ↦ Busy l (n + 1) s'.proc.trace)
      (fun _ _ ↦ True) s := by
  rw [Interpreter.invoke, wp_bind, wp_get, wp_bind]
  rcases s.this.network with _ | network
  · trivial
  rw [deref, wp_pure, wp_bind]
  rcases s.this.arenaBuffer with _ | arenaBuffer
  · trivial
  rw [deref, wp_pure, wp_bind, wp_onProc, wp_bind]
  refine wp_mono (wp_ofArena_busy h) (fun inference p₁ h₁ ↦ ?_) (fun _ _ _ ↦ trivial)
  have hstable := stable_busy env (inference.fd :: l) (n + 1)
  rw [wp_makeShared, wp_bind, wp_modify, wp_bind, wp_onProc]
  refine wp_mono (Keeps.optionForM _ hstable.inferenceRelease _ h₁) (fun _ p₂ h₂ ↦ ?_)
    (fun _ _ _ ↦ trivial)
  rw [wp_bind, wp_onProc]
  have hwait : Keeps (fun p ↦ Busy (inference.fd :: l) (n + 1) p.trace)
      (inference.wait env timeoutNanos) := keeps_wait fun _ hp ↦ hp.called rfl
  refine wp_mono (hwait p₂ h₂) (fun _ p₃ h₃ ↦ ?_) (fun _ _ _ ↦ trivial)
  rw [wp_bind, wp_onProc, Inference.status, wp_bind, eioctl, wp_checked]
  refine ⟨fun _ ↦ trivial, fun hret ↦ ?_⟩
  rcases hstatus : Status.ofWord ((p₃.reply env (.inferenceStatus inference.fd)).data 0)
    with _ | status
  · trivial
  dsimp only
  rw [wp_pure, wp_ite]
  refine ⟨fun _ ↦ trivial, fun hok ↦ ?_⟩
  obtain rfl := not_not.1 hok
  exact Busy.call (Busy.finished h₃.past (hcompletes _ _ hret hstatus)) _ rfl

end

namespace InterpreterWrapper

/-! ## Cells -/

section

variable {info : Words} {base : Nat} {x : Slot}

theorem mem_consecutive {n : Nat} {d : Int} : d ∈ consecutive n ↔ 0 ≤ d ∧ d < n := by
  rw [consecutive, List.mem_map]
  refine ⟨?_, ?_⟩
  · rintro ⟨k, hk, rfl⟩
    have hlt := List.mem_range.1 hk
    omega
  · rintro ⟨hd, hlt⟩
    exact ⟨d.toNat, List.mem_range.2 (by omega), by omega⟩

theorem cells_of_exists (hx : x.Exists info) : cells info base x
    = (List.range (x.nbytes info)).map fun k : Nat ↦ (base + x.start info + k : Int) := by
  rw [cells, if_pos hx, consecutive, List.map_map]
  rfl

/-- The cells of a tensor follow each other. -/
theorem mem_cells {a : Int} : a ∈ cells info base x
    ↔ x.Exists info ∧ base + x.start info ≤ a ∧ a < base + x.start info + x.nbytes info := by
  rw [cells]
  split
  · rename_i hx
    rw [List.mem_map]
    refine ⟨?_, ?_⟩
    · rintro ⟨d, hd, rfl⟩
      have hd := mem_consecutive.1 hd
      exact ⟨hx, by omega, by omega⟩
    · rintro ⟨-, hle, hlt⟩
      exact ⟨a - (base + x.start info), mem_consecutive.2 (by omega), by omega⟩
  · rename_i hx
    exact iff_of_false List.not_mem_nil fun h ↦ hx h.1

/-- What is stored to all cells of a tensor is there, and nothing else has changed. -/
theorem storeBytes_cells (base : Nat) (hx : x.Exists info) (m : Int → UInt8) {bytes : List UInt8}
    (hlength : bytes.length = x.nbytes info) :
    (cells info base x).map (storeBytes m (base + x.start info) bytes) = bytes
      ∧ ∀ a, a ∉ cells info base x → storeBytes m (base + x.start info) bytes a = m a := by
  obtain ⟨hstored, hframe⟩ := storeBytes_eq m (base + x.start info) bytes
  refine ⟨?_, ?_⟩
  · rw [cells_of_exists hx, List.map_map]
    refine List.ext_getElem? fun k ↦ ?_
    rw [List.getElem?_map]
    rcases Nat.lt_or_ge k (x.nbytes info) with hk | hk
    · rw [List.getElem?_range hk, hstored k (hlength ▸ hk)]
      rfl
    · rw [List.getElem?_eq_none (by simpa using hk), List.getElem?_eq_none (hlength ▸ hk)]
      rfl
  · intro a ha
    refine hframe a ?_
    rw [mem_cells] at ha
    by_contra hin
    exact ha ⟨hx, by omega, by omega⟩

end

/-! ## What a call needs -/

/-- What there is between two calls. -/
structure Ready (network : Shared Network) (arena : Shared Buffer) (info : Words) (s : Session) :
    Prop where
  owns : Interpreter.Owns s.this s.proc
  complete : Interpreter.Complete s.this
  placed : Interpreter.Placed s.this defaultArenaSizeOfMB info s.proc
  network : s.this.network = some network
  arena : s.this.arenaBuffer = some arena

section

variable {env : Env} {network : Shared Network} {arena : Shared Buffer} {info : Words} {s : Session}

/-- It is not about what is in the memory. -/
theorem Ready.setMem (h : Ready network arena info s) (mem : Int → UInt8) :
    Ready network arena info { s with proc := { s.proc with mem := mem } } where
  owns := h.owns.of_at ⟨h.owns.held, rfl, rfl⟩
  complete := h.complete
  placed := ⟨h.placed.arenaBuffer, h.placed.network, h.placed.reported⟩
  network := h.network
  arena := h.arena

/-- Asking for the offset of a buffer leaves everything as it is. -/
theorem Ready.asked (h : Ready network arena info s) (fd : Fd) :
    Ready network arena info { s with proc := s.proc.called env (.bufferGet fd) } where
  owns := by
    obtain ⟨hneg, hpos⟩ := (wp_checked env "" (.bufferGet fd)).1
      (Interpreter.wp_quiet_owns h.owns "" rfl fun _ ↦ rfl)
    by_cases hret : (s.proc.reply env (.bufferGet fd)).ret < 0
    · exact (hneg hret).2
    · exact hpos hret
  complete := h.complete
  placed := by
    obtain ⟨⟨k, hk, hzero⟩, hreported⟩ := h.placed.still h.arena
    refine h.placed.of_still h.arena rfl rfl ⟨⟨k, ?_, hzero⟩, hreported.called _⟩
    rw [kept_quiet fun _ _ ↦ rfl]
    exact hk
  network := h.network
  arena := h.arena

/-- **The address of a tensor that there is.** -/
theorem Ready.wp_typedBuffer (h : Ready network arena info s) (hkeeps : env.kernel.KeepsBuffers)
    (hfits : FitsArena info) {x : Slot} (hx : x.Exists info) {i : UInt64} (hi : i.toNat = x.index)
    {dataOffset : Network → Int32 → M Int32} {msg : String}
    (hoffset : ∀ device fd buffer index, dataOffset (Network.ofInfo device fd buffer info) index
      = Network.dataOffsetAt msg (x.tensors.dataOffsets info) index) :
    wp (Interpreter.typedBuffer env dataOffset i.toUInt32.toInt32)
      (fun addr s' ↦ addr = arena.obj.dataPtr + x.start info
        ∧ s' = { s with proc := s.proc.called env (.bufferGet arena.obj.fd) })
      (fun _ _ ↦ False) s := by
  obtain ⟨n, device, fd, buffer, hn, hobj⟩ := h.placed.network
  obtain rfl := Option.some.inj (hn.symm.trans h.network)
  obtain ⟨⟨k, hk, hzero⟩, -⟩ := h.placed.still h.arena
  have hcount : (info x.tensors.count).toNat ≤ 16 := by
    cases x with
    | input k => exact hfits.inputs.1
    | output k => exact hfits.outputs.1
  rw [Slot.Exists, ← hi] at hx
  have hindex : i.toUInt32.toInt32.toInt = i.toNat := Narrow.toInt_narrow (by omega)
  have hlt := (Interpreter.index_lt_iff i.toUInt32.toInt32 (by omega)).2 ⟨hindex, hx⟩
  rw [Interpreter.typedBuffer, wp_bind, wp_get, wp_bind, h.network, deref, wp_pure, wp_bind,
    wp_onProc, hobj, hoffset, Network.dataOffsetAt,
    dif_pos (by rw [hlt.1, Interpreter.length_dataOffsets]; exact hx), wp_pure, wp_bind, h.arena,
    deref, wp_pure, wp_bind, wp_onProc, Buffer.data, wp_bind, Buffer.offset, wp_bind, eioctl,
    wp_checked]
  refine ⟨fun hneg ↦ hkeeps.get _ _ k (kept_past.trans hk) hneg, fun _ ↦ ?_⟩
  rw [wp_pure, wp_pure, wp_pure]
  refine ⟨?_, rfl⟩
  have hdata : (s.proc.reply env (.bufferGet arena.obj.fd)).data BufferDescriptor.offset = 0 :=
    (hkeeps.offset _ _ k (kept_past.trans hk)).trans hzero
  have hstart : x.start info < 2 ^ 31 := by
    have hwithin := hfits.within x (by rw [Slot.Exists, ← hi]; exact hx)
    have hlength : Interpreter.arenaLength defaultArenaSizeOfMB = 16777216 := by decide
    omega
  rw [hdata, Interpreter.getElem_dataOffsets, Narrow.toInt_toInt32, hlt.1, hi]
  rw [Slot.start] at hstart ⊢
  rw [if_pos hstart]
  rfl

theorem Asks.called {start p : Process} (hmem : p.mem = start.mem)
    (h : Asks network arena start p) {req : Request} (hsends : Sends network arena req) :
    Asks network arena start (p.called env req) := by
  obtain ⟨made, hmade, hall⟩ := h
  refine ⟨⟨req, p.mem, p.models, p.tensors⟩ :: made, congrArg _ hmade, ?_⟩
  exact List.forall_mem_cons.2 ⟨⟨hmem, hsends⟩, hall⟩

theorem stable_asks (env : Env) (network : Shared Network) (arena : Shared Buffer)
    (start : Process) : Stable env fun p ↦ p.mem = start.mem ∧ Asks network arena start p where
  survives req hreq p hp := by
    refine ⟨hp.1, hp.2.called hp.1 fun fd uapi heq ↦ ?_⟩
    rw [heq] at hreq
    cases hreq
  counted _ _ _ hp := hp

end

end InterpreterWrapper

/-- `Invoke` keeps what the requests it makes keep, and the network and the arena. -/
theorem Stable.invoke {env : Env} {I : Process → Prop} (h : Stable env I) (network : Shared Network)
    (arena : Shared Buffer)
    (hsent : ∀ p counterConfigs flag, I p → I (p.called env (.inferenceCreate network.obj.fd
      (Inference.request env p arena [] [] counterConfigs flag).uapi)))
    (hpoll : ∀ fd timeout, Survives env I (.ppoll fd timeout)) (timeoutNanos : Int64) :
    Keeps (fun s : Session ↦ I s.proc ∧ s.this.network = some network
      ∧ s.this.arenaBuffer = some arena) (Interpreter.invoke env timeoutNanos) := by
  rintro s ⟨hI, hnetwork, harena⟩
  have hpart : ∀ {α : Type} {x : M α}, Keeps I x → Keeps (fun s : Session ↦ I s.proc
      ∧ s.this.network = some network ∧ s.this.arenaBuffer = some arena) (onProc x) := by
    intro α x hx s hs
    exact (wp_onProc x).2 (wp_mono (hx _ hs.1) (fun _ _ h ↦ ⟨h, hs.2⟩) fun _ _ h ↦ ⟨h, hs.2⟩)
  rw [Interpreter.invoke, wp_bind, wp_get, wp_bind, hnetwork, deref, wp_pure, wp_bind, harena,
    deref, wp_pure]
  refine (hpart ((h.ofArena fun p hp _ ↦ hsent p _ _ hp).bind fun _ ↦ h.makeShared _)).step
    ⟨hI, hnetwork, harena⟩ (fun inference s₁ h₁ ↦ ?_) (fun _ _ he ↦ he)
  rw [wp_bind, wp_modify]
  refine (hpart (Keeps.optionForM _ h.inferenceRelease)).step h₁ (fun _ s₂ h₂ ↦ ?_)
    (fun _ _ he ↦ he)
  refine (hpart (keeps_wait (hpoll _ _))).step h₂ (fun _ s₃ h₃ ↦ ?_) (fun _ _ he ↦ he)
  refine (hpart (h.status _)).step h₃ (fun _ s₄ h₄ ↦ ?_) (fun _ _ he ↦ he)
  exact (wp_ite _ _ _).2 ⟨fun _ ↦ h₄, fun _ ↦ h₄⟩

namespace InterpreterWrapper

/-! ## One call -/

/-- What a call leads to. -/
structure Made (network : Shared Network) (arena : Shared Buffer) (info : Words)
    (inputInfo outputInfo : List TensorInfo) (s : Session) (call : Call) (outcome : Outcome)
    (s' : Session) : Prop where
  ready : Ready network arena info s'
  asks : Asks network arena s.proc s'.proc
  fitting : Fitting inputInfo outputInfo
    (fun k bytes ↦ bytes = (cells info arena.obj.dataPtr (.output k)).map s.proc.mem) call outcome
  leaves : Leaves call outcome s.proc.trace s'.proc.trace
  /-- The elements of an array are stored to the tensor. -/
  stored : ∀ i input, call = .setInput i input → outcome = .done →
    (Slot.input i.toNat).Exists info
      ∧ (input.InOrder → (cells info arena.obj.dataPtr (.input i.toNat)).map s'.proc.mem
        = input.elements)
      ∧ ∀ a, a ∉ cells info arena.obj.dataPtr (.input i.toNat) → s'.proc.mem a = s.proc.mem a
  /-- Otherwise, nothing is stored. -/
  same : (∀ i input, call = .setInput i input → outcome ≠ .done) → s'.proc.mem = s.proc.mem

section

variable {env : Env} {network : Shared Network} {arena : Shared Buffer} {info : Words} {s : Session}
  {inputInfo outputInfo : List TensorInfo}

theorem busy_self (t : List Event) : Busy (working t) (starts t) t := ⟨List.Subset.refl _, rfl⟩

/-- A call that creates nothing. -/
theorem leaves_iff_busy {call : Call} {outcome : Outcome} {old new : List Event}
    (hinvoke : ∀ timeoutNanos, call ≠ .invoke timeoutNanos) :
    Leaves call outcome old new ↔ Busy (working old) (starts old) new := by
  cases call with
  | invoke timeoutNanos => exact absurd rfl (hinvoke timeoutNanos)
  | _ => rfl

/-- A call that does nothing but say something. -/
theorem Made.of_same (h : Ready network arena info s) {call : Call} {outcome : Outcome}
    (hinvoke : ∀ timeoutNanos, call ≠ .invoke timeoutNanos) (hdone : outcome ≠ .done)
    (hfitting : Fitting inputInfo outputInfo
      (fun k bytes ↦ bytes = (cells info arena.obj.dataPtr (.output k)).map s.proc.mem) call
      outcome) : Made network arena info inputInfo outputInfo s call outcome s where
  ready := h
  asks := ⟨[], rfl, fun _ hm ↦ absurd hm List.not_mem_nil⟩
  fitting := hfitting
  leaves := (leaves_iff_busy hinvoke).2 (busy_self _)
  stored _ _ _ houtcome := absurd houtcome hdone
  same _ := rfl

/-- The bytes of an array that is accepted are those of the tensor. -/
theorem nbytes_of_checkInput (hinputs : Lists inputInfo (info NetworkInfo.ifm.count).toNat
      (NetworkInfo.ifm.tensor info)) {i : UInt64} {input : NdArray} (hproper : input.Proper)
    (hcheck : checkInput inputInfo i input = .ok ()) :
    (Slot.input i.toNat).Exists info ∧ input.nbytes = (Slot.input i.toNat).nbytes info := by
  have hi : i.toNat < (info NetworkInfo.ifm.count).toNat := by
    have hlt := lt_of_checkInput hcheck
    rwa [hinputs.1] at hlt
  obtain ⟨tensor, htensor, htype, hshape⟩ := checkInput_eq_ok_iff.1 hcheck
  obtain rfl := Option.some.inj ((hinputs.2 _ hi).symm.trans htensor)
  refine ⟨hi, ?_⟩
  have hextents : (Slot.input i.toNat).shape info = input.shape := by
    show (NetworkInfo.ifm.tensor info i.toNat).shape.map UInt64.toNat = input.shape
    rw [hshape, List.map_map, List.map_congr_left fun n hn ↦ ?_, List.map_id]
    obtain ⟨dim, hdim, rfl⟩ := List.mem_map.1 hn
    have hlt := hproper.extents dim hdim
    exact UInt64.toNat_ofNat_of_lt' (by rw [UInt64.size]; omega)
  have hdtype : (Slot.input i.toNat).dtype info = input.dtype := htype
  have hsize : input.itemSize = (((Slot.input i.toNat).dtype info).itemSize).getD 0 := by
    have hsome : ∃ n, input.dtype.itemSize = some n := by
      rw [← htype, ethosUTypeToPyType]
      split <;> exact ⟨_, rfl⟩
    obtain ⟨n, hn⟩ := hsome
    rw [hdtype, hn]
    exact hproper.itemSize n hn
  rw [NdArray.nbytes_eq, Slot.nbytes, hextents, hsize]

/-- Nothing has been asked for, and then for the offset of a buffer. -/
theorem asks_asked (env : Env) (p : Process) (fd : Fd) :
    Asks network arena p (p.called env (.bufferGet fd)) :=
  Asks.called rfl ⟨[], rfl, fun _ hm ↦ absurd hm List.not_mem_nil⟩ fun _ _ heq ↦ by cases heq

variable (h : Ready network arena info s) (hkeeps : env.kernel.KeepsBuffers)
  (hfits : FitsArena info)

include h hkeeps hfits

theorem Ready.wp_setInput (hinputs : Lists inputInfo (info NetworkInfo.ifm.count).toNat
      (NetworkInfo.ifm.tensor info)) {i : UInt64} {input : NdArray} (hproper : input.Proper) :
    wp (attempt env inputInfo outputInfo (.setInput i input))
      (Made network arena info inputInfo outputInfo s (.setInput i input)) (fun _ _ ↦ False)
      s := by
  rw [attempt, wp_tryCatch, perform, wp_bind, setInput]
  rcases hcheck : checkInput inputInfo i input with e | ⟨⟩
  · exact .of_same h (by simp) (by simp) (by rw [Fitting, hcheck])
  obtain ⟨hx, hbytes⟩ := nbytes_of_checkInput hinputs hproper hcheck
  dsimp only
  rw [wp_bind, Interpreter.typedInputBuffer]
  refine wp_mono (h.wp_typedBuffer hkeeps hfits hx rfl fun _ _ _ _ ↦ rfl) ?_
    (fun _ _ hf ↦ hf.elim)
  rintro dst s' ⟨rfl, rfl⟩
  rw [wp_bind, wp_onProc, memcpy, wp_modify, wp_pure]
  have hlength : ((consecutive input.nbytes).map input.data).length
      = (Slot.input i.toNat).nbytes info := by
    rw [List.length_map, length_consecutive, hbytes]
  obtain ⟨hstored, hframe⟩ := storeBytes_cells arena.obj.dataPtr hx s.proc.mem hlength
  refine ⟨(h.asked _).setMem _, asks_asked env s.proc arena.obj.fd, ?_,
    (busy_self s.proc.trace).called rfl, ?_, ?_⟩
  · rw [Fitting, hcheck]
  · rintro i' input' ⟨⟩ -
    refine ⟨hx, fun horder ↦ ?_, hframe⟩
    rw [horder.elements_eq]
    refine hstored.trans ?_
    rw [consecutive, List.map_map]
    rfl
  · intro hnone
    exact absurd rfl (hnone i input rfl)

theorem Ready.wp_getOutput (houtputs : Lists outputInfo (info NetworkInfo.ofm.count).toNat
      (NetworkInfo.ofm.tensor info)) (i : UInt64) :
    wp (attempt env inputInfo outputInfo (.getOutput i))
      (Made network arena info inputInfo outputInfo s (.getOutput i)) (fun _ _ ↦ False) s := by
  rw [attempt, wp_tryCatch, perform, wp_bind, getOutput]
  rcases htensor : outputInfo[i.toNat]? with _ | tensor
  · exact .of_same h (by simp) (by simp) (List.getElem?_eq_none_iff.1 htensor)
  dsimp only
  have hx : (Slot.output i.toNat).Exists info := by
    have hlt := (List.getElem?_eq_some_iff.1 htensor).1
    rwa [houtputs.1] at hlt
  obtain rfl := Option.some.inj ((houtputs.2 _ hx).symm.trans htensor)
  rw [wp_bind, Interpreter.typedOutputBuffer]
  refine wp_mono (h.wp_typedBuffer hkeeps hfits hx rfl fun _ _ _ _ ↦ rfl) ?_
    (fun _ _ hf ↦ hf.elim)
  rintro data s' ⟨rfl, rfl⟩
  rw [wp_bind, wp_get, wp_pure]
  refine ⟨h.asked _, asks_asked env s.proc arena.obj.fd, ⟨_, htensor, rfl, ?_⟩,
    (busy_self s.proc.trace).called rfl, fun _ _ hcall ↦ (by cases hcall), fun _ ↦ rfl⟩
  refine ⟨NdArray.copyOf_shape _ _ _, NdArray.copyOf_proper _ _ fun n hn ↦ ?_,
    NdArray.copyOf_inOrder _ _ _, ?_⟩
  · obtain ⟨extent, hextent, rfl⟩ := List.mem_map.1 hn
    obtain ⟨j, -, rfl⟩ := List.mem_map.1 hextent
    rw [UInt32.toNat_toUInt64]
    exact Nat.lt_trans (UInt32.toNat_lt _) (by decide)
  · rw [(NdArray.copyOf_inOrder _ _ _).elements_eq, NdArray.copyOf_nbytes]
    show _ = (cells info arena.obj.dataPtr (.output i.toNat)).map s.proc.mem
    rw [cells_of_exists hx, List.map_map]
    rfl

omit hkeeps hfits in
theorem Ready.wp_invoke (hsane : env.kernel.Sane) (hcompletes : env.kernel.Completes)
    (timeoutNanos : Int64) :
    wp (attempt env inputInfo outputInfo (.invoke timeoutNanos))
      (Made network arena info inputInfo outputInfo s (.invoke timeoutNanos)) (fun _ _ ↦ False)
      s := by
  have hasks := (stable_asks env network arena s.proc).invoke network arena
    (fun p counterConfigs flag hp ↦ ⟨hp.1, hp.2.called hp.1 ?_⟩)
    (fun fd timeout p hp ↦ ⟨hp.1, hp.2.called hp.1 fun _ _ heq ↦ by cases heq⟩) timeoutNanos s
    ⟨⟨rfl, [], rfl, fun _ hm ↦ absurd hm List.not_mem_nil⟩, h.network, h.arena⟩
  · have hbusy := wp_invoke_busy hcompletes timeoutNanos (busy_self s.proc.trace)
    have howns := Interpreter.wp_invoke_owns hsane timeoutNanos h.owns h.complete
    have hplaced := Interpreter.wp_invoke_placed hsane timeoutNanos h.owns h.complete h.placed
    rw [attempt, wp_tryCatch, perform, wp_bind, invoke]
    refine wp_mono (wp_conj (wp_conj howns hplaced) (wp_conj hasks hbusy))
      (fun _ s' hs' ↦ ?_) (fun e s' hs' ↦ ?_)
    · obtain ⟨⟨⟨howns, hcomplete⟩, hplaced⟩, ⟨⟨hmem, hasks⟩, hnetwork, harena⟩, hbusy⟩ := hs'
      exact ⟨⟨howns, hcomplete, hplaced, hnetwork, harena⟩, hasks, trivial, hbusy,
        fun _ _ hcall ↦ (by cases hcall), fun _ ↦ hmem⟩
    · obtain ⟨⟨⟨hfatal, howns, hcomplete⟩, hplaced⟩, ⟨⟨hmem, hasks⟩, hnetwork, harena⟩, -⟩ := hs'
      rw [if_neg (by rw [hfatal]; exact Bool.false_ne_true)]
      exact ⟨⟨howns, hcomplete, hplaced, hnetwork, harena⟩, hasks, trivial, trivial,
        fun _ _ hcall ↦ (by cases hcall), fun _ ↦ hmem⟩
  · rintro fd uapi ⟨⟩
    refine ⟨rfl, ?_⟩
    rw [Inference.request, (Inference.encode_ifmFds _ _ _ _ (by decide) (by decide)).2]
    rfl

/-- **Every call leads to what it should.** -/
theorem Ready.wp_attempt (hsane : env.kernel.Sane) (hcompletes : env.kernel.Completes)
    (hinputs : Lists inputInfo (info NetworkInfo.ifm.count).toNat (NetworkInfo.ifm.tensor info))
    (houtputs : Lists outputInfo (info NetworkInfo.ofm.count).toNat (NetworkInfo.ofm.tensor info))
    (call : Call) (hproper : ∀ i input, call = .setInput i input → input.Proper) :
    wp (attempt env inputInfo outputInfo call)
      (Made network arena info inputInfo outputInfo s call) (fun _ _ ↦ False) s := by
  cases call with
  | setInput i input => exact h.wp_setInput hkeeps hfits hinputs (hproper i input rfl)
  | getOutput i => exact h.wp_getOutput hkeeps hfits houtputs i
  | invoke timeoutNanos => exact h.wp_invoke hsane hcompletes timeoutNanos
  | getInputDetails => exact .of_same h (by simp) (by simp) rfl
  | getOutputDetails => exact .of_same h (by simp) (by simp) rfl

end

/-! ## All calls -/

section

variable {env : Env} {network : Shared Network} {arena : Shared Buffer} {info : Words}
  {inputInfo outputInfo : List TensorInfo} {s s' : Session} {past : List Entry} {call : Call}
  {outcome : Outcome}

/-- The memory that the device leaves is as is known then. -/
theorem agrees_update (h : Made network arena info inputInfo outputInfo s call outcome s')
    (hagrees : (known info arena.obj.dataPtr past).Agrees (cells info arena.obj.dataPtr) s.proc.mem)
    {settled : Int → UInt8}
    (hquiet : Idle s.proc.trace s'.proc.trace → settled = s'.proc.mem) :
    (known info arena.obj.dataPtr (⟨call, outcome, s.proc, s'.proc, settled⟩ :: past)).Agrees
      (cells info arena.obj.dataPtr) settled := by
  rw [known, Entry.update]
  split
  · rename_i hidle
    rw [hquiet hidle]
    split
    · rename_i i input hcall houtcome
      obtain ⟨-, helements, hframe⟩ := h.stored i input hcall houtcome
      refine hagrees.put (fun bytes hbytes ↦ ?_) hframe
      split at hbytes
      · rename_i horder
        exact (helements horder).trans (Option.some.inj hbytes)
      · cases hbytes
    · rename_i hother
      rw [h.same fun i input hcall houtcome ↦ hother i input hcall houtcome]
      exact hagrees
  · split
    · exact Contents.agrees_read
    · exact Contents.agrees_nothing

/-- What a call leads to is what it should in the light of the calls before it. -/
theorem Made.explained (h : Made network arena info inputInfo outputInfo s call outcome s')
    (hfits : FitsArena info)
    (hagrees : (known info arena.obj.dataPtr past).Agrees (cells info arena.obj.dataPtr) s.proc.mem)
    (settled : Int → UInt8) :
    Explained network arena info inputInfo outputInfo past
      ⟨call, outcome, s.proc, s'.proc, settled⟩ where
  agrees := hagrees
  asks := h.asks
  fitting := by
    refine h.fitting.mono fun k bytes hbytes content hcontent ↦ ?_
    exact hbytes.trans (hagrees _ _ hcontent)
  leaves := h.leaves
  contained a ha := by
    by_cases hstored : ∃ i input, call = .setInput i input ∧ outcome = .done
    · obtain ⟨i, input, hcall, houtcome⟩ := hstored
      obtain ⟨hx, -, hframe⟩ := h.stored i input hcall houtcome
      refine hframe a fun hcell ↦ ?_
      have hwithin := hfits.within _ hx
      have hcell := (mem_cells.1 hcell).2
      omega
    · show s'.proc.mem a = s.proc.mem a
      rw [h.same fun i input hcall houtcome ↦ hstored ⟨i, input, hcall, houtcome⟩]

/-- **All calls are explained**, if those so far are and what is known is so. -/
theorem Ready.wp_session (npu : Npu) (hsane : env.kernel.Sane) (hkeeps : env.kernel.KeepsBuffers)
    (hcompletes : env.kernel.Completes) (hfits : FitsArena info)
    (hinputs : Lists inputInfo (info NetworkInfo.ifm.count).toNat (NetworkInfo.ifm.tensor info))
    (houtputs : Lists outputInfo (info NetworkInfo.ofm.count).toNat (NetworkInfo.ofm.tensor info))
    (start : Process) (calls : List Call)
    (hproper : ∀ i input, .setInput i input ∈ calls → input.Proper) (log : List Entry)
    (h : Ready network arena info s) (hresume : s.proc = resume start log)
    (hagrees : (known info arena.obj.dataPtr log).Agrees (cells info arena.obj.dataPtr) s.proc.mem)
    (hlog : AllExplained network arena info inputInfo outputInfo start log) :
    wp (session env npu inputInfo outputInfo calls log)
      (fun log' _ ↦ log'.map Entry.call = calls.reverse ++ log.map Entry.call
        ∧ AllExplained network arena info inputInfo outputInfo start log')
      (fun _ _ ↦ False) s := by
  induction calls generalizing s log with
  | nil => exact ⟨rfl, hlog⟩
  | cons call calls ih =>
    rw [session, wp_bind, wp_get, wp_bind]
    refine wp_mono (h.wp_attempt hkeeps hfits hsane hcompletes hinputs houtputs call
      fun i input hcall ↦ hproper i input (hcall ▸ List.mem_cons_self)) (fun outcome s₁ h₁ ↦ ?_)
      (fun _ _ hf ↦ hf)
    rw [wp_bind, wp_get, wp_bind, settle, wp_modify, wp_bind, wp_get]
    refine wp_mono (ih (fun i input hmem ↦ hproper i input (List.mem_cons_of_mem _ hmem)) _
      (h₁.ready.setMem _) rfl (agrees_update h₁ hagrees fun hidle ↦ npu.quiet _ _ _ hidle)
      ⟨hresume, h₁.explained hfits hagrees _, hlog⟩) (fun log' _ hlog' ↦ ⟨?_, hlog'.2⟩)
      (fun _ _ hf ↦ hf)
    rw [hlog'.1]
    simp

end

/-! ## Programs that have not seen `Invoke` fail -/

section

variable {network : Shared Network} {arena : Shared Buffer} {info : Words}
  {inputInfo outputInfo : List TensorInfo} {start : Process}

theorem AllExplained.append {later past : List Entry}
    (h : AllExplained network arena info inputInfo outputInfo start (later ++ past)) :
    AllExplained network arena info inputInfo outputInfo start past := by
  induction later with
  | nil => exact h
  | cons e later ih => exact ih h.2.2

/-- Between its calls the device has nothing to do. -/
theorem AllExplained.working_resume {log : List Entry}
    (h : AllExplained network arena info inputInfo outputInfo start log)
    (hstart : working start.trace = [])
    (hinvokes : ∀ e ∈ log, ∀ timeoutNanos, e.call = .invoke timeoutNanos → e.outcome = .done) :
    working (resume start log).trace = [] := by
  induction log with
  | nil => exact hstart
  | cons e past ih =>
    obtain ⟨hbefore, hexplained, hpast⟩ := h
    rw [List.forall_mem_cons] at hinvokes
    have hidle := ih hpast hinvokes.2
    rw [← hbefore] at hidle
    have hsubset : working e.after.trace ⊆ working e.before.trace := by
      have hleaves := hexplained.leaves
      by_cases hinvoke : ∃ timeoutNanos, e.call = .invoke timeoutNanos
      · obtain ⟨timeoutNanos, hcall⟩ := hinvoke
        rw [hcall, hinvokes.1 timeoutNanos hcall] at hleaves
        exact hleaves.1
      · exact ((leaves_iff_busy fun timeoutNanos hcall ↦ hinvoke ⟨timeoutNanos, hcall⟩).1
          hleaves).1
    rw [hidle] at hsubset
    exact List.subset_nil.1 hsubset

/-- **Then what it knows depends on its calls only**, and on what the inferences have left. -/
theorem AllExplained.known_eq {log : List Entry}
    (h : AllExplained network arena info inputInfo outputInfo start log)
    (hstart : working start.trace = [])
    (hinvokes : ∀ e ∈ log, ∀ timeoutNanos, e.call = .invoke timeoutNanos → e.outcome = .done) :
    known info arena.obj.dataPtr log = relied info arena.obj.dataPtr log := by
  induction log with
  | nil => rfl
  | cons e past ih =>
    have hafter := h.working_resume hstart hinvokes
    obtain ⟨hbefore, hexplained, hpast⟩ := h
    rw [List.forall_mem_cons] at hinvokes
    have hidle := hpast.working_resume hstart hinvokes.2
    rw [← hbefore] at hidle
    have hleaves := hexplained.leaves
    obtain ⟨call, outcome, before, after, settled⟩ := e
    rw [known, Entry.update, relied, ih hpast hinvokes.2]
    cases call with
    | invoke timeoutNanos =>
      obtain rfl : outcome = .done := hinvokes.1 timeoutNanos rfl
      have hbusy : ¬ Idle before.trace after.trace := by
        rintro ⟨-, hsame⟩
        have hmore : starts after.trace = starts before.trace + 1 := hleaves.2
        omega
      exact (if_neg hbusy).trans (if_pos hafter)
    | _ =>
      have hnothing : Idle before.trace after.trace := ⟨hidle, hleaves.2⟩
      refine (if_pos hnothing).trans ?_
      cases outcome <;> rfl

end

/-! ## Programs -/

theorem kept_busy (env : Env) (l : List Fd) (n : Nat) : Kept env (Busy l n) :=
  fun _ _ hreq hp ↦ hp.called hreq

theorem kept_answers (env : Env) : Kept env (Answers env) := by
  intro p req _ hp req' reply' hmem
  rw [Process.called_trace, List.mem_cons, Process.past, List.mem_append] at hmem
  rcases hmem with heq | hended | hmem
  · cases heq
    exact ⟨_, rfl⟩
  · obtain ⟨fd, -, heq⟩ := List.mem_map.1 hended
    cases heq
  · exact hp _ _ hmem

section

variable {env : Env}

/-- What the constructor leaves. -/
theorem wp_new_ready (hsane : env.kernel.Sane) (model : String) :
    wp (new env model) (fun w p ↦ ∃ info network arena, Ready network arena info ⟨p, w.interpreter⟩
        ∧ Lists w.inputInfo (info NetworkInfo.ifm.count).toNat (NetworkInfo.ifm.tensor info)
        ∧ Lists w.outputInfo (info NetworkInfo.ofm.count).toNat (NetworkInfo.ofm.tensor info)
        ∧ (∃ past fd, info = (env.kernel.answer past (.networkInfo fd)).data)
        ∧ working p.trace = [])
      (fun _ _ ↦ True) {} := by
  have hbusy := keeps_of_coupled (coupled_interpreterNew (kept_busy env [] 0).twins model
    "/dev/ethosu0" defaultArenaSizeOfMB) (p := {}) (busy_self [])
  have hanswers := keeps_of_coupled (coupled_interpreterNew (kept_answers env).twins model
    "/dev/ethosu0" defaultArenaSizeOfMB) (p := {}) fun _ _ hmem ↦ absurd hmem List.not_mem_nil
  rw [new, wp_bind]
  refine wp_mono (wp_conj (wp_conj (Interpreter.wp_new hsane model _ _ rfl)
    (Interpreter.wp_new_placed model _ _)) (wp_conj hbusy hanswers)) (fun interpreter p h ↦ ?_)
    (fun _ _ _ ↦ trivial)
  obtain ⟨⟨⟨howns, hcomplete⟩, info, hplaced⟩, hbusy, hanswers⟩ := h
  obtain ⟨⟨id, network⟩, device, fd, buffer, hnetwork, hobj⟩ := hplaced.network
  obtain ⟨arena, -, harena, -⟩ := hplaced.arenaBuffer
  obtain rfl : network = _ := hobj
  have hdecodes := Network.decodes_ofInfo device fd buffer info
  obtain ⟨inputs, hinputs, hlists⟩ := hdecodes.inputInfo ⟨p, interpreter⟩ id hnetwork
  obtain ⟨outputs, houtputs, hlists'⟩ := hdecodes.outputInfo ⟨p, interpreter⟩ id hnetwork
  rw [wp_bind, wp_onObject, unwinding, wp_onThrow, wp_bind, wp_of_ok hinputs, wp_bind,
    wp_of_ok houtputs]
  obtain ⟨networkFd, reply, hmem, hdata⟩ := hplaced.reported
  obtain ⟨past, rfl⟩ := hanswers _ _ hmem
  exact ⟨info, _, arena, ⟨howns, hcomplete, hplaced, hnetwork, harena⟩, hlists, hlists',
    ⟨past, networkFd, hdata.symm⟩, List.subset_nil.1 hbusy.1⟩

/-- **Python programs can rely on what they know.**  The driver hands out fresh descriptors and
takes everything back, keeps buffers, calls no inference completed before its end, and knows only
networks whose tensors fit in the arena.  Once there is an interpreter, then whatever the calls of a
program are, whenever inferences end and whatever the device leaves behind while it works: all the
calls are made, and each of them is explained by those before it.  As long as `Invoke` has not
failed, what is known depends on the calls only, and on what the inferences have left. -/
theorem sessions_explained (hsane : env.kernel.Sane) (hkeeps : env.kernel.KeepsBuffers)
    (hcompletes : env.kernel.Completes)
    (hfits : ∀ past fd, FitsArena (env.kernel.answer past (.networkInfo fd)).data) (npu : Npu)
    {model : String} {w : InterpreterWrapper} {p : Process} (hnew : new env model {} = .ok w p)
    (calls : List Call) (hproper : ∀ i input, .setInput i input ∈ calls → input.Proper) :
    ∃ info network arena log s, Reported info p.trace ∧ working p.trace = []
      ∧ w.interpreter.network = some network ∧ w.interpreter.arenaBuffer = some arena
      ∧ session env npu w.inputInfo w.outputInfo calls [] ⟨p, w.interpreter⟩ = .ok log s
      ∧ log.map Entry.call = calls.reverse
      ∧ AllExplained network arena info w.inputInfo w.outputInfo p log
      ∧ ∀ later past, log = later ++ past →
        (∀ e ∈ past, ∀ timeoutNanos, e.call = .invoke timeoutNanos → e.outcome = .done) →
        known info arena.obj.dataPtr past = relied info arena.obj.dataPtr past := by
  obtain ⟨info, network, arena, hready, hinputs, houtputs, ⟨past, fd, hinfo⟩, hworking⟩ :=
    ok_of_wp (wp_new_ready hsane model) hnew
  have hsession := hready.wp_session npu hsane hkeeps hcompletes (hinfo ▸ hfits past fd) hinputs
    houtputs p calls hproper [] rfl Contents.agrees_nothing trivial
  obtain ⟨log, s, hrun, hcalls, hexplained⟩ := exists_of_wp hsession
  refine ⟨info, network, arena, log, s, hready.placed.reported, hworking, hready.network,
    hready.arena, hrun, by simpa using hcalls, hexplained, ?_⟩
  rintro later past rfl hinvokes
  exact hexplained.append.known_eq hworking hinvokes

end

/-- A network with an input and an output, of type `uint8` and shape `2 × 2`. -/
def squareNetwork : Words := fun k ↦
  if k = NetworkInfo.isVela then 1
  else if k = NetworkInfo.ifm.count ∨ k = NetworkInfo.ofm.count then 1
  else if k = NetworkInfo.ifm.types ∨ k = NetworkInfo.ofm.types then 3
  else if k = NetworkInfo.ofm.offset then 16
  else if k = NetworkInfo.ifm.dims ∨ k = NetworkInfo.ofm.dims then 2
  else if k = NetworkInfo.ifm.shapes ∨ k = NetworkInfo.ifm.shapes + 1 then 2
  else if k = NetworkInfo.ofm.shapes ∨ k = NetworkInfo.ofm.shapes + 1 then 2
  else 0

/-- A kernel in whose hands every inference comes to an end before somebody asks. -/
def completing (kernel : Kernel) : Kernel where
  answer past req := match req with
    | .inferenceStatus fd => { ret := 0, data := fun _ ↦ if fd ∈ working past then 2 else 0 }
    | req => kernel.answer past req
  ended := working

theorem completing_sane {kernel : Kernel} (h : kernel.Sane) : (completing kernel).Sane where
  fresh past req held fd sources hheld hret hgrants := by
    cases req with
    | inferenceStatus fd => cases hgrants
    | _ => exact h.fresh past _ held fd sources hheld hret hgrants
  close := h.close
  munmap := h.munmap

theorem completing_keepsBuffers {kernel : Kernel} (h : kernel.KeepsBuffers) :
    (completing kernel).KeepsBuffers where
  set := h.set
  get := h.get
  offset := h.offset
  size := h.size

theorem completing_completes (kernel : Kernel) : (completing kernel).Completes := by
  intro past fd _ hok hmem
  simp [completing, hmem, Status.ofWord] at hok

/-- A driver that knows this network. -/
def squareDriver : Env :=
  let env := spacious squareNetwork fun _ ↦ ⟨true, true, 0, []⟩
  { env with kernel := completing env.kernel }

/-- A device that leaves ones everywhere. -/
def ones : Npu where
  leaves old new mem := if Idle old new then mem else fun _ ↦ 1
  quiet _ _ _ hidle := if_pos hidle

theorem fitsArena_squareNetwork : FitsArena squareNetwork where
  inputs := ⟨by decide, by decide⟩
  outputs := ⟨by decide, by decide⟩
  within x hx := by
    cases x with
    | input k =>
      obtain rfl : k = 0 := Nat.lt_one_iff.1 hx
      decide
    | output k =>
      obtain rfl : k = 0 := Nat.lt_one_iff.1 hx
      decide

theorem squareDriver_sane : squareDriver.kernel.Sane :=
  completing_sane (spacious_spacious squareNetwork fun _ ↦ ⟨true, true, 0, []⟩).toApart.toSane

theorem squareDriver_keepsBuffers : squareDriver.kernel.KeepsBuffers :=
  completing_keepsBuffers (spacious_keepsBuffers squareNetwork fun _ ↦ ⟨true, true, 0, []⟩)

theorem squareDriver_fitsArena (past : List Event) (fd : Fd) :
    FitsArena (squareDriver.kernel.answer past (.networkInfo fd)).data := fitsArena_squareNetwork

theorem sessions_explained_square :
    ∃ w p, new squareDriver "model_vela.tflite" {} = .ok w p
      ∧ ∃ info network arena log s, Reported info p.trace ∧ working p.trace = []
        ∧ w.interpreter.network = some network ∧ w.interpreter.arenaBuffer = some arena
        ∧ session squareDriver ones w.inputInfo w.outputInfo
          [.setInput 0 (square 2 1), .invoke 1000, .getOutput 0] [] ⟨p, w.interpreter⟩ = .ok log s
        ∧ log.map Entry.call = [.getOutput 0, .invoke 1000, .setInput 0 (square 2 1)]
        ∧ AllExplained network arena info w.inputInfo w.outputInfo p log
        ∧ ∀ later past, log = later ++ past →
          (∀ e ∈ past, ∀ timeoutNanos, e.call = .invoke timeoutNanos → e.outcome = .done) →
          known info arena.obj.dataPtr past = relied info arena.obj.dataPtr past := by
  have hreturns : ∃ w p, new squareDriver "model_vela.tflite" {} = .ok w p ∧ True := by
    decide +kernel
  obtain ⟨w, p, hnew, -⟩ := hreturns
  refine ⟨w, p, hnew, sessions_explained squareDriver_sane squareDriver_keepsBuffers
    (completing_completes _) squareDriver_fitsArena ones hnew _ ?_⟩
  rintro i input hmem
  have heq : Call.setInput i input = .setInput 0 (square 2 1) := by simpa using hmem
  cases heq
  constructor <;> decide

end InterpreterWrapper

end EthosU
