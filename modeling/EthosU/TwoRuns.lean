import EthosU.DriverLibrary.Interpreter
import EthosU.Lib.Coupled

/-!
# Two runs of the driver library

Two processes run the same operations of the driver library in two environments.  This file says
when they stay in step, for a relation `T` between their traces that is left open.

* `Twin T p q`: the processes have `T`-related traces and otherwise agree.
* `Twins env₁ env₂ T`: a system call that both make is answered the same way and keeps the traces
  related.  Nothing is asked of `INFERENCE_CREATE` here, the one call that two runs may make with
  different structs; `TwinRequests` asks for it where it is needed.
* Every operation of the library keeps twins twins (`coupled_bufferNew`, `coupled_networkOfBuffer`,
  `coupled_ofArena`, …), up to whole lives of an interpreter (`coupled_interpreterNew`,
  `coupled_performAll`).

With the two environments equal and `T` the diagonal of a property of traces, these lemmas say that
the operations preserve that property.
-/

set_option autoImplicit false

namespace EthosU

open Wp

/-- Is this the one system call that carries an encoded inference? -/
def Request.isInferenceCreate : Request → Bool
  | .inferenceCreate _ _ => true
  | _ => false

/-- Processes that differ at most in their traces. -/
structure Twin (T : List Event → List Event → Prop) (p q : Process) : Prop where
  trace : T p.trace q.trace
  uses : p.uses = q.uses
  made : p.made = q.made
  mem : p.mem = q.mem

/-- Made from `T`-related traces, the two calls are answered the same way and keep the traces
related. -/
def Answered (env₁ env₂ : Env) (T : List Event → List Event → Prop) (p q : Process)
    (req₁ req₂ : Request) : Prop :=
  p.reply env₁ req₁ = q.reply env₂ req₂
    ∧ T (p.called env₁ req₁).trace (q.called env₂ req₂).trace

/-- Two environments that keep processes in step as long as these make the same calls, and in which
an uninitialised flag reads as `C`-related values. -/
structure Twins (env₁ env₂ : Env) (T : List Event → List Event → Prop) (C : Bool → Bool → Prop) :
    Prop where
  files : env₁.files = env₂.files
  answered : ∀ p q req, req.isInferenceCreate = false → T p.trace q.trace →
    Answered env₁ env₂ T p q req req
  heapBool : ∀ t u, T t u → C (env₁.heapBool t) (env₂.heapBool u)
  refl : ∀ c, C c c

/-- They stay in step when both encode this inference, if it is one that `create` accepts: each on
its own stack, and with a cycle counter flag of its own. -/
def TwinRequest (env₁ env₂ : Env) (T : List Event → List Event → Prop) (network : Fd)
    (arenaBuffer : Shared Buffer) (ifmBuffers ofmBuffers : List (Shared Buffer))
    (counterConfigs : List UInt32) (c₁ c₂ : Bool) : Prop :=
  ifmBuffers.length ≤ ethosuFdMax → ofmBuffers.length ≤ ethosuFdMax →
    counterConfigs.length = ethosuPmuEventMax → ∀ p q : Process, T p.trace q.trace →
    Answered env₁ env₂ T p q
      (.inferenceCreate network
        (Inference.request env₁ p arenaBuffer ifmBuffers ofmBuffers counterConfigs c₁).uapi)
      (.inferenceCreate network
        (Inference.request env₂ q arenaBuffer ifmBuffers ofmBuffers counterConfigs c₂).uapi)

/-- They stay in step whatever inference both encode. -/
def TwinRequests (env₁ env₂ : Env) (T : List Event → List Event → Prop) (C : Bool → Bool → Prop) :
    Prop :=
  ∀ (network : Fd) (arenaBuffer : Shared Buffer) (ifmBuffers ofmBuffers : List (Shared Buffer))
    (counterConfigs : List UInt32) (c₁ c₂ : Bool), C c₁ c₂ →
    TwinRequest env₁ env₂ T network arenaBuffer ifmBuffers ofmBuffers counterConfigs c₁ c₂

section

variable {env₁ env₂ : Env} {T : List Event → List Event → Prop} {C : Bool → Bool → Prop} {α : Type}

/-! ## The kernel interface -/

theorem Twin.of_called {p q : Process} {req₁ req₂ : Request} (h : Twin T p q)
    (hans : Answered env₁ env₂ T p q req₁ req₂) :
    Twin T (p.called env₁ req₁) (q.called env₂ req₂) :=
  ⟨hans.2, h.uses, h.made, h.mem⟩

/-- Checked system calls that are answered the same way stay in step. -/
theorem coupled_checked_of_answered {req₁ req₂ : Process → Request} (msg : String)
    (hans : ∀ p q, T p.trace q.trace → Answered env₁ env₂ T p q (req₁ p) (req₂ q)) :
    Coupled (Twin T) Eq (fun p ↦ checked env₁ msg (req₁ p) p)
      (fun q ↦ checked env₂ msg (req₂ q) q) := by
  intro p q h
  have hans' := hans p q h.trace
  by_cases hneg : (p.reply env₁ (req₁ p)).ret < 0
  · exact Coupled.of_error (checked_of_neg msg hneg) (checked_of_neg msg (hans'.1 ▸ hneg))
      (h.of_called hans')
  · exact Coupled.of_ok (checked_of_nonneg msg hneg) (checked_of_nonneg msg (hans'.1 ▸ hneg))
      hans'.1 (h.of_called hans')

theorem coupled_makeShared (obj : α) : Coupled (Twin T) Eq (makeShared obj) (makeShared obj) := by
  intro p q h
  refine ⟨by rw [h.made], h.trace, ?_, ?_, h.mem⟩
  · show Function.update p.uses p.made 1 = Function.update q.uses q.made 1
    rw [h.uses, h.made]
  · show p.made + 1 = q.made + 1
    rw [h.made]

theorem coupled_copy (s : Shared α) : Coupled (Twin T) Eq s.copy s.copy :=
  .modify fun p q h ↦ ⟨h.trace, by simp only [Shared.copied, h.uses], h.made, h.mem⟩

theorem coupled_release (s : Shared α) {d₁ d₂ : α → M Unit}
    (hd : Coupled (Twin T) Eq (d₁ s.obj) (d₂ s.obj)) :
    Coupled (Twin T) Eq (s.release d₁) (s.release d₂) := by
  refine Coupled.get.bind fun p q hpq ↦ (Coupled.modify fun p' q' h ↦ ?_).bind fun _ _ _ ↦ ?_
  · exact ⟨h.trace, by simp only [Shared.dropped, h.uses], h.made, h.mem⟩
  · exact .ite (by rw [hpq.uses]) (hd.tryCatch fun _ ↦ .throw _) (.pure rfl)

theorem coupled_read (file : File) (buffer : Fd) (addr : Int) (n : UInt64) :
    Coupled (Twin T) Eq (file.read buffer addr n) (file.read buffer addr n) :=
  .modify fun p q h ↦ ⟨h.trace, h.uses, h.made, by simp only [Process.loaded, h.mem]⟩

theorem coupled_destroyBoth {x₁ x₂ y₁ y₂ : M Unit} (hx : Coupled (Twin T) Eq x₁ x₂)
    (hy : Coupled (Twin T) Eq y₁ y₂) :
    Coupled (Twin T) Eq (destroyBoth x₁ y₁) (destroyBoth x₂ y₂) :=
  (Coupled.onThrow _ _ hy hx).bind fun _ _ _ ↦ hy

theorem coupled_option {f₁ f₂ : α → M Unit} (hf : ∀ a, Coupled (Twin T) Eq (f₁ a) (f₂ a)) :
    ∀ o : Option α, Coupled (Twin T) Eq (o.forM f₁) (o.forM f₂)
  | none => .pure rfl
  | some a => hf a

variable (h : Twins env₁ env₂ T C)

include h

theorem coupled_checked (msg : String) {req : Request} (hreq : req.isInferenceCreate = false) :
    Coupled (Twin T) Eq (checked env₁ msg req) (checked env₂ msg req) :=
  coupled_checked_of_answered msg fun p q hT ↦ h.answered p q req hreq hT

theorem coupled_discard (msg : String) {req : Request} (hreq : req.isInferenceCreate = false) :
    Coupled (Twin T) Eq (discard (checked env₁ msg req)) (discard (checked env₂ msg req)) :=
  (coupled_checked h msg hreq).bind fun _ _ _ ↦ .pure rfl

/-! ## Devices and buffers -/

theorem coupled_bufferNew (device : Device) (capacity : UInt64) :
    Coupled (Twin T) Eq (Buffer.new env₁ device capacity) (Buffer.new env₂ device capacity) := by
  refine (coupled_checked h _ (by rfl)).bind fun created _ hc ↦ ?_
  subst hc
  refine (Coupled.onThrow _ _ (coupled_discard h _ (by rfl))
    (coupled_checked h _ (by rfl))).bind fun mapped _ hm ↦ ?_
  subst hm
  exact .pure rfl

theorem coupled_bufferDestroy (buffer : Buffer) :
    Coupled (Twin T) Eq (buffer.destroy env₁) (buffer.destroy env₂) :=
  (Coupled.onThrow _ _ (coupled_discard h _ (by rfl))
    (coupled_discard h _ (by rfl))).bind fun _ _ _ ↦ coupled_discard h _ (by rfl)

theorem coupled_bufferRelease (buffer : Shared Buffer) :
    Coupled (Twin T) Eq (Buffer.release env₁ buffer) (Buffer.release env₂ buffer) :=
  coupled_release buffer (coupled_bufferDestroy h buffer.obj)

theorem coupled_data (buffer : Buffer) :
    Coupled (Twin T) Eq (buffer.data env₁) (buffer.data env₂) := by
  refine Coupled.bind (V := Eq) ?_ fun offset _ ho ↦ ho ▸ .pure rfl
  exact (coupled_checked h _ (by rfl)).bind fun reply _ hr ↦ hr ▸ .pure rfl

/-! ## Networks -/

theorem coupled_networkCreate (device : Device) (buffer : Option (Shared Buffer))
    (type : NetworkType) (arg : UInt32) :
    Coupled (Twin T) Eq (Network.create env₁ device buffer type arg)
      (Network.create env₂ device buffer type arg) := by
  refine (coupled_checked h _ (by rfl)).bind fun created _ hc ↦ ?_
  subst hc
  refine (Coupled.onThrow _ _ (coupled_discard h _ (by rfl))
    (coupled_checked h _ (by rfl))).bind fun reply _ hr ↦ ?_
  subst hr
  exact .pure rfl

theorem coupled_networkOfBuffer (device : Device) (buffer : Shared Buffer) :
    Coupled (Twin T) Eq (Network.ofBuffer env₁ device buffer)
      (Network.ofBuffer env₂ device buffer) :=
  (coupled_copy buffer).bind fun _ _ _ ↦
    Coupled.onThrow _ _ (coupled_bufferRelease h buffer) (coupled_networkCreate h device _ _ _)

theorem coupled_releaseNetwork (network : Shared Network) :
    Coupled (Twin T) Eq (Inference.releaseNetwork env₁ network)
      (Inference.releaseNetwork env₂ network) :=
  coupled_release network (coupled_destroyBoth (coupled_discard h _ (by rfl))
    (coupled_option (coupled_bufferRelease h) _))

/-! ## Inferences -/

theorem coupled_releaseMembers (network : Shared Network)
    (ifmBuffers ofmBuffers : List (Shared Buffer)) (arenaBuffer : Option (Shared Buffer)) :
    Coupled (Twin T) Eq (Inference.releaseMembers env₁ network ifmBuffers ofmBuffers arenaBuffer)
      (Inference.releaseMembers env₂ network ifmBuffers ofmBuffers arenaBuffer) :=
  coupled_destroyBoth (coupled_option (coupled_bufferRelease h) _)
    (coupled_destroyBoth (.forM (coupled_bufferRelease h) _)
      (coupled_destroyBoth (.forM (coupled_bufferRelease h) _) (coupled_releaseNetwork h network)))

theorem coupled_inferenceRelease (inference : Shared Inference) :
    Coupled (Twin T) Eq (Inference.release env₁ inference) (Inference.release env₂ inference) :=
  coupled_release inference (coupled_destroyBoth (coupled_discard h _ (by rfl))
    (coupled_releaseMembers h _ _ _ _))

theorem coupled_wait (inference : Inference) (timeoutNanos : Int64) :
    Coupled (Twin T) Eq (inference.wait env₁ timeoutNanos) (inference.wait env₂ timeoutNanos) :=
  (coupled_checked h _ (by rfl)).bind fun _ _ hr ↦ hr ▸ .pure rfl

theorem coupled_status (inference : Inference) :
    Coupled (Twin T) Eq (inference.status env₁) (inference.status env₂) := by
  refine (coupled_checked h _ (by rfl)).bind fun reply _ hr ↦ ?_
  subst hr
  cases Status.ofWord (reply.data 0) with
  | none => exact .throw _
  | some status => exact .pure rfl

omit h in
/-- `create` is where two runs may differ in what they send, though not in whether they send it. -/
theorem coupled_create {network : Shared Network} {arenaBuffer : Shared Buffer}
    {ifmBuffers ofmBuffers : List (Shared Buffer)} {counterConfigs : List UInt32} {c₁ c₂ : Bool}
    (hreq : TwinRequest env₁ env₂ T network.obj.fd arenaBuffer ifmBuffers ofmBuffers counterConfigs
      c₁ c₂) :
    Coupled (Twin T) Eq
      (Inference.create env₁ network arenaBuffer ifmBuffers ofmBuffers counterConfigs c₁)
      (Inference.create env₂ network arenaBuffer ifmBuffers ofmBuffers counterConfigs c₂) := by
  rw [Inference.create, Inference.create]
  by_cases hifm : ifmBuffers.length > ethosuFdMax
  · rw [if_pos hifm, if_pos hifm]
    exact .throw _
  by_cases hofm : ofmBuffers.length > ethosuFdMax
  · rw [if_neg hifm, if_neg hifm, if_pos hofm, if_pos hofm]
    exact .throw _
  by_cases hcounters : counterConfigs.length ≠ ethosuPmuEventMax
  · rw [if_neg hifm, if_neg hifm, if_neg hofm, if_neg hofm, if_pos hcounters, if_pos hcounters]
    exact .throw _
  rw [if_neg hifm, if_neg hifm, if_neg hofm, if_neg hofm, if_neg hcounters, if_neg hcounters]
  have hsent : Coupled (Twin T) Eq _ _ := coupled_checked_of_answered "IOCTL failed"
    (hreq (by omega) (by omega) (by omega))
  have hret : Coupled (Twin T) Eq _ _ := hsent.bind (W := Eq) (f := fun r ↦ pure r.ret)
    (g := fun r ↦ pure r.ret) fun _ _ hr ↦ hr ▸ .pure rfl
  exact fun p q hpq ↦ hret p q hpq

theorem coupled_ofBuffers {network : Shared Network} {ifmBuffers ofmBuffers : List (Shared Buffer)}
    {counters : List UInt32} {c : Bool}
    (hreq : ∀ arenaBuffer, TwinRequest env₁ env₂ T network.obj.fd arenaBuffer ifmBuffers ofmBuffers
      (Inference.copyCounters counters Inference.initializeCounterConfig) c c) :
    Coupled (Twin T) Eq (Inference.ofBuffers env₁ network ifmBuffers ofmBuffers counters c)
      (Inference.ofBuffers env₂ network ifmBuffers ofmBuffers counters c) := by
  refine (coupled_copy network).bind fun _ _ _ ↦ (Coupled.forM coupled_copy _).bind fun _ _ _ ↦
    (Coupled.forM coupled_copy _).bind fun _ _ _ ↦ ?_
  refine Coupled.bind (V := Eq)
    (Coupled.onThrow _ _ (coupled_releaseMembers h _ _ _ _) ?_) fun arenaBuffer _ ha ↦ ?_
  · refine Coupled.ite Iff.rfl (.throw _) ?_
    exact (coupled_bufferNew h _ _).bind fun _ _ hb ↦ hb ▸ coupled_makeShared _
  · subst ha
    refine Coupled.onThrow _ _ (coupled_releaseMembers h _ _ _ _) ?_
    refine (coupled_discard h _ (by rfl)).bind fun _ _ _ ↦ ?_
    exact (coupled_create (hreq _)).bind fun _ _ hfd ↦ hfd ▸ .pure rfl

theorem coupled_ofArena {network : Shared Network} {arenaBuffer : Shared Buffer}
    {counters : List UInt32} {c₁ c₂ : Bool}
    (hreq : TwinRequest env₁ env₂ T network.obj.fd arenaBuffer [] []
      (Inference.copyCounters counters Inference.initializeCounterConfig) c₁ c₂) :
    Coupled (Twin T) Eq (Inference.ofArena env₁ network arenaBuffer counters c₁)
      (Inference.ofArena env₂ network arenaBuffer counters c₂) := by
  refine (coupled_copy network).bind fun _ _ _ ↦ (coupled_copy arenaBuffer).bind fun _ _ _ ↦
    Coupled.onThrow _ _ (coupled_releaseMembers h _ _ _ _) (Coupled.ite Iff.rfl (.throw _) ?_)
  exact (coupled_create hreq).bind fun _ _ hfd ↦ hfd ▸ .pure rfl

end

/-! ## Interpreters -/

/-- Interpreters that differ at most in the cycle counter flag. -/
def TwinThis (C : Bool → Bool → Prop) (i j : Interpreter) : Prop :=
  ∃ c, C c j.enableCycleCounter ∧ i = { j with enableCycleCounter := c }

/-- Sessions that differ at most in their traces and in the cycle counter flag. -/
structure SessionTwin (T : List Event → List Event → Prop) (C : Bool → Bool → Prop)
    (s t : Session) : Prop where
  proc : Twin T s.proc t.proc
  this : TwinThis C s.this t.this

section

variable {env₁ env₂ : Env} {T : List Event → List Event → Prop} {C : Bool → Bool → Prop}
  {α β : Type}

theorem coupled_onProc {V : α → β → Prop} {x : M α} {y : M β} (h : Coupled (Twin T) V x y) :
    Coupled (SessionTwin T C) V (onProc x) (onProc y) :=
  h.onPart (fun _ _ hst ↦ hst.proc) fun _ _ _ _ hst hR ↦ ⟨hR, hst.this⟩

theorem coupled_onObject {V : α → β → Prop} {i j : Interpreter} (hij : TwinThis C i j)
    {x : Method α} {y : Method β} (h : Coupled (SessionTwin T C) V x y) :
    Coupled (Twin T) (fun a b ↦ V a.1 b.1 ∧ TwinThis C a.2 b.2) (onObject i x) (onObject j y) :=
  (h.bind fun _ _ hV ↦ Coupled.get.bind fun _ _ hst ↦ .pure ⟨hV, hst.this⟩).onPart
    (fun _ _ hpq ↦ ⟨hpq, hij⟩) fun _ _ _ _ _ hst ↦ hst.proc

theorem coupled_deref (ptr : Option α) : Coupled (SessionTwin T C) Eq (deref ptr) (deref ptr) := by
  cases ptr with
  | none => exact .throw _
  | some a => exact .pure rfl

/-- Assigning the same value to a member on both sides. -/
theorem coupled_assign (f : Interpreter → Interpreter)
    (hf : ∀ i c, f { i with enableCycleCounter := c } = { f i with enableCycleCounter := c })
    (hflag : ∀ i, (f i).enableCycleCounter = i.enableCycleCounter) :
    Coupled (SessionTwin T C) Eq (modify fun s ↦ { s with this := f s.this } : Method PUnit)
      (modify fun s ↦ { s with this := f s.this } : Method PUnit) := by
  refine .modify fun s t hst ↦ ⟨hst.proc, ?_⟩
  obtain ⟨c, hC, hc⟩ := hst.this
  exact ⟨c, by rw [hflag]; exact hC, by rw [hc, hf]⟩

variable (h : Twins env₁ env₂ T C)

include h

theorem coupled_setPmuCycleCounters (counters : List UInt8) (cycleCounter : Bool) :
    Coupled (SessionTwin T C) Eq (Interpreter.setPmuCycleCounters counters cycleCounter)
      (Interpreter.setPmuCycleCounters counters cycleCounter) := by
  refine Coupled.ite Iff.rfl (.throw _) (.modify fun s t hst ↦
    ⟨hst.proc, cycleCounter, h.refl _, ?_⟩)
  obtain ⟨c, -, hc⟩ := hst.this
  rw [hc]

theorem coupled_interpreterDestroy {i j : Interpreter} (hij : TwinThis C i j) :
    Coupled (Twin T) Eq (i.destroy env₁) (j.destroy env₂) := by
  obtain ⟨c, -, rfl⟩ := hij
  exact coupled_destroyBoth (coupled_option (coupled_inferenceRelease h) _)
    (coupled_destroyBoth (coupled_option (coupled_releaseNetwork h) _)
      (coupled_destroyBoth (coupled_option (coupled_bufferRelease h) _)
        (coupled_destroyBoth (coupled_option (coupled_bufferRelease h) _)
          (coupled_discard h _ (by rfl)))))

theorem coupled_init (model : String) :
    Coupled (SessionTwin T C) Eq (Interpreter.init env₁ model) (Interpreter.init env₂ model) := by
  refine Coupled.get.bind fun s t hst ↦ ?_
  obtain ⟨c, hC, hc⟩ := hst.this
  rw [hc]
  refine (coupled_onProc (coupled_discard h _ (by rfl))).bind fun _ _ _ ↦ ?_
  refine Coupled.bind (V := Eq) (coupled_onProc ?_) fun stream _ hs ↦ ?_
  · rw [Interpreter.openModel, Interpreter.openModel, h.files]
    exact Coupled.ite Iff.rfl (.pure rfl) (.throw _)
  subst hs
  refine Coupled.bind (V := Eq) (coupled_onProc ((coupled_bufferNew h _ _).bind fun _ _ hb ↦
    hb ▸ coupled_makeShared _)) fun networkBuffer _ hn ↦ ?_
  subst hn
  refine (coupled_assign (fun i ↦ { i with networkBuffer := some networkBuffer }) (fun _ _ ↦ rfl)
    fun _ ↦ rfl).bind fun _ _ _ ↦ ?_
  refine (coupled_onProc (coupled_discard h _ (by rfl))).bind fun _ _ _ ↦ ?_
  refine Coupled.bind (V := Eq) (coupled_onProc ((coupled_data h _).bind fun _ _ ha ↦
    ha ▸ coupled_read _ _ _ _)) fun _ _ _ ↦ ?_
  refine Coupled.bind (V := Eq) (coupled_onProc ((coupled_networkOfBuffer h _ _).bind fun _ _ hb ↦
    hb ▸ coupled_makeShared _)) fun network _ hn ↦ ?_
  subst hn
  refine (coupled_assign (fun i ↦ { i with network := some network }) (fun _ _ ↦ rfl)
    fun _ ↦ rfl).bind fun _ _ _ ↦ Coupled.ite Iff.rfl (.throw _) ?_
  refine Coupled.bind (V := Eq) (coupled_onProc ((coupled_bufferNew h _ _).bind fun _ _ hb ↦
    hb ▸ coupled_makeShared _)) fun arenaBuffer _ ha ↦ ?_
  subst ha
  refine (coupled_assign (fun i ↦ { i with arenaBuffer := some arenaBuffer }) (fun _ _ ↦ rfl)
    fun _ ↦ rfl).bind fun _ _ _ ↦ ?_
  exact coupled_onProc (coupled_discard h _ (by rfl))

/-- Two constructors end in the same way, and in the same object up to the flag neither of them
initialises. -/
theorem coupled_interpreterNew (model device : String) (arenaSizeOfMB : Int64) :
    Coupled (Twin T) (TwinThis C)
      (Interpreter.new env₁ model device arenaSizeOfMB)
      (Interpreter.new env₂ model device arenaSizeOfMB) := by
  refine Coupled.bind (V := Eq) ((coupled_checked h _ (by rfl)).bind fun _ _ hr ↦ hr ▸ .pure rfl)
    fun dev _ hd ↦ ?_
  subst hd
  refine Coupled.get.bind fun p q hpq ↦ ?_
  have hblank : TwinThis C (Interpreter.blank env₁ p dev arenaSizeOfMB)
      (Interpreter.blank env₂ q dev arenaSizeOfMB) := ⟨_, h.heapBool _ _ hpq.trace, rfl⟩
  refine (coupled_onObject (V := Eq) hblank ?_).bind fun _ _ hV ↦ .pure hV.2
  refine Coupled.onThrow _ _ (Coupled.get.bind fun s t hst ↦ ?_) (coupled_init h model)
  exact coupled_onProc (coupled_interpreterDestroy h hst.this)

theorem coupled_invoke (hreq : TwinRequests env₁ env₂ T C) (timeoutNanos : Int64) :
    Coupled (SessionTwin T C) Eq (Interpreter.invoke env₁ timeoutNanos)
      (Interpreter.invoke env₂ timeoutNanos) := by
  refine Coupled.get.bind fun s t hst ↦ ?_
  obtain ⟨c, hC, hc⟩ := hst.this
  rw [hc]
  refine (coupled_deref _).bind fun network _ hn ↦ ?_
  subst hn
  refine (coupled_deref _).bind fun arenaBuffer _ ha ↦ ?_
  subst ha
  refine Coupled.bind (V := Eq) (coupled_onProc ((coupled_ofArena h (hreq _ _ _ _ _ _ _ hC)).bind
    fun _ _ hi ↦ hi ▸ coupled_makeShared _)) fun inference _ hi ↦ ?_
  subst hi
  refine (coupled_assign (fun i ↦ { i with inference := some inference }) (fun _ _ ↦ rfl)
    fun _ ↦ rfl).bind fun _ _ _ ↦ ?_
  refine (coupled_onProc (coupled_option (coupled_inferenceRelease h) _)).bind fun _ _ _ ↦ ?_
  refine (coupled_onProc (coupled_wait h _ _)).bind fun _ _ _ ↦ ?_
  refine (coupled_onProc (coupled_status h _)).bind fun status _ hs ↦ ?_
  subst hs
  exact Coupled.ite Iff.rfl (.throw _) (.pure rfl)

theorem coupled_perform (call : Interpreter.Call)
    (hreq : (∃ t, call = .invoke t) → TwinRequests env₁ env₂ T C) :
    Coupled (SessionTwin T C) Eq (Interpreter.perform env₁ call)
      (Interpreter.perform env₂ call) := by
  cases call with
  | setPmuCycleCounters counters cycleCounter => exact coupled_setPmuCycleCounters h counters _
  | invoke timeoutNanos => exact coupled_invoke h (hreq ⟨timeoutNanos, rfl⟩) timeoutNanos

/-- Only calls of `Invoke` make requests. -/
theorem coupled_performAll (calls : List Interpreter.Call)
    (hreq : (∃ t, .invoke t ∈ calls) → TwinRequests env₁ env₂ T C) :
    Coupled (SessionTwin T C) Eq (Interpreter.performAll env₁ calls)
      (Interpreter.performAll env₂ calls) := by
  induction calls with
  | nil => exact .pure rfl
  | cons call calls ih =>
    refine Coupled.bind (V := Eq) (Coupled.tryCatch ?_ fun e ↦ ?_) fun _ _ ho ↦ ?_
    · refine (coupled_perform h call fun ⟨t, ht⟩ ↦ hreq ⟨t, ?_⟩).bind fun _ _ _ ↦ .pure rfl
      rw [ht]
      exact List.mem_cons_self
    · exact Coupled.ite Iff.rfl (.throw e) (.pure rfl)
    · refine (ih fun ⟨t, ht⟩ ↦ hreq ⟨t, List.mem_cons_of_mem _ ht⟩).bind fun _ _ hos ↦ ?_
      exact ho ▸ hos ▸ .pure rfl

theorem coupled_live (model device : String) (arenaSizeOfMB : Int64) (calls : List Interpreter.Call)
    (hreq : (∃ t, .invoke t ∈ calls) → TwinRequests env₁ env₂ T C) :
    Coupled (Twin T) (fun a b ↦ a.1 = b.1 ∧ TwinThis C a.2 b.2)
      (Interpreter.live env₁ model device arenaSizeOfMB calls)
      (Interpreter.live env₂ model device arenaSizeOfMB calls) :=
  (coupled_interpreterNew h model device arenaSizeOfMB).bind fun _ _ hij ↦
    coupled_onObject hij (coupled_performAll h calls hreq)

end

/-! ## Invariants of one run -/

/-- Equal traces, with a property. -/
def Diagonal (I : List Event → Prop) (t u : List Event) : Prop := t = u ∧ I t

/-- The property survives every system call but `INFERENCE_CREATE`. -/
def Kept (env : Env) (I : List Event → Prop) : Prop :=
  ∀ (p : Process) (req : Request), req.isInferenceCreate = false → I p.trace →
    I (p.called env req).trace

section

variable {env : Env} {I : List Event → Prop}

/-- Processes with equal traces are answered alike by the same kernel. -/
theorem answered_diagonal {p q : Process} {req : Request} (h : p.trace = q.trace)
    (hI : I (p.called env req).trace) : Answered env env (Diagonal I) p q req req := by
  have hpast : p.past env = q.past env := by rw [Process.past, Process.past, h]
  have hreply : p.reply env req = q.reply env req := by rw [Process.reply, Process.reply, hpast]
  refine ⟨hreply, ?_, hI⟩
  rw [Process.called_trace, Process.called_trace, hreply, hpast]

theorem Kept.twins (h : Kept env I) : Twins env env (Diagonal I) Eq where
  files := rfl
  answered p q req hreq hpq := answered_diagonal hpq.1 (h p req hreq hpq.2)
  heapBool t u htu := by rw [htu.1]
  refl _ := rfl

theorem twin_diagonal {p : Process} (h : I p.trace) : Twin (Diagonal I) p p :=
  ⟨⟨rfl, h⟩, rfl, rfl, rfl⟩

/-- On the diagonal, staying in step is keeping the property. -/
theorem keeps_of_coupled {α : Type} {V : α → α → Prop} {x : M α}
    (h : Coupled (Twin (Diagonal I)) V x x) {p : Process} (hp : I p.trace) :
    wp x (fun _ p' ↦ I p'.trace) (fun _ p' ↦ I p'.trace) p := by
  obtain ⟨a, b, s, t, hx, -, -, hst⟩ | ⟨e, s, t, hx, -, hst⟩ := h.cases (twin_diagonal hp)
  · exact (wp_of_ok hx).2 hst.trace.2
  · exact (wp_of_error hx).2 hst.trace.2

/-- The same for methods. -/
theorem keeps_of_coupled_method {α : Type} {V : α → α → Prop} {x : Method α}
    (h : Coupled (SessionTwin (Diagonal I) Eq) V x x) {s : Session} (hs : I s.proc.trace) :
    wp x (fun _ s' ↦ I s'.proc.trace) (fun _ s' ↦ I s'.proc.trace) s := by
  obtain ⟨a, b, s₁, s₂, hx, -, -, hst⟩ | ⟨e, s₁, s₂, hx, -, hst⟩ :=
    h.cases (t := s) ⟨twin_diagonal hs, _, rfl, rfl⟩
  · exact (wp_of_ok hx).2 hst.proc.trace.2
  · exact (wp_of_error hx).2 hst.proc.trace.2

end

end EthosU
