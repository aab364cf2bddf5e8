import EthosU.Housekeeping
import EthosU.InferenceRunner.Arguments

/-!
# The inference runner does the same for every invariant

What `EthosU.Housekeeping` says of the driver library, for the functions of the inference runner: an
invariant of the process that housekeeping keeps is kept by each of them, if it is kept by the
other calls that the function makes.

* The names end in `_of`, since there are other lemmas about the same functions.
* A function that reads files writes to memory.  Its lemma asks that the invariant is not about
  memory, nor about the records of what was loaded.
-/

set_option autoImplicit false

namespace EthosU

open Wp

namespace InferenceRunner

/-- The invariant is about the calls that were made, and not about memory. -/
def OfCalls (I : Process → Prop) : Prop :=
  ∀ p q : Process, q.trace = p.trace → q.submissions = p.submissions → I p → I q

theorem ofCalls_trace (T : List Event → Prop) : OfCalls fun p ↦ T p.trace := by
  intro p q htrace _ hp
  rwa [htrace]

theorem subset_called {env : Env} {p : Process} (req : Request) :
    p.trace ⊆ (p.called env req).trace :=
  fun _ he ↦ List.mem_cons_of_mem _ (List.mem_append_right _ he)

/-- What has been called has been called. -/
theorem survives_seen (env : Env) (t : List Event) (req : Request) :
    Survives env (fun p ↦ t ⊆ p.trace) req := fun _ hp ↦ List.Subset.trans hp (subset_called req)

theorem stable_seen (env : Env) (t : List Event) : Stable env fun p ↦ t ⊆ p.trace where
  survives req _ := survives_seen env t req
  counted _ _ _ hp := hp

/-! ## What the functions of the runner keep -/

/-- An exception goes through a scope. -/
theorem wp_unwinding_of {α : Type} {I : Process → Prop} {x : M α} {destructors : M Unit}
    {Q : α → Process → Prop} {p : Process} (hd : Keeps I destructors)
    (hx : wp x Q (fun _ q ↦ I q) p) : wp (unwinding destructors x) Q (fun _ q ↦ I q) p := by
  rw [unwinding, wp_onThrow]
  refine wp_mono hx (fun _ _ hq ↦ hq) (fun e q hq ↦ ?_)
  split
  · exact wp_mono (hd q hq) (fun _ _ hq ↦ hq) (fun _ _ hq ↦ hq)
  · exact hq

section

variable {env : Env} {I : Process → Prop} (h : Stable env I)

include h

/-- The status, as it is and as it is printed. -/
theorem keeps_awaitInference_of {inference : Inference} {timeout : Int64}
    (hpoll : Survives env I (.ppoll inference.fd (Inference.pollTimeout timeout))) :
    Keeps I (awaitInference env inference timeout) := by
  refine Keeps.tryCatch ((keeps_wait hpoll).bind fun _ ↦ .ite ?_ (.pure _)) fun _ ↦ .throw _
  exact ((h.checked _ rfl).bind fun _ ↦ .pure _).bind fun _ ↦ .ite (h.status _).discard (.pure _)

theorem keeps_size_of (buffer : Buffer) : Keeps I (buffer.size env) :=
  (h.checked _ rfl).bind fun _ ↦ .pure _

theorem keeps_writeOfms_of (print : Bool) (ofmBuffers : List (Shared Buffer)) :
    Keeps I (writeOfms env print ofmBuffers) := by
  refine .listForM _ fun ofmBuffer ↦ (keeps_size_of h _).discard.bind fun _ ↦ ?_
  refine Keeps.bind ?_ fun _ ↦ (h.data _).discard.bind fun _ ↦ (keeps_size_of h _).discard
  exact .ite ((h.data _).discard.bind fun _ ↦ (keeps_size_of h _).discard) (.pure _)

theorem keeps_processResult_of (network : Network) (ofmBuffers : List (Shared Buffer)) :
    Keeps I (processResult env network ofmBuffers) := by
  refine .ite (.listForM _ fun ofmBuffer ↦ (h.data _).discard) ?_
  split
  · exact (h.data _).discard.bind fun _ ↦ .ite (.throw _) (.pure _)
  · exact .throw _

theorem keeps_readCounters_of (o : Options) (inference : Inference) :
    Keeps I (readCounters env o inference) := by
  have hstatus : Keeps I (discard (eioctl env (.inferenceStatus inference.fd))) :=
    h.discarded _ rfl
  exact (Keeps.ite hstatus (.pure _)).bind fun _ ↦ .ite hstatus (.pure _)

theorem keeps_finishInference_of {o : Options} {w : Waiting}
    (hpoll : ∀ fd, Survives env I (.ppoll fd (Inference.pollTimeout w.timeout)))
    (network : Network) (inference : Inference) (ofmIndex : Nat) :
    Keeps I (finishInference env o w network inference ofmIndex) := by
  refine (h.status _).discard.bind fun _ ↦ (keeps_awaitInference_of h (hpoll _)).bind fun _ ↦
    (h.status _).discard.bind fun _ ↦ (h.status _).bind fun _ ↦ .ite ?_ (.pure _)
  refine Keeps.bind (.ite (.throw _) (.pure _)) fun _ ↦ ?_
  exact (keeps_writeOfms_of h _ _).bind fun _ ↦ (keeps_processResult_of h _ _).bind fun _ ↦
    keeps_readCounters_of h o inference

theorem keeps_waitLoop_of {o : Options} {w : Waiting}
    (hpoll : ∀ fd, Survives env I (.ppoll fd (Inference.pollTimeout w.timeout)))
    (network : Network) (inferences : List (Shared Inference)) (ofmIndex : Nat) :
    Keeps I (waitLoop env o w network inferences ofmIndex) := by
  induction inferences generalizing ofmIndex with
  | nil => exact .pure _
  | cons inference inferences ih =>
    exact (keeps_finishInference_of h hpoll network inference.obj ofmIndex).bind fun _ ↦ ih _

theorem keeps_destroyAll_of (device : Device) (network : Shared Network)
    (inferences : List (Shared Inference)) :
    Keeps I (destroyAll env device network inferences) :=
  keeps_destroyBoth (.listForM _ h.inferenceRelease)
    (keeps_destroyBoth (h.releaseNetwork network) (h.deviceDestroy device))

variable (hcreate : ∀ fd capacity, Survives env I (.bufferCreate fd capacity))

include hcreate

theorem keeps_allocOfms_of (device : Device) (sizes : List UInt64) (ofm : List (Shared Buffer)) :
    Keeps I (allocOfms env device sizes ofm) := by
  induction sizes generalizing ofm with
  | nil => exact .pure _
  | cons size sizes ih =>
    exact (Keeps.onThrow (.listForM _ h.bufferRelease) (h.makeBuffer (hcreate _ _))).bind
      fun _ ↦ ih _

variable (hload : OfCalls I)

include hload

theorem keeps_allocAndFill_of (device : Device) (filename : String) :
    Keeps I (allocAndFill env device filename) :=
  .ite (.throw _) ((h.makeBuffer (hcreate _ _)).bind fun buffer ↦
    Keeps.onThrow (h.bufferRelease buffer) ((h.resize _ _ _).bind fun _ ↦ (h.data _).bind fun _ ↦
      Keeps.bind (.modify fun p hp ↦ hload p _ rfl rfl hp) fun _ ↦ .pure _))

omit h hcreate in
theorem keeps_getInputFromFile_of (t : ElementType) (filename : String) (inputData : Int)
    (shape : List UInt64) :
    Keeps I (getInputFromFile env t filename inputData shape) := fun p hp ↦
  wp_mono (wp_getInputFromFile env t filename inputData shape p)
    (fun _ q hq ↦ hload p q hq.trace hq.submissions hp) fun _ _ hq ↦ hq.2 ▸ hp

theorem keeps_fillIfm_of (device : Device) (filename : String) (ifmSize : UInt64)
    (inputType : Int32) (inputShape : List UInt64) :
    Keeps I (fillIfm env device filename ifmSize inputType inputShape) := by
  refine (h.makeBuffer (hcreate _ _)).bind fun buffer ↦ Keeps.onThrow (h.bufferRelease buffer)
    ((h.resize _ _ _).bind fun _ ↦ ?_)
  cases ElementType.ofTensorType inputType with
  | none => exact .throw _
  | some t =>
    exact (h.data _).bind fun _ ↦ (keeps_getInputFromFile_of hload t _ _ _).bind fun _ ↦ .pure _

theorem keeps_fillIfms_of (device : Device) (filename : String)
    (tensors : List (UInt64 × Int32 × List UInt64)) (ifm : List (Shared Buffer)) :
    Keeps I (fillIfms env device filename tensors ifm) := by
  induction tensors generalizing ifm with
  | nil => exact .pure _
  | cons tensor tensors ih =>
    exact (Keeps.onThrow (.listForM _ h.bufferRelease)
      (keeps_fillIfm_of h hcreate hload device filename _ _ _)).bind fun _ ↦ ih _

theorem keeps_createInference_of {device : Device} {network : Shared Network} {filename : String}
    {counters : List UInt8} {enableCycleCounter : Bool}
    (hsent : ∀ p arenaBuffer ifm ofm, I p → I (p.called env (.inferenceCreate network.obj.fd
      (Inference.request env p arenaBuffer ifm ofm
        (Inference.copyCounters (counters.map UInt8.toUInt32) Inference.initializeCounterConfig)
        enableCycleCounter).uapi))) :
    Keeps I (createInference env device network filename counters enableCycleCounter) := by
  refine (keeps_fillIfms_of h hcreate hload device filename _ _).bind fun ifm ↦ ?_
  have hifm : Keeps I (releaseAll env ifm) := .listForM _ h.bufferRelease
  refine (Keeps.onThrow hifm (keeps_allocOfms_of h hcreate device _ _)).bind fun ofm ↦ ?_
  have hboth : Keeps I (destroyBoth (releaseAll env ofm) (releaseAll env ifm)) :=
    keeps_destroyBoth (.listForM _ h.bufferRelease) hifm
  refine (Keeps.onThrow hboth ((h.ofBuffers (hcreate _) fun p arenaBuffer hp ↦
    hsent p arenaBuffer ifm ofm hp).bind fun _ ↦ h.makeShared _)).bind fun _ ↦ ?_
  exact hboth.bind fun _ ↦ .pure _

theorem keeps_createInferences_of {o : Options} {device : Device} {network : Shared Network}
    (hsent : ∀ p arenaBuffer ifm ofm, I p → I (p.called env (.inferenceCreate network.obj.fd
      (Inference.request env p arenaBuffer ifm ofm
        (Inference.copyCounters (o.enabledCounters.map UInt8.toUInt32)
          Inference.initializeCounterConfig) o.enableCycleCounter).uapi)))
    (filenames : List String) (inferences : List (Shared Inference)) :
    Keeps I (createInferences env o device network filenames inferences) := by
  induction filenames generalizing inferences with
  | nil => exact .pure _
  | cons filename filenames ih =>
    exact (Keeps.onThrow (.listForM _ h.inferenceRelease)
      (keeps_createInference_of h hcreate hload hsent)).bind fun _ ↦ ih _

end

/-- A run of `main`, from what is known of the inferences once they have been submitted. -/
theorem wp_main_of {env : Env} {I : Process → Prop} (hstable : Stable env I) {v : Variables}
    {opens : String → Bool} {argv : List String} {p : Process}
    (hpoll : ∀ fd, Survives env I (.ppoll fd (Inference.pollTimeout v.waiting.timeout)))
    (haccept : accept opens argv = .ok v)
    (hsubmit : wp (submit env v.options) (fun _ q ↦ I q) (fun _ q ↦ I q) p) :
    wp (main env opens argv) (fun _ q ↦ I q) (fun _ q ↦ I q) p := by
  have hrun : wp (run env v) (fun _ q ↦ I q) (fun _ q ↦ I q) p := by
    rw [run, wp_bind]
    refine wp_mono hsubmit (fun submitted q hq ↦ ?_) (fun _ _ he ↦ he)
    obtain ⟨device, network, inferences⟩ := submitted
    have hdestroy := keeps_destroyAll_of hstable device network inferences
    exact ((Keeps.onThrow hdestroy (keeps_waitLoop_of hstable hpoll network.obj inferences 0)).bind
      fun _ ↦ hdestroy) q hq
  rw [main, haccept]
  show wp (tryCatch (run env v >>= fun _ ↦ pure 0) _) _ _ _
  rw [wp_tryCatch, wp_bind]
  refine wp_mono hrun (fun _ _ hq ↦ hq) (fun e q hq ↦ ?_)
  cases e with
  | error msg => exact hq
  | nested | terminate | crash | exit status => exact hq

end InferenceRunner

end EthosU
