import EthosU.Housekeeping
import EthosU.InferenceRunner.InferenceRunner
import EthosU.InferenceRunner.InterpreterRunner
import Mathlib.Data.List.TakeDrop

/-!
# Nothing is submitted that was not loaded

The two runners load a model and images from files, and hand them to the driver.  A file may be
missing, be cut short or contain something else; this file asks when that keeps a runner from going
on.

* `NothingUnloaded` is what one would hope for: whenever a network was created from a buffer, the
  buffer held the whole model, whenever an inference was created, all tensors filled so far had been
  completely written from decoded images, and no tensor was reported as loaded that was not decoded.
* `AllLoadable` is the condition under which this is so: the files that had been used by then were
  good ones.  Neither runner looks at what `stream.read` did to the stream, at the result of
  `getInputFromFile`, or at that of `IMAGE_Decode`.
* `Recorded` is the invariant that connects the two.  Every tensor is `TensorLoad.Explained`, and
  the model a network is created from is as much of the file as could be read.
* `Runner.nothingUnloaded_iff` says that they are the same, for every run of each runner.
-/

set_option autoImplicit false

namespace EthosU

open Wp

/-! ## What is submitted -/

/-- Reading the file yields all of it. -/
def File.Whole (file : File) : Prop :=
  file.content = []
    ∨ (file.tells = true ∧ file.content.length ≤ file.delivers ∧ file.content.length < 2 ^ 64)

/-- Memory holds what was read. -/
def ModelLoad.In (m : ModelLoad) (mem : Int → UInt8) : Prop :=
  ∀ i < m.bytes.length, mem (m.address + i) = m.bytes.getD i 0

instance (m : ModelLoad) (mem : Int → UInt8) : Decidable (m.In mem) :=
  inferInstanceAs (Decidable (∀ i < _, _))

instance (l : TensorLoad) : Decidable l.Complete := inferInstanceAs (Decidable (_ ∧ _ ∧ _))

instance (l : TensorLoad) : Decidable l.Sound := inferInstanceAs (Decidable (_ → _))

namespace Submission

/-- The data this call is about had been loaded when it was made. -/
def Loaded (s : Submission) (model : File) : Prop :=
  match s.req with
  | .networkCreate _ .buffer arg =>
    ∃ m ∈ s.models, m.buffer.toUInt32 = arg ∧ m.bytes = model.content ∧ m.In s.mem
  | .inferenceCreate _ _ => ∀ l ∈ s.tensors, l.Complete
  | _ => True

/-- The files this call depends on were good ones. -/
def Loadable (s : Submission) (model : File) : Prop :=
  match s.req with
  | .networkCreate _ .buffer _ => model.Whole
  | .inferenceCreate _ _ => ∀ l ∈ s.tensors, l.Loadable ∧ l.Fits
  | _ => True

instance (s : Submission) (model : File) : Decidable (s.Loaded model) :=
  match h : s.req with
  | .networkCreate _ .buffer arg =>
    decidable_of_iff
      (∃ m ∈ s.models, m.buffer.toUInt32 = arg ∧ m.bytes = model.content ∧ m.In s.mem)
      (by rw [Loaded, h])
  | .inferenceCreate _ _ => decidable_of_iff (∀ l ∈ s.tensors, l.Complete) (by rw [Loaded, h])
  | .networkCreate _ .index _ | .open _ | .close _ | .mmap _ _ | .munmap _ _ | .ppoll _ _ | .ping _
  | .versionReq _ | .capabilitiesReq _ | .bufferCreate _ _ | .bufferSet _ _ _ | .bufferGet _
  | .networkInfo _ | .inferenceStatus _ | .inferenceCancel _ => isTrue (by rw [Loaded, h]; trivial)

end Submission

/-- Nothing was submitted that was not loaded, and nothing was reported as loaded that was not. -/
structure NothingUnloaded (model : File) (p : Process) : Prop where
  submissions : ∀ s ∈ p.submissions, s.Loaded model
  sound : ∀ l ∈ p.tensors, l.Sound

/-- What was submitted depended on good files only, and the decoder accepted each file that could be
read. -/
structure AllLoadable (model : File) (p : Process) : Prop where
  submissions : ∀ s ∈ p.submissions, s.Loadable model
  images : ∀ l ∈ p.tensors, l.file.Readable → (BmpHeader.read l.staged).Decodes

/-! ## What is on record -/

/-- What `read` delivers when it is asked for the size of the file. -/
def File.loaded (file : File) : List UInt8 := file.delivered file.tellg.toNat

/-- There is a model in the memory of the buffer. -/
def Filled (buffer : Fd) (p : Process) : Prop := ∃ m ∈ p.models, m.buffer = buffer ∧ m.In p.mem

/-- What is known of a call. -/
structure Submission.Recorded (s : Submission) (model : File) : Prop where
  tensors : ∀ l ∈ s.tensors, l.Explained
  models : ∀ m ∈ s.models, m.bytes = model.loaded
  filled : ∀ device arg, s.req = .networkCreate device .buffer arg →
    ∃ m ∈ s.models, m.buffer.toUInt32 = arg ∧ m.In s.mem

/-- What is known of a process. -/
structure Recorded (model : File) (p : Process) : Prop where
  tensors : ∀ l ∈ p.tensors, l.Explained
  models : ∀ m ∈ p.models, m.bytes = model.loaded
  submissions : ∀ s ∈ p.submissions, s.Recorded model

theorem File.loaded_eq_content_iff (file : File) : file.loaded = file.content ↔ file.Whole := by
  rw [loaded, delivered, Whole]
  by_cases hnil : file.content = []
  · simp [hnil]
  cases htells : file.tells with
  | false =>
    rw [if_neg Bool.false_ne_true]
    simp [hnil, Ne.symm hnil]
  | true =>
    have hsize : file.tellg.toNat = file.content.length % 2 ^ 64 := by
      rw [tellg, if_pos htells]
      rfl
    have hmod := Nat.mod_lt file.content.length (y := 2 ^ 64) (by decide)
    rw [if_pos rfl, hsize, List.take_eq_self_iff]
    refine ⟨?_, ?_⟩
    · intro h
      exact .inr ⟨rfl, by omega, by omega⟩
    · rintro (h | ⟨-, hdelivers, hlt⟩)
      · exact absurd h hnil
      · rw [Nat.mod_eq_of_lt hlt]
        omega

theorem Submission.loaded_iff {s : Submission} {model : File} (h : s.Recorded model) :
    s.Loaded model ↔ s.Loadable model := by
  obtain ⟨req, mem, models, tensors⟩ := s
  cases req with
  | networkCreate device type arg =>
    cases type with
    | index => exact Iff.rfl
    | buffer =>
      refine ⟨fun ⟨m, hm, _, hbytes, _⟩ ↦ ?_, fun hwhole ↦ ?_⟩
      · exact model.loaded_eq_content_iff.1 ((h.models m hm).symm.trans hbytes)
      · obtain ⟨m, hm, harg, hin⟩ := h.filled device arg rfl
        exact ⟨m, hm, harg, (h.models m hm).trans (model.loaded_eq_content_iff.2 hwhole), hin⟩
  | inferenceCreate network uapi =>
    exact forall₂_congr fun l hl ↦ (h.tensors l hl).complete
  | _ => exact Iff.rfl

/-- What was loaded is what could be loaded. -/
theorem Recorded.loaded_iff_loadable {model : File} {p : Process} (h : Recorded model p) :
    NothingUnloaded model p ↔ AllLoadable model p := by
  have hsubmissions : (∀ s ∈ p.submissions, s.Loaded model)
      ↔ ∀ s ∈ p.submissions, s.Loadable model :=
    forall₂_congr fun s hs ↦ Submission.loaded_iff (h.submissions s hs)
  have hsound : (∀ l ∈ p.tensors, l.Sound)
      ↔ ∀ l ∈ p.tensors, l.file.Readable → (BmpHeader.read l.staged).Decodes :=
    forall₂_congr fun l hl ↦ (h.tensors l hl).sound
  refine ⟨fun hall ↦ ⟨hsubmissions.1 hall.submissions, hsound.1 hall.sound⟩, fun hall ↦ ?_⟩
  exact ⟨hsubmissions.2 hall.submissions, hsound.2 hall.images⟩

theorem Recorded.nil (model : File) : Recorded model {} where
  tensors _ h := absurd h List.not_mem_nil
  models _ h := absurd h List.not_mem_nil
  submissions _ h := absurd h List.not_mem_nil

instance (model : File) (p : Process) : Decidable (NothingUnloaded model p) :=
  decidable_of_iff ((∀ s ∈ p.submissions, s.Loaded model) ∧ ∀ l ∈ p.tensors, l.Sound)
    ⟨fun h ↦ ⟨h.1, h.2⟩, fun h ↦ ⟨h.submissions, h.sound⟩⟩

/-! ## The operations keep the record -/

section

variable {env : Env} {model : File} {p : Process}

theorem Recorded.called (h : Recorded model p) {req : Request}
    (hreq : ∀ device arg, req = .networkCreate device .buffer arg →
      ∃ m ∈ p.models, m.buffer.toUInt32 = arg ∧ m.In p.mem) :
    Recorded model (p.called env req) :=
  ⟨h.tensors, h.models, List.forall_mem_cons.2 ⟨⟨h.tensors, h.models, hreq⟩, h.submissions⟩⟩

/-- Every call keeps the record, except perhaps one that creates a network. -/
theorem survives_recorded {req : Request}
    (hreq : ∀ device arg, req ≠ .networkCreate device .buffer arg) :
    Survives env (Recorded model) req := fun _ hp ↦
  hp.called fun device arg heq ↦ absurd heq (hreq device arg)

theorem stable_recorded (env : Env) (model : File) : Stable env (Recorded model) where
  survives req hreq := survives_recorded fun device arg heq ↦ by
    rw [heq] at hreq
    exact Bool.false_ne_true hreq
  counted _ _ _ hp := ⟨hp.tensors, hp.models, hp.submissions⟩

theorem survives_bufferCreate (device : Fd) (capacity : UInt32) :
    Survives env (Recorded model) (.bufferCreate device capacity) :=
  survives_recorded fun _ _ heq ↦ by cases heq

/-- A network is created from a buffer that has been filled. -/
theorem survives_networkCreate (device buffer : Fd) :
    Survives env (fun p ↦ Recorded model p ∧ Filled buffer p)
      (.networkCreate device .buffer buffer.toUInt32) := by
  rintro p ⟨hp, m, hm, hbuffer, hin⟩
  refine ⟨hp.called fun device' arg heq ↦ ?_, m, hm, hbuffer, hin⟩
  injection heq with _ _ harg
  exact ⟨m, hm, by rw [hbuffer, harg], hin⟩

theorem stable_filled (env : Env) (model : File) (buffer : Fd) :
    Stable env fun p ↦ Recorded model p ∧ Filled buffer p where
  survives req hreq p hp := ⟨(stable_recorded env model).survives req hreq p hp.1, hp.2⟩
  counted p uses made hp := ⟨(stable_recorded env model).counted p uses made hp.1, hp.2⟩

/-- Reading the model fills the buffer. -/
theorem wp_fill (env : Env) (buffer : Buffer) (h : Recorded model p) :
    wp (do model.read buffer.fd (← buffer.data env) model.tellg)
      (fun _ q ↦ Recorded model q ∧ Filled buffer.fd q) (fun _ q ↦ Recorded model q) p := by
  refine ((stable_recorded env model).data buffer).step h (fun addr q hq ↦ ?_) (fun _ _ he ↦ he)
  rw [File.read, wp_modify]
  refine ⟨⟨hq.tensors, List.forall_mem_cons.2 ⟨rfl, hq.models⟩, hq.submissions⟩, _,
    List.mem_cons_self, rfl, fun i hi ↦ ?_⟩
  show storeBytes q.mem addr (model.delivered model.tellg.toNat) (addr + i) = _
  have hi' : i < (model.delivered model.tellg.toNat).length := hi
  rw [storeBytes, if_pos (by omega), show ((addr : Int) + i - addr).toNat = i by omega]
  exact (List.getElem_eq_getD (h := hi') _).symm.trans (List.getElem_eq_getD _)

/-- The buffer stays filled until the network has been created. -/
theorem keeps_makeNetwork (device : Device) (buffer : Shared Buffer) :
    Keeps (fun p ↦ Recorded model p ∧ Filled buffer.obj.fd p)
      (Network.ofBuffer env device buffer >>= makeShared) :=
  have hstable := stable_filled env model buffer.obj.fd
  (hstable.networkOfBuffer (survives_networkCreate device.fd buffer.obj.fd)).bind fun _ ↦
    hstable.makeShared _

theorem keeps_getInputFromFile (t : ElementType) (filename : String) (inputData : Int)
    (shape : List UInt64) :
    Keeps (Recorded model) (getInputFromFile env t filename inputData shape) := by
  intro p hp
  refine wp_mono (wp_getInputFromFile env t filename inputData shape p) (fun _ q hq ↦ ?_)
    (fun e q hq ↦ hq.2 ▸ hp)
  obtain ⟨l, hl, htensors⟩ := hq.load
  refine ⟨?_, hq.models ▸ hp.models, hq.submissions ▸ hp.submissions⟩
  rw [htensors]
  exact List.forall_mem_cons.2 ⟨hl, hp.tensors⟩

end

/-! ## The inference runner -/

namespace InferenceRunner

variable {env : Env} {model : File} {p : Process}

theorem wp_allocAndFill (device : Device) (filename : String)
    (h : Recorded (env.files filename) p) :
    wp (allocAndFill env device filename)
      (fun buffer q ↦ Recorded (env.files filename) q ∧ Filled buffer.obj.fd q)
      (fun _ q ↦ Recorded (env.files filename) q) p := by
  have hstable := stable_recorded env (env.files filename)
  rw [allocAndFill]
  dsimp only
  rw [wp_ite]
  refine ⟨fun _ ↦ h, fun _ ↦ ?_⟩
  refine (hstable.makeBuffer (survives_bufferCreate _ _)).step h (fun buffer q hq ↦ ?_)
    (fun _ _ he ↦ he)
  rw [unwinding, wp_onThrow]
  refine wp_mono (Q := fun buffer q ↦ Recorded (env.files filename) q ∧ Filled buffer.obj.fd q)
    (E := fun _ q ↦ Recorded (env.files filename) q) ?_ (fun _ _ hq ↦ hq) (fun e q hq ↦ ?_)
  · refine (hstable.resize _ _ _).step hq (fun _ q hq ↦ ?_) (fun _ _ he ↦ he)
    have hfill := wp_fill env buffer.obj hq
    rw [wp_bind] at hfill ⊢
    exact wp_mono hfill (fun addr q hread ↦ (wp_bind _ _).2 hread) fun _ _ he ↦ he
  · split
    · exact hstable.bufferRelease buffer q hq
    · exact hq

theorem keeps_releaseAll (buffers : List (Shared Buffer)) :
    Keeps (Recorded model) (releaseAll env buffers) :=
  .listForM _ (stable_recorded env model).bufferRelease

theorem keeps_fillIfm (device : Device) (filename : String) (ifmSize : UInt64) (inputType : Int32)
    (inputShape : List UInt64) :
    Keeps (Recorded model) (fillIfm env device filename ifmSize inputType inputShape) := by
  have hstable := stable_recorded env model
  refine (hstable.makeBuffer (survives_bufferCreate _ _)).bind fun buffer ↦
    Keeps.onThrow (hstable.bufferRelease buffer) ((hstable.resize _ _ _).bind fun _ ↦ ?_)
  cases ElementType.ofTensorType inputType with
  | none => exact .throw _
  | some t =>
    exact (hstable.data _).bind fun _ ↦ (keeps_getInputFromFile _ _ _ _).bind fun _ ↦ .pure _

theorem keeps_fillIfms (device : Device) (filename : String)
    (tensors : List (UInt64 × Int32 × List UInt64)) (ifm : List (Shared Buffer)) :
    Keeps (Recorded model) (fillIfms env device filename tensors ifm) := by
  induction tensors generalizing ifm with
  | nil => exact .pure _
  | cons tensor tensors ih =>
    exact (Keeps.onThrow (keeps_releaseAll ifm) (keeps_fillIfm _ _ _ _ _)).bind fun _ ↦ ih _

theorem keeps_allocOfms (device : Device) (sizes : List UInt64) (ofm : List (Shared Buffer)) :
    Keeps (Recorded model) (allocOfms env device sizes ofm) := by
  induction sizes generalizing ofm with
  | nil => exact .pure _
  | cons size sizes ih =>
    exact (Keeps.onThrow (keeps_releaseAll ofm) ((stable_recorded env model).makeBuffer
      (survives_bufferCreate _ _))).bind fun _ ↦ ih _

theorem keeps_createInference (device : Device) (network : Shared Network) (filename : String)
    (counters : List UInt8) (enableCycleCounter : Bool) :
    Keeps (Recorded model)
      (createInference env device network filename counters enableCycleCounter) := by
  have hstable := stable_recorded env model
  refine (keeps_fillIfms _ _ _ _).bind fun ifm ↦
    (Keeps.onThrow (keeps_releaseAll ifm) (keeps_allocOfms _ _ _)).bind fun ofm ↦ ?_
  have hrelease : Keeps (Recorded model) (destroyBoth (releaseAll env ofm) (releaseAll env ifm)) :=
    keeps_destroyBoth (keeps_releaseAll ofm) (keeps_releaseAll ifm)
  refine (Keeps.onThrow hrelease ((hstable.ofBuffers (fun _ ↦ survives_bufferCreate _ _)
    fun p _ hp ↦ ?_).bind fun _ ↦ hstable.makeShared _)).bind fun _ ↦ hrelease.bind fun _ ↦ .pure _
  exact survives_recorded (fun _ _ heq ↦ by cases heq) p hp

theorem keeps_createNetwork (o : Options) (device : Device) :
    Keeps (Recorded (env.files o.networkArg)) (createNetwork env o device) := by
  have hstable := stable_recorded env (env.files o.networkArg)
  refine .ite (fun p hp ↦ ?_) ((hstable.networkOfIndex _ _).bind fun _ ↦ hstable.makeShared _)
  rw [wp_bind]
  refine wp_mono (wp_allocAndFill device o.networkArg hp) (fun buffer q hq ↦ ?_) (fun _ _ he ↦ he)
  have hnetwork : Keeps (fun p ↦ Recorded (env.files o.networkArg) p ∧ Filled buffer.obj.fd p)
      (unwinding (Buffer.release env buffer) (Network.ofBuffer env device buffer >>= makeShared)) :=
    Keeps.onThrow ((stable_filled _ _ _).bufferRelease buffer) (keeps_makeNetwork device buffer)
  refine hnetwork.step hq (fun network q hq ↦ ?_) (fun _ _ he ↦ he.1)
  exact ((hstable.bufferRelease buffer).bind fun _ ↦ .pure network) q hq.1

theorem keeps_createInferences (o : Options) (device : Device) (network : Shared Network)
    (filenames : List String) (inferences : List (Shared Inference)) :
    Keeps (Recorded model) (createInferences env o device network filenames inferences) := by
  induction filenames generalizing inferences with
  | nil => exact .pure _
  | cons filename filenames ih =>
    exact (Keeps.onThrow (.listForM _ (stable_recorded env model).inferenceRelease)
      (keeps_createInference _ _ _ _ _)).bind fun _ ↦ ih _

theorem keeps_submit (o : Options) : Keeps (Recorded (env.files o.networkArg)) (submit env o) := by
  have hstable := stable_recorded env (env.files o.networkArg)
  refine .ite (.throw _) ((hstable.deviceNew _).bind fun device ↦
    Keeps.onThrow (hstable.deviceDestroy device) ?_)
  refine (hstable.discarded _ rfl).bind fun _ ↦ (hstable.discarded _ rfl).bind fun _ ↦
    (hstable.capabilities _).bind fun _ ↦ (keeps_createNetwork o device).bind fun network ↦ ?_
  exact (Keeps.onThrow (hstable.releaseNetwork network) (keeps_createInferences _ _ _ _ _)).bind
    fun _ ↦ .pure _

end InferenceRunner

/-! ## The interpreter runner -/

namespace InterpreterRunner

variable {env : Env} {model : File}

theorem keeps_init (model : String) :
    Keeps (fun s : Session ↦ Recorded (env.files model) s.proc) (Interpreter.init env model) := by
  have hstable := stable_recorded env (env.files model)
  refine Keeps.get.bind fun this ↦ (keeps_onProc (hstable.capabilities _)).bind fun _ ↦ ?_
  intro s hs
  rw [wp_bind, wp_onProc, Interpreter.openModel, wp_ite]
  refine ⟨fun _ ↦ ?_, fun _ ↦ hs⟩
  -- from here on the stream is that of the model
  rw [wp_pure]
  refine (keeps_onProc (hstable.makeBuffer (survives_bufferCreate _ _))).step hs
    (fun networkBuffer s hs ↦ ?_) (fun _ _ he ↦ he)
  rw [wp_bind, wp_modify]
  refine (keeps_onProc (hstable.resize _ _ _)).step hs (fun _ s hs ↦ ?_) (fun _ _ he ↦ he)
  rw [wp_bind, wp_onProc]
  refine wp_mono (wp_fill env networkBuffer.obj hs) (fun _ p hp ↦ ?_) (fun _ _ he ↦ he)
  rw [wp_bind, wp_onProc]
  refine wp_mono (keeps_makeNetwork _ networkBuffer p hp) (fun network p hp ↦ ?_)
    (fun _ _ he ↦ he.1)
  rw [wp_bind, wp_modify, wp_ite]
  refine ⟨fun _ ↦ hp.1, fun _ ↦ ?_⟩
  refine (keeps_onProc (hstable.makeBuffer (survives_bufferCreate _ _))).step hp.1
    (fun arenaBuffer s hs ↦ ?_) (fun _ _ he ↦ he)
  rw [wp_bind, wp_modify]
  exact keeps_onProc (hstable.resize _ _ _) _ hs

theorem keeps_new (model device : String) (arenaSizeOfMB : Int64) :
    Keeps (Recorded (env.files model)) (Interpreter.new env model device arenaSizeOfMB) :=
  have hstable := stable_recorded env (env.files model)
  (hstable.deviceNew device).bind fun _ ↦ Keeps.get.bind fun _ ↦
    (keeps_onObject (hstable.scope (keeps_init model)) _).bind fun _ ↦ .pure _

theorem keeps_invoke (timeoutNanos : Int64) :
    Keeps (fun s : Session ↦ Recorded model s.proc) (Interpreter.invoke env timeoutNanos) := by
  have hstable := stable_recorded env model
  refine Keeps.get.bind fun this ↦ (keeps_deref _).bind fun network ↦
    (keeps_deref _).bind fun arenaBuffer ↦ ?_
  have hcreate : Keeps (Recorded model) (Inference.ofArena env network arenaBuffer
      (this.this.pmuCounters.map UInt8.toUInt32) this.this.enableCycleCounter >>= makeShared) :=
    (hstable.ofArena fun p hp _ ↦ survives_recorded (fun _ _ heq ↦ by cases heq) p hp).bind
      fun _ ↦ hstable.makeShared _
  refine (keeps_onProc hcreate).bind fun inference ↦ Keeps.bind (.modify fun _ hs ↦ ?_) fun _ ↦
    (keeps_onProc (.optionForM _ hstable.inferenceRelease)).bind fun _ ↦ ?_
  · exact hs
  · exact (keeps_onProc (keeps_wait (survives_recorded fun _ _ heq ↦ by cases heq))).bind fun _ ↦
      (keeps_onProc (hstable.status _)).bind fun _ ↦ .ite (.throw _) (.pure _)

theorem keeps_use (o : Options) :
    Keeps (fun s : Session ↦ Recorded model s.proc) (use env o) := by
  have hstable := stable_recorded env model
  have hset : Keeps (fun s : Session ↦ Recorded model s.proc)
      (Interpreter.setPmuCycleCounters o.enabledCounters o.enableCycleCounter) :=
    .ite (.throw _) (.modify fun _ hs ↦ hs)
  have hinputs : Keeps (fun s : Session ↦ Recorded model s.proc) Interpreter.getInputInfo :=
    Keeps.get.bind fun _ ↦ (keeps_deref _).bind fun _ ↦ keeps_deref _
  refine hset.bind fun _ ↦ hinputs.bind fun inputs ↦ ?_
  cases inputs with
  | nil => exact (Keeps.throw _).bind fun _ ↦ keeps_invoke _
  | cons inputInfo _ =>
    cases htype : ElementType.ofTensorType inputInfo.type with
    | none =>
      simp only [htype]
      exact (Keeps.throw _).bind fun _ ↦ keeps_invoke _
    | some t =>
      simp only [htype]
      exact (hstable.typedInputBuffer 0).bind fun _ ↦
        (keeps_onProc (keeps_getInputFromFile _ _ _ _)).bind fun _ ↦ keeps_invoke _

theorem keeps_run (o : Options) : Keeps (Recorded (env.files o.networkArg)) (run env o) :=
  have hstable := stable_recorded env (env.files o.networkArg)
  (keeps_new _ _ _).bind fun interpreter ↦
    (keeps_onObject (hstable.scope (keeps_use o)) interpreter).bind fun _ ↦
      keeps_noexcept (hstable.interpreterDestroy _)

/-- The model a command line names, and none if it is not accepted. -/
def modelFile (env : Env) (argv : List String) : File :=
  match accept env argv with
  | .ok o => env.files o.networkArg
  | .error _ => ⟨false, false, 0, []⟩

theorem keeps_main (argv : List String) :
    Keeps (Recorded (modelFile env argv)) (main env argv) := by
  rw [main, modelFile]
  cases accept env argv with
  | error e => exact .throw e
  | ok o =>
    refine ((keeps_run o).bind fun _ ↦ .pure _).tryCatch fun e ↦ ?_
    cases e with
    | error msg => exact .pure _
    | nested | terminate | crash | exit status => exact .throw _

end InterpreterRunner

/-! ## Both runners -/

/-- A run of one of the two programs. -/
inductive Runner
  | inference (o : InferenceRunner.Options)
  | interpreter (argv : List String)

namespace Runner

/-- The file the model is to come from. -/
def model (env : Env) : Runner → File
  | .inference o => env.files o.networkArg
  | .interpreter argv => InterpreterRunner.modelFile env argv

/-- What the run leaves behind. -/
def leaves (env : Env) : Runner → Process
  | .inference o => left (InferenceRunner.submit env o) {}
  | .interpreter argv => left (InterpreterRunner.main env argv) {}

theorem recorded (env : Env) (r : Runner) : Recorded (r.model env) (r.leaves env) := by
  cases r with
  | inference o => exact (InferenceRunner.keeps_submit o).left (.nil _)
  | interpreter argv => exact (InterpreterRunner.keeps_main argv).left (.nil _)

/-- A network compiled by Vela whose one input is a grayscale image of two by two bytes. -/
def smallImage : Words := fun i ↦
  if i = NetworkInfo.isVela then 1
  else if i = NetworkInfo.ifm.count then 1
  else if i = NetworkInfo.ifm.size then 4
  else if i = NetworkInfo.ifm.types then 3
  else if i = NetworkInfo.ifm.dims then 4
  else if i = NetworkInfo.ifm.shapes then 1
  else if i = NetworkInfo.ifm.shapes + 1 then 2
  else if i = NetworkInfo.ifm.shapes + 2 then 2
  else if i = NetworkInfo.ifm.shapes + 3 then 1
  else 0

/-- A bitmap of one pixel, of `bpp` bits. -/
def bitmap (bpp : UInt8) (pixel : List UInt8) : File :=
  let header := List.replicate 10 0 ++ [54, 0, 0, 0, 40, 0, 0, 0, 1, 0, 0, 0, 1, 0, 0, 0, 1, 0, bpp]
    ++ List.replicate 25 0
  ⟨true, true, 54 + pixel.length, header ++ pixel⟩

/-- The image `"image.bmp"`, as it is given, next to a model and labels. -/
def withImage (image : File) : String → File := fun name ↦
  if name = "image.bmp" then image else ⟨true, true, 4, [1, 2, 3, 4]⟩

example :
    let env := Env.obliging smallImage (withImage (bitmap 8 [77, 0, 0, 0]))
    let r := Runner.interpreter ["-n", "model_vela.tflite", "-i", "image.bmp"]
    NothingUnloaded (r.model env) (r.leaves env) := by decide +kernel

end Runner

end EthosU
