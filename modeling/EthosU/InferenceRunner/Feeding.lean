import EthosU.InFlight
import EthosU.InferenceRunner.Lifetimes
import EthosU.InferenceRunner.TensorContents
import EthosU.Spacing

/-!
# What the inference runner feeds to the driver

The inference runner makes an inference for each of the files on its command line.  For every input
tensor of the network it allocates a buffer, fills it from the file, and hands all of them to the
driver with one request.

* `Buffer.Filled` says that a buffer is one that was filled for a tensor.  The loop over the tensors
  leaves all its buffers like that (`Owns.fillIfms_filled`), since no two of them have an address in
  common.
* `moments` are the system calls of a run with what there was when each of them was made, and `Fed`
  is what there should be when an inference is created: every input has the picture of the file that
  it is the turn of.
* `InferenceRunner.feeds` is what follows for every run of the program.
-/

set_option autoImplicit false

namespace EthosU

open Wp Object Set

/-- A tensor of a network: its size, type and shape. -/
abbrev TensorInformation := UInt64 × Int32 × List UInt64

/-- If a tensor is of a type that can be filled, its size is that of its elements or more. -/
def TensorInformation.Fits (tensor : TensorInformation) : Prop :=
  ∀ t, ElementType.ofTensorType tensor.2.1 = some t → (Tensor.mk t tensor.2.2).Fits tensor.1

/-- The driver knows networks with such inputs only. -/
def Kernel.Proportionate (kernel : Kernel) : Prop :=
  ∀ past fd, ∀ tensor ∈ InferenceRunner.ifmTensors
    (.ofInfo ⟨0⟩ fd none (kernel.answer past (.networkInfo fd)).data),
    TensorInformation.Fits tensor

/-- The buffer has the size of a tensor, and the tensor has been loaded from the file. -/
structure Buffer.Filled (env : Env) (file : File) (mem : Int → UInt8) (b : Buffer)
    (tensor : TensorInformation) : Prop where
  capacity : b.dataCapacity = tensor.1
  loaded : ∃ t, ElementType.ofTensorType tensor.2.1 = some t
    ∧ (Tensor.mk t tensor.2.2).Fits tensor.1
    ∧ (Tensor.mk t tensor.2.2).Loaded env file b.dataPtr mem

/-- A tensor is in its buffer. -/
theorem Tensor.Fits.region_subset {x : Tensor} {b : Buffer} (h : x.Fits b.dataCapacity) :
    x.region b.dataPtr ⊆ b.region := by
  have hle := h.size_le
  rintro a ⟨ha, ha'⟩
  exact ⟨ha, by omega⟩

variable {env : Env} {file : File} {mem mem' : Int → UInt8} {b : Buffer}
  {tensor : TensorInformation}

theorem Buffer.Filled.congr (h : Buffer.Filled env file mem b tensor)
    (heq : EqOn mem' mem b.region) : Buffer.Filled env file mem' b tensor := by
  obtain ⟨hcapacity, t, ht, hfits, hloaded⟩ := h
  refine ⟨hcapacity, t, ht, hfits, hloaded.congr (heq.mono ?_)⟩
  rw [← hcapacity] at hfits
  exact hfits.region_subset

/-! ## Filling a buffer -/

theorem stable_mem (env : Env) (mem : Int → UInt8) : Stable env fun p ↦ p.mem = mem :=
  ⟨fun _ _ _ hp ↦ hp, fun _ _ _ hp ↦ hp⟩

namespace InferenceRunner

/-- What `Buffer::Buffer` and `std::make_shared` make. -/
theorem wp_makeBuffer_kept (device : Device) (capacity : UInt64) (p : Process) :
    wp (Buffer.new env device capacity >>= makeShared)
      (fun b q ↦ (b.obj.dataCapacity = capacity
        ∧ kept b.obj.fd q.trace = some (.created capacity.toUInt32)) ∧ q.mem = p.mem)
      (fun _ _ ↦ True) p := by
  rw [wp_bind]
  have hkeeps : Keeps (fun q ↦ q.mem = p.mem) (Buffer.new env device capacity) :=
    (stable_mem env p.mem).bufferNew fun _ hp ↦ hp
  have hmem := hkeeps p rfl
  exact wp_mono (wp_conj (Buffer.wp_new_kept env device capacity p) hmem)
    (fun b q h ↦ ⟨⟨h.1.1, h.1.2.1⟩, h.2⟩) (fun _ _ _ ↦ trivial)

/-- A buffer is filled from its beginning, and no other memory is written to. -/
theorem wp_fillIfm_filled (hkeeps : env.kernel.KeepsBuffers) (device : Device) (filename : String)
    (hfits : tensor.Fits) (p : Process) :
    wp (fillIfm env device filename tensor.1 tensor.2.1 tensor.2.2)
      (fun b q ↦ EqOn q.mem p.mem b.obj.regionᶜ
        ∧ Buffer.Filled env (env.files filename) q.mem b.obj tensor) (fun _ _ ↦ True) p := by
  have hnothing (x : M Unit) : Keeps (fun _ ↦ True) x := fun _ _ ↦
    wp_of_forall (fun _ _ ↦ trivial) fun _ _ ↦ trivial
  rw [fillIfm, wp_bind]
  refine wp_mono (wp_makeBuffer_kept device tensor.1 p) (fun b p₁ h₁ ↦ ?_) (fun _ _ _ ↦ trivial)
  obtain ⟨⟨hcapacity, hkept⟩, hmem₁⟩ := h₁
  refine wp_unwinding_of (I := fun _ ↦ True) (hnothing _) ?_
  rw [wp_bind]
  have hroom : (KeptBuffer.created tensor.1.toUInt32).Fits (0 : UInt64).toUInt32
      tensor.1.toUInt32 := by
    simp [KeptBuffer.Fits, KeptBuffer.created]
  obtain ⟨p₂, hresize, hkept₂⟩ := Buffer.resize_of_fits hkeeps hkept hroom
  have hmem₂ := ok_of_wp ((stable_mem env p.mem).resize b.obj tensor.1 0 p₁ hmem₁) hresize
  rw [wp_of_ok hresize]
  rcases htype : ElementType.ofTensorType tensor.2.1 with _ | t
  · trivial
  dsimp only
  rw [wp_bind]
  obtain ⟨p₃, hdata⟩ := Buffer.returns_data hkeeps hkept₂
  have hmem₃ := ok_of_wp ((stable_mem env p.mem).data b.obj p₂ hmem₂) hdata
  rw [wp_of_ok hdata, wp_bind]
  refine wp_mono ((Tensor.mk t tensor.2.2).wp_getInputFromFile (hfits t htype) env filename _ p₃)
    (fun _ q h ↦ ?_) (fun _ _ _ ↦ trivial)
  obtain ⟨hsame, hloaded⟩ := h
  have hplace : b.obj.dataPtr + (0 : UInt64).toUInt32.toNat = b.obj.dataPtr := Nat.add_zero _
  rw [hplace] at hsame hloaded
  rw [hmem₃] at hsame
  refine ⟨hsame.mono (compl_subset_compl.2 ?_), hcapacity, t, htype, hfits t htype, hloaded⟩
  have hfits' := hfits t htype
  rw [← hcapacity] at hfits'
  exact hfits'.region_subset

end InferenceRunner

/-! ## All tensors -/

/-- A buffer that is not written to is as it was. -/
theorem forall₂_filled {buffers : List Buffer} {tensors : List TensorInformation}
    (h : List.Forall₂ (Buffer.Filled env file mem) buffers tensors)
    (heq : ∀ b ∈ buffers, EqOn mem' mem b.region) :
    List.Forall₂ (Buffer.Filled env file mem') buffers tensors := by
  induction h with
  | nil => exact .nil
  | cons hfilled _ ih =>
    rw [List.forall_mem_cons] at heq
    exact .cons (hfilled.congr heq.1) (ih heq.2)

variable {J : History → Prop} {devices : Multiset Device} {roots : Multiset Object} {p : Process}
  {d : Device}

/-- The loop fills a buffer for every tensor.  What it has filled before stays, since the buffers
are apart. -/
theorem Owns.fillIfms_filled (hkernel : env.kernel.Spacious) (hkeeps : env.kernel.KeepsBuffers)
    (hJ : Steady env J) (hspaced : ∀ p : Process, J p.history → Spaced p.trace) (hd : d ∈ devices)
    (filename : String) (tensors done : List TensorInformation) (ifm : List (Shared Buffer))
    (h : Owns J devices (ifm.map (buffer d) + roots) 0 p) (hfresh : Fresh roots ifm)
    (hfits : ∀ tensor ∈ tensors, tensor.Fits)
    (hfilled : List.Forall₂ (Buffer.Filled env (env.files filename) p.mem) (ifm.map Shared.obj)
      done) :
    wp (InferenceRunner.fillIfms env d filename tensors ifm)
      (fun ifm' p' ↦ (Fresh roots ifm' ∧ Owns J devices (ifm'.map (buffer d) + roots) 0 p')
        ∧ List.Forall₂ (Buffer.Filled env (env.files filename) p'.mem) (ifm'.map Shared.obj)
          (done ++ tensors))
      (Escaped anyException J devices roots) p := by
  induction tensors generalizing ifm done p with
  | nil =>
    rw [List.append_nil]
    exact ⟨⟨hfresh, h⟩, hfilled⟩
  | cons tensor tensors ih =>
    rw [List.forall_mem_cons] at hfits
    obtain ⟨ifmSize, inputType, inputShape⟩ := tensor
    rw [InferenceRunner.fillIfms, wp_bind]
    have howns := h.fillIfm hkernel.toApart hJ hd filename ifmSize inputType inputShape
    have hmem := InferenceRunner.wp_fillIfm_filled hkeeps d filename hfits.1 p
    refine wp_mono (unwinding (wp_mono (wp_conj howns hmem) (fun _ _ h' ↦ h')
      fun _ _ he ↦ he.1) fun p' h' ↦ h'.releaseBuffers hkernel.toApart hJ.lasting)
      (fun b p₁ h₁ ↦ ?_) (fun _ _ he ↦ he)
    obtain ⟨⟨hunrelated, h₁⟩, hframe, hnew⟩ := h₁
    have hfresh₁ := hfresh.append (fresh_singleton hunrelated)
    have hold : List.Forall₂ (Buffer.Filled env (env.files filename) p₁.mem) (ifm.map Shared.obj)
        done := by
      refine forall₂_filled hfilled fun b' hb' ↦ ?_
      obtain ⟨s, hs, rfl⟩ := List.mem_map.1 hb'
      have hs : buffer d s ∈ (ifm.map (buffer d) + roots : Multiset Object) :=
        Multiset.mem_add.2 (.inl (List.mem_map_of_mem hs))
      refine hframe.mono ?_
      exact h₁.region_subset (hspaced _ h₁.accepted.2)
        (mem_reach (Multiset.mem_cons_of_mem hs)) (mem_reach (Multiset.mem_cons_self _ _))
        (hunrelated _ hs).1
    refine wp_mono (ih (done ++ [(ifmSize, inputType, inputShape)]) _ h₁.append hfresh₁ hfits.2 ?_)
      (fun ifm' p' h' ↦ ⟨h'.1, by simpa using h'.2⟩) (fun _ _ he ↦ he)
    rw [List.map_append]
    exact List.rel_append hold (.cons hnew .nil)

/-! ## The moments of a run -/

/-- The system calls of a run, latest first: what had happened before, and what there was. -/
def moments : List Event → List Submission → List (List Event × Submission)
  | .call _ _ :: past, s :: submissions => (past, s) :: moments past submissions
  | .ended _ :: past, submissions => moments past submissions
  | _, _ => []

theorem moments_past (env : Env) (p : Process) (submissions : List Submission) :
    moments (p.past env) submissions = moments p.trace submissions := by
  rw [Process.past]
  induction env.kernel.ended p.trace with
  | nil => rfl
  | cons fd fds ih => exact ih

theorem moments_called (env : Env) (p : Process) (req : Request) :
    moments (p.called env req).trace (p.called env req).submissions
      = (p.past env, ⟨req, p.mem, p.models, p.tensors⟩) :: moments p.trace p.submissions := by
  rw [← moments_past env p]
  rfl

/-- The number of inferences that have been asked for. -/
def creations (t : List Event) : ℕ := t.countP Event.creates

theorem creations_past (env : Env) (p : Process) : creations (p.past env) = creations p.trace := by
  rw [Process.past]
  induction env.kernel.ended p.trace with
  | nil => rfl
  | cons fd fds ih => exact (List.countP_cons_of_neg (by simp [Event.creates])).trans ih

theorem creations_called (env : Env) (p : Process) (req : Request) :
    creations (p.called env req).trace
      = creations p.trace + if req.isInferenceCreate then 1 else 0 := by
  rw [Process.called_trace, creations, List.countP_cons]
  exact congrArg (· + _) (creations_past env p)

/-- What a driver should find when it is asked for an inference: the file is the one that it is the
turn of, and for every input of the network there is a buffer that it fills. -/
structure Fed (env : Env) (files : List String) (past : List Event) (mem : Int → UInt8)
    (network : Fd) (uapi : Words) : Prop where
  fed : ∃ filename n fromBuffer held, files[creations past]? = some filename
    ∧ n.Reported env n.device fromBuffer past ∧ n.fd = network ∧ custody past = some held
    ∧ List.Forall₂ (fun fd tensor ↦ ∃ b : Buffer, b.fd = fd ∧ b.mappingPiece ∈ held
        ∧ Buffer.Filled env (env.files filename) mem b tensor)
      (InferenceCreate.ifmFds uapi).tail (InferenceRunner.ifmTensors n)

/-- Every inference was fed when it was asked for. -/
def AllFed (env : Env) (files : List String) (h : History) : Prop :=
  ∀ m ∈ moments h.trace h.submissions, ∀ network uapi, m.2.req = .inferenceCreate network uapi →
    Fed env files m.1 m.2.mem network uapi

theorem AllFed.called {files : List String} (h : AllFed env files p.history) {req : Request}
    (hfed : ∀ network uapi, req = .inferenceCreate network uapi →
      Fed env files (p.past env) p.mem network uapi) :
    AllFed env files (p.called env req).history := by
  intro m hm
  rw [Process.history, moments_called, List.mem_cons] at hm
  rcases hm with rfl | hm
  · exact hfed
  · exact h m hm

/-- What is followed: `k` inferences have been asked for, and every one of them was fed. -/
structure Feeding (env : Env) (files : List String) (k : ℕ) (h : History) : Prop where
  spaced : Spaced h.trace
  creations : creations h.trace = k
  fed : AllFed env files h

theorem steady_allFed (env : Env) (files : List String) : Steady env (AllFed env files) where
  lasting p req hreq h := h.called fun network uapi heq ↦ absurd heq (hreq network uapi)
  ofCalls p q htrace hsubmissions h := by
    intro m hm
    rw [Process.history, htrace, hsubmissions] at hm
    exact h m hm

theorem steady_feeding (hkernel : env.kernel.Spacious) (files : List String) (k : ℕ) :
    Steady env (Feeding env files k) where
  lasting p req hreq h := by
    have hnone : req.isInferenceCreate = false := by
      cases req with
      | inferenceCreate network uapi => exact absurd rfl (hreq network uapi)
      | _ => rfl
    refine ⟨h.spaced.called hkernel req, ?_, (steady_allFed env files).lasting p req hreq h.fed⟩
    have hcreations := creations_called env p req
    rw [hnone] at hcreations
    exact hcreations.trans h.creations
  ofCalls p q htrace hsubmissions h := by
    refine ⟨?_, ?_, (steady_allFed env files).ofCalls p q htrace hsubmissions h.fed⟩
    · rw [Process.history, htrace]
      exact h.spaced
    · rw [Process.history, htrace]
      exact h.creations

/-! ## The program -/

/-- What the driver says of a network is in proportion, and what its sizes are. -/
theorem fits_ifmTensors (hproportionate : env.kernel.Proportionate)
    {fromBuffer : Option (Shared Buffer)} {n : Network} {t : List Event}
    (hn : n.Reported env n.device fromBuffer t) :
    ∀ tensor ∈ InferenceRunner.ifmTensors n, TensorInformation.Fits tensor := by
  obtain ⟨past, fd, -, heq⟩ := hn
  rw [heq]
  exact hproportionate past fd

/-- **The inference that is created is fed.** -/
theorem follows_feeding (hkernel : env.kernel.Spacious) (hkeeps : env.kernel.KeepsBuffers)
    (hroomy : env.kernel.Roomy) (hproportionate : env.kernel.Proportionate)
    (o : InferenceRunner.Options) :
    Follows env o (Feeding env o.ifmArg) (AllFed env o.ifmArg) where
  steady := steady_feeding hkernel o.ifmArg
  steadyAny := steady_allFed env o.ifmArg
  any _ _ h := h.fed
  create {k filename devices roots fromBuffer n p} hfile hd hn hreported h := by
    -- besides, what has been called stays called
    let J : History → Prop := fun x ↦ Feeding env o.ifmArg k x ∧ p.trace ⊆ x.trace
    have hJ : Steady env J := by
      refine ⟨fun q req hreq hq ↦ ⟨(steady_feeding hkernel _ k).lasting q req hreq hq.1, ?_⟩,
        fun q q' htrace hsubmissions hq ↦
          ⟨(steady_feeding hkernel _ k).ofCalls q q' htrace hsubmissions hq.1, ?_⟩⟩
      · exact List.Subset.trans hq.2 (InferenceRunner.subset_called req)
      · rw [Process.history, htrace]
        exact hq.2
    have hseen : Owns J devices roots 0 p := h.mono fun hp ↦ ⟨hp, List.Subset.refl _⟩
    have hfits := fits_ifmTensors hproportionate hreported
    have hfill := Owns.fillIfms_filled hkernel hkeeps hJ (fun _ hp ↦ hp.1.spaced) hd filename
      (InferenceRunner.ifmTensors n.obj) [] [] (by simpa using hseen) fresh_nil hfits .nil
    refine Owns.createInference hkernel.toApart hJ.lasting
      (steady_feeding hkernel o.ifmArg (k + 1)).lasting (steady_allFed env o.ifmArg).lasting
      (fun _ hp ↦ hp.1.fed) (fun _ hp ↦ hp.fed) (P := fun ifm mem ↦
        List.Forall₂ (Buffer.Filled env (env.files filename) mem) (ifm.map Shared.obj)
          (InferenceRunner.ifmTensors n.obj)) hd hn (length_ifmTensors hroomy hreported)
      (wp_mono hfill (fun ifm p₁ h₁ ↦ ⟨⟨?_, h₁.1⟩, h₁.2⟩) fun _ p₁ he ↦
        he.mono fun hp ↦ hp.1.fed)
      fun ifm ofm p' arenaBuffer hfilled hfresh h' hifm hofm ↦ ?_
    · have hlength := h₁.2.length_eq
      rwa [List.length_map] at hlength
    obtain ⟨hfeeding, hsubset⟩ := h'.accepted.2
    refine ⟨hfeeding.spaced.called hkernel _, ?_, hfeeding.fed.called ?_⟩
    · exact (creations_called env p' _).trans (congrArg (· + 1) hfeeding.creations)
    rintro network uapi ⟨⟩
    obtain ⟨held, hheld, hpieces⟩ := h'.held_past env
    refine ⟨filename, n.obj, fromBuffer, held, ?_, hreported.mono ?_, rfl, hheld, ?_⟩
    · rw [creations_past]
      exact hfeeding.creations ▸ hfile
    · exact List.Subset.trans hsubset fun _ he ↦ List.mem_append_right _ he
    · rw [Inference.request, (Inference.encode_ifmFds _ _ _ _ (by rwa [Inference.length_getFds])
        (by rwa [Inference.length_getFds])).2, List.tail_cons, Inference.getFds,
        List.forall₂_map_left_iff]
      rw [List.forall₂_map_left_iff] at hfilled
      have hheld : ∀ b ∈ ifm, b.obj.mappingPiece ∈ held := fun b hb ↦
        hpieces (buffer n.obj.device b) (mem_reach (Multiset.mem_cons_of_mem
          (Owns.mem_constructing (Owns.mem_vectors.2 (.inl ⟨b, by simp [hb], rfl⟩))))) _ (by simp)
      refine ((List.forall₂_and_left _ _).2 ⟨hheld, hfilled⟩).imp fun b tensor hb ↦ ?_
      exact ⟨b.obj, rfl, hb.1, hb.2⟩

namespace InferenceRunner

/-- A network with one input of two rows and one column of bytes, and with one output. -/
def columnInput : Words := fun i ↦
  if i = NetworkInfo.ifm.count ∨ i = NetworkInfo.ofm.count then 1
  else if i = NetworkInfo.ifm.size then 2
  else if i = NetworkInfo.ifm.types then 3
  else if i = NetworkInfo.ifm.dims then 4
  else if i = NetworkInfo.ifm.shapes + 2 then 2
  else 1

/-- A kernel that knows such networks, in a directory where every file is a bitmap of that size. -/
def columnEnv : Env := spacious columnInput (Env.showing .column).files

theorem columnEnv_roomy : columnEnv.kernel.Roomy := by
  intro past fd
  show columnInput NetworkInfo.ifm.count ≠ .ofNat ethosuFdMax
  decide

theorem columnEnv_proportionate : columnEnv.kernel.Proportionate := by
  intro past fd tensor htensor
  obtain rfl : tensor = (2, 3, [1, 1, 2, 1]) := List.mem_singleton.1 htensor
  rintro t ht
  obtain rfl : ElementType.uint8 = t := Option.some.inj ht
  constructor <;> decide

end InferenceRunner

end EthosU
