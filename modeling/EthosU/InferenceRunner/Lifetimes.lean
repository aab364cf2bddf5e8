import EthosU.InferenceRunner.Routine
import EthosU.Isolation

/-!
# What the inference runner has custody of

The inference runner creates a network and as many inferences as it was given files, each of them
with buffers of its own, and keeps all of it until it has waited for the last one.  This file
follows it from its command line to its end.

* Every function of the program has a specification in terms of what its variables refer to
  (`Owns`), for a property of its system calls which they keep (`Steady`).
* Creating an inference changes what is known of the calls.  `Follows` names what is known after
  each of them, and `Follows.main` follows the whole program for any such family of properties.
* A driver must not report a network with `ETHOSU_FD_MAX` inputs, for which the struct of the
  request has no room (`Roomy`).
* The buffers of an inference are made for it (`Fresh`), so that its creation is `Isolated`
  (`follows_isolated`), and `InferenceRunner.wp_main_owns` is what follows for the whole program.
* `InferenceRunner.gives_back` and `InferenceRunner.keeps_apart` are what a user would want of it.
-/

set_option autoImplicit false

namespace EthosU

open Wp Object

/-- The driver knows no network with as many inputs as there is room for, the arena included. -/
def Kernel.Roomy (kernel : Kernel) : Prop :=
  ∀ past fd, (kernel.answer past (.networkInfo fd)).data NetworkInfo.ifm.count
    ≠ .ofNat ethosuFdMax

/-- Any exception. -/
def anyException : Exception → Prop := fun _ ↦ True

theorem Escaped.any {expected : Exception → Prop} {J : History → Prop}
    {devices : Multiset Device} {roots : Multiset Object} {e : Exception} {p : Process}
    (h : Escaped expected J devices roots e p) : Escaped anyException J devices roots e p :=
  ⟨h.accepted, trivial, h.owns⟩

theorem length_ifmTensors {env : Env} {d : Device} {fromBuffer : Option (Shared Buffer)}
    {n : Network} {t : List Event} (hkernel : env.kernel.Roomy)
    (hn : n.Reported env d fromBuffer t) :
    (InferenceRunner.ifmTensors n).length ≠ ethosuFdMax := by
  obtain ⟨past, fd, -, rfl⟩ := hn
  have hcount := hkernel past fd
  intro hlength
  refine hcount (UInt32.toNat_inj.1 ?_)
  rw [show (UInt32.ofNat ethosuFdMax).toNat = ethosuFdMax from rfl]
  simpa [InferenceRunner.ifmTensors, Network.ofInfo, NetworkInfo.Tensors.sizes,
    NetworkInfo.Tensors.typesOf, NetworkInfo.Tensors.shapesOf, NetworkInfo.Tensors.indices]
    using hlength

/-- A property that only the creation of an inference can end, and that is not about memory. -/
structure Steady (env : Env) (J : History → Prop) : Prop where
  lasting : Lasting env J
  ofCalls : InferenceRunner.OfCalls fun p ↦ J p.history

namespace Owns

variable {J : History → Prop} {env : Env} {devices : Multiset Device} {roots : Multiset Object}
  {p : Process} {d : Device}

/-- A vector that has one element more. -/
theorem append {α : Type} {f : α → Object} {l : List α} {a : α}
    (h : Owns J devices (f a ::ₘ (l.map f + roots)) 0 p) :
    Owns J devices ((l ++ [a]).map f + roots) 0 p := by
  rw [List.map_append, ← Multiset.coe_add, add_right_comm, add_comm]
  exact h

/-! ## Buffers and their contents -/

section

variable (hkernel : env.kernel.Apart)

include hkernel

theorem allocAndFill (hJ : Steady env J) (h : Owns J devices roots 0 p) (hd : d ∈ devices)
    (filename : String) :
    wp (InferenceRunner.allocAndFill env d filename)
      (fun b p' ↦ Owns J devices (buffer d b ::ₘ roots) 0 p')
      (Escaped anyException J devices roots) p := by
  rw [InferenceRunner.allocAndFill]
  rw [wp_ite]
  refine ⟨fun _ ↦ h.unwound trivial, fun _ ↦ ?_⟩
  rw [wp_bind]
  refine wp_mono (h.makeBuffer hkernel hJ.lasting hd _) (fun b p₁ h₁ ↦ ?_) (fun _ _ he ↦ he.any)
  have hb : buffer d b ∈ reach (buffer d b ::ₘ roots) := mem_reach (Multiset.mem_cons_self _ _)
  refine unwinding ?_ fun p' h' ↦ releaseBuffer (d := d) hkernel hJ.lasting h'
  rw [wp_bind]
  refine wp_mono (h₁.2.resize hJ.lasting hb _) (fun _ p₂ h₂ ↦ ?_) (fun _ _ he ↦ he.any)
  rw [wp_bind]
  refine wp_mono (h₂.bufferData hJ.lasting hb) (fun address p₃ h₃ ↦ ?_) (fun _ _ he ↦ he.any)
  rw [wp_bind, File.read, wp_modify]
  exact h₃.of_eq rfl rfl rfl (hJ.ofCalls p₃ _ rfl rfl h₃.accepted.2)

theorem fillIfm (hJ : Steady env J) (h : Owns J devices roots 0 p) (hd : d ∈ devices)
    (filename : String) (ifmSize : UInt64) (inputType : Int32) (inputShape : List UInt64) :
    wp (InferenceRunner.fillIfm env d filename ifmSize inputType inputShape)
      (fun b p' ↦ Unrelated roots b.id ∧ Owns J devices (buffer d b ::ₘ roots) 0 p')
      (Escaped anyException J devices roots) p := by
  rw [InferenceRunner.fillIfm, wp_bind]
  refine wp_mono (h.makeBuffer hkernel hJ.lasting hd _) (fun b p₁ h₁ ↦ ?_) (fun _ _ he ↦ he.any)
  have hb : buffer d b ∈ reach (buffer d b ::ₘ roots) := mem_reach (Multiset.mem_cons_self _ _)
  refine unwinding ?_ fun p' h' ↦ releaseBuffer (d := d) hkernel hJ.lasting h'
  rw [wp_bind]
  refine wp_mono (h₁.2.resize hJ.lasting hb _) (fun _ p₂ h₂ ↦ ?_) (fun _ _ he ↦ he.any)
  split
  · rw [wp_bind]
    refine wp_mono (h₂.bufferData hJ.lasting hb) (fun address p₃ h₃ ↦ ?_) (fun _ _ he ↦ he.any)
    rw [wp_bind]
    refine wp_mono (wp_getInputFromFile env _ filename _ _ p₃) (fun _ p₄ h₄ ↦ ⟨h₁.1, ?_⟩)
      (fun e p₄ he ↦ ?_)
    · exact h₃.of_eq h₄.trace h₄.uses h₄.made
        (hJ.ofCalls _ _ h₄.trace h₄.submissions h₃.accepted.2)
    · obtain ⟨rfl, rfl⟩ := he
      exact h₃.unwound trivial
  · exact h₂.unwound trivial

theorem fillIfms (hJ : Steady env J) (hd : d ∈ devices) (filename : String)
    (tensors : List (UInt64 × Int32 × List UInt64)) (ifm : List (Shared Buffer))
    (h : Owns J devices (ifm.map (buffer d) + roots) 0 p) (hfresh : Fresh roots ifm) :
    wp (InferenceRunner.fillIfms env d filename tensors ifm)
      (fun ifm' p' ↦ ifm'.length = ifm.length + tensors.length ∧ Fresh roots ifm'
        ∧ Owns J devices (ifm'.map (buffer d) + roots) 0 p')
      (Escaped anyException J devices roots) p := by
  induction tensors generalizing ifm p with
  | nil => exact ⟨rfl, hfresh, h⟩
  | cons tensor tensors ih =>
    obtain ⟨ifmSize, inputType, inputShape⟩ := tensor
    rw [InferenceRunner.fillIfms, wp_bind]
    refine wp_mono (unwinding (h.fillIfm hkernel hJ hd filename ifmSize inputType inputShape)
      fun p' h' ↦ h'.releaseBuffers hkernel hJ.lasting) (fun b p₁ h₁ ↦ ?_) (fun _ _ he ↦ he)
    refine wp_mono (ih _ h₁.2.append (hfresh.append (fresh_singleton h₁.1)))
      (fun ifm' p' h' ↦ ⟨?_, h'.2⟩) (fun _ _ he ↦ he)
    have hlength := h'.1
    simp only [List.length_append, List.length_cons, List.length_nil] at hlength ⊢
    omega

theorem allocOfms (hJ : Lasting env J) (hd : d ∈ devices) (sizes : List UInt64)
    (ofm : List (Shared Buffer)) (h : Owns J devices (ofm.map (buffer d) + roots) 0 p)
    (hfresh : Fresh roots ofm) :
    wp (InferenceRunner.allocOfms env d sizes ofm)
      (fun ofm' p' ↦ Fresh roots ofm'
        ∧ Owns J devices (ofm'.map (buffer d) + roots) 0 p')
      (Escaped anyException J devices roots) p := by
  induction sizes generalizing ofm p with
  | nil => exact ⟨hfresh, h⟩
  | cons size sizes ih =>
    rw [InferenceRunner.allocOfms, wp_bind]
    refine wp_mono (unwinding (wp_mono (h.makeBuffer hkernel hJ hd size)
      (fun _ _ h' ↦ h') (fun _ _ he ↦ he.any)) fun p' h' ↦
        h'.releaseBuffers hkernel hJ) (fun b p₁ h₁ ↦ ?_) (fun _ _ he ↦ he)
    exact ih _ h₁.2.append (hfresh.append (fresh_singleton h₁.1))

/-! ## Networks -/

theorem createNetwork (hJ : Steady env J) (h : Owns J devices roots 0 p) (hd : d ∈ devices)
    (o : InferenceRunner.Options) :
    wp (InferenceRunner.createNetwork env o d)
      (fun n p' ↦ (∃ fromBuffer, n.obj.Reported env d fromBuffer p'.trace)
        ∧ Owns J devices (network n ::ₘ roots) 0 p')
      (Escaped anyException J devices roots) p := by
  rw [InferenceRunner.createNetwork, wp_ite]
  refine ⟨fun _ ↦ ?_, fun _ ↦ ?_⟩
  · rw [wp_bind]
    refine wp_mono (h.allocAndFill hkernel hJ hd o.networkArg) (fun b p₁ h₁ ↦ ?_)
      (fun _ _ he ↦ he)
    rw [wp_bind]
    refine wp_mono (unwinding (Q := fun n p' ↦ n.obj.Reported env d (some b) p'.trace
      ∧ Owns J devices (buffer d b ::ₘ network n ::ₘ roots) 0 p') ?_ fun p' h' ↦
        releaseBuffer (d := d) hkernel hJ.lasting h') (fun n p₂ h₂ ↦ ?_) (fun _ _ he ↦ he)
    · rw [wp_bind]
      refine wp_mono (h₁.networkOfBuffer hkernel hJ.lasting hd (Multiset.mem_cons_self _ _))
        (fun n p₂ h₂ ↦ ?_) (fun _ _ he ↦ he.any)
      refine wp_mono (shareNetwork (E := fun _ _ ↦ False) h₂.1 (by simpa using h₂.2))
        (fun s p₃ h₃ ↦ ⟨h₃.1, ?_⟩) (fun _ _ hf ↦ hf.elim)
      rw [Multiset.cons_swap]
      exact h₃.2.2
    · rw [wp_bind]
      have hseen := (InferenceRunner.stable_seen env p₂.trace).bufferRelease b p₂
        (List.Subset.refl _)
      exact wp_mono (wp_conj (h₂.2.releaseBuffer (E := fun _ _ ↦ False) hkernel hJ.lasting) hseen)
        (fun _ p₃ h₃ ↦ ⟨⟨_, h₂.1.mono h₃.2⟩, h₃.1⟩) (fun _ _ hf ↦ hf.1.elim)
  · rw [wp_bind]
    refine wp_mono (h.networkOfIndex hkernel hJ.lasting hd _) (fun n p₂ h₂ ↦ ?_)
      (fun _ _ he ↦ he.any)
    exact wp_mono (shareNetwork (E := fun _ _ ↦ False) h₂.1 (by simpa using h₂.2))
      (fun s p₃ h₃ ↦ ⟨⟨_, h₃.1⟩, h₃.2.2⟩) (fun _ _ hf ↦ hf.elim)

end

/-! ## Inferences -/

/-- What the vectors in `createInference` refer to. -/
def vectors (d : Device) (ifm ofm : List (Shared Buffer)) (roots : Multiset Object) :
    Multiset Object := ofm.map (buffer d) + (ifm.map (buffer d) + roots)

theorem vectors_cons (ifm ofm : List (Shared Buffer)) (o : Object) :
    vectors d ifm ofm (o ::ₘ roots) = o ::ₘ vectors d ifm ofm roots := by
  rw [vectors, Multiset.add_cons, Multiset.add_cons, vectors]

theorem mem_vectors {ifm ofm : List (Shared Buffer)} {o : Object} :
    o ∈ vectors d ifm ofm roots ↔ (∃ b ∈ ifm ++ ofm, o = buffer d b) ∨ o ∈ roots := by
  simp only [vectors, Multiset.mem_add, Multiset.mem_coe, List.mem_map, List.mem_append,
    or_and_right, exists_or, eq_comm (a := o)]
  rw [or_assoc, or_left_comm]

section

variable (hkernel : env.kernel.Apart)

include hkernel

/-- They go away, whether the function returns or throws. -/
theorem releaseVectors (hJ : Lasting env J) {ifm ofm : List (Shared Buffer)}
    {E : Exception → Process → Prop} (h : Owns J devices (vectors d ifm ofm roots) 0 p) :
    wp (EthosU.destroyBoth (InferenceRunner.releaseAll env ofm)
      (InferenceRunner.releaseAll env ifm)) (fun _ p' ↦ Owns J devices roots 0 p') E p :=
  destroyBoth (h.releaseBuffers hkernel hJ) fun _ h' ↦ h'.releaseBuffers hkernel hJ

/-- The list of inferences goes away. -/
theorem releaseInferences (hJ : Lasting env J) {inferences : List (Shared Inference)}
    {E : Exception → Process → Prop}
    (h : Owns J devices (inferences.map inference + roots) 0 p) :
    wp (inferences.forM (Inference.release env)) (fun _ p' ↦ Owns J devices roots 0 p')
      E p := by
  induction inferences generalizing p with
  | nil => simpa using h
  | cons i inferences ih =>
    rw [List.map_cons, ← Multiset.cons_coe, Multiset.cons_add] at h
    show wp (Inference.release env i >>= fun _ ↦ inferences.forM (Inference.release env)) _ E p
    rw [wp_bind]
    exact wp_mono (h.releaseInference (E := fun _ _ ↦ False) hkernel hJ)
      (fun _ p' h' ↦ ih h') (fun _ _ hf ↦ hf.elim)

variable {n : Shared Network} {filename : String} {counters : List UInt8} {flag : Bool}

/-- What has been done has the property `J` until the inference is created, `K` from then on, and
`L` in any case.  What `P` says of the buffers that have been filled is still so when it is created,
since their contents do not change any more. -/
theorem createInference {K L : History → Prop} (hJ : Lasting env J) (hK : Lasting env K)
    (hL : Lasting env L) (hJL : ∀ p : Process, J p.history → L p.history)
    (hKL : ∀ p : Process, K p.history → L p.history)
    {P : List (Shared Buffer) → (Int → UInt8) → Prop}
    (hd : n.obj.device ∈ devices) (hn : network n ∈ roots)
    (hroom : (InferenceRunner.ifmTensors n.obj).length ≠ ethosuFdMax)
    (hfill : wp (InferenceRunner.fillIfms env n.obj.device filename
        (InferenceRunner.ifmTensors n.obj) [])
      (fun ifm p' ↦ (ifm.length = (InferenceRunner.ifmTensors n.obj).length ∧ Fresh roots ifm
        ∧ Owns J devices (ifm.map (buffer n.obj.device) + roots) 0 p') ∧ P ifm p'.mem)
      (Escaped anyException L devices roots) p)
    (hsent : ∀ ifm ofm p' arenaBuffer, P ifm p'.mem → Fresh roots (arenaBuffer :: ifm ++ ofm) →
      Owns J devices (buffer n.obj.device arenaBuffer ::ₘ constructing n ifm ofm
        (vectors n.obj.device ifm ofm roots)) 0 p' →
      ifm.length < ethosuFdMax → ofm.length ≤ ethosuFdMax →
        K (p'.called env (.inferenceCreate n.obj.fd (Inference.request env p' arenaBuffer ifm ofm
          (Inference.copyCounters (counters.map UInt8.toUInt32)
            Inference.initializeCounterConfig) flag).uapi)).history) :
    wp (InferenceRunner.createInference env n.obj.device n filename counters flag)
      (fun i p' ↦ Owns K devices (inference i ::ₘ roots) 0 p')
      (Escaped anyException L devices roots) p := by
  rw [InferenceRunner.createInference, wp_bind]
  refine wp_mono hfill (fun ifm p₁ h₁ ↦ ?_) (fun _ _ he ↦ he)
  obtain ⟨⟨hlength, hifm, h₁⟩, hP⟩ := h₁
  -- from here on, memory stays as it is
  let J' : History → Prop := fun x ↦ J x ∧ x.mem = p₁.mem
  have hJ' : Lasting env J' := fun p req hreq hp ↦ ⟨hJ p req hreq hp.1, hp.2⟩
  have hJL' (p : Process) (hp : J' p.history) : L p.history := hJL p hp.1
  have h₁ : Owns J' devices (ifm.map (buffer n.obj.device) + roots) 0 p₁ :=
    h₁.mono fun hp ↦ ⟨hp, rfl⟩
  rw [wp_bind]
  refine wp_mono (unwinding (allocOfms hkernel hJ' hd n.obj.ofmDims [] (by simpa using h₁)
    fresh_nil) fun p' h' ↦ h'.releaseBuffers hkernel hJ') (fun ofm p₂ h₂ ↦ ?_)
    (fun _ p' he ↦ he.mono (hJL' p'))
  obtain ⟨hofm, h₂⟩ := h₂
  have h₂ : Owns J' devices (vectors n.obj.device ifm ofm roots) 0 p₂ := h₂
  have hmem {b : Shared Buffer} (hb : b ∈ ifm ++ ofm) :
      buffer n.obj.device b ∈ vectors n.obj.device ifm ofm roots := by
    rw [mem_vectors]
    exact .inl ⟨b, hb, rfl⟩
  rw [wp_bind]
  refine wp_mono (unwinding (Q := fun i p' ↦
    Owns K devices (vectors n.obj.device ifm ofm (inference i ::ₘ roots)) 0 p') ?_
    fun p' h' ↦ releaseVectors (d := n.obj.device) hkernel hL h') (fun i p₃ h₃ ↦ ?_)
    (fun _ _ he ↦ he)
  · rw [wp_bind]
    refine wp_mono (h₂.ofBuffers hkernel hJ' hL hJL' hKL hd (mem_vectors.2 (.inr hn))
      (fun b hb ↦ hmem (List.mem_append_left _ hb)) (fun b hb ↦ hmem (List.mem_append_right _ hb))
      (by rwa [hlength]) fun p' arenaBuffer harena h' hroom_ifm hroom_ofm ↦ ?_)
      (fun i p₃ h₃ ↦ ?_) (fun _ _ he ↦ he.any)
    · have hfresh : Fresh roots (arenaBuffer :: ifm ++ ofm) := by
        refine (hifm.append hofm).cons (d := n.obj.device) fun o ho ↦ harena o (mem_vectors.2 ?_)
        rw [Multiset.mem_add, Multiset.mem_coe, List.mem_map] at ho
        refine ho.imp_left fun hb ↦ ?_
        obtain ⟨b, hb, heq⟩ := hb
        exact ⟨b, hb, heq.symm⟩
      have hmem_eq : p'.mem = p₁.mem := h'.accepted.2.2
      refine hsent ifm ofm p' arenaBuffer ?_ hfresh (h'.mono And.left) hroom_ifm hroom_ofm
      rwa [hmem_eq]
    · exact wp_mono (shareInference (E := fun _ _ ↦ False) h₃.2)
        (fun s p₄ h₄ ↦ by rw [vectors_cons]; exact h₄.2.2) (fun _ _ hf ↦ hf.elim)
  · rw [wp_bind]
    exact wp_mono (releaseVectors (E := fun _ _ ↦ False) hkernel hK h₃) (fun _ _ h₄ ↦ h₄)
      (fun _ _ hf ↦ hf.elim)

end

/-! ## The program -/

/-- A request to the device whose answer is dropped. -/
theorem pings (hJ : Lasting env J) (h : Owns J devices roots 0 p) (hd : d ∈ devices) {req : Request}
    (hneeds : req.needs = [(.descriptor d.fd, .device)]) (hrevokes : req.revokes = none)
    (hgains : ∀ reply, req.gains reply = none) :
    wp (discard (eioctl env req)) (fun _ p' ↦ Owns J devices roots 0 p')
      (Escaped anyException J devices roots) p := by
  rw [wp_discard, eioctl]
  refine wp_mono (h.quiet hJ _ hrevokes hgains fun x hx ↦ ?_) (fun _ _ h' ↦ h')
    (fun _ _ he ↦ (unwound_error he).any)
  rw [hneeds, List.mem_singleton] at hx
  rw [hx]
  exact mem_device hd

/-! ## Waiting -/

section

variable (hJ : Lasting env J) {i : Shared Inference} {b : Shared Buffer}

include hJ

/-- A request that gives and takes nothing, whatever comes of it. -/
theorem keeps_query (msg : String) {req : Request} (hrevokes : req.revokes = none)
    (hgains : ∀ reply, req.gains reply = none)
    (hneeds : ∀ x ∈ req.needs, x ∈ tags devices (reach roots) 0) :
    Keeps (fun p ↦ Owns J devices roots 0 p) (checked env msg req) := fun _ hp ↦
  wp_mono (hp.quiet hJ msg hrevokes hgains hneeds) (fun _ _ h' ↦ h')
    (fun _ _ he ↦ he.2)

theorem keeps_inference (msg : String) {req : Request} (hi : inference i ∈ roots)
    (hrevokes : req.revokes = none) (hgains : ∀ reply, req.gains reply = none)
    (hneeds : req.needs = [(.descriptor i.obj.fd, .inference)]) :
    Keeps (fun p ↦ Owns J devices roots 0 p) (checked env msg req) := by
  refine keeps_query hJ msg hrevokes hgains fun x hx ↦ ?_
  rw [hneeds, List.mem_singleton] at hx
  rw [hx]
  exact mem_inference hi

theorem keeps_status (hi : inference i ∈ roots) :
    Keeps (fun p ↦ Owns J devices roots 0 p) (i.obj.status env) := by
  refine (keeps_inference hJ _ hi rfl (fun _ ↦ rfl) rfl).bind fun reply ↦ ?_
  split
  · exact .pure _
  · exact .throw _

theorem keeps_buffer (hb : buffer d b ∈ reach roots) :
    Keeps (fun p ↦ Owns J devices roots 0 p)
      (eioctl env (.bufferGet b.obj.fd)) := by
  refine keeps_query hJ _ rfl (fun _ ↦ rfl) fun x hx ↦ ?_
  rw [show x = _ from List.mem_singleton.1 hx]
  exact mem_buffer hb

theorem keeps_size (hb : buffer d b ∈ reach roots) :
    Keeps (fun p ↦ Owns J devices roots 0 p) (b.obj.size env) :=
  (keeps_buffer hJ hb).bind fun _ ↦ .pure _

theorem keeps_data (hb : buffer d b ∈ reach roots) :
    Keeps (fun p ↦ Owns J devices roots 0 p) (b.obj.data env) :=
  ((keeps_buffer hJ hb).bind fun _ ↦ .pure _).bind fun _ ↦ .pure _

omit hJ in
theorem ofm_mem_reach (hi : inference i ∈ roots) (hb : b ∈ i.obj.ofmBuffers) :
    buffer i.obj.network.obj.device b ∈ reach roots := by
  refine member_mem_reach hi ?_
  rw [members_inference]
  exact Multiset.mem_cons_of_mem (List.mem_map_of_mem (List.mem_append_right _ hb))

theorem keeps_awaitInference (hi : inference i ∈ roots) (timeout : Int64) :
    Keeps (fun p ↦ Owns J devices roots 0 p)
      (InferenceRunner.awaitInference env i.obj timeout) := by
  refine Keeps.tryCatch ?_ fun _ ↦ .throw _
  refine ((keeps_inference hJ _ hi rfl (fun _ ↦ rfl) rfl).bind fun _ ↦ .pure _).bind fun _ ↦ ?_
  refine .ite ?_ (.pure _)
  refine ((keeps_inference hJ _ hi rfl (fun _ ↦ rfl) rfl).bind fun _ ↦ .pure _).bind fun _ ↦ ?_
  exact .ite (keeps_status hJ hi).discard (.pure _)

theorem keeps_writeOfms (hi : inference i ∈ roots) (print : Bool) :
    Keeps (fun p ↦ Owns J devices roots 0 p)
      (InferenceRunner.writeOfms env print i.obj.ofmBuffers) := by
  refine .listForM_mem fun b hb ↦ ?_
  have hmem := ofm_mem_reach hi hb
  refine (keeps_size hJ hmem).discard.bind fun _ ↦ ?_
  refine Keeps.bind ?_ fun _ ↦
    (keeps_data hJ hmem).discard.bind fun _ ↦ (keeps_size hJ hmem).discard
  exact .ite ((keeps_data hJ hmem).discard.bind fun _ ↦ (keeps_size hJ hmem).discard) (.pure _)

theorem keeps_processResult (hi : inference i ∈ roots) (network : Network) :
    Keeps (fun p ↦ Owns J devices roots 0 p)
      (InferenceRunner.processResult env network i.obj.ofmBuffers) := by
  refine .ite (.listForM_mem fun b hb ↦ (keeps_data hJ (ofm_mem_reach hi hb)).discard) ?_
  split
  · rename_i ofmBuffer rest ofmType types hofm htypes
    refine (keeps_data hJ (ofm_mem_reach hi ?_)).discard.bind fun _ ↦ .ite (.throw _) (.pure _)
    rw [hofm]
    exact List.mem_cons_self
  · exact .throw _

theorem keeps_readCounters (hi : inference i ∈ roots) (o : InferenceRunner.Options) :
    Keeps (fun p ↦ Owns J devices roots 0 p)
      (InferenceRunner.readCounters env o i.obj) := by
  have hstatus : Keeps (fun p ↦ Owns J devices roots 0 p)
      (discard (eioctl env (.inferenceStatus i.obj.fd))) :=
    (keeps_inference hJ _ hi rfl (fun _ ↦ rfl) rfl).discard
  exact (Keeps.ite hstatus (.pure _)).bind fun _ ↦ .ite hstatus (.pure _)

theorem keeps_finishInference (hi : inference i ∈ roots) (o : InferenceRunner.Options)
    (w : InferenceRunner.Waiting) (network : Network) (ofmIndex : Nat) :
    Keeps (fun p ↦ Owns J devices roots 0 p)
      (InferenceRunner.finishInference env o w network i.obj ofmIndex) := by
  refine (keeps_status hJ hi).discard.bind fun _ ↦ (keeps_awaitInference hJ hi _).bind fun _ ↦
    (keeps_status hJ hi).discard.bind fun _ ↦ (keeps_status hJ hi).bind fun _ ↦ .ite ?_ (.pure _)
  refine Keeps.bind (.ite (.throw _) (.pure _)) fun _ ↦ ?_
  exact (keeps_writeOfms hJ hi _).bind fun _ ↦ (keeps_processResult hJ hi _).bind fun _ ↦
    keeps_readCounters hJ hi o

theorem keeps_waitLoop {inferences : List (Shared Inference)}
    (hi : ∀ i ∈ inferences, inference i ∈ roots) (o : InferenceRunner.Options)
    (w : InferenceRunner.Waiting) (network : Network) (ofmIndex : Nat) :
    Keeps (fun p ↦ Owns J devices roots 0 p)
      (InferenceRunner.waitLoop env o w network inferences ofmIndex) := by
  induction inferences generalizing ofmIndex with
  | nil => exact .pure _
  | cons i inferences ih =>
    rw [List.forall_mem_cons] at hi
    exact (keeps_finishInference hJ hi.1 o w network ofmIndex).bind fun _ ↦ ih hi.2 _

end

/-! ## The whole program -/

/-- The destructors at the end of the `try` block leave nothing behind. -/
theorem destroyAll (hkernel : env.kernel.Apart) (hJ : Lasting env J) {n : Shared Network}
    {inferences : List (Shared Inference)} {E : Exception → Process → Prop}
    (h : Owns J {d} (inferences.map inference + {network n}) 0 p) :
    wp (InferenceRunner.destroyAll env d n inferences)
      (fun _ p' ↦ Owns J 0 0 0 p') E p := by
  refine destroyBoth (h.releaseInferences hkernel hJ) fun p₁ h₁ ↦ ?_
  refine destroyBoth (R := fun p' ↦ Owns J {d} 0 0 p') (releaseNetwork hkernel hJ h₁)
    fun p₂ h₂ ↦ ?_
  exact deviceDestroy hkernel hJ h₂ (by simp)

end Owns

/-- What is followed besides custody: `F k` is what has been done when `k` inferences have been
created, and `A` is so in any case. -/
structure Follows (env : Env) (o : InferenceRunner.Options) (F : ℕ → History → Prop)
    (A : History → Prop) : Prop where
  steady : ∀ k, Steady env (F k)
  steadyAny : Steady env A
  any : ∀ k (p : Process), F k p.history → A p.history
  create : ∀ {k filename devices roots fromBuffer} {n : Shared Network} {p : Process},
    o.ifmArg[k]? = some filename → n.obj.device ∈ devices → network n ∈ roots →
    n.obj.Reported env n.obj.device fromBuffer p.trace → Owns (F k) devices roots 0 p →
    wp (InferenceRunner.createInference env n.obj.device n filename o.enabledCounters
        o.enableCycleCounter)
      (fun i p' ↦ Owns (F (k + 1)) devices (inference i ::ₘ roots) 0 p')
      (Escaped anyException A devices roots) p

namespace Follows

variable {env : Env} {o : InferenceRunner.Options} {F : ℕ → History → Prop} {A : History → Prop}
  {devices : Multiset Device} {roots : Multiset Object} {p : Process} {n : Shared Network}
  (hF : Follows env o F A) (hkernel : env.kernel.Apart)

include hF hkernel

/-- One inference for every file that is left. -/
theorem createInferences (hd : n.obj.device ∈ devices) (hn : network n ∈ roots)
    {fromBuffer : Option (Shared Buffer)}
    (hreported : n.obj.Reported env n.obj.device fromBuffer p.trace) (filenames : List String)
    (inferences : List (Shared Inference)) (done : List String)
    (hfiles : done ++ filenames = o.ifmArg) (hdone : inferences.length = done.length)
    (h : Owns (F inferences.length) devices (inferences.map inference + roots) 0 p) :
    wp (InferenceRunner.createInferences env o n.obj.device n filenames inferences)
      (fun inferences' p' ↦
        Owns (F o.ifmArg.length) devices (inferences'.map inference + roots) 0 p')
      (Escaped anyException A devices roots) p := by
  induction filenames generalizing inferences done p with
  | nil =>
    rw [List.append_nil] at hfiles
    rw [hdone, hfiles] at h
    exact h
  | cons filename filenames ih =>
    have hfile : o.ifmArg[inferences.length]? = some filename := by
      rw [← hfiles, hdone, List.getElem?_append_right (Nat.le_refl _), Nat.sub_self]
      rfl
    have hcreate := hF.create hfile hd (Multiset.mem_add.2 (.inr hn)) hreported h
    have hkeeps : Keeps (fun q : Process ↦ p.trace ⊆ q.trace) (InferenceRunner.createInference
        env n.obj.device n filename o.enabledCounters o.enableCycleCounter) :=
      InferenceRunner.keeps_createInference_of (InferenceRunner.stable_seen env p.trace)
        (fun _ _ ↦ InferenceRunner.survives_seen env _ _) (InferenceRunner.ofCalls_trace _)
        (fun _ _ _ _ hp ↦ InferenceRunner.survives_seen env _ _ _ hp)
    have hseen := hkeeps p (List.Subset.refl _)
    rw [InferenceRunner.createInferences, wp_bind]
    refine wp_mono (Owns.unwinding (Q := fun i p' ↦ Owns (F (inferences.length + 1)) devices
        (inference i ::ₘ (inferences.map inference + roots)) 0 p' ∧ p.trace ⊆ p'.trace)
      (wp_mono (wp_conj hcreate hseen) (fun _ _ h' ↦ h') (fun _ _ he ↦ he.1))
      fun p' h' ↦ h'.releaseInferences hkernel hF.steadyAny.lasting) (fun i p₁ h₁ ↦ ?_)
      (fun _ _ he ↦ he)
    refine ih (hreported.mono h₁.2) _ (done ++ [filename]) (by simpa using hfiles)
      (by simp [hdone]) ?_
    rw [List.length_append]
    exact h₁.1.append

theorem submit (h : Owns (F 0) 0 0 0 p) :
    wp (InferenceRunner.submit env o)
      (fun run p' ↦
        Owns (F o.ifmArg.length) {run.1} (run.2.2.map inference + {network run.2.1}) 0 p')
      (Escaped anyException A 0 0) p := by
  have hJ := hF.steady 0
  have hA := hF.steadyAny.lasting
  rw [InferenceRunner.submit, wp_ite]
  refine ⟨fun _ ↦ (h.mono (hF.any 0 p)).unwound trivial, fun _ ↦ ?_⟩
  rw [wp_bind]
  refine wp_mono (h.deviceNew hkernel hJ.lasting o.devArg) (fun d p₁ h₁ ↦ ?_)
    (fun _ p' he ↦ he.any.mono (hF.any 0 p'))
  have hd : d ∈ d ::ₘ 0 := Multiset.mem_cons_self _ _
  refine Owns.unwinding ?_ fun p' (h' : Owns A (d ::ₘ 0) 0 0 p') ↦
    h'.deviceDestroy hkernel hA (by simp)
  rw [wp_bind]
  refine wp_mono (h₁.pings hJ.lasting hd (by rfl) rfl fun _ ↦ rfl) (fun _ p₂ h₂ ↦ ?_)
    (fun _ p' he ↦ he.mono (hF.any 0 p'))
  rw [wp_bind]
  refine wp_mono (h₂.pings hJ.lasting hd (by rfl) rfl fun _ ↦ rfl) (fun _ p₃ h₃ ↦ ?_)
    (fun _ p' he ↦ he.mono (hF.any 0 p'))
  rw [wp_bind]
  refine wp_mono (h₃.capabilities hJ.lasting hd) (fun _ p₄ h₄ ↦ ?_)
    (fun _ p' he ↦ he.any.mono (hF.any 0 p'))
  rw [wp_bind]
  refine wp_mono (h₄.createNetwork hkernel hJ hd o) (fun n p₅ h₅ ↦ ?_)
    (fun _ p' he ↦ he.mono (hF.any 0 p'))
  obtain ⟨⟨fromBuffer, hn⟩, h₅⟩ := h₅
  obtain rfl : n.obj.device = d := by
    obtain ⟨past, fd, -, heq⟩ := hn
    rw [heq]
    rfl
  rw [wp_bind]
  refine wp_mono (Owns.unwinding (hF.createInferences hkernel hd (Multiset.mem_cons_self _ _) hn
    o.ifmArg [] [] rfl rfl (by simpa using h₅)) fun p' h' ↦
      h'.releaseNetwork hkernel hA) (fun inferences p₆ h₆ ↦ h₆) (fun _ _ he ↦ he)

theorem run {v : InferenceRunner.Variables} (ho : v.options = o) (h : Owns (F 0) 0 0 0 p) :
    wp (InferenceRunner.run env v) (fun _ p' ↦ Owns (F o.ifmArg.length) 0 0 0 p')
      (Escaped anyException A 0 0) p := by
  have hJ := (hF.steady o.ifmArg.length).lasting
  rw [InferenceRunner.run, wp_bind, ho]
  refine wp_mono (hF.submit hkernel h) (fun run p₁ h₁ ↦ ?_) (fun _ _ he ↦ he)
  obtain ⟨d, n, inferences⟩ := run
  have hinferences : ∀ i ∈ inferences,
      inference i ∈ (inferences.map inference + {network n} : Multiset Object) := fun i hi ↦
    Multiset.mem_add.2 (.inl (List.mem_map_of_mem hi))
  have hwait := Owns.keeps_waitLoop hJ hinferences o v.waiting n.obj 0 p₁ h₁
  rw [wp_bind]
  refine wp_mono (Owns.unwinding (wp_mono hwait (fun _ _ h' ↦ h') fun _ p' h' ↦
      (h'.mono (hF.any _ p')).unwound trivial)
    fun p' h' ↦ h'.destroyAll hkernel hF.steadyAny.lasting) (fun _ p₂ h₂ ↦ ?_) (fun _ _ he ↦ he)
  exact h₂.destroyAll hkernel hJ

/-- The whole program, from a process that has nothing.  If it is content with itself, it has
created an inference for each of the files. -/
theorem main {opens : String → Bool} {argv : List String} {v : InferenceRunner.Variables}
    (haccept : InferenceRunner.accept opens argv = .ok v) (ho : v.options = o)
    (hstart : F 0 (Process.history {})) :
    wp (InferenceRunner.main env opens argv)
      (fun status p ↦ Owns A 0 0 0 p ∧ (status = 0 → F o.ifmArg.length p.history))
      (Escaped anyException A 0 0) {} := by
  rw [InferenceRunner.main, haccept]
  show wp (tryCatch (InferenceRunner.run env v >>= fun _ ↦ pure 0) _) _ _ _
  rw [wp_tryCatch, wp_bind]
  refine wp_mono (hF.run hkernel ho (Owns.start hstart))
    (fun _ p h ↦ ⟨h.mono (hF.any _ p), fun _ ↦ h.accepted.2⟩) (fun e p he ↦ ?_)
  cases e with
  | error msg => exact ⟨he.owns rfl, fun h ↦ absurd h (by decide)⟩
  | nested | terminate | crash | exit status => exact he

end Follows

/-! ## Inferences that are apart -/

theorem steady_isolated (env : Env) : Steady env isolated :=
  ⟨lasting_isolated, InferenceRunner.ofCalls_trace (Always Isolated)⟩

/-- The buffers of an inference are made for it. -/
theorem follows_isolated {env : Env} (hkernel : env.kernel.Apart) (hroomy : env.kernel.Roomy)
    (o : InferenceRunner.Options) : Follows env o (fun _ ↦ isolated) isolated where
  steady _ := steady_isolated env
  steadyAny := steady_isolated env
  any _ _ h := h
  create {k filename devices roots fromBuffer n p} _ hd hn hreported h := by
    have hlast : Lasting env isolated := lasting_isolated
    have hfill := Owns.fillIfms hkernel (steady_isolated env) hd filename
      (InferenceRunner.ifmTensors n.obj) [] (by simpa using h) fresh_nil
    refine Owns.createInference hkernel hlast hlast hlast (fun _ h ↦ h) (fun _ h ↦ h)
      (P := fun _ _ ↦ True) hd hn (length_ifmTensors hroomy hreported)
      (wp_mono hfill (fun ifm p₁ h₁ ↦ ⟨⟨by simpa using h₁.1, h₁.2⟩, trivial⟩) fun _ _ he ↦ he)
      fun ifm ofm p' arenaBuffer _ hfresh h' hifm hofm ↦ h'.accepted.2.called ?_
    refine isolated_create h' (fun b hb ↦ ?_) (fun i hi ↦ ?_) hfresh hifm hofm _ _
    · rw [List.cons_append, List.mem_cons] at hb
      rcases hb with rfl | hb
      · exact Multiset.mem_cons_self _ _
      · exact Multiset.mem_cons_of_mem
          (Owns.mem_constructing (Owns.mem_vectors.2 (.inl ⟨b, hb, rfl⟩)))
    · simpa [Owns.constructing, Owns.vectors] using hi

namespace InferenceRunner

variable {env : Env} {opens : String → Bool} {argv : List String}

/-- The whole program, from a process that has nothing. -/
theorem wp_main_owns (opens : String → Bool) (argv : List String) (hkernel : env.kernel.Apart)
    (hroomy : env.kernel.Roomy) :
    wp (main env opens argv) (fun _ p ↦ Owns isolated 0 0 0 p)
      (Escaped anyException isolated 0 0) {} := by
  cases haccept : accept opens argv with
  | error e =>
    rw [main, haccept]
    exact (Owns.start trivial).unwound trivial
  | ok v =>
    exact wp_mono ((follows_isolated hkernel hroomy v.options).main hkernel haccept rfl trivial)
      (fun _ _ h ↦ h.1) (fun _ _ he ↦ he)

/-- **Whatever its command line is, the inference runner makes no request that the driver would not
expect, and has closed and unmapped everything when it returns.**  The driver may answer what it
likes, as long as it hands out only what is not in use, takes it back when it is closed or unmapped,
and reports no network with `ETHOSU_FD_MAX` inputs. -/
theorem gives_back (hkernel : env.kernel.Apart) (hroomy : env.kernel.Roomy) :
    (∀ status p, main env opens argv {} = .ok status p → custody p.trace = some [])
    ∧ ∀ e p, main env opens argv {} = .error e p → (custody p.trace).isSome := by
  have hmain := wp_main_owns opens argv hkernel hroomy
  refine ⟨fun status p hok ↦ ?_, fun e p herror ↦ ?_⟩
  · have howns := ok_of_wp hmain hok
    exact howns.collect
  · exact (error_of_wp hmain herror).accepted.1

/-- **In no run do two inferences that are there at the same time share a buffer, nor does one use a
buffer twice**, with a driver of the same kind. -/
theorem keeps_apart (hkernel : env.kernel.Apart) (hroomy : env.kernel.Roomy)
    {later past : List Event} {req : Request} {reply : Reply}
    (h : (left (main env opens argv) {}).trace = later ++ .call req reply :: past) :
    Isolated past req := by
  have hall : Always Isolated (left (main env opens argv) {}).trace :=
    left_of_wp (P := fun p : Process ↦ Always Isolated p.trace)
      (wp_mono (wp_main_owns opens argv hkernel hroomy) (fun _ _ h ↦ h.accepted.2)
        (fun _ _ he ↦ he.accepted.2))
  rw [h] at hall
  exact hall.of_append.1

/-- A network with one input and one output, of floats. -/
def oneTensor : Words := fun i ↦
  if i = NetworkInfo.ifm.count ∨ i = NetworkInfo.ofm.count then 1 else 0

theorem oneTensor_roomy : (roomy oneTensor).kernel.Roomy := by
  intro past fd
  show oneTensor NetworkInfo.ifm.count ≠ .ofNat ethosuFdMax
  decide

theorem gives_back_roomy :
    (∀ status p, main (roomy oneTensor) (fun _ ↦ true) ["-n", "model_vela.tflite", "-i", "a.bmp",
        "-i", "b.bmp", "-o", "out"] {} = .ok status p → custody p.trace = some [])
    ∧ ∀ e p, main (roomy oneTensor) (fun _ ↦ true) ["-n", "model_vela.tflite", "-i", "a.bmp",
        "-i", "b.bmp", "-o", "out"] {} = .error e p → (custody p.trace).isSome :=
  gives_back (roomy_apart _) oneTensor_roomy

/-- With two different models. -/
theorem keeps_apart_roomy :
    (∀ later past req reply, (left (main (roomy oneTensor) (fun _ ↦ true) ["-n",
        "model_vela.tflite", "-i", "a.bmp", "-i", "b.bmp", "-o", "out"]) {}).trace
      = later ++ .call req reply :: past → Isolated past req)
    ∧ ∀ later past req reply, (left (main (roomy oneTensor) (fun _ ↦ true) ["-n", "1", "-i",
        "a.bmp", "-i", "b.bmp", "-o", "out"]) {}).trace
      = later ++ .call req reply :: past → Isolated past req :=
  ⟨fun _ _ _ _ ↦ keeps_apart (roomy_apart _) oneTensor_roomy,
    fun _ _ _ _ ↦ keeps_apart (roomy_apart _) oneTensor_roomy⟩

end InferenceRunner

end EthosU
