import EthosU.BufferState
import EthosU.Ownership

/-!
# Tensor pointers

`typed_input_buffer` and `typed_output_buffer` hand out an address: the start of the arena, plus the
arena's offset on the driver's side, plus the offset the driver reported for the tensor.  The
program writes through it.  This file asks when the tensor lies in the arena's mapping.

* `Placed` is what is true of every constructed interpreter: its network is what a `NETWORK_INFO`
  reply said, and the driver keeps the offset of its arena at zero.  The constructor establishes it
  (`wp_new_placed`) and calls keep it (`wp_performAll_placed`).
* `Inside` says of an index that the method throws, or that the index is one of a tensor and the
  tensor lies in the mapping.  `Fits` is the corresponding condition on what the driver reported.
* `Interpreter.pointers_inside_iff` proves that the two are the same for every index, at any time in
  the life of an interpreter.
-/

set_option autoImplicit false

namespace EthosU

open Wp

/-- The driver told the process `info` about a network. -/
def Reported (info : Words) (t : List Event) : Prop :=
  ∃ fd reply, .call (.networkInfo fd) reply ∈ t ∧ reply.data = info

theorem Reported.called {env : Env} {p : Process} {info : Words} (h : Reported info p.trace)
    (req : Request) : Reported info (p.called env req).trace := by
  obtain ⟨fd, reply, hmem, hinfo⟩ := h
  exact ⟨fd, reply, List.mem_cons_of_mem _ (List.mem_append_right _ hmem), hinfo⟩

namespace Interpreter

/-- The length of the mapping of the arena. -/
def arenaLength (arenaSizeOfMB : Int64) : Nat := (arenaSizeOfMB <<< 20).toUInt64.toNat

/-- Where the tensors of a constructed interpreter are. -/
structure Placed (i : Interpreter) (arenaSizeOfMB : Int64) (info : Words) (p : Process) : Prop where
  /-- The arena is mapped, and its offset is zero. -/
  arenaBuffer : ∃ a k, i.arenaBuffer = some a
    ∧ a.obj.dataCapacity = (arenaSizeOfMB <<< 20).toUInt64
    ∧ kept a.obj.fd p.trace = some k ∧ k.offset = 0
  /-- The network is what the driver said it is. -/
  network : ∃ n device fd buffer, i.network = some n
    ∧ n.obj = Network.ofInfo device fd buffer info
  reported : Reported info p.trace

/-! ## Indices and offsets -/

/-- The number of tensors is what the reply says. -/
theorem length_dataOffsets (t : NetworkInfo.Tensors) (info : Words) :
    (t.dataOffsets info).length = (info t.count).toNat := by
  simp [NetworkInfo.Tensors.dataOffsets, NetworkInfo.Tensors.indices]

theorem getElem_dataOffsets (t : NetworkInfo.Tensors) (info : Words) {k : Nat}
    (h : k < (t.dataOffsets info).length) :
    (t.dataOffsets info)[k] = (info (t.offset + k)).toInt32 := by
  simp [NetworkInfo.Tensors.dataOffsets, NetworkInfo.Tensors.indices]

/-- A negative index is compared as a number above every size, any other one as it is. -/
theorem index_lt_iff (index : Int32) {count : Nat} (h : count < 2 ^ 32) {k : Nat} :
    (index.toInt64.toUInt64.toNat = k ∧ k < count) ↔ (index.toInt = k ∧ k < count) := by
  have hcond := Narrow.toInt_toUInt64 index
  have hlt := index.toInt64.toUInt64.toNat_lt
  split at hcond <;> constructor <;> rintro ⟨hk, hcount⟩ <;> refine ⟨?_, hcount⟩ <;> omega

/-! ## One pointer -/

/-- The tensor `k` that the driver reported lies in the mapping of the arena: its offset is not
taken for a negative one, and its end is within the mapping. -/
def Fits (t : NetworkInfo.Tensors) (info : Words) (arenaSizeOfMB : Int64) (k : Nat) : Prop :=
  (info (t.offset + k)).toNat < 2 ^ 31
    ∧ (info (t.offset + k)).toNat + (info (t.size + k)).toNat ≤ arenaLength arenaSizeOfMB

/-- The method throws, or it hands out the address of tensor `index`, which lies in the mapping of
the arena. -/
def Inside (method : Int32 → Method Int) (t : NetworkInfo.Tensors) (info : Words) (i : Interpreter)
    (p : Process) (index : Int32) : Prop :=
  match method index ⟨p, i⟩ with
  | .error _ _ => True
  | .ok addr _ => ∃ k < (info t.count).toNat, index.toInt = k
    ∧ ∃ a ∈ i.arenaBuffer, (a.obj.dataPtr : Int) ≤ addr
      ∧ addr + (info (t.size + k)).toNat ≤ a.obj.dataPtr + a.obj.dataCapacity.toNat

instance (method : Int32 → Method Int) (t : NetworkInfo.Tensors) (info : Words) (i : Interpreter)
    (p : Process) (index : Int32) : Decidable (Inside method t info i p index) :=
  match h : method index ⟨p, i⟩ with
  | .error _ _ => isTrue (by rw [Inside, h]; trivial)
  | .ok addr _ => decidable_of_iff (∃ k < (info t.count).toNat, index.toInt = k
      ∧ ∃ a ∈ i.arenaBuffer, (a.obj.dataPtr : Int) ≤ addr
        ∧ addr + (info (t.size + k)).toNat ≤ a.obj.dataPtr + a.obj.dataCapacity.toNat)
    (by rw [Inside, h])

variable {env : Env} {p : Process}

theorem inside_iff_wp (method : Int32 → Method Int) (t : NetworkInfo.Tensors) (info : Words)
    (i : Interpreter) (p : Process) (index : Int32) :
    Inside method t info i p index ↔ wp (method index) (fun addr _ ↦
      ∃ k < (info t.count).toNat, index.toInt = k
        ∧ ∃ a ∈ i.arenaBuffer, (a.obj.dataPtr : Int) ≤ addr
          ∧ addr + (info (t.size + k)).toNat ≤ a.obj.dataPtr + a.obj.dataCapacity.toNat)
      (fun _ _ ↦ True) ⟨p, i⟩ := by
  rw [Inside, wp]
  cases method index ⟨p, i⟩ <;> rfl

theorem inside_iff (hkeeps : env.kernel.KeepsBuffers) {i : Interpreter} {arenaSizeOfMB : Int64}
    {info : Words} (h : Placed i arenaSizeOfMB info p) {dataOffset : Network → Int32 → M Int32}
    {t : NetworkInfo.Tensors} {msg : String}
    (hoffset : ∀ device fd buffer index, dataOffset (Network.ofInfo device fd buffer info) index
      = Network.dataOffsetAt msg (t.dataOffsets info) index) (index : Int32) :
    Inside (typedBuffer env dataOffset) t info i p index
      ↔ ∀ k : Nat, index.toInt = k → k < (info t.count).toNat → Fits t info arenaSizeOfMB k := by
  obtain ⟨device', networkBuffer, arenaBuffer, network, inference, mb, counters, flag⟩ := i
  obtain ⟨a, ka, rfl, hlength, hka, hzero⟩ := h.arenaBuffer
  obtain ⟨n, device, fd, buffer, rfl, hnobj⟩ := h.network
  obtain ⟨q, hq⟩ := Buffer.returns_data hkeeps hka
  rw [hzero] at hq
  have hcount : (info t.count).toNat < 2 ^ 32 := (info t.count).toNat_lt
  rw [inside_iff_wp]
  rw [typedBuffer, wp_bind, wp_get, wp_bind, deref, wp_pure, wp_bind, wp_onProc, hnobj, hoffset,
    Network.dataOffsetAt]
  by_cases hk : index.toInt64.toUInt64.toNat < (t.dataOffsets info).length
  · rw [dif_pos hk, wp_pure, wp_bind, deref, wp_pure, wp_bind, wp_onProc, wp_of_ok hq, wp_pure,
      getElem_dataOffsets, Narrow.toInt_toInt32, UInt32.toNat_zero, Nat.add_zero]
    rw [length_dataOffsets] at hk
    obtain ⟨hindex, hlt⟩ := (index_lt_iff index hcount).1 ⟨rfl, hk⟩
    generalize index.toInt64.toUInt64.toNat = k at hindex hlt
    have hcap : a.obj.dataCapacity.toNat = arenaLength arenaSizeOfMB := by rw [hlength, arenaLength]
    refine ⟨?_, ?_⟩
    · rintro ⟨k', -, hk', a', ha', hlower, hupper⟩ k'' hk'' -
      cases ha'
      obtain rfl : k' = k := by omega
      obtain rfl : k'' = k' := by omega
      rw [hcap] at hupper
      have hoff := (info (t.offset + k'')).toNat_lt
      rw [Fits]
      split at hlower <;> split at hupper <;> omega
    · intro hfits
      obtain ⟨hoff, hend⟩ := hfits k hindex hlt
      refine ⟨k, hlt, hindex, a, rfl, ?_, ?_⟩
      · rw [if_pos hoff]
        omega
      · rw [if_pos hoff, hcap]
        omega
  · rw [dif_neg hk]
    refine ⟨fun _ k hindex hlt ↦ absurd ?_ hk, fun _ ↦ trivial⟩
    rw [length_dataOffsets, ((index_lt_iff index hcount).2 ⟨hindex, hlt⟩).1]
    exact hlt

/-! ## The constructor -/

/-- The network that is created is what the driver says it is. -/
theorem wp_networkCreate_reported (device : Device) (buffer : Option (Shared Buffer))
    (type : NetworkType) (arg : UInt32) :
    wp (Network.create env device buffer type arg)
      (fun n p' ↦ ∃ fd info, n = Network.ofInfo device fd buffer info ∧ Reported info p'.trace)
      (fun _ _ ↦ True) p := by
  rw [Network.create, wp_bind, eioctl, wp_checked]
  refine ⟨fun _ ↦ trivial, fun _ ↦ ?_⟩
  rw [wp_bind, catching, wp_onThrow, eioctl, wp_checked]
  refine ⟨fun _ ↦ ?_, fun _ ↦ ⟨_, _, rfl, _, _, List.mem_cons_self, rfl⟩⟩
  split
  · exact wp_of_forall (fun _ _ ↦ trivial) fun _ _ ↦ trivial
  · exact trivial

/-- The arena that is created is mapped in full, and nobody has moved its offset. -/
theorem wp_makeArena (device : Device) (capacity : UInt64) {info : Words}
    (h : Reported info p.trace) :
    wp (Buffer.new env device capacity >>= makeShared)
      (fun a p' ↦ a.obj.dataCapacity = capacity
        ∧ (∃ k, kept a.obj.fd p'.trace = some k ∧ k.offset = 0) ∧ Reported info p'.trace)
      (fun _ _ ↦ True) p := by
  rw [wp_bind, Buffer.new, wp_bind, eioctl, wp_checked]
  refine ⟨fun _ ↦ trivial, fun hcreated ↦ ?_⟩
  rw [wp_bind, catching, wp_onThrow, emmap, wp_checked]
  refine ⟨fun _ ↦ ?_, fun _ ↦ ⟨rfl, ⟨.created capacity.toUInt32, ?_, rfl⟩,
    (h.called _).called _⟩⟩
  · split
    · exact wp_of_forall (fun _ _ ↦ trivial) fun _ _ ↦ trivial
    · exact trivial
  · show kept _ ((p.called env _).called env _).trace = _
    rw [kept_quiet fun _ _ ↦ rfl, kept_called, Event.keep, if_pos ⟨rfl, hcreated⟩]

/-- Setting the size leaves the offset at zero. -/
theorem wp_resize_arena (buffer : Buffer) (size : UInt64) {info : Words}
    (hkept : ∃ k, kept buffer.fd p.trace = some k ∧ k.offset = 0) (h : Reported info p.trace) :
    wp (buffer.resize env size)
      (fun _ p' ↦ (∃ k, kept buffer.fd p'.trace = some k ∧ k.offset = 0) ∧ Reported info p'.trace)
      (fun _ _ ↦ True) p := by
  obtain ⟨k, hk, hoffset⟩ := hkept
  rw [Buffer.resize, wp_discard, eioctl, wp_checked]
  refine ⟨fun _ ↦ trivial, fun hret ↦ ⟨⟨k.set 0 size.toUInt32, ?_, ?_⟩, h.called _⟩⟩
  · rw [kept_called, Event.keep, if_pos ⟨rfl, hret⟩, hk]
    rfl
  · rw [KeptBuffer.set]
    split
    · rfl
    · exact hoffset

theorem wp_init_placed (model : String) (s : Session) :
    wp (init env model)
      (fun _ s' ↦ ∃ info, Placed s'.this s.this.arenaSizeOfMB info s'.proc)
      (fun _ _ ↦ True) s := by
  have hany : ∀ {α : Type} (x : M α) (p : Process), wp x (fun _ _ ↦ True) (fun _ _ ↦ True) p :=
    fun x p ↦ wp_of_forall (fun _ _ ↦ trivial) fun _ _ ↦ trivial
  rw [init, wp_bind, wp_get, wp_bind, wp_onProc]
  refine wp_mono (hany _ _) (fun _ p₁ _ ↦ ?_) (fun _ _ he ↦ he)
  rw [wp_bind, wp_onProc]
  refine wp_mono (hany _ _) (fun stream p₂ _ ↦ ?_) (fun _ _ he ↦ he)
  rw [wp_bind, wp_onProc]
  refine wp_mono (hany _ _) (fun networkBuffer p₃ _ ↦ ?_) (fun _ _ he ↦ he)
  rw [wp_bind, wp_modify, wp_bind, wp_onProc]
  refine wp_mono (hany _ _) (fun _ p₄ _ ↦ ?_) (fun _ _ he ↦ he)
  rw [wp_bind, wp_onProc]
  refine wp_mono (hany _ _) (fun _ p₅ _ ↦ ?_) (fun _ _ he ↦ he)
  -- from here on it matters what is made
  rw [wp_bind, wp_onProc, wp_bind, Network.ofBuffer, wp_bind, wp_copy, unwinding, wp_onThrow]
  refine wp_mono (wp_networkCreate_reported _ _ _ _) (fun n p₆ hn ↦ ?_) (fun _ p₆ _ ↦ ?_)
  · obtain ⟨fd, info, hn, hreported⟩ := hn
    rw [wp_makeShared, wp_bind, wp_modify]
    by_cases hvela : (!n.isVelaModel) = true
    · rw [if_pos hvela]
      exact trivial
    · rw [if_neg hvela, wp_bind, wp_onProc]
      refine wp_mono (wp_makeArena _ _ hreported) (fun a p₇ ha ↦ ?_) (fun _ _ he ↦ he)
      obtain ⟨hcapacity, hkept, hreported⟩ := ha
      rw [wp_bind, wp_modify, wp_onProc]
      refine wp_mono (wp_resize_arena _ _ hkept hreported) (fun _ p₈ hp₈ ↦ ?_) (fun _ _ he ↦ he)
      obtain ⟨⟨k, hk, hoffset⟩, hreported⟩ := hp₈
      exact ⟨info, ⟨a, k, rfl, hcapacity, hk, hoffset⟩, ⟨_, _, fd, _, rfl, hn⟩, hreported⟩
  · split
    · exact wp_of_forall (fun _ _ ↦ trivial) fun _ _ ↦ trivial
    · exact trivial

theorem wp_new_placed (model device : String) (arenaSizeOfMB : Int64) :
    wp (new env model device arenaSizeOfMB)
      (fun i p' ↦ ∃ info, Placed i arenaSizeOfMB info p') (fun _ _ ↦ True) p := by
  rw [new, wp_bind]
  refine wp_mono (wp_of_forall (Q := fun _ _ ↦ True) (fun _ _ ↦ trivial) fun _ _ ↦ trivial)
    (fun opened p₁ _ ↦ ?_) (fun _ _ he ↦ he)
  rw [wp_bind, wp_get, wp_bind, wp_onObject, unwinding, wp_onThrow]
  refine wp_mono (wp_init_placed model _) (fun _ _ hs ↦ hs) (fun _ _ _ ↦ ?_)
  split
  · exact wp_of_forall (fun _ _ ↦ trivial) fun _ _ ↦ trivial
  · exact trivial

/-! ## Calls leave the arena where it is -/

/-- The driver keeps the offset of the buffer at zero, and has reported `info`. -/
def Still (fd : Fd) (info : Words) (t : List Event) : Prop :=
  (∃ k, kept fd t = some k ∧ k.offset = 0) ∧ Reported info t

section

variable {fd : Fd} {info : Words}

theorem wp_checked_still (h : Still fd info p.trace) (msg : String) {req : Request}
    (hquiet : ∀ reply k, (Event.call req reply).keep fd k = k) :
    wp (checked env msg req) (fun _ p' ↦ Still fd info p'.trace)
      (fun _ p' ↦ Still fd info p'.trace) p := by
  have hcalled : Still fd info (p.called env req).trace := by
    refine ⟨?_, h.2.called req⟩
    rw [kept_quiet hquiet]
    exact h.1
  rw [wp_checked]
  exact ⟨fun _ ↦ hcalled, fun _ ↦ hcalled⟩

/-- An inference that goes away while others share its network and its arena closes nothing. -/
theorem wp_releaseMembers_trace {network : Shared Network} {arenaBuffer : Shared Buffer}
    (hid : network.id ≠ arenaBuffer.id) (hnetwork : p.uses network.id ≠ 1)
    (harena : p.uses arenaBuffer.id ≠ 1) {E : Exception → Process → Prop} :
    wp (Inference.releaseMembers env network [] [] (some arenaBuffer))
      (fun _ p' ↦ p'.trace = p.trace) E p := by
  refine wp_destroyBoth ((wp_release _ _).2 ⟨fun h ↦ absurd h harena, fun _ ↦ ?_⟩)
  refine wp_destroyBoth (wp_destroyBoth ?_)
  refine (wp_release _ _).2 ⟨fun h ↦ absurd ?_ hnetwork, fun _ ↦ rfl⟩
  rw [← h]
  show p.uses network.id = Function.update p.uses arenaBuffer.id _ network.id
  rw [Function.update_of_ne hid]

theorem wp_create_still {network : Shared Network} {arenaBuffer : Shared Buffer}
    {counterConfigs : List UInt32} {enableCycleCounter : Bool} (h : Still fd info p.trace) :
    wp (Inference.create env network arenaBuffer [] [] counterConfigs enableCycleCounter)
      (fun _ p' ↦ Still fd info p'.trace ∧ p'.uses = p.uses)
      (fun _ p' ↦ Still fd info p'.trace ∧ p'.uses = p.uses) p := by
  by_cases hacc : Inference.Accepts (Inference.getFds []) (Inference.getFds []) counterConfigs
  · rw [wp_congr (Inference.create_of_accepts env network arenaBuffer enableCycleCounter p hacc),
      wp_bind, eioctl]
    have huses : ∀ req, wp (checked env "IOCTL failed" req) (fun _ p' ↦ p'.uses = p.uses)
        (fun _ p' ↦ p'.uses = p.uses) p := fun req ↦ (wp_checked _ _ _).2 ⟨fun _ ↦ rfl, fun _ ↦ rfl⟩
    exact wp_conj (wp_checked_still h _ fun _ _ ↦ rfl) (huses _)
  · obtain ⟨msg, hmsg⟩ := Inference.create_of_not_accepts env network arenaBuffer
      enableCycleCounter p hacc
    rw [wp_of_error hmsg]
    exact ⟨h, rfl⟩

theorem wp_ofArena_still {network : Shared Network} {arenaBuffer : Shared Buffer}
    {counters : List UInt32} {enableCycleCounter : Bool} (hid : network.id ≠ arenaBuffer.id)
    (hnetwork : p.uses network.id ≠ 0) (harena : p.uses arenaBuffer.id ≠ 0)
    (h : Still fd info p.trace) :
    wp (Inference.ofArena env network arenaBuffer counters enableCycleCounter)
      (fun _ p' ↦ Still fd info p'.trace) (fun _ p' ↦ Still fd info p'.trace) p := by
  rw [Inference.ofArena, wp_bind, wp_copy, wp_bind, wp_copy, unwinding, wp_onThrow]
  refine wp_mono (Q := fun _ p' ↦ Still fd info p'.trace)
    (E := fun _ p' ↦ Still fd info p'.trace ∧ p'.uses = shares network arenaBuffer p.uses)
    ?_ (fun _ _ hq ↦ hq) (fun e p' hp' ↦ ?_)
  · by_cases hcounters : counters.length > ethosuPmuEventMax
    · rw [if_pos hcounters]
      exact ⟨h, rfl⟩
    · rw [if_neg hcounters]
      exact (wp_bind _ _).2 (wp_mono (wp_create_still h) (fun _ _ hq ↦ hq.1) (fun _ _ he ↦ he))
  · obtain ⟨hstill, huses⟩ := hp'
    split
    · refine wp_mono (wp_releaseMembers_trace hid ?_ ?_ (E := fun _ _ ↦ False))
        (fun _ _ ht ↦ ht ▸ hstill) (fun _ _ hf ↦ hf.elim)
      · rw [huses, shares_network hid]
        omega
      · rw [huses, shares_arenaBuffer hid]
        omega
    · exact hstill

/-- The inference that is replaced closes a descriptor of its own only. -/
theorem wp_release_still {y : Shared Inference} {fd' : Fd} {network : Shared Network}
    {arenaBuffer : Shared Buffer} (hy : y.obj = ⟨fd', network, [], [], arenaBuffer⟩)
    (hfd : fd' ≠ fd) (hid : network.id ≠ arenaBuffer.id) (hyn : network.id ≠ y.id)
    (hya : arenaBuffer.id ≠ y.id) (hnetwork : p.uses network.id ≠ 1)
    (harena : p.uses arenaBuffer.id ≠ 1) (hsane : env.kernel.Sane) (h : Still fd info p.trace)
    {E : Exception → Process → Prop} :
    wp (Inference.release env y) (fun _ p' ↦ Still fd info p'.trace) E p := by
  refine (wp_release _ _).2 ⟨fun _ ↦ ?_, fun _ ↦ h⟩
  rw [hy]
  refine wp_destroyBoth ?_
  rw [wp_discard, eclose, wp_checked]
  refine ⟨fun hneg ↦ absurd hneg (hsane.close _ _), fun _ ↦ ?_⟩
  have hquiet : ∀ reply k, (Event.call (.close fd') reply).keep fd k = k := fun _ _ ↦ if_neg hfd
  have hstill : Still fd info ((y.dropped p).called env (.close fd')).trace := by
    refine ⟨?_, Reported.called (p := y.dropped p) h.2 _⟩
    rw [kept_quiet hquiet]
    exact h.1
  refine wp_mono (wp_releaseMembers_trace hid ?_ ?_ (E := fun _ _ ↦ False))
    (fun _ _ ht ↦ ht ▸ hstill) (fun _ _ hf ↦ hf.elim)
  · show Function.update p.uses y.id _ network.id ≠ 1
    rwa [Function.update_of_ne hyn]
  · show Function.update p.uses y.id _ arenaBuffer.id ≠ 1
    rwa [Function.update_of_ne hya]

theorem Placed.still {i : Interpreter} {arenaSizeOfMB : Int64} {a : Shared Buffer}
    (h : Placed i arenaSizeOfMB info p) (ha : i.arenaBuffer = some a) :
    Still a.obj.fd info p.trace := by
  obtain ⟨a', k, ha', -, hk, hoffset⟩ := h.arenaBuffer
  cases ha.symm.trans ha'
  exact ⟨⟨k, hk, hoffset⟩, h.reported⟩

/-- The members stay what they were. -/
theorem Placed.of_still {i i' : Interpreter} {arenaSizeOfMB : Int64} {a : Shared Buffer}
    {p' : Process} (h : Placed i arenaSizeOfMB info p) (ha : i.arenaBuffer = some a)
    (hnetwork : i'.network = i.network) (harena : i'.arenaBuffer = i.arenaBuffer)
    (hstill : Still a.obj.fd info p'.trace) : Placed i' arenaSizeOfMB info p' := by
  obtain ⟨⟨k, hk, hoffset⟩, hreported⟩ := hstill
  obtain ⟨a', -, ha', hcapacity, -⟩ := h.arenaBuffer
  cases ha.symm.trans ha'
  exact ⟨⟨a, k, harena.trans ha, hcapacity, hk, hoffset⟩, hnetwork ▸ h.network, hreported⟩

/-- The inference that `Invoke` replaces, if there is one, shares network and arena with the new
one, so that neither of them is destroyed. -/
theorem wp_replaced_still (hsane : env.kernel.Sane) {device : Device}
    {networkBuffer : Option (Shared Buffer)} {a : Shared Buffer} {n : Shared Network}
    {inference : Option (Shared Inference)} {mb : Int64} {counters : List UInt8} {flag : Bool}
    (h : Owns ⟨device, networkBuffer, some a, some n, inference, mb, counters, flag⟩ p)
    {p' : Process} (huses : p'.uses = Function.update (shares n a p.uses) p.made 1)
    (hstill : Still a.obj.fd info p'.trace) :
    wp (inference.forM (Inference.release env)) (fun _ q ↦ Still a.obj.fd info q.trace)
      (fun _ _ ↦ False) p' := by
  rcases inference with _ | y
  · exact hstill
  obtain ⟨hid, -⟩ := h.network_arena rfl rfl
  obtain ⟨-, fd', n', a', hn', ha', hobj⟩ := h.inference y rfl
  cases hn'
  cases ha'
  have hids := h.ids
  have hmade := h.made_not_mem
  have hfds := h.descriptors
  simp only [ids, Interpreter.descriptors, Option.toList_some, List.map_cons, List.map_nil,
    List.cons_append, List.nil_append, List.nodup_cons, List.mem_cons, not_or, hobj]
    at hids hmade hfds
  obtain ⟨⟨hya, hyn, -⟩, -⟩ := hids
  obtain ⟨-, hma, hmn, -⟩ := hmade
  refine wp_release_still hobj hfds.1.1 hid (Ne.symm hyn) (Ne.symm hya) ?_ ?_ hsane hstill
  · rw [huses, Function.update_of_ne (Ne.symm hmn), shares_network hid, (h.network n rfl).1]
    omega
  · rw [huses, Function.update_of_ne (Ne.symm hma), shares_arenaBuffer hid, h.arenaBuffer a rfl]
    omega

theorem wp_invoke_placed (hsane : env.kernel.Sane) (timeoutNanos : Int64) {arenaSizeOfMB : Int64}
    {s : Session} (h : Owns s.this s.proc) (hc : Complete s.this)
    (hplaced : Placed s.this arenaSizeOfMB info s.proc) :
    wp (invoke env timeoutNanos) (fun _ s' ↦ Placed s'.this arenaSizeOfMB info s'.proc)
      (fun _ s' ↦ Placed s'.this arenaSizeOfMB info s'.proc) s := by
  obtain ⟨p, device, networkBuffer, arenaBuffer, network, inference, mb, counters, flag⟩ := s
  obtain ⟨a, rfl⟩ := Option.isSome_iff_exists.1 hc.arenaBuffer
  obtain ⟨n, rfl⟩ := Option.isSome_iff_exists.1 hc.network
  have hstill := hplaced.still rfl
  have hkeep : ∀ {p' : Process} (x : Option (Shared Inference)), Still a.obj.fd info p'.trace →
      Placed ⟨device, networkBuffer, some a, some n, x, mb, counters, flag⟩ arenaSizeOfMB info p' :=
    fun _ hs ↦ hplaced.of_still rfl rfl rfl hs
  obtain ⟨hid, hnetwork, harena⟩ := h.network_arena rfl rfl
  rw [invoke, wp_bind, wp_get, wp_bind, deref, wp_pure, wp_bind, deref, wp_pure, wp_bind, wp_onProc,
    wp_bind]
  refine wp_mono (wp_conj (wp_ofArena_held hsane h.at ((descriptor_mem_owned _ _).2 ?_)
    ((descriptor_mem_owned _ _).2 ?_) hid hnetwork harena) (wp_ofArena_still hid hnetwork harena
      hstill)) (fun x p₁ hp₁ ↦ ?_) (fun _ p₁ hp₁ ↦ hkeep inference hp₁.2)
  · simp [Interpreter.descriptors]
  · simp [Interpreter.descriptors]
  obtain ⟨⟨-, -, hat⟩, hstill₁⟩ := hp₁
  rw [wp_makeShared, wp_bind, wp_modify, wp_bind, wp_onProc]
  have hstill₂ : Still a.obj.fd info { p₁ with
    made := p₁.made + 1, uses := Function.update p₁.uses p₁.made 1 }.trace := hstill₁
  refine wp_mono (Q := fun _ p' ↦ Still a.obj.fd info p'.trace) (E := fun _ _ ↦ False) ?_
    (fun _ p₂ hp₂ ↦ ?_) (fun _ _ hf ↦ hf.elim)
  · exact wp_replaced_still hsane h (by rw [hat.made, hat.uses]) hstill₂
  · rw [wp_bind, wp_onProc, Inference.wait, wp_bind]
    refine wp_mono (wp_checked_still hp₂ _ fun _ _ ↦ rfl) (fun _ p₃ hp₃ ↦ ?_)
      (fun _ _ he ↦ hkeep _ he)
    rw [wp_pure, wp_bind, wp_onProc, Inference.status, wp_bind]
    refine wp_mono (wp_checked_still hp₃ _ fun _ _ ↦ rfl) (fun reply p₄ hp₄ ↦ ?_)
      (fun _ _ he ↦ hkeep _ he)
    cases Status.ofWord (reply.data 0) with
    | none => exact hkeep _ hp₄
    | some status => exact (wp_ite _ _ _).2 ⟨fun _ ↦ hkeep _ hp₄, fun _ ↦ hkeep _ hp₄⟩

/-- Whatever the calls throw, the arena and the network stay where they are. -/
theorem wp_performAll_placed (hsane : env.kernel.Sane) (calls : List Call) {arenaSizeOfMB : Int64}
    {s : Session} (h : Owns s.this s.proc) (hc : Complete s.this)
    (hplaced : Placed s.this arenaSizeOfMB info s.proc) :
    wp (performAll env calls) (fun _ s' ↦ Placed s'.this arenaSizeOfMB info s'.proc)
      (fun _ _ ↦ True) s := by
  induction calls generalizing s with
  | nil => exact hplaced
  | cons call calls ih =>
    rw [performAll, wp_bind, attempt, wp_tryCatch, wp_bind]
    have hperform : wp (perform env call)
        (fun _ s' ↦ Placed s'.this arenaSizeOfMB info s'.proc)
        (fun _ s' ↦ Placed s'.this arenaSizeOfMB info s'.proc) s := by
      cases call with
      | setPmuCycleCounters counters cycleCounter =>
        rw [perform, setPmuCycleCounters]
        split
        · exact hplaced
        · exact ⟨hplaced.arenaBuffer, hplaced.network, hplaced.reported⟩
      | invoke timeoutNanos => exact wp_invoke_placed hsane timeoutNanos h hc hplaced
    refine wp_mono (wp_conj (wp_perform_owns hsane call h hc) hperform) (fun _ s' hs' ↦ ?_)
      (fun e s' hs' ↦ ?_)
    · rw [wp_pure, wp_bind]
      exact ih hs'.1.1 hs'.1.2 hs'.2
    · rw [if_neg (by rw [hs'.1.1]; exact Bool.false_ne_true), wp_pure, wp_bind]
      exact ih hs'.1.2.1 hs'.1.2.2 hs'.2

end

/-- The life of an interpreter up to a point, with what is known of it there. -/
theorem wp_live_placed (model device : String) (arenaSizeOfMB : Int64) (calls : List Call)
    (hsane : calls ≠ [] → env.kernel.Sane) :
    wp (live env model device arenaSizeOfMB calls)
      (fun r p ↦ ∃ info, Placed r.2 arenaSizeOfMB info p) (fun _ _ ↦ True) {} := by
  rw [live, wp_bind]
  cases calls with
  | nil =>
    refine wp_mono (wp_new_placed model device arenaSizeOfMB) (fun i p hi ↦ ?_) (fun _ _ he ↦ he)
    rw [wp_onObject]
    exact hi
  | cons call calls =>
    have hsane := hsane (List.cons_ne_nil _ _)
    refine wp_mono (wp_conj (wp_new hsane model device arenaSizeOfMB rfl)
      (wp_new_placed model device arenaSizeOfMB)) (fun i p hi ↦ ?_) (fun _ _ _ ↦ trivial)
    obtain ⟨⟨howns, hc⟩, info, hplaced⟩ := hi
    rw [wp_onObject]
    exact wp_mono (wp_performAll_placed hsane (call :: calls) howns hc hplaced)
      (fun _ _ hs ↦ ⟨info, hs⟩) (fun _ _ _ ↦ trivial)

/-- **When the pointers stay inside the arena.**  Of a constructed interpreter, after any calls, and
for every index: `typed_input_buffer` throws or hands out a tensor that lies in the mapping of the
arena exactly if the driver reported, for a tensor of that index, an offset below 2 GiB and an end
within the arena; and likewise `typed_output_buffer`. -/
theorem pointers_inside_iff (hkeeps : env.kernel.KeepsBuffers) (model device : String)
    (arenaSizeOfMB : Int64) (calls : List Call) (hsane : calls ≠ [] → env.kernel.Sane)
    {outcomes : List (Option Exception)} {i : Interpreter}
    (h : live env model device arenaSizeOfMB calls {} = .ok (outcomes, i) p) :
    ∃ info, Reported info p.trace ∧ ∀ index : Int32,
      (Inside (typedInputBuffer env) NetworkInfo.ifm info i p index
        ↔ ∀ k : Nat, index.toInt = k → k < (info NetworkInfo.ifm.count).toNat →
          Fits NetworkInfo.ifm info arenaSizeOfMB k)
      ∧ (Inside (typedOutputBuffer env) NetworkInfo.ofm info i p index
        ↔ ∀ k : Nat, index.toInt = k → k < (info NetworkInfo.ofm.count).toNat →
          Fits NetworkInfo.ofm info arenaSizeOfMB k) := by
  obtain ⟨info, hplaced⟩ := ok_of_wp (wp_live_placed model device arenaSizeOfMB calls hsane) h
  refine ⟨info, hplaced.reported, fun index ↦ ⟨?_, ?_⟩⟩
  · exact inside_iff hkeeps hplaced (fun _ _ _ _ ↦ rfl) index
  · exact inside_iff hkeeps hplaced (fun _ _ _ _ ↦ rfl) index

/-- A network compiled by Vela, with one input tensor. -/
def oneInput (offset size : UInt32) : Words := fun i ↦
  if i = NetworkInfo.isVela then 1
  else if i = NetworkInfo.ifm.count then 1
  else if i = NetworkInfo.ifm.size then size
  else if i = NetworkInfo.ifm.offset then offset
  else 0

theorem pointers_inside_iff_keeper :
    ∃ outcomes i p,
      live (Buffer.keeper (oneInput 4096 1024)) "model_vela.tflite" "/dev/ethosu0" 16 [] {}
        = .ok (outcomes, i) p
      ∧ ∃ info, Reported info p.trace ∧ ∀ index : Int32,
        (Inside (typedInputBuffer (Buffer.keeper (oneInput 4096 1024))) NetworkInfo.ifm info i p
            index
          ↔ ∀ k : Nat, index.toInt = k → k < (info NetworkInfo.ifm.count).toNat →
            Fits NetworkInfo.ifm info 16 k)
        ∧ (Inside (typedOutputBuffer (Buffer.keeper (oneInput 4096 1024))) NetworkInfo.ofm info i p
            index
          ↔ ∀ k : Nat, index.toInt = k → k < (info NetworkInfo.ofm.count).toNat →
            Fits NetworkInfo.ofm info 16 k) := by
  have hreturns : ∃ r p, live (Buffer.keeper (oneInput 4096 1024)) "model_vela.tflite"
      "/dev/ethosu0" 16 [] {} = .ok r p ∧ True := by decide +kernel
  obtain ⟨⟨outcomes, i⟩, p, hlive, -⟩ := hreturns
  exact ⟨outcomes, i, p, hlive, pointers_inside_iff (Buffer.keeper_keepsBuffers _) _ _ _ []
    (fun hne ↦ absurd rfl hne) hlive⟩

/-- An offset of 2 GiB is taken for a negative one, and a tensor behind the end of the arena is not
told from one in it; the pointers are handed out all the same. -/
theorem first_input_not_inside :
    (∃ r p, live (Buffer.keeper (oneInput 2147483648 1024)) "model_vela.tflite" "/dev/ethosu0" 16 []
        {} = .ok r p
      ∧ ¬ Inside (typedInputBuffer (Buffer.keeper (oneInput 2147483648 1024))) NetworkInfo.ifm
        (oneInput 2147483648 1024) r.2 p 0)
    ∧ ∃ r p, live (Buffer.keeper (oneInput 1048576 1024)) "model_vela.tflite" "/dev/ethosu0" 1 [] {}
        = .ok r p
      ∧ ¬ Inside (typedInputBuffer (Buffer.keeper (oneInput 1048576 1024))) NetworkInfo.ifm
        (oneInput 1048576 1024) r.2 p 0 := by
  decide +kernel

end Interpreter

end EthosU
