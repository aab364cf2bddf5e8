import EthosU.DriverLibrary.Interpreter
import EthosU.Holdings
import Mathlib.Data.List.Nodup

/-!
# What an interpreter owns

Every failure of a constructor or of `Invoke` unwinds a different prefix of half-built objects, some
of which close their descriptors by hand while others rely on the order in which members are
destroyed and on shared pointers.  This file proves that nothing is lost and nothing is closed
twice.

* `Interpreter.owned` is what an interpreter should hold, member by member, and `Owns` says that
  this is what the process does hold, that the descriptors are different ones, and that every
  shared object is counted as often as the members refer to it.
* `wp_destroy`: an interpreter that owns its members leaves nothing behind when it is destroyed,
  however many of them it has.
* `wp_init`, `wp_invoke_owns`: the constructor and `Invoke` keep `Owns`, whether they return or
  throw.
* `Interpreter.conserves` puts the life of an interpreter together.
-/

set_option autoImplicit false

namespace EthosU

open Wp

namespace Interpreter

/-- What the members of an interpreter hold, the latest first. -/
def owned (i : Interpreter) : List Holding :=
  (i.inference.map fun x ↦ inferenceHolding x.obj).toList
    ++ ((i.arenaBuffer.map fun b ↦ bufferHoldings i.device b.obj).getD []
    ++ ((i.network.map fun n ↦ networkHolding n.obj).toList
    ++ ((i.networkBuffer.map fun b ↦ bufferHoldings i.device b.obj).getD []
    ++ [⟨.descriptor i.device.fd, []⟩])))

/-- The descriptors of the members. -/
def descriptors (i : Interpreter) : List Fd :=
  i.inference.toList.map (fun x ↦ x.obj.fd) ++ (i.arenaBuffer.toList.map (fun b ↦ b.obj.fd)
    ++ (i.network.toList.map (fun n ↦ n.obj.fd)
    ++ (i.networkBuffer.toList.map (fun b ↦ b.obj.fd) ++ [i.device.fd])))

/-- The shared objects of the members. -/
def ids (i : Interpreter) : List Nat :=
  i.inference.toList.map Shared.id ++ (i.arenaBuffer.toList.map Shared.id
    ++ (i.network.toList.map Shared.id ++ i.networkBuffer.toList.map Shared.id))

theorem descriptor_mem_owned (i : Interpreter) (fd : Fd) :
    .descriptor fd ∈ Ledger.resources i.owned ↔ fd ∈ i.descriptors := by
  rw [owned, descriptors]
  cases i.inference <;> cases i.arenaBuffer <;> cases i.network <;> cases i.networkBuffer <;>
    simp [bufferHoldings, networkHolding, inferenceHolding]

/-- The interpreter owns its members. -/
structure Owns (i : Interpreter) (p : Process) : Prop where
  /-- What the members hold is all there is. -/
  held : holdings p.trace = some i.owned
  /-- No descriptor has two meanings. -/
  descriptors : i.descriptors.Nodup
  /-- No shared object is two members. -/
  ids : i.ids.Nodup
  /-- The shared objects have been made. -/
  below : ∀ id ∈ i.ids, id < p.made
  /-- The network shares the network buffer. -/
  networkBuffer : ∀ b, i.networkBuffer = some b → p.uses b.id = 1 + i.network.toList.length
  /-- The inference shares the network. -/
  network : ∀ n, i.network = some n → p.uses n.id = 1 + i.inference.toList.length
    ∧ n.obj.device = i.device ∧ n.obj.buffer = i.networkBuffer
  /-- The inference shares the arena. -/
  arenaBuffer : ∀ a, i.arenaBuffer = some a → p.uses a.id = 1 + i.inference.toList.length
  /-- Nobody shares the inference, which is an inference of this network in this arena. -/
  inference : ∀ x, i.inference = some x → p.uses x.id = 1 ∧ ∃ fd n a,
    i.network = some n ∧ i.arenaBuffer = some a ∧ x.obj = ⟨fd, n, [], [], a⟩

theorem Owns.at {i : Interpreter} {p : Process} (h : Owns i p) : At i.owned p.uses p.made p :=
  ⟨h.held, rfl, rfl⟩

variable {env : Env} {p : Process}

/-! ## Destruction -/

/-- Without an inference, the last descriptor is not the one the inference had. -/
theorem Owns.inference_fd {i : Interpreter} (h : Owns i p) {x : Shared Inference}
    (hx : i.inference = some x) :
    .descriptor x.obj.fd ∉ Ledger.resources { i with inference := none }.owned := by
  rw [descriptor_mem_owned]
  have hfds := h.descriptors
  rw [Interpreter.descriptors, hx] at hfds
  exact (List.nodup_cons.1 hfds).1

theorem wp_inferenceRelease (hsane : env.kernel.Sane) {i : Interpreter} (h : Owns i p)
    {E : Exception → Process → Prop} :
    wp (i.inference.forM (Inference.release env))
      (fun _ p' ↦ Owns { i with inference := none } p') E p := by
  obtain ⟨device, networkBuffer, arenaBuffer, network, inference, mb, counters, flag⟩ := i
  cases inference with
  | none => exact h
  | some x =>
  have hfd := h.inference_fd rfl
  obtain ⟨huses, fd, n, a, rfl, rfl, hx⟩ := h.inference x rfl
  obtain ⟨hn, hdevice, hbuffer⟩ := h.network n rfl
  have ha := h.arenaBuffer a rfl
  have hids : List.Nodup (x.id :: a.id :: n.id :: networkBuffer.toList.map Shared.id) := h.ids
  obtain ⟨hxa, hxn, han⟩ : x.id ≠ a.id ∧ x.id ≠ n.id ∧ a.id ≠ n.id := by
    simp only [List.nodup_cons, List.mem_cons, not_or] at hids
    exact ⟨hids.1.1, hids.1.2.1, hids.2.1.1⟩
  refine wp_release_last h.at x huses fun p₁ hp₁ ↦ ?_
  refine wp_destroyBoth ?_
  rw [wp_discard]
  refine wp_mono (wp_eclose hsane hp₁ (Ledger.step_release_head hp₁.wellSourced hfd)
    (E := fun _ _ ↦ False)) (fun _ p₂ hp₂ ↦ ?_) (fun _ _ hf ↦ hf)
  rw [hx]
  refine wp_mono (wp_releaseMembers hp₂ (Ne.symm han) ?_ ?_ (E := fun _ _ ↦ False))
    (fun _ p₃ hp₃ ↦ ?_) (fun _ _ hf ↦ hf)
  · rw [Function.update_of_ne (Ne.symm hxn), hn]
    exact Nat.succ_ne_self 1
  · rw [Function.update_of_ne (Ne.symm hxa), ha]
    exact Nat.succ_ne_self 1
  · refine ⟨hp₃.held, (List.nodup_cons.1 h.descriptors).2, (List.nodup_cons.1 hids).2,
      fun id hid ↦ ?_, fun b hb ↦ ?_, fun n' hn' ↦ ?_, fun a' ha' ↦ ?_, fun _ hx' ↦ by cases hx'⟩
    · rw [hp₃.made]
      exact h.below id (List.mem_cons_of_mem _ hid)
    · cases hb
      obtain ⟨hbx, hba, hbn⟩ : b.id ≠ x.id ∧ b.id ≠ a.id ∧ b.id ≠ n.id := by
        simp only [List.nodup_cons, Option.toList_some, List.map_cons, List.mem_cons,
          not_or] at hids
        exact ⟨Ne.symm hids.1.2.2.1, Ne.symm hids.2.1.2.1, Ne.symm hids.2.2.1.1⟩
      rw [hp₃.uses, unshares_of_ne hbn hba, Function.update_of_ne hbx]
      exact h.networkBuffer b rfl
    · cases hn'
      rw [hp₃.uses, unshares_network (Ne.symm han), Function.update_of_ne (Ne.symm hxn), hn]
      exact ⟨rfl, hdevice, hbuffer⟩
    · cases ha'
      rw [hp₃.uses, unshares_arenaBuffer (Ne.symm han), Function.update_of_ne (Ne.symm hxa), ha]
      rfl

/-- Closing the network, which lies below the arena. -/
theorem Owns.step_network {i : Interpreter} (h : Owns i p) (hinference : i.inference = none)
    {n : Shared Network} (hn : i.network = some n) :
    Ledger.step i.owned (.release (.descriptor n.obj.fd))
      = some { i with network := none }.owned := by
  obtain ⟨device, networkBuffer, arenaBuffer, network, inference, mb, counters, flag⟩ := i
  subst hinference hn
  have hfds := h.descriptors
  have hsourced := h.at.wellSourced
  refine Ledger.step_release_below
    (a := (arenaBuffer.map fun b ↦ bufferHoldings device b.obj).getD [])
    (b := (networkBuffer.map fun b ↦ bufferHoldings device b.obj).getD [] ++ _) hsourced
    ?_ ?_ ?_ <;>
    cases arenaBuffer <;> cases networkBuffer <;>
    simp [Interpreter.descriptors, bufferHoldings, eq_comm] at hfds ⊢ <;> simp [hfds]

/-- Without an inference, the shared objects of the members differ. -/
theorem Owns.network_ids {i : Interpreter} (h : Owns i p) (hinference : i.inference = none)
    {n : Shared Network} (hn : i.network = some n) :
    (∀ a, i.arenaBuffer = some a → a.id ≠ n.id) ∧ ∀ b, i.networkBuffer = some b →
      n.id ≠ b.id ∧ ∀ a, i.arenaBuffer = some a → a.id ≠ b.id := by
  obtain ⟨device, networkBuffer, arenaBuffer, network, inference, mb, counters, flag⟩ := i
  subst hinference hn
  have hids := h.ids
  cases arenaBuffer <;> cases networkBuffer <;> simp [Interpreter.ids] at hids ⊢
  · exact hids
  · exact hids
  · exact ⟨hids.1.1, hids.2, hids.1.2⟩

/-- The network is gone, and nothing else. -/
theorem Owns.removeNetwork {i : Interpreter} (h : Owns i p) (hinference : i.inference = none)
    {p' : Process} (hheld : holdings p'.trace = some { i with network := none }.owned)
    (hmade : p'.made = p.made) (hbuffer : ∀ b, i.networkBuffer = some b → p'.uses b.id = 1)
    (harena : ∀ a, i.arenaBuffer = some a → p'.uses a.id = p.uses a.id) :
    Owns { i with network := none } p' := by
  obtain ⟨device, networkBuffer, arenaBuffer, network, inference, mb, counters, flag⟩ := i
  subst hinference
  refine ⟨hheld, ?_, ?_, fun id hid ↦ ?_, hbuffer, fun _ hn ↦ (by cases hn), fun a ha ↦ ?_,
    fun _ hx ↦ (by cases hx)⟩
  · exact h.descriptors.sublist (by simp [Interpreter.descriptors])
  · exact h.ids.sublist (by simp [Interpreter.ids])
  · rw [hmade]
    exact h.below id (List.Sublist.subset (by simp [Interpreter.ids]) hid)
  · rw [harena a ha]
    exact h.arenaBuffer a ha

theorem wp_networkRelease (hsane : env.kernel.Sane) {i : Interpreter} (h : Owns i p)
    (hinference : i.inference = none) {E : Exception → Process → Prop} :
    wp (i.network.forM (Inference.releaseNetwork env))
      (fun _ p' ↦ Owns { i with network := none } p') E p := by
  obtain ⟨device, networkBuffer, arenaBuffer, network, inference, mb, counters, flag⟩ := i
  subst hinference
  cases network with
  | none => exact h
  | some n =>
  obtain ⟨huses, -, hbuffer⟩ := h.network n rfl
  obtain ⟨harena, hids⟩ := h.network_ids rfl rfl
  have hclose := h.step_network rfl rfl
  refine wp_release_last h.at n huses fun p₁ hp₁ ↦ ?_
  refine wp_destroyBoth ?_
  rw [wp_discard]
  refine wp_mono (wp_eclose hsane hp₁ hclose (E := fun _ _ ↦ False)) (fun _ p₂ hp₂ ↦ ?_)
    (fun _ _ hf ↦ hf)
  rw [hbuffer]
  cases networkBuffer with
  | none =>
    refine h.removeNetwork rfl hp₂.held hp₂.made (fun _ hb ↦ (by cases hb)) fun a ha ↦ ?_
    rw [hp₂.uses, Function.update_of_ne (harena a ha)]
  | some b =>
    -- the network buffer is left to the interpreter alone
    obtain ⟨hnb, hab⟩ := hids b rfl
    have huses := h.networkBuffer b rfl
    refine wp_mono (wp_release_shared hp₂ b ?_ (Buffer.destroy env) (E := fun _ _ ↦ False))
      (fun _ p₃ hp₃ ↦ ?_) (fun _ _ hf ↦ hf)
    · rw [Function.update_of_ne (Ne.symm hnb), huses]
      exact Nat.succ_ne_self 1
    · refine h.removeNetwork rfl hp₃.held hp₃.made (fun b' hb ↦ ?_) fun a ha ↦ ?_
      · cases hb
        rw [hp₃.uses, Function.update_self, Function.update_of_ne (Ne.symm hnb), huses]
        rfl
      · rw [hp₃.uses, Function.update_of_ne (hab a ha), Function.update_of_ne (harena a ha)]

theorem wp_arenaRelease (hsane : env.kernel.Sane) {i : Interpreter} (h : Owns i p)
    (hinference : i.inference = none) (hnetwork : i.network = none)
    {E : Exception → Process → Prop} :
    wp (i.arenaBuffer.forM (Buffer.release env))
      (fun _ p' ↦ Owns { i with arenaBuffer := none } p') E p := by
  obtain ⟨device, networkBuffer, arenaBuffer, network, inference, mb, counters, flag⟩ := i
  subst hinference hnetwork
  cases arenaBuffer with
  | none => exact h
  | some a =>
  have hfd : .descriptor a.obj.fd ∉ Ledger.resources (owned ⟨device, networkBuffer, none, none,
      none, mb, counters, flag⟩) := by
    rw [descriptor_mem_owned]
    exact (List.nodup_cons.1 h.descriptors).1
  refine wp_mono (wp_bufferRelease_last hsane h.at (h.arenaBuffer a rfl) hfd
    (E := fun _ _ ↦ False)) (fun _ p₁ hp₁ ↦ ?_) (fun _ _ hf ↦ hf.elim)
  refine ⟨hp₁.held, (List.nodup_cons.1 h.descriptors).2, (List.nodup_cons.1 h.ids).2,
    fun id hid ↦ ?_, fun b hb ↦ ?_, fun _ hn ↦ (by cases hn), fun _ ha ↦ (by cases ha),
    fun _ hx ↦ (by cases hx)⟩
  · rw [hp₁.made]
    exact h.below id (List.mem_cons_of_mem _ hid)
  · cases hb
    have hba : b.id ≠ a.id := fun heq ↦ (List.nodup_cons.1 h.ids).1 (by simp [heq])
    rw [hp₁.uses, Function.update_of_ne hba]
    exact h.networkBuffer b rfl

theorem wp_networkBufferRelease (hsane : env.kernel.Sane) {i : Interpreter} (h : Owns i p)
    (hinference : i.inference = none) (hnetwork : i.network = none)
    (harena : i.arenaBuffer = none) {E : Exception → Process → Prop} :
    wp (i.networkBuffer.forM (Buffer.release env))
      (fun _ p' ↦ Owns { i with networkBuffer := none } p') E p := by
  obtain ⟨device, networkBuffer, arenaBuffer, network, inference, mb, counters, flag⟩ := i
  subst hinference hnetwork harena
  cases networkBuffer with
  | none => exact h
  | some b =>
  have hfd : .descriptor b.obj.fd ∉ Ledger.resources (owned ⟨device, none, none, none, none, mb,
      counters, flag⟩) := by
    rw [descriptor_mem_owned]
    exact (List.nodup_cons.1 h.descriptors).1
  refine wp_mono (wp_bufferRelease_last hsane h.at (h.networkBuffer b rfl) hfd
    (E := fun _ _ ↦ False)) (fun _ p₁ hp₁ ↦ ?_) (fun _ _ hf ↦ hf.elim)
  exact ⟨hp₁.held, (List.nodup_cons.1 h.descriptors).2, List.nodup_nil,
    fun _ hid ↦ (by cases hid), fun _ hb ↦ (by cases hb), fun _ hn ↦ (by cases hn),
    fun _ ha ↦ (by cases ha), fun _ hx ↦ (by cases hx)⟩

/-- **An interpreter that owns its members leaves nothing behind**, however many it has. -/
theorem wp_destroy (hsane : env.kernel.Sane) {i : Interpreter} (h : Owns i p)
    {E : Exception → Process → Prop} :
    wp (i.destroy env) (fun _ p' ↦ holdings p'.trace = some []) E p := by
  rw [destroy]
  refine wp_destroyBoth (wp_mono (wp_inferenceRelease hsane h (E := fun _ _ ↦ False))
    (fun _ p₁ h₁ ↦ ?_) (fun _ _ hf ↦ hf))
  refine wp_destroyBoth (wp_mono (wp_networkRelease hsane h₁ rfl (E := fun _ _ ↦ False))
    (fun _ p₂ h₂ ↦ ?_) (fun _ _ hf ↦ hf))
  refine wp_destroyBoth (wp_mono (wp_arenaRelease hsane h₂ rfl rfl (E := fun _ _ ↦ False))
    (fun _ p₃ h₃ ↦ ?_) (fun _ _ hf ↦ hf))
  refine wp_destroyBoth (wp_mono (wp_networkBufferRelease hsane h₃ rfl rfl rfl
    (E := fun _ _ ↦ False)) (fun _ p₄ h₄ ↦ ?_) (fun _ _ hf ↦ hf))
  rw [Device.destroy, wp_discard]
  have hclose := Ledger.step_release_head h₄.at.wellSourced List.not_mem_nil
  exact wp_mono (wp_eclose hsane h₄.at hclose (E := fun _ _ ↦ False)) (fun _ _ h₅ ↦ h₅.held)
    (fun _ _ hf ↦ hf.elim)

/-! ## Construction -/

/-- What the process holds and counts is all that matters. -/
theorem Owns.of_at {i : Interpreter} (h : Owns i p) {p' : Process}
    (hp' : At i.owned p.uses p.made p') : Owns i p' := by
  refine ⟨hp'.held, h.descriptors, h.ids, ?_, ?_, ?_, ?_, ?_⟩
  · rw [hp'.made]
    exact h.below
  · rw [hp'.uses]
    exact h.networkBuffer
  · rw [hp'.uses]
    exact h.network
  · rw [hp'.uses]
    exact h.arenaBuffer
  · rw [hp'.uses]
    exact h.inference

theorem Owns.loaded {i : Interpreter} (h : Owns i p) (load : ModelLoad) :
    Owns i (p.loaded load) :=
  h.of_at ⟨h.held, rfl, rfl⟩

/-- A system call that gives and takes nothing. -/
theorem wp_quiet_owns {i : Interpreter} (h : Owns i p) (msg : String) {req : Request}
    (hrevokes : req.revokes = none) (hgrants : ∀ reply, req.grants reply = none) :
    wp (checked env msg req) (fun _ p' ↦ Owns i p') (fun e p' ↦ e.fatal = false ∧ Owns i p') p :=
  wp_mono (wp_quiet h.at msg hrevokes hgrants) (fun _ _ hp' ↦ h.of_at hp')
    (fun _ _ hp' ↦ ⟨hp'.1, h.of_at hp'.2⟩)

theorem device_mem_owned (i : Interpreter) :
    .descriptor i.device.fd ∈ Ledger.resources i.owned := by
  rw [descriptor_mem_owned, Interpreter.descriptors]
  simp

/-- A buffer that is about to become a member. -/
theorem wp_makeBuffer (hsane : env.kernel.Sane) {i : Interpreter} (h : Owns i p)
    (capacity : UInt64) :
    wp (Buffer.new env i.device capacity >>= makeShared)
      (fun b p' ↦ b.id = p.made ∧ b.obj.fd ∉ i.descriptors
        ∧ At (bufferHoldings i.device b.obj ++ i.owned) (Function.update p.uses p.made 1)
          (p.made + 1) p')
      (fun e p' ↦ e.fatal = false ∧ Owns i p') p := by
  rw [wp_bind]
  refine wp_mono (wp_bufferNew hsane h.at i.device capacity (device_mem_owned i))
    (fun b p₁ hp₁ ↦ ?_) (fun _ _ hp₁ ↦ ⟨hp₁.1, h.of_at hp₁.2⟩)
  refine wp_mono (wp_makeShared_at hp₁.2 b (E := fun _ _ ↦ False)) (fun s p₂ hp₂ ↦ ?_)
    (fun _ _ hf ↦ hf.elim)
  obtain ⟨rfl, hp₂⟩ := hp₂
  exact ⟨rfl, fun hmem ↦ hp₁.1 ((descriptor_mem_owned i _).2 hmem), hp₂⟩

/-- An object that does not exist yet is no member. -/
theorem Owns.made_not_mem {i : Interpreter} (h : Owns i p) : p.made ∉ i.ids :=
  fun hmem ↦ Nat.lt_irrefl _ (h.below _ hmem)

private theorem below_cons {i : Interpreter} (h : Owns i p) {p' : Process}
    (hmade : p'.made = p.made + 1) : ∀ id ∈ p.made :: i.ids, id < p'.made := by
  rw [hmade]
  exact List.forall_mem_cons.2 ⟨Nat.lt_succ_self _, fun id hid ↦ Nat.lt_succ_of_lt (h.below id hid)⟩

theorem Owns.addNetworkBuffer {device : Device} {mb : Int64} {counters : List UInt8} {flag : Bool}
    (h : Owns ⟨device, none, none, none, none, mb, counters, flag⟩ p) {b : Shared Buffer}
    {p' : Process} (hid : b.id = p.made) (hfd : b.obj.fd ∉ [device.fd])
    (hp' : At (bufferHoldings device b.obj ++ [⟨.descriptor device.fd, []⟩])
      (Function.update p.uses p.made 1) (p.made + 1) p') :
    Owns ⟨device, some b, none, none, none, mb, counters, flag⟩ p' := by
  refine ⟨hp'.held, List.nodup_cons.2 ⟨hfd, List.nodup_singleton _⟩, List.nodup_singleton _, ?_,
    fun b' hb ↦ ?_, fun _ hn ↦ (by cases hn), fun _ ha ↦ (by cases ha), fun _ hx ↦ (by cases hx)⟩
  · have hbelow := below_cons h hp'.made
    rw [← hid] at hbelow
    exact hbelow
  · cases hb
    rw [hp'.uses, hid, Function.update_self]
    rfl

theorem Owns.addNetwork {device : Device} {b : Shared Buffer} {mb : Int64} {counters : List UInt8}
    {flag : Bool} (h : Owns ⟨device, some b, none, none, none, mb, counters, flag⟩ p)
    {n : Network} {p' : Process} (hfd : n.fd ∉ [b.obj.fd, device.fd]) (hdevice : n.device = device)
    (hbuffer : n.buffer = some b)
    (hp' : At (networkHolding n :: owned ⟨device, some b, none, none, none, mb, counters, flag⟩)
      (Function.update (Function.update p.uses b.id (p.uses b.id + 1)) p.made 1) (p.made + 1) p') :
    Owns ⟨device, some b, none, some ⟨p.made, n⟩, none, mb, counters, flag⟩ p' := by
  have hne : b.id ≠ p.made := fun heq ↦ h.made_not_mem (heq ▸ List.mem_singleton_self _)
  refine ⟨hp'.held, List.nodup_cons.2 ⟨hfd, h.descriptors⟩,
    List.nodup_cons.2 ⟨h.made_not_mem, h.ids⟩, below_cons h hp'.made, fun b' hb ↦ ?_,
    fun n' hn ↦ ?_, fun _ ha ↦ (by cases ha), fun _ hx ↦ (by cases hx)⟩
  · cases hb
    rw [hp'.uses, Function.update_of_ne hne, Function.update_self, h.networkBuffer b rfl]
    rfl
  · cases hn
    rw [hp'.uses, Function.update_self]
    exact ⟨rfl, hdevice, hbuffer⟩

theorem Owns.addArenaBuffer {device : Device} {b : Shared Buffer} {n : Shared Network} {mb : Int64}
    {counters : List UInt8} {flag : Bool}
    (h : Owns ⟨device, some b, none, some n, none, mb, counters, flag⟩ p) {a : Shared Buffer}
    {p' : Process} (hid : a.id = p.made)
    (hfd : a.obj.fd
      ∉ Interpreter.descriptors ⟨device, some b, none, some n, none, mb, counters, flag⟩)
    (hp' : At (bufferHoldings device a.obj
        ++ owned ⟨device, some b, none, some n, none, mb, counters, flag⟩)
      (Function.update p.uses p.made 1) (p.made + 1) p') :
    Owns ⟨device, some b, some a, some n, none, mb, counters, flag⟩ p' := by
  have hmade := h.made_not_mem
  simp only [Interpreter.ids, Option.toList_some, Option.toList_none, List.map_cons, List.map_nil,
    List.nil_append, List.cons_append, List.mem_cons, List.not_mem_nil, or_false, not_or] at hmade
  obtain ⟨hn, hb⟩ : n.id ≠ p.made ∧ b.id ≠ p.made := ⟨Ne.symm hmade.1, Ne.symm hmade.2⟩
  refine ⟨hp'.held, List.nodup_cons.2 ⟨hfd, h.descriptors⟩,
    List.nodup_cons.2 ⟨hid ▸ h.made_not_mem, h.ids⟩, ?_, fun b' hb' ↦ ?_, fun n' hn' ↦ ?_,
    fun a' ha ↦ ?_, fun _ hx ↦ (by cases hx)⟩
  · have hbelow := below_cons h hp'.made
    rw [← hid] at hbelow
    exact hbelow
  · cases hb'
    rw [hp'.uses, Function.update_of_ne hb]
    exact h.networkBuffer b rfl
  · cases hn'
    rw [hp'.uses, Function.update_of_ne hn]
    exact h.network n rfl
  · cases ha
    rw [hp'.uses, hid, Function.update_self]
    rfl

/-- The interpreter has all the members a constructed one has. -/
structure Complete (i : Interpreter) : Prop where
  networkBuffer : i.networkBuffer.isSome
  arenaBuffer : i.arenaBuffer.isSome
  network : i.network.isSome

theorem wp_init (hsane : env.kernel.Sane) (model : String) {device : Device} {mb : Int64}
    {counters : List UInt8} {flag : Bool}
    (h : Owns ⟨device, none, none, none, none, mb, counters, flag⟩ p) :
    wp (init env model) (fun _ s ↦ Owns s.this s.proc ∧ Complete s.this)
      (fun e s ↦ e.fatal = false ∧ Owns s.this s.proc)
      ⟨p, ⟨device, none, none, none, none, mb, counters, flag⟩⟩ := by
  rw [init, wp_bind, wp_get, wp_bind, wp_onProc, Device.capabilities, wp_discard]
  refine wp_mono (wp_quiet_owns h _ rfl fun _ ↦ rfl) (fun _ p₁ h₁ ↦ ?_) (fun _ _ he ↦ he)
  rw [wp_bind, wp_onProc, openModel]
  by_cases hopens : (env.files model).opens = true
  · rw [if_pos hopens, wp_pure, wp_bind, wp_onProc]
    refine wp_mono (wp_makeBuffer hsane h₁ _) (fun b p₂ hp₂ ↦ ?_) (fun _ _ he ↦ he)
    have h₂ := h₁.addNetworkBuffer hp₂.1 hp₂.2.1 hp₂.2.2
    rw [wp_bind, wp_modify, wp_bind, wp_onProc, Buffer.resize, wp_discard]
    refine wp_mono (wp_quiet_owns h₂ _ rfl fun _ ↦ rfl) (fun _ p₃ h₃ ↦ ?_) (fun _ _ he ↦ he)
    rw [wp_bind, wp_onProc, wp_bind, Buffer.data, wp_bind, Buffer.offset, wp_bind]
    refine wp_mono (wp_quiet_owns h₃ _ rfl fun _ ↦ rfl) (fun _ p₄ h₄ ↦ ?_) (fun _ _ he ↦ he)
    rw [wp_pure, wp_pure, File.read, wp_modify, wp_bind, wp_onProc, wp_bind]
    have hshared : p₄.uses b.id ≠ 0 := by
      rw [h₄.networkBuffer b rfl]
      exact Nat.succ_ne_zero 0
    -- reading the model changes nothing but the memory
    refine wp_mono (wp_networkOfBuffer hsane (h₄.loaded _).at device b (device_mem_owned _)
      ((descriptor_mem_owned _ _).2 List.mem_cons_self) hshared) (fun n p₆ hp₆ ↦ ?_)
      (fun _ _ he ↦ ⟨he.1, h₄.of_at he.2⟩)
    obtain ⟨hfd, hdevice, hbuffer, hp₆⟩ := hp₆
    refine wp_mono (wp_makeShared_at hp₆ n (E := fun _ _ ↦ False)) (fun s p₇ hp₇ ↦ ?_)
      (fun _ _ hf ↦ hf.elim)
    obtain ⟨rfl, hp₇⟩ := hp₇
    rw [descriptor_mem_owned] at hfd
    have h₇ := h₄.addNetwork hfd hdevice hbuffer hp₇
    rw [wp_bind, wp_modify]
    by_cases hvela : (!n.isVelaModel) = true
    · rw [if_pos hvela]
      exact ⟨rfl, h₇⟩
    · rw [if_neg hvela, wp_bind, wp_onProc]
      refine wp_mono (wp_makeBuffer hsane h₇ _) (fun a p₈ hp₈ ↦ ?_) (fun _ _ he ↦ he)
      have h₈ := h₇.addArenaBuffer hp₈.1 hp₈.2.1 hp₈.2.2
      rw [wp_bind, wp_modify, wp_onProc, Buffer.resize, wp_discard]
      exact wp_mono (wp_quiet_owns h₈ _ rfl fun _ ↦ rfl)
        (fun _ p₉ h₉ ↦ ⟨h₉, rfl, rfl, rfl⟩) (fun _ _ he ↦ he)
  · rw [if_neg hopens, wp_throw]
    exact ⟨rfl, h₁⟩

/-- The constructor returns an interpreter that owns all its members, or leaves nothing behind. -/
theorem wp_new (hsane : env.kernel.Sane) (model device : String) (arenaSizeOfMB : Int64)
    (h : holdings p.trace = some []) :
    wp (new env model device arenaSizeOfMB) (fun i p' ↦ Owns i p' ∧ Complete i)
      (fun e p' ↦ e.fatal = false ∧ holdings p'.trace = some []) p := by
  have hp : At [] p.uses p.made p := ⟨h, rfl, rfl⟩
  rw [new, wp_bind, Device.new, wp_bind, eopen]
  refine wp_mono (wp_acquire_descriptor hsane hp _ rfl (fun _ ↦ rfl) fun _ hs ↦ absurd hs
    List.not_mem_nil) (fun opened p₁ hp₁ ↦ ?_) (fun _ _ hp₁ ↦ ⟨hp₁.1, hp₁.2.held⟩)
  have howns : Owns (blank env p₁ ⟨opened.ret⟩ arenaSizeOfMB) p₁ :=
    ⟨hp₁.2.held, List.nodup_singleton _, List.nodup_nil, fun _ hid ↦ (by cases hid),
      fun _ hb ↦ (by cases hb), fun _ hn ↦ (by cases hn), fun _ ha ↦ (by cases ha),
      fun _ hx ↦ (by cases hx)⟩
  rw [wp_pure, wp_bind, wp_get, wp_bind, wp_onObject, unwinding, wp_onThrow]
  refine wp_mono (wp_init hsane model howns) (fun _ s hs ↦ hs) (fun e s hs ↦ ?_)
  rw [if_pos (by rw [hs.1]; rfl), wp_bind, wp_get, wp_onProc]
  exact wp_mono (wp_destroy hsane hs.2 (E := fun _ _ ↦ False)) (fun _ _ hp' ↦ ⟨hs.1, hp'⟩)
    (fun _ _ hf ↦ hf.elim)

/-! ## Invocation -/

section

variable {device : Device} {b a : Shared Buffer} {n : Shared Network} {mb : Int64}
  {counters : List UInt8} {flag : Bool}

/-- A new inference becomes the member where there was none. -/
theorem Owns.addInference
    (h : Owns ⟨device, some b, some a, some n, none, mb, counters, flag⟩ p) {fd : Fd}
    (hfd : fd ∉ [a.obj.fd, n.obj.fd, b.obj.fd, device.fd]) {p' : Process}
    (hp' : At (inferenceHolding ⟨fd, n, [], [], a⟩
        :: owned ⟨device, some b, some a, some n, none, mb, counters, flag⟩)
      (Function.update (shares n a p.uses) p.made 1) (p.made + 1) p') :
    Owns ⟨device, some b, some a, some n, some ⟨p.made, ⟨fd, n, [], [], a⟩⟩, mb, counters, flag⟩
      p' := by
  have hids : List.Nodup [a.id, n.id, b.id] := h.ids
  have hmade : p.made ∉ [a.id, n.id, b.id] := h.made_not_mem
  simp only [List.nodup_cons, List.mem_cons, List.not_mem_nil, or_false, not_or] at hids hmade
  obtain ⟨⟨han, hab⟩, hnb, -⟩ := hids
  obtain ⟨hma, hmn, hmb⟩ := hmade
  refine ⟨hp'.held, List.nodup_cons.2 ⟨hfd, h.descriptors⟩,
    List.nodup_cons.2 ⟨h.made_not_mem, h.ids⟩, below_cons h hp'.made, fun b' hb ↦ ?_,
    fun n' hn ↦ ?_, fun a' ha ↦ ?_, fun x hx ↦ ?_⟩
  · cases hb
    rw [hp'.uses, Function.update_of_ne (Ne.symm hmb), shares_of_ne (Ne.symm hnb) (Ne.symm hab)]
    exact h.networkBuffer b rfl
  · cases hn
    rw [hp'.uses, Function.update_of_ne (Ne.symm hmn), shares_network (Ne.symm han),
      (h.network n rfl).1]
    exact ⟨rfl, (h.network n rfl).2⟩
  · cases ha
    rw [hp'.uses, Function.update_of_ne (Ne.symm hma), shares_arenaBuffer (Ne.symm han),
      h.arenaBuffer a rfl]
    rfl
  · cases hx
    rw [hp'.uses, Function.update_self]
    exact ⟨rfl, fd, n, a, rfl, rfl, rfl⟩

variable {y : Shared Inference}

theorem Owns.ids_ne (h : Owns ⟨device, some b, some a, some n, some y, mb, counters, flag⟩ p) :
    (y.id ≠ a.id ∧ y.id ≠ n.id ∧ y.id ≠ b.id) ∧ (a.id ≠ n.id ∧ a.id ≠ b.id) ∧ n.id ≠ b.id := by
  have hids : List.Nodup [y.id, a.id, n.id, b.id] := h.ids
  simp only [List.nodup_cons, List.mem_cons, List.not_mem_nil, or_false, not_or] at hids
  exact ⟨hids.1, hids.2.1, hids.2.2.1⟩

/-- The next object to be made is none of them. -/
theorem Owns.made_ne (h : Owns ⟨device, some b, some a, some n, some y, mb, counters, flag⟩ p) :
    p.made ≠ y.id ∧ p.made ≠ a.id ∧ p.made ≠ n.id ∧ p.made ≠ b.id := by
  have hmade : p.made ∉ [y.id, a.id, n.id, b.id] := h.made_not_mem
  simpa only [List.mem_cons, List.not_mem_nil, or_false, not_or] using hmade

/-- The new inference has been made, and the old one has released what it held. -/
theorem Owns.replaceInference
    (h : Owns ⟨device, some b, some a, some n, some y, mb, counters, flag⟩ p) {fd : Fd}
    (hfd : fd ∉ [a.obj.fd, n.obj.fd, b.obj.fd, device.fd]) {p' : Process}
    (hp' : At (inferenceHolding ⟨fd, n, [], [], a⟩
        :: owned ⟨device, some b, some a, some n, none, mb, counters, flag⟩)
      (unshares n a (Function.update (Function.update (shares n a p.uses) p.made 1) y.id 0))
      (p.made + 1) p') :
    Owns ⟨device, some b, some a, some n, some ⟨p.made, ⟨fd, n, [], [], a⟩⟩, mb, counters, flag⟩
      p' := by
  obtain ⟨⟨hya, hyn, hyb⟩, ⟨han, hab⟩, hnb⟩ := h.ids_ne
  obtain ⟨hmy, hma, hmn, hmb⟩ := h.made_ne
  have hstays : ∀ id, id ≠ y.id → id ≠ p.made → id ≠ n.id → id ≠ a.id →
      p'.uses id = p.uses id := by
    intro id hidy hidm hidn hida
    rw [hp'.uses, unshares_of_ne hidn hida, Function.update_of_ne hidy,
      Function.update_of_ne hidm, shares_of_ne hidn hida]
  refine ⟨hp'.held, List.nodup_cons.2 ⟨hfd, (List.nodup_cons.1 h.descriptors).2⟩,
    List.nodup_cons.2 ⟨fun hmem ↦ h.made_not_mem (List.mem_cons_of_mem _ hmem),
      (List.nodup_cons.1 h.ids).2⟩, fun id hid ↦ ?_, fun b' hb ↦ ?_, fun n' hn ↦ ?_,
    fun a' ha ↦ ?_, fun x hx ↦ ?_⟩
  · rcases List.mem_cons.1 hid with rfl | hid
    · exact below_cons h hp'.made _ List.mem_cons_self
    · exact below_cons h hp'.made id (List.mem_cons_of_mem _ (List.mem_cons_of_mem _ hid))
  · cases hb
    rw [hstays b.id (Ne.symm hyb) (Ne.symm hmb) (Ne.symm hnb) (Ne.symm hab)]
    exact h.networkBuffer b rfl
  · cases hn
    rw [hp'.uses, unshares_network (Ne.symm han), Function.update_of_ne (Ne.symm hyn),
      Function.update_of_ne (Ne.symm hmn), shares_network (Ne.symm han), Nat.add_sub_cancel]
    exact h.network n rfl
  · cases ha
    rw [hp'.uses, unshares_arenaBuffer (Ne.symm han), Function.update_of_ne (Ne.symm hya),
      Function.update_of_ne (Ne.symm hma), shares_arenaBuffer (Ne.symm han), Nat.add_sub_cancel]
    exact h.arenaBuffer a rfl
  · cases hx
    rw [hp'.uses, unshares_of_ne hmn hma, Function.update_of_ne hmy, Function.update_self]
    exact ⟨rfl, fd, n, a, rfl, rfl, rfl⟩

/-- A new inference becomes the member in place of another one, which is destroyed while the new one
is alive. -/
theorem wp_replaceInference (hsane : env.kernel.Sane)
    (h : Owns ⟨device, some b, some a, some n, some y, mb, counters, flag⟩ p) {fd : Fd}
    (hfd : fd ∉ [y.obj.fd, a.obj.fd, n.obj.fd, b.obj.fd, device.fd]) {p' : Process}
    (hp' : At (inferenceHolding ⟨fd, n, [], [], a⟩
        :: owned ⟨device, some b, some a, some n, some y, mb, counters, flag⟩)
      (Function.update (shares n a p.uses) p.made 1) (p.made + 1) p') :
    wp (Inference.release env y)
      (fun _ p'' ↦ Owns ⟨device, some b, some a, some n, some ⟨p.made, ⟨fd, n, [], [], a⟩⟩, mb,
        counters, flag⟩ p'') (fun _ _ ↦ False) p' := by
  have hfds : List.Nodup [y.obj.fd, a.obj.fd, n.obj.fd, b.obj.fd, device.fd] := h.descriptors
  obtain ⟨hfdy, hfdrest⟩ := not_or.1 (mt List.mem_cons.2 hfd)
  simp only [List.nodup_cons, List.mem_cons, List.not_mem_nil, or_false, not_or] at hfds
  obtain ⟨⟨hyfda, hyfdn, -⟩, -⟩ := hfds
  obtain ⟨⟨hya, hyn, -⟩, ⟨han, -⟩, -⟩ := h.ids_ne
  obtain ⟨hmy, hma, hmn, -⟩ := h.made_ne
  obtain ⟨hy, fd', n', a', hn', ha', hobj⟩ := h.inference y rfl
  cases hn'
  cases ha'
  have huses : Function.update (shares n a p.uses) p.made 1 y.id = 1 := by
    rw [Function.update_of_ne (Ne.symm hmy), shares_of_ne hyn hya]
    exact hy
  refine wp_release_last hp' y huses fun p₁ hp₁ ↦ ?_
  have hclose : Ledger.step (inferenceHolding ⟨fd, n, [], [], a⟩
      :: owned ⟨device, some b, some a, some n, some y, mb, counters, flag⟩)
      (.release (.descriptor y.obj.fd))
      = some (inferenceHolding ⟨fd, n, [], [], a⟩
        :: owned ⟨device, some b, some a, some n, none, mb, counters, flag⟩) := by
    refine Ledger.step_release_below (a := [inferenceHolding ⟨fd, n, [], [], a⟩])
      hp'.wellSourced ?_ ?_ (h.inference_fd rfl)
    · simpa [inferenceHolding] using Ne.symm hfdy
    · simpa [inferenceHolding] using ⟨hyfdn, hyfda⟩
  refine wp_destroyBoth ?_
  rw [wp_discard]
  refine wp_mono (wp_eclose hsane hp₁ hclose (E := fun _ _ ↦ False)) (fun _ p₂ hp₂ ↦ ?_)
    (fun _ _ hf ↦ hf)
  rw [hobj]
  refine wp_mono (wp_releaseMembers hp₂ (Ne.symm han) ?_ ?_ (E := fun _ _ ↦ False))
    (fun _ p₃ hp₃ ↦ h.replaceInference hfdrest hp₃) (fun _ _ hf ↦ hf)
  · rw [Function.update_of_ne (Ne.symm hyn), Function.update_of_ne (Ne.symm hmn),
      shares_network (Ne.symm han), (h.network n rfl).1]
    exact Nat.succ_succ_ne_one 1
  · rw [Function.update_of_ne (Ne.symm hya), Function.update_of_ne (Ne.symm hma),
      shares_arenaBuffer (Ne.symm han), h.arenaBuffer a rfl]
    exact Nat.succ_succ_ne_one 1

end

/-- The network and the arena are two objects, and both are used. -/
theorem Owns.network_arena {i : Interpreter} (h : Owns i p) {n : Shared Network}
    {a : Shared Buffer} (hn : i.network = some n) (ha : i.arenaBuffer = some a) :
    n.id ≠ a.id ∧ p.uses n.id ≠ 0 ∧ p.uses a.id ≠ 0 := by
  refine ⟨?_, ?_, ?_⟩
  · have hids := h.ids
    rw [Interpreter.ids, hn, ha] at hids
    have hrest := (List.nodup_append.1 hids).2.1
    simp only [Option.toList_some, List.map_cons, List.map_nil, List.cons_append,
      List.nil_append, List.nodup_cons, List.mem_cons, not_or] at hrest
    exact Ne.symm hrest.1.1
  · rw [(h.network n hn).1]
    omega
  · rw [h.arenaBuffer a ha]
    omega

theorem wp_invoke_owns (hsane : env.kernel.Sane) (timeoutNanos : Int64) {s : Session}
    (h : Owns s.this s.proc) (hc : Complete s.this) :
    wp (invoke env timeoutNanos) (fun _ s' ↦ Owns s'.this s'.proc ∧ Complete s'.this)
      (fun e s' ↦ e.fatal = false ∧ Owns s'.this s'.proc ∧ Complete s'.this) s := by
  obtain ⟨p, device, networkBuffer, arenaBuffer, network, inference, mb, counters, flag⟩ := s
  obtain ⟨b, rfl⟩ := Option.isSome_iff_exists.1 hc.networkBuffer
  obtain ⟨a, rfl⟩ := Option.isSome_iff_exists.1 hc.arenaBuffer
  obtain ⟨n, rfl⟩ := Option.isSome_iff_exists.1 hc.network
  have hcomplete : ∀ x, Complete ⟨device, some b, some a, some n, x, mb, counters, flag⟩ :=
    fun _ ↦ ⟨rfl, rfl, rfl⟩
  obtain ⟨hid, hnetwork, harena⟩ := h.network_arena rfl rfl
  rw [invoke, wp_bind, wp_get, wp_bind, deref, wp_pure, wp_bind, deref, wp_pure, wp_bind, wp_onProc,
    wp_bind]
  refine wp_mono (wp_ofArena_held hsane h.at ((descriptor_mem_owned _ _).2 ?_)
    ((descriptor_mem_owned _ _).2 ?_) hid hnetwork harena) (fun x p₁ hp₁ ↦ ?_)
    (fun e p₁ hp₁ ↦ ⟨hp₁.1, h.of_at hp₁.2, hcomplete inference⟩)
  · simp [Interpreter.descriptors]
  · simp [Interpreter.descriptors]
  obtain ⟨hfd, hx, hp₁⟩ := hp₁
  rw [descriptor_mem_owned] at hfd
  obtain ⟨fd, rfl⟩ : ∃ fd, x = ⟨fd, n, [], [], a⟩ := ⟨x.fd, hx⟩
  refine wp_mono (wp_makeShared_at hp₁ _ (E := fun _ _ ↦ False)) (fun y p₂ hp₂ ↦ ?_)
    (fun _ _ hf ↦ hf.elim)
  obtain ⟨rfl, hp₂⟩ := hp₂
  rw [wp_bind, wp_modify, wp_bind, wp_onProc]
  refine wp_mono (E := fun _ _ ↦ False) (Q := fun _ p' ↦ Owns ⟨device, some b, some a, some n,
    some ⟨p.made, ⟨fd, n, [], [], a⟩⟩, mb, counters, flag⟩ p') ?_ (fun _ p₃ h₃ ↦ ?_)
    (fun _ _ hf ↦ hf.elim)
  · cases inference with
    | none => exact h.addInference hfd hp₂
    | some y => exact wp_replaceInference hsane h hfd hp₂
  · rw [wp_bind, wp_onProc, Inference.wait, wp_bind]
    refine wp_mono (wp_quiet_owns h₃ _ rfl fun _ ↦ rfl) (fun _ p₄ h₄ ↦ ?_)
      (fun _ _ he ↦ ⟨he.1, he.2, hcomplete _⟩)
    rw [wp_pure, wp_bind, wp_onProc, Inference.status, wp_bind]
    refine wp_mono (wp_quiet_owns h₄ _ rfl fun _ ↦ rfl) (fun reply p₅ h₅ ↦ ?_)
      (fun _ _ he ↦ ⟨he.1, he.2, hcomplete _⟩)
    cases Status.ofWord (reply.data 0) with
    | none => exact ⟨rfl, h₅, hcomplete _⟩
    | some status =>
      exact (wp_ite _ _ _).2 ⟨fun _ ↦ ⟨rfl, h₅, hcomplete _⟩, fun _ ↦ ⟨h₅, hcomplete _⟩⟩

/-! ## The life of an interpreter -/

theorem wp_perform_owns (hsane : env.kernel.Sane) (call : Call) {s : Session}
    (h : Owns s.this s.proc) (hc : Complete s.this) :
    wp (perform env call) (fun _ s' ↦ Owns s'.this s'.proc ∧ Complete s'.this)
      (fun e s' ↦ e.fatal = false ∧ Owns s'.this s'.proc ∧ Complete s'.this) s := by
  cases call with
  | setPmuCycleCounters counters cycleCounter =>
    rw [perform, setPmuCycleCounters]
    by_cases hlen : counters.length ≠ ethosuPmuEventMax
    · rw [if_pos hlen]
      exact ⟨rfl, h, hc⟩
    · rw [if_neg hlen]
      refine ⟨⟨h.held, h.descriptors, h.ids, h.below, h.networkBuffer, h.network, h.arenaBuffer,
        h.inference⟩, hc.networkBuffer, hc.arenaBuffer, hc.network⟩
  | invoke timeoutNanos => exact wp_invoke_owns hsane timeoutNanos h hc

/-- No call ends the program, and whatever they throw the interpreter owns its members. -/
theorem wp_performAll_owns (hsane : env.kernel.Sane) (calls : List Call) {s : Session}
    (h : Owns s.this s.proc) (hc : Complete s.this) :
    wp (performAll env calls) (fun _ s' ↦ Owns s'.this s'.proc ∧ Complete s'.this)
      (fun _ _ ↦ False) s := by
  induction calls generalizing s with
  | nil => exact ⟨h, hc⟩
  | cons call calls ih =>
    rw [performAll, wp_bind, attempt, wp_tryCatch, wp_bind]
    refine wp_mono (wp_perform_owns hsane call h hc) (fun _ s' hs' ↦ ?_) (fun e s' hs' ↦ ?_)
    · rw [wp_pure, wp_bind]
      exact ih hs'.1 hs'.2
    · rw [if_neg (by rw [hs'.1]; exact Bool.false_ne_true), wp_pure, wp_bind]
      exact ih hs'.2.1 hs'.2.2

/-- Everything that was obtained was given back: each descriptor was closed and each mapping
unmapped as often as it was obtained, nothing else was, and each when nothing made from it was left.
-/
structure Conserved (t : List Event) : Prop where
  /-- The ledger refuses nothing, and is empty in the end. -/
  settled : holdings t = some []
  /-- Obtained as often as given back. -/
  once : ∀ r, Ledger.acquired r (actions t) = Ledger.released r (actions t)

theorem conserved_of_holdings {t : List Event} (h : holdings t = some []) : Conserved t :=
  ⟨h, Ledger.acquired_eq_released h⟩

/-- The descriptors a process holds. -/
def heldDescriptors (t : List Event) : List Fd :=
  ((holdings t).getD []).filterMap fun x ↦
    match x.resource with
    | .descriptor fd => some fd
    | .mapping _ _ => none

theorem heldDescriptors_eq {i : Interpreter} (h : Owns i p) :
    heldDescriptors p.trace = i.descriptors := by
  rw [heldDescriptors, h.held, owned, Interpreter.descriptors]
  cases i.inference <;> cases i.arenaBuffer <;> cases i.network <;> cases i.networkBuffer <;>
    simp [bufferHoldings, networkHolding, inferenceHolding]

/-- What is left behind by the life of an interpreter up to its destruction. -/
theorem wp_live_owns (hsane : env.kernel.Sane) (model device : String) (arenaSizeOfMB : Int64)
    (calls : List Call) :
    wp (live env model device arenaSizeOfMB calls) (fun r p ↦ Owns r.2 p ∧ Complete r.2)
      (fun e p ↦ e.fatal = false ∧ holdings p.trace = some []) {} := by
  rw [live, wp_bind]
  refine wp_mono (wp_new hsane model device arenaSizeOfMB rfl) (fun i p hi ↦ ?_) (fun _ _ he ↦ he)
  rw [wp_onObject]
  exact wp_mono (wp_performAll_owns hsane calls hi.1 hi.2) (fun _ _ hs ↦ hs) (fun _ _ hf ↦ hf.elim)

/-- **Descriptors and mappings are conserved.**  Whatever fails except `close` and `munmap`, and
whatever the calls in between throw: between calls the process holds the inference if there is one,
the arena, the network, the network buffer and the device, the destructor returns and has given
everything back; and so has a constructor that throws. -/
theorem conserves (hsane : env.kernel.Sane) (model device : String) (arenaSizeOfMB : Int64)
    (calls : List Call) :
    (∀ outcomes i p, live env model device arenaSizeOfMB calls {} = .ok (outcomes, i) p →
      (∃ a n b, i.arenaBuffer = some a ∧ i.network = some n ∧ i.networkBuffer = some b
        ∧ heldDescriptors p.trace = i.inference.toList.map (fun x ↦ x.obj.fd)
          ++ [a.obj.fd, n.obj.fd, b.obj.fd, i.device.fd])
      ∧ ∃ q, i.destroy env p = .ok () q ∧ Conserved q.trace)
    ∧ ∀ e p, live env model device arenaSizeOfMB calls {} = .error e p →
      e.fatal = false ∧ Conserved p.trace := by
  have hlive := wp_live_owns hsane model device arenaSizeOfMB calls
  refine ⟨fun outcomes i p hok ↦ ?_, fun e p herr ↦ ?_⟩
  · obtain ⟨howns, hc⟩ := ok_of_wp hlive hok
    obtain ⟨b, hb⟩ := Option.isSome_iff_exists.1 hc.networkBuffer
    obtain ⟨a, ha⟩ := Option.isSome_iff_exists.1 hc.arenaBuffer
    obtain ⟨n, hn⟩ := Option.isSome_iff_exists.1 hc.network
    refine ⟨⟨a, n, b, ha, hn, hb, ?_⟩, ?_⟩
    · rw [heldDescriptors_eq howns, Interpreter.descriptors, ha, hn, hb]
      rfl
    · have hdestroy := wp_destroy hsane howns (E := fun _ _ ↦ False)
      cases hq : i.destroy env p with
      | ok u q => exact ⟨q, rfl, conserved_of_holdings ((wp_of_ok hq).1 hdestroy)⟩
      | error f q => exact ((wp_of_error hq).1 hdestroy).elim
  · obtain ⟨hfatal, hheld⟩ := error_of_wp hlive herr
    exact ⟨hfatal, conserved_of_holdings hheld⟩

/-- A kernel that gives out the first descriptor the process does not hold, and has sixty-four of
them. -/
def tidy : Env where
  kernel :=
    { answer := fun past req ↦
        if req.revokes.isSome then { ret := 0 }
        else
          match (List.range 64).find? fun i ↦
            .descriptor (.ofNat i) ∉ Ledger.resources ((holdings past).getD []) with
          | some i => { ret := .ofNat i, data := fun _ ↦ 1 }
          | none => { ret := -1 } }
  files := fun _ ↦ ⟨true, true, 0, []⟩
  stack := fun _ _ ↦ 0
  heapBool := fun _ ↦ false

/-- What is granted by a kernel is named by its answer. -/
theorem grants_descriptor {req : Request} {reply : Reply} {fd : Fd} {sources : List Resource}
    (h : req.grants reply = some (.descriptor fd, sources)) : fd = reply.ret := by
  revert h
  fun_cases Request.grants reply req <;> rintro ⟨⟩ <;> rfl

theorem tidy_sane : tidy.kernel.Sane where
  fresh past req held fd sources hheld hret hgrants := by
    have hrevokes : req.revokes = none := by
      cases req <;> first | rfl | cases hgrants
    obtain rfl := grants_descriptor hgrants
    have hanswer : tidy.kernel.answer past req
        = match (List.range 64).find? fun i ↦
            .descriptor (.ofNat i) ∉ Ledger.resources ((holdings past).getD []) with
          | some i => { ret := .ofNat i, data := fun _ ↦ 1 }
          | none => { ret := -1 } := if_neg (by rw [hrevokes]; exact Bool.false_ne_true)
    cases hfind : (List.range 64).find? fun i ↦
      .descriptor (.ofNat i) ∉ Ledger.resources ((holdings past).getD []) with
    | none =>
      rw [hanswer, hfind] at hret
      exact absurd (by decide) hret
    | some i =>
      have hfresh := List.find?_some hfind
      rw [hanswer, hfind]
      rw [hheld] at hfresh
      exact of_decide_eq_true hfresh
  close past fd := Int32.not_lt.2 (Int32.le_refl 0)
  munmap past addr length := Int32.not_lt.2 (Int32.le_refl 0)

theorem conserves_tidy :
    (∀ outcomes i p, live tidy "model_vela.tflite" "/dev/ethosu0" 16 [.invoke 1] {}
        = .ok (outcomes, i) p →
      (∃ a n b, i.arenaBuffer = some a ∧ i.network = some n ∧ i.networkBuffer = some b
        ∧ heldDescriptors p.trace = i.inference.toList.map (fun x ↦ x.obj.fd)
          ++ [a.obj.fd, n.obj.fd, b.obj.fd, i.device.fd])
      ∧ ∃ q, i.destroy tidy p = .ok () q ∧ Conserved q.trace)
    ∧ ∀ e p, live tidy "model_vela.tflite" "/dev/ethosu0" 16 [.invoke 1] {} = .error e p →
      e.fatal = false ∧ Conserved p.trace :=
  conserves tidy_sane "model_vela.tflite" "/dev/ethosu0" 16 [.invoke 1]

end Interpreter

end EthosU
