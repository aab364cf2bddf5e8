import EthosU.Request
import EthosU.Lib.Ledger

/-!
# What a process holds

The descriptors and mappings of a process, read off the system calls it has made.

* `Event.action` is what a system call does to the ledger: a descriptor is made from those that its
  request names, a mapping from the descriptor it maps.
* `holdings` replays a trace.  It is `none` if the process released something it did not hold, or
  something that was still needed.
* `Kernel.Sane` is what is assumed of the kernel: descriptors are fresh when they are given out, and
  `close` and `munmap` succeed.
* `At held uses made` is what the proofs know of a process: what it holds and how its shared
  pointers are counted.  The rest of the file says what the operations on buffers, networks and
  inferences do to that.
-/

set_option autoImplicit false

namespace EthosU

open Wp InferenceCreate

/-! ## Resources -/

inductive Resource
  | descriptor (fd : Fd)
  | mapping (addr : Nat) (length : UInt64)
  deriving DecidableEq

abbrev Holding := Ledger.Holding Resource

/-- What a request that succeeds gives the process, and what that is made from. -/
def Request.grants (reply : Reply) : Request → Option (Resource × List Resource)
  | .open _ => some (.descriptor reply.ret, [])
  | .mmap length fd => some (.mapping reply.addr length, [.descriptor fd])
  | .bufferCreate device _ => some (.descriptor reply.ret, [.descriptor device])
  | .networkCreate device .buffer arg =>
    some (.descriptor reply.ret, [.descriptor device, .descriptor arg.toInt32])
  | .networkCreate device .index _ => some (.descriptor reply.ret, [.descriptor device])
  | .inferenceCreate network uapi =>
    some (.descriptor reply.ret,
      .descriptor network :: (ifmFds uapi ++ ofmFds uapi).map .descriptor)
  | _ => none

/-- What a request takes from the process. -/
def Request.revokes : Request → Option Resource
  | .close fd => some (.descriptor fd)
  | .munmap addr length => some (.mapping addr length)
  | _ => none

/-- What an event does to the ledger. -/
def Event.action : Event → Option (Ledger.Action Resource)
  | .call req reply =>
    match req.revokes with
    | some r => some (.release r)
    | none =>
      if reply.ret < 0 then none
      else (req.grants reply).map fun grant ↦ .acquire grant.1 grant.2
  | .ended _ => none

/-- What a process with this trace does to the ledger, latest first. -/
def actions (t : List Event) : List (Ledger.Action Resource) := t.filterMap Event.action

/-- What a process with this trace holds. -/
def holdings (t : List Event) : Option (List Holding) := Ledger.replay (actions t)

/-- Descriptors are fresh when they are given out, and can always be given back. -/
structure Kernel.Sane (kernel : Kernel) : Prop where
  /-- A new descriptor is not one that the process still holds. -/
  fresh : ∀ past req held fd sources, holdings past = some held →
    ¬ (kernel.answer past req).ret < 0 →
    req.grants (kernel.answer past req) = some (.descriptor fd, sources) →
    .descriptor fd ∉ Ledger.resources held
  /-- `close` succeeds. -/
  close : ∀ past fd, ¬ (kernel.answer past (.close fd)).ret < 0
  /-- `munmap` succeeds. -/
  munmap : ∀ past addr length, ¬ (kernel.answer past (.munmap addr length)).ret < 0

/-! ## What is known of a process -/

/-- The process holds `held`, and counts the uses of its shared objects as `uses` and `made` say. -/
structure At (held : List Holding) (uses : Nat → Nat) (made : Nat) (p : Process) : Prop where
  held : holdings p.trace = some held
  uses : p.uses = uses
  made : p.made = made

section

variable {env : Env} {held : List Holding} {uses : Nat → Nat} {made : Nat} {p : Process}

theorem holdings_past (h : holdings p.trace = some held) : holdings (p.past env) = some held := by
  have hended : ∀ fds : List Fd, actions (fds.map .ended ++ p.trace) = actions p.trace := by
    intro fds
    induction fds with
    | nil => rfl
    | cons fd fds ih => exact ih
  rw [holdings, Process.past, hended]
  exact h

theorem actions_cons (e : Event) (t : List Event) :
    actions (e :: t) = e.action.toList ++ actions t := by
  rw [actions, List.filterMap_cons]
  cases e.action <;> rfl

/-- A call without effect on the ledger. -/
theorem At.called_quiet (h : At held uses made p) {req : Request}
    (hact : (Event.call req (p.reply env req)).action = none) :
    At held uses made (p.called env req) := by
  refine ⟨?_, h.uses, h.made⟩
  rw [Process.called_trace, holdings, actions_cons, hact]
  exact holdings_past h.held

theorem At.called_action (h : At held uses made p) {req : Request} {a : Ledger.Action Resource}
    {held' : List Holding} (hact : (Event.call req (p.reply env req)).action = some a)
    (hstep : Ledger.step held a = some held') : At held' uses made (p.called env req) := by
  refine ⟨?_, h.uses, h.made⟩
  rw [Process.called_trace, holdings, actions_cons, hact]
  exact (Ledger.replay_cons (holdings_past h.held)).trans hstep

/-! ## System calls -/

/-- A system call that gives and takes nothing. -/
theorem wp_quiet (h : At held uses made p) (msg : String) {req : Request}
    (hrevokes : req.revokes = none) (hgrants : ∀ reply, req.grants reply = none) :
    wp (checked env msg req) (fun _ p' ↦ At held uses made p')
      (fun e p' ↦ e.fatal = false ∧ At held uses made p') p := by
  have hact : (Event.call req (p.reply env req)).action = none := by
    simp [Event.action, hrevokes, hgrants]
  rw [wp_checked]
  exact ⟨fun _ ↦ ⟨rfl, h.called_quiet hact⟩, fun _ ↦ h.called_quiet hact⟩

/-- A system call that gives something. -/
theorem wp_acquire (h : At held uses made p) (msg : String) {req : Request}
    (hrevokes : req.revokes = none) {f : Reply → Resource} {l : List Resource}
    (hgrants : ∀ reply, req.grants reply = some (f reply, l))
    (hsources : ∀ s ∈ l, s ∈ Ledger.resources held) :
    wp (checked env msg req)
      (fun reply p' ↦ reply = p.reply env req ∧ ¬ reply.ret < 0
        ∧ At (⟨f reply, l⟩ :: held) uses made p')
      (fun e p' ↦ e.fatal = false ∧ At held uses made p') p := by
  rw [wp_checked]
  refine ⟨fun hneg ↦ ⟨rfl, h.called_quiet ?_⟩, fun hneg ↦ ⟨rfl, hneg, h.called_action ?_
    (Ledger.step_acquire (f (p.reply env req)) hsources)⟩⟩
  · simp [Event.action, hrevokes, hneg]
  · simp [Event.action, hrevokes, hneg, hgrants]

/-- The same for a descriptor, which is a new one. -/
theorem wp_acquire_descriptor (hsane : env.kernel.Sane) (h : At held uses made p) (msg : String)
    {req : Request} (hrevokes : req.revokes = none) {l : List Resource}
    (hgrants : ∀ reply, req.grants reply = some (.descriptor reply.ret, l))
    (hsources : ∀ s ∈ l, s ∈ Ledger.resources held) :
    wp (checked env msg req)
      (fun reply p' ↦ .descriptor reply.ret ∉ Ledger.resources held
        ∧ At (⟨.descriptor reply.ret, l⟩ :: held) uses made p')
      (fun e p' ↦ e.fatal = false ∧ At held uses made p') p := by
  refine wp_mono (wp_acquire h msg hrevokes hgrants hsources) (fun reply p' hr ↦ ?_)
    (fun _ _ he ↦ he)
  obtain ⟨hreply, hret, hp'⟩ := hr
  refine ⟨?_, hp'⟩
  subst hreply
  exact hsane.fresh (p.past env) req held _ l (holdings_past h.held) hret (hgrants _)

theorem wp_eclose (hsane : env.kernel.Sane) {held' : List Holding} (h : At held uses made p)
    {fd : Fd} (hstep : Ledger.step held (.release (.descriptor fd)) = some held')
    {E : Exception → Process → Prop} :
    wp (eclose env fd) (fun _ p' ↦ At held' uses made p') E p := by
  rw [eclose, wp_checked]
  exact ⟨fun hneg ↦ absurd hneg (hsane.close _ fd), fun _ ↦ h.called_action rfl hstep⟩

theorem wp_emunmap (hsane : env.kernel.Sane) {held' : List Holding} (h : At held uses made p)
    {addr : Nat} {length : UInt64}
    (hstep : Ledger.step held (.release (.mapping addr length)) = some held')
    {E : Exception → Process → Prop} :
    wp (emunmap env addr length) (fun _ p' ↦ At held' uses made p') E p := by
  rw [emunmap, wp_checked]
  exact ⟨fun hneg ↦ absurd hneg (hsane.munmap _ addr length), fun _ ↦ h.called_action rfl hstep⟩

/-! ## Shared pointers -/

section

variable {α : Type}

theorem At.copied (h : At held uses made p) (s : Shared α) :
    At held (Function.update uses s.id (uses s.id + 1)) made (s.copied p) :=
  ⟨h.held, by rw [← h.uses]; rfl, h.made⟩

theorem At.dropped (h : At held uses made p) (s : Shared α) :
    At held (Function.update uses s.id (uses s.id - 1)) made (s.dropped p) :=
  ⟨h.held, by rw [← h.uses]; rfl, h.made⟩

theorem wp_makeShared_at (h : At held uses made p) (obj : α) {E : Exception → Process → Prop} :
    wp (makeShared obj)
      (fun s p' ↦ s = ⟨made, obj⟩ ∧ At held (Function.update uses made 1) (made + 1) p') E p := by
  rw [wp_makeShared, ← h.uses, ← h.made]
  exact ⟨rfl, h.held, rfl, rfl⟩

/-- One of several copies goes away. -/
theorem wp_release_shared (h : At held uses made p) (s : Shared α) (hs : uses s.id ≠ 1)
    (destructor : α → M Unit) {E : Exception → Process → Prop} :
    wp (s.release destructor)
      (fun _ p' ↦ At held (Function.update uses s.id (uses s.id - 1)) made p') E p := by
  rw [wp_release, h.uses]
  exact ⟨fun h1 ↦ absurd h1 hs, fun _ ↦ h.dropped s⟩

/-- The last copy goes away. -/
theorem wp_release_last (h : At held uses made p) (s : Shared α) (hs : uses s.id = 1)
    {destructor : α → M Unit} {Q : Unit → Process → Prop} {E : Exception → Process → Prop}
    (hd : ∀ p, At held (Function.update uses s.id 0) made p →
      wp (destructor s.obj) Q (fun _ _ ↦ False) p) :
    wp (s.release destructor) Q E p := by
  rw [wp_release, h.uses]
  refine ⟨fun _ ↦ ?_, fun h1 ↦ absurd hs h1⟩
  have hdropped := h.dropped s
  rw [hs] at hdropped
  exact wp_mono (hd _ hdropped) (fun _ _ hq ↦ hq) (fun _ _ hf ↦ hf.elim)

/-- A copy that comes and goes. -/
theorem update_copy_drop (uses : Nat → Nat) (id : Nat) :
    Function.update (Function.update uses id (uses id + 1)) id
      (Function.update uses id (uses id + 1) id - 1) = uses := by
  rw [Function.update_self, Nat.add_sub_cancel, Function.update_idem, Function.update_eq_self]

end

/-- Destructors that do not throw. -/
theorem wp_destroyBoth {first second : M Unit} {Q : Unit → Process → Prop}
    {E : Exception → Process → Prop}
    (h : wp first (fun _ p' ↦ wp second Q E p') (fun _ _ ↦ False) p) :
    wp (destroyBoth first second) Q E p := by
  rw [destroyBoth, wp_bind, unwinding, wp_onThrow]
  exact wp_mono h (fun _ _ hq ↦ hq) (fun _ _ hf ↦ hf.elim)

/-! ## Buffers -/

theorem At.wellSourced (h : At held uses made p) : Ledger.WellSourced held :=
  Ledger.wellSourced_of_replay h.held

/-- Nothing is made from a mapping. -/
theorem At.unneeded_mapping (h : At held uses made p) (addr : Nat) (length : UInt64) :
    Ledger.Unneeded held (.mapping addr length) := by
  refine Ledger.forall_sources (P := fun sources ↦ .mapping addr length ∉ sources) h.held ?_
  intro r sources hacq
  obtain ⟨e, -, he⟩ := List.mem_filterMap.1 hacq
  cases e with
  | ended fd => cases he
  | call req reply =>
    cases hrev : req.revokes with
    | some r => simp [Event.action, hrev] at he
    | none =>
      simp only [Event.action, hrev] at he
      split at he
      · cases he
      · obtain ⟨grant, hgrant, hacq⟩ := Option.map_eq_some_iff.1 he
        cases hacq
        revert hgrant
        fun_cases Request.grants reply req <;> rintro ⟨⟩ <;> simp

/-- What a buffer holds. -/
def bufferHoldings (device : Device) (buffer : Buffer) : List Holding :=
  [⟨.mapping buffer.dataPtr buffer.dataCapacity, [.descriptor buffer.fd]⟩,
    ⟨.descriptor buffer.fd, [.descriptor device.fd]⟩]

theorem wp_bufferNew (hsane : env.kernel.Sane) (h : At held uses made p) (device : Device)
    (capacity : UInt64) (hdevice : .descriptor device.fd ∈ Ledger.resources held) :
    wp (Buffer.new env device capacity)
      (fun buffer p' ↦ .descriptor buffer.fd ∉ Ledger.resources held
        ∧ At (bufferHoldings device buffer ++ held) uses made p')
      (fun e p' ↦ e.fatal = false ∧ At held uses made p') p := by
  rw [Buffer.new, wp_bind, eioctl]
  refine wp_mono (wp_acquire_descriptor hsane h _ rfl (fun _ ↦ rfl) (by simpa using hdevice))
    (fun created p₁ hp₁ ↦ ?_) (fun _ _ he ↦ he)
  obtain ⟨hfresh, hp₁⟩ := hp₁
  have hclose := Ledger.step_release_head hp₁.wellSourced hfresh
  rw [wp_bind, catching, wp_onThrow]
  refine wp_mono (wp_acquire hp₁ _ rfl (f := fun reply ↦ .mapping reply.addr capacity)
    (fun _ ↦ rfl) (by simp)) (fun mapped p₂ hp₂ ↦ ⟨hfresh, hp₂.2.2⟩) (fun e p₂ hp₂ ↦ ?_)
  rw [if_pos (by rw [hp₂.1]; rfl), wp_discard]
  exact wp_mono (wp_eclose hsane hp₂.2 hclose (E := fun _ _ ↦ False))
    (fun _ _ hp₃ ↦ ⟨hp₂.1, hp₃⟩) (fun _ _ hf ↦ hf.elim)

theorem wp_bufferDestroy (hsane : env.kernel.Sane) {device : Device} {buffer : Buffer}
    (h : At (bufferHoldings device buffer ++ held) uses made p)
    (hfd : .descriptor buffer.fd ∉ Ledger.resources held) {E : Exception → Process → Prop} :
    wp (buffer.destroy env) (fun _ p' ↦ At held uses made p') E p := by
  have hmapping := Ledger.step_release (a := []) List.not_mem_nil
    (h.unneeded_mapping buffer.dataPtr buffer.dataCapacity)
  rw [Buffer.destroy, wp_bind, catching, wp_onThrow, wp_discard]
  refine wp_mono (wp_emunmap hsane h hmapping (E := fun _ _ ↦ False))
    (fun _ p₁ hp₁ ↦ ?_) (fun _ _ hf ↦ hf.elim)
  rw [wp_discard]
  exact wp_eclose hsane hp₁ (Ledger.step_release_head hp₁.wellSourced hfd)

theorem wp_bufferRelease_last (hsane : env.kernel.Sane) {device : Device} {buffer : Shared Buffer}
    (h : At (bufferHoldings device buffer.obj ++ held) uses made p) (huses : uses buffer.id = 1)
    (hfd : .descriptor buffer.obj.fd ∉ Ledger.resources held) {E : Exception → Process → Prop} :
    wp (Buffer.release env buffer)
      (fun _ p' ↦ At held (Function.update uses buffer.id 0) made p') E p :=
  wp_release_last h buffer huses fun _ hp₁ ↦ wp_bufferDestroy hsane hp₁ hfd

/-! ## Networks -/

/-- What a network holds. -/
def networkHolding (network : Network) : Holding :=
  ⟨.descriptor network.fd,
    .descriptor network.device.fd :: (network.buffer.map fun b ↦ .descriptor b.obj.fd).toList⟩

theorem wp_networkOfBuffer (hsane : env.kernel.Sane) (h : At held uses made p) (device : Device)
    (buffer : Shared Buffer) (hdevice : .descriptor device.fd ∈ Ledger.resources held)
    (hbuffer : .descriptor buffer.obj.fd ∈ Ledger.resources held) (huses : uses buffer.id ≠ 0) :
    wp (Network.ofBuffer env device buffer)
      (fun network p' ↦ .descriptor network.fd ∉ Ledger.resources held
        ∧ network.device = device ∧ network.buffer = some buffer
        ∧ At (networkHolding network :: held)
          (Function.update uses buffer.id (uses buffer.id + 1)) made p')
      (fun e p' ↦ e.fatal = false ∧ At held uses made p') p := by
  have hsources : ∀ s ∈ [Resource.descriptor device.fd,
      .descriptor buffer.obj.fd.toUInt32.toInt32], s ∈ Ledger.resources held := by
    simpa using ⟨hdevice, hbuffer⟩
  rw [Network.ofBuffer, wp_bind, wp_copy, unwinding, wp_onThrow]
  refine wp_mono (Q := fun network p' ↦ .descriptor network.fd ∉ Ledger.resources held
      ∧ network.device = device ∧ network.buffer = some buffer
      ∧ At (networkHolding network :: held)
        (Function.update uses buffer.id (uses buffer.id + 1)) made p')
    (E := fun e p' ↦ e.fatal = false
      ∧ At held (Function.update uses buffer.id (uses buffer.id + 1)) made p')
    ?_ (fun _ _ hq ↦ hq) (fun e p' hp' ↦ ?_)
  · rw [Network.create, wp_bind, eioctl]
    refine wp_mono (wp_acquire_descriptor hsane (h.copied buffer) _ rfl (fun _ ↦ rfl) hsources)
      (fun created p₁ hp₁ ↦ ?_) (fun _ _ he ↦ he)
    obtain ⟨hfresh, hp₁⟩ := hp₁
    have hclose := Ledger.step_release_head hp₁.wellSourced hfresh
    rw [wp_bind, catching, wp_onThrow]
    refine wp_mono (wp_quiet hp₁ _ rfl fun _ ↦ rfl) (fun reply p₂ hp₂ ↦ ?_) (fun e p₂ hp₂ ↦ ?_)
    · refine ⟨hfresh, rfl, rfl, ?_⟩
      simpa [networkHolding, Network.ofInfo] using hp₂
    · rw [if_pos (by rw [hp₂.1]; rfl), wp_discard]
      exact wp_mono (wp_eclose hsane hp₂.2 hclose
        (E := fun _ _ ↦ False)) (fun _ _ hp₃ ↦ ⟨hp₂.1, hp₃⟩) (fun _ _ hf ↦ hf.elim)
  · -- the copy goes away again
    rw [if_pos (by rw [hp'.1]; rfl)]
    have hshared : Function.update uses buffer.id (uses buffer.id + 1) buffer.id ≠ 1 := by
      rw [Function.update_self]
      omega
    refine wp_mono (wp_release_shared hp'.2 buffer hshared (Buffer.destroy env)
      (E := fun _ _ ↦ False)) (fun _ p₁ hp₁ ↦ ⟨hp'.1, ?_⟩) (fun _ _ hf ↦ hf.elim)
    rwa [update_copy_drop] at hp₁

/-! ## Inferences -/

/-- What an inference holds. -/
def inferenceHolding (inference : Inference) : Holding :=
  ⟨.descriptor inference.fd,
    [.descriptor inference.network.obj.fd, .descriptor inference.arenaBuffer.obj.fd]⟩

/-- An inference without IFM and OFM buffers is made from the network and the arena. -/
theorem request_sources (p : Process) (arenaBuffer : Shared Buffer) (counterConfigs : List UInt32)
    (enableCycleCounter : Bool) :
    (ifmFds (Inference.request env p arenaBuffer [] [] counterConfigs enableCycleCounter).uapi
      ++ ofmFds (Inference.request env p arenaBuffer [] [] counterConfigs
        enableCycleCounter).uapi) = [arenaBuffer.obj.fd] := by
  rw [Inference.request]
  simp only [Inference.getFds, List.map_nil]
  rw [(Inference.encode_ifmFds _ _ _ _ (by decide) (by decide)).2,
    (Inference.encode_ofmFds _ _ _ _ _ (by decide)).2, List.append_nil]

/-- The uses of a network and an arena that one more inference shares. -/
def shares (network : Shared Network) (arenaBuffer : Shared Buffer) (uses : Nat → Nat) :
    Nat → Nat :=
  Function.update (Function.update uses network.id (uses network.id + 1)) arenaBuffer.id
    (Function.update uses network.id (uses network.id + 1) arenaBuffer.id + 1)

/-- The uses once the inference no longer shares them. -/
def unshares (network : Shared Network) (arenaBuffer : Shared Buffer) (uses : Nat → Nat) :
    Nat → Nat :=
  Function.update (Function.update uses arenaBuffer.id (uses arenaBuffer.id - 1)) network.id
    (Function.update uses arenaBuffer.id (uses arenaBuffer.id - 1) network.id - 1)

theorem unshares_shares (network : Shared Network) (arenaBuffer : Shared Buffer)
    (uses : Nat → Nat) : unshares network arenaBuffer (shares network arenaBuffer uses) = uses := by
  rw [shares, unshares, update_copy_drop, update_copy_drop]

section

variable {network : Shared Network} {arenaBuffer : Shared Buffer}

theorem shares_network (hid : network.id ≠ arenaBuffer.id) (uses : Nat → Nat) :
    shares network arenaBuffer uses network.id = uses network.id + 1 := by
  rw [shares, Function.update_of_ne hid, Function.update_self]

theorem shares_arenaBuffer (hid : network.id ≠ arenaBuffer.id) (uses : Nat → Nat) :
    shares network arenaBuffer uses arenaBuffer.id = uses arenaBuffer.id + 1 := by
  rw [shares, Function.update_self, Function.update_of_ne (Ne.symm hid)]

theorem shares_of_ne {id : Nat} (hnetwork : id ≠ network.id) (harena : id ≠ arenaBuffer.id)
    (uses : Nat → Nat) : shares network arenaBuffer uses id = uses id := by
  rw [shares, Function.update_of_ne harena, Function.update_of_ne hnetwork]

theorem unshares_network (hid : network.id ≠ arenaBuffer.id) (uses : Nat → Nat) :
    unshares network arenaBuffer uses network.id = uses network.id - 1 := by
  rw [unshares, Function.update_self, Function.update_of_ne hid]

theorem unshares_arenaBuffer (hid : network.id ≠ arenaBuffer.id) (uses : Nat → Nat) :
    unshares network arenaBuffer uses arenaBuffer.id = uses arenaBuffer.id - 1 := by
  rw [unshares, Function.update_of_ne (Ne.symm hid), Function.update_self]

theorem unshares_of_ne {id : Nat} (hnetwork : id ≠ network.id) (harena : id ≠ arenaBuffer.id)
    (uses : Nat → Nat) : unshares network arenaBuffer uses id = uses id := by
  rw [unshares, Function.update_of_ne hnetwork, Function.update_of_ne harena]

end

theorem wp_releaseMembers (h : At held uses made p) {network : Shared Network}
    {arenaBuffer : Shared Buffer} (hid : network.id ≠ arenaBuffer.id)
    (hnetwork : uses network.id ≠ 1) (harena : uses arenaBuffer.id ≠ 1)
    {E : Exception → Process → Prop} :
    wp (Inference.releaseMembers env network [] [] (some arenaBuffer))
      (fun _ p' ↦ At held (unshares network arenaBuffer uses) made p') E p := by
  refine wp_destroyBoth (wp_mono (wp_release_shared h arenaBuffer harena (Buffer.destroy env)
    (E := fun _ _ ↦ False)) (fun _ p₁ hp₁ ↦ ?_) (fun _ _ hf ↦ hf))
  refine wp_destroyBoth (wp_destroyBoth ?_)
  refine wp_release_shared hp₁ network ?_ (Network.destroy env)
  rwa [Function.update_of_ne hid]

theorem wp_create_held (hsane : env.kernel.Sane) (h : At held uses made p)
    {network : Shared Network} {arenaBuffer : Shared Buffer} {counterConfigs : List UInt32}
    {enableCycleCounter : Bool} (hnetwork : .descriptor network.obj.fd ∈ Ledger.resources held)
    (harena : .descriptor arenaBuffer.obj.fd ∈ Ledger.resources held) :
    wp (Inference.create env network arenaBuffer [] [] counterConfigs enableCycleCounter)
      (fun fd p' ↦ .descriptor fd ∉ Ledger.resources held
        ∧ At (inferenceHolding ⟨fd, network, [], [], arenaBuffer⟩ :: held) uses made p')
      (fun e p' ↦ e.fatal = false ∧ At held uses made p') p := by
  by_cases hacc : Inference.Accepts (Inference.getFds []) (Inference.getFds []) counterConfigs
  · rw [wp_congr (Inference.create_of_accepts env network arenaBuffer enableCycleCounter p hacc),
      wp_bind, eioctl]
    refine wp_acquire_descriptor hsane h _ rfl (l := [.descriptor network.obj.fd,
      .descriptor arenaBuffer.obj.fd]) (fun reply ↦ ?_) (by simpa using ⟨hnetwork, harena⟩)
    rw [Request.grants, request_sources]
    rfl
  · obtain ⟨msg, hmsg⟩ := Inference.create_of_not_accepts env network arenaBuffer
      enableCycleCounter p hacc
    rw [wp_of_error hmsg]
    exact ⟨rfl, h⟩

theorem wp_ofArena_held (hsane : env.kernel.Sane) (h : At held uses made p)
    {network : Shared Network} {arenaBuffer : Shared Buffer} {counters : List UInt32}
    {enableCycleCounter : Bool} (hnetwork : .descriptor network.obj.fd ∈ Ledger.resources held)
    (harena : .descriptor arenaBuffer.obj.fd ∈ Ledger.resources held)
    (hid : network.id ≠ arenaBuffer.id) (hnetworkUses : uses network.id ≠ 0)
    (harenaUses : uses arenaBuffer.id ≠ 0) :
    wp (Inference.ofArena env network arenaBuffer counters enableCycleCounter)
      (fun inference p' ↦ .descriptor inference.fd ∉ Ledger.resources held
        ∧ inference = ⟨inference.fd, network, [], [], arenaBuffer⟩
        ∧ At (inferenceHolding inference :: held) (shares network arenaBuffer uses) made p')
      (fun e p' ↦ e.fatal = false ∧ At held uses made p') p := by
  have hshared : At held (shares network arenaBuffer uses) made
      (arenaBuffer.copied (network.copied p)) := (h.copied network).copied arenaBuffer
  rw [Inference.ofArena, wp_bind, wp_copy, wp_bind, wp_copy, unwinding, wp_onThrow]
  refine wp_mono (Q := fun inference p' ↦ .descriptor inference.fd ∉ Ledger.resources held
      ∧ inference = ⟨inference.fd, network, [], [], arenaBuffer⟩
      ∧ At (inferenceHolding inference :: held) (shares network arenaBuffer uses) made p')
    (E := fun e p' ↦ e.fatal = false ∧ At held (shares network arenaBuffer uses) made p')
    ?_ (fun _ _ hq ↦ hq) (fun e p' hp' ↦ ?_)
  · by_cases hcounters : counters.length > ethosuPmuEventMax
    · rw [if_pos hcounters]
      exact ⟨rfl, hshared⟩
    · rw [if_neg hcounters]
      refine (wp_bind _ _).2 (wp_mono (wp_create_held hsane hshared hnetwork harena)
        (fun fd p' hp' ↦ ?_) (fun _ _ he ↦ he))
      exact ⟨hp'.1, rfl, hp'.2⟩
  · rw [if_pos (by rw [hp'.1]; rfl)]
    refine wp_mono (wp_releaseMembers hp'.2 hid ?_ ?_ (E := fun _ _ ↦ False))
      (fun _ p₁ hp₁ ↦ ⟨hp'.1, ?_⟩) (fun _ _ hf ↦ hf.elim)
    · rw [shares_network hid]
      omega
    · rw [shares_arenaBuffer hid]
      omega
    · rwa [unshares_shares] at hp₁

end

end EthosU
