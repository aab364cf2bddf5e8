import EthosU.Descriptors
import EthosU.Lib.Sharing
import Mathlib.Tactic.Abel

/-!
# Buffers, networks and inferences as shared objects

The objects of the driver library hold each other by shared pointers, in any number and any shape
that a program makes of them.  This file says what each operation of the library does to all of them
at once, so that a program can be followed by what its variables refer to.

* `Object` is a buffer, a network or an inference that lives behind a shared pointer, `Object.shape`
  what it refers to, and `Object.pieces` what it has custody of.
* `Stock` is the invariant: the objects that live are counted right, and what they have custody of,
  together with the devices and what is in hand, is all the process has.
* `Owns` is what a program knows of a process: its devices, and the pointers that its variables
  hold.  An operation that throws leaves it as it was (`Escaped`, `Unwound`).
* `Owns.collect`: a program without variables has custody of nothing.
-/

set_option autoImplicit false

namespace EthosU

open Wp

/-! ## Objects -/

/-- What lives behind a shared pointer.  A buffer does not know its device. -/
inductive Object
  | buffer (device : Device) (ptr : Shared Buffer)
  | network (ptr : Shared Network)
  | inference (ptr : Shared Inference)

/-- What a device has custody of. -/
def Device.piece (device : Device) : Piece := ⟨.descriptor device.fd, .device, []⟩

/-- The descriptor of a buffer. -/
def Buffer.descriptorPiece (device : Device) (buffer : Buffer) : Piece :=
  ⟨.descriptor buffer.fd, .buffer, [(.descriptor device.fd, .device)]⟩

/-- The memory behind a buffer. -/
def Buffer.mappingPiece (buffer : Buffer) : Piece :=
  ⟨.mapping buffer.dataPtr buffer.dataCapacity, .mapping, [(.descriptor buffer.fd, .buffer)]⟩

def Network.piece (network : Network) : Piece :=
  ⟨.descriptor network.fd, .network, (.descriptor network.device.fd, .device)
    :: network.buffer.toList.map fun b ↦ (.descriptor b.obj.fd, .buffer)⟩

/-- The buffers of an inference, the way they are handed to the driver. -/
def Inference.buffers (inference : Inference) : List (Shared Buffer) :=
  inference.arenaBuffer :: inference.ifmBuffers ++ inference.ofmBuffers

def Inference.piece (inference : Inference) : Piece :=
  ⟨.descriptor inference.fd, .inference, (.descriptor inference.network.obj.fd, .network)
    :: inference.buffers.map fun b ↦ (.descriptor b.obj.fd, .buffer)⟩

namespace Object

def id : Object → ℕ
  | buffer _ ptr => ptr.id
  | network ptr => ptr.id
  | inference ptr => ptr.id

/-- The device that everything about an object belongs to. -/
def device : Object → Device
  | buffer device _ => device
  | network ptr => ptr.obj.device
  | inference ptr => ptr.obj.network.obj.device

def members : Object → Multiset Object
  | buffer _ _ => 0
  | network ptr => ptr.obj.buffer.toList.map (buffer ptr.obj.device)
  | inference ptr =>
    network ptr.obj.network ::ₘ ptr.obj.buffers.map (buffer ptr.obj.network.obj.device)

def shape : Sharing.Shape Object := ⟨id, members⟩

def pieces : Object → Multiset Piece
  | buffer device ptr => {ptr.obj.mappingPiece, ptr.obj.descriptorPiece device}
  | network ptr => {ptr.obj.piece}
  | inference ptr => {ptr.obj.piece}

section

variable (d : Device) (b : Shared Buffer) (n : Shared Network) (i : Shared Inference)

@[simp] theorem members_buffer : (buffer d b).members = 0 := rfl

@[simp] theorem members_network :
    (network n).members = n.obj.buffer.toList.map (buffer n.obj.device) := rfl

@[simp] theorem members_inference : (inference i).members
    = network i.obj.network ::ₘ i.obj.buffers.map (buffer i.obj.network.obj.device) := rfl

@[simp] theorem pieces_buffer :
    (buffer d b).pieces = {b.obj.mappingPiece, b.obj.descriptorPiece d} := rfl

@[simp] theorem pieces_network : (network n).pieces = {n.obj.piece} := rfl

@[simp] theorem pieces_inference : (inference i).pieces = {i.obj.piece} := rfl

end

theorem device_member {o m : Object} (hm : m ∈ o.members) : m.device = o.device := by
  cases o with
  | buffer device ptr => exact absurd hm (Multiset.notMem_zero m)
  | network ptr =>
    obtain ⟨b, -, rfl⟩ := List.mem_map.1 (Multiset.mem_coe.1 hm)
    rfl
  | inference ptr =>
    rw [members_inference, Multiset.mem_cons] at hm
    rcases hm with rfl | hm
    · rfl
    · obtain ⟨b, -, rfl⟩ := List.mem_map.1 (Multiset.mem_coe.1 hm)
      rfl

/-- The tag of a buffer's descriptor is among those of the buffer. -/
theorem tag_buffer (device : Device) (ptr : Shared Buffer) :
    (.descriptor ptr.obj.fd, .buffer) ∈ (buffer device ptr).pieces.map Custody.Piece.tag := by
  simp [Custody.Piece.tag, Buffer.descriptorPiece]

theorem tag_network (ptr : Shared Network) :
    (.descriptor ptr.obj.fd, .network) ∈ (network ptr).pieces.map Custody.Piece.tag := by
  simp [Custody.Piece.tag, Network.piece]

theorem tag_inference (ptr : Shared Inference) :
    (.descriptor ptr.obj.fd, .inference) ∈ (inference ptr).pieces.map Custody.Piece.tag := by
  simp [Custody.Piece.tag, Inference.piece]

/-- What an object was made from is its device, its own, or a member's. -/
theorem source_cases {o : Object} {q : Piece} (hq : q ∈ o.pieces) {x : Resource × Kind}
    (hx : x ∈ q.sources) : x = (.descriptor o.device.fd, .device)
      ∨ x ∈ o.pieces.map Custody.Piece.tag
      ∨ ∃ m ∈ o.members, x ∈ m.pieces.map Custody.Piece.tag := by
  cases o with
  | buffer device ptr =>
    rw [pieces_buffer, Multiset.insert_eq_cons, Multiset.mem_cons, Multiset.mem_singleton] at hq
    rcases hq with rfl | rfl
    · obtain rfl := List.mem_singleton.1 hx
      exact .inr (.inl (tag_buffer device ptr))
    · exact .inl (List.mem_singleton.1 hx)
  | network ptr =>
    obtain rfl := Multiset.mem_singleton.1 hq
    rcases List.mem_cons.1 hx with rfl | hx
    · exact .inl rfl
    · obtain ⟨b, hb, rfl⟩ := List.mem_map.1 hx
      exact .inr (.inr ⟨_, List.mem_map_of_mem hb, tag_buffer _ b⟩)
  | inference ptr =>
    obtain rfl := Multiset.mem_singleton.1 hq
    rcases List.mem_cons.1 hx with rfl | hx
    · exact .inr (.inr ⟨network ptr.obj.network, by simp, tag_network ptr.obj.network⟩)
    · obtain ⟨b, hb, rfl⟩ := List.mem_map.1 hx
      refine .inr (.inr ⟨buffer ptr.obj.network.obj.device b, ?_, tag_buffer _ b⟩)
      rw [members_inference]
      exact Multiset.mem_cons_of_mem (List.mem_map_of_mem hb)

end Object

/-! ## The invariant -/

/-- What a process has done, and what its memory is. -/
structure History where
  trace : List Event
  submissions : List Submission
  mem : Int → UInt8

def Process.history (p : Process) : History := ⟨p.trace, p.submissions, p.mem⟩

/-- What devices, objects and whatever is in hand have custody of. -/
def pieces (devices : Multiset Device) (objects : Multiset Object) (hand : Multiset Piece) :
    Multiset Piece :=
  hand + devices.map Device.piece + objects.bind Object.pieces

theorem pieces_cons (devices : Multiset Device) (o : Object) (objects : Multiset Object)
    (hand : Multiset Piece) :
    pieces devices (o ::ₘ objects) hand = pieces devices objects (o.pieces + hand) := by
  rw [pieces, pieces, Multiset.cons_bind]
  abel

/-- The objects that live are counted right, and with the devices and what is in hand they are all
there is.  Besides, what the process has done has the property `J`. -/
structure Stock (J : History → Prop) (devices : Multiset Device) (roots live : Multiset Object)
    (hand : Multiset Piece) (p : Process) : Prop where
  counted : Sharing.Counted Object.shape roots live p.made p.uses
  holds : Holds p.trace (pieces devices live hand)
  lasting : J p.history

/-- What a program knows of a process: its devices, and what its variables refer to. -/
def Owns (J : History → Prop) (devices : Multiset Device) (roots : Multiset Object)
    (hand : Multiset Piece) (p : Process) : Prop :=
  ∃ live, Stock J devices roots live hand p

/-- Every system call was one that the driver expects, and what has been done has the property. -/
def Accepted (J : History → Prop) (p : Process) : Prop := (custody p.trace).isSome ∧ J p.history

/-- What is known when an exception has been thrown, one of those that are `expected`.  What ends
the program without destroying anything leaves it in any state. -/
structure Escaped (expected : Exception → Prop) (J : History → Prop)
    (devices : Multiset Device) (roots : Multiset Object) (e : Exception) (p : Process) : Prop where
  accepted : Accepted J p
  returns : expected e
  owns : e.fatal = false → Owns J devices roots 0 p

/-- No destructor has thrown during unwinding. -/
abbrev Unwound (J : History → Prop) (devices : Multiset Device) (roots : Multiset Object)
    (e : Exception) (p : Process) : Prop := Escaped (fun e ↦ e ≠ .terminate) J devices roots e p

/-- A property that of all system calls only the creation of an inference can end. -/
def Lasting (env : Env) (J : History → Prop) : Prop :=
  ∀ (p : Process) req, (∀ network uapi, req ≠ .inferenceCreate network uapi) → J p.history →
    J (p.called env req).history

variable {J : History → Prop} {env : Env} {devices : Multiset Device}
  {roots live : Multiset Object} {hand : Multiset Piece} {p : Process}

theorem Owns.accepted (h : Owns J devices roots hand p) : Accepted J p := by
  obtain ⟨live, hstock⟩ := h
  obtain ⟨l, hl, -⟩ := hstock.holds.replay
  exact ⟨Option.isSome_iff_exists.2 ⟨l, hl⟩, hstock.lasting⟩

theorem Owns.mono (h : Owns J devices roots hand p) {K : History → Prop}
    (hK : J p.history → K p.history) : Owns K devices roots hand p := by
  obtain ⟨live, hstock⟩ := h
  exact ⟨live, hstock.counted, hstock.holds, hK hstock.lasting⟩

theorem Escaped.mono {expected : Exception → Prop} {e : Exception}
    (h : Escaped expected J devices roots e p) {K : History → Prop}
    (hK : J p.history → K p.history) : Escaped expected K devices roots e p :=
  ⟨⟨h.accepted.1, hK h.accepted.2⟩, h.returns, fun hfatal ↦ (h.owns hfatal).mono hK⟩

/-- An exception that leaves everything as it was. -/
theorem Owns.unwound (h : Owns J devices roots 0 p) {expected : Exception → Prop} {e : Exception}
    (he : expected e) : Escaped expected J devices roots e p :=
  ⟨h.accepted, he, fun _ ↦ h⟩

/-- What is known of memory is in the property. -/
theorem Owns.of_eq (h : Owns J devices roots hand p) {q : Process} (htrace : q.trace = p.trace)
    (huses : q.uses = p.uses) (hmade : q.made = p.made) (hJ : J q.history) :
    Owns J devices roots hand q := by
  obtain ⟨live, hstock⟩ := h
  refine ⟨live, ?_, ?_, hJ⟩
  · rw [huses, hmade]
    exact hstock.counted
  · rw [htrace]
    exact hstock.holds

theorem Lasting.called (hJ : Lasting env J) (h : J p.history) {req : Request}
    (hreq : ∀ network uapi, req ≠ .inferenceCreate network uapi) :
    J (p.called env req).history :=
  hJ p req hreq h

/-! ## System calls -/

/-- The tags a request can name. -/
def tags (devices : Multiset Device) (objects : Multiset Object) (hand : Multiset Piece) :
    Multiset (Resource × Kind) := (pieces devices objects hand).map Custody.Piece.tag

theorem mem_tags {x : Resource × Kind} : x ∈ tags devices roots hand
    ↔ x ∈ hand.map Custody.Piece.tag ∨ (∃ d ∈ devices, x = (.descriptor d.fd, .device))
      ∨ ∃ o ∈ roots, x ∈ o.pieces.map Custody.Piece.tag := by
  simp only [tags, pieces, Multiset.map_add, Multiset.mem_add, Multiset.map_bind,
    Multiset.mem_bind, or_assoc, Multiset.map_map]
  refine or_congr_right (or_congr_left ?_)
  simp only [Multiset.mem_map, Function.comp_apply]
  exact exists_congr fun d ↦ and_congr_right fun _ ↦ eq_comm

/-- What the variables of a program refer to, and what that refers to. -/
def reach (roots : Multiset Object) : Multiset Object := roots + roots.bind Object.members

theorem mem_reach {o : Object} (ho : o ∈ roots) : o ∈ reach roots := Multiset.mem_add.2 (.inl ho)

theorem member_mem_reach {o m : Object} (ho : o ∈ roots) (hm : m ∈ o.members) : m ∈ reach roots :=
  Multiset.mem_add.2 (.inr (Multiset.mem_bind.2 ⟨o, ho, hm⟩))

/-- All of that lives. -/
theorem Stock.mem_live (h : Stock J devices roots live hand p) {o : Object}
    (ho : o ∈ reach roots) : o ∈ live := by
  rcases Multiset.mem_add.1 ho with ho | ho
  · exact h.counted.mem_live ho
  · obtain ⟨o', ho', ho⟩ := Multiset.mem_bind.1 ho
    exact h.counted.mem_live_of_member (h.counted.mem_live ho') ho

theorem Stock.tags_live (h : Stock J devices roots live hand p) {x : Resource × Kind}
    (hx : x ∈ tags devices (reach roots) hand) : x ∈ tags devices live hand := by
  rw [mem_tags] at hx ⊢
  refine hx.imp_right fun hx ↦ hx.imp_right fun hx ↦ ?_
  obtain ⟨o, ho, hx⟩ := hx
  exact ⟨o, h.mem_live ho, hx⟩

section

variable {req : Request} {K : History → Prop}

theorem Stock.called_keep (h : Stock J devices roots live hand p)
    (hK : K (p.called env req).history) (heffect : req.effect (p.reply env req) = .keep)
    (hneeds : ∀ x ∈ req.needs, x ∈ tags devices (reach roots) hand) :
    Stock K devices roots live hand (p.called env req) := by
  refine ⟨h.counted, ?_, hK⟩
  have hholds := (holds_past env h.holds).keep fun x hx ↦ h.tags_live (hneeds x hx)
  rwa [← heffect] at hholds

theorem Stock.called_gain (hkernel : env.kernel.Apart) (h : Stock J devices roots live hand p)
    (hK : K (p.called env req).history) (hrevokes : req.revokes = none)
    (hret : ¬ (p.reply env req).ret < 0) {name : Resource} {kind : Kind}
    (hgains : req.gains (p.reply env req) = some (name, kind))
    (hneeds : ∀ x ∈ req.needs, x ∈ tags devices (reach roots) hand) :
    Stock K devices roots live (⟨name, kind, req.needs⟩ ::ₘ hand) (p.called env req) := by
  have heffect : req.effect (p.reply env req) = .gain name kind := by
    simp only [Request.effect, hrevokes, if_neg hret, hgains]
  have hholds := (holds_past env h.holds).gain
    (fun x hx ↦ h.tags_live (hneeds x hx)) (gains_fresh hkernel h.holds hret hgains) kind
  refine ⟨h.counted, ?_, hK⟩
  rw [← heffect] at hholds
  rw [pieces, Multiset.cons_add, Multiset.cons_add]
  exact hholds

/-- Giving away something in hand that nothing was made from. -/
theorem Stock.called_give {q : Piece} (h : Stock J devices roots live (q ::ₘ hand) p)
    (hJ : J (p.called env req).history) (hrevokes : req.revokes = some q.name)
    (hneeds : req.needs = []) (hhand : ∀ q' ∈ hand, q.tag ∉ q'.sources)
    (hlive : ∀ o ∈ live, ∀ q' ∈ o.pieces, q.tag ∉ q'.sources) :
    Stock J devices roots live hand (p.called env req) := by
  have heffect : req.effect (p.reply env req) = .give q.name := by
    simp only [Request.effect, hrevokes]
  have hbefore := holds_past env h.holds
  rw [pieces, Multiset.cons_add, Multiset.cons_add] at hbefore
  refine ⟨h.counted, ?_, hJ⟩
  have hholds := hbefore.give req.needs (by simp [hneeds]) fun q' hq' ↦ ?_
  · rw [← heffect] at hholds
    exact hholds
  · rcases Multiset.mem_add.1 hq' with hq' | hq'
    · rcases Multiset.mem_add.1 hq' with hq' | hq'
      · exact hhand q' hq'
      · obtain ⟨d, -, rfl⟩ := Multiset.mem_map.1 hq'
        exact List.not_mem_nil
    · obtain ⟨o, ho, hq'⟩ := Multiset.mem_bind.1 hq'
      exact hlive o ho q' hq'

end

/-- No object was made from something in hand that is not a device: what an object was made from is
with an object. -/
theorem Stock.unneeded {q : Piece} (h : Stock J devices roots live (q ::ₘ hand) p)
    (hkind : q.kind ≠ .device) : ∀ o ∈ live, ∀ q' ∈ o.pieces, q.tag ∉ q'.sources := by
  have hnodup := h.holds.sound.nodup
  rw [pieces, Multiset.cons_add, Multiset.cons_add, Multiset.map_cons,
    Multiset.nodup_cons] at hnodup
  have hother (o : Object) (ho : o ∈ live) : q.tag ∉ o.pieces.map Custody.Piece.tag := by
    intro hmem
    obtain ⟨q', hq', htag⟩ := Multiset.mem_map.1 hmem
    refine hnodup.1 (Multiset.mem_map.2 ⟨q', ?_, congrArg Prod.fst htag⟩)
    exact Multiset.mem_add.2 (.inr (Multiset.mem_bind.2 ⟨o, ho, hq'⟩))
  intro o ho q' hq' hx
  rcases Object.source_cases hq' hx with heq | hown | ⟨m, hm, hmember⟩
  · exact hkind (congrArg Prod.snd heq)
  · exact hother o ho hown
  · exact hother m (h.counted.mem_live_of_member ho hm) hmember

/-- A program without variables has custody of nothing. -/
theorem Owns.collect (h : Owns J 0 0 0 p) : custody p.trace = some [] := by
  obtain ⟨live, hstock⟩ := h
  obtain ⟨l, hl, heq⟩ := hstock.holds.replay
  rw [hstock.counted.collect, pieces, Multiset.zero_bind, Multiset.map_zero, Multiset.add_zero,
    Multiset.add_zero, Multiset.coe_eq_zero] at heq
  rw [custody, hl, heq]

/-- At the beginning there is nothing. -/
theorem Owns.start (h : J (Process.history {})) : Owns J 0 0 0 {} := by
  refine ⟨0, .init, ?_, h⟩
  rw [pieces, Multiset.zero_bind, Multiset.map_zero]
  exact .nil

end EthosU
