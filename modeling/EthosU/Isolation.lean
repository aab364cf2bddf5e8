import EthosU.CommandLine
import EthosU.Operations

/-!
# Inferences with buffers of their own

The driver reads and writes the buffers of all inferences that it has been given.  Nothing keeps a
program from handing the same buffer to two of them, or twice to one.

* `Isolated` says of the creation of an inference that its buffers are pairwise different, and not
  those of another inference that is still there.
* `Fresh` says of some shared pointers that no two of them are the same, and that nothing else knows
  what they point at.
* `isolated_create`: if the buffers of an inference are fresh, its creation is `Isolated`.  Fresh
  pointers have descriptors of their own, since whatever a process has custody of has a name of its
  own.
-/

set_option autoImplicit false

namespace EthosU

open Wp Object InferenceCreate

variable {J : History → Prop} {env : Env} {devices : Multiset Device}
  {roots live : Multiset Object} {hand : Multiset Piece} {p : Process}

/-! ## Names -/

/-- No two objects have custody of the same. -/
theorem Stock.eq_of_name (h : Stock J devices roots live hand p) {o o' : Object} (ho : o ∈ live)
    (ho' : o' ∈ live) {q r : Piece} (hq : q ∈ o.pieces) (hr : r ∈ o'.pieces)
    (hname : q.name = r.name) : o = o' := by
  by_contra hne
  obtain ⟨others, rfl⟩ := Multiset.exists_cons_of_mem ho
  have hother : o' ∈ others := (Multiset.mem_cons.1 ho').resolve_left fun heq ↦ hne heq.symm
  have hnodup := h.holds.sound.nodup
  rw [pieces_cons, pieces, Multiset.map_add, Multiset.nodup_add, Multiset.map_add,
    Multiset.map_add] at hnodup
  refine Multiset.disjoint_left.1 hnodup.2.2 (?_ : q.name ∈ _) ?_
  · simp [Multiset.mem_map_of_mem _ hq]
  · rw [hname]
    exact Multiset.mem_map_of_mem _ (Multiset.mem_bind.2 ⟨o', hother, hr⟩)

theorem Stock.eq_of_fd (h : Stock J devices roots live hand p) {d d' : Device}
    {b b' : Shared Buffer} (hb : buffer d b ∈ live) (hb' : buffer d' b' ∈ live)
    (hfd : b.obj.fd = b'.obj.fd) : b = b' := by
  have heq := h.eq_of_name hb hb' (q := b.obj.descriptorPiece d)
    (r := b'.obj.descriptorPiece d') (by simp) (by simp) (congrArg Resource.descriptor hfd)
  cases heq
  rfl

/-- Only the variables of a program refer to inferences. -/
theorem Stock.inference_mem (h : Stock J devices roots live hand p) {i : Shared Inference}
    (hi : inference i ∈ live) : inference i ∈ roots := by
  refine (Multiset.mem_add.1 (h.counted.mem_refs hi)).resolve_right fun hmember ↦ ?_
  obtain ⟨o, -, hmember⟩ := Multiset.mem_bind.1 hmember
  cases o with
  | buffer d b => exact absurd hmember (Multiset.notMem_zero _)
  | network n => simp [Object.shape] at hmember
  | inference j => simp [Object.shape] at hmember

/-- The custody of an inference is that of an object. -/
theorem Stock.exists_inference (h : Stock J devices roots live 0 p) {q : Piece}
    (hq : q ∈ pieces devices live 0) (hkind : q.kind = .inference) :
    ∃ i, inference i ∈ roots ∧ q = i.obj.piece := by
  rw [pieces, Multiset.zero_add, Multiset.mem_add, Multiset.mem_map, Multiset.mem_bind] at hq
  rcases hq with ⟨d, -, rfl⟩ | ⟨o, ho, hq⟩
  · cases hkind
  · cases o with
    | buffer d b =>
      rw [pieces_buffer, Multiset.insert_eq_cons, Multiset.mem_cons, Multiset.mem_singleton] at hq
      rcases hq with rfl | rfl <;> cases hkind
    | network n =>
      obtain rfl := Multiset.mem_singleton.1 hq
      cases hkind
    | inference i => exact ⟨i, h.inference_mem ho, Multiset.mem_singleton.1 hq⟩

/-! ## Fresh buffers -/

/-- No two of the pointers are the same, and nothing else knows what they point at. -/
structure Fresh (roots : Multiset Object) (buffers : List (Shared Buffer)) : Prop where
  nodup : (buffers.map Shared.id).Nodup
  unrelated : ∀ b ∈ buffers, Unrelated roots b.id

theorem fresh_nil : Fresh roots [] := ⟨List.nodup_nil, by simp⟩

/-- What is unrelated to fresh pointers and to everything else is fresh with them. -/
theorem Fresh.append {d : Device} {buffers others : List (Shared Buffer)} (h : Fresh roots buffers)
    (hothers : Fresh (buffers.map (buffer d) + roots) others) :
    Fresh roots (buffers ++ others) := by
  refine ⟨?_, fun b hb ↦ ?_⟩
  · rw [List.map_append]
    refine List.nodup_append.2 ⟨h.nodup, hothers.nodup, ?_⟩
    rintro _ hid _ hid' rfl
    obtain ⟨b, hb, rfl⟩ := List.mem_map.1 hid
    obtain ⟨b', hb', heq⟩ := List.mem_map.1 hid'
    refine (hothers.unrelated b' hb' (buffer d b) ?_).1 heq.symm
    exact Multiset.mem_add.2 (.inl (List.mem_map_of_mem hb))
  · rcases List.mem_append.1 hb with hb | hb
    · exact h.unrelated b hb
    · exact fun o ho ↦ hothers.unrelated b hb o (Multiset.mem_add.2 (.inr ho))

theorem Fresh.cons {d : Device} {b : Shared Buffer} {buffers : List (Shared Buffer)}
    (h : Fresh roots buffers) (hb : Unrelated (buffers.map (buffer d) + roots) b.id) :
    Fresh roots (b :: buffers) := by
  refine ⟨?_, List.forall_mem_cons.2 ⟨fun o ho ↦ hb o (Multiset.mem_add.2 (.inr ho)),
    h.unrelated⟩⟩
  rw [List.map_cons, List.nodup_cons]
  refine ⟨fun hmem ↦ ?_, h.nodup⟩
  obtain ⟨b', hb', heq⟩ := List.mem_map.1 hmem
  exact (hb (buffer d b') (Multiset.mem_add.2 (.inl (List.mem_map_of_mem hb')))).1 heq

theorem fresh_singleton {b : Shared Buffer} (h : Unrelated roots b.id) : Fresh roots [b] :=
  ⟨List.nodup_singleton _, List.forall_mem_singleton.2 h⟩

/-! ## The creation of an inference -/

/-- The buffers of an inference that is created are pairwise different, and are not buffers of
another one. -/
def Isolated (past : List Event) : Request → Prop
  | .inferenceCreate _ uapi => (ifmFds uapi ++ ofmFds uapi).Nodup
    ∧ ∀ held, custody past = some held → ∀ q ∈ held, q.kind = .inference →
      ∀ fd ∈ ifmFds uapi ++ ofmFds uapi, (.descriptor fd, .buffer) ∉ q.sources
  | _ => True

/-- What always holds has held before. -/
theorem Always.of_append {P : List Event → Request → Prop} {later past : List Event}
    (h : Always P (later ++ past)) : Always P past := by
  induction later with
  | nil => exact h
  | cons e later ih =>
    cases e with
    | call req reply => exact ih h.2
    | ended fd => exact ih h

/-- All inferences were. -/
abbrev isolated : History → Prop := fun h ↦ Always Isolated h.trace

theorem lasting_isolated : Lasting env isolated := by
  intro p req hcreate h
  refine Always.called h ?_
  cases req with
  | inferenceCreate network uapi => exact absurd rfl (hcreate network uapi)
  | _ => trivial

/-- **An inference with fresh buffers is isolated**, when there are only `others` besides. -/
theorem isolated_create {others : Multiset Object} {n : Shared Network}
    {arenaBuffer : Shared Buffer} {ifmBuffers ofmBuffers : List (Shared Buffer)}
    (h : Owns J devices roots 0 p)
    (hbuffers : ∀ b ∈ arenaBuffer :: ifmBuffers ++ ofmBuffers, buffer n.obj.device b ∈ roots)
    (hothers : ∀ i, inference i ∈ roots → inference i ∈ others)
    (hfresh : Fresh others (arenaBuffer :: ifmBuffers ++ ofmBuffers))
    (hifm : ifmBuffers.length < ethosuFdMax) (hofm : ofmBuffers.length ≤ ethosuFdMax)
    (counters : List UInt32) (flag : Bool) :
    Isolated (p.past env) (.inferenceCreate n.obj.fd (Inference.request env p arenaBuffer ifmBuffers
      ofmBuffers counters flag).uapi) := by
  obtain ⟨live, hstock⟩ := h
  have hlive {b : Shared Buffer} (hb : b ∈ arenaBuffer :: ifmBuffers ++ ofmBuffers) :
      buffer n.obj.device b ∈ live := hstock.counted.mem_live (hbuffers b hb)
  have hfds : ifmFds (Inference.request env p arenaBuffer ifmBuffers ofmBuffers counters flag).uapi
      ++ ofmFds (Inference.request env p arenaBuffer ifmBuffers ofmBuffers counters flag).uapi
      = (arenaBuffer :: ifmBuffers ++ ofmBuffers).map fun b ↦ b.obj.fd := by
    have hneeds : (Request.inferenceCreate n.obj.fd (Inference.request env p arenaBuffer ifmBuffers
        ofmBuffers counters flag).uapi).needs
      = (Inference.piece ⟨0, n, ifmBuffers, ofmBuffers, arenaBuffer⟩).sources :=
      Owns.needs_request hifm hofm counters flag p 0
    have hinj : Function.Injective fun fd : Fd ↦ (Resource.descriptor fd, Kind.buffer) := by
      intro fd fd' heq
      cases heq
      rfl
    refine List.map_injective_iff.2 hinj ((List.cons.inj hneeds).2.trans ?_)
    rw [List.map_map]
    rfl
  rw [Isolated, hfds]
  refine ⟨?_, fun held hheld q hq hkind fd hfd hsource ↦ ?_⟩
  · refine List.Nodup.map_on (fun b hb b' hb' heq ↦ ?_) (List.Nodup.of_map _ hfresh.nodup)
    exact hstock.eq_of_fd (hlive hb) (hlive hb') heq
  · obtain ⟨l, hl, heq⟩ := (holds_past env hstock.holds).replay
    obtain rfl : l = held := Option.some.inj (hl.symm.trans hheld)
    have hpiece : q ∈ pieces devices live 0 := by
      rw [← heq]
      exact hq
    obtain ⟨i, hi, rfl⟩ := hstock.exists_inference hpiece hkind
    obtain ⟨b, hb, rfl⟩ := List.mem_map.1 hfd
    -- the other inference has a buffer with this descriptor
    rw [Inference.piece, List.mem_cons] at hsource
    rcases hsource with hsource | hsource
    · exact absurd (congrArg Prod.snd hsource) (by simp)
    · obtain ⟨b', hb', hsame⟩ := List.mem_map.1 hsource
      have hmember : buffer i.obj.network.obj.device b' ∈ (inference i).members := by
        rw [members_inference]
        exact Multiset.mem_cons_of_mem (List.mem_map_of_mem hb')
      have hlive' := hstock.counted.mem_live_of_member (hstock.counted.mem_live hi) hmember
      injection hsame with hname
      injection hname with hfd
      obtain rfl := hstock.eq_of_fd hlive' (hlive hb) hfd
      exact (hfresh.unrelated b' hb _ (hothers i hi)).2 _ hmember rfl

end EthosU
