import EthosU.BufferState
import EthosU.Isolation
import Mathlib.Data.Set.Operations

/-!
# Where buffers are in memory

A kernel maps nothing where something else is mapped.  Two buffers that are there at the same time
have no address in common then, so that what is written to one of them leaves the other alone.

* `Kernel.Spacious` is what is assumed of the kernel, and `spacious` is such a kernel that keeps
  buffers, too.
* `Spaced` is what follows for a process, whatever calls it makes (`Spaced.called`), and
  `Owns.region_subset` for the buffers that a program knows of.
-/

set_option autoImplicit false

namespace EthosU

open Wp Object Set

/-- The addresses of a mapping. -/
def Resource.region : Resource → Set Int
  | .descriptor _ => ∅
  | .mapping addr length => {a | addr ≤ a ∧ a < addr + length.toNat}

/-- Two resources have no address in common. -/
def Resource.Clear (r r' : Resource) : Prop := ∀ a ∈ r.region, a ∉ r'.region

theorem Resource.Clear.symm {r r' : Resource} (h : r.Clear r') : r'.Clear r :=
  fun a ha' ha ↦ h a ha ha'

/-- The addresses of a buffer. -/
def Buffer.region (buffer : Buffer) : Set Int :=
  {a | buffer.dataPtr ≤ a ∧ a < buffer.dataPtr + buffer.dataCapacity.toNat}

/-- What is mapped has no address in common with anything else. -/
structure Kernel.Spacious (kernel : Kernel) : Prop extends kernel.Apart where
  spaced : ∀ past length fd held, holdings past = some held →
    ¬ (kernel.answer past (.mmap length fd)).ret < 0 → ∀ r ∈ Ledger.resources held,
      (Resource.mapping (kernel.answer past (.mmap length fd)).addr length).Clear r

/-- No two mappings that are held have an address in common. -/
def Spaced (t : List Event) : Prop :=
  ∀ held, custody t = some held → held.Pairwise fun q r ↦ q.name.Clear r.name

variable {J : History → Prop} {env : Env} {devices : Multiset Device} {roots : Multiset Object}
  {hand : Multiset Piece} {p : Process}

/-- Every call keeps that. -/
theorem Spaced.called (h : Spaced p.trace) (hkernel : env.kernel.Spacious) (req : Request) :
    Spaced (p.called env req).trace := by
  intro held hheld
  have hacts : acts (p.called env req).trace
      = ⟨req.needs, req.effect (p.reply env req)⟩ :: acts p.trace := by
    rw [← acts_past env p]
    rfl
  rw [custody, hacts, Custody.replay, Option.bind_eq_some_iff] at hheld
  obtain ⟨before, hbefore, hstep⟩ := hheld
  refine Custody.step_pairwise hstep ?_ (h before hbefore)
  intro name kind hgain q hq
  cases name with
  | descriptor fd => exact fun _ ha ↦ absurd ha (notMem_empty _)
  | mapping addr length =>
    have hholdings : holdings (p.past env) = some (before.map Custody.Piece.forget) := by
      refine holdings_of_custody ?_
      rwa [custody, acts_past]
    -- a mapping is the answer to `mmap`
    rw [Request.effect] at hgain
    split at hgain
    · cases hgain
    split at hgain
    · cases hgain
    rename_i hret
    split at hgain
    · rename_i hgains
      cases hgain
      cases req with
      | mmap length' fd =>
        cases hgains
        refine hkernel.spaced _ _ fd _ hholdings hret _ ?_
        rw [Custody.resources_forget]
        exact List.mem_map_of_mem hq
      | _ => cases hgains
    · cases hgain

theorem spaced_nil : Spaced [] := by
  rintro held ⟨⟩
  exact List.Pairwise.nil

namespace Owns

/-- Everything is held when the next call is made. -/
theorem held_past (h : Owns J devices roots hand p) (env : Env) :
    ∃ held, custody (p.past env) = some held
      ∧ ∀ o ∈ reach roots, ∀ q ∈ o.pieces, q ∈ held := by
  obtain ⟨live, hstock⟩ := h
  obtain ⟨held, hheld, heq⟩ := (holds_past env hstock.holds).replay
  refine ⟨held, hheld, fun o ho q hq ↦ ?_⟩
  rw [← Multiset.mem_coe, heq, pieces, Multiset.mem_add, Multiset.mem_bind]
  exact .inr ⟨o, hstock.mem_live ho, hq⟩

/-- **Two buffers have no address in common.** -/
theorem region_subset (h : Owns J devices roots hand p) (hspaced : Spaced p.trace) {d d' : Device}
    {b b' : Shared Buffer} (hb : buffer d b ∈ reach roots) (hb' : buffer d' b' ∈ reach roots)
    (hne : b.id ≠ b'.id) : b.obj.region ⊆ b'.obj.regionᶜ := by
  obtain ⟨live, hstock⟩ := h
  obtain ⟨held, hheld, heq⟩ := hstock.holds.replay
  have hmem {d : Device} {b : Shared Buffer} (hb : buffer d b ∈ reach roots) :
      b.obj.mappingPiece ∈ held := by
    rw [← Multiset.mem_coe, heq, pieces, Multiset.mem_add, Multiset.mem_bind]
    exact .inr ⟨_, hstock.mem_live hb, by simp⟩
  have hdiffer : b.obj.mappingPiece ≠ b'.obj.mappingPiece := by
    intro hsame
    refine hne ?_
    have hname := hstock.eq_of_name (hstock.mem_live hb) (hstock.mem_live hb') (by simp)
      (by simp) (congrArg Custody.Piece.name hsame)
    exact congrArg Object.id hname
  have : Std.Symm fun q r : Piece ↦ q.name.Clear r.name := ⟨fun _ _ h ↦ h.symm⟩
  exact (hspaced held hheld).forall (hmem hb) (hmem hb') hdiffer

end Owns

/-! ## A kernel that is so -/

/-- `roomy`, with a driver that keeps buffers like `keeper`. -/
def spacious (info : Words) (files : String → File) : Env where
  kernel :=
    { answer := fun past req ↦
        match req with
        | .bufferSet fd offset size =>
          (Buffer.keeper info).kernel.answer past (.bufferSet fd offset size)
        | .bufferGet fd => (Buffer.keeper info).kernel.answer past (.bufferGet fd)
        | req => (roomy info).kernel.answer past req }
  files := files
  stack := (roomy info).stack
  heapBool := (roomy info).heapBool

theorem spacious_keepsBuffers (info : Words) (files : String → File) :
    (spacious info files).kernel.KeepsBuffers where
  set := (Buffer.keeper_keepsBuffers info).set
  get := (Buffer.keeper_keepsBuffers info).get
  offset := (Buffer.keeper_keepsBuffers info).offset
  size := (Buffer.keeper_keepsBuffers info).size

theorem spacious_spacious (info : Words) (files : String → File) :
    (spacious info files).kernel.Spacious where
  fresh past req held fd sources hheld hret hgrants := by
    cases req with
    | bufferSet fd offset size => cases hgrants
    | bufferGet fd => cases hgrants
    | _ => exact (roomy_apart info).fresh past _ held fd sources hheld hret hgrants
  close := (roomy_apart info).close
  munmap := (roomy_apart info).munmap
  mapped := (roomy_apart info).mapped
  spaced past length fd held hheld _ r hr := by
    have haddr : ((spacious info files).kernel.answer past (.mmap length fd)).addr
        = above (Ledger.resources held) := by
      simp only [spacious, roomy, hheld, Option.getD_some]
    rw [haddr]
    cases r with
    | descriptor fd => exact fun _ _ ↦ notMem_empty _
    | mapping addr length' =>
      have hle := limit_le_above hr
      rw [Resource.limit] at hle
      rintro a ⟨ha, -⟩ ⟨-, ha'⟩
      omega

end EthosU
