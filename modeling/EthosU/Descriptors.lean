import EthosU.Lib.Custody
import EthosU.Ownership
import Mathlib.Algebra.Order.BigOperators.Group.List
import Mathlib.Algebra.Order.Group.Nat

/-!
# What the driver expects of a process

Every request of the user space API goes to a descriptor of a certain kind: buffers can be resized,
inferences can be waited for, and nothing can be asked of a descriptor that has been closed.  This
file reads off the system calls of a process whether it has kept to that.

* `Request.needs` are the descriptors a request names, with the kinds they have to be of, and
  `Request.gains` is what comes back from it.
* `custody` replays a trace.  It is `none` as soon as a request has named a descriptor that was not
  open or of another kind, or as something was released that was not held or still needed.
* Without the kinds it is `holdings` (`holdings_of_custody`).
* `Kernel.Apart` adds to what is assumed of the kernel that mappings do not coincide.  `roomy` is
  such a kernel.
-/

set_option autoImplicit false

namespace EthosU

open Wp InferenceCreate

/-- What a process can hold. -/
inductive Kind
  | device
  | buffer
  | network
  | inference
  | mapping
  deriving DecidableEq

abbrev Piece := Custody.Piece Resource Kind

/-- The descriptors that a request names, and what they should be. -/
def Request.needs : Request → List (Resource × Kind)
  | .open _ => []
  | .close _ => []
  | .mmap _ fd => [(.descriptor fd, .buffer)]
  | .munmap _ _ => []
  | .ppoll fd _ => [(.descriptor fd, .inference)]
  | .ping device => [(.descriptor device, .device)]
  | .versionReq device => [(.descriptor device, .device)]
  | .capabilitiesReq device => [(.descriptor device, .device)]
  | .bufferCreate device _ => [(.descriptor device, .device)]
  | .bufferSet fd _ _ => [(.descriptor fd, .buffer)]
  | .bufferGet fd => [(.descriptor fd, .buffer)]
  | .networkCreate device .buffer arg =>
    [(.descriptor device, .device), (.descriptor arg.toInt32, .buffer)]
  | .networkCreate device .index _ => [(.descriptor device, .device)]
  | .networkInfo fd => [(.descriptor fd, .network)]
  | .inferenceCreate network uapi =>
    (.descriptor network, .network)
      :: (ifmFds uapi ++ ofmFds uapi).map fun fd ↦ (.descriptor fd, .buffer)
  | .inferenceStatus fd => [(.descriptor fd, .inference)]
  | .inferenceCancel fd => [(.descriptor fd, .inference)]

/-- What a request that succeeds gives the process. -/
def Request.gains (reply : Reply) : Request → Option (Resource × Kind)
  | .open _ => some (.descriptor reply.ret, .device)
  | .mmap length _ => some (.mapping reply.addr length, .mapping)
  | .bufferCreate _ _ => some (.descriptor reply.ret, .buffer)
  | .networkCreate _ _ _ => some (.descriptor reply.ret, .network)
  | .inferenceCreate _ _ => some (.descriptor reply.ret, .inference)
  | _ => none

/-- What comes of a request. -/
def Request.effect (req : Request) (reply : Reply) : Custody.Effect Resource Kind :=
  match req.revokes with
  | some r => .give r
  | none =>
    if reply.ret < 0 then .keep
    else
      match req.gains reply with
      | some (name, kind) => .gain name kind
      | none => .keep

def Event.act : Event → Option (Custody.Act Resource Kind)
  | .call req reply => some ⟨req.needs, req.effect reply⟩
  | .ended _ => none

def acts (t : List Event) : List (Custody.Act Resource Kind) := t.filterMap Event.act

/-- What a process with this trace has custody of. -/
def custody (t : List Event) : Option (List Piece) := Custody.replay (acts t)

/-- The same in any order. -/
abbrev Holds (t : List Event) (held : Multiset Piece) : Prop := Custody.Holds (acts t) held

/-! ## The ledger -/

/-- What a request gives is made from what it names. -/
theorem grants_eq (req : Request) (reply : Reply) : req.grants reply
    = (req.gains reply).map fun gain ↦ (gain.1, req.needs.map Prod.fst) := by
  cases req with
  | networkCreate device type arg => cases type <;> rfl
  | inferenceCreate network uapi =>
    simp only [Request.grants, Request.gains, Request.needs, Option.map_some, List.map_cons,
      List.map_map]
    rfl
  | _ => rfl

theorem action_eq (e : Event) : e.action = e.act.bind Custody.Act.forget := by
  cases e with
  | ended fd => rfl
  | call req reply =>
    rw [Event.action, Event.act, Option.bind_some, Custody.Act.forget, Request.effect]
    cases req.revokes with
    | some r => rfl
    | none =>
      dsimp only
      split
      · rfl
      · rw [grants_eq]
        cases req.gains reply <;> rfl

theorem holdings_of_custody {t : List Event} {held : List Piece} (h : custody t = some held) :
    holdings t = some (held.map Custody.Piece.forget) := by
  have hactions : actions t = (acts t).filterMap Custody.Act.forget := by
    rw [actions, acts, List.filterMap_filterMap]
    exact List.filterMap_congr fun e _ ↦ action_eq e
  rw [holdings, hactions]
  exact Custody.ledger_replay h

/-! ## The kernel -/

/-- What is mapped is not where something else is mapped. -/
structure Kernel.Apart (kernel : Kernel) : Prop extends kernel.Sane where
  mapped : ∀ past length fd held, holdings past = some held →
    ¬ (kernel.answer past (.mmap length fd)).ret < 0 →
    .mapping (kernel.answer past (.mmap length fd)).addr length ∉ Ledger.resources held

section

variable {env : Env} {p : Process} {held : Multiset Piece}

/-- What the device has finished is no act. -/
theorem acts_past (env : Env) (p : Process) : acts (p.past env) = acts p.trace := by
  rw [Process.past]
  induction env.kernel.ended p.trace with
  | nil => rfl
  | cons fd fds ih => exact ih

theorem holds_past (env : Env) (h : Holds p.trace held) : Holds (p.past env) held := by
  rwa [Holds, acts_past]

/-- What is gained is new. -/
theorem gains_fresh (hkernel : env.kernel.Apart) (h : Holds p.trace held) {req : Request}
    (hret : ¬ (p.reply env req).ret < 0) {name : Resource} {kind : Kind}
    (hgains : req.gains (p.reply env req) = some (name, kind)) :
    name ∉ held.map Custody.Piece.name := by
  obtain ⟨l, hl, rfl⟩ := (holds_past env h).replay
  have hholdings := holdings_of_custody hl
  rw [Multiset.map_coe, Multiset.mem_coe, ← Custody.resources_forget]
  cases name with
  | descriptor fd =>
    refine hkernel.fresh _ req _ fd (req.needs.map Prod.fst) hholdings hret ?_
    rw [grants_eq]
    exact congrArg _ hgains
  | mapping addr length =>
    cases req with
    | mmap length' fd =>
      cases hgains
      exact hkernel.mapped _ _ fd _ hholdings hret
    | _ => cases hgains

end

/-! ## A kernel that is so -/

/-- Where a resource ends in memory. -/
def Resource.limit : Resource → Nat
  | .descriptor _ => 0
  | .mapping addr length => addr + length.toNat + 1

/-- An address above all that is mapped. -/
def above : List Resource → Nat
  | [] => 0
  | r :: held => max r.limit (above held)

theorem limit_le_above {held : List Resource} {r : Resource} (hr : r ∈ held) :
    r.limit ≤ above held := by
  induction held with
  | nil => simp at hr
  | cons r' held ih =>
    rw [List.mem_cons] at hr
    rcases hr with rfl | hr
    · exact Nat.le_max_left _ _
    · exact Nat.le_trans (ih hr) (Nat.le_max_right _ _)

theorem mapping_notMem {held : List Resource} (length : UInt64) :
    .mapping (above held) length ∉ held := by
  intro hmem
  have hle := limit_le_above hmem
  rw [Resource.limit] at hle
  omega

/-- `Interpreter.tidy` with a place of its own for every mapping.  What it is asked for is
`info`. -/
def roomy (info : Words) : Env where
  kernel :=
    { answer := fun past req ↦
        { ret := (Interpreter.tidy.kernel.answer past req).ret
          addr := above (Ledger.resources ((holdings past).getD []))
          data := info } }
  files := Interpreter.tidy.files
  stack := Interpreter.tidy.stack
  heapBool := Interpreter.tidy.heapBool

theorem roomy_apart (info : Words) : (roomy info).kernel.Apart where
  fresh past req held fd sources hheld hret hgrants := by
    refine Interpreter.tidy_sane.fresh past req held fd sources hheld hret ?_
    rw [← hgrants]
    cases req with
    | mmap length fd => cases hgrants
    | networkCreate device type arg => cases type <;> rfl
    | _ => rfl
  close := Interpreter.tidy_sane.close
  munmap := Interpreter.tidy_sane.munmap
  mapped past length fd held hheld _ := by
    have haddr : ((roomy info).kernel.answer past (.mmap length fd)).addr
        = above (Ledger.resources held) := by
      simp only [roomy, hheld, Option.getD_some]
    rw [haddr]
    exact mapping_notMem length

end EthosU
