import EthosU.CallOrder
import EthosU.Operations
import Mathlib.Data.List.Perm.Basic

/-!
# Several interpreters in one process

A process may have any number of interpreters, of one device or of several, and use them in turns.
They have descriptors, mappings and shared pointers of their own, but share the process.

* `Interpreters.Step` is what a program can do: construct an interpreter, call one of its public
  methods, destroy it.  Exceptions are caught, and the program goes on.
* `Interpreter.roots` is what the members of an interpreter refer to, and `Member` says that this,
  next to what else there is, is what the process owns.  The constructor, every method and the
  destructor keep it (`wp_new_member`, `wp_answer_member`, `wp_destroy_member`), whatever else there
  is.
* `Interpreters.all_accepted` puts this together for every program.
-/

set_option autoImplicit false

namespace EthosU

open Wp Object

namespace Interpreters

/-- What a program does with its interpreters. -/
inductive Step
  | construct (model device : String) (arenaSizeOfMB : Int64)
  | call (k : Nat) (call : Interpreter.PublicCall)
  | destroy (k : Nat)

variable (env : Env)

/-- The interpreters there are after a step.  A step that names none of them does nothing. -/
def perform (is : List Interpreter) : Step → M (List Interpreter)
  | .construct model device arenaSizeOfMB =>
    tryCatch
      (do
        let i ← Interpreter.new env model device arenaSizeOfMB
        return is ++ [i])
      fun e ↦ if e.fatal then throw e else return is
  | .call k call =>
    match is[k]? with
    | some i => do
      let answered ← onObject i (Interpreter.attempt (discard (Interpreter.answer env call)))
      return is.set k answered.2
    | none => return is
  | .destroy k =>
    match is[k]? with
    | some i => do
      i.destroy env
      return is.eraseIdx k
    | none => return is

def performAll : List Step → List Interpreter → M (List Interpreter)
  | [], is => return is
  | step :: steps, is => do
    let is ← perform env is step
    performAll steps is

end Interpreters

/-! ## One of them -/

namespace Interpreter

/-- What the members of an interpreter refer to. -/
def roots (i : Interpreter) : Multiset Object :=
  i.inference.toList.map Object.inference + (i.network.toList.map Object.network
    + (i.arenaBuffer.toList.map (Object.buffer i.device)
      + i.networkBuffer.toList.map (Object.buffer i.device)))

/-- Everything an interpreter has belongs to its device. -/
def Whole (i : Interpreter) : Prop := ∀ o ∈ i.roots, o.device = i.device

end Interpreter

/-- A property that everything has. -/
def anything : History → Prop := fun _ ↦ True

theorem lasting_anything {env : Env} : Lasting env anything := fun _ _ _ _ ↦ trivial

/-- The members of an interpreter of the device `d`, with the other devices and variables of the
program, are all there is. -/
structure Member (devices : Multiset Device) (others : Multiset Object) (d : Device) (s : Session) :
    Prop where
  device : s.this.device = d
  whole : s.this.Whole
  owns : EthosU.Owns anything (d ::ₘ devices) (s.this.roots + others) 0 s.proc

/-- What is known when a method has thrown. -/
structure Thrown (devices : Multiset Device) (others : Multiset Object) (d : Device)
    (e : Exception) (s : Session) : Prop where
  accepted : Accepted anything s.proc
  returns : e ≠ .terminate
  member : e.fatal = false → Member devices others d s

section

variable {env : Env} {devices : Multiset Device} {others : Multiset Object} {d : Device}
  {s : Session} {α : Type}

theorem Member.thrown (h : Member devices others d s) {e : Exception} (he : e ≠ .terminate) :
    Thrown devices others d e s :=
  ⟨h.owns.accepted, he, fun _ ↦ h⟩

/-- What happens to the process while an object is in use, whose members are some of the variables.
-/
theorem Thrown.of {i : Interpreter} {roots : Multiset Object}
    (hmember : ∀ p, EthosU.Owns anything (d ::ₘ devices) roots 0 p → Member devices others d ⟨p, i⟩)
    {e : Exception} {p : Process} (he : Unwound anything (d ::ₘ devices) roots e p) :
    Thrown devices others d e ⟨p, i⟩ :=
  ⟨he.accepted, he.returns, fun hfatal ↦ hmember p (he.owns hfatal)⟩

theorem Member.lift (h : Member devices others d s) {e : Exception} {p' : Process}
    (he : Unwound anything (d ::ₘ devices) (s.this.roots + others) e p') :
    Thrown devices others d e { s with proc := p' } :=
  .of (fun _ hp ↦ ⟨h.device, h.whole, hp⟩) he

/-- A part of a method that leaves everything as it is. -/
theorem Member.wp_query {x : M α} (h : Member devices others d s)
    (hx : wp x (fun _ p ↦ EthosU.Owns anything (d ::ₘ devices) (s.this.roots + others) 0 p)
      (Unwound anything (d ::ₘ devices) (s.this.roots + others)) s.proc) :
    wp (onProc x) (fun _ s' ↦ s'.this = s.this ∧ Member devices others d s')
      (Thrown devices others d) s := by
  rw [wp_onProc]
  exact wp_mono hx (fun _ _ hp ↦ ⟨rfl, h.device, h.whole, hp⟩) fun _ _ he ↦ h.lift he

/-- A pointer that points at nothing ends the program. -/
theorem Member.wp_deref (h : Member devices others d s) (ptr : Option α) :
    wp (deref ptr) (fun a s' ↦ ptr = some a ∧ s' = s) (Thrown devices others d) s := by
  cases ptr with
  | none => exact ⟨h.owns.accepted, by simp, fun hfatal ↦ by cases hfatal⟩
  | some a => exact ⟨rfl, rfl⟩

/-! ## Destruction -/

theorem Owns.releaseOption {J : History → Prop} {roots : Multiset Object} {p : Process}
    {E : Exception → Process → Prop} {o : Option (Shared α)} {f : Shared α → Object}
    {release : Shared α → M Unit} (h : EthosU.Owns J devices (o.toList.map f + roots) 0 p)
    (hrelease : ∀ x p, EthosU.Owns J devices (f x ::ₘ roots) 0 p →
      wp (release x) (fun _ p' ↦ EthosU.Owns J devices roots 0 p') (fun _ _ ↦ False) p) :
    wp (o.forM release) (fun _ p' ↦ EthosU.Owns J devices roots 0 p') E p := by
  cases o with
  | none => simpa using h
  | some x =>
    exact wp_mono (hrelease x p (by simpa using h)) (fun _ _ hq ↦ hq) (fun _ _ hf ↦ hf.elim)

theorem Member.wp_destroy (hkernel : env.kernel.Apart) (h : Member devices others d s)
    (hothers : ∀ o ∈ others, o.device ≠ d) {E : Exception → Process → Prop} :
    wp (s.this.destroy env) (fun _ p' ↦ EthosU.Owns anything devices others 0 p') E s.proc := by
  have howns := h.owns
  rw [Interpreter.roots, add_assoc, add_assoc, add_assoc] at howns
  rw [Interpreter.destroy]
  refine Owns.destroyBoth (howns.releaseOption fun _ _ h' ↦
    h'.releaseInference hkernel lasting_anything) fun p₁ h₁ ↦ ?_
  refine Owns.destroyBoth (h₁.releaseOption fun _ _ h' ↦
    h'.releaseNetwork hkernel lasting_anything) fun p₂ h₂ ↦ ?_
  refine Owns.destroyBoth (h₂.releaseOption fun _ _ h' ↦
    h'.releaseBuffer hkernel lasting_anything) fun p₃ h₃ ↦ ?_
  refine Owns.destroyBoth (h₃.releaseOption fun _ _ h' ↦
    h'.releaseBuffer hkernel lasting_anything) fun p₄ h₄ ↦ ?_
  rw [h.device]
  exact h₄.deviceDestroy hkernel lasting_anything hothers

/-! ## Construction -/

/-- An object without members. -/
theorem Member.blank {p : Process} {mb : Int64} {counters : List UInt8} {flag : Bool}
    (h : EthosU.Owns anything (d ::ₘ devices) others 0 p) :
    Member devices others d ⟨p, ⟨d, none, none, none, none, mb, counters, flag⟩⟩ :=
  ⟨rfl, fun o ho ↦ by simp [Interpreter.roots] at ho, by simpa [Interpreter.roots] using h⟩

variable {p : Process} {b a : Shared Buffer} {n : Shared Network} {mb : Int64}
  {counters : List UInt8} {flag : Bool}

theorem Member.addNetworkBuffer
    (h : EthosU.Owns anything (d ::ₘ devices) (buffer d b ::ₘ others) 0 p) :
    Member devices others d ⟨p, ⟨d, some b, none, none, none, mb, counters, flag⟩⟩ := by
  refine ⟨rfl, fun o ho ↦ ?_, by simpa [Interpreter.roots] using h⟩
  obtain rfl : o = buffer d b := by simpa [Interpreter.roots] using ho
  rfl

theorem Member.addNetwork (hn : n.obj.device = d)
    (h : EthosU.Owns anything (d ::ₘ devices) (network n ::ₘ buffer d b ::ₘ others) 0 p) :
    Member devices others d ⟨p, ⟨d, some b, none, some n, none, mb, counters, flag⟩⟩ := by
  refine ⟨rfl, fun o ho ↦ ?_, by simpa [Interpreter.roots] using h⟩
  have ho' : o = buffer d b ∨ o = network n := by
    simpa [Interpreter.roots, or_comm] using ho
  rcases ho' with rfl | rfl
  · rfl
  · exact hn

theorem Member.addArenaBuffer (hn : n.obj.device = d)
    (h : EthosU.Owns anything (d ::ₘ devices)
      (buffer d a ::ₘ network n ::ₘ buffer d b ::ₘ others) 0 p) :
    Member devices others d ⟨p, ⟨d, some b, some a, some n, none, mb, counters, flag⟩⟩ := by
  refine ⟨rfl, fun o ho ↦ ?_, ?_⟩
  · have ho' : o = buffer d b ∨ o = buffer d a ∨ o = network n := by
      simp only [Interpreter.roots, Option.toList_none, List.map_nil, Multiset.coe_nil, zero_add,
        Option.toList_some, List.map_cons, Multiset.coe_singleton, Multiset.mem_add,
        Multiset.mem_singleton] at ho
      tauto
    rcases ho' with rfl | rfl | rfl
    · rfl
    · rfl
    · exact hn
  · convert h using 1
    simp only [Interpreter.roots, Option.toList_none, List.map_nil, Multiset.coe_nil, zero_add,
      Option.toList_some, List.map_cons, Multiset.coe_singleton, ← Multiset.singleton_add]
    abel

theorem Member.wp_init (hkernel : env.kernel.Apart) (model : String)
    (h : EthosU.Owns anything (d ::ₘ devices) others 0 p) :
    wp (Interpreter.init env model) (fun _ s' ↦ Member devices others d s')
      (Thrown devices others d) ⟨p, ⟨d, none, none, none, none, mb, counters, flag⟩⟩ := by
  have hd : d ∈ d ::ₘ devices := Multiset.mem_cons_self _ _
  rw [Interpreter.init, wp_bind, wp_get, wp_bind, wp_onProc]
  refine wp_mono (h.capabilities lasting_anything hd) (fun _ p₁ h₁ ↦ ?_)
    (fun _ _ he ↦ .of (fun _ ↦ .blank) he)
  rw [wp_bind, wp_onProc, Interpreter.openModel]
  by_cases hopens : (env.files model).opens = true
  · rw [if_pos hopens, wp_pure, wp_bind, wp_onProc]
    refine wp_mono (h₁.makeBuffer hkernel lasting_anything hd _) (fun b p₂ h₂ ↦ ?_)
      (fun _ _ he ↦ .of (fun _ ↦ .blank) he)
    have hb : buffer d b ∈ buffer d b ::ₘ others := Multiset.mem_cons_self _ _
    rw [wp_bind, wp_modify, wp_bind, wp_onProc]
    refine wp_mono (h₂.2.resize lasting_anything (mem_reach hb) _) (fun _ p₃ h₃ ↦ ?_)
      (fun _ _ he ↦ .of (fun _ ↦ .addNetworkBuffer) he)
    rw [wp_bind, wp_onProc, wp_bind]
    refine wp_mono (h₃.bufferData lasting_anything (mem_reach hb)) (fun address p₄ h₄ ↦ ?_)
      (fun _ _ he ↦ .of (fun _ ↦ .addNetworkBuffer) he)
    rw [File.read, wp_modify, wp_bind, wp_onProc, wp_bind]
    -- reading the model changes nothing but the memory
    have h₄' : EthosU.Owns anything (d ::ₘ devices) (buffer d b ::ₘ others) 0 (p₄.loaded
        ⟨env.files model, b.obj.fd, address,
          (env.files model).delivered (env.files model).tellg.toNat⟩) :=
      h₄.of_eq rfl rfl rfl trivial
    refine wp_mono (h₄'.networkOfBuffer hkernel lasting_anything hd hb) (fun network p₅ h₅ ↦ ?_)
      (fun _ _ he ↦ .of (fun _ ↦ .addNetworkBuffer) he)
    refine wp_mono (EthosU.Owns.shareNetwork (E := fun _ _ ↦ False) h₅.1 (by simpa using h₅.2))
      (fun n p₆ h₆ ↦ ?_) (fun _ _ hf ↦ hf.elim)
    obtain ⟨⟨past, fd, -, hn⟩, -, h₆⟩ := h₆
    have hdevice : n.obj.device = d := by rw [hn]; rfl
    rw [wp_bind, wp_modify]
    by_cases hvela : (!n.obj.isVelaModel) = true
    · rw [if_pos hvela]
      exact (Member.addNetwork hdevice h₆).thrown (by simp)
    · rw [if_neg hvela, wp_bind, wp_onProc]
      refine wp_mono (h₆.makeBuffer hkernel lasting_anything hd _) (fun a p₇ h₇ ↦ ?_)
        (fun _ _ he ↦ .of (fun _ ↦ .addNetwork hdevice) he)
      rw [wp_bind, wp_modify, wp_onProc]
      exact wp_mono (h₇.2.resize lasting_anything (mem_reach (Multiset.mem_cons_self _ _)) _)
        (fun _ _ h₈ ↦ .addArenaBuffer hdevice h₈)
        (fun _ _ he ↦ .of (fun _ ↦ .addArenaBuffer hdevice) he)
  · rw [if_neg hopens, wp_throw]
    exact (Member.blank h₁).thrown (by simp)

/-- No device is opened twice. -/
theorem Owns.device_ne {J : History → Prop} {roots : Multiset Object} {hand : Multiset Piece}
    (h : EthosU.Owns J (d ::ₘ devices) roots hand p) {d' : Device} (hd' : d' ∈ devices) :
    d' ≠ d := by
  obtain ⟨live, hstock⟩ := h
  have hnodup := hstock.holds.sound.nodup
  rw [pieces, Multiset.map_cons, Multiset.add_cons, Multiset.cons_add, Multiset.map_cons,
    Multiset.nodup_cons] at hnodup
  rintro rfl
  refine hnodup.1 (Multiset.mem_map.2 ⟨d'.piece, ?_, rfl⟩)
  exact Multiset.mem_add.2 (.inl (Multiset.mem_add.2 (.inr (Multiset.mem_map_of_mem _ hd'))))

/-- **The constructor adds an interpreter to what there is, or leaves everything as it was.** -/
theorem wp_new_member (hkernel : env.kernel.Apart) (model device : String) (arenaSizeOfMB : Int64)
    (h : EthosU.Owns anything devices others 0 p) (hothers : ∀ o ∈ others, o.device ∈ devices) :
    wp (Interpreter.new env model device arenaSizeOfMB)
      (fun i p' ↦ Member devices others i.device ⟨p', i⟩) (Unwound anything devices others) p := by
  rw [Interpreter.new, wp_bind]
  refine wp_mono (h.deviceNew hkernel lasting_anything device) (fun d p₁ h₁ ↦ ?_) (fun _ _ he ↦ he)
  rw [wp_bind, wp_get, wp_bind, wp_onObject, unwinding, wp_onThrow]
  refine wp_mono (Member.wp_init hkernel model h₁) (fun _ s' hs' ↦ ?_) (fun e s' he ↦ ?_)
  · have hdevice := hs'.device
    rw [wp_pure]
    exact hdevice ▸ hs'
  · by_cases hfatal : e.fatal = true
    · rw [if_neg (by simp [hfatal])]
      exact ⟨he.accepted, he.returns, fun hnot ↦ absurd hfatal (by simp [hnot])⟩
    · rw [if_pos (by simpa using hfatal), wp_bind, wp_get, wp_onProc]
      have hmember := he.member (by simpa using hfatal)
      refine wp_mono (hmember.wp_destroy (E := fun _ _ ↦ False) hkernel fun o ho ↦
        h₁.device_ne (hothers o ho)) (fun _ p' h' ↦ h'.unwound he.returns) (fun _ _ hf ↦ hf.elim)

/-! ## Methods -/

theorem Member.wp_invoke (hkernel : env.kernel.Apart) (h : Member devices others d s)
    (timeoutNanos : Int64) :
    wp (Interpreter.invoke env timeoutNanos) (fun _ s' ↦ Member devices others d s')
      (Thrown devices others d) s := by
  obtain ⟨p, i⟩ := s
  rw [Interpreter.invoke, wp_bind, wp_get, wp_bind]
  refine wp_mono (h.wp_deref i.network) (fun n s₁ hs₁ ↦ ?_) (fun _ _ he ↦ he)
  obtain ⟨hn, rfl⟩ := hs₁
  rw [wp_bind]
  refine wp_mono (h.wp_deref i.arenaBuffer) (fun a s₂ hs₂ ↦ ?_) (fun _ _ he ↦ he)
  obtain ⟨ha, rfl⟩ := hs₂
  have hmem_n : network n ∈ i.roots := by simp [Interpreter.roots, hn]
  have hmem_a : buffer i.device a ∈ i.roots := by simp [Interpreter.roots, ha]
  have hdevice : n.obj.device = i.device := h.whole _ hmem_n
  have hroots {o : Object} (ho : o ∈ i.roots) : o ∈ i.roots + others :=
    Multiset.mem_add.2 (.inl ho)
  rw [wp_bind, wp_onProc, wp_bind]
  refine wp_mono (h.owns.ofArena hkernel lasting_anything (hroots hmem_n)
    (by rw [hdevice]; exact hroots hmem_a) fun _ _ _ ↦ trivial) (fun x p₁ h₁ ↦ ?_)
    (fun _ _ he ↦ h.lift he)
  refine wp_mono (EthosU.Owns.shareInference (E := fun _ _ ↦ False) h₁.2) (fun y p₂ h₂ ↦ ?_)
    (fun _ _ hf ↦ hf.elim)
  obtain ⟨hy, -, h₂⟩ := h₂
  -- the object with the new inference, while the old one is still referred to
  let i' : Interpreter := { i with inference := some y }
  have hsplit : inference y ::ₘ (i.roots + others)
      = i.inference.toList.map inference + (i'.roots + others) := by
    simp only [i', Interpreter.roots, Option.toList_some, List.map_singleton,
      Multiset.coe_singleton, ← Multiset.singleton_add]
    abel
  have hwhole : i'.Whole := by
    intro o ho
    have ho' : o ∈ inference y ::ₘ (i.roots + others) := by
      rw [hsplit]
      exact Multiset.mem_add.2 (.inr (Multiset.mem_add.2 (.inl ho)))
    by_cases hnew : o = inference y
    · rw [hnew]
      show y.obj.network.obj.device = i.device
      rw [hy, h₁.1]
      exact hdevice
    · refine h.whole o ?_
      simp only [i', Interpreter.roots, Option.toList_some, List.map_singleton,
        Multiset.coe_singleton, Multiset.mem_add, Multiset.mem_singleton] at ho
      simp only [Interpreter.roots, Multiset.mem_add]
      tauto
  rw [hsplit] at h₂
  rw [wp_bind, wp_modify, wp_bind, wp_onProc]
  refine wp_mono (Owns.releaseOption (E := fun _ _ ↦ False) h₂ fun _ _ h' ↦
    h'.releaseInference hkernel lasting_anything) (fun _ p₃ h₃ ↦ ?_) (fun _ _ hf ↦ hf.elim)
  have hmember : Member devices others d ⟨p₃, i'⟩ := ⟨h.device, hwhole, h₃⟩
  have hmem_y : inference y ∈ i'.roots + others := by simp [i', Interpreter.roots]
  rw [wp_bind]
  refine wp_mono (hmember.wp_query (h₃.wait lasting_anything hmem_y timeoutNanos))
    (fun _ s₄ h₄ ↦ ?_) (fun _ _ he ↦ he)
  obtain ⟨p₄, i₄⟩ := s₄
  obtain ⟨rfl, h₄⟩ := h₄
  rw [wp_bind]
  refine wp_mono (h₄.wp_query (h₄.owns.status lasting_anything hmem_y)) (fun status s₅ h₅ ↦ ?_)
    (fun _ _ he ↦ he)
  rw [wp_ite]
  exact ⟨fun _ ↦ h₅.2.thrown (by simp), fun _ ↦ h₅.2⟩

theorem Member.wp_asksInference (h : Member devices others d s) {x : Inference → M α}
    (hx : ∀ y : Shared Inference, ∀ roots p, inference y ∈ roots →
      EthosU.Owns anything (d ::ₘ devices) roots 0 p →
      wp (x y.obj) (fun _ p' ↦ EthosU.Owns anything (d ::ₘ devices) roots 0 p')
        (Unwound anything (d ::ₘ devices) roots) p) :
    wp (do
        let inference ← deref s.this.inference
        onProc (x inference.obj)) (fun _ s' ↦ Member devices others d s')
      (Thrown devices others d) s := by
  rw [wp_bind]
  refine wp_mono (h.wp_deref s.this.inference) (fun y s' hs' ↦ ?_) (fun _ _ he ↦ he)
  obtain ⟨hy, rfl⟩ := hs'
  have hmem : inference y ∈ s'.this.roots + others := by simp [Interpreter.roots, hy]
  exact wp_mono (h.wp_query (hx y _ _ hmem h.owns)) (fun _ _ h' ↦ h'.2) (fun _ _ he ↦ he)

theorem Member.wp_typedBuffer (h : Member devices others d s)
    (dataOffset : Network → Int32 → M Int32)
    (hoffset : ∀ n index p, wp (dataOffset n index) (fun _ p' ↦ p' = p)
      (fun e p' ↦ (∃ msg, e = .error msg) ∧ p' = p) p) (index : Int32) :
    wp (Interpreter.typedBuffer env dataOffset index) (fun _ s' ↦ Member devices others d s')
      (Thrown devices others d) s := by
  rw [Interpreter.typedBuffer, wp_bind, wp_get, wp_bind]
  refine wp_mono (h.wp_deref s.this.network) (fun n s₁ hs₁ ↦ ?_) (fun _ _ he ↦ he)
  obtain ⟨hn, rfl⟩ := hs₁
  rw [wp_bind]
  refine wp_mono (h.wp_query (x := dataOffset n.obj index) (wp_mono (hoffset _ _ _)
    (fun _ p' hp' ↦ hp' ▸ h.owns) (fun e p' he ↦ ?_))) (fun offset s₂ hs₂ ↦ ?_) (fun _ _ he ↦ he)
  · obtain ⟨⟨msg, rfl⟩, rfl⟩ := he
    exact h.owns.unwound (by simp)
  obtain ⟨hsame, h₂⟩ := hs₂
  rw [wp_bind, ← hsame]
  refine wp_mono (h₂.wp_deref s₂.this.arenaBuffer) (fun a s₃ hs₃ ↦ ?_) (fun _ _ he ↦ he)
  obtain ⟨ha, rfl⟩ := hs₃
  have hmem : buffer s₃.this.device a ∈ s₃.this.roots + others := by simp [Interpreter.roots, ha]
  rw [wp_bind]
  exact wp_mono (h₂.wp_query (h₂.owns.bufferData lasting_anything (mem_reach hmem)))
    (fun _ _ h' ↦ h'.2) (fun _ _ he ↦ he)

theorem wp_dataOffsetAt_same (msg : String) (offsets : List Int32) (index : Int32) (p : Process) :
    wp (Network.dataOffsetAt msg offsets index) (fun _ p' ↦ p' = p)
      (fun e p' ↦ (∃ msg, e = .error msg) ∧ p' = p) p := by
  rw [Network.dataOffsetAt]
  split
  · exact rfl
  · exact ⟨⟨msg, rfl⟩, rfl⟩

/-- **Every public method leaves an interpreter with what it needs.** -/
theorem Member.wp_answer (hkernel : env.kernel.Apart) (h : Member devices others d s)
    (call : Interpreter.PublicCall) :
    wp (Interpreter.answer env call) (fun _ s' ↦ Member devices others d s')
      (Thrown devices others d) s := by
  cases call with
  | setPmuCycleCounters counters cycleCounter =>
    rw [Interpreter.answer, wp_bind, Interpreter.setPmuCycleCounters, wp_ite]
    exact ⟨fun _ ↦ h.thrown (by simp), fun _ ↦ ⟨h.device, h.whole, h.owns⟩⟩
  | invoke timeoutNanos =>
    rw [Interpreter.answer, wp_bind]
    exact wp_mono (h.wp_invoke hkernel timeoutNanos) (fun _ _ h' ↦ h') (fun _ _ he ↦ he)
  | getPmuCounters =>
    rw [Interpreter.answer, wp_map]
    exact h.wp_asksInference fun y roots p hy h' ↦ h'.getPmuCounters lasting_anything hy
  | getCycleCounter =>
    rw [Interpreter.answer, wp_map]
    exact h.wp_asksInference fun y roots p hy h' ↦ h'.getCycleCounter lasting_anything hy
  | typedInputBuffer index =>
    rw [Interpreter.answer, wp_map]
    exact h.wp_typedBuffer _ (fun _ _ _ ↦ wp_dataOffsetAt_same _ _ _ _) index
  | typedOutputBuffer index =>
    rw [Interpreter.answer, wp_map]
    exact h.wp_typedBuffer _ (fun _ _ _ ↦ wp_dataOffsetAt_same _ _ _ _) index
  | getInputInfo =>
    rw [Interpreter.answer, wp_map, Interpreter.getInputInfo, wp_bind, wp_get, wp_bind]
    refine wp_mono (h.wp_deref _) (fun n s₁ hs₁ ↦ ?_) (fun _ _ he ↦ he)
    obtain ⟨-, rfl⟩ := hs₁
    exact wp_mono (h.wp_deref _) (fun _ _ hs₂ ↦ hs₂.2 ▸ h) (fun _ _ he ↦ he)
  | getOutputInfo =>
    rw [Interpreter.answer, wp_map, Interpreter.getOutputInfo, wp_bind, wp_get, wp_bind]
    refine wp_mono (h.wp_deref _) (fun n s₁ hs₁ ↦ ?_) (fun _ _ he ↦ he)
    obtain ⟨-, rfl⟩ := hs₁
    exact wp_mono (h.wp_deref _) (fun _ _ hs₂ ↦ hs₂.2 ▸ h) (fun _ _ he ↦ he)

end

/-! ## All of them -/

namespace Interpreters

/-- The interpreters, in any order, are all there is. -/
structure Keep (is : Multiset Interpreter) (p : Process) : Prop where
  owns : EthosU.Owns anything (is.map Interpreter.device) (is.bind Interpreter.roots) 0 p
  whole : ∀ i ∈ is, i.Whole

variable {env : Env} {is : Multiset Interpreter} {i : Interpreter} {p : Process}

theorem keep_cons : Keep (i ::ₘ is) p
    ↔ Member (is.map Interpreter.device) (is.bind Interpreter.roots) i.device ⟨p, i⟩
      ∧ ∀ j ∈ is, j.Whole := by
  constructor
  · intro h
    have howns := h.owns
    rw [Multiset.map_cons, Multiset.cons_bind] at howns
    exact ⟨⟨rfl, h.whole i (Multiset.mem_cons_self i is), howns⟩,
      fun j hj ↦ h.whole j (Multiset.mem_cons_of_mem hj)⟩
  · rintro ⟨hmember, hwhole⟩
    refine ⟨?_, Multiset.forall_mem_cons.2 ⟨hmember.whole, hwhole⟩⟩
    rw [Multiset.map_cons, Multiset.cons_bind]
    exact hmember.owns

/-- What the interpreters refer to belongs to their devices. -/
theorem device_mem (hwhole : ∀ j ∈ is, j.Whole) {o : Object}
    (ho : o ∈ is.bind Interpreter.roots) : o.device ∈ is.map Interpreter.device := by
  obtain ⟨j, hj, ho⟩ := Multiset.mem_bind.1 ho
  rw [hwhole j hj o ho]
  exact Multiset.mem_map_of_mem _ hj

/-- What a program knows when an exception has ended it. -/
def Ended (e : Exception) (p : Process) : Prop :=
  (custody p.trace).isSome ∧ e ≠ .terminate ∧ e.fatal = true

/-- Constructing an interpreter beside the others. -/
theorem Keep.construct (hkernel : env.kernel.Apart) (h : Keep is p) (model device : String)
    (arenaSizeOfMB : Int64) :
    wp (Interpreter.new env model device arenaSizeOfMB) (fun i p' ↦ Keep (i ::ₘ is) p')
      (fun e p' ↦ if e.fatal then Ended e p' else Keep is p') p := by
  refine wp_mono (wp_new_member hkernel model device arenaSizeOfMB h.owns
    fun o ho ↦ device_mem h.whole ho) (fun i p' h' ↦ keep_cons.2 ⟨h', h.whole⟩) (fun e p' he ↦ ?_)
  by_cases hfatal : e.fatal = true
  · rw [if_pos hfatal]
    exact ⟨he.accepted.1, he.returns, hfatal⟩
  · rw [if_neg hfatal]
    exact ⟨he.owns (by simpa using hfatal), h.whole⟩

/-- A call of one of them, caught. -/
theorem Keep.call (hkernel : env.kernel.Apart) (h : Keep (i ::ₘ is) p)
    (call : Interpreter.PublicCall) :
    wp (onObject i (Interpreter.attempt (discard (Interpreter.answer env call))))
      (fun answered p' ↦ Keep (answered.2 ::ₘ is) p') Ended p := by
  obtain ⟨hmember, hwhole⟩ := keep_cons.1 h
  have hkeep {s : Session} (hs : Member (is.map Interpreter.device) (is.bind Interpreter.roots)
      i.device s) : Keep (s.this ::ₘ is) s.proc :=
    keep_cons.2 ⟨⟨rfl, hs.whole, hs.device.symm ▸ hs.owns⟩, hwhole⟩
  rw [wp_onObject, Interpreter.attempt, wp_tryCatch, wp_bind, wp_discard]
  refine wp_mono (hmember.wp_answer hkernel call) (fun _ s hs ↦ hkeep hs) (fun e s he ↦ ?_)
  by_cases hfatal : e.fatal = true
  · rw [if_pos hfatal]
    exact ⟨he.accepted.1, he.returns, hfatal⟩
  · rw [if_neg hfatal]
    exact hkeep (he.member (by simpa using hfatal))

/-- Destroying one of them leaves the others as they are. -/
theorem Keep.destroy (hkernel : env.kernel.Apart) (h : Keep (i ::ₘ is) p)
    {E : Exception → Process → Prop} : wp (i.destroy env) (fun _ p' ↦ Keep is p') E p := by
  obtain ⟨hmember, hwhole⟩ := keep_cons.1 h
  exact wp_mono (hmember.wp_destroy (E := fun _ _ ↦ False) hkernel fun o ho ↦
    hmember.owns.device_ne (device_mem hwhole ho)) (fun _ _ h' ↦ ⟨h', hwhole⟩)
    (fun _ _ hf ↦ hf.elim)

theorem keep_perform (hkernel : env.kernel.Apart) {is : List Interpreter} (h : Keep is p)
    (step : Step) : wp (perform env is step) (fun is' p' ↦ Keep is' p') Ended p := by
  cases step with
  | construct model device arenaSizeOfMB =>
    rw [perform, wp_tryCatch, wp_bind]
    refine wp_mono (h.construct hkernel model device arenaSizeOfMB) (fun i p' h' ↦ ?_)
      (fun e p' he ↦ ?_)
    · rwa [wp_pure, Multiset.coe_eq_coe.2 List.perm_append_comm]
    · by_cases hfatal : e.fatal = true
      · rw [if_pos hfatal] at he ⊢
        exact he
      · rw [if_neg hfatal] at he ⊢
        exact he
  | call k call =>
    by_cases hk : k < is.length
    · rw [perform, List.getElem?_eq_getElem hk, wp_bind]
      rw [← Multiset.coe_eq_coe.2 (List.getElem_cons_eraseIdx_perm hk), ← Multiset.cons_coe] at h
      refine wp_mono (h.call hkernel call) (fun answered p' h' ↦ ?_) (fun _ _ he ↦ he)
      rw [wp_pure, Multiset.coe_eq_coe.2 (List.set_perm_cons_eraseIdx hk _)]
      exact h'
    · rw [perform, List.getElem?_eq_none (Nat.not_lt.1 hk), wp_pure]
      exact h
  | destroy k =>
    by_cases hk : k < is.length
    · rw [perform, List.getElem?_eq_getElem hk, wp_bind]
      rw [← Multiset.coe_eq_coe.2 (List.getElem_cons_eraseIdx_perm hk), ← Multiset.cons_coe] at h
      exact h.destroy hkernel
    · rw [perform, List.getElem?_eq_none (Nat.not_lt.1 hk), wp_pure]
      exact h

theorem keep_performAll (hkernel : env.kernel.Apart) (steps : List Step) {is : List Interpreter}
    (h : Keep is p) : wp (performAll env steps is) (fun is' p' ↦ Keep is' p') Ended p := by
  induction steps generalizing is p with
  | nil => exact h
  | cons step steps ih =>
    rw [performAll, wp_bind]
    exact wp_mono (keep_perform hkernel h step) (fun is' p' h' ↦ ih h') (fun _ _ he ↦ he)

/-- **Whatever a program does with its interpreters, and in whichever order, every request names
live descriptors of the right kind, nothing is released twice or while it is needed, and when the
last interpreter is gone, so is everything they had.** -/
theorem all_accepted (hkernel : env.kernel.Apart) (steps : List Step) :
    (∀ is p, performAll env steps [] {} = .ok is p →
      (custody p.trace).isSome ∧ (is = [] → custody p.trace = some []))
    ∧ ∀ e p, performAll env steps [] {} = .error e p → Ended e p := by
  have hstart : Keep ([] : List Interpreter) {} := ⟨Owns.start trivial, by simp⟩
  have hrun := keep_performAll hkernel steps hstart
  refine ⟨fun is p hok ↦ ?_, fun e p herror ↦ error_of_wp hrun herror⟩
  have hkeep := ok_of_wp hrun hok
  refine ⟨hkeep.owns.accepted.1, ?_⟩
  rintro rfl
  exact hkeep.owns.collect

theorem all_accepted_roomy :
    (∀ is p, performAll (roomy fun _ ↦ 1) [.construct "first_vela.tflite" "/dev/ethosu0" 16,
        .construct "second_vela.tflite" "/dev/ethosu0" 16, .call 0 (.invoke 1),
        .call 1 (.invoke 1), .destroy 0, .call 0 .getCycleCounter, .destroy 0] [] {} = .ok is p →
      (custody p.trace).isSome ∧ (is = [] → custody p.trace = some []))
    ∧ ∀ e p, performAll (roomy fun _ ↦ 1) [.construct "first_vela.tflite" "/dev/ethosu0" 16,
        .construct "second_vela.tflite" "/dev/ethosu0" 16, .call 0 (.invoke 1),
        .call 1 (.invoke 1), .destroy 0, .call 0 .getCycleCounter, .destroy 0] [] {} = .error e p →
      Ended e p :=
  all_accepted (roomy_apart _) _

end Interpreters

end EthosU
