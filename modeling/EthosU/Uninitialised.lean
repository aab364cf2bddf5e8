import EthosU.Request
import EthosU.TwoRuns
import Mathlib.Data.List.Forall2

/-!
# What a request depends on

`Inference::create` fills in a struct that starts out with whatever the stack held, and one of its
arguments is a member of `Interpreter` that no constructor initialises.  This file asks whether the
driver can tell: whether two runs of the same client, answered alike by the driver, can make
requests that differ in a field the user space API gives a meaning to.

* `Client` is what a program can do with the library that leads to a request, `Client.run` does it.
* `SameRequest` relates two structs that the driver reads the same way.
* `Client.IsFunction` is the two-run property: whatever two runs found in uninitialised memory, they
  end in the same way and make the same requests.
* `Client.isFunction_iff` proves that this holds of the clients that make no request at all:
  nothing ever stores to `inference_type`.
-/

set_option autoImplicit false

namespace EthosU

open Wp InferenceCreate

/-! ## Requests -/

/-- The structs handed to `INFERENCE_CREATE`, latest first. -/
def requests (trace : List Event) : List Words :=
  trace.filterMap fun
    | .call (.inferenceCreate _ uapi) _ => some uapi
    | _ => none

/-- The two structs agree on every field the driver reads. -/
structure SameRequest (u v : Words) : Prop where
  /-- The number of input descriptors. -/
  ifmCount : u ifmCount = v ifmCount
  /-- The input descriptors, as many as are counted. -/
  ifm : ifmFds u = ifmFds v
  /-- The number of output descriptors. -/
  ofmCount : u ofmCount = v ofmCount
  /-- The output descriptors, as many as are counted. -/
  ofm : ofmFds u = ofmFds v
  /-- The type of the inference. -/
  inferenceType : u inferenceType = v inferenceType
  /-- The events of the performance counters. -/
  events : pmuEvents u = pmuEvents v
  /-- Whether cycles are counted. -/
  cycleCount : u cycleCount = v cycleCount

theorem SameRequest.refl (u : Words) : SameRequest u u := ⟨rfl, rfl, rfl, rfl, rfl, rfl, rfl⟩

section

variable (env : Env) (p : Process)

theorem requests_past : requests (p.past env) = requests p.trace := by
  have hended : ∀ fds : List Fd, requests (fds.map .ended ++ p.trace) = requests p.trace := by
    intro fds
    induction fds with
    | nil => rfl
    | cons fd fds ih => exact ih
  exact hended _

/-- Only `INFERENCE_CREATE` makes a request. -/
theorem requests_called {req : Request} (h : req.isInferenceCreate = false) :
    requests (p.called env req).trace = requests p.trace := by
  rw [← requests_past env p]
  cases req <;> first | rfl | simp [Request.isInferenceCreate] at h

theorem requests_created (network : Fd) (uapi : Words) :
    requests (p.called env (.inferenceCreate network uapi)).trace = uapi :: requests p.trace := by
  rw [← requests_past env p]
  rfl

end

/-! ## Clients -/

/-- What uninitialised variables happen to hold, on the stack and on the heap. -/
structure Memory where
  stack : List Event → Words
  heapBool : List Event → Bool

/-- An environment whose kernel answers the `n`-th thing that happens with `script n`. -/
def Env.ofScript (script : Nat → Reply) (files : String → File) (m : Memory) : Env where
  kernel := { answer := fun past _ ↦ script past.length }
  files := files
  stack := m.stack
  heapBool := m.heapBool

/-- A program that constructs an `Inference` directly, from either list of arguments, or one that
constructs an `Interpreter` and calls it.  The constructor `Inference.ofBuffersOnly` is the case of
no counters. -/
inductive Client
  | ofBuffers (network : Shared Network) (ifmBuffers ofmBuffers : List (Shared Buffer))
      (counters : List UInt32) (enableCycleCounter : Bool)
  | ofArena (network : Shared Network) (arenaBuffer : Shared Buffer) (counters : List UInt32)
      (enableCycleCounter : Bool)
  | interpreter (model device : String) (arenaSizeOfMB : Int64) (calls : List Interpreter.Call)

namespace Client

/-- Runs the client.  The value says of each call of a method what it threw. -/
def run (env : Env) : Client → M (List (Option Exception))
  | ofBuffers network ifmBuffers ofmBuffers counters enableCycleCounter => do
    let _ ← Inference.ofBuffers env network ifmBuffers ofmBuffers counters enableCycleCounter
    return []
  | ofArena network arenaBuffer counters enableCycleCounter => do
    let _ ← Inference.ofArena env network arenaBuffer counters enableCycleCounter
    return []
  | interpreter model device arenaSizeOfMB calls => do
    let life ← Interpreter.live env model device arenaSizeOfMB calls
    return life.1

/-- The two runs ended in the same way and made the same requests. -/
def SameRun : EStateM.Result Exception Process (List (Option Exception)) →
    EStateM.Result Exception Process (List (Option Exception)) → Prop
  | .ok outcomes p, .ok outcomes' q =>
    outcomes = outcomes' ∧ List.Forall₂ SameRequest (requests p.trace) (requests q.trace)
  | .error e p, .error f q =>
    e = f ∧ List.Forall₂ SameRequest (requests p.trace) (requests q.trace)
  | _, _ => False

/-- What the client asks of the driver is a function of its arguments: two runs that are answered
alike do not differ, whatever they find in uninitialised memory. -/
def IsFunction (client : Client) : Prop :=
  ∀ (script : Nat → Reply) (files : String → File) (p : Process) (m m' : Memory),
    SameRun (client.run (.ofScript script files m) p) (client.run (.ofScript script files m') p)

/-- The arguments get past the guards in front of `INFERENCE_CREATE`. -/
def Submits : Client → Prop
  | ofBuffers _ ifmBuffers ofmBuffers counters _ =>
    ifmBuffers.length ≤ ethosuFdMax ∧ ofmBuffers.length ≤ ethosuFdMax
      ∧ counters.length ≤ ethosuPmuEventMax
  | ofArena _ _ counters _ => counters.length ≤ ethosuPmuEventMax
  | interpreter _ _ _ calls => ∃ timeoutNanos, .invoke timeoutNanos ∈ calls

/-! ## Clients that make no request -/

theorem twins_ofScript (script : Nat → Reply) (files : String → File) (m m' : Memory) :
    Twins (.ofScript script files m) (.ofScript script files m') Eq fun _ _ ↦ True where
  files := rfl
  answered p q req _ hpq := by
    have hreply : p.reply (.ofScript script files m) req
        = q.reply (.ofScript script files m') req := by
      show script p.trace.length = script q.trace.length
      rw [hpq]
    refine ⟨hreply, ?_⟩
    rw [Process.called_trace, Process.called_trace, hreply]
    show _ :: p.trace = _ :: q.trace
    rw [hpq]
  heapBool _ _ _ := trivial
  refl _ := trivial

/-- A client whose arguments do not get past the guards has nothing to tell memories apart by. -/
theorem coupled_run {client : Client} (h : ¬ client.Submits) (script : Nat → Reply)
    (files : String → File) (m m' : Memory) :
    Coupled (Twin Eq) Eq (client.run (.ofScript script files m))
      (client.run (.ofScript script files m')) := by
  have hcopy : ∀ {counters : List UInt32},
      (Inference.copyCounters counters Inference.initializeCounterConfig).length
        = ethosuPmuEventMax → counters.length ≤ ethosuPmuEventMax := by
    intro counters hlen
    rw [Inference.copyCounters, List.length_append] at hlen
    omega
  have htwins := twins_ofScript script files m m'
  cases client with
  | ofBuffers network ifmBuffers ofmBuffers counters enableCycleCounter =>
    refine (coupled_ofBuffers htwins fun arenaBuffer hifm hofm hcounters ↦ ?_).bind
      fun _ _ _ ↦ .pure rfl
    exact (h ⟨hifm, hofm, hcopy hcounters⟩).elim
  | ofArena network arenaBuffer counters enableCycleCounter =>
    refine (coupled_ofArena htwins fun _ _ hcounters ↦ ?_).bind fun _ _ _ ↦ .pure rfl
    exact (h (hcopy hcounters)).elim
  | interpreter model device arenaSizeOfMB calls =>
    exact (coupled_live htwins model device arenaSizeOfMB calls fun hinvoke ↦
      (h hinvoke).elim).bind fun _ _ hlife ↦ .pure hlife.1

theorem isFunction_of_not_submits {client : Client} (h : ¬ client.Submits) :
    client.IsFunction := by
  intro script files p m m'
  obtain ⟨a, b, q, q', hx, hy, hab, hq⟩ | ⟨e, q, q', hx, hy, hq⟩ :=
    (coupled_run h script files m m').cases (⟨rfl, rfl, rfl, rfl⟩ : Twin Eq p p)
  · rw [hx, hy]
    refine ⟨hab, ?_⟩
    rw [hq.trace]
    exact List.forall₂_same.2 fun u _ ↦ .refl u
  · rw [hx, hy]
    refine ⟨rfl, ?_⟩
    rw [hq.trace]
    exact List.forall₂_same.2 fun u _ ↦ .refl u

/-! ## Clients that make one -/

/-- A kernel that grants everything.  Every word of its answers is a one, so a network is a network
compiled by Vela. -/
def granted : Reply := { ret := 3, data := fun _ ↦ 1 }

/-- The environment in which everything is granted, and in which the stack holds `w` everywhere. -/
def granting (w : UInt32) : Env :=
  .ofScript (fun _ ↦ granted) (fun _ ↦ ⟨true, true, 0, []⟩) ⟨fun _ _ ↦ w, fun _ ↦ false⟩

section

variable (w : UInt32)

@[simp] theorem reply_granting (p : Process) (req : Request) :
    p.reply (granting w) req = granted := rfl

theorem wp_checked_granting {Q : Reply → Process → Prop} {E : Exception → Process → Prop}
    {p : Process} (msg : String) (req : Request) :
    wp (checked (granting w) msg req) Q E p ↔ Q granted (p.called (granting w) req) := by
  have hret : ¬ granted.ret < 0 := by decide
  simp [hret]

/-- Made of arguments that are accepted, a request is made. -/
theorem wp_create_granting {network arenaBuffer} {ifmBuffers ofmBuffers : List (Shared Buffer)}
    {counterConfigs : List UInt32} {enableCycleCounter : Bool} {p : Process}
    (h : Inference.Accepts (Inference.getFds ifmBuffers) (Inference.getFds ofmBuffers)
      counterConfigs) :
    wp (Inference.create (granting w) network arenaBuffer ifmBuffers ofmBuffers counterConfigs
      enableCycleCounter) (fun _ p' ↦ requests p'.trace ≠ []) (fun _ _ ↦ False) p := by
  rw [wp_congr (Inference.create_of_accepts (granting w) network arenaBuffer enableCycleCounter p
    h), wp_bind, eioctl, wp_checked_granting, wp_pure, requests_created]
  exact List.cons_ne_nil _ _

theorem wp_copies {E : Exception → Process → Prop} {p : Process} (buffers : List (Shared Buffer)) :
    wp (buffers.forM Shared.copy) (fun _ _ ↦ True) E p :=
  wp_forM (fun _ _ ↦ True) (fun _ s _ _ ↦ (wp_copy s).2 trivial) buffers [] trivial

theorem wp_ofBuffers_granting {network : Shared Network}
    {ifmBuffers ofmBuffers : List (Shared Buffer)} {counters : List UInt32}
    {enableCycleCounter : Bool} {p : Process} (hifm : ifmBuffers.length ≤ ethosuFdMax)
    (hofm : ofmBuffers.length ≤ ethosuFdMax) (hcounters : counters.length ≤ ethosuPmuEventMax) :
    wp (Inference.ofBuffers (granting w) network ifmBuffers ofmBuffers counters enableCycleCounter)
      (fun _ p' ↦ requests p'.trace ≠ []) (fun _ _ ↦ False) p := by
  have hacc : Inference.Accepts (Inference.getFds ifmBuffers) (Inference.getFds ofmBuffers) _ :=
    Inference.accepts_copyCounters (by simpa using hifm) (by simpa using hofm) hcounters
  rw [Inference.ofBuffers, wp_bind, wp_copy, wp_bind]
  refine wp_mono (wp_copies _) (fun _ _ _ ↦ ?_) (fun _ _ h ↦ h)
  rw [wp_bind]
  refine wp_mono (wp_copies _) (fun _ _ _ ↦ ?_) (fun _ _ h ↦ h)
  simp only [unwinding, catching, Buffer.new, Buffer.resize, eioctl, emmap, wp_bind, wp_onThrow,
    if_neg (Nat.not_lt.2 hcounters), wp_checked_granting, wp_pure, wp_makeShared, wp_discard]
  exact wp_mono (wp_create_granting w hacc) (fun _ _ h ↦ h) (fun _ _ h ↦ h.elim)

theorem wp_ofArena_granting {network : Shared Network} {arenaBuffer : Shared Buffer}
    {counters : List UInt32} {enableCycleCounter : Bool} {p : Process}
    (hcounters : counters.length ≤ ethosuPmuEventMax) :
    wp (Inference.ofArena (granting w) network arenaBuffer counters enableCycleCounter)
      (fun _ p' ↦ requests p'.trace ≠ []) (fun _ _ ↦ False) p := by
  have hacc : Inference.Accepts (Inference.getFds []) (Inference.getFds []) _ :=
    Inference.accepts_copyCounters (by decide) (by decide) hcounters
  simp only [Inference.ofArena, unwinding, wp_bind, wp_copy, wp_onThrow,
    if_neg (Nat.not_lt.2 hcounters), wp_pure]
  exact wp_mono (wp_create_granting w hacc) (fun _ _ h ↦ h) (fun _ _ h ↦ h.elim)

/-- The interpreter can be invoked: its pointers are not empty, and it has no counters that would be
rejected. -/
structure Ready (this : Interpreter) : Prop where
  network : this.network.isSome
  arenaBuffer : this.arenaBuffer.isSome
  pmuCounters : this.pmuCounters.length ≤ ethosuPmuEventMax

theorem wp_new_granting {model device : String} {arenaSizeOfMB : Int64} {p : Process} :
    wp (Interpreter.new (granting w) model device arenaSizeOfMB) (fun this _ ↦ Ready this)
      (fun _ _ ↦ False) p := by
  have hfile : ((granting w).files model).opens = true := rfl
  have hvela : granted.data NetworkInfo.isVela = 1 := rfl
  simp only [Interpreter.new, Interpreter.init, Interpreter.openModel, Device.new,
    Device.capabilities, Buffer.new, Buffer.resize, Buffer.data, Buffer.offset, File.read,
    Network.ofBuffer, Network.create, Network.ofInfo, unwinding, catching, eopen, eioctl, emmap,
    wp_bind, wp_get, wp_onObject, wp_onThrow, wp_onProc, wp_discard, wp_checked_granting, wp_pure,
    wp_modify, wp_makeShared, wp_copy, hfile, hvela, if_true]
  exact ⟨rfl, rfl, Nat.zero_le _⟩

/-- A request stays on record. -/
theorem kept_requests (env : Env) : Kept env fun t ↦ requests t ≠ [] := by
  intro p req hreq hp
  rwa [requests_called env p hreq]

theorem twinRequests_requests (env : Env) :
    TwinRequests env env (Diagonal fun t ↦ requests t ≠ []) Eq := by
  intro network arenaBuffer ifmBuffers ofmBuffers counterConfigs c _ hc _ _ _ p q hpq
  subst hc
  have hsame : Inference.request env p arenaBuffer ifmBuffers ofmBuffers counterConfigs c
      = Inference.request env q arenaBuffer ifmBuffers ofmBuffers counterConfigs c := by
    rw [Inference.request, Inference.request, hpq.1]
  rw [← hsame]
  refine answered_diagonal hpq.1 ?_
  rw [requests_created]
  exact List.cons_ne_nil _ _

theorem wp_invoke_granting {timeoutNanos : Int64} {s : Session} (h : Ready s.this) :
    wp (Interpreter.invoke (granting w) timeoutNanos) (fun _ s' ↦ requests s'.proc.trace ≠ [])
      (fun _ s' ↦ requests s'.proc.trace ≠ []) s := by
  obtain ⟨network, hnetwork⟩ := Option.isSome_iff_exists.1 h.network
  obtain ⟨arenaBuffer, harena⟩ := Option.isSome_iff_exists.1 h.arenaBuffer
  have htwins := (kept_requests (granting w)).twins
  have hcounters : (s.this.pmuCounters.map UInt8.toUInt32).length ≤ ethosuPmuEventMax := by
    rw [List.length_map]
    exact h.pmuCounters
  rw [Interpreter.invoke]
  simp only [wp_bind, wp_get, hnetwork, harena, deref, wp_pure, wp_onProc, wp_makeShared, wp_modify]
  refine wp_mono (wp_ofArena_granting w hcounters) (fun inference p' hp' ↦ ?_)
    (fun _ _ h ↦ h.elim)
  -- the request is on record, and what follows makes no other
  refine wp_mono (keeps_of_coupled (coupled_option (coupled_inferenceRelease htwins) _) hp')
    (fun _ p' hp' ↦ ?_) (fun _ _ h ↦ h)
  refine wp_mono (keeps_of_coupled (coupled_wait htwins _ _) hp') (fun _ p' hp' ↦ ?_)
    (fun _ _ h ↦ h)
  refine wp_mono (keeps_of_coupled (coupled_status htwins _) hp') (fun _ p' hp' ↦ ?_)
    (fun _ _ h ↦ h)
  exact (wp_ite _ _ _).2 ⟨fun _ ↦ hp', fun _ ↦ hp'⟩

theorem wp_performAll_granting {calls : List Interpreter.Call}
    (hcalls : ∃ timeoutNanos, .invoke timeoutNanos ∈ calls) {s : Session} (h : Ready s.this) :
    wp (Interpreter.performAll (granting w) calls) (fun _ s' ↦ requests s'.proc.trace ≠ [])
      (fun _ s' ↦ requests s'.proc.trace ≠ []) s := by
  have htwins := (kept_requests (granting w)).twins
  induction calls generalizing s with
  | nil =>
    obtain ⟨t, ht⟩ := hcalls
    exact absurd ht List.not_mem_nil
  | cons call calls ih =>
    rw [Interpreter.performAll, wp_bind, Interpreter.attempt, wp_tryCatch, wp_bind]
    cases call with
    | setPmuCycleCounters counters cycleCounter =>
      obtain ⟨t, ht⟩ := hcalls
      have hcalls' : ∃ timeoutNanos, .invoke timeoutNanos ∈ calls :=
        ⟨t, (List.mem_cons.1 ht).resolve_left (by simp)⟩
      rw [Interpreter.perform, Interpreter.setPmuCycleCounters]
      by_cases hlen : counters.length = ethosuPmuEventMax
      · rw [if_neg (not_not.2 hlen)]
        exact (wp_bind _ _).2 (ih hcalls' ⟨h.network, h.arenaBuffer, Nat.le_of_eq hlen⟩)
      · rw [if_pos hlen]
        simp only [wp_bind, wp_throw, Exception.fatal, Bool.false_eq_true, if_false, wp_pure]
        exact ih hcalls' h
    | invoke timeoutNanos =>
      have hrest : ∀ (outcome : Option Exception) (s' : Session), requests s'.proc.trace ≠ [] →
          wp (do return outcome :: (← Interpreter.performAll (granting w) calls))
            (fun _ s' ↦ requests s'.proc.trace ≠ [])
            (fun _ s' ↦ requests s'.proc.trace ≠ []) s' := by
        intro outcome s' hs'
        rw [wp_bind]
        exact keeps_of_coupled_method (coupled_performAll htwins calls fun _ ↦
          twinRequests_requests _) hs'
      refine wp_mono (wp_invoke_granting w h) (fun _ s' hs' ↦ hrest none s' hs')
        (fun e s' hs' ↦ ?_)
      rw [wp_ite]
      exact ⟨fun _ ↦ hs', fun _ ↦ hrest (some e) s' hs'⟩

/-- Where everything is granted, a client that gets past the guards makes a request. -/
theorem wp_run_granting {client : Client} (h : client.Submits) (p : Process) :
    wp (client.run (granting w)) (fun _ p' ↦ requests p'.trace ≠ [])
      (fun _ p' ↦ requests p'.trace ≠ []) p := by
  cases client with
  | ofBuffers network ifmBuffers ofmBuffers counters enableCycleCounter =>
    rw [run, wp_bind]
    exact wp_mono (wp_ofBuffers_granting w h.1 h.2.1 h.2.2) (fun _ _ h ↦ h) (fun _ _ h ↦ h.elim)
  | ofArena network arenaBuffer counters enableCycleCounter =>
    rw [run, wp_bind]
    exact wp_mono (wp_ofArena_granting w h) (fun _ _ h ↦ h) (fun _ _ h ↦ h.elim)
  | interpreter model device arenaSizeOfMB calls =>
    rw [run, wp_bind, Interpreter.live, wp_bind]
    refine wp_mono (wp_new_granting w) (fun this p' hthis ↦ ?_) (fun _ _ h ↦ h.elim)
    rw [wp_onObject]
    exact wp_performAll_granting w h hthis

/-- Every request carries the word the stack held. -/
def Carries (t : List Event) : Prop := ∀ u ∈ requests t, u inferenceType = w

theorem kept_carries : Kept (granting w) (Carries w) := by
  intro p req hreq hp
  rwa [Carries, requests_called _ p hreq]

theorem twinRequests_carries :
    TwinRequests (granting w) (granting w) (Diagonal (Carries w)) Eq := by
  intro network arenaBuffer ifmBuffers ofmBuffers counterConfigs c _ hc hifm hofm _ p q hpq
  subst hc
  have hsame : Inference.request (granting w) p arenaBuffer ifmBuffers ofmBuffers counterConfigs c
      = Inference.request (granting w) q arenaBuffer ifmBuffers ofmBuffers counterConfigs c := by
    rw [Inference.request, Inference.request, hpq.1]
  rw [← hsame]
  refine answered_diagonal hpq.1 ?_
  rw [Carries, requests_created]
  refine List.forall_mem_cons.2 ⟨?_, hpq.2⟩
  rw [Inference.request, Inference.encode_inferenceType _ _ _ _ (by simpa using hifm)
    (by simpa using hofm)]
  rfl

theorem carries_run (client : Client) {p : Process} (hp : Carries w p.trace) :
    wp (client.run (granting w)) (fun _ p' ↦ Carries w p'.trace)
      (fun _ p' ↦ Carries w p'.trace) p := by
  have htwins := (kept_carries w).twins
  have hreq := twinRequests_carries w
  refine keeps_of_coupled (V := Eq) ?_ hp
  cases client with
  | ofBuffers network ifmBuffers ofmBuffers counters enableCycleCounter =>
    exact (coupled_ofBuffers htwins fun _ ↦ hreq _ _ _ _ _ _ _ rfl).bind fun _ _ _ ↦ .pure rfl
  | ofArena network arenaBuffer counters enableCycleCounter =>
    exact (coupled_ofArena htwins (hreq _ _ _ _ _ _ _ rfl)).bind fun _ _ _ ↦ .pure rfl
  | interpreter model device arenaSizeOfMB calls =>
    exact (coupled_live htwins model device arenaSizeOfMB calls fun _ ↦ hreq).bind
      fun _ _ hlife ↦ .pure hlife.1

end

/-- **A request shows what was on the stack.**  With everything granted, the stack of one run
holding zeros and that of the other one ones, the requests differ. -/
theorem not_isFunction_of_submits {client : Client} (h : client.Submits) :
    ¬ client.IsFunction := by
  intro hfun
  have hrun : ∀ w, wp (client.run (granting w))
      (fun _ p ↦ requests p.trace ≠ [] ∧ Carries w p.trace)
      (fun _ p ↦ requests p.trace ≠ [] ∧ Carries w p.trace) {} := fun w ↦
    wp_conj (wp_run_granting w h {}) (carries_run w client (by intro u hu; cases hu))
  have hdiffer : ∀ t u : List Event, requests t ≠ [] ∧ Carries 0 t →
      requests u ≠ [] ∧ Carries 1 u → ¬ List.Forall₂ SameRequest (requests t) (requests u) := by
    rintro t u ⟨hne, ht⟩ ⟨-, hu⟩ hall
    obtain ⟨x, xs, hx⟩ := List.exists_cons_of_ne_nil hne
    rw [hx] at hall
    obtain ⟨y, ys, hxy, -, hy⟩ := List.forall₂_cons_left_iff.1 hall
    have h0 : x inferenceType = 0 := ht x (hx ▸ List.mem_cons_self)
    have h1 : y inferenceType = 1 := hu y (hy ▸ List.mem_cons_self)
    have heq := hxy.inferenceType
    rw [h0, h1] at heq
    exact absurd heq (by decide)
  have hsame : SameRun (client.run (granting 0) {}) (client.run (granting 1) {}) :=
    hfun (fun _ ↦ granted) (fun _ ↦ ⟨true, true, 0, []⟩) {} ⟨fun _ _ ↦ 0, fun _ ↦ false⟩
      ⟨fun _ _ ↦ 1, fun _ ↦ false⟩
  have h0 := hrun 0
  have h1 := hrun 1
  rw [wp] at h0 h1
  cases hx : client.run (granting 0) {} <;> cases hy : client.run (granting 1) {} <;>
    rw [hx, hy] at hsame <;> rw [hx] at h0 <;> rw [hy] at h1
  · exact hdiffer _ _ h0 h1 hsame.2
  · exact hsame
  · exact hsame
  · exact hdiffer _ _ h0 h1 hsame.2

/-- **What a client asks of the driver is a function of its arguments exactly if it asks nothing.**
-/
theorem isFunction_iff (client : Client) : client.IsFunction ↔ ¬ client.Submits :=
  ⟨fun hfun hsub ↦ not_isFunction_of_submits hsub hfun, isFunction_of_not_submits⟩

/-- An interpreter that is constructed and invoked once. -/
theorem invoke_once_not_isFunction :
    ¬ (interpreter "model_vela.tflite" "/dev/ethosu0" 16 [.invoke 60000000000]).IsFunction :=
  not_isFunction_of_submits ⟨60000000000, List.mem_cons_self⟩

end Client

end EthosU
