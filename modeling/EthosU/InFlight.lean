import EthosU.Request
import EthosU.TwoRuns

/-!
# Inferences in flight

An interpreter has one tensor arena, and every inference it creates computes in it.  This file asks
when two of them can be running at once.

* `running` is what the device is doing: the inferences that were created and have neither ended
  nor been closed or cancelled.  A kernel is `PollsHonestly` if `ppoll` reports an inference as
  ready only when it no longer runs.
* `OneAtATime` says that nothing was running whenever an inference was created.
* `Invoke` ignores what `wait` returns, and keeps the inference when `wait` throws.  `abandoned`
  are the inferences this leaves behind: still running when `ppoll` gave up on them, and since then.
* `Interpreter.oneAtATime_iff` proves that this is the only way to have two inferences in flight:
  a run is `OneAtATime` exactly if nothing was abandoned whenever an inference was created.

The invariant behind it, `Sound`, is that between two calls every running inference has been
abandoned.  Within a call there is one exception, the inference just created, from the moment it is
created until the moment `ppoll` answers.
-/

set_option autoImplicit false

namespace EthosU

open Wp

/-! ## What the device is doing -/

namespace Event

/-- The event is a call of `INFERENCE_CREATE`, whether it is granted or not. -/
def creates : Event → Bool
  | call req _ => req.isInferenceCreate
  | ended _ => false

/-- The inference an event starts. -/
def started : Event → Option Fd
  | call (.inferenceCreate _ _) reply => if reply.ret < 0 then none else some reply.ret
  | _ => none

/-- The inference an event puts an end to. -/
def finished : Event → Option Fd
  | call (.close fd) _ => some fd
  | call (.inferenceCancel fd) _ => some fd
  | call _ _ => none
  | ended fd => some fd

/-- The inference whose `ppoll` timed out or failed. -/
def gaveUp : Event → Option Fd
  | call (.ppoll fd _) reply => if 0 < reply.ret then none else some fd
  | _ => none

end Event

/-- The inferences that are running. -/
def running : List Event → List Fd
  | [] => []
  | e :: past => e.started.toList ++ (running past).filter fun fd ↦ e.finished ≠ some fd

/-- The inferences that were running when `ppoll` gave up on them, and still are. -/
def abandoned : List Event → List Fd
  | [] => []
  | e :: past =>
    (e.gaveUp.toList.filter fun fd ↦ fd ∈ running past)
      ++ (abandoned past).filter fun fd ↦ e.finished ≠ some fd

/-- No inference was created while another one was running. -/
def OneAtATime : List Event → Prop
  | [] => True
  | e :: past => (e.creates = true → running past = []) ∧ OneAtATime past

/-- No inference was created while another one was abandoned. -/
def NoneAbandoned : List Event → Prop
  | [] => True
  | e :: past => (e.creates = true → abandoned past = []) ∧ NoneAbandoned past

/-- `ppoll` reports only what is so. -/
def PollsHonestly (kernel : Kernel) : Prop :=
  ∀ past fd timeout, 0 < (kernel.answer past (.ppoll fd timeout)).ret → fd ∉ running past

instance decidableOneAtATime : ∀ t : List Event, Decidable (OneAtATime t)
  | [] => .isTrue trivial
  | _ :: past =>
    have := decidableOneAtATime past
    inferInstanceAs (Decidable (_ ∧ _))

theorem mem_running_of_mem_abandoned {fd : Fd} :
    ∀ {t : List Event}, fd ∈ abandoned t → fd ∈ running t
  | e :: past, h => by
    rw [abandoned, List.mem_append] at h
    rw [running, List.mem_append]
    refine .inr ?_
    rcases h with h | h
    · obtain ⟨hgave, hrun⟩ := List.mem_filter.1 h
      refine List.mem_filter.2 ⟨by simpa using hrun, ?_⟩
      -- giving up on an inference does not end it
      cases e with
      | ended fd' => simp [Event.gaveUp] at hgave
      | call req reply => cases req <;> simp_all [Event.gaveUp, Event.finished]
    · obtain ⟨hab, hlive⟩ := List.mem_filter.1 h
      exact List.mem_filter.2 ⟨mem_running_of_mem_abandoned hab, hlive⟩

/-! ## The invariant -/

/-- Every running inference has been abandoned, except possibly `o`. -/
def Pending (o : Option Fd) (t : List Event) : Prop :=
  ∀ fd ∈ running t, o = some fd ∨ fd ∈ abandoned t

/-- So far abandoned inferences were the only reason for two to be in flight; and every running
inference has been abandoned, except possibly `o`. -/
structure Sound (o : Option Fd) (t : List Event) : Prop where
  only : OneAtATime t ↔ NoneAbandoned t
  pending : Pending o t

theorem Sound.nil : Sound none [] := ⟨Iff.rfl, fun _ h ↦ absurd h List.not_mem_nil⟩

theorem Sound.cons {o : Option Fd} {t : List Event} (h : Sound o t) {e : Event}
    (hstart : e.started = none) (hcreate : e.creates = false) : Sound o (e :: t) := by
  refine ⟨?_, fun fd hfd ↦ ?_⟩
  · rw [OneAtATime, NoneAbandoned, hcreate, h.only]
    simp
  · rw [running, hstart] at hfd
    obtain ⟨hrun, hlive⟩ := List.mem_filter.1 hfd
    refine (h.pending fd hrun).imp id fun hab ↦ ?_
    exact List.mem_append_right _ (List.mem_filter.2 ⟨hab, hlive⟩)

theorem Sound.past {o : Option Fd} {env : Env} {p : Process} (h : Sound o p.trace) :
    Sound o (p.past env) := by
  have hended : ∀ fds : List Fd, Sound o (fds.map .ended ++ p.trace) := by
    intro fds
    induction fds with
    | nil => exact h
    | cons fd fds ih => exact ih.cons rfl rfl
  exact hended _

theorem kept_sound (env : Env) (o : Option Fd) : Kept env (Sound o) := by
  intro p req hreq h
  refine h.past.cons ?_ hreq
  cases req <;> first | rfl | simp [Request.isInferenceCreate] at hreq

/-- An inference is created. -/
theorem Sound.create {t : List Event} (h : Sound none t) (network : Fd) (uapi : Words)
    (reply : Reply) :
    Sound (Event.call (.inferenceCreate network uapi) reply).started
      (.call (.inferenceCreate network uapi) reply :: t) := by
  refine ⟨?_, fun fd hfd ↦ ?_⟩
  · have hiff : running t = [] ↔ abandoned t = [] := by
      rw [List.eq_nil_iff_forall_not_mem, List.eq_nil_iff_forall_not_mem]
      refine forall_congr' fun fd ↦ not_congr ⟨fun hrun ↦ ?_, mem_running_of_mem_abandoned⟩
      exact (h.pending fd hrun).resolve_left (by simp)
    rw [OneAtATime, NoneAbandoned, h.only, hiff]
  · rw [running, List.mem_append] at hfd
    rcases hfd with hnew | hold
    · exact .inl (Option.mem_toList.1 hnew)
    · obtain ⟨hrun, hlive⟩ := List.mem_filter.1 hold
      refine .inr (List.mem_append_right _ (List.mem_filter.2 ⟨?_, hlive⟩))
      exact (h.pending fd hrun).resolve_left (by simp)

/-- The inference is polled: it no longer runs, or it is abandoned. -/
theorem Sound.poll {kernel : Kernel} (hpoll : PollsHonestly kernel) {t : List Event} {fd : Fd}
    (h : Sound (some fd) t) (timeout : Option Timespec) :
    Sound none (.call (.ppoll fd timeout) (kernel.answer t (.ppoll fd timeout)) :: t) := by
  refine ⟨(h.cons rfl rfl).only, fun fd' hfd' ↦ .inr ?_⟩
  obtain ⟨hrun, hlive⟩ := List.mem_filter.1 (show fd' ∈ (running t).filter _ from hfd')
  rw [abandoned, List.mem_append]
  rcases h.pending fd' hrun with heq | hab
  · obtain rfl := Option.some.inj heq
    have hret : ¬ 0 < (kernel.answer t (.ppoll fd timeout)).ret := fun hready ↦
      hpoll t fd timeout hready hrun
    refine .inl (List.mem_filter.2 ⟨?_, by simpa using hrun⟩)
    rw [Event.gaveUp, if_neg hret]
    exact List.mem_singleton_self _
  · exact .inr (List.mem_filter.2 ⟨hab, hlive⟩)

/-! ## One call of `Invoke` -/

section

variable (env : Env)

theorem wp_create_sound {network arenaBuffer} {ifmBuffers ofmBuffers : List (Shared Buffer)}
    {counterConfigs : List UInt32} {enableCycleCounter : Bool} {p : Process}
    (h : Sound none p.trace) :
    wp (Inference.create env network arenaBuffer ifmBuffers ofmBuffers counterConfigs
      enableCycleCounter) (fun fd p' ↦ Sound (some fd) p'.trace) (fun _ p' ↦ Sound none p'.trace)
      p := by
  by_cases hacc : Inference.Accepts (Inference.getFds ifmBuffers) (Inference.getFds ofmBuffers)
      counterConfigs
  · rw [wp_congr (Inference.create_of_accepts env network arenaBuffer enableCycleCounter p hacc),
      wp_bind, eioctl, wp_checked]
    generalize (Inference.request env p arenaBuffer ifmBuffers ofmBuffers counterConfigs
      enableCycleCounter).uapi = uapi
    have hpast : Sound none (p.past env) := h.past
    have hcreated := hpast.create network.obj.fd uapi
      (p.reply env (.inferenceCreate network.obj.fd uapi))
    refine ⟨fun hneg ↦ ?_, fun hneg ↦ ?_⟩
    · rw [Event.started, if_pos hneg] at hcreated
      exact hcreated
    · rw [Event.started, if_neg hneg] at hcreated
      exact hcreated
  · obtain ⟨msg, hmsg⟩ := Inference.create_of_not_accepts env network arenaBuffer
      enableCycleCounter p hacc
    rw [wp_of_error hmsg]
    exact h

theorem wp_ofArena_sound {network : Shared Network} {arenaBuffer : Shared Buffer}
    {counters : List UInt32} {enableCycleCounter : Bool} {p : Process} (h : Sound none p.trace) :
    wp (Inference.ofArena env network arenaBuffer counters enableCycleCounter)
      (fun inference p' ↦ Sound (some inference.fd) p'.trace) (fun _ p' ↦ Sound none p'.trace)
      p := by
  have hcleanup : ∀ p' : Process, Sound none p'.trace →
      wp (Inference.releaseMembers env network [] [] (some arenaBuffer))
        (fun _ p' ↦ Sound none p'.trace) (fun _ p' ↦ Sound none p'.trace) p' := fun _ ↦
    keeps_of_coupled (coupled_releaseMembers (kept_sound env none).twins _ _ _ _)
  rw [Inference.ofArena, wp_bind, wp_copy, wp_bind, wp_copy, unwinding, wp_onThrow]
  refine wp_mono (Q := fun inference p' ↦ Sound (some inference.fd) p'.trace)
    (E := fun _ p' ↦ Sound none p'.trace) ?_ (fun _ _ h ↦ h) (fun e p' hp' ↦ ?_)
  · by_cases hcounters : counters.length > ethosuPmuEventMax
    · rw [if_pos hcounters]
      exact h
    · rw [if_neg hcounters]
      exact (wp_bind _ _).2 (wp_create_sound env h)
  · by_cases hfatal : (!e.fatal) = true
    · rw [if_pos hfatal]
      exact hcleanup p' hp'
    · rw [if_neg hfatal]
      exact hp'

/-- What is known when a call throws.  If the program survives the exception, every running
inference has been abandoned. -/
def SoundThrow (e : Exception) (t : List Event) : Prop :=
  (OneAtATime t ↔ NoneAbandoned t) ∧ (e.fatal = false → Pending none t)

theorem Sound.throw {t : List Event} (h : Sound none t) (e : Exception) :
    SoundThrow e t := ⟨h.only, fun _ ↦ h.pending⟩

theorem wp_wait_sound (hpoll : PollsHonestly env.kernel) {inference : Inference}
    {timeoutNanos : Int64} {p : Process} (h : Sound (some inference.fd) p.trace) :
    wp (inference.wait env timeoutNanos) (fun _ p' ↦ Sound none p'.trace)
      (fun _ p' ↦ Sound none p'.trace) p := by
  have hpast : Sound (some inference.fd) (p.past env) := h.past
  have hpolled := hpast.poll hpoll (Inference.pollTimeout timeoutNanos)
  rw [Inference.wait, wp_bind, eppoll, wp_checked]
  exact ⟨fun _ ↦ hpolled, fun _ ↦ hpolled⟩

theorem wp_forM_terminates {p : Process} (inference : Option (Shared Inference)) :
    wp (inference.forM (Inference.release env)) (fun _ _ ↦ True) (fun e _ ↦ e = .terminate) p := by
  cases inference with
  | none => exact trivial
  | some inference => exact wp_release_terminates _ _

theorem wp_invoke_sound (hpoll : PollsHonestly env.kernel) (timeoutNanos : Int64) {s : Session}
    (h : Sound none s.proc.trace) :
    wp (Interpreter.invoke env timeoutNanos) (fun _ s' ↦ Sound none s'.proc.trace)
      (fun e s' ↦ SoundThrow e s'.proc.trace) s := by
  have hkept := fun o ↦ (kept_sound env o).twins
  rw [Interpreter.invoke, wp_bind, wp_get, wp_bind]
  cases hnetwork : s.this.network with
  | none => exact ⟨h.only, fun hfatal ↦ absurd hfatal (by decide)⟩
  | some network =>
  rw [deref, wp_pure, wp_bind]
  cases harena : s.this.arenaBuffer with
  | none => exact ⟨h.only, fun hfatal ↦ absurd hfatal (by decide)⟩
  | some arenaBuffer =>
  rw [deref, wp_pure, wp_bind, wp_onProc, wp_bind]
  refine wp_mono (wp_ofArena_sound env h) (fun inference p hp ↦ ?_) (fun e _ hp ↦ hp.throw e)
  rw [wp_makeShared, wp_bind, wp_modify, wp_bind, wp_onProc]
  -- the inference that is replaced goes away; an exception here would end the program
  refine wp_mono (wp_conj (keeps_of_coupled (coupled_option (coupled_inferenceRelease (hkept _)) _)
    hp) (wp_forM_terminates _ _)) (fun _ p hp ↦ ?_) (fun e p hp ↦ ?_)
  · rw [wp_bind, wp_onProc]
    refine wp_mono (wp_wait_sound env hpoll hp.1) (fun _ p hp ↦ ?_) (fun e _ hp ↦ hp.throw e)
    rw [wp_bind, wp_onProc]
    refine wp_mono (keeps_of_coupled (coupled_status (hkept none) _) hp) (fun status p hp ↦ ?_)
      (fun e _ hp ↦ hp.throw e)
    exact (wp_ite _ _ _).2 ⟨fun _ ↦ hp.throw _, fun _ ↦ hp⟩
  · exact ⟨hp.1.only, fun hfatal ↦ absurd hfatal (by rw [hp.2]; decide)⟩

theorem wp_perform_sound (hpoll : PollsHonestly env.kernel) (call : Interpreter.Call) {s : Session}
    (h : Sound none s.proc.trace) :
    wp (Interpreter.perform env call) (fun _ s' ↦ Sound none s'.proc.trace)
      (fun e s' ↦ SoundThrow e s'.proc.trace) s := by
  cases call with
  | setPmuCycleCounters counters cycleCounter =>
    have htwins := (kept_sound env none).twins
    exact wp_mono (keeps_of_coupled_method (coupled_setPmuCycleCounters htwins _ _) h)
      (fun _ _ h ↦ h) (fun e _ h ↦ h.throw e)
  | invoke timeoutNanos => exact wp_invoke_sound env hpoll timeoutNanos h

/-- The invariant of a caller that catches what can be caught. -/
theorem wp_performAll_sound (hpoll : PollsHonestly env.kernel) (calls : List Interpreter.Call)
    {s : Session} (h : Sound none s.proc.trace) :
    wp (Interpreter.performAll env calls) (fun _ s' ↦ Sound none s'.proc.trace)
      (fun _ s' ↦ OneAtATime s'.proc.trace ↔ NoneAbandoned s'.proc.trace) s := by
  induction calls generalizing s with
  | nil => exact h
  | cons call calls ih =>
    rw [Interpreter.performAll, wp_bind, Interpreter.attempt, wp_tryCatch, wp_bind]
    refine wp_mono (wp_perform_sound env hpoll call h) (fun _ s' hs' ↦ ?_) (fun e s' hs' ↦ ?_)
    · rw [wp_pure, wp_bind]
      exact ih hs'
    · by_cases hfatal : e.fatal = true
      · rw [if_pos hfatal]
        exact hs'.1
      · rw [if_neg hfatal, wp_pure, wp_bind]
        exact ih ⟨hs'.1, hs'.2 (by simpa using hfatal)⟩

end

namespace Interpreter

/-- **Two inferences are in flight only when one was abandoned.**  Whatever the driver answers,
whenever inferences end and whatever `Invoke` throws: in the life of an interpreter, no inference
was created while another one was running exactly if none was created while another one was still
running after `ppoll` had given up on it. -/
theorem oneAtATime_iff (env : Env) (hpoll : PollsHonestly env.kernel) (model device : String)
    (arenaSizeOfMB : Int64) (calls : List Call) :
    OneAtATime (left (live env model device arenaSizeOfMB calls) {}).trace
      ↔ NoneAbandoned (left (live env model device arenaSizeOfMB calls) {}).trace := by
  refine left_of_wp (P := fun p : Process ↦ OneAtATime p.trace ↔ NoneAbandoned p.trace) ?_
  rw [live, wp_bind]
  have hnew := keeps_of_coupled (coupled_interpreterNew (kept_sound env none).twins model device
    arenaSizeOfMB) (p := {}) Sound.nil
  refine wp_mono hnew (fun this p hp ↦ ?_) (fun _ _ hp ↦ hp.only)
  rw [wp_onObject]
  exact wp_mono (wp_performAll_sound env hpoll calls hp) (fun _ _ h ↦ h.only) (fun _ _ h ↦ h)

/-- A driver that grants everything, gives out a new descriptor each time, and lets an inference
run for as long as nobody closes or cancels it: `ppoll` times out until then. -/
def slow : Env where
  kernel :=
    { answer := fun past req ↦
        match req with
        | .ppoll fd _ => { ret := if fd ∈ running past then 0 else 1 }
        | _ => { ret := .ofNat (past.length + 3), data := fun _ ↦ 2 } }
  files := fun _ ↦ ⟨true, true, 0, []⟩
  stack := fun _ _ ↦ 0
  heapBool := fun _ ↦ false

theorem slow_pollsHonestly : PollsHonestly slow.kernel := by
  intro past fd timeout hready hrun
  rw [show slow.kernel.answer past (.ppoll fd timeout)
    = { ret := if fd ∈ running past then 0 else 1 } from rfl, if_pos hrun] at hready
  exact absurd hready (by decide)

theorem oneAtATime_iff_slow :
    OneAtATime (left (live slow "model_vela.tflite" "/dev/ethosu0" 16
        [.invoke 1, .invoke 1]) {}).trace
      ↔ NoneAbandoned (left (live slow "model_vela.tflite" "/dev/ethosu0" 16
        [.invoke 1, .invoke 1]) {}).trace :=
  oneAtATime_iff slow slow_pollsHonestly "model_vela.tflite" "/dev/ethosu0" 16
    [.invoke 1, .invoke 1]

/-- Invoked again after a timeout, the interpreter has two inferences in flight. -/
theorem invoke_twice_not_oneAtATime :
    ¬ OneAtATime
      (left (live slow "model_vela.tflite" "/dev/ethosu0" 16 [.invoke 1, .invoke 1]) {}).trace := by
  decide +kernel

end Interpreter

end EthosU
