import EthosU.Housekeeping
import EthosU.InferenceRunner.InferenceRunner

/-!
# Waiting for the inferences

The loop of `utils/inference_runner/inference_runner.cpp` that waits for the submitted inferences,
cancels the ones that time out and reads the results of the ones that end well.

* `Inference.ReportsTimeout` says of one call of `wait` that it throws if `ppoll` fails, returns
  `true` if `ppoll` timed out, and hands `ppoll` the timeout it was given.  The answer is the wrong
  way round if the timeout is negative (`Inference.reportsTimeout_iff`).
* `CancelsTimedOut` says of the events of a run that an inference is cancelled only if the `ppoll`
  before timed out.
* `Told` is the invariant of the loop, and `keeps_waitLoop` what every run of it leaves behind.
-/

set_option autoImplicit false

namespace EthosU

open Wp

/-! ## One wait -/

namespace Inference

/-- The timeout that `ppoll` is given is the one that was asked for. -/
def TimeoutPassed (timeoutNanos : Int64) : Option Timespec → Prop
  | none => timeoutNanos.toInt < 0
  | some t => 0 ≤ timeoutNanos.toInt ∧ t.tvSec.toInt * 10 ^ 9 + t.tvNsec.toInt = timeoutNanos.toInt
    ∧ 0 ≤ t.tvNsec.toInt ∧ t.tvNsec.toInt < 10 ^ 9

/-- `wait` makes one call, of `ppoll`, and says how it has ended. -/
def ReportsTimeout (env : Env) (inference : Inference) (timeoutNanos : Int64) (p : Process) :
    Prop :=
  ∃ timeout, TimeoutPassed timeoutNanos timeout
    ∧ (left (inference.wait env timeoutNanos) p).trace
      = (p.called env (.ppoll inference.fd timeout)).trace
    ∧ wp (inference.wait env timeoutNanos)
      (fun timedout _ ↦ 0 ≤ (p.reply env (.ppoll inference.fd timeout)).ret
        ∧ (timedout = true ↔ (p.reply env (.ppoll inference.fd timeout)).ret = 0))
      (fun _ _ ↦ (p.reply env (.ppoll inference.fd timeout)).ret < 0) p

theorem timeoutPassed (timeoutNanos : Int64) :
    TimeoutPassed timeoutNanos (pollTimeout timeoutNanos) := by
  have hnanosec : nanosec.toInt = 10 ^ 9 := by decide
  have hzero : (0 : Int64).toInt = 0 := rfl
  have hupper := timeoutNanos.toInt_lt
  rw [pollTimeout]
  split
  · rename_i hneg
    rwa [Int64.lt_iff_toInt_lt, hzero] at hneg
  · rename_i hneg
    rw [Int64.lt_iff_toInt_lt, hzero, Int.not_lt] at hneg
    -- neither the quotient nor the remainder wraps
    have hsec : (timeoutNanos / nanosec).toInt = timeoutNanos.toInt / 10 ^ 9 := by
      rw [Int64.toInt_div, hnanosec, Int.tdiv_eq_ediv_of_nonneg hneg]
      exact Int.bmod_eq_of_le_mul_two (by omega) (by omega)
    have hnsec : (timeoutNanos % nanosec).toInt = timeoutNanos.toInt % 10 ^ 9 := by
      rw [Int64.toInt_mod, hnanosec, Int.tmod_eq_emod_of_nonneg hneg]
    show 0 ≤ timeoutNanos.toInt ∧ (timeoutNanos / nanosec).toInt * 10 ^ 9
        + (timeoutNanos % nanosec).toInt = timeoutNanos.toInt
      ∧ 0 ≤ (timeoutNanos % nanosec).toInt ∧ (timeoutNanos % nanosec).toInt < 10 ^ 9
    rw [hsec, hnsec]
    omega

section

variable (env : Env) (inference : Inference) (timeoutNanos : Int64) (p : Process)

/-- The answer to the `ppoll` of `wait`. -/
def polled : Reply := p.reply env (.ppoll inference.fd (pollTimeout timeoutNanos))

theorem wp_wait {Q : Bool → Process → Prop} {E : Exception → Process → Prop} :
    wp (inference.wait env timeoutNanos) Q E p
      ↔ ((polled env inference timeoutNanos p).ret < 0 →
          E (.error "Failed to wait for ppoll event or signal")
            (p.called env (.ppoll inference.fd (pollTimeout timeoutNanos))))
        ∧ (¬ (polled env inference timeoutNanos p).ret < 0 →
          Q (if timeoutNanos < 0 then (polled env inference timeoutNanos p).ret != 0
              else (polled env inference timeoutNanos p).ret == 0)
            (p.called env (.ppoll inference.fd (pollTimeout timeoutNanos)))) := by
  rw [wait, wp_bind, eppoll, wp_checked]
  rfl

theorem trace_wait : (left (inference.wait env timeoutNanos) p).trace
    = (p.called env (.ppoll inference.fd (pollTimeout timeoutNanos))).trace := by
  refine left_of_wp (P := fun q : Process ↦ q.trace
    = (p.called env (.ppoll inference.fd (pollTimeout timeoutNanos))).trace) ?_
  exact (wp_wait env inference timeoutNanos p).2 ⟨fun _ ↦ rfl, fun _ ↦ rfl⟩

/-- **`wait` reports a timeout right exactly if the one it is given is not negative, or if `ppoll`
fails.** -/
theorem reportsTimeout_iff : ReportsTimeout env inference timeoutNanos p
    ↔ 0 ≤ timeoutNanos.toInt ∨ (polled env inference timeoutNanos p).ret < 0 := by
  have hzero : (0 : Int64).toInt = 0 := rfl
  have hneg : timeoutNanos < 0 ↔ timeoutNanos.toInt < 0 := by rw [Int64.lt_iff_toInt_lt, hzero]
  refine ⟨?_, ?_⟩
  · rintro ⟨timeout, -, htrace, hwp⟩
    rw [trace_wait] at htrace
    -- the call in the trace is the one that was made
    obtain rfl : pollTimeout timeoutNanos = timeout := by
      injection (List.cons.inj htrace).1 with hreq
      injection hreq
    by_contra hneither
    rw [not_or, Int.not_le] at hneither
    have hfalse := ((wp_wait env inference timeoutNanos p).1 hwp).2 hneither.2
    rw [if_pos (hneg.2 hneither.1)] at hfalse
    have hsame := hfalse.2
    change ((polled env inference timeoutNanos p).ret != 0) = true
      ↔ (polled env inference timeoutNanos p).ret = 0 at hsame
    by_cases hret : (polled env inference timeoutNanos p).ret = 0
    · simp [hret] at hsame
    · simp [hret] at hsame
  · intro h
    refine ⟨_, timeoutPassed timeoutNanos, trace_wait env inference timeoutNanos p,
      (wp_wait env inference timeoutNanos p).2 ⟨fun hfails ↦ hfails, fun hret ↦ ?_⟩⟩
    rcases h with hnonneg | hfails
    · rw [if_neg (by rw [hneg]; omega)]
      exact ⟨Int32.not_lt.1 hret, beq_iff_eq⟩
    · exact absurd hfails hret

end

end Inference

/-! ## The loop -/

namespace InferenceRunner

variable (env : Env)

/-- `operator<<` for a buffer, which prints the bytes from `data()` to `data() + size()`. -/
def printBuffer (buf : Buffer) : M Unit := do
  discard (buf.data env)
  discard (buf.size env)

/-- The output feature maps are written to the stream. -/
def writeOfms (print : Bool) (ofmBuffers : List (Shared Buffer)) : M Unit :=
  ofmBuffers.forM fun ofmBuffer ↦ do
    discard (ofmBuffer.obj.size env)
    (if print then printBuffer env ofmBuffer.obj else return)
    discard (ofmBuffer.obj.data env)
    discard (ofmBuffer.obj.size env)

/-- What is made of the results is only ever printed (`postProcess`), so the model keeps the queries
alone. -/
def processResult (network : Network) (ofmBuffers : List (Shared Buffer)) : M Unit := do
  if ofmBuffers.length > 1 then
    -- for ssd model
    ofmBuffers.forM fun ofmBuffer ↦ discard (ofmBuffer.obj.data env)
  else
    match ofmBuffers, network.ofmTypes with
    | ofmBuffer :: _, ofmType :: _ =>
      discard (ofmBuffer.obj.data env)
      if (ElementType.ofTensorType ofmType).isNone then throw (.exit 1)
    | _, _ => throw .crash

/-- The counters, which are members of the status of an inference. -/
def readCounters (o : Options) (inference : Inference) : M Unit := do
  (if o.enabledCounters.count 0 < ethosuPmuEventMax then
      discard (eioctl env (.inferenceStatus inference.fd))
    else return)
  if o.enableCycleCounter then discard (eioctl env (.inferenceStatus inference.fd))

/-- The inference has ended, or is cancelled. -/
def awaitInference (inference : Inference) (timeout : Int64) : M Unit :=
  tryCatch
    (do
      let timedout ← inference.wait env timeout
      if timedout then
        let aborted ← inference.cancel env
        -- the status of an inference that was not cancelled is not asked for
        if aborted then discard (inference.status env))
    fun e ↦ throw (if e.fatal then e else .exit 1)

/-- What is only known once the program runs: the timeout, the prefix of the output files and which
of them can be opened. -/
structure Waiting where
  timeout : Int64 := 60000000000
  ofmArg : String
  print : Bool := false
  opens : String → Bool

def finishInference (o : Options) (w : Waiting) (network : Network) (inference : Inference)
    (ofmIndex : Nat) : M Unit := do
  discard (inference.status env)
  awaitInference env inference w.timeout
  discard (inference.status env)
  let status ← inference.status env
  if status = .ok then
    (if !w.opens (w.ofmArg ++ "." ++ toString ofmIndex) then throw (.exit 1) else return)
    writeOfms env w.print inference.ofmBuffers
    processResult env network inference.ofmBuffers
    readCounters env o inference

def waitLoop (o : Options) (w : Waiting) (network : Network) :
    List (Shared Inference) → Nat → M Unit
  | [], _ => return
  | inference :: inferences, ofmIndex => do
    finishInference env o w network inference.obj ofmIndex
    waitLoop o w network inferences (ofmIndex + 1)

end InferenceRunner

/-! ## What is cancelled -/

/-- The last `ppoll`: its descriptor, and its result. -/
def lastPoll : List Event → Option (Fd × Int32)
  | [] => none
  | .call (.ppoll fd _) reply :: _ => some (fd, reply.ret)
  | _ :: past => lastPoll past

/-- Whenever an inference is cancelled, the last `ppoll` was one for it that timed out. -/
def CancelsTimedOut : List Event → Prop
  | [] => True
  | .call (.inferenceCancel fd) _ :: past => lastPoll past = some (fd, 0) ∧ CancelsTimedOut past
  | _ :: past => CancelsTimedOut past

/-- No `ppoll` found an inference ready. -/
def NoneReady : List Event → Prop
  | [] => True
  | .call (.ppoll _ _) reply :: past => reply.ret ≤ 0 ∧ NoneReady past
  | _ :: past => NoneReady past

/-- What every run of the loop leaves behind, after `start`. -/
def Told (timeout : Int64) (start : List Event) (p : Process) : Prop :=
  ∃ events, p.trace = events ++ start
    ∧ (CancelsTimedOut events ↔ 0 ≤ timeout.toInt ∨ NoneReady events)

/-- The calls that have nothing to do with waiting. -/
def Request.isQuiet : Request → Bool
  | .ppoll _ _ => false
  | .inferenceCancel _ => false
  | _ => true

section

variable (ended : List Fd) (past : List Event)

/-- That inferences end changes nothing. -/
@[simp] theorem lastPoll_ended : lastPoll (ended.map .ended ++ past) = lastPoll past := by
  induction ended with
  | nil => rfl
  | cons fd ended ih => exact ih

@[simp] theorem cancelsTimedOut_ended :
    CancelsTimedOut (ended.map .ended ++ past) ↔ CancelsTimedOut past := by
  induction ended with
  | nil => rfl
  | cons fd ended ih => exact ih

@[simp] theorem noneReady_ended : NoneReady (ended.map .ended ++ past) ↔ NoneReady past := by
  induction ended with
  | nil => rfl
  | cons fd ended ih => exact ih

variable (fd : Fd) (t : Option Timespec) (reply : Reply)

@[simp] theorem cancelsTimedOut_ppoll :
    CancelsTimedOut (.call (.ppoll fd t) reply :: past) ↔ CancelsTimedOut past := Iff.rfl

@[simp] theorem noneReady_ppoll :
    NoneReady (.call (.ppoll fd t) reply :: past) ↔ reply.ret ≤ 0 ∧ NoneReady past := Iff.rfl

@[simp] theorem cancelsTimedOut_cancel : CancelsTimedOut (.call (.inferenceCancel fd) reply :: past)
    ↔ lastPoll past = some (fd, 0) ∧ CancelsTimedOut past := Iff.rfl

@[simp] theorem noneReady_cancel :
    NoneReady (.call (.inferenceCancel fd) reply :: past) ↔ NoneReady past := Iff.rfl

end

/-- Nor does a quiet call. -/
theorem cancelsTimedOut_quiet {req : Request} (hquiet : req.isQuiet = true) (reply : Reply)
    (past : List Event) : (CancelsTimedOut (.call req reply :: past) ↔ CancelsTimedOut past)
      ∧ (NoneReady (.call req reply :: past) ↔ NoneReady past) := by
  cases req <;> first | exact ⟨Iff.rfl, Iff.rfl⟩ | cases hquiet

section

variable {env : Env} {timeout : Int64} {start : List Event}

theorem survives_told {req : Request} (hquiet : req.isQuiet = true) :
    Survives env (Told timeout start) req := by
  rintro p ⟨events, htrace, hiff⟩
  refine ⟨.call req (p.reply env req) :: ((env.kernel.ended p.trace).map .ended ++ events), ?_, ?_⟩
  · rw [Process.called_trace, Process.past, htrace, List.cons_append, List.append_assoc]
  · obtain ⟨hcancels, hready⟩ := cancelsTimedOut_quiet hquiet (p.reply env req)
      ((env.kernel.ended p.trace).map .ended ++ events)
    rw [hcancels, hready, cancelsTimedOut_ended, noneReady_ended, hiff]

/-- A call that has nothing to do with waiting keeps the invariant. -/
theorem keeps_quiet (msg : String) {req : Request} (hquiet : req.isQuiet = true) :
    Keeps (Told timeout start) (checked env msg req) :=
  keeps_checked (survives_told hquiet) msg

/-- A `ppoll` whose answer does not lead to a cancellation. -/
theorem told_polled {p : Process} (h : Told timeout start p) (fd : Fd) (t : Option Timespec)
    (hret : 0 ≤ timeout.toInt ∨ (p.reply env (.ppoll fd t)).ret ≤ 0) :
    Told timeout start (p.called env (.ppoll fd t)) := by
  obtain ⟨events, htrace, hiff⟩ := h
  refine ⟨.call (.ppoll fd t) (p.reply env (.ppoll fd t))
    :: ((env.kernel.ended p.trace).map .ended ++ events), ?_, ?_⟩
  · rw [Process.called_trace, Process.past, htrace, List.cons_append, List.append_assoc]
  · rw [cancelsTimedOut_ppoll, noneReady_ppoll, cancelsTimedOut_ended, noneReady_ended, hiff]
    tauto

/-- A `ppoll` and the cancellation that it leads to. -/
theorem told_cancelled {p : Process} (h : Told timeout start p) (fd : Fd) (t : Option Timespec)
    (hret : if timeout.toInt < 0 then 0 < (p.reply env (.ppoll fd t)).ret
      else (p.reply env (.ppoll fd t)).ret = 0) :
    Told timeout start ((p.called env (.ppoll fd t)).called env (.inferenceCancel fd)) := by
  obtain ⟨events, htrace, hiff⟩ := h
  refine ⟨.call (.inferenceCancel fd)
    ((p.called env (.ppoll fd t)).reply env (.inferenceCancel fd))
    :: ((env.kernel.ended (p.called env (.ppoll fd t)).trace).map .ended
      ++ .call (.ppoll fd t) (p.reply env (.ppoll fd t))
        :: ((env.kernel.ended p.trace).map .ended ++ events)), ?_, ?_⟩
  · rw [Process.called_trace, Process.past, Process.called_trace, Process.past, htrace]
    simp only [List.cons_append, List.append_assoc]
  · simp only [cancelsTimedOut_cancel, noneReady_cancel, lastPoll_ended, cancelsTimedOut_ended,
      noneReady_ended, cancelsTimedOut_ppoll, noneReady_ppoll, lastPoll, Option.some.injEq,
      Prod.mk.injEq, true_and, hiff]
    split at hret
    · rename_i hneg
      -- the inference was ready
      have hready : ¬ (p.reply env (.ppoll fd t)).ret ≤ 0 := Int32.not_le.2 hret
      have hnonzero : (p.reply env (.ppoll fd t)).ret ≠ 0 := fun hzero ↦ by
        rw [hzero] at hret
        exact absurd hret (by decide)
      have hnot : ¬ 0 ≤ timeout.toInt := by omega
      tauto
    · rename_i hneg
      have hnonneg : 0 ≤ timeout.toInt := by omega
      tauto

theorem keeps_status (inference : Inference) :
    Keeps (Told timeout start) (inference.status env) := by
  refine (keeps_quiet _ rfl).bind fun reply ↦ ?_
  split
  · exact .pure _
  · exact .throw _

/-- Waiting for one inference is the one step that polls and cancels. -/
theorem keeps_awaitInference (inference : Inference) :
    Keeps (Told timeout start) (InferenceRunner.awaitInference env inference timeout) := by
  refine Keeps.tryCatch (fun p hp ↦ ?_) fun _ ↦ .throw _
  have hzero : (0 : Int64).toInt = 0 := rfl
  have hneg : timeout < 0 ↔ timeout.toInt < 0 := by rw [Int64.lt_iff_toInt_lt, hzero]
  rw [wp_bind, Inference.wp_wait]
  refine ⟨fun hfails ↦ told_polled hp _ _ (.inr (Int32.le_of_lt hfails)), fun hret ↦ ?_⟩
  have hret' : 0 ≤ (inference.polled env timeout p).ret := Int32.not_lt.1 hret
  refine (wp_ite _ _ _).2 ⟨fun htimedout ↦ ?_, fun hdone ↦ ?_⟩
  · have htold : Told timeout start ((p.called env (.ppoll inference.fd
        (Inference.pollTimeout timeout))).called env (.inferenceCancel inference.fd)) := by
      refine told_cancelled hp _ _ ?_
      split
      · rename_i hnegative
        rw [if_pos (hneg.2 hnegative), bne_iff_ne] at htimedout
        exact Int32.lt_of_le_of_ne hret' (Ne.symm htimedout)
      · rename_i hnonneg
        rw [if_neg (by rwa [hneg]), beq_iff_eq] at htimedout
        exact htimedout
    rw [wp_bind, Inference.cancel, wp_bind, eioctl, wp_checked]
    exact ⟨fun _ ↦ htold, fun _ ↦ Keeps.ite (keeps_status inference).discard (.pure _) _ htold⟩
  · refine told_polled hp _ _ ?_
    by_cases hnegative : timeout.toInt < 0
    · rw [if_pos (hneg.2 hnegative)] at hdone
      have hnone : (inference.polled env timeout p).ret = 0 := by simpa using hdone
      exact .inr (Int32.le_of_eq hnone)
    · exact .inl (by omega)

/-! ## Every run -/

theorem keeps_size (buffer : Buffer) : Keeps (Told timeout start) (buffer.size env) :=
  (keeps_quiet _ rfl).bind fun _ ↦ .pure _

theorem keeps_data (buffer : Buffer) : Keeps (Told timeout start) (buffer.data env) :=
  ((keeps_quiet _ rfl).bind fun _ ↦ .pure _).bind fun _ ↦ .pure _

theorem keeps_writeOfms (print : Bool) (ofmBuffers : List (Shared Buffer)) :
    Keeps (Told timeout start) (InferenceRunner.writeOfms env print ofmBuffers) := by
  refine .listForM _ fun ofmBuffer ↦ (keeps_size _).discard.bind fun _ ↦ ?_
  refine Keeps.bind ?_ fun _ ↦ (keeps_data _).discard.bind fun _ ↦ (keeps_size _).discard
  exact .ite ((keeps_data _).discard.bind fun _ ↦ (keeps_size _).discard) (.pure _)

theorem keeps_processResult (network : Network) (ofmBuffers : List (Shared Buffer)) :
    Keeps (Told timeout start) (InferenceRunner.processResult env network ofmBuffers) := by
  refine .ite (.listForM _ fun ofmBuffer ↦ (keeps_data _).discard) ?_
  split
  · exact (keeps_data _).discard.bind fun _ ↦ .ite (.throw _) (.pure _)
  · exact .throw _

theorem keeps_readCounters (o : InferenceRunner.Options) (inference : Inference) :
    Keeps (Told timeout start) (InferenceRunner.readCounters env o inference) := by
  have hstatus : Keeps (Told timeout start)
      (discard (eioctl env (.inferenceStatus inference.fd))) := (keeps_quiet _ rfl).discard
  exact (Keeps.ite hstatus (.pure _)).bind fun _ ↦ .ite hstatus (.pure _)

theorem keeps_finishInference (o : InferenceRunner.Options) (w : InferenceRunner.Waiting)
    (network : Network) (inference : Inference) (ofmIndex : Nat) :
    Keeps (Told w.timeout start)
      (InferenceRunner.finishInference env o w network inference ofmIndex) := by
  refine (keeps_status inference).discard.bind fun _ ↦ (keeps_awaitInference inference).bind
    fun _ ↦ (keeps_status inference).discard.bind fun _ ↦ (keeps_status inference).bind
    fun status ↦ .ite ?_ (.pure _)
  refine Keeps.bind (.ite (.throw _) (.pure _)) fun _ ↦ ?_
  exact (keeps_writeOfms _ _).bind fun _ ↦ (keeps_processResult _ _).bind
    fun _ ↦ keeps_readCounters o inference

/-- **Every run of the loop keeps the invariant**, by induction on the inferences. -/
theorem keeps_waitLoop (o : InferenceRunner.Options) (w : InferenceRunner.Waiting)
    (network : Network) (inferences : List (Shared Inference)) (ofmIndex : Nat) :
    Keeps (Told w.timeout start)
      (InferenceRunner.waitLoop env o w network inferences ofmIndex) := by
  induction inferences generalizing ofmIndex with
  | nil => exact .pure _
  | cons inference inferences ih =>
    exact (keeps_finishInference o w network inference.obj ofmIndex).bind fun _ ↦ ih _

end

/-- **When a timeout is reported right, and when only inferences that timed out are cancelled.** -/
theorem timeout_reported_iff (env : Env) (o : InferenceRunner.Options) (w : InferenceRunner.Waiting)
    (network : Network) (inference : Inference) (inferences : List (Shared Inference))
    (ofmIndex : Nat) (p : Process) :
    (inference.ReportsTimeout env w.timeout p
        ↔ 0 ≤ w.timeout.toInt ∨ (inference.polled env w.timeout p).ret < 0)
      ∧ ∃ events, (left (InferenceRunner.waitLoop env o w network inferences ofmIndex) p).trace
          = events ++ p.trace
        ∧ (CancelsTimedOut events ↔ 0 ≤ w.timeout.toInt ∨ NoneReady events) := by
  refine ⟨inference.reportsTimeout_iff env w.timeout p, ?_⟩
  have hstart : Told w.timeout p.trace p := ⟨[], rfl, iff_of_true trivial (.inr trivial)⟩
  exact (keeps_waitLoop o w network inferences ofmIndex).left hstart

/-- An inference of nothing. -/
def Inference.blank : Inference where
  fd := 3
  network := ⟨0, Network.ofInfo ⟨4⟩ 5 none fun _ ↦ 0⟩
  ifmBuffers := []
  ofmBuffers := []
  arenaBuffer := ⟨1, ⟨6, 0, 0⟩⟩

/-- An inference that is ready at once is reported as one that timed out. -/
theorem ready_not_reported :
    ¬ ∀ (env : Env) (inference : Inference) (timeoutNanos : Int64) (p : Process),
      inference.ReportsTimeout env timeoutNanos p := by
  intro hall
  rcases (Inference.reportsTimeout_iff _ _ _ _).1 (hall (.constant 1) .blank (-1) {})
    with hnonneg | hfails
  · exact absurd hnonneg (by decide)
  · exact absurd hfails (by decide)

end EthosU
