import EthosU.Holdings
import EthosU.InFlight
import EthosU.NetworkInformation

/-!
# The calls of an interpreter, in any order

An interpreter has an inference from its first `Invoke` that gets one on, and keeps it until the
next one.  `GetPmuCounters` and `GetCycleCounter` follow the pointer without looking whether there
is one, and an exception that leaves the destructor of the inference `Invoke` replaces ends the
program.  This file says which calls are safe, in the life of an interpreter whose calls come in any
order.

* `PublicCall` has all public methods, and `answer` what they do.
* `Safe` is what a caller expects: a call returns or throws an `EthosU::Exception`, and a query is
  put to the inference that has been created last.
* `Allowed` is what it depends on: a query needs an inference, and the driver may not refuse to
  close the one that `Invoke` replaces.
* `Usable` is the invariant.  `allSafe_iff` puts it together for a constructed interpreter and any
  sequence of calls.
-/

set_option autoImplicit false

namespace EthosU

open Wp

/-- The inference that has been created last. -/
def latest (t : List Event) : Option Fd := t.findSome? Event.started

namespace Interpreter

variable (env : Env)

/-! ## Calls -/

/-- The public methods of an interpreter. -/
inductive PublicCall
  | setPmuCycleCounters (counters : List UInt8) (cycleCounter : Bool)
  | invoke (timeoutNanos : Int64)
  | getPmuCounters
  | getCycleCounter
  | typedInputBuffer (index : Int32)
  | typedOutputBuffer (index : Int32)
  | getInputInfo
  | getOutputInfo

/-- What they return. -/
inductive Response
  | done
  | counters (values : List UInt32)
  | cycles (value : UInt64)
  | address (a : Int)
  | infos (l : List TensorInfo)

/-- The call asks the driver about an inference. -/
def PublicCall.Queries : PublicCall → Prop
  | getPmuCounters => True
  | getCycleCounter => True
  | _ => False

def answer : PublicCall → Method Response
  | .setPmuCycleCounters counters cycleCounter => do
    setPmuCycleCounters counters cycleCounter
    return .done
  | .invoke timeoutNanos => do
    invoke env timeoutNanos
    return .done
  | .getPmuCounters => .counters <$> getPmuCounters env
  | .getCycleCounter => .cycles <$> getCycleCounter env
  | .typedInputBuffer index => .address <$> typedInputBuffer env index
  | .typedOutputBuffer index => .address <$> typedOutputBuffer env index
  | .getInputInfo => .infos <$> getInputInfo
  | .getOutputInfo => .infos <$> getOutputInfo

/-- The exception is an `EthosU::Exception`. -/
def IsError (e : Exception) : Prop := ∃ msg, e = .error msg

/-- What a caller expects of a call, in the life of an interpreter that was constructed when the
events so far were `start`. -/
structure Safe (start : List Event) (call : PublicCall) (s : Session) : Prop where
  /-- It returns, or throws an exception of the library. -/
  ends : wp (answer env call) (fun _ _ ↦ True) (fun e _ ↦ IsError e) s
  /-- A query asks the driver once, about the inference that has been created last. -/
  asks : call.Queries → ∃ since fd, s.proc.trace = since ++ start ∧ latest since = some fd
    ∧ (left (answer env call) s).proc.trace
      = .call (.inferenceStatus fd) (s.proc.reply env (.inferenceStatus fd)) :: s.proc.past env

/-- Each call of a sequence is safe, whatever the calls before it threw. -/
def AllSafe (start : List Event) : List PublicCall → Session → Prop
  | [], _ => True
  | call :: calls, s => Safe env start call s ∧ AllSafe start calls (left (answer env call) s)

/-- The request with which `Invoke` creates an inference. -/
def createRequest (s : Session) (network : Shared Network) (arenaBuffer : Shared Buffer) :
    Request :=
  .inferenceCreate network.obj.fd (Inference.request env s.proc arenaBuffer [] []
    (Inference.copyCounters (s.this.pmuCounters.map UInt8.toUInt32)
      Inference.initializeCounterConfig) s.this.enableCycleCounter).uapi

/-- If the driver creates an inference that replaces another one, it closes that one. -/
def ClosesReplaced (s : Session) : Prop :=
  ∀ network arenaBuffer inference, s.this.network = some network →
    s.this.arenaBuffer = some arenaBuffer → s.this.inference = some inference →
    ¬ (s.proc.reply env (createRequest env s network arenaBuffer)).ret < 0 →
    ¬ ((s.proc.called env (createRequest env s network arenaBuffer)).reply env
      (.close inference.obj.fd)).ret < 0

/-- What a call needs. -/
def Allowed : PublicCall → Session → Prop
  | .getPmuCounters, s => s.this.inference.isSome
  | .getCycleCounter, s => s.this.inference.isSome
  | .invoke _, s => ClosesReplaced env s
  | _, _ => True

/-- Each call of a sequence has what it needs. -/
def AllAllowed : List PublicCall → Session → Prop
  | [], _ => True
  | call :: calls, s => Allowed env call s ∧ AllAllowed calls (left (answer env call) s)

end Interpreter

/-! ## The inference that has been created last -/

/-- Since the events `start`, the inference created last is `o`. -/
def LatestSince (start : List Event) (o : Option Fd) (t : List Event) : Prop :=
  ∃ since, t = since ++ start ∧ latest since = o

section

variable {env : Env} {start t : List Event} {o : Option Fd} {p : Process}

theorem LatestSince.cons (h : LatestSince start o t) (e : Event) :
    LatestSince start (e.started <|> o) (e :: t) := by
  obtain ⟨since, rfl, rfl⟩ := h
  refine ⟨e :: since, rfl, ?_⟩
  rw [latest, List.findSome?_cons]
  cases e.started <;> rfl

theorem LatestSince.past (h : LatestSince start o p.trace) : LatestSince start o (p.past env) := by
  rw [Process.past]
  induction env.kernel.ended p.trace with
  | nil => exact h
  | cons fd fds ih => exact ih.cons (.ended fd)

theorem LatestSince.called (h : LatestSince start o p.trace) (req : Request) :
    LatestSince start ((Event.call req (p.reply env req)).started <|> o)
      (p.called env req).trace :=
  h.past.cons _

/-- A new inference is the latest one. -/
theorem LatestSince.created (h : LatestSince start o p.trace) {req : Request} {network : Fd}
    {uapi : Words} (hgranted : ¬ (p.reply env req).ret < 0)
    (hreq : req = .inferenceCreate network uapi) :
    LatestSince start (some (p.reply env req).ret) (p.called env req).trace := by
  have hcalled : LatestSince start _ (p.called env req).trace := h.called req
  subst hreq
  rw [Event.started, if_neg hgranted] at hcalled
  exact hcalled

end

/-! ## Shared objects -/

/-- The uses of the network, the arena and the inference of an interpreter: it has a share in each
of them, and so has the inference in the other two. -/
structure Counted (network : Shared Network) (arenaBuffer : Shared Buffer)
    (inference : Option (Shared Inference)) (p : Process) : Prop where
  ids : network.id ≠ arenaBuffer.id
  networkUses : inference.toList.length < p.uses network.id
  arenaUses : inference.toList.length < p.uses arenaBuffer.id
  networkMade : network.id < p.made
  arenaMade : arenaBuffer.id < p.made
  inferenceUses : ∀ x ∈ inference, p.uses x.id = 1
  inferenceIds : ∀ x ∈ inference, x.id ≠ network.id ∧ x.id ≠ arenaBuffer.id ∧ x.id < p.made
  inferenceObj : ∀ x ∈ inference, x.obj = ⟨x.obj.fd, network, [], [], arenaBuffer⟩

section

variable {env : Env} {network : Shared Network} {arenaBuffer : Shared Buffer} {p : Process}

/-- An inference that goes away gives back its shares, and others still have some. -/
theorem wp_unshare (hid : network.id ≠ arenaBuffer.id) (hnetwork : p.uses network.id ≠ 1)
    (harena : p.uses arenaBuffer.id ≠ 1) {Q : Unit → Process → Prop}
    {E : Exception → Process → Prop}
    (h : Q ⟨⟩ { p with uses := unshares network arenaBuffer p.uses }) :
    wp (Inference.releaseMembers env network [] [] (some arenaBuffer)) Q E p := by
  refine wp_destroyBoth ((wp_release _ _).2 ⟨fun hlast ↦ absurd hlast harena, fun _ ↦ ?_⟩)
  refine wp_destroyBoth (wp_destroyBoth ((wp_release _ _).2 ⟨fun hlast ↦ absurd ?_ hnetwork,
    fun _ ↦ h⟩))
  rw [← hlast]
  show p.uses network.id = Function.update p.uses arenaBuffer.id _ network.id
  rw [Function.update_of_ne hid]

/-- An inference is created with an arena, unless the driver refuses. -/
theorem wp_ofArena_cases (hid : network.id ≠ arenaBuffer.id) (hnetwork : p.uses network.id ≠ 0)
    (harena : p.uses arenaBuffer.id ≠ 0) {counters : List UInt32}
    (hcounters : counters.length ≤ ethosuPmuEventMax) {enableCycleCounter : Bool} {req : Request}
    (hreq : req = .inferenceCreate network.obj.fd (Inference.request env p arenaBuffer [] []
      (Inference.copyCounters counters Inference.initializeCounterConfig) enableCycleCounter).uapi)
    {Q : Inference → Process → Prop} {E : Exception → Process → Prop}
    (hrefused : (p.reply env req).ret < 0 → E (.error "IOCTL failed") (p.called env req))
    (hgranted : ¬ (p.reply env req).ret < 0 →
      Q ⟨(p.reply env req).ret, network, [], [], arenaBuffer⟩
        { p.called env req with uses := shares network arenaBuffer p.uses }) :
    wp (Inference.ofArena env network arenaBuffer counters enableCycleCounter) Q E p := by
  subst hreq
  have hacc : Inference.Accepts (Inference.getFds []) (Inference.getFds []) _ :=
    Inference.accepts_copyCounters (by decide) (by decide) hcounters
  rw [Inference.ofArena, wp_bind, wp_copy, wp_bind, wp_copy, unwinding, wp_onThrow,
    if_neg (Nat.not_lt.2 hcounters), wp_bind,
    wp_congr (Inference.create_of_accepts env network arenaBuffer enableCycleCounter _ hacc),
    wp_bind, eioctl, wp_checked]
  refine ⟨fun hneg ↦ ?_, hgranted⟩
  -- the copies of the two pointers go away again
  refine wp_unshare hid ?_ ?_ ?_
  · show shares network arenaBuffer p.uses network.id ≠ 1
    rw [shares_network hid]
    omega
  · show shares network arenaBuffer p.uses arenaBuffer.id ≠ 1
    rw [shares_arenaBuffer hid]
    omega
  · have hback : unshares network arenaBuffer (shares network arenaBuffer p.uses) = p.uses :=
      unshares_shares network arenaBuffer p.uses
    show E _ { p.called env _ with uses := unshares network arenaBuffer (shares _ _ p.uses) }
    rw [hback]
    exact hrefused hneg

/-- The last pointer to an inference goes away, and an exception of its destructor ends the
program. -/
theorem wp_release_cases {x : Shared Inference} (huses : p.uses x.id = 1)
    (hobj : x.obj = ⟨x.obj.fd, network, [], [], arenaBuffer⟩)
    (hid : network.id ≠ arenaBuffer.id) (hxn : x.id ≠ network.id) (hxa : x.id ≠ arenaBuffer.id)
    (hnetwork : p.uses network.id ≠ 1) (harena : p.uses arenaBuffer.id ≠ 1)
    {Q : Unit → Process → Prop} {E : Exception → Process → Prop}
    (hrefused : (p.reply env (.close x.obj.fd)).ret < 0 → ∀ q, E .terminate q)
    (hclosed : ¬ (p.reply env (.close x.obj.fd)).ret < 0 → Q ⟨⟩
      { p.called env (.close x.obj.fd) with
        uses := unshares network arenaBuffer (Function.update p.uses x.id 0) }) :
    wp (Inference.release env x) Q E p := by
  -- the process after the descriptor has been closed, or not
  let q := (x.dropped p).called env (.close x.obj.fd)
  have hq : q.uses = Function.update p.uses x.id 0 := by
    show Function.update p.uses x.id (p.uses x.id - 1) = _
    rw [huses]
  have hqNetwork : q.uses network.id ≠ 1 := by
    rwa [hq, Function.update_of_ne (Ne.symm hxn)]
  have hqArena : q.uses arenaBuffer.id ≠ 1 := by
    rwa [hq, Function.update_of_ne (Ne.symm hxa)]
  refine (wp_release _ _).2 ⟨fun _ ↦ ?_, fun hne ↦ absurd huses hne⟩
  rw [hobj, Inference.destroy, destroyBoth, wp_bind, unwinding, wp_onThrow, wp_discard, eclose,
    wp_checked]
  refine ⟨fun hneg ↦ ?_, fun hneg ↦ wp_unshare (p := q) hid hqNetwork hqArena ?_⟩
  · exact wp_unshare (p := q) hid hqNetwork hqArena (hrefused hneg _)
  · rw [hq]
    exact hclosed hneg

/-- The uses are all that counts. -/
theorem Counted.called {inference : Option (Shared Inference)}
    (h : Counted network arenaBuffer inference p) (req : Request) :
    Counted network arenaBuffer inference (p.called env req) :=
  ⟨h.ids, h.networkUses, h.arenaUses, h.networkMade, h.arenaMade, h.inferenceUses, h.inferenceIds,
    h.inferenceObj⟩

/-- A network and an arena that have just been made. -/
theorem Counted.of_fresh (hids : network.id < arenaBuffer.id) (hmade : arenaBuffer.id < p.made)
    (hnetwork : p.uses network.id = 1) (harena : p.uses arenaBuffer.id = 1) :
    Counted network arenaBuffer none p :=
  ⟨Nat.ne_of_lt hids, by simp [hnetwork], by simp [harena], Nat.lt_trans hids hmade, hmade,
    by simp, by simp, by simp⟩

/-- The first inference takes its shares. -/
theorem Counted.first (h : Counted network arenaBuffer none p) (fd : Fd) {q : Process}
    (hmade : q.made = p.made + 1)
    (huses : q.uses = Function.update (shares network arenaBuffer p.uses) p.made 1) :
    Counted network arenaBuffer (some ⟨p.made, ⟨fd, network, [], [], arenaBuffer⟩⟩) q := by
  have hnetwork := h.networkUses
  have harena := h.arenaUses
  have hn := h.networkMade
  have ha := h.arenaMade
  simp only [Option.toList_none, List.length_nil] at hnetwork harena
  refine ⟨h.ids, ?_, ?_, by omega, by omega, by simp [huses], ?_, by simp⟩
  · rw [huses, Function.update_of_ne (by omega), shares_network h.ids]
    simpa using hnetwork
  · rw [huses, Function.update_of_ne (by omega), shares_arenaBuffer h.ids]
    simpa using harena
  · simp only [Option.mem_some_iff, forall_eq']
    omega

/-- Another inference takes the shares that the one before it gives back. -/
theorem Counted.next {x : Shared Inference} (h : Counted network arenaBuffer (some x) p) (fd : Fd)
    {q : Process} (hmade : q.made = p.made + 1)
    (huses : q.uses = unshares network arenaBuffer
      (Function.update (Function.update (shares network arenaBuffer p.uses) p.made 1) x.id 0)) :
    Counted network arenaBuffer (some ⟨p.made, ⟨fd, network, [], [], arenaBuffer⟩⟩) q := by
  have hnetwork := h.networkUses
  have harena := h.arenaUses
  have hn := h.networkMade
  have ha := h.arenaMade
  obtain ⟨hxn, hxa, hx⟩ := h.inferenceIds x rfl
  simp only [Option.toList_some, List.length_singleton] at hnetwork harena
  refine ⟨h.ids, ?_, ?_, by omega, by omega, ?_, ?_, by simp⟩
  · rw [huses, unshares_network h.ids, Function.update_of_ne (Ne.symm hxn),
      Function.update_of_ne (by omega), shares_network h.ids]
    simpa using hnetwork
  · rw [huses, unshares_arenaBuffer h.ids, Function.update_of_ne (Ne.symm hxa),
      Function.update_of_ne (by omega), shares_arenaBuffer h.ids]
    simpa using harena
  · simp only [Option.mem_some_iff, forall_eq']
    rw [huses, unshares_of_ne (by omega) (by omega), Function.update_of_ne (by omega),
      Function.update_self]
  · simp only [Option.mem_some_iff, forall_eq']
    omega

/-- The inference that is replaced goes away, if the driver closes it. -/
theorem wp_replace_counted {inference : Option (Shared Inference)} {start : List Event} {fd : Fd}
    (h : Counted network arenaBuffer inference p) {q : Process} (hmade : q.made = p.made + 1)
    (huses : q.uses = Function.update (shares network arenaBuffer p.uses) p.made 1)
    (hlatest : LatestSince start (some fd) q.trace) :
    wp (inference.forM (Inference.release env))
      (fun _ q' ↦ (∀ x ∈ inference, ¬ (q.reply env (.close x.obj.fd)).ret < 0)
        ∧ Counted network arenaBuffer (some ⟨p.made, ⟨fd, network, [], [], arenaBuffer⟩⟩) q'
        ∧ LatestSince start (some fd) q'.trace)
      (fun e _ ↦ (∃ x ∈ inference, (q.reply env (.close x.obj.fd)).ret < 0) ∧ e = .terminate)
      q := by
  rcases inference with _ | x
  · exact ⟨fun x hx ↦ (Option.not_mem_none x hx).elim, h.first fd hmade huses, hlatest⟩
  obtain ⟨hxn, hxa, hx⟩ := h.inferenceIds x rfl
  have hxuses := h.inferenceUses x rfl
  have hnetwork := h.networkUses
  have harena := h.arenaUses
  have hn := h.networkMade
  have ha := h.arenaMade
  refine wp_release_cases ?_ (h.inferenceObj x rfl) h.ids hxn hxa ?_ ?_
    (fun hneg _ ↦ ⟨⟨x, rfl, hneg⟩, rfl⟩) (fun hclosed ↦ ⟨?_, h.next fd hmade ?_, hlatest.called _⟩)
  · rw [huses, Function.update_of_ne (by omega), shares_of_ne hxn hxa, hxuses]
  · rw [huses, Function.update_of_ne (by omega), shares_network h.ids]
    omega
  · rw [huses, Function.update_of_ne (by omega), shares_arenaBuffer h.ids]
    omega
  · simpa using hclosed
  · rw [huses]

end

namespace Interpreter

/-! ## The invariant -/

/-- An interpreter that was constructed when the events so far were `start` can be used. -/
structure Usable (network : Shared Network) (arenaBuffer : Shared Buffer) (start : List Event)
    (s : Session) : Prop where
  hasNetwork : s.this.network = some network
  hasArena : s.this.arenaBuffer = some arenaBuffer
  counters : s.this.pmuCounters.length ≤ ethosuPmuEventMax
  decodes : ∃ info, network.obj.Decodes info
  counted : Counted network arenaBuffer s.this.inference s.proc
  latest : LatestSince start (s.this.inference.map fun x ↦ x.obj.fd) s.proc.trace

section

variable {env : Env} {network : Shared Network} {arenaBuffer : Shared Buffer} {start : List Event}
  {s : Session}

/-- A system call that starts no inference. -/
theorem Usable.called (h : Usable network arenaBuffer start s) {req : Request}
    (hquiet : (Event.call req (s.proc.reply env req)).started = none) :
    Usable network arenaBuffer start { s with proc := s.proc.called env req } := by
  have hlatest : LatestSince start _ (s.proc.called env req).trace := h.latest.called req
  rw [hquiet] at hlatest
  exact ⟨h.hasNetwork, h.hasArena, h.counters, h.decodes, h.counted.called req, hlatest⟩

/-! ## Invoking -/

/-- What `Invoke` does with an inference that it has created. -/
theorem wp_wait_usable (h : Usable network arenaBuffer start s) (inference : Inference)
    (timeoutNanos : Int64) :
    wp (do
        let _ ← onProc (inference.wait env timeoutNanos)
        let status ← onProc (inference.status env)
        if status ≠ .ok then throw (.error "Failed to invoke.") : Method Unit)
      (fun _ s' ↦ Usable network arenaBuffer start s')
      (fun e s' ↦ IsError e ∧ Usable network arenaBuffer start s') s := by
  rw [wp_bind, wp_onProc, Inference.wait, wp_bind, eppoll, wp_checked]
  refine ⟨fun _ ↦ ⟨⟨_, rfl⟩, h.called rfl⟩, fun _ ↦ ?_⟩
  have hpolled : Usable network arenaBuffer start ⟨s.proc.called env
    (.ppoll inference.fd (Inference.pollTimeout timeoutNanos)), s.this⟩ := h.called rfl
  rw [wp_pure, wp_bind, wp_onProc, Inference.status, wp_bind, eioctl, wp_checked]
  refine ⟨fun _ ↦ ⟨⟨_, rfl⟩, hpolled.called rfl⟩, fun _ ↦ ?_⟩
  split
  · exact (wp_ite _ _ _).2 ⟨fun _ ↦ ⟨⟨_, rfl⟩, hpolled.called rfl⟩, fun _ ↦ hpolled.called rfl⟩
  · exact ⟨⟨_, rfl⟩, hpolled.called rfl⟩

/-- `Invoke` returns or throws an exception of the library, unless the driver refuses to close the
inference that is replaced. -/
theorem wp_invoke_usable (h : Usable network arenaBuffer start s) (timeoutNanos : Int64) :
    wp (invoke env timeoutNanos)
      (fun _ s' ↦ ClosesReplaced env s ∧ Usable network arenaBuffer start s')
      (fun e s' ↦ (ClosesReplaced env s ∧ IsError e ∧ Usable network arenaBuffer start s')
        ∨ (¬ ClosesReplaced env s ∧ e = .terminate)) s := by
  have hcounted := h.counted
  have hids := hcounted.ids
  have hcounters : (s.this.pmuCounters.map UInt8.toUInt32).length ≤ ethosuPmuEventMax := by
    simpa using h.counters
  have hreq : createRequest env s network arenaBuffer = _ := createRequest.eq_def ..
  rw [invoke, wp_bind, wp_get, wp_bind, h.hasNetwork, deref, wp_pure, wp_bind, h.hasArena, deref,
    wp_pure, wp_bind, wp_onProc, wp_bind]
  refine wp_ofArena_cases hids (Nat.ne_of_gt (Nat.zero_lt_of_lt hcounted.networkUses))
    (Nat.ne_of_gt (Nat.zero_lt_of_lt hcounted.arenaUses)) hcounters hreq (fun hneg ↦ ?_)
    (fun hgranted ↦ ?_)
  · refine .inl ⟨fun n a x hn ha _ hret ↦ ?_, ⟨_, rfl⟩, h.called (if_pos hneg)⟩
    cases h.hasNetwork.symm.trans hn
    cases h.hasArena.symm.trans ha
    exact absurd hneg hret
  rw [wp_makeShared, wp_bind, wp_modify, wp_bind, wp_onProc]
  have hlatest := h.latest.created hgranted rfl
  refine wp_mono (wp_replace_counted hcounted rfl rfl hlatest) (fun _ q hq ↦ ?_)
    (fun e q he ↦ .inr ⟨fun hcloses ↦ ?_, he.2⟩)
  · obtain ⟨hclosed, hcounted', hlatest'⟩ := hq
    have hcloses : ClosesReplaced env s := fun n a x hn ha hx _ ↦ by
      cases h.hasNetwork.symm.trans hn
      cases h.hasArena.symm.trans ha
      exact hclosed x hx
    have husable : Usable network arenaBuffer start ⟨q, { s.this with inference := some _ }⟩ :=
      ⟨h.hasNetwork, h.hasArena, h.counters, h.decodes, hcounted', hlatest'⟩
    exact wp_mono (wp_wait_usable husable _ timeoutNanos) (fun _ s' hs' ↦ ⟨hcloses, hs'⟩)
      (fun e s' he ↦ .inl ⟨hcloses, he⟩)
  · obtain ⟨⟨x, hx, hrefused⟩, -⟩ := he
    exact hcloses network arenaBuffer x h.hasNetwork h.hasArena hx hgranted hrefused

/-! ## The other calls -/

/-- A data offset is looked up without a subscript out of range, and added to an address that the
driver is asked for. -/
theorem wp_typedBuffer_usable (h : Usable network arenaBuffer start s)
    (dataOffset : Network → Int32 → M Int32) (msg : String) (offsets : Network → List Int32)
    (hdataOffset : ∀ n index, dataOffset n index = Network.dataOffsetAt msg (offsets n) index)
    (index : Int32) :
    wp (typedBuffer env dataOffset index) (fun _ s' ↦ Usable network arenaBuffer start s')
      (fun e s' ↦ IsError e ∧ Usable network arenaBuffer start s') s := by
  rw [typedBuffer, wp_bind, wp_get, wp_bind, h.hasNetwork, deref, wp_pure, wp_bind, wp_onProc,
    hdataOffset, Network.dataOffsetAt]
  split
  · rw [wp_pure, wp_bind, h.hasArena, deref, wp_pure, wp_bind, wp_onProc, Buffer.data, wp_bind,
      Buffer.offset, wp_bind, eioctl, wp_checked]
    exact ⟨fun _ ↦ ⟨⟨_, rfl⟩, h.called rfl⟩, fun _ ↦ h.called rfl⟩
  · exact ⟨⟨msg, rfl⟩, h⟩

/-- A query of an inference that there is. -/
theorem wp_query_usable {α : Type} (h : Usable network arenaBuffer start s) {x : Shared Inference}
    (hx : s.this.inference = some x) (f : Reply → α) (asked : Inference → M α)
    (hasked : ∀ inference, asked inference
      = do return f (← eioctl env (.inferenceStatus inference.fd))) :
    wp (do
        let inference ← deref (← get).this.inference
        onProc (asked inference.obj) : Method α)
      (fun _ s' ↦ Usable network arenaBuffer start s'
        ∧ s'.proc = s.proc.called env (.inferenceStatus x.obj.fd))
      (fun e s' ↦ IsError e ∧ Usable network arenaBuffer start s'
        ∧ s'.proc = s.proc.called env (.inferenceStatus x.obj.fd)) s := by
  rw [wp_bind, wp_get, wp_bind, hx, deref, wp_pure, wp_onProc, hasked, wp_bind, eioctl, wp_checked]
  exact ⟨fun _ ↦ ⟨⟨_, rfl⟩, h.called rfl, rfl⟩, fun _ ↦ ⟨h.called rfl, rfl⟩⟩

/-- A call that has what it needs. -/
theorem wp_answer_usable (h : Usable network arenaBuffer start s) {call : PublicCall}
    (hallowed : Allowed env call s) :
    wp (answer env call) (fun _ s' ↦ Usable network arenaBuffer start s')
      (fun e s' ↦ IsError e ∧ Usable network arenaBuffer start s') s := by
  cases call with
  | setPmuCycleCounters counters cycleCounter =>
    rw [answer, wp_bind, setPmuCycleCounters]
    by_cases hlen : counters.length = ethosuPmuEventMax
    · rw [if_neg (not_not.2 hlen)]
      exact ⟨h.hasNetwork, h.hasArena, Nat.le_of_eq hlen, h.decodes, h.counted, h.latest⟩
    · rw [if_pos hlen]
      exact ⟨⟨_, rfl⟩, h⟩
  | invoke timeoutNanos =>
    rw [answer, wp_bind]
    refine wp_mono (wp_invoke_usable h timeoutNanos) (fun _ _ hs ↦ hs.2) (fun _ _ he ↦ ?_)
    rcases he with he | he
    · exact he.2
    · exact absurd hallowed he.1
  | getPmuCounters =>
    obtain ⟨x, hx⟩ := Option.isSome_iff_exists.1 hallowed
    rw [answer, wp_map]
    exact wp_mono (wp_query_usable h hx _ _ fun _ ↦ rfl) (fun _ _ hs ↦ hs.1)
      (fun _ _ he ↦ ⟨he.1, he.2.1⟩)
  | getCycleCounter =>
    obtain ⟨x, hx⟩ := Option.isSome_iff_exists.1 hallowed
    rw [answer, wp_map]
    exact wp_mono (wp_query_usable h hx _ _ fun _ ↦ rfl) (fun _ _ hs ↦ hs.1)
      (fun _ _ he ↦ ⟨he.1, he.2.1⟩)
  | typedInputBuffer index =>
    rw [answer, wp_map]
    exact wp_typedBuffer_usable h _ _ _ (fun _ _ ↦ rfl) index
  | typedOutputBuffer index =>
    rw [answer, wp_map]
    exact wp_typedBuffer_usable h _ _ _ (fun _ _ ↦ rfl) index
  | getInputInfo =>
    obtain ⟨info, hdecodes⟩ := h.decodes
    obtain ⟨infos, hinfos, -⟩ := hdecodes.inputInfo s network.id h.hasNetwork
    rw [answer, wp_map, wp_of_ok hinfos]
    exact h
  | getOutputInfo =>
    obtain ⟨info, hdecodes⟩ := h.decodes
    obtain ⟨infos, hinfos, -⟩ := hdecodes.outputInfo s network.id h.hasNetwork
    rw [answer, wp_map, wp_of_ok hinfos]
    exact h

/-! ## Safe calls -/

/-- The queries are about the latest inference, and there is one. -/
theorem asks_of_allowed (h : Usable network arenaBuffer start s) {call : PublicCall}
    (hquery : call.Queries) (hallowed : Allowed env call s) :
    ∃ since fd, s.proc.trace = since ++ start ∧ EthosU.latest since = some fd
      ∧ (left (answer env call) s).proc.trace
        = .call (.inferenceStatus fd) (s.proc.reply env (.inferenceStatus fd)) :: s.proc.past env
      := by
  have hsome : s.this.inference.isSome := by
    cases call <;> first | exact hallowed | exact hquery.elim
  obtain ⟨x, hx⟩ := Option.isSome_iff_exists.1 hsome
  obtain ⟨since, hsince, hlatest⟩ := h.latest
  rw [hx, Option.map_some] at hlatest
  refine ⟨since, x.obj.fd, hsince, hlatest, ?_⟩
  have hleft : (left (answer env call) s).proc
      = s.proc.called env (.inferenceStatus x.obj.fd) := by
    refine left_of_wp (P := fun s' : Session ↦
      s'.proc = s.proc.called env (.inferenceStatus x.obj.fd)) ?_
    cases call with
    | getPmuCounters =>
      rw [answer, wp_map]
      exact wp_mono (wp_query_usable h hx _ _ fun _ ↦ rfl) (fun _ _ hs ↦ hs.2)
        (fun _ _ he ↦ he.2.2)
    | getCycleCounter =>
      rw [answer, wp_map]
      exact wp_mono (wp_query_usable h hx _ _ fun _ ↦ rfl) (fun _ _ hs ↦ hs.2)
        (fun _ _ he ↦ he.2.2)
    | _ => exact hquery.elim
  rw [hleft]
  rfl

/-- One call. -/
theorem safe_iff (h : Usable network arenaBuffer start s) (call : PublicCall) :
    Safe env start call s ↔ Allowed env call s := by
  refine ⟨fun hsafe ↦ ?_, fun hallowed ↦ ⟨?_, fun hquery ↦ asks_of_allowed h hquery hallowed⟩⟩
  · -- what ends in any other way is not an exception of the library
    have hcrash : ∀ {α : Type} {f : α → Response} {m : Inference → M α},
        answer env call = f <$> (do
          let inference ← deref (← get).this.inference
          onProc (m inference.obj)) → s.this.inference.isSome := by
      intro α f m hanswer
      refine Option.isSome_iff_ne_none.2 fun hnone ↦ ?_
      have hends := hsafe.ends
      rw [hanswer, wp_map, wp_bind, wp_get, wp_bind, hnone] at hends
      obtain ⟨msg, hmsg⟩ := hends
      cases hmsg
    cases call with
    | getPmuCounters => exact hcrash rfl
    | getCycleCounter => exact hcrash rfl
    | invoke timeoutNanos =>
      by_contra hrefused
      have hends := hsafe.ends
      rw [answer, wp_bind] at hends
      refine left_of_wp (P := fun _ ↦ False) (wp_mono (wp_conj hends (wp_invoke_usable h _))
        (fun _ _ hs ↦ hrefused hs.2.1) fun e _ he ↦ ?_)
      obtain ⟨⟨msg, hmsg⟩, he | ⟨-, he⟩⟩ := he
      · exact hrefused he.1
      · cases hmsg.symm.trans he
    | _ => exact trivial
  · exact wp_mono (wp_answer_usable h hallowed) (fun _ _ _ ↦ trivial) (fun _ _ he ↦ he.1)

/-- Any sequence of calls. -/
theorem allSafe_iff_allAllowed (h : Usable network arenaBuffer start s) (calls : List PublicCall) :
    AllSafe env start calls s ↔ AllAllowed env calls s := by
  induction calls generalizing s with
  | nil => exact Iff.rfl
  | cons call calls ih =>
    rw [AllSafe, AllAllowed, safe_iff h]
    refine and_congr_right fun hallowed ↦ ih ?_
    exact left_of_wp (wp_mono (wp_answer_usable h hallowed) (fun _ _ hs ↦ hs)
      (fun _ _ he ↦ he.2))

end

/-! ## The constructor -/

section

variable {env : Env} {p : Process}

theorem wp_bufferNew_counts (device : Device) (capacity : UInt64) :
    wp (Buffer.new env device capacity) (fun _ p' ↦ p'.uses = p.uses ∧ p'.made = p.made)
      (fun _ _ ↦ True) p := by
  rw [Buffer.new, wp_bind, eioctl, wp_checked]
  refine ⟨fun _ ↦ trivial, fun _ ↦ ?_⟩
  rw [wp_bind, catching, wp_onThrow, emmap, wp_checked]
  refine ⟨fun _ ↦ ?_, fun _ ↦ ⟨rfl, rfl⟩⟩
  split
  · exact wp_of_forall (fun _ _ ↦ trivial) fun _ _ ↦ trivial
  · exact trivial

/-- The rest of the constructor, from the network on. -/
theorem wp_init_usable (model : String) {s : Session} (hinference : s.this.inference = none)
    (hcounters : s.this.pmuCounters = []) :
    wp (init env model)
      (fun _ s' ↦ ∃ network arenaBuffer, Usable network arenaBuffer s'.proc.trace s')
      (fun _ _ ↦ True) s := by
  have hany : ∀ {α : Type} (x : M α) (p : Process), wp x (fun _ _ ↦ True) (fun _ _ ↦ True) p :=
    fun x p ↦ wp_of_forall (fun _ _ ↦ trivial) fun _ _ ↦ trivial
  rw [init, wp_bind, wp_get, wp_bind, wp_onProc]
  refine wp_mono (hany _ _) (fun _ p₁ _ ↦ ?_) (fun _ _ he ↦ he)
  rw [wp_bind, wp_onProc]
  refine wp_mono (hany _ _) (fun stream p₂ _ ↦ ?_) (fun _ _ he ↦ he)
  rw [wp_bind, wp_onProc]
  refine wp_mono (hany _ _) (fun networkBuffer p₃ _ ↦ ?_) (fun _ _ he ↦ he)
  rw [wp_bind, wp_modify, wp_bind, wp_onProc]
  refine wp_mono (hany _ _) (fun _ p₄ _ ↦ ?_) (fun _ _ he ↦ he)
  rw [wp_bind, wp_onProc]
  refine wp_mono (hany _ _) (fun _ p₅ _ ↦ ?_) (fun _ _ he ↦ he)
  -- from here on it matters what is made
  rw [wp_bind, wp_onProc, wp_bind]
  refine wp_mono (Network.wp_ofBuffer_cases _ rfl) (fun n p₆ hn ↦ ?_) (fun _ _ _ ↦ trivial)
  rw [wp_makeShared, wp_bind, wp_modify]
  by_cases hvela : (!n.isVelaModel) = true
  · rw [if_pos hvela]
    exact trivial
  rw [if_neg hvela, wp_bind, wp_onProc, wp_bind]
  refine wp_mono (wp_bufferNew_counts _ _) (fun a p₇ hp₇ ↦ ?_) (fun _ _ he ↦ he)
  obtain ⟨huses, hmade⟩ := hp₇
  rw [wp_makeShared, wp_bind, wp_modify, wp_onProc, Buffer.resize, wp_discard, eioctl, wp_checked]
  refine ⟨fun _ ↦ trivial, fun _ ↦ ⟨⟨p₆.made, n⟩, ⟨p₇.made, a⟩, rfl, rfl, ?_, ?_, ?_, ?_⟩⟩
  · show s.this.pmuCounters.length ≤ ethosuPmuEventMax
    simp [hcounters]
  · exact ⟨_, hn.2.2 ▸ Network.decodes_ofInfo _ _ _ _⟩
  · show Counted _ _ s.this.inference _
    rw [hinference]
    refine (Counted.of_fresh ?_ (Nat.lt_succ_self p₇.made) ?_ ?_).called _
    · rw [hmade]
      exact Nat.lt_succ_self p₆.made
    · show Function.update p₇.uses p₇.made 1 p₆.made = 1
      rw [hmade, huses]
      simp
    · show Function.update p₇.uses p₇.made 1 p₇.made = 1
      simp
  · show LatestSince _ (s.this.inference.map fun x ↦ x.obj.fd) _
    rw [hinference]
    exact ⟨[], rfl, rfl⟩

/-- A constructed interpreter can be used. -/
theorem wp_new_usable (model device : String) (arenaSizeOfMB : Int64) :
    wp (new env model device arenaSizeOfMB)
      (fun this p' ↦ ∃ network arenaBuffer, Usable network arenaBuffer p'.trace ⟨p', this⟩)
      (fun _ _ ↦ True) p := by
  rw [new, wp_bind]
  refine wp_mono (wp_of_forall (Q := fun _ _ ↦ True) (fun _ _ ↦ trivial) fun _ _ ↦ trivial)
    (fun opened p₁ _ ↦ ?_) (fun _ _ he ↦ he)
  rw [wp_bind, wp_get, wp_bind, wp_onObject, unwinding, wp_onThrow]
  refine wp_mono (wp_init_usable model rfl rfl) (fun _ _ hs ↦ hs) (fun _ _ _ ↦ ?_)
  split
  · exact wp_of_forall (fun _ _ ↦ trivial) fun _ _ ↦ trivial
  · exact trivial

/-- **Safe in any order, as long as there is an inference to ask and none that can not be closed.**
Of a constructed interpreter and any sequence of calls, whatever the driver answers: each call
returns or throws an exception of the library and each query is about the inference created last,
exactly if each query finds an inference and each `Invoke` that replaces one has it closed. -/
theorem allSafe_iff {model device : String} {arenaSizeOfMB : Int64} {this : Interpreter}
    {p' : Process} (hnew : new env model device arenaSizeOfMB p = .ok this p')
    (calls : List PublicCall) :
    AllSafe env p'.trace calls ⟨p', this⟩ ↔ AllAllowed env calls ⟨p', this⟩ := by
  obtain ⟨network, arenaBuffer, husable⟩ :=
    ok_of_wp (wp_new_usable model device arenaSizeOfMB) hnew
  exact allSafe_iff_allAllowed husable calls

end

/-- A driver that grants everything but closing a descriptor. -/
def grudging : Env where
  kernel :=
    { answer := fun past req ↦
        match req with
        | .close _ => { ret := -1 }
        | _ => { ret := .ofNat (past.length + 3), data := fun _ ↦ 1 } }
  files := fun _ ↦ ⟨true, true, 0, []⟩
  stack := fun _ _ ↦ 0
  heapBool := fun _ ↦ false

/-- The counters are asked for after an `Invoke`. -/
theorem allSafe_iff_grudging :
    ∃ this p', new grudging "model_vela.tflite" "/dev/ethosu0" 16 {} = .ok this p'
      ∧ (AllSafe grudging p'.trace [.invoke 1, .getPmuCounters] ⟨p', this⟩
        ↔ AllAllowed grudging [.invoke 1, .getPmuCounters] ⟨p', this⟩) := by
  have hreturns : ∃ this p', new grudging "model_vela.tflite" "/dev/ethosu0" 16 {} = .ok this p'
      ∧ True := by decide +kernel
  obtain ⟨this, p', hnew, -⟩ := hreturns
  exact ⟨this, p', hnew, allSafe_iff hnew _⟩

/-- What a call throws, if it does. -/
def thrown (s : Session) (call : PublicCall) : Option Exception :=
  match answer grudging call s with
  | .ok _ _ => none
  | .error e _ => some e

/-- A call that throws anything else than an exception of the library is not safe. -/
theorem not_safe_of_thrown {start : List Event} {s : Session} {call : PublicCall}
    {e : Exception} (hthrown : thrown s call = some e) (he : ¬ IsError e) :
    ¬ Safe grudging start call s := by
  intro hsafe
  have hends := hsafe.ends
  rw [thrown] at hthrown
  rcases hanswer : answer grudging call s with ⟨r, s'⟩ | ⟨f, s'⟩
  · simp [hanswer] at hthrown
  · rw [wp_of_error hanswer] at hends
    simp only [hanswer, Option.some_inj] at hthrown
    exact he (hthrown ▸ hends)

/-- The counters are asked for before the first `Invoke`; and a second `Invoke` replaces an
inference that can not be closed. -/
theorem not_allSafe :
    (∃ this p', new grudging "model_vela.tflite" "/dev/ethosu0" 16 {} = .ok this p'
      ∧ ¬ AllSafe grudging p'.trace [.getPmuCounters] ⟨p', this⟩)
    ∧ ∃ this p', new grudging "model_vela.tflite" "/dev/ethosu0" 16 {} = .ok this p'
      ∧ ¬ AllSafe grudging p'.trace [.invoke 1, .invoke 1] ⟨p', this⟩ := by
  have hcrash : ∃ this p', new grudging "model_vela.tflite" "/dev/ethosu0" 16 {} = .ok this p'
      ∧ thrown ⟨p', this⟩ .getPmuCounters = some .crash := by decide +kernel
  have hterminate : ∃ this p',
      new grudging "model_vela.tflite" "/dev/ethosu0" 16 {} = .ok this p'
      ∧ thrown (left (answer grudging (.invoke 1)) ⟨p', this⟩) (.invoke 1) = some .terminate := by
    decide +kernel
  obtain ⟨this, p', hnew, hthrown⟩ := hcrash
  obtain ⟨this', q', hnew', hthrown'⟩ := hterminate
  refine ⟨⟨this, p', hnew, fun hsafe ↦ ?_⟩, this', q', hnew', fun hsafe ↦ ?_⟩
  · refine not_safe_of_thrown hthrown (fun he ↦ ?_) hsafe.1
    obtain ⟨msg, hmsg⟩ := he
    cases hmsg
  · refine not_safe_of_thrown hthrown' (fun he ↦ ?_) hsafe.2.1
    obtain ⟨msg, hmsg⟩ := he
    cases hmsg

end Interpreter

end EthosU
