import EthosU.Housekeeping
import EthosU.InferenceRunner.InterpreterRunner
import EthosU.Lib.Narrow
import EthosU.Lib.Settings
import EthosU.Request

/-!
# What the command line asks for

A user of the interpreter runner chooses events for the performance counters, the cycle counter, the
size of the arena and a timeout.  Each choice is an option, the last one of its kind counts, and it
ends up in a system call, many functions later.  This file asks when it arrives there unchanged.

* `asked` reads the choices off the options of a command line, as the help text explains them.
* `Honours` compares a system call with them: the struct of `INFERENCE_CREATE`, the capacity of the
  buffer that is its arena, and the deadline of `ppoll`.
* `Sends` is what the runner says instead, in terms of the variables of `main`: the counters are
  bytes, the capacity is cut to 32 bits, and the deadline is always the same.  It is an invariant of
  every run (`always_sends`).
* `honoured_iff` proves that a command line is honoured in every run exactly if its choices survive
  that.
-/

set_option autoImplicit false

namespace EthosU

open Wp

/-! ## System calls and what came before -/

/-- Every system call is right, given the events before it. -/
def Always (P : List Event → Request → Prop) : List Event → Prop
  | [] => True
  | .call req _ :: past => P past req ∧ Always P past
  | .ended _ :: past => Always P past

instance decidableAlways {P : List Event → Request → Prop} [∀ past req, Decidable (P past req)] :
    ∀ t : List Event, Decidable (Always P t)
  | [] => isTrue trivial
  | .call _ _ :: past =>
    have := decidableAlways (P := P) past
    inferInstanceAs (Decidable (_ ∧ _))
  | .ended _ :: past => decidableAlways (P := P) past

/-- The capacity the buffer at `fd` was created with. -/
def capacityOf (fd : Fd) : List Event → Option UInt32
  | [] => none
  | .call (.bufferCreate _ capacity) reply :: past =>
    if reply.ret = fd then some capacity else capacityOf fd past
  | _ :: past => capacityOf fd past

/-- The nanoseconds of a `timespec`. -/
def Timespec.nanos (t : Timespec) : Int := t.tvSec.toInt * 1000000000 + t.tvNsec.toInt

section

variable {P Q : List Event → Request → Prop} {env : Env} {p : Process} {t : List Event}

theorem Always.mono (h : Always P t) (hPQ : ∀ past req, P past req → Q past req) : Always Q t := by
  induction t with
  | nil => trivial
  | cons e past ih =>
    cases e with
    | call req reply => exact ⟨hPQ past req h.1, ih h.2⟩
    | ended fd => exact ih h

theorem Always.and (hP : Always P t) (hQ : Always Q t) :
    Always (fun past req ↦ P past req ∧ Q past req) t := by
  induction t with
  | nil => trivial
  | cons e past ih =>
    cases e with
    | call req reply => exact ⟨⟨hP.1, hQ.1⟩, ih hP.2 hQ.2⟩
    | ended fd => exact ih hP hQ

theorem Always.of_mem (h : Always P t) {req : Request} {reply : Reply}
    (hmem : .call req reply ∈ t) : ∃ past, P past req := by
  induction t with
  | nil => cases hmem
  | cons e past ih =>
    rcases List.mem_cons.1 hmem with rfl | hlater
    · exact ⟨past, h.1⟩
    · cases e with
      | call req' reply' => exact ih h.2 hlater
      | ended fd => exact ih h hlater

theorem always_past : Always P (p.past env) ↔ Always P p.trace := by
  have hended : ∀ fds : List Fd, Always P (fds.map .ended ++ p.trace) ↔ Always P p.trace := by
    intro fds
    induction fds with
    | nil => exact Iff.rfl
    | cons fd fds ih => exact ih
  exact hended _

theorem Always.called (h : Always P p.trace) {req : Request} (hreq : P (p.past env) req) :
    Always P (p.called env req).trace :=
  ⟨hreq, always_past.2 h⟩

theorem capacityOf_past (fd : Fd) : capacityOf fd (p.past env) = capacityOf fd p.trace := by
  have hended : ∀ fds : List Fd,
      capacityOf fd (fds.map .ended ++ p.trace) = capacityOf fd p.trace := by
    intro fds
    induction fds with
    | nil => rfl
    | cons fd' fds ih => exact ih
  exact hended _

/-- Only the creation of a buffer sets a capacity. -/
theorem capacityOf_called (fd : Fd) {req : Request}
    (hreq : ∀ device capacity, req ≠ .bufferCreate device capacity) :
    capacityOf fd (p.called env req).trace = capacityOf fd p.trace := by
  cases req with
  | bufferCreate device capacity => exact absurd rfl (hreq device capacity)
  | _ => exact capacityOf_past fd

end

namespace InterpreterRunner

/-! ## The choices -/

/-- The event of an option for counter `k`. -/
def Item.event? (k : Nat) : Item → Option Int
  | .pmu counter event => if counter = k then some event else none
  | _ => none

def Item.arena? : Item → Option Int
  | .arena sizeOfMB => some sizeOfMB
  | _ => none

def Item.timeout? : Item → Option Int
  | .timeout nanos => some nanos
  | _ => none

/-- What a user asks for. -/
structure Asked where
  events : Nat → Int
  cycles : Bool
  arenaSizeOfMB : Int
  timeout : Int

/-- The last option of each kind counts, and there are defaults. -/
def asked (items : List Item) : Asked where
  events k := (Settings.lastOf (Item.event? k) items).getD 0
  cycles := decide (.cycles ∈ items)
  arenaSizeOfMB := (Settings.lastOf Item.arena? items).getD 16
  timeout := (Settings.lastOf Item.timeout? items).getD 60000000000

/-- The system call does what was asked.  The arena is the first of the input feature maps, and a
negative timeout is no deadline. -/
def Honours (a : Asked) (past : List Event) : Request → Prop
  | .inferenceCreate _ uapi =>
    (∀ k < ethosuPmuEventMax, ((uapi (InferenceCreate.events + k)).toNat : Int) = a.events k)
      ∧ uapi InferenceCreate.cycleCount = (if a.cycles then 1 else 0)
      ∧ ∃ fd ∈ (InferenceCreate.ifmFds uapi).head?, ∃ capacity ∈ capacityOf fd past,
        (capacity.toNat : Int) = a.arenaSizeOfMB * 2 ^ 20
  | .ppoll _ timeout =>
    timeout.map Timespec.nanos = if a.timeout < 0 then none else some a.timeout
  | _ => True

instance (a : Asked) (past : List Event) (req : Request) : Decidable (Honours a past req) :=
  match req with
  | .inferenceCreate _ uapi =>
    inferInstanceAs (Decidable ((∀ k < ethosuPmuEventMax,
        ((uapi (InferenceCreate.events + k)).toNat : Int) = a.events k)
      ∧ uapi InferenceCreate.cycleCount = (if a.cycles then 1 else 0)
      ∧ ∃ fd ∈ (InferenceCreate.ifmFds uapi).head?, ∃ capacity ∈ capacityOf fd past,
        (capacity.toNat : Int) = a.arenaSizeOfMB * 2 ^ 20))
  | .ppoll _ timeout =>
    inferInstanceAs (Decidable
      (timeout.map Timespec.nanos = if a.timeout < 0 then none else some a.timeout))
  | .open _ | .close _ | .mmap _ _ | .munmap _ _ | .ping _ | .versionReq _ | .capabilitiesReq _
  | .bufferCreate _ _ | .bufferSet _ _ _ | .bufferGet _ | .networkCreate _ _ _ | .networkInfo _
  | .inferenceStatus _ | .inferenceCancel _ => isTrue trivial

/-- What was asked arrives at the driver as it is. -/
structure Asked.Arrives (a : Asked) : Prop where
  events : ∀ k < ethosuPmuEventMax, 0 ≤ a.events k ∧ a.events k < 2 ^ 8
  arenaSizeOfMB : 0 ≤ a.arenaSizeOfMB ∧ a.arenaSizeOfMB < 2 ^ 12
  timeout : a.timeout = 60000000000

/-- The command line is one that the program does not reject by itself. -/
def Accepted (items : List Item) : Prop :=
  (items.foldl Options.set {}).networkArg.isEmpty = false
    ∧ (items.foldl Options.set {}).ifmArg.isEmpty = false

/-! ## From the options to the variables -/

/-- A counter that `main` has. -/
def Item.InRange : Item → Prop
  | .pmu counter _ => 0 ≤ counter ∧ counter < ethosuPmuEventMax
  | _ => True

/-- What a number that was read is. -/
theorem checkedInt_bounds {lower upper n : Int} {s : String}
    (h : checkedInt lower upper s = .ok n) : lower ≤ n ∧ n ≤ upper := by
  rw [checkedInt] at h
  split at h
  · cases h
  · split at h
    · rename_i hbounds
      cases h
      exact hbounds
    · cases h

private theorem ok_of_bind {α β : Type} {x : Except Exception α} {f : α → Except Exception β}
    {b : β} (h : x >>= f = .ok b) : ∃ a, x = .ok a ∧ f a = .ok b := by
  cases x with
  | error e => cases h
  | ok a => exact ⟨a, rfl, h⟩

private theorem inRange_cons {rest : List String} {item : Item} (hitem : item.InRange)
    (ih : ∀ {items}, lex rest = .ok items → ∀ i ∈ items, Item.InRange i) {items : List Item}
    (h : (do return item :: (← lex rest)) = Except.ok items) : ∀ i ∈ items, i.InRange := by
  obtain ⟨items', hitems', h⟩ := ok_of_bind h
  cases h
  exact List.forall_mem_cons.2 ⟨hitem, ih hitems'⟩

/-- Counters that are out of bounds are rejected, negative ones among them. -/
theorem lex_inRange {argv : List String} {items : List Item} (h : lex argv = .ok items) :
    ∀ i ∈ items, i.InRange := by
  fun_induction lex argv generalizing items
  case case1 =>
    cases h
    exact fun i hi ↦ absurd hi List.not_mem_nil
  case case4 | case6 | case8 | case10 | case17 | case18 =>
    rename_i ih
    refine inRange_cons ?_ ih h
    trivial
  case case12 | case14 =>
    rename_i ih
    obtain ⟨n, -, h⟩ := ok_of_bind h
    refine inRange_cons ?_ ih h
    trivial
  case case16 =>
    rename_i rest ih
    obtain ⟨pmu, hpmu, h⟩ := ok_of_bind h
    cases rest with
    | nil => cases h
    | cons value rest =>
      obtain ⟨event, -, h⟩ := ok_of_bind h
      split at h
      · cases h
      · rename_i hcounter
        refine inRange_cons ?_ ih h
        have hbounds := checkedInt_bounds hpmu
        have hvalue := Narrow.toNat_ofInt pmu
        rw [toUnsigned, ethosuPmuEventMax] at hcounter
        rw [Item.InRange, ethosuPmuEventMax]
        omega
  all_goals cases h

section

variable {items : List Item}

private theorem length_set (o : Options) (item : Item)
    (ho : o.enabledCounters.length = ethosuPmuEventMax) :
    (o.set item).enabledCounters.length = ethosuPmuEventMax := by
  cases item with
  | pmu counter event => simpa [Options.set] using ho
  | _ => exact ho

theorem length_enabledCounters (items : List Item) :
    (items.foldl Options.set {}).enabledCounters.length = ethosuPmuEventMax :=
  Settings.foldl_induction (I := fun o : Options ↦ o.enabledCounters.length = ethosuPmuEventMax)
    length_set items rfl

private theorem getD_set {o : Options} {item : Item}
    (ho : o.enabledCounters.length = ethosuPmuEventMax) (hitem : item.InRange) {k : Nat}
    (hk : k < ethosuPmuEventMax) :
    (o.set item).enabledCounters.getD k 0
      = ((item.event? k).map fun event ↦ (toUnsigned event).toUInt8).getD
        (o.enabledCounters.getD k 0) := by
  cases item with
  | pmu counter event =>
    obtain ⟨hlower, hupper⟩ := hitem
    have hvalue := Narrow.toNat_ofInt counter
    have hcounter : (toUnsigned counter).toNat = counter.toNat := by
      rw [ethosuPmuEventMax] at hupper
      rw [toUnsigned]
      omega
    simp only [Options.set, Item.event?, hcounter, List.getD, List.getElem?_set, ho]
    by_cases heq : counter = k
    · have hk' : counter.toNat = k := by omega
      simp [heq, hk]
    · have hk' : counter.toNat ≠ k := by omega
      simp [heq, hk']
  | _ => rfl

/-- The counters are the low bytes of the events. -/
theorem enabledCounters_eq (h : ∀ i ∈ items, i.InRange) {k : Nat} (hk : k < ethosuPmuEventMax) :
    (items.foldl Options.set {}).enabledCounters.getD k 0
      = (toUnsigned ((asked items).events k)).toUInt8 := by
  have hlast : (items.foldl Options.set {}).enabledCounters.getD k 0
      = ((Settings.lastOf (Item.event? k) items).map fun event ↦ (toUnsigned event).toUInt8).getD
        ((List.replicate ethosuPmuEventMax (0 : UInt8)).getD k 0) :=
    Settings.get_foldl (fun o : Options ↦ o.enabledCounters.getD k 0) _ _ length_set
      (fun o ho item hitem ↦ getD_set ho (h item hitem) hk) rfl
  rw [hlast]
  show _ = (toUnsigned ((Settings.lastOf (Item.event? k) items).getD 0)).toUInt8
  cases Settings.lastOf (Item.event? k) items with
  | some event => rfl
  | none =>
    have hzero : (List.replicate ethosuPmuEventMax (0 : UInt8)).getD k 0 = 0 := by
      simp [List.getD, hk]
    exact hzero

theorem arenaSizeOfMB_eq (items : List Item) :
    (items.foldl Options.set {}).arenaSizeOfMB = .ofInt (asked items).arenaSizeOfMB := by
  have hlast : (items.foldl Options.set {}).arenaSizeOfMB
      = ((Settings.lastOf Item.arena? items).map Int64.ofInt).getD 16 :=
    Settings.get_foldl (I := fun _ ↦ True) Options.arenaSizeOfMB _ _ (fun _ _ _ ↦ trivial)
      (fun o _ item _ ↦ by cases item <;> rfl) trivial
  rw [hlast]
  show _ = Int64.ofInt ((Settings.lastOf Item.arena? items).getD 16)
  cases Settings.lastOf Item.arena? items <;> rfl

theorem enableCycleCounter_eq (items : List Item) :
    (items.foldl Options.set {}).enableCycleCounter = (asked items).cycles := by
  have hall : ∀ (items : List Item) (o : Options), (items.foldl Options.set o).enableCycleCounter
      = (o.enableCycleCounter || decide (.cycles ∈ items)) := by
    intro items
    induction items with
    | nil => simp
    | cons item items ih =>
      intro o
      rw [List.foldl_cons, ih]
      cases item <;> simp [Options.set]
  rw [hall, asked]
  rfl

end

/-! ## What the runner says -/

/-- The capacity the arena is created with. -/
def arenaCapacity (o : Options) : UInt32 := (o.arenaSizeOfMB <<< 20).toUInt64.toUInt32

/-- The system call says what follows from the variables of `main`. -/
def Sends (o : Options) (past : List Event) : Request → Prop
  | .inferenceCreate _ uapi =>
    (∀ k < ethosuPmuEventMax,
        uapi (InferenceCreate.events + k) = (o.enabledCounters.getD k 0).toUInt32)
      ∧ uapi InferenceCreate.cycleCount = (if o.enableCycleCounter then 1 else 0)
      ∧ ∃ fd ∈ (InferenceCreate.ifmFds uapi).head?, capacityOf fd past = some (arenaCapacity o)
  | .ppoll _ timeout => timeout = Inference.pollTimeout Interpreter.defaultTimeoutNanos
  | _ => True

section

variable {items : List Item} {past : List Event}

private theorem event_iff (event : Int) :
    (((toUnsigned event).toUInt8.toUInt32.toNat : Nat) : Int) = event
      ↔ 0 ≤ event ∧ event < 2 ^ 8 := by
  have hvalue := Narrow.toNat_ofInt event
  rw [UInt8.toNat_toUInt32, UInt32.toNat_toUInt8, toUnsigned]
  omega

private theorem arena_iff (sizeOfMB : Int) :
    (((Int64.ofInt sizeOfMB <<< 20).toUInt64.toUInt32.toNat : Nat) : Int) = sizeOfMB * 2 ^ 20
      ↔ 0 ≤ sizeOfMB ∧ sizeOfMB < 2 ^ 12 := by
  rw [Narrow.toNat_shift]
  omega

/-- An inference is as it was asked for if the events are bytes and the arena is smaller than
4 GiB. -/
theorem honours_create_iff (h : ∀ i ∈ items, i.InRange) {network : Fd} {uapi : Words}
    (hsends : Sends (items.foldl Options.set {}) past (.inferenceCreate network uapi)) :
    Honours (asked items) past (.inferenceCreate network uapi)
      ↔ (∀ k < ethosuPmuEventMax, 0 ≤ (asked items).events k ∧ (asked items).events k < 2 ^ 8)
        ∧ 0 ≤ (asked items).arenaSizeOfMB ∧ (asked items).arenaSizeOfMB < 2 ^ 12 := by
  obtain ⟨hevents, hcycles, fd, hfd, hcapacity⟩ := hsends
  have hevent : ∀ k < ethosuPmuEventMax,
      ((uapi (InferenceCreate.events + k)).toNat : Int) = (asked items).events k
        ↔ 0 ≤ (asked items).events k ∧ (asked items).events k < 2 ^ 8 := by
    intro k hk
    rw [hevents k hk, enabledCounters_eq h hk, event_iff]
  rw [enableCycleCounter_eq] at hcycles
  rw [arenaCapacity, arenaSizeOfMB_eq] at hcapacity
  refine and_congr (forall₂_congr hevent) ?_
  rw [← arena_iff]
  refine ⟨?_, ?_⟩
  · rintro ⟨-, fd', hfd', capacity, hcapacity', hvalue⟩
    rw [← Option.mem_unique hfd hfd'] at hcapacity'
    rwa [Option.mem_unique (Option.mem_def.2 hcapacity) hcapacity']
  · intro hvalue
    exact ⟨hcycles, fd, hfd, _, hcapacity, hvalue⟩

/-- The deadline is as it was asked for if it is the default. -/
theorem honours_poll_iff {o : Options} {a : Asked} {fd : Fd} {timeout : Option Timespec}
    (hsends : Sends o past (.ppoll fd timeout)) :
    Honours a past (.ppoll fd timeout) ↔ a.timeout = 60000000000 := by
  have hnanos : timeout.map Timespec.nanos = some 60000000000 := by
    rw [show timeout = _ from hsends]
    decide
  rw [Honours, hnanos]
  split
  · exact ⟨fun heq ↦ absurd heq (Option.some_ne_none _), fun heq ↦ by omega⟩
  · exact ⟨fun heq ↦ (Option.some.inj heq).symm, fun heq ↦ by rw [heq]⟩

/-- What survives is honoured. -/
theorem honours_of_arrives (h : ∀ i ∈ items, i.InRange) (harrives : (asked items).Arrives)
    {req : Request} (hsends : Sends (items.foldl Options.set {}) past req) :
    Honours (asked items) past req := by
  cases req with
  | inferenceCreate network uapi =>
    exact (honours_create_iff h hsends).2 ⟨harrives.events, harrives.arenaSizeOfMB⟩
  | ppoll fd timeout => exact (honours_poll_iff hsends).2 harrives.timeout
  | _ => trivial

end

/-! ## Every run -/

section

variable {env : Env} {o : Options}

theorem stable_always (env : Env) (o : Options) : Stable env fun p ↦ Always (Sends o) p.trace where
  survives req hreq p hp := by
    refine hp.called ?_
    cases req with
    | inferenceCreate network uapi => exact absurd hreq Bool.false_ne_true
    | ppoll fd timeout => exact absurd hreq Bool.false_ne_true
    | _ => trivial
  counted _ _ _ hp := hp

theorem survives_always {req : Request} (hreq : ∀ past, Sends o past req) :
    Survives env (fun p ↦ Always (Sends o) p.trace) req := fun p hp ↦
  hp.called (hreq (p.past env))

/-- The arena is at `fd`. -/
def ArenaAt (o : Options) (fd : Fd) (p : Process) : Prop :=
  Always (Sends o) p.trace ∧ capacityOf fd p.trace = some (arenaCapacity o)

theorem stable_arenaAt (env : Env) (o : Options) (fd : Fd) : Stable env (ArenaAt o fd) where
  survives req hreq p hp := by
    refine ⟨(stable_always env o).survives req hreq p hp.1, ?_⟩
    rw [capacityOf_called fd fun device capacity heq ↦ by
      rw [heq] at hreq
      exact Bool.false_ne_true hreq]
    exact hp.2
  counted _ _ _ hp := hp

theorem wp_makeArena (device : Device) {p : Process} (h : Always (Sends o) p.trace) :
    wp (Buffer.new env device (o.arenaSizeOfMB <<< 20).toUInt64 >>= makeShared)
      (fun a q ↦ ArenaAt o a.obj.fd q) (fun _ q ↦ Always (Sends o) q.trace) p := by
  have hstable := stable_always env o
  have hcalled : ∀ req, (∀ past, Sends o past req) →
      Always (Sends o) (p.called env req).trace := fun req hreq ↦ survives_always hreq p h
  rw [wp_bind, Buffer.new, wp_bind, eioctl, wp_checked]
  refine ⟨fun _ ↦ hcalled _ fun _ ↦ trivial, fun _ ↦ ?_⟩
  have hcreated : ArenaAt o (p.reply env (.bufferCreate device.fd (arenaCapacity o))).ret
      (p.called env (.bufferCreate device.fd (arenaCapacity o))) :=
    ⟨hcalled _ fun _ ↦ trivial, if_pos rfl⟩
  exact ((stable_arenaAt env o _).mapping _ _).step hcreated (fun mapped q hq ↦ hq)
    fun _ _ hq ↦ hq.1

theorem wp_init_arena (model : String) {s : Session}
    (hsize : s.this.arenaSizeOfMB = o.arenaSizeOfMB) (h : Always (Sends o) s.proc.trace) :
    wp (Interpreter.init env model)
      (fun _ s' ↦ ∃ a, s'.this.arenaBuffer = some a ∧ ArenaAt o a.obj.fd s'.proc)
      (fun _ s' ↦ Always (Sends o) s'.proc.trace) s := by
  have hstable := stable_always env o
  have hmake : ∀ device capacity, Keeps (fun p ↦ Always (Sends o) p.trace)
      (Buffer.new env device capacity >>= makeShared) := fun device capacity ↦
    hstable.makeBuffer (survives_always fun _ ↦ trivial)
  rw [Interpreter.init, wp_bind, wp_get]
  refine (keeps_onProc (hstable.capabilities _)).step h (fun _ s₁ h₁ ↦ ?_) (fun _ _ he ↦ he)
  rw [wp_bind, wp_onProc, Interpreter.openModel, wp_ite]
  refine ⟨fun _ ↦ ?_, fun _ ↦ h₁⟩
  refine (keeps_onProc (hmake _ _)).step h₁ (fun networkBuffer s₂ h₂ ↦ ?_) (fun _ _ he ↦ he)
  rw [wp_bind, wp_modify]
  refine (keeps_onProc (hstable.resize _ _ _)).step h₂ (fun _ s₃ h₃ ↦ ?_) (fun _ _ he ↦ he)
  have hread : Keeps (fun p ↦ Always (Sends o) p.trace) (do
      (env.files model).read networkBuffer.obj.fd (← networkBuffer.obj.data env)
        (env.files model).tellg) := (hstable.data _).bind fun _ ↦ .modify fun _ hp ↦ hp
  refine (keeps_onProc hread).step h₃ (fun _ s₄ h₄ ↦ ?_) (fun _ _ he ↦ he)
  have hnetwork : Keeps (fun p ↦ Always (Sends o) p.trace)
      (Network.ofBuffer env s.this.device networkBuffer >>= makeShared) :=
    (hstable.networkOfBuffer (survives_always fun _ ↦ trivial)).bind fun _ ↦ hstable.makeShared _
  refine (keeps_onProc hnetwork).step h₄ (fun network s₅ h₅ ↦ ?_) (fun _ _ he ↦ he)
  rw [wp_bind, wp_modify, wp_ite]
  refine ⟨fun _ ↦ h₅, fun _ ↦ ?_⟩
  dsimp only
  rw [hsize, wp_bind, wp_onProc]
  refine wp_mono (wp_makeArena _ h₅) (fun arenaBuffer p hp ↦ ?_) (fun _ _ he ↦ he)
  rw [wp_bind, wp_modify, wp_onProc]
  refine wp_mono ((stable_arenaAt env o _).resize _ _ _ p hp) (fun _ q hq ↦ ?_) (fun _ _ he ↦ he.1)
  exact ⟨arenaBuffer, rfl, hq⟩

theorem wp_new_arena (model device : String) {p : Process} (h : Always (Sends o) p.trace) :
    wp (Interpreter.new env model device o.arenaSizeOfMB)
      (fun i q ↦ ∃ a, i.arenaBuffer = some a ∧ ArenaAt o a.obj.fd q)
      (fun _ q ↦ Always (Sends o) q.trace) p := by
  have hstable := stable_always env o
  refine (hstable.deviceNew device).step h (fun device q hq ↦ ?_) (fun _ _ he ↦ he)
  rw [wp_bind, wp_get, wp_bind, wp_onObject, unwinding, wp_onThrow]
  refine wp_mono (wp_init_arena (o := o) model rfl hq) (fun _ _ hs ↦ hs) (fun e s hs ↦ ?_)
  split
  · exact (Keeps.get.bind fun s ↦ keeps_onProc (hstable.interpreterDestroy s.this)) s hs
  · exact hs

/-- The interpreter has been told what the variables say, and its arena is `a`. -/
structure Prepared (o : Options) (a : Shared Buffer) (i : Interpreter) : Prop where
  arenaBuffer : i.arenaBuffer = some a
  pmuCounters : i.pmuCounters = o.enabledCounters
  enableCycleCounter : i.enableCycleCounter = o.enableCycleCounter
  length : o.enabledCounters.length = ethosuPmuEventMax

/-- The struct that is handed to the driver. -/
theorem Prepared.sends {a : Shared Buffer} {i : Interpreter} (h : Prepared o a i) {p : Process}
    (hp : ArenaAt o a.obj.fd p) (network : Fd) :
    Sends o (p.past env) (.inferenceCreate network (Inference.request env p a [] []
      (Inference.copyCounters (i.pmuCounters.map UInt8.toUInt32) Inference.initializeCounterConfig)
      i.enableCycleCounter).uapi) := by
  have hlength : (i.pmuCounters.map UInt8.toUInt32).length = ethosuPmuEventMax := by
    rw [List.length_map, h.pmuCounters, h.length]
  have hcopy : Inference.copyCounters (i.pmuCounters.map UInt8.toUInt32)
      Inference.initializeCounterConfig = i.pmuCounters.map UInt8.toUInt32 := by
    rw [Inference.copyCounters, hlength]
    exact List.append_nil _
  rw [hcopy]
  refine ⟨fun k hk ↦ ?_, ?_, a.obj.fd, ?_, ?_⟩
  · have hevents := Inference.encode_events (env.stack p.trace) a.obj.fd (Inference.getFds [])
      (Inference.getFds []) i.enableCycleCounter hlength
    rw [InferenceCreate.pmuEvents] at hevents
    rw [Inference.request, ← Words.getD_block (Inference.Encoded.uapi _) hk, hevents, h.pmuCounters]
    simp [List.getD, h.length, hk]
  · rw [Inference.request, Inference.encode_cycleCount, h.enableCycleCounter]
  · rw [Inference.request, (Inference.encode_ifmFds _ _ _ _ (by decide) (by decide)).2]
    rfl
  · rw [capacityOf_past]
    exact hp.2

theorem wp_invoke_always {a : Shared Buffer} {s : Session} (h : Prepared o a s.this)
    (hs : ArenaAt o a.obj.fd s.proc) :
    wp (Interpreter.invoke env Interpreter.defaultTimeoutNanos)
      (fun _ s' ↦ Always (Sends o) s'.proc.trace)
      (fun _ s' ↦ Always (Sends o) s'.proc.trace) s := by
  have hstable := stable_always env o
  have hcreate : ∀ network, Keeps (ArenaAt o a.obj.fd) (Inference.ofArena env network a
      (s.this.pmuCounters.map UInt8.toUInt32) s.this.enableCycleCounter >>= makeShared) := by
    intro network
    have hstable := stable_arenaAt env o a.obj.fd
    refine (hstable.ofArena fun p hp _ ↦ ⟨hp.1.called (h.sends hp _), ?_⟩).bind fun _ ↦
      hstable.makeShared _
    rw [capacityOf_called _ fun _ _ heq ↦ by cases heq]
    exact hp.2
  have hpoll : ∀ inference : Inference, Keeps (fun p ↦ Always (Sends o) p.trace)
      (inference.wait env Interpreter.defaultTimeoutNanos) := fun inference ↦
    keeps_wait (survives_always fun _ ↦ rfl)
  rw [Interpreter.invoke, wp_bind, wp_get, wp_bind]
  cases s.this.network with
  | none => exact hs.1
  | some network =>
    rw [deref, wp_pure, wp_bind, h.arenaBuffer, deref, wp_pure]
    refine (keeps_onProc (hcreate network)).step hs (fun inference s₁ h₁ ↦ ?_) (fun _ _ he ↦ he.1)
    rw [wp_bind, wp_modify]
    refine (keeps_onProc (Keeps.optionForM _ hstable.inferenceRelease)).step h₁.1
      (fun _ s₂ h₂ ↦ ?_) (fun _ _ he ↦ he)
    refine (keeps_onProc (hpoll _)).step h₂ (fun _ s₃ h₃ ↦ ?_) (fun _ _ he ↦ he)
    refine (keeps_onProc (hstable.status _)).step h₃ (fun _ s₄ h₄ ↦ ?_) (fun _ _ he ↦ he)
    exact (wp_ite _ _ _).2 ⟨fun _ ↦ h₄, fun _ ↦ h₄⟩

/-- The file an image comes from has no part in it. -/
theorem keeps_getInputFromFile_arena (t : ElementType) (filename : String) (inputData : Int)
    (shape : List UInt64) (fd : Fd) :
    Keeps (ArenaAt o fd) (getInputFromFile env t filename inputData shape) := fun p hp ↦
  wp_mono (wp_getInputFromFile env t filename inputData shape p)
    (fun _ q hq ↦ by rw [ArenaAt, hq.trace]; exact hp) fun _ q hq ↦ hq.2 ▸ hp

theorem wp_use_always {s : Session} (hlength : o.enabledCounters.length = ethosuPmuEventMax)
    (h : ∃ a, s.this.arenaBuffer = some a ∧ ArenaAt o a.obj.fd s.proc) :
    wp (use env o) (fun _ s' ↦ Always (Sends o) s'.proc.trace)
      (fun _ s' ↦ Always (Sends o) s'.proc.trace) s := by
  obtain ⟨a, harena, hs⟩ := h
  rw [use, wp_bind, Interpreter.setPmuCycleCounters, if_neg (not_not.2 hlength), wp_modify]
  generalize hi : ({ s.this with
    pmuCounters := o.enabledCounters
    enableCycleCounter := o.enableCycleCounter } : Interpreter) = i
  have hprepared : Prepared o a i := by
    subst hi
    exact ⟨harena, rfl, rfl, hlength⟩
  -- what comes before `Invoke` leaves the object and the arena alone
  have hstable := stable_arenaAt env o a.obj.fd
  have hinputs : Keeps (fun s : Session ↦ s.this = i ∧ ArenaAt o a.obj.fd s.proc)
      Interpreter.getInputInfo := Keeps.get.bind fun _ ↦ (keeps_deref _).bind fun _ ↦ keeps_deref _
  have hinvoke : ∀ s' : Session, (s'.this = i ∧ ArenaAt o a.obj.fd s'.proc) →
      wp (Interpreter.invoke env Interpreter.defaultTimeoutNanos)
        (fun _ s' ↦ Always (Sends o) s'.proc.trace)
        (fun _ s' ↦ Always (Sends o) s'.proc.trace) s' :=
    fun s' hs' ↦ wp_invoke_always (hs'.1 ▸ hprepared) hs'.2
  refine hinputs.step ⟨rfl, hs⟩ (fun inputs s₁ h₁ ↦ ?_) (fun _ _ he ↦ he.2.1)
  cases inputs with
  | nil => exact h₁.2.1
  | cons inputInfo _ =>
    cases htype : ElementType.ofTensorType inputInfo.type with
    | none =>
      simp only [htype]
      exact h₁.2.1
    | some t =>
      simp only [htype]
      refine (Keeps.and (keeps_this_typedBuffer _ 0) (hstable.typedInputBuffer 0)).step h₁
        (fun data s₂ h₂ ↦ ?_) (fun _ _ he ↦ he.2.1)
      exact (Keeps.and (keeps_this _)
        (keeps_onProc (keeps_getInputFromFile_arena t _ data _ _))).step h₂
        (fun _ s₃ h₃ ↦ hinvoke s₃ h₃) (fun _ _ he ↦ he.2.1)

/-- A run, from what is known of the interpreter that is constructed. -/
theorem wp_run_of {I : Process → Prop} (hstable : Stable env I) {K : Interpreter → Process → Prop}
    {p : Process}
    (hnew : wp (Interpreter.new env o.networkArg o.devArg o.arenaSizeOfMB) K (fun _ q ↦ I q) p)
    (huse : ∀ i q, K i q → wp (use env o) (fun _ s ↦ I s.proc) (fun _ s ↦ I s.proc) ⟨q, i⟩) :
    wp (run env o) (fun _ q ↦ I q) (fun _ q ↦ I q) p := by
  rw [run, wp_bind]
  refine wp_mono hnew (fun i q hq ↦ ?_) (fun _ _ he ↦ he)
  rw [wp_bind, wp_onObject, unwinding, wp_onThrow]
  refine wp_mono (huse i q hq) (fun _ s hs ↦ ?_) (fun e s hs ↦ ?_)
  · exact keeps_noexcept (hstable.interpreterDestroy s.this) s.proc hs
  · split
    · exact (Keeps.get.bind fun s ↦ keeps_onProc (hstable.interpreterDestroy s.this)) s hs
    · exact hs

theorem wp_main_of {I : Process → Prop} {argv : List String} {p : Process}
    (haccept : accept env argv = .ok o)
    (hrun : wp (run env o) (fun _ q ↦ I q) (fun _ q ↦ I q) p) :
    wp (main env argv) (fun _ q ↦ I q) (fun _ q ↦ I q) p := by
  rw [main, haccept]
  show wp (tryCatch (run env o >>= fun _ ↦ pure 0) _) _ _ _
  rw [wp_tryCatch, wp_bind]
  refine wp_mono hrun (fun _ _ hq ↦ hq) (fun e q hq ↦ ?_)
  cases e with
  | error msg => exact hq
  | nested | terminate | crash | exit status => exact hq

/-- What `main` does once it has read the options. -/
theorem accept_of_lex (env : Env) {argv : List String} {items : List Item}
    (hlex : lex argv = .ok items) :
    accept env argv = if (items.foldl Options.set {}).networkArg.isEmpty then .error (.exit 1)
      else if (items.foldl Options.set {}).ifmArg.isEmpty then .error (.exit 1)
      else if !(env.files (items.foldl Options.set {}).lblArg).opens then .error (.exit 1)
      else .ok (items.foldl Options.set {}) := by
  rw [accept, hlex]
  rfl

/-- **What the runner says follows from its variables**, in every run. -/
theorem always_sends (env : Env) {argv : List String} {items : List Item}
    (hlex : lex argv = .ok items) :
    Always (Sends (items.foldl Options.set {})) (left (main env argv) {}).trace := by
  have hrun := wp_run_of (stable_always env (items.foldl Options.set {}))
    (wp_new_arena (p := {}) _ _ trivial) fun i q hq ↦
      wp_use_always (s := ⟨q, i⟩) (length_enabledCounters items) hq
  cases haccept : accept env argv with
  | error e =>
    rw [main, haccept]
    exact trivial
  | ok o =>
    have ho : o = items.foldl Options.set {} := by
      rw [accept_of_lex env hlex] at haccept
      split at haccept
      · cases haccept
      · split at haccept
        · cases haccept
        · split at haccept <;> cases haccept
          rfl
    subst ho
    exact left_of_wp (wp_main_of haccept hrun)

end

/-! ## A run that gets there -/

/-- An inference has been created. -/
def Created (t : List Event) : Prop :=
  ∃ network uapi reply, .call (.inferenceCreate network uapi) reply ∈ t

/-- An inference has been created and polled. -/
def Reached (t : List Event) : Prop :=
  Created t ∧ ∃ fd timeout reply, .call (.ppoll fd timeout) reply ∈ t

/-- A network compiled by Vela, with one input tensor of floats. -/
def oneFloat : Words := fun i ↦
  if i = NetworkInfo.isVela ∨ i = NetworkInfo.ifm.count then 1 else 0

/-- A driver that grants everything, and files that can be opened but not read. -/
def willing : Env := .obliging oneFloat fun _ ↦ ⟨true, true, 0, [0]⟩

section

variable {o : Options} {p : Process}

theorem wp_checked_willing {Q : Reply → Process → Prop} {E : Exception → Process → Prop}
    (msg : String) (req : Request) :
    wp (checked willing msg req) Q E p ↔ Q (p.reply willing req) (p.called willing req) := by
  have hret : ¬ (p.reply willing req).ret < 0 := by
    show ¬ Int32.ofNat (min (p.past willing).length 1000 + 3) < 0
    rw [Int32.lt_iff_toInt_lt, Int32.toInt_ofNat_of_lt (by omega), Int32.toInt_zero]
    omega
  rw [wp_checked]
  exact ⟨fun h ↦ h.2 hret, fun h ↦ ⟨fun hneg ↦ absurd hneg hret, fun _ ↦ h⟩⟩

theorem mem_called {env : Env} {e : Event} (req : Request) (h : e ∈ p.trace) :
    e ∈ (p.called env req).trace :=
  List.mem_cons_of_mem _ (List.mem_append_right _ h)

theorem Created.called {env : Env} (h : Created p.trace) (req : Request) :
    Created (p.called env req).trace := by
  obtain ⟨network, uapi, reply, hmem⟩ := h
  exact ⟨network, uapi, reply, mem_called req hmem⟩

theorem stable_reached (env : Env) : Stable env fun p ↦ Reached p.trace where
  survives req _ p := by
    rintro ⟨hcreated, fd, timeout, reply, hmem⟩
    exact ⟨hcreated.called req, fd, timeout, reply, mem_called req hmem⟩
  counted _ _ _ hp := hp

/-- An interpreter for that network. -/
structure Willing (i : Interpreter) : Prop where
  arenaBuffer : i.arenaBuffer.isSome
  inference : i.inference = none
  network : ∃ n, i.network = some n ∧ n.obj.ifmTypes = [0] ∧ n.obj.ifmShapes = [[]]
    ∧ n.obj.ifmDataOffset = [0]

theorem wp_new_willing {model device : String} {arenaSizeOfMB : Int64}
    {E : Exception → Process → Prop} :
    wp (Interpreter.new willing model device arenaSizeOfMB) (fun i _ ↦ Willing i) E p := by
  have hfile : (willing.files model).opens = true := rfl
  have hinfo : ∀ (p : Process) fd, (p.reply willing (.networkInfo fd)).data = oneFloat :=
    fun _ _ ↦ rfl
  have hvela : (!(oneFloat NetworkInfo.isVela != 0)) = false := rfl
  simp only [Interpreter.new, Interpreter.init, Interpreter.openModel, Device.new,
    Device.capabilities, Buffer.new, Buffer.resize, Buffer.data, Buffer.offset, File.read,
    Network.ofBuffer, Network.create, Network.ofInfo, unwinding, catching, eopen, eioctl, emmap,
    wp_bind, wp_get, wp_onObject, wp_onThrow, wp_onProc, wp_discard, wp_checked_willing, wp_pure,
    wp_modify, wp_makeShared, wp_copy, hfile, hinfo, hvela, if_true, Bool.false_eq_true, if_false]
  exact ⟨rfl, rfl, _, rfl, rfl, rfl, rfl⟩

theorem wp_ofArena_willing {network arenaBuffer} {counters : List UInt32}
    {enableCycleCounter : Bool} (hlength : counters.length = ethosuPmuEventMax) :
    wp (Inference.ofArena willing network arenaBuffer counters enableCycleCounter)
      (fun _ q ↦ Created q.trace) (fun _ _ ↦ False) p := by
  have haccepts : Inference.Accepts (Inference.getFds []) (Inference.getFds [])
      (Inference.copyCounters counters Inference.initializeCounterConfig) := by
    refine ⟨by decide, by decide, ?_⟩
    rw [Inference.copyCounters, List.length_append, hlength]
    rfl
  simp only [Inference.ofArena, unwinding, wp_bind, wp_copy, wp_onThrow, hlength, gt_iff_lt,
    Nat.lt_irrefl, if_false]
  rw [wp_congr (Inference.create_of_accepts willing network arenaBuffer _ _ haccepts), wp_bind,
    eioctl, wp_checked_willing]
  exact ⟨_, _, _, List.mem_cons_self⟩

theorem wp_invoke_willing {timeoutNanos : Int64} {s : Session} (h : Willing s.this)
    (hcounters : s.this.pmuCounters.length = ethosuPmuEventMax) :
    wp (Interpreter.invoke willing timeoutNanos) (fun _ s' ↦ Reached s'.proc.trace)
      (fun _ s' ↦ Reached s'.proc.trace) s := by
  obtain ⟨network, hnetwork, -⟩ := h.network
  obtain ⟨arenaBuffer, harena⟩ := Option.isSome_iff_exists.1 h.arenaBuffer
  have hlength : (s.this.pmuCounters.map UInt8.toUInt32).length = ethosuPmuEventMax := by
    rw [List.length_map, hcounters]
  rw [Interpreter.invoke, wp_bind, wp_get, wp_bind, hnetwork, deref, wp_pure, wp_bind, harena,
    deref, wp_pure, wp_bind, wp_onProc, wp_bind]
  refine wp_mono (wp_ofArena_willing hlength) (fun inference p hp ↦ ?_) (fun _ _ h ↦ h.elim)
  rw [wp_makeShared, wp_bind, wp_modify, wp_bind, wp_onProc, h.inference]
  -- there is no inference yet that would be destroyed
  show wp (onProc (Inference.wait willing inference timeoutNanos) >>= _) _ _ _
  rw [wp_bind, wp_onProc, Inference.wait, wp_bind, eppoll, wp_checked_willing, wp_pure]
  exact ((keeps_onProc ((stable_reached willing).status _)).bind
    fun _ ↦ .ite (.throw _) (.pure _)) _ ⟨hp.called _, _, _, _, List.mem_cons_self⟩

/-- There is an address to load the input to. -/
theorem wp_typedInputBuffer_willing {s : Session} (h : Willing s.this) :
    wp (Interpreter.typedInputBuffer willing 0) (fun _ s' ↦ s'.this = s.this)
      (fun _ _ ↦ False) s := by
  obtain ⟨network, hnetwork, -, -, hoffsets⟩ := h.network
  obtain ⟨arenaBuffer, harena⟩ := Option.isSome_iff_exists.1 h.arenaBuffer
  have hoffset : Network.getInputDataOffset network.obj 0 = (pure 0 : M Int32) := by
    rw [Network.getInputDataOffset, hoffsets]
    rfl
  simp only [Interpreter.typedInputBuffer, Interpreter.typedBuffer, wp_bind, wp_get, hnetwork,
    harena, deref, wp_pure, wp_onProc, hoffset, Buffer.data, Buffer.offset, eioctl,
    wp_checked_willing]

theorem wp_use_willing (hlength : o.enabledCounters.length = ethosuPmuEventMax) {s : Session}
    (h : Willing s.this) :
    wp (use willing o) (fun _ s' ↦ Reached s'.proc.trace) (fun _ s' ↦ Reached s'.proc.trace) s := by
  obtain ⟨network, hnetwork, hinfo⟩ := h.network
  have htype : ElementType.ofTensorType 0 = some .float := rfl
  have hinfos : Interpreter.tensorInfos network.obj.getInputCount network.obj.ifmTypes
      network.obj.ifmShapes = some [⟨0, []⟩] := by
    rw [Network.getInputCount, hinfo.1, hinfo.2.1]
    rfl
  have hunreadable : ¬ (willing.files (o.ifmArg.headD "")).Readable := fun hread ↦
    absurd hread.2.2 (show ¬ (1 : Nat) ≤ 0 by decide)
  have hready : Willing { s.this with
      network := some network
      pmuCounters := o.enabledCounters
      enableCycleCounter := o.enableCycleCounter } :=
    ⟨h.arenaBuffer, h.inference, network, rfl, hinfo⟩
  simp only [use, wp_bind, Interpreter.setPmuCycleCounters, hlength, ne_eq, not_true_eq_false,
    if_false, wp_modify, Interpreter.getInputInfo, wp_get, hnetwork, deref, wp_pure, hinfos, htype]
  refine wp_mono (wp_typedInputBuffer_willing hready) (fun data s₁ h₁ ↦ ?_) (fun _ _ h ↦ h.elim)
  rw [wp_onProc]
  refine wp_mono (wp_getInputFromFile_of_not_readable willing _ _ _ _ hunreadable) (fun _ p _ ↦ ?_)
    (fun _ _ h ↦ h.elim)
  refine wp_invoke_willing ?_ ?_
  · rw [h₁]
    exact hready
  · rw [h₁]
    exact hlength

/-- **Every command line that is accepted gets to the driver**, if nothing stands in its way. -/
theorem reached_willing {argv : List String} {items : List Item} (hlex : lex argv = .ok items)
    (haccepted : Accepted items) : Reached (left (main willing argv) {}).trace := by
  have hlength := length_enabledCounters items
  have haccept : accept willing argv = .ok (items.foldl Options.set {}) := by
    rw [accept_of_lex willing hlex, haccepted.1, haccepted.2]
    rfl
  exact left_of_wp (wp_main_of haccept (wp_run_of (stable_reached willing) wp_new_willing
    fun i q hi ↦ wp_use_willing (s := ⟨q, i⟩) hlength hi))

end

/-- **When a command line is honoured.**  Of one that is accepted, whatever options it has, in which
order and how often, everything arrives at the driver in every run exactly if the events are bytes,
the arena is smaller than 4 GiB, and the timeout is the default. -/
theorem honoured_iff {argv : List String} {items : List Item} (hlex : lex argv = .ok items)
    (haccepted : Accepted items) :
    (∀ env, Always (Honours (asked items)) (left (main env argv) {}).trace)
      ↔ (asked items).Arrives := by
  have hrange := lex_inRange hlex
  refine ⟨?_, ?_⟩
  · intro hhonours
    obtain ⟨⟨network, uapi, reply, hcreate⟩, fd, timeout, reply', hpoll⟩ :=
      reached_willing hlex haccepted
    have hboth := (always_sends willing hlex).and (hhonours willing)
    obtain ⟨past, hsends, hhonoured⟩ := hboth.of_mem hcreate
    obtain ⟨past', hsends', hhonoured'⟩ := hboth.of_mem hpoll
    obtain ⟨hevents, harena⟩ := (honours_create_iff hrange hsends).1 hhonoured
    exact ⟨hevents, harena, (honours_poll_iff hsends').1 hhonoured'⟩
  · intro harrives env
    exact (always_sends env hlex).mono fun past req ↦ honours_of_arrives hrange harrives

/-- A model and an image, and further arguments. -/
def arguments (rest : List String) : List String :=
  "-n" :: "model_vela.tflite" :: "-i" :: "image.bmp" :: rest

/-- The options these are. -/
def options (rest : List Item) : List Item :=
  .network "model_vela.tflite" :: .ifm "image.bmp" :: rest

theorem honoured_iff_repeated :
    lex (arguments ["-P", "2", "35", "-C", "-P", "2", "36"])
        = .ok (options [.pmu 2 35, .cycles, .pmu 2 36])
      ∧ ((∀ env, Always (Honours (asked (options [.pmu 2 35, .cycles, .pmu 2 36])))
          (left (main env (arguments ["-P", "2", "35", "-C", "-P", "2", "36"])) {}).trace)
        ↔ (asked (options [.pmu 2 35, .cycles, .pmu 2 36])).Arrives) :=
  ⟨by decide +kernel, honoured_iff (by decide +kernel) ⟨by decide +kernel, by decide +kernel⟩⟩

/-- A timeout of a second becomes one of a minute, event 256 becomes event 0, and an arena of 4 GiB
an arena without capacity. -/
theorem not_honoured :
    (lex (arguments ["-t", "1000000000"]) = .ok (options [.timeout 1000000000])
      ∧ ¬ Always (Honours (asked (options [.timeout 1000000000])))
        (left (main willing (arguments ["-t", "1000000000"])) {}).trace)
    ∧ (lex (arguments ["-P", "0", "256"]) = .ok (options [.pmu 0 256])
      ∧ ¬ Always (Honours (asked (options [.pmu 0 256])))
        (left (main willing (arguments ["-P", "0", "256"])) {}).trace)
    ∧ lex (arguments ["-a", "4096"]) = .ok (options [.arena 4096])
      ∧ ¬ Always (Honours (asked (options [.arena 4096])))
        (left (main willing (arguments ["-a", "4096"])) {}).trace := by
  decide +kernel

end InterpreterRunner

end EthosU
