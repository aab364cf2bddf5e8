import EthosU.CommandLine
import EthosU.InferenceRunner.Routine
import EthosU.Loading

/-!
# What the command line of the inference runner asks for

Of the two runners, this one hands on nearly all it is asked for.

* `Item.shared` are the options that the other runner has as well, and `Variables.Matches` says that
  they do the same to the variables of both.  What is known of the events and of the cycle counter
  of the one holds of the other.
* `Honours` compares a system call with the choices: the cycle counter and the network of
  `INFERENCE_CREATE`, the device that the network has been created on, and the deadline of `ppoll`.
  `CountsEvents` does so for the events, and `IsFrom` for the buffer that a network is created from.
* `Sends` is what the runner says in terms of its variables.  It is an invariant of every run
  (`always_sends_variables`), as none of the runner's functions makes another call of these kinds.
* `arrives_iff` proves that a command line is honoured in every run, and that its events are what is
  counted in every run exactly if they are bytes.
-/

set_option autoImplicit false

namespace EthosU

open Wp

namespace InferenceRunner

open InterpreterRunner (stoi stoll toUnsigned checkedInt_bounds)

/-! ## Options that both runners have -/

/-- The option of the interpreter runner. -/
def Item.shared : Item → Option InterpreterRunner.Item
  | .network file => some (.network file)
  | .index _ => none
  | .ifm file => some (.ifm file)
  | .ofm _ => none
  | .dev device => some (.dev device)
  | .lbl file => some (.lbl file)
  | .timeout nanos => some (.timeout nanos)
  | .pmu counter event => some (.pmu counter event)
  | .cycles => some .cycles
  | .print => some .print

/-- The variables agree, as far as both runners have them. -/
structure Variables.Matches (v : Variables) (o : InterpreterRunner.Options) : Prop where
  networkArg : v.options.networkArg = o.networkArg
  ifmArg : v.options.ifmArg = o.ifmArg
  enabledCounters : v.options.enabledCounters = o.enabledCounters
  devArg : v.options.devArg = o.devArg
  lblArg : v.options.lblArg = o.lblArg
  enableCycleCounter : v.options.enableCycleCounter = o.enableCycleCounter
  timeout : v.waiting.timeout = o.timeout
  print : v.waiting.print = o.print

theorem Variables.Matches.set {v : Variables} {o : InterpreterRunner.Options} (h : v.Matches o)
    (item : Item) : (v.set item).Matches ((item.shared.map o.set).getD o) := by
  cases item with
  | network file => exact { h with networkArg := rfl }
  | index networkIndex => exact { h with }
  | ifm file => exact { h with ifmArg := congrArg (· ++ [file]) h.ifmArg }
  | ofm file => exact { h with }
  | dev device => exact { h with devArg := rfl }
  | lbl file => exact { h with lblArg := rfl }
  | timeout nanos => exact { h with timeout := rfl }
  | pmu counter event =>
    exact { h with enabledCounters := congrArg (List.set · _ _) h.enabledCounters }
  | cycles => exact { h with enableCycleCounter := rfl }
  | print => exact { h with print := rfl }

/-- **Options that both runners have mean the same to both.** -/
theorem matches_foldl (opens : String → Bool) (items : List Item) :
    (items.foldl Variables.set (.start opens)).Matches
      ((items.filterMap Item.shared).foldl InterpreterRunner.Options.set {}) := by
  have hall : ∀ (items : List Item) (v : Variables) (o : InterpreterRunner.Options), v.Matches o →
      (items.foldl Variables.set v).Matches
        ((items.filterMap Item.shared).foldl InterpreterRunner.Options.set o) := by
    intro items
    induction items with
    | nil => exact fun _ _ h ↦ h
    | cons item items ih =>
      intro v o h
      have hset := h.set item
      rw [List.foldl_cons, List.filterMap_cons]
      cases hshared : item.shared with
      | none =>
        rw [hshared] at hset
        exact ih _ _ hset
      | some item' =>
        rw [hshared] at hset
        exact ih _ _ hset
  exact hall items _ _ ⟨rfl, rfl, rfl, rfl, rfl, rfl, rfl, rfl⟩

/-! ## The choices -/

def Item.dev? : Item → Option String
  | .dev device => some device
  | _ => none

def Item.index? : Item → Option Int
  | .index networkIndex => some networkIndex
  | _ => none

def Item.network? : Item → Option String
  | .network file => some file
  | _ => none

/-- What a user asks for. -/
structure Asked where
  /-- What the interpreter runner would be asked for. -/
  shared : InterpreterRunner.Asked
  device : String
  /-- A negative index stands for the network file. -/
  index : Int
  network : String

/-- The last option of each kind counts, and there are defaults. -/
def asked (items : List Item) : Asked where
  shared := InterpreterRunner.asked (items.filterMap Item.shared)
  device := (Settings.lastOf Item.dev? items).getD "/dev/ethosu0"
  index := (Settings.lastOf Item.index? items).getD (-1)
  network := (Settings.lastOf Item.network? items).getD ""

/-- The network has been created on the device, from the index or from a buffer. -/
def OnNetwork (device : String) (index : Int) (network : Fd) (past : List Event) : Prop :=
  ∃ opened created type arg, .call (.open device) opened ∈ past
    ∧ .call (.networkCreate opened.ret type arg) created ∈ past ∧ created.ret = network
    ∧ if index < 0 then type = .buffer else type = .index ∧ (arg.toNat : Int) = index

/-- The system call does what was asked, the events aside.  A negative timeout is no deadline. -/
def Honours (a : Asked) (past : List Event) : Request → Prop
  | .inferenceCreate network uapi =>
    uapi InferenceCreate.cycleCount = (if a.shared.cycles then 1 else 0)
      ∧ OnNetwork a.device a.index network past
  | .ppoll _ timeout =>
    timeout.map Timespec.nanos = if a.shared.timeout < 0 then none else some a.shared.timeout
  | _ => True

/-- An inference counts the events that were asked for. -/
def CountsEvents (a : Asked) : Request → Prop
  | .inferenceCreate _ uapi => ∀ k < ethosuPmuEventMax,
    ((uapi (InferenceCreate.events + k)).toNat : Int) = a.shared.events k
  | _ => True

/-- If a network is created from a buffer, the file has been read into that buffer, as far as it
could be read, and is still there. -/
def IsFrom (file : File) (s : Submission) : Prop :=
  ∀ device arg, s.req = .networkCreate device .buffer arg →
    ∃ m ∈ s.models, m.buffer.toUInt32 = arg ∧ m.bytes = file.loaded ∧ m.In s.mem

/-- The run did what was asked, the events aside. -/
structure Honoured (env : Env) (a : Asked) (p : Process) : Prop where
  calls : Always (Honours a) p.trace
  network : ∀ s ∈ p.submissions, IsFrom (env.files a.network) s

/-- The command line is one that the program does not reject by itself. -/
def Accepted (opens : String → Bool) (items : List Item) : Prop :=
  (items.foldl Variables.set (.start opens)).options.networkArg.isEmpty = false
    ∧ (items.foldl Variables.set (.start opens)).options.ifmArg.isEmpty = false
    ∧ (items.foldl Variables.set (.start opens)).waiting.ofmArg.isEmpty = false

/-! ## From the options to the variables -/

/-- A number that `main` can have read. -/
def Item.InRange : Item → Prop
  | .index networkIndex => -2 ^ 31 ≤ networkIndex ∧ networkIndex ≤ 2 ^ 31 - 1
  | .timeout nanos => -2 ^ 63 ≤ nanos ∧ nanos ≤ 2 ^ 63 - 1
  | .pmu counter _ => 0 ≤ counter ∧ counter < ethosuPmuEventMax
  | _ => True

private theorem ok_of_bind_item {α β : Type} {x : Except Exception α}
    {f : α → Except Exception β} {b : β} (h : x >>= f = .ok b) : ∃ a, x = .ok a ∧ f a = .ok b := by
  cases x with
  | error e => cases h
  | ok a => exact ⟨a, rfl, h⟩

private theorem inRange_cons_item {rest : List String} {item : Item} (hitem : item.InRange)
    (ih : ∀ {items}, lex rest = .ok items → ∀ i ∈ items, Item.InRange i) {items : List Item}
    (h : (do return item :: (← lex rest)) = Except.ok items) : ∀ i ∈ items, i.InRange := by
  obtain ⟨items', hitems', h⟩ := ok_of_bind_item h
  cases h
  exact List.forall_mem_cons.2 ⟨hitem, ih hitems'⟩

theorem lex_inRange {argv : List String} {items : List Item} (h : lex argv = .ok items) :
    ∀ i ∈ items, i.InRange := by
  fun_induction lex argv generalizing items
  case case1 =>
    cases h
    exact fun i hi ↦ absurd hi List.not_mem_nil
  case case4 | case8 | case10 | case12 | case14 | case19 | case20 =>
    rename_i ih
    refine inRange_cons_item ?_ ih h
    trivial
  case case6 | case16 =>
    rename_i ih
    obtain ⟨n, hn, h⟩ := ok_of_bind_item h
    refine inRange_cons_item ?_ ih h
    exact checkedInt_bounds hn
  case case18 =>
    rename_i rest ih
    obtain ⟨pmu, hpmu, h⟩ := ok_of_bind_item h
    cases rest with
    | nil => cases h
    | cons value rest =>
      obtain ⟨event, -, h⟩ := ok_of_bind_item h
      split at h
      · cases h
      · rename_i hcounter
        refine inRange_cons_item ?_ ih h
        have hbounds := checkedInt_bounds hpmu
        have hvalue := Narrow.toNat_ofInt pmu
        rw [toUnsigned, ethosuPmuEventMax] at hcounter
        rw [Item.InRange, ethosuPmuEventMax]
        omega
  all_goals cases h

section

variable {items : List Item} {opens : String → Bool}

/-- What both runners know is in range for both. -/
theorem shared_inRange (h : ∀ i ∈ items, i.InRange) :
    ∀ i ∈ items.filterMap Item.shared, i.InRange := by
  intro i hi
  obtain ⟨item, hmem, hshared⟩ := List.mem_filterMap.1 hi
  have hitem := h item hmem
  cases item <;> cases hshared <;> trivial

/-- The last value is one of an option. -/
theorem lastOf_mem {β : Type} {read : Item → Option β} {b : β}
    (h : Settings.lastOf read items = some b) : ∃ item ∈ items, read item = some b := by
  have hmem := List.mem_of_getLast? h
  obtain ⟨item, hitem, hread⟩ := List.mem_filterMap.1 hmem
  exact ⟨item, hitem, hread⟩

theorem index_inRange (h : ∀ i ∈ items, i.InRange) :
    -2 ^ 31 ≤ (asked items).index ∧ (asked items).index ≤ 2 ^ 31 - 1 := by
  show _ ≤ (Settings.lastOf Item.index? items).getD (-1)
    ∧ (Settings.lastOf Item.index? items).getD (-1) ≤ _
  cases hlast : Settings.lastOf Item.index? items with
  | none => decide
  | some networkIndex =>
    obtain ⟨item, hmem, hread⟩ := lastOf_mem hlast
    have hitem := h item hmem
    cases item <;> cases hread
    exact hitem

/-- The last timeout is one that the options of both runners have. -/
theorem timeout_inRange (h : ∀ i ∈ items, i.InRange) :
    -2 ^ 63 ≤ (asked items).shared.timeout ∧ (asked items).shared.timeout ≤ 2 ^ 63 - 1 := by
  show _ ≤ (Settings.lastOf InterpreterRunner.Item.timeout? _).getD 60000000000
    ∧ (Settings.lastOf InterpreterRunner.Item.timeout? _).getD 60000000000 ≤ _
  rw [Settings.lastOf, List.filterMap_filterMap]
  cases hlast : (items.filterMap fun item ↦
      item.shared.bind InterpreterRunner.Item.timeout?).getLast? with
  | none => decide
  | some nanos =>
    obtain ⟨item, hmem, hread⟩ := List.mem_filterMap.1 (List.mem_of_getLast? hlast)
    have hitem := h item hmem
    cases item <;> cases hread
    exact hitem

/-- A variable ends up with what the last option for it says. -/
theorem variable_eq {β γ : Type} (get : Variables → γ) (read : Item → Option β) (f : β → γ)
    (hget : ∀ v item, get (Variables.set v item) = ((read item).map f).getD (get v))
    (items : List Item) :
    get (items.foldl Variables.set (.start opens))
      = ((Settings.lastOf read items).map f).getD (get (.start opens)) :=
  Settings.get_foldl (I := fun _ ↦ True) get read f (fun _ _ _ ↦ trivial)
    (fun v _ item _ ↦ hget v item) trivial

theorem devArg_eq (items : List Item) :
    (items.foldl Variables.set (.start opens)).options.devArg = (asked items).device := by
  rw [variable_eq (fun v ↦ v.options.devArg) Item.dev? id (fun v item ↦ by cases item <;> rfl),
    Option.map_id, id]
  rfl

theorem networkArg_eq (items : List Item) :
    (items.foldl Variables.set (.start opens)).options.networkArg = (asked items).network := by
  rw [variable_eq (fun v ↦ v.options.networkArg) Item.network? id
    (fun v item ↦ by cases item <;> rfl), Option.map_id, id]
  rfl

theorem networkIndex_eq (items : List Item) :
    (items.foldl Variables.set (.start opens)).options.networkIndex
      = .ofInt (asked items).index := by
  rw [variable_eq (fun v ↦ v.options.networkIndex) Item.index? Int32.ofInt
    fun v item ↦ by cases item <;> rfl]
  show _ = Int32.ofInt ((Settings.lastOf Item.index? items).getD (-1))
  cases Settings.lastOf Item.index? items <;> rfl

theorem timeout_eq (items : List Item) :
    (items.foldl Variables.set (.start opens)).waiting.timeout
      = .ofInt (asked items).shared.timeout := by
  rw [(matches_foldl opens items).timeout]
  have hlast : ((items.filterMap Item.shared).foldl InterpreterRunner.Options.set {}).timeout
      = ((Settings.lastOf InterpreterRunner.Item.timeout? (items.filterMap Item.shared)).map
        Int64.ofInt).getD 60000000000 :=
    Settings.get_foldl (I := fun _ ↦ True) InterpreterRunner.Options.timeout _ _
      (fun _ _ _ ↦ trivial) (fun o _ item _ ↦ by cases item <;> rfl) trivial
  rw [hlast]
  show _ = Int64.ofInt ((Settings.lastOf InterpreterRunner.Item.timeout? _).getD 60000000000)
  cases Settings.lastOf InterpreterRunner.Item.timeout? (items.filterMap Item.shared) <;> rfl

end

/-! ## What the runner says -/

/-- The system call says what follows from the variables of `main`. -/
def Sends (v : Variables) (past : List Event) : Request → Prop
  | .inferenceCreate network uapi =>
    (∀ k < ethosuPmuEventMax,
        uapi (InferenceCreate.events + k) = (v.options.enabledCounters.getD k 0).toUInt32)
      ∧ uapi InferenceCreate.cycleCount = (if v.options.enableCycleCounter then 1 else 0)
      ∧ OnNetwork v.options.devArg v.options.networkIndex.toInt network past
  | .ppoll _ timeout => timeout = Inference.pollTimeout v.waiting.timeout
  | _ => True

section

variable {items : List Item} {opens : String → Bool} {past : List Event}

/-- An inference counts what was asked for if the events are bytes. -/
theorem countsEvents_iff_bytes (h : ∀ i ∈ items, i.InRange) {network : Fd} {uapi : Words}
    (hsends : Sends (items.foldl Variables.set (.start opens)) past
      (.inferenceCreate network uapi)) :
    CountsEvents (asked items) (.inferenceCreate network uapi)
      ↔ ∀ k < ethosuPmuEventMax,
        0 ≤ (asked items).shared.events k ∧ (asked items).shared.events k < 2 ^ 8 := by
  refine forall₂_congr fun k hk ↦ ?_
  have hvalue := Narrow.toNat_ofInt ((asked items).shared.events k)
  have hcounter : (items.foldl Variables.set (.start opens)).options.enabledCounters.getD k 0
      = (toUnsigned ((asked items).shared.events k)).toUInt8 := by
    rw [(matches_foldl opens items).enabledCounters]
    exact InterpreterRunner.enabledCounters_eq (shared_inRange h) hk
  rw [hsends.1 k hk, hcounter, UInt8.toNat_toUInt32, UInt32.toNat_toUInt8, toUnsigned]
  omega

/-- The cycle counter and the network are as they were asked for. -/
theorem honours_create (h : ∀ i ∈ items, i.InRange) {network : Fd} {uapi : Words}
    (hsends : Sends (items.foldl Variables.set (.start opens)) past
      (.inferenceCreate network uapi)) :
    Honours (asked items) past (.inferenceCreate network uapi) := by
  obtain ⟨-, hcycles, hnetwork⟩ := hsends
  rw [(matches_foldl opens items).enableCycleCounter, InterpreterRunner.enableCycleCounter_eq]
    at hcycles
  have hindex := index_inRange h
  rw [devArg_eq, networkIndex_eq, Int32.toInt_ofInt_of_le hindex.1 (by omega)] at hnetwork
  exact ⟨hcycles, hnetwork⟩

/-- The deadline is as it was asked for. -/
theorem honours_poll (h : ∀ i ∈ items, i.InRange) {fd : Fd} {timeout : Option Timespec}
    (hsends : Sends (items.foldl Variables.set (.start opens)) past (.ppoll fd timeout)) :
    Honours (asked items) past (.ppoll fd timeout) := by
  obtain ⟨hlower, hupper⟩ := timeout_inRange h
  have hpassed := Inference.timeoutPassed (items.foldl Variables.set (.start opens)).waiting.timeout
  rw [← show timeout = _ from hsends, timeout_eq] at hpassed
  cases timeout with
  | none =>
    have hneg : (Int64.ofInt (asked items).shared.timeout).toInt < 0 := hpassed
    rw [Int64.toInt_ofInt_of_le hlower (by omega)] at hneg
    rw [Honours, if_pos hneg]
    rfl
  | some t =>
    obtain ⟨hnonneg, hnanos, -, -⟩ := hpassed
    rw [Int64.toInt_ofInt_of_le hlower (by omega)] at hnonneg hnanos
    rw [Honours, if_neg (by omega)]
    exact congrArg some hnanos

end

/-! ## Every run -/

/-- The device has been opened as `device`. -/
def Opened (v : Variables) (device : Fd) (t : List Event) : Prop :=
  Always (Sends v) t ∧ ∃ opened, .call (.open v.options.devArg) opened ∈ t ∧ opened.ret = device

/-- The network has been created as `network`. -/
def On (v : Variables) (network : Fd) (t : List Event) : Prop :=
  Always (Sends v) t ∧ OnNetwork v.options.devArg v.options.networkIndex.toInt network t

theorem OnNetwork.mono {device : String} {index : Int} {network : Fd} {t t' : List Event}
    (h : OnNetwork device index network t) (hsub : t ⊆ t') : OnNetwork device index network t' := by
  obtain ⟨opened, created, type, arg, hopen, hcreate, hrest⟩ := h
  exact ⟨opened, created, type, arg, hsub hopen, hsub hcreate, hrest⟩

section

variable {env : Env} {v : Variables} {p : Process}

theorem stable_sends (env : Env) (v : Variables) :
    Stable env fun p ↦ Always (Sends v) p.trace where
  survives req hreq p hp := by
    refine hp.called ?_
    cases req with
    | inferenceCreate network uapi => exact absurd hreq Bool.false_ne_true
    | ppoll fd timeout => exact absurd hreq Bool.false_ne_true
    | _ => trivial
  counted _ _ _ hp := hp

theorem survives_sends (env : Env) (req : Request) (hreq : ∀ past, Sends v past req) :
    Survives env (fun p ↦ Always (Sends v) p.trace) req := fun p hp ↦
  hp.called (hreq (p.past env))

theorem stable_opened (env : Env) (v : Variables) (device : Fd) :
    Stable env fun p ↦ Opened v device p.trace where
  survives req hreq p hp := by
    obtain ⟨hsends, opened, hmem, hret⟩ := hp
    exact ⟨(stable_sends env v).survives req hreq p hsends, opened, subset_called req hmem, hret⟩
  counted _ _ _ hp := hp

theorem survives_opened {device : Fd} {req : Request} (hreq : ∀ past, Sends v past req) :
    Survives env (fun p ↦ Opened v device p.trace) req := by
  rintro p ⟨hsends, opened, hmem, hret⟩
  exact ⟨survives_sends env req hreq p hsends, opened, subset_called req hmem, hret⟩

theorem stable_on (env : Env) (v : Variables) (network : Fd) :
    Stable env fun p ↦ On v network p.trace where
  survives req hreq p hp :=
    ⟨(stable_sends env v).survives req hreq p hp.1, hp.2.mono (subset_called req)⟩
  counted _ _ _ hp := hp

theorem survives_on {network : Fd} {req : Request} (hreq : ∀ past, Sends v past req) :
    Survives env (fun p ↦ On v network p.trace) req := fun p hp ↦
  ⟨survives_sends env req hreq p hp.1, hp.2.mono (subset_called req)⟩

/-- The struct that is handed to the driver. -/
theorem sends_request {network : Fd} {arenaBuffer : Shared Buffer} {ifm ofm : List (Shared Buffer)}
    (hlength : v.options.enabledCounters.length = ethosuPmuEventMax)
    (h : On v network p.trace) :
    Sends v (p.past env) (.inferenceCreate network (Inference.request env p arenaBuffer ifm ofm
      (Inference.copyCounters (v.options.enabledCounters.map UInt8.toUInt32)
        Inference.initializeCounterConfig) v.options.enableCycleCounter).uapi) := by
  have hcounters : (v.options.enabledCounters.map UInt8.toUInt32).length = ethosuPmuEventMax := by
    rw [List.length_map, hlength]
  have hcopy : Inference.copyCounters (v.options.enabledCounters.map UInt8.toUInt32)
      Inference.initializeCounterConfig = v.options.enabledCounters.map UInt8.toUInt32 := by
    rw [Inference.copyCounters, hcounters]
    exact List.append_nil _
  rw [hcopy]
  refine ⟨fun k hk ↦ ?_, ?_, h.2.mono fun _ ↦ List.mem_append_right _⟩
  · have hevents := Inference.encode_events (env.stack p.trace) arenaBuffer.obj.fd
      (Inference.getFds ifm) (Inference.getFds ofm) v.options.enableCycleCounter hcounters
    rw [InferenceCreate.pmuEvents] at hevents
    rw [Inference.request, ← Words.getD_block (Inference.Encoded.uapi _) hk, hevents]
    simp [List.getD, hlength, hk]
  · rw [Inference.request, Inference.encode_cycleCount]

/-- The network is created as the variables say. -/
theorem wp_networkCreate {device : Device} {type : NetworkType} {arg : UInt32}
    (h : Opened v device.fd p.trace)
    (hasked : if v.options.networkIndex.toInt < 0 then type = .buffer
      else type = .index ∧ (arg.toNat : Int) = v.options.networkIndex.toInt)
    (buffer : Option (Shared Buffer)) :
    wp (Network.create env device buffer type arg) (fun n q ↦ On v n.fd q.trace)
      (fun _ q ↦ Always (Sends v) q.trace) p := by
  obtain ⟨hsends, opened, hopen, hret⟩ := h
  have hcalled : Always (Sends v) (p.called env (.networkCreate device.fd type arg)).trace :=
    survives_sends env (.networkCreate device.fd type arg) (fun _ ↦ trivial) p hsends
  rw [Network.create, wp_bind, eioctl, wp_checked]
  refine ⟨fun _ ↦ hcalled, fun _ ↦ ?_⟩
  have hon : On v (p.reply env (.networkCreate device.fd type arg)).ret
      (p.called env (.networkCreate device.fd type arg)).trace := by
    refine ⟨hcalled, opened, _, type, arg, subset_called _ hopen, ?_, rfl, hasked⟩
    rw [hret]
    exact List.mem_cons_self
  have hstable := stable_on env v (p.reply env (.networkCreate device.fd type arg)).ret
  exact (Keeps.onThrow (hstable.discarded _ rfl) (hstable.checked _ rfl)).step hon
    (fun _ _ hq ↦ hq) fun _ _ hq ↦ hq.1

theorem wp_createNetwork {device : Device} (h : Opened v device.fd p.trace) :
    wp (createNetwork env v.options device) (fun n q ↦ On v n.obj.fd q.trace)
      (fun _ q ↦ Always (Sends v) q.trace) p := by
  have hsign : v.options.networkIndex < 0 ↔ v.options.networkIndex.toInt < 0 := by
    rw [Int32.lt_iff_toInt_lt, Int32.toInt_zero]
  have hopened := stable_opened env v device.fd
  have hcreates : ∀ fd capacity, Survives env (fun p ↦ Opened v device.fd p.trace)
      (.bufferCreate fd capacity) := fun _ _ ↦ survives_opened fun _ ↦ trivial
  rw [createNetwork, wp_ite]
  refine ⟨fun hneg ↦ ?_, fun hindex ↦ ?_⟩
  · refine (keeps_allocAndFill_of hopened hcreates (ofCalls_trace _) device _).step h
      (fun networkBuffer q hq ↦ ?_)
      fun _ _ hq ↦ hq.1
    have hrelease := fun n ↦ (stable_on env v n).bufferRelease networkBuffer
    rw [wp_bind]
    refine wp_mono (wp_unwinding_of ((stable_sends env v).bufferRelease networkBuffer) ?_)
      (fun n r hr ↦ ?_) (fun _ _ he ↦ he)
      (Q := fun n r ↦ On v n.obj.fd r.trace)
    · rw [wp_bind, Network.ofBuffer]
      refine (hopened.copy networkBuffer).step hq (fun _ r hr ↦ ?_) fun _ _ hq ↦ hq.1
      refine wp_mono (wp_unwinding_of ((stable_sends env v).bufferRelease networkBuffer)
        (wp_networkCreate hr ?_ _)) (fun n r hr ↦ hr) (fun _ _ he ↦ he)
      rw [if_pos (hsign.1 hneg)]
    · exact (hrelease n.obj.fd).step hr (fun _ _ hr ↦ hr) fun _ _ hr ↦ hr.1
  · rw [hsign] at hindex
    rw [wp_bind]
    refine wp_mono (wp_networkCreate h ?_ none) (fun n q hq ↦ hq) (fun _ _ he ↦ he)
    rw [if_neg hindex]
    have hlt := v.options.networkIndex.toUInt32.toNat_lt
    have hvalue := Narrow.toInt_toInt32 v.options.networkIndex.toUInt32
    have hsame : v.options.networkIndex.toUInt32.toInt32 = v.options.networkIndex := rfl
    rw [hsame] at hvalue
    refine ⟨rfl, ?_⟩
    split at hvalue <;> omega

theorem wp_submit_sends (hlength : v.options.enabledCounters.length = ethosuPmuEventMax)
    (h : Always (Sends v) p.trace) :
    wp (submit env v.options) (fun _ q ↦ Always (Sends v) q.trace)
      (fun _ q ↦ Always (Sends v) q.trace) p := by
  have hstable := stable_sends env v
  rw [submit, wp_ite]
  refine ⟨fun _ ↦ h, fun _ ↦ ?_⟩
  rw [wp_bind, Device.new, wp_bind, eopen, wp_checked]
  have hcalled : Always (Sends v) (p.called env (.open v.options.devArg)).trace :=
    survives_sends env (.open v.options.devArg) (fun _ ↦ trivial) p h
  refine ⟨fun _ ↦ hcalled, fun _ ↦ ?_⟩
  have hopened : Opened v (p.reply env (.open v.options.devArg)).ret
      (p.called env (.open v.options.devArg)).trace := ⟨hcalled, _, List.mem_cons_self, rfl⟩
  generalize (p.reply env (.open v.options.devArg)).ret = fd at hopened
  generalize p.called env (.open v.options.devArg) = q at hopened
  have hstableOpened := stable_opened env v fd
  refine wp_unwinding_of (hstable.deviceDestroy _) ?_
  refine (hstableOpened.discarded _ rfl).step hopened (fun _ q₁ h₁ ↦ ?_) fun _ _ hq ↦ hq.1
  refine (hstableOpened.discarded _ rfl).step h₁ (fun _ q₂ h₂ ↦ ?_) fun _ _ hq ↦ hq.1
  refine (hstableOpened.capabilities _).step h₂ (fun _ q₃ h₃ ↦ ?_) fun _ _ hq ↦ hq.1
  rw [wp_bind]
  refine wp_mono (wp_createNetwork h₃) (fun network q₄ h₄ ↦ ?_) (fun _ _ he ↦ he)
  have hinferences : Keeps (fun p ↦ On v network.obj.fd p.trace)
      (createInferences env v.options ⟨fd⟩ network v.options.ifmArg []) :=
    keeps_createInferences_of (stable_on env v network.obj.fd)
      (fun _ _ ↦ survives_on fun _ ↦ trivial) (ofCalls_trace _) (fun p arenaBuffer ifm ofm hp ↦
        ⟨hp.1.called (sends_request hlength hp), hp.2.mono (subset_called _)⟩) _ _
  rw [wp_bind]
  refine wp_mono (wp_unwinding_of (hstable.releaseNetwork network)
    (wp_mono (hinferences q₄ h₄) (fun _ _ hq ↦ hq.1) fun _ _ hq ↦ hq.1)) (fun _ _ hq ↦ hq)
    (fun _ _ he ↦ he)

end

section

variable {items : List Item} {opens : String → Bool} {argv : List String}

/-- What `main` does once it has read the options. -/
theorem accept_of_lex_items (opens : String → Bool) (hlex : lex argv = .ok items) :
    accept opens argv
      = if (items.foldl Variables.set (.start opens)).options.networkArg.isEmpty then
          .error (.exit 1)
        else if (items.foldl Variables.set (.start opens)).options.ifmArg.isEmpty then
          .error (.exit 1)
        else if (items.foldl Variables.set (.start opens)).waiting.ofmArg.isEmpty then
          .error (.exit 1)
        else .ok (items.foldl Variables.set (.start opens)) := by
  rw [accept, hlex]
  rfl

theorem accept_eq {v : Variables} (hlex : lex argv = .ok items)
    (haccept : accept opens argv = .ok v) : v = items.foldl Variables.set (.start opens) := by
  rw [accept_of_lex_items opens hlex] at haccept
  repeat' split at haccept
  all_goals cases haccept
  rfl

theorem length_enabledCounters_items (opens : String → Bool) (items : List Item) :
    (items.foldl Variables.set (.start opens)).options.enabledCounters.length
      = ethosuPmuEventMax := by
  rw [(matches_foldl opens items).enabledCounters, InterpreterRunner.length_enabledCounters]

/-- **What the runner says follows from its variables**, in every run. -/
theorem always_sends_variables (env : Env) (hlex : lex argv = .ok items) :
    Always (Sends (items.foldl Variables.set (.start opens)))
      (left (main env opens argv) {}).trace := by
  cases haccept : accept opens argv with
  | error e =>
    rw [main, haccept]
    exact trivial
  | ok v =>
    obtain rfl := accept_eq hlex haccept
    exact left_of_wp (wp_main_of (stable_sends env _)
      (fun _ ↦ survives_sends env _ fun _ ↦ rfl) haccept
      (wp_submit_sends (p := {}) (length_enabledCounters_items opens items) trivial))

/-- **The network is the one that is in the file**, in every run. -/
theorem recorded_main (env : Env) (hlex : lex argv = .ok items) :
    Recorded (env.files (asked items).network) (left (main env opens argv) {}) := by
  cases haccept : accept opens argv with
  | error e =>
    rw [main, haccept]
    exact .nil _
  | ok v =>
    obtain rfl := accept_eq hlex haccept
    have hsubmit : wp (submit env (items.foldl Variables.set (.start opens)).options) _ _ {} :=
      keeps_submit _ {} (.nil _)
    rw [networkArg_eq] at hsubmit
    exact left_of_wp (wp_main_of (stable_recorded env _)
      (fun _ ↦ survives_recorded fun _ _ heq ↦ by cases heq) haccept hsubmit)

end

/-! ## A run that gets there -/

/-- A driver that grants everything, and knows networks without tensors; files that can be
opened. -/
def granting : Env := .obliging (fun _ ↦ 0) fun _ ↦ ⟨true, true, 0, [0]⟩

section

variable {p : Process}

theorem wp_checked_granting {Q : Reply → Process → Prop} {E : Exception → Process → Prop}
    (msg : String) (req : Request) :
    wp (checked granting msg req) Q E p ↔ Q (p.reply granting req) (p.called granting req) := by
  have hret : ¬ (p.reply granting req).ret < 0 := by
    show ¬ Int32.ofNat (min (p.past granting).length 1000 + 3) < 0
    rw [Int32.lt_iff_toInt_lt, Int32.toInt_ofNat_of_lt (by omega), Int32.toInt_zero]
    omega
  rw [wp_checked]
  exact ⟨fun h ↦ h.2 hret, fun h ↦ ⟨fun hneg ↦ absurd hneg hret, fun _ ↦ h⟩⟩

theorem stable_created (env : Env) : Stable env fun p ↦ InterpreterRunner.Created p.trace where
  survives req _ _ hp := hp.called req
  counted _ _ _ hp := hp

/-- A network without tensors. -/
def Bare (n : Network) : Prop := n.ifmDims = [] ∧ n.ofmDims = []

theorem wp_createNetwork_granting (o : Options) (device : Device) :
    wp (createNetwork granting o device) (fun n _ ↦ Bare n.obj) (fun _ _ ↦ False) p := by
  have hfile : (granting.files o.networkArg).opens = true := rfl
  have hinfo : ∀ (p : Process) fd, (p.reply granting (.networkInfo fd)).data = fun _ ↦ 0 :=
    fun _ _ ↦ rfl
  have hbare : ∀ device fd buffer, Bare (Network.ofInfo device fd buffer fun _ ↦ 0) :=
    fun _ _ _ ↦ ⟨rfl, rfl⟩
  rw [createNetwork, wp_ite]
  refine ⟨fun _ ↦ ?_, fun _ ↦ ?_⟩
  · simp only [allocAndFill, Buffer.new, Buffer.resize, Buffer.data, Buffer.offset, File.read,
      Buffer.destroy, Buffer.release, Network.ofBuffer, Network.create, unwinding, catching, eioctl,
      emmap, emunmap, eclose, wp_bind, wp_onThrow, wp_discard, wp_checked_granting, wp_pure,
      wp_modify, wp_makeShared, wp_copy, wp_release, hfile, hinfo, Bool.not_true,
      Bool.false_eq_true, if_false]
    exact ⟨fun _ ↦ hbare _ _ _, fun _ ↦ hbare _ _ _⟩
  · simp only [Network.ofIndex, Network.create, catching, eioctl, wp_bind, wp_onThrow,
      wp_checked_granting, wp_pure, wp_makeShared, hinfo]
    exact hbare _ _ _

theorem wp_ofBuffers_granting {network : Shared Network} {counters : List UInt32}
    {enableCycleCounter : Bool} (hlength : counters.length = ethosuPmuEventMax) :
    wp (Inference.ofBuffers granting network [] [] counters enableCycleCounter)
      (fun _ q ↦ InterpreterRunner.Created q.trace) (fun _ _ ↦ False) p := by
  have haccepts : Inference.Accepts (Inference.getFds []) (Inference.getFds [])
      (Inference.copyCounters counters Inference.initializeCounterConfig) :=
    Inference.accepts_copyCounters (by decide) (by decide) (Nat.le_of_eq hlength)
  simp only [Inference.ofBuffers, unwinding, wp_bind, wp_copy, wp_onThrow, hlength, gt_iff_lt,
    Nat.lt_irrefl, if_false, List.forM, wp_pure, Buffer.new, Buffer.resize, catching, eioctl, emmap,
    wp_discard, wp_checked_granting, wp_makeShared]
  rw [wp_congr (Inference.create_of_accepts granting network _ _ _ haccepts), wp_bind,
    eioctl, wp_checked_granting]
  exact ⟨_, _, _, List.mem_cons_self⟩

theorem wp_createInference_granting {device : Device} {network : Shared Network}
    (hbare : Bare network.obj) {counters : List UInt8} {enableCycleCounter : Bool}
    (hlength : counters.length = ethosuPmuEventMax) (filename : String) :
    wp (createInference granting device network filename counters enableCycleCounter)
      (fun _ q ↦ InterpreterRunner.Created q.trace) (fun _ _ ↦ False) p := by
  have htensors : ifmTensors network.obj = [] := by rw [ifmTensors, hbare.1, List.zip_nil_left]
  rw [createInference, wp_bind, htensors, fillIfms, wp_pure, wp_bind, hbare.2, allocOfms, unwinding,
    wp_onThrow, wp_pure, wp_bind, unwinding, wp_onThrow, wp_bind]
  exact wp_mono (wp_ofBuffers_granting (by rw [List.length_map, hlength])) (fun _ _ hq ↦ hq)
    (fun _ _ h ↦ h.elim)

theorem wp_submit_granting {v : Variables}
    (hlength : v.options.enabledCounters.length = ethosuPmuEventMax)
    (hifm : v.options.ifmArg.isEmpty = false) :
    wp (submit granting v.options) (fun _ q ↦ InterpreterRunner.Created q.trace)
      (fun _ q ↦ InterpreterRunner.Created q.trace) p := by
  have hfile : (granting.files v.options.lblArg).opens = true := rfl
  have hstable := stable_created granting
  have hcreated : ∀ req, Survives granting (fun p ↦ InterpreterRunner.Created p.trace) req :=
    fun req _ hp ↦ hp.called req
  simp only [submit, hfile, Bool.not_true, Bool.false_eq_true, if_false, Device.new, eopen, wp_bind,
    wp_checked_granting, wp_pure]
  refine wp_unwinding_of (hstable.deviceDestroy _) ?_
  simp only [Device.capabilities, eioctl, wp_bind, wp_discard, wp_checked_granting]
  refine wp_mono (wp_createNetwork_granting _ _) (fun network q hbare ↦ ?_) (fun _ _ h ↦ h.elim)
  refine wp_mono (wp_unwinding_of (Q := fun _ q ↦ InterpreterRunner.Created q.trace)
    (hstable.releaseNetwork network) ?_) (fun _ _ hq ↦ (wp_pure _).2 hq) (fun _ _ hq ↦ hq)
  cases hargs : v.options.ifmArg with
  | nil =>
    rw [hargs] at hifm
    exact absurd hifm (by decide)
  | cons filename filenames =>
    rw [createInferences, wp_bind, unwinding, wp_onThrow]
    refine wp_mono (wp_createInference_granting hbare hlength filename) (fun inference r hr ↦ ?_)
      (fun _ _ h ↦ h.elim)
    exact keeps_createInferences_of hstable (fun _ _ ↦ hcreated _) (ofCalls_trace _)
      (fun _ _ _ _ hp ↦ hp.called _)
      filenames _ r hr

end

section

variable {items : List Item} {opens : String → Bool} {argv : List String}

/-- **Every command line that is accepted gets to the driver**, if nothing stands in its way. -/
theorem created_granting (hlex : lex argv = .ok items) (haccepted : Accepted opens items) :
    InterpreterRunner.Created (left (main granting opens argv) {}).trace := by
  have haccept : accept opens argv = .ok (items.foldl Variables.set (.start opens)) := by
    rw [accept_of_lex_items opens hlex, haccepted.1, haccepted.2.1, haccepted.2.2]
    rfl
  exact left_of_wp (wp_main_of (p := {}) (stable_created granting) (fun _ _ hp ↦ hp.called _)
    haccept (wp_submit_granting (length_enabledCounters_items opens items) haccepted.2.1))

/-- **A command line is honoured.**  Whatever options it has, in which order and how often, the
timeout, the device, the network and the cycle counter arrive at the driver in every run, for every
inference that is created, and so do the events exactly if they are bytes. -/
theorem arrives_iff (hlex : lex argv = .ok items) (haccepted : Accepted opens items) :
    (∀ env, Honoured env (asked items) (left (main env opens argv) {}))
      ∧ ((∀ env, Always (fun _ ↦ CountsEvents (asked items)) (left (main env opens argv) {}).trace)
        ↔ ∀ k < ethosuPmuEventMax,
          0 ≤ (asked items).shared.events k ∧ (asked items).shared.events k < 2 ^ 8) := by
  have hrange := lex_inRange hlex
  refine ⟨fun env ↦ ⟨?_, fun s hs device arg hreq ↦ ?_⟩, fun hcounts ↦ ?_, fun hbytes env ↦ ?_⟩
  · refine (always_sends_variables env hlex).mono fun past req hsends ↦ ?_
    cases req with
    | inferenceCreate network uapi => exact honours_create hrange hsends
    | ppoll fd timeout => exact honours_poll hrange hsends
    | _ => trivial
  · have hrecorded := (recorded_main env hlex).submissions s hs
    obtain ⟨m, hm, hbuffer, hin⟩ := hrecorded.filled device arg hreq
    exact ⟨m, hm, hbuffer, hrecorded.models m hm, hin⟩
  · -- in some run an inference is created
    obtain ⟨network, uapi, reply, hcreate⟩ := created_granting hlex haccepted
    have hboth := (always_sends_variables granting hlex).and (hcounts granting)
    obtain ⟨past, hsends, hcounted⟩ := hboth.of_mem hcreate
    exact (countsEvents_iff_bytes hrange hsends).1 hcounted
  · refine (always_sends_variables env hlex).mono fun past req hsends ↦ ?_
    cases req with
    | inferenceCreate network uapi => exact (countsEvents_iff_bytes hrange hsends).2 hbytes
    | _ => trivial

end

/-- Two networks, of which the second one counts, and two timeouts. -/
def repeatedArguments : List String :=
  ["-n", "old", "-t", "5", "-i", "image.bmp", "-n", "model", "-P", "1", "35", "-o", "out", "-t",
    "-1"]

/-- The options these are. -/
def repeatedOptions : List Item :=
  [.network "old", .timeout 5, .ifm "image.bmp", .network "model", .pmu 1 35, .ofm "out",
    .timeout (-1)]

/-- A command line that repeats itself. -/
theorem arrives_iff_repeated :
    (∀ env, Honoured env (asked repeatedOptions)
        (left (main env (fun _ ↦ true) repeatedArguments) {}))
      ∧ ((∀ env, Always (fun _ ↦ CountsEvents (asked repeatedOptions))
          (left (main env (fun _ ↦ true) repeatedArguments) {}).trace)
        ↔ ∀ k < ethosuPmuEventMax, 0 ≤ (asked repeatedOptions).shared.events k
          ∧ (asked repeatedOptions).shared.events k < 2 ^ 8) :=
  arrives_iff (by decide +kernel) ⟨by decide +kernel, by decide +kernel, by decide +kernel⟩

end InferenceRunner

end EthosU
