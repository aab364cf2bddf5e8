import EthosU.EthosuLogd.ReadAndClear
import EthosU.Lib.Interference

/-!
# Any number of readers

Nothing keeps a second user from starting `ethosu_logd` while the first one is still printing, with
the same options or with others.  All of them look at one log, may mark it as read, and share it
with the firmware.

* `Phase.step` is one access of a run of `ethosu_logd` to the log, for all combinations of `-c` and
  `-C`.  The steps make up the program (`Phase.rest_begin`, `Phase.rest_step`).  The header is
  looked at in one step, `header.read` is stored in one, and the firmware appends in one.  The
  processes of `Bytewise` do it byte by byte, and may be disturbed at any of them.
* `Run` is a run, with what it has printed, and `World` the memory with what the firmware has
  written so far.  They are put together in `Interference.State`.
* `Run.Known` is what is known of a run wherever the others have got to: what it has printed are
  bytes of the log, from the place where it looked, or from a later round of the ring.
* `readers_faithful` and `readers_finish` say what comes of it in all interleavings.
-/

set_option autoImplicit false

namespace EthosU

namespace EthosuLogd

open Wp Bytes Interference

/-! ## Steps -/

/-- What a run is about to do.  After `clear`, the program either prints (and clears again, if it is
told to), or is over. -/
inductive Phase
  /-- `clear` looks at the header. -/
  | clearing (next : Option Bool)
  /-- `clear` stores what it found. -/
  | storing (rpos : UInt32) (next : Option Bool)
  /-- `print` looks at the header. -/
  | looking (clearAfter : Bool)
  /-- `print` has got to position `rpos`. -/
  | printing (header : LogHeader) (rpos : UInt64) (clearAfter : Bool)
  | finished
  | failed (e : Exception)

namespace Phase

variable (log : Log)

/-- Where `main` begins. -/
def begin (clearBefore clearAfter : Bool) : Phase :=
  if clearBefore then .clearing (some clearAfter) else .looking clearAfter

/-- What comes after `clear`. -/
def follow : Option Bool → Phase
  | some clearAfter => .looking clearAfter
  | none => .finished

/-- What comes after `print`. -/
def printed (clearAfter : Bool) : Phase := if clearAfter then .clearing none else .finished

/-- One access to the log, at most.  The twelve bytes of the header are looked at in one step, and
the four bytes of `header.read` are stored in one; nobody comes in between. -/
def step : Phase → M Phase
  | .clearing next => do
    let header ← log.readHeader
    pure (.storing header.write next)
  | .storing rpos next => do
    log.writeRead rpos
    pure (follow next)
  | .looking clearAfter => do
    let header ← log.readHeader
    let rpos ← Log.start header
    pure (.printing header rpos clearAfter)
  | .printing header rpos clearAfter =>
    if rpos < header.write.toUInt64 then do
      log.printChar header rpos
      pure (.printing header (rpos + 1) clearAfter)
    else pure (printed clearAfter)
  | .finished => pure .finished
  | .failed e => throw e

/-! ## The steps make up the program -/

/-- What is left of the program after `print`. -/
def restPrinted (clearAfter : Bool) : M Unit := if clearAfter then log.clear else pure ()

/-- What is left of the program after `clear`. -/
def restCleared : Option Bool → M Unit
  | some clearAfter => do log.print; restPrinted log clearAfter
  | none => pure ()

/-- What is left of the program. -/
def rest : Phase → M Unit
  | .clearing next => do log.clear; restCleared log next
  | .storing rpos next => do log.writeRead rpos; restCleared log next
  | .looking clearAfter => restCleared log (some clearAfter)
  | .printing header rpos clearAfter => do log.printFrom header rpos; restPrinted log clearAfter
  | .finished => pure ()
  | .failed e => throw e

theorem rest_begin (clearBefore clearAfter : Bool) :
    rest log (begin clearBefore clearAfter) = main log clearBefore clearAfter := by
  cases clearBefore <;> cases clearAfter <;> simp [begin, rest, restCleared, restPrinted, main]

theorem rest_follow (next : Option Bool) : rest log (follow next) = restCleared log next := by
  cases next <;> rfl

theorem rest_printed (clearAfter : Bool) :
    rest log (printed clearAfter) = restPrinted log clearAfter := by
  cases clearAfter <;> simp [printed, rest, restPrinted, restCleared]

/-- **A step is a step of the program**: it takes what is left to what is left then. -/
theorem rest_step (phase : Phase) : phase.step log >>= rest log = rest log phase := by
  cases phase with
  | clearing next => simp [step, rest, Log.clear]
  | storing rpos next =>
    simp only [step, bind_assoc, pure_bind, rest_follow]
    rfl
  | looking clearAfter => simp [step, rest, restCleared, Log.print]
  | printing header rpos clearAfter =>
    by_cases h : rpos < header.write.toUInt64
    · rw [step, if_pos h, rest, Log.printFrom, dif_pos h]
      simp [rest]
    · rw [step, if_neg h, pure_bind, rest_printed, rest, Log.printFrom, dif_neg h, pure_bind]
  | finished => simp [step, rest]
  | failed e => rfl

end Phase

/-! ## Runs -/

/-- A run of the program. -/
structure Run where
  phase : Phase
  /-- What it has printed. -/
  out : List UInt8 := []
  /-- The addresses it has accessed, latest first. -/
  touched : List Nat := []
  /-- The header that `print` has found. -/
  seen : Option LogHeader := none

/-- The memory, and what the firmware has written to the log since it was set up. -/
structure World where
  mem : Memory
  written : List UInt8 := []

def Phase.found : Phase → Option LogHeader
  | .printing header _ _ => some header
  | _ => none

/-- The run makes a step, at a time at which the world is `w`. -/
def Run.step (log : Log) (r : Run) (w : World) : Run × World :=
  match r.phase.step log ⟨w.mem, r.out, r.touched⟩ with
  | .ok phase host =>
    (⟨phase, host.out, host.touched, phase.found.or r.seen⟩, { w with mem := host.mem })
  | .error e host => (⟨.failed e, host.out, host.touched, r.seen⟩, { w with mem := host.mem })

/-- The firmware writes a byte, and counts it. -/
def World.append (log : Log) (b : UInt8) (w : World) : World :=
  ⟨log.append b w.mem, w.written ++ [b]⟩

/-- The log has been set up with a ring of `ring` bytes, and nothing has been written to it. -/
structure World.Fresh (log : Log) (ring : UInt32) (w : World) : Prop where
  header : log.header w.mem = ⟨ring, 0, 0⟩
  written : w.written = []

/-- There is one run for every `i`, with its own options. -/
def begin {I : Type} (w : World) (options : I → Bool × Bool) : State I World Run where
  shared := w
  locals i := { phase := .begin (options i).1 (options i).2 }

variable {log : Log} {ring : UInt32}

/-! ## What is known of a run -/

/-- The position at which `print` starts. -/
def LogHeader.first (header : LogHeader) : Nat :=
  max header.read.toNat (header.write.toNat - header.size.toNat)

/-- `print` has found the header, and has printed up to position `rpos`. -/
structure Printed (ring : UInt32) (written : List UInt8) (header : LogHeader) (rpos : Nat)
    (out : List UInt8) : Prop where
  size : header.size = ring
  read_le : header.read.toNat ≤ header.write.toNat
  write_le : header.write.toNat ≤ written.length
  first_le : header.first ≤ rpos
  le_write : rpos ≤ header.write.toNat
  length : out.length = rpos - header.first
  /-- Every byte is one that the firmware has written to its place, then or later. -/
  bytes : ∀ j (h : j < out.length), ∃ q, header.first + j ≤ q
    ∧ q % ring.toNat = (header.first + j) % ring.toNat ∧ written[q]? = some out[j]

/-- Where the run is, with what it has printed. -/
def Stage (ring : UInt32) (written : List UInt8) (seen : Option LogHeader) (out : List UInt8) :
    Phase → Prop
  | .clearing (some _) => seen = none ∧ out = []
  | .storing rpos (some _) => rpos.toNat ≤ written.length ∧ seen = none ∧ out = []
  | .looking _ => seen = none ∧ out = []
  | .printing header rpos _ => seen = some header ∧ Printed ring written header rpos.toNat out
  | .clearing none | .finished =>
    ∃ header, seen = some header ∧ Printed ring written header header.write.toNat out
  | .storing rpos none => rpos.toNat ≤ written.length
    ∧ ∃ header, seen = some header ∧ Printed ring written header header.write.toNat out
  | .failed _ => False

/-- What is known of a run wherever the others have got to. -/
structure Run.Known (log : Log) (ring : UInt32) (r : Run) (w : World) : Prop where
  stage : Stage ring w.written r.seen r.out r.phase
  inside : ∀ a ∈ r.touched, log.InWindow a

/-- The memory is a log, marked as read up to some position. -/
def World.Sound (log : Log) (ring : UInt32) (w : World) : Prop :=
  log.Represents ring ⟨w.written, (log.header w.mem).read.toNat⟩ w.mem

/-- All that a run does to the world, and the firmware, is seen by the others like this. -/
def Grows (w w' : World) : Prop := w.written <+: w'.written

/-- The counters of the header do not overflow. -/
def Bounded (w : World) (_ : UInt8) : Prop := w.written.length + 1 < 2 ^ 32

theorem Printed.mono {written written' : List UInt8} {header : LogHeader} {rpos : Nat}
    {out : List UInt8} (h : Printed ring written header rpos out) (hgrows : written <+: written') :
    Printed ring written' header rpos out := by
  refine ⟨h.size, h.read_le, h.write_le.trans hgrows.length_le, h.first_le, h.le_write, h.length,
    fun j hj ↦ ?_⟩
  obtain ⟨q, hle, hmod, hq⟩ := h.bytes j hj
  refine ⟨q, hle, hmod, ?_⟩
  obtain ⟨hlt, -⟩ := List.getElem?_eq_some_iff.1 hq
  obtain ⟨more, rfl⟩ := hgrows
  rwa [List.getElem?_append_left hlt]

theorem Stage.mono {written written' : List UInt8} {seen : Option LogHeader} {out : List UInt8}
    {phase : Phase} (h : Stage ring written seen out phase) (hgrows : written <+: written') :
    Stage ring written' seen out phase := by
  have hle := hgrows.length_le
  cases phase with
  | clearing next =>
    cases next with
    | some clearAfter => exact h
    | none =>
      obtain ⟨header, hseen, hprinted⟩ := h
      exact ⟨header, hseen, hprinted.mono hgrows⟩
  | storing rpos next =>
    cases next with
    | some clearAfter => exact ⟨h.1.trans hle, h.2⟩
    | none =>
      obtain ⟨hrpos, header, hseen, hprinted⟩ := h
      exact ⟨hrpos.trans hle, header, hseen, hprinted.mono hgrows⟩
  | looking clearAfter => exact h
  | printing header rpos clearAfter => exact ⟨h.1, h.2.mono hgrows⟩
  | finished =>
    obtain ⟨header, hseen, hprinted⟩ := h
    exact ⟨header, hseen, hprinted.mono hgrows⟩
  | failed e => exact h

/-! ## What a step keeps -/

/-- A step of a run, at the world `w`, has kept everything. -/
structure Kept (log : Log) (ring : UInt32) (w : World) (stepped : Run × World) : Prop where
  sound : stepped.2.Sound log ring
  known : stepped.1.Known log ring stepped.2
  grows : Grows w stepped.2

section

variable {r : Run} {w : World}

/-- The step of a run, by what the access leads to. -/
theorem Run.step_of_wp {P : Run × World → Prop}
    (h : wp (r.phase.step log)
      (fun phase host ↦ P (⟨phase, host.out, host.touched, phase.found.or r.seen⟩,
        { w with mem := host.mem }))
      (fun e host ↦ P (⟨.failed e, host.out, host.touched, r.seen⟩, { w with mem := host.mem }))
      ⟨w.mem, r.out, r.touched⟩) : P (r.step log w) := by
  rw [wp] at h
  rw [Run.step]
  cases hstep : r.phase.step log ⟨w.mem, r.out, r.touched⟩ <;> simpa [hstep] using h

theorem inside_of_stays {host host' : Host} (hstays : log.StaysInside host host')
    (hinside : ∀ a ∈ host.touched, log.InWindow a) : ∀ a ∈ host'.touched, log.InWindow a := by
  obtain ⟨accesses, heq, hin⟩ := hstays
  intro a ha
  rw [heq] at ha
  exact (List.mem_append.1 ha).elim (hin a) (hinside a)

/-- A step that only looks at the memory. -/
theorem kept_of_reads (hsound : w.Sound log ring) (hinside : ∀ a ∈ r.touched, log.InWindow a)
    {printed : List UInt8} {host : Host}
    (hreads : log.Reads printed ⟨w.mem, r.out, r.touched⟩ host) {phase : Phase}
    (hstage : Stage ring w.written (phase.found.or r.seen) (r.out ++ printed) phase) :
    Kept log ring w (⟨phase, host.out, host.touched, phase.found.or r.seen⟩,
      { w with mem := host.mem }) := by
  have hmem : host.mem = w.mem := hreads.mem
  refine ⟨?_, ⟨?_, inside_of_stays hreads.inside hinside⟩, List.prefix_refl _⟩
  · show World.Sound log ring { w with mem := host.mem }
    rw [hmem]
    exact hsound
  · show Stage ring w.written (phase.found.or r.seen) host.out phase
    rw [hreads.out]
    exact hstage

/-- Looking at the header. -/
theorem kept_readHeader (hlaid : log.Laid ring) (hsound : w.Sound log ring)
    (hinside : ∀ a ∈ r.touched, log.InWindow a) {next : LogHeader → M Phase}
    (hnext : ∃ phase, next (log.header w.mem) = pure phase
      ∧ Stage ring w.written (phase.found.or r.seen) r.out phase)
    (hphase : r.phase.step log = log.readHeader >>= next) : Kept log ring w (r.step log w) := by
  obtain ⟨phase, hpure, hstage⟩ := hnext
  refine Run.step_of_wp ?_
  rw [hphase, wp_bind]
  refine wp_mono (Log.wp_readHeader hlaid) (fun header host h ↦ ?_) (fun _ _ he ↦ he)
  obtain ⟨rfl, hreads⟩ := h
  rw [hpure, wp_pure]
  exact kept_of_reads hsound hinside hreads (by rwa [List.append_nil])

/-- `print` starts where nothing has been printed yet. -/
theorem printed_first (hsound : w.Sound log ring) {rpos : UInt64}
    (hrpos : rpos.toNat = (log.header w.mem).first) :
    Printed ring w.written (log.header w.mem) rpos.toNat [] := by
  have hsize := hsound.size
  have hwrite := hsound.write
  have hread := hsound.cleared_le
  rw [World.Sound] at hsound
  dsimp only at hwrite hread
  refine ⟨hsize, by omega, by omega, Nat.le_of_eq hrpos.symm, ?_, ?_, fun j hj ↦ ?_⟩
  · rw [hrpos, LogHeader.first]
    omega
  · rw [hrpos, Nat.sub_self]
    rfl
  · exact absurd hj (Nat.not_lt_zero _)

/-- The next byte is one of the log. -/
theorem Printed.next (hlaid : log.Laid ring) (hsound : w.Sound log ring) {header : LogHeader}
    {rpos : UInt64} {out : List UInt8} (h : Printed ring w.written header rpos.toNat out)
    (hmore : rpos.toNat < header.write.toNat) :
    Printed ring w.written header (rpos.toNat + 1)
      (out ++ [log.cell w.mem (rpos.toNat % ring.toNat)]) := by
  have hpos : 0 < ring.toNat := Nat.lt_of_lt_of_le (by decide) hlaid.min
  have hfirst := h.first_le
  refine ⟨h.size, h.read_le, h.write_le, hfirst.trans (Nat.le_succ _), hmore, ?_, fun j hj ↦ ?_⟩
  · rw [List.length_append, h.length, List.length_singleton]
    omega
  · by_cases hlast : j < out.length
    · rw [List.getElem_append_left hlast]
      exact h.bytes j hlast
    · have hlength := h.length
      rw [List.length_append, List.length_singleton] at hj
      obtain rfl : j = out.length := by omega
      obtain ⟨q, hle, hmod, hq⟩ := hsound.cells.newest hpos
        (Nat.lt_of_lt_of_le hmore h.write_le)
      have hplace : header.first + out.length = rpos.toNat := by omega
      refine ⟨q, by omega, by rw [hplace, hmod], ?_⟩
      rw [List.getElem_concat_length rfl]
      exact hq

/-- `clear` stores a position up to which the log has been written. -/
theorem kept_writeRead (hlaid : log.Laid ring) (hsound : w.Sound log ring)
    (hinside : ∀ a ∈ r.touched, log.InWindow a) {rpos : UInt32} {phase : Phase}
    (hphase : r.phase.step log = log.writeRead rpos >>= fun _ ↦ pure phase)
    (hrpos : rpos.toNat ≤ w.written.length)
    (hstage : Stage ring w.written (phase.found.or r.seen) r.out phase) :
    Kept log ring w (r.step log w) := by
  refine Run.step_of_wp ?_
  rw [hphase, wp_bind]
  refine wp_mono (Log.wp_writeRead hlaid rpos) (fun _ host h ↦ ?_) (fun _ _ he ↦ he)
  obtain ⟨hmem, hout, hstays⟩ := h
  dsimp only at hmem hout
  have hstored : (log.header (storeWord w.mem (log.first + LogHeader.offsetofRead) rpos)).read
      = rpos := by rw [Log.header_storeRead]
  rw [wp_pure]
  refine ⟨?_, ⟨?_, inside_of_stays hstays hinside⟩, List.prefix_refl _⟩
  · show log.Represents ring ⟨w.written, (log.header host.mem).read.toNat⟩ host.mem
    rw [hmem, hstored]
    exact Log.represents_writeRead hsound hrpos
  · show Stage ring w.written (phase.found.or r.seen) host.out phase
    rw [hout]
    exact hstage

/-- The loop prints the next byte, or is done. -/
theorem kept_printing (hlaid : log.Laid ring) (hsound : w.Sound log ring)
    (hinside : ∀ a ∈ r.touched, log.InWindow a) {header : LogHeader} {rpos : UInt64}
    {clearAfter : Bool} (hseen : r.seen = some header)
    (hprinted : Printed ring w.written header rpos.toNat r.out)
    (hphase : r.phase = .printing header rpos clearAfter) : Kept log ring w (r.step log w) := by
  refine Run.step_of_wp ?_
  rw [hphase, Phase.step]
  by_cases hmore : rpos < header.write.toUInt64
  · rw [if_pos hmore, wp_bind]
    rw [Narrow.lt_toUInt64] at hmore
    refine wp_mono (Log.wp_printChar hlaid hprinted.size rpos) (fun _ host hreads ↦ ?_)
      (fun _ _ he ↦ he)
    rw [wp_pure]
    refine kept_of_reads hsound hinside hreads ⟨rfl, ?_⟩
    rw [Narrow.toNat_succ hmore]
    exact hprinted.next hlaid hsound hmore
  · rw [if_neg hmore, wp_pure]
    rw [Narrow.lt_toUInt64] at hmore
    have hend : rpos.toNat = header.write.toNat := Nat.le_antisymm hprinted.le_write (by omega)
    rw [hend] at hprinted
    refine ⟨hsound, ⟨?_, hinside⟩, List.prefix_refl _⟩
    rw [hseen]
    cases clearAfter <;> exact ⟨header, rfl, hprinted⟩

/-- **Every step of a run keeps what is known of it and of the log**, by what it is about to do. -/
theorem Run.step_kept (hlaid : log.Laid ring) (hsound : w.Sound log ring)
    (h : r.Known log ring w) : Kept log ring w (r.step log w) := by
  have hstage := h.stage
  have hwrite : (log.header w.mem).write.toNat = w.written.length := hsound.write
  cases hphase : r.phase with
  | clearing next =>
    rw [hphase] at hstage
    have hstep : r.phase.step log
        = log.readHeader >>= fun header ↦ pure (.storing header.write next) := by
      rw [hphase, Phase.step]
    refine kept_readHeader hlaid hsound h.inside ⟨_, rfl, ?_⟩ hstep
    cases next with
    | some clearAfter => exact ⟨Nat.le_of_eq hwrite, hstage⟩
    | none => exact ⟨Nat.le_of_eq hwrite, hstage⟩
  | storing rpos next =>
    rw [hphase] at hstage
    have hstep : r.phase.step log = log.writeRead rpos >>= fun _ ↦ pure (.follow next) := by
      rw [hphase, Phase.step]
    cases next with
    | some clearAfter => exact kept_writeRead hlaid hsound h.inside hstep hstage.1 hstage.2
    | none => exact kept_writeRead hlaid hsound h.inside hstep hstage.1 hstage.2
  | looking clearAfter =>
    rw [hphase] at hstage
    have hsize : (log.header w.mem).size = ring := hsound.size
    have hstep : r.phase.step log = log.readHeader >>= fun header ↦
        Log.start header >>= fun rpos ↦ pure (.printing header rpos clearAfter) := by
      rw [hphase, Phase.step]
    obtain ⟨rpos, hstart, hrpos⟩ := Log.start_eq (by rw [hsize]; exact hlaid.min)
      (by rw [hsize]; exact hlaid.max)
    refine kept_readHeader hlaid hsound h.inside
      ⟨.printing (log.header w.mem) rpos clearAfter, by rw [hstart, pure_bind], rfl, ?_⟩ hstep
    rw [hstage.2]
    exact printed_first hsound hrpos
  | printing header rpos clearAfter =>
    rw [hphase] at hstage
    exact kept_printing hlaid hsound h.inside hstage.1 hstage.2 hphase
  | finished =>
    rw [hphase] at hstage
    refine Run.step_of_wp ?_
    rw [hphase, Phase.step, wp_pure]
    exact ⟨hsound, ⟨hstage, h.inside⟩, List.prefix_refl _⟩
  | failed e =>
    rw [hphase] at hstage
    exact hstage.elim

end

/-- What is left of the program leads to the same before and after a step of its own. -/
theorem Run.rest_step (log : Log) (r : Run) (w : World) :
    Phase.rest log (r.step log w).1.phase
        ⟨(r.step log w).2.mem, (r.step log w).1.out, (r.step log w).1.touched⟩
      = Phase.rest log r.phase ⟨w.mem, r.out, r.touched⟩ := by
  have hbind := congrArg (fun x : M Unit ↦ x ⟨w.mem, r.out, r.touched⟩)
    (Phase.rest_step log r.phase)
  simp only [bind, EStateM.bind] at hbind
  rw [← hbind, Run.step]
  cases r.phase.step log ⟨w.mem, r.out, r.touched⟩ <;> rfl

/-- The proof obligation for all interleavings. -/
theorem sound (hlaid : log.Laid ring) :
    Sound (Run.step log) (World.append log) (World.Sound log ring) (Run.Known log ring) Grows
      Bounded where
  thread r w hsound hknown :=
    have hkept := Run.step_kept hlaid hsound hknown
    ⟨hkept.sound, hkept.known, hkept.grows⟩
  world b w hlt hsound := by
    have hrep := Log.represents_append hsound b hlt
    have hread : (log.header (log.append b w.mem)).read = (log.header w.mem).read :=
      UInt32.toNat_inj.1 hrep.read
    refine ⟨?_, List.prefix_append _ _⟩
    show log.Represents ring ⟨w.written ++ [b], (log.header (log.append b w.mem)).read.toNat⟩ _
    rw [hread]
    exact hrep
  stable r w w' hknown hgrows := ⟨hknown.stage.mono hgrows, hknown.inside⟩

/-! ## Progress -/

/-- A bound for the number of steps that a run has left. -/
def Phase.left (ring : UInt32) : Phase → Nat
  | .clearing (some _) => ring.toNat + 6
  | .storing _ (some _) => ring.toNat + 5
  | .looking _ => ring.toNat + 4
  | .printing header rpos _ => header.write.toNat - rpos.toNat + 3
  | .clearing none => 2
  | .storing _ none => 1
  | .finished => 0
  | .failed _ => 0

theorem Phase.left_begin_le (ring : UInt32) (clearBefore clearAfter : Bool) :
    (begin clearBefore clearAfter).left ring ≤ ring.toNat + 6 := by
  cases clearBefore <;> simp [begin, left]

/-- A step is one step less: `print` looks back no further than the size of the ring. -/
theorem Phase.wp_step_left (hlaid : log.Laid ring) {phase : Phase} {host : Host}
    (hsize : (log.header host.mem).size = ring) :
    wp (phase.step log) (fun phase' _ ↦ phase'.left ring ≤ phase.left ring - 1) (fun _ _ ↦ True)
      host := by
  cases phase with
  | clearing next =>
    rw [step, wp_bind]
    refine wp_of_forall (fun header host₁ ↦ ?_) fun _ _ ↦ trivial
    cases next <;> exact Nat.le_refl _
  | storing rpos next =>
    rw [step, wp_bind]
    refine wp_of_forall (fun _ host₁ ↦ ?_) fun _ _ ↦ trivial
    cases next <;> exact Nat.le_refl _
  | looking clearAfter =>
    rw [step, wp_bind]
    refine wp_mono (Log.wp_readHeader hlaid) (fun header host₁ h ↦ ?_) fun _ _ he ↦ he
    obtain ⟨rfl, -⟩ := h
    obtain ⟨rpos, hstart, hrpos⟩ := Log.start_eq (by rw [hsize]; exact hlaid.min)
      (by rw [hsize]; exact hlaid.max)
    rw [hstart, wp_bind, wp_pure, wp_pure, left, left]
    rw [hsize] at hrpos
    omega
  | printing header rpos clearAfter =>
    rw [step]
    by_cases hmore : rpos < header.write.toUInt64
    · rw [if_pos hmore, wp_bind]
      rw [Narrow.lt_toUInt64] at hmore
      refine wp_of_forall (fun _ host₁ ↦ ?_) fun _ _ ↦ trivial
      rw [wp_pure, left, left, Narrow.toNat_succ hmore]
      omega
    · rw [if_neg hmore, wp_pure]
      cases clearAfter
      · exact Nat.zero_le _
      · rw [left]
        exact Nat.le_sub_of_add_le (Nat.le_add_left _ _)
  | finished => exact Nat.le_refl _
  | failed e => trivial

theorem descends (hlaid : log.Laid ring) :
    Descends (Run.step log) (World.Sound log ring) (Run.Known log ring)
      fun r ↦ r.phase.left ring := by
  intro r w hsound hknown
  have hsize : (log.header w.mem).size = ring := hsound.size
  exact Run.step_of_wp (P := fun stepped ↦ stepped.1.phase.left ring ≤ r.phase.left ring - 1)
    (wp_mono (Phase.wp_step_left hlaid hsize) (fun _ _ h ↦ h) fun _ _ _ ↦ Nat.zero_le _)

/-- A run that has no steps left is over. -/
theorem Run.Known.over_of_left {r : Run} {w : World} (h : r.Known log ring w)
    (hleft : r.phase.left ring = 0) : r.phase = .finished := by
  have hstage := h.stage
  cases hphase : r.phase with
  | clearing next => cases next <;> simp [hphase, Phase.left] at hleft
  | storing rpos next => cases next <;> simp [hphase, Phase.left] at hleft
  | looking clearAfter => simp [hphase, Phase.left] at hleft
  | printing header rpos clearAfter => simp [hphase, Phase.left] at hleft
  | finished => rfl
  | failed e =>
    rw [hphase] at hstage
    exact hstage.elim

/-! ## All interleavings -/

/-- What the firmware writes in an interleaving. -/
def appended {I : Type} : List (Interference.Move I UInt8) → List UInt8
  | [] => []
  | .thread _ :: moves => appended moves
  | .world b :: moves => appended moves ++ [b]

/-- What a run, of which nothing is known but that there may be others, has done to a log to which
`written` has been written so far. -/
structure Faithful (log : Log) (ring : UInt32) (written : List UInt8) (r : Run) : Prop where
  not_failed : ∀ e, r.phase ≠ .failed e
  inside : ∀ a ∈ r.touched, log.InWindow a
  /-- Nothing is printed before `print` has looked at the header. -/
  silent : r.seen = none → r.out = []
  /-- It never prints more than was pending when it looked, and in the end it has printed that
  many. -/
  length_le : ∀ header, r.seen = some header →
    r.out.length ≤ header.write.toNat - header.first ∧ header.write.toNat ≤ written.length
  complete : r.phase = .finished → ∃ header, r.seen = some header
    ∧ r.out.length = header.write.toNat - header.first
  /-- Every byte is one that the firmware has written to its place, then or later. -/
  bytes : ∀ header, r.seen = some header → ∀ j (h : j < r.out.length), ∃ q, header.first + j ≤ q
    ∧ q % ring.toNat = (header.first + j) % ring.toNat ∧ written[q]? = some r.out[j]
  /-- While the firmware has not come around, these are the bytes of the log, in order. -/
  exact : ∀ header, r.seen = some header → written.length ≤ header.first + ring.toNat →
    r.out = (written.drop header.first).take r.out.length

/-- As long as the ring has not come around, there is no later byte in the same place. -/
theorem Printed.exact {written out : List UInt8} {header : LogHeader} {rpos : Nat}
    (h : Printed ring written header rpos out)
    (hroom : written.length ≤ header.first + ring.toNat) :
    out = (written.drop header.first).take out.length := by
  have hlength := h.length
  have hend := h.le_write
  have hwritten := h.write_le
  have hfirst := h.first_le
  refine List.ext_getElem ?_ fun j hj hj' ↦ ?_
  · rw [List.length_take, List.length_drop]
    omega
  · obtain ⟨q, hle, hmod, hq⟩ := h.bytes j hj
    obtain ⟨hlt, hget⟩ := List.getElem?_eq_some_iff.1 hq
    have heq : header.first + j = q := by
      by_contra hne
      exact Ring.mod_ne_mod (by omega : header.first + j < q) (by omega) hmod.symm
    subst heq
    rw [List.getElem_take, List.getElem_drop]
    exact hget.symm

section

variable {written out : List UInt8} {phase : Phase}

theorem Stage.silent {seen : Option LogHeader} (h : Stage ring written seen out phase)
    (hseen : seen = none) : out = [] := by
  subst hseen
  cases phase with
  | clearing next =>
    cases next with
    | some clearAfter => exact h.2
    | none => simp [Stage] at h
  | storing rpos next =>
    cases next with
    | some clearAfter => exact h.2.2
    | none => simp [Stage] at h
  | looking clearAfter => exact h.2
  | printing header rpos clearAfter => simp [Stage] at h
  | finished => simp [Stage] at h
  | failed e => exact h.elim

theorem Stage.printed {header : LogHeader} (h : Stage ring written (some header) out phase) :
    ∃ rpos, Printed ring written header rpos out
      ∧ (phase = .finished → rpos = header.write.toNat) := by
  cases phase with
  | clearing next =>
    cases next with
    | some clearAfter => simp [Stage] at h
    | none =>
      obtain ⟨header', heq, hprinted⟩ := h
      cases heq
      exact ⟨_, hprinted, fun _ ↦ rfl⟩
  | storing rpos next =>
    cases next with
    | some clearAfter => simp [Stage] at h
    | none =>
      obtain ⟨-, header', heq, hprinted⟩ := h
      cases heq
      exact ⟨_, hprinted, fun _ ↦ rfl⟩
  | looking clearAfter => simp [Stage] at h
  | printing header' rpos clearAfter =>
    obtain ⟨heq, hprinted⟩ := h
    cases heq
    exact ⟨_, hprinted, fun hover ↦ nomatch hover⟩
  | finished =>
    obtain ⟨header', heq, hprinted⟩ := h
    cases heq
    exact ⟨_, hprinted, fun _ ↦ rfl⟩
  | failed e => exact h.elim

end

theorem Run.Known.faithful {r : Run} {w : World} (h : r.Known log ring w) :
    Faithful log ring w.written r := by
  have hstage := h.stage
  have hprinted : ∀ header, r.seen = some header → ∃ rpos,
      Printed ring w.written header rpos r.out
        ∧ (r.phase = .finished → rpos = header.write.toNat) := by
    intro header hseen
    rw [hseen] at hstage
    exact hstage.printed
  refine ⟨fun e he ↦ ?_, h.inside, hstage.silent, fun header hseen ↦ ?_, fun hover ↦ ?_,
    fun header hseen ↦ ?_, fun header hseen ↦ ?_⟩
  · rw [he] at hstage
    exact hstage
  · obtain ⟨rpos, hp, -⟩ := hprinted header hseen
    have hlength := hp.length
    have hend := hp.le_write
    exact ⟨by omega, hp.write_le⟩
  · rw [hover] at hstage
    obtain ⟨header, hseen, hp⟩ := hstage
    exact ⟨header, hseen, hp.length⟩
  · obtain ⟨rpos, hp, -⟩ := hprinted header hseen
    exact hp.bytes
  · obtain ⟨rpos, hp, -⟩ := hprinted header hseen
    exact hp.exact

section

variable {I : Type} {w : World} {options : I → Bool × Bool}
  {moves : List (Interference.Move I UInt8)}

theorem begin_sound (hfresh : w.Fresh log ring) : (begin w options).shared.Sound log ring := by
  have hread : (log.header w.mem).read.toNat = 0 := by rw [hfresh.header]; rfl
  show log.Represents ring ⟨w.written, (log.header w.mem).read.toNat⟩ w.mem
  rw [hread, hfresh.written]
  exact Log.represents_fresh hfresh.header

theorem begin_known (i : I) :
    ((begin w options).locals i).Known log ring (begin w options).shared := by
  refine ⟨?_, fun a ha ↦ absurd ha List.not_mem_nil⟩
  show Stage ring w.written none [] (.begin (options i).1 (options i).2)
  rw [Phase.begin]
  cases (options i).1 <;> exact ⟨rfl, rfl⟩

/-- No run makes the firmware forget what it has written. -/
theorem Run.step_written (r : Run) : (r.step log w).2.written = w.written := by
  rw [Run.step]
  split <;> rfl

variable [DecidableEq I]

/-- The memory, the firmware and the runs after an interleaving, latest move first. -/
def afterAll (log : Log) (w : World) (options : I → Bool × Bool)
    (moves : List (Interference.Move I UInt8)) : State I World Run :=
  (begin w options).after (Run.step log) (World.append log) moves

/-- A run that nobody disturbs does what `main` does. -/
theorem main_undisturbed (log : Log) (w : World) (options : I → Bool × Bool) (i : I) (n : Nat)
    (hover : ((afterAll log w options (List.replicate n (.thread i))).locals i).phase = .finished) :
    main log (options i).1 (options i).2 ⟨w.mem, [], []⟩
      = .ok () ⟨(afterAll log w options (List.replicate n (.thread i))).shared.mem,
        ((afterAll log w options (List.replicate n (.thread i))).locals i).out,
        ((afterAll log w options (List.replicate n (.thread i))).locals i).touched⟩ := by
  have hrest : ∀ n, Phase.rest log
      ((afterAll log w options (List.replicate n (.thread i))).locals i).phase
      ⟨(afterAll log w options (List.replicate n (.thread i))).shared.mem,
        ((afterAll log w options (List.replicate n (.thread i))).locals i).out,
        ((afterAll log w options (List.replicate n (.thread i))).locals i).touched⟩
      = main log (options i).1 (options i).2 ⟨w.mem, [], []⟩ := by
    intro n
    induction n with
    | zero => rw [← Phase.rest_begin]; rfl
    | succ n ih =>
      refine Eq.trans ?_ ((Run.rest_step log _ _).trans ih)
      simp only [afterAll, List.replicate_succ, State.after, State.move, Function.update_self]
  rw [← hrest n, hover]
  rfl

theorem afterAll_written (hfresh : w.Fresh log ring) :
    (afterAll log w options moves).shared.written = appended moves := by
  induction moves with
  | nil => exact hfresh.written
  | cons m moves ih =>
    cases m with
    | thread i => exact (Run.step_written _).trans ih
    | world b => exact congrArg (· ++ [b]) ih

theorem allowed_of_lt (hfresh : w.Fresh log ring) (hlt : (appended moves).length < 2 ^ 32) :
    Allowed (Run.step log) (World.append log) Bounded (begin w options) moves := by
  induction moves with
  | nil => trivial
  | cons m moves ih =>
    cases m with
    | thread i => exact ih hlt
    | world b =>
      rw [appended, List.length_append, List.length_singleton] at hlt
      have hwritten : (afterAll log w options moves).shared.written = _ := afterAll_written hfresh
      refine ⟨?_, ih (by omega)⟩
      show (afterAll log w options moves).shared.written.length + 1 < 2 ^ 32
      rwa [hwritten]

/-- The invariant of all interleavings. -/
theorem known_afterAll (hlaid : log.Laid ring) (hfresh : w.Fresh log ring)
    (hlt : (appended moves).length < 2 ^ 32) :
    (afterAll log w options moves).shared.Sound log ring
      ∧ ∀ i, ((afterAll log w options moves).locals i).Known log ring
        (afterAll log w options moves).shared :=
  (sound hlaid).after moves (allowed_of_lt hfresh hlt) (begin_sound hfresh) begin_known

/-- **However many there are and whatever they are told to do**, and wherever the firmware is while
they look and print and clear, step by step: no run is ever stopped by an exception or leaves the
window, the header is always one that `print` accepts, with no more marked as read than has been
written, and what a run has printed are bytes of the log, from where it looked on.  They are those
of its turn if the firmware has not come around the ring meanwhile, and of a later round otherwise.
The log is fresh to begin with, and the counters of its header do not overflow. -/
theorem readers_faithful (hlaid : log.Laid ring) (hfresh : w.Fresh log ring)
    (options : I → Bool × Bool) (moves : List (Interference.Move I UInt8))
    (hlt : (appended moves).length < 2 ^ 32) :
    (log.header (afterAll log w options moves).shared.mem).size = ring
      ∧ (log.header (afterAll log w options moves).shared.mem).write.toNat = (appended moves).length
      ∧ (log.header (afterAll log w options moves).shared.mem).read.toNat ≤ (appended moves).length
      ∧ Ring.Holds (log.cell (afterAll log w options moves).shared.mem) ring.toNat (appended moves)
      ∧ ∀ i, Faithful log ring (appended moves) ((afterAll log w options moves).locals i) := by
  obtain ⟨hsound, hknown⟩ := @known_afterAll log ring I w options moves _ hlaid hfresh hlt
  have hwritten : (afterAll log w options moves).shared.written = _ := afterAll_written hfresh
  rw [World.Sound, hwritten] at hsound
  refine ⟨hsound.size, hsound.write, hsound.cleared_le, hsound.cells, fun i ↦ ?_⟩
  rw [← hwritten]
  exact (hknown i).faithful

/-- The ring of 1025 bytes, before anything is written to it. -/
def freshWorld : World := { mem := Log.freshHost.mem }

theorem freshWorld_fresh : freshWorld.Fresh Log.freshLog 1025 := ⟨by decide, rfl⟩

/-- One of two runs clears the log before the other one, which has looked at the header already, has
printed anything. -/
theorem readers_faithful_two :
    (Log.freshLog.header (afterAll Log.freshLog freshWorld
        (fun i : Fin 2 ↦ (decide (i = 1), true))
        [.thread 0, .thread 1, .thread 1, .thread 0, .world 72]).shared.mem).size = 1025
      ∧ ∀ i, Faithful Log.freshLog 1025 [72] ((afterAll Log.freshLog freshWorld
        (fun i : Fin 2 ↦ (decide (i = 1), true))
        [.thread 0, .thread 1, .thread 1, .thread 0, .world 72]).locals i) := by
  obtain ⟨hsize, -, -, -, hfaithful⟩ := readers_faithful Log.freshLog_laid freshWorld_fresh
    (fun i : Fin 2 ↦ (decide (i = 1), true))
    [.thread 0, .thread 1, .thread 1, .thread 0, .world 72] (by decide)
  exact ⟨hsize, hfaithful⟩

/-- **Nobody keeps a run from getting to its end**: it is over after at most as many steps of its
own as the ring has bytes, and six.  All that was pending when it looked is printed then, on the
same conditions. -/
theorem readers_finish (hlaid : log.Laid ring) (hfresh : w.Fresh log ring)
    (options : I → Bool × Bool) (moves : List (Interference.Move I UInt8))
    (hlt : (appended moves).length < 2 ^ 32) (i : I) (hsteps : ring.toNat + 6 ≤ steps i moves) :
    ((afterAll log w options moves).locals i).phase = .finished
      ∧ ∃ header, ((afterAll log w options moves).locals i).seen = some header
        ∧ ((afterAll log w options moves).locals i).out.length
          = header.write.toNat - header.first := by
  obtain ⟨-, hknown⟩ := @known_afterAll log ring I w options moves _ hlaid hfresh hlt
  have hdone : ((afterAll log w options moves).locals i).phase.left ring
      ≤ ((begin w options).locals i).phase.left ring - steps i moves :=
    (descends hlaid).done (sound hlaid) moves (allowed_of_lt hfresh hlt) (begin_sound hfresh)
      begin_known i
  have hbegin := Phase.left_begin_le ring (options i).1 (options i).2
  have hzero : ((afterAll log w options moves).locals i).phase.left ring = 0 := by
    have hle : ((begin w options).locals i).phase.left ring ≤ ring.toNat + 6 := hbegin
    omega
  have hover := (hknown i).over_of_left hzero
  exact ⟨hover, (hknown i).faithful.complete hover⟩

theorem readers_finish_two :
    ((afterAll Log.freshLog freshWorld (fun i : Fin 2 ↦ (decide (i = 1), true))
      (.world 72 :: List.replicate 1031 (.thread 0))).locals 0).phase = .finished :=
  (readers_finish Log.freshLog_laid freshWorld_fresh (fun i : Fin 2 ↦ (decide (i = 1), true))
    (.world 72 :: List.replicate 1031 (.thread 0)) (by decide +kernel) 0 (by decide +kernel)).1

end

end EthosuLogd

end EthosU
