import EthosU.EthosuLogd.Refinement
import Mathlib.Data.List.Infix

/-!
# Reading and clearing next to a writer

`ethosu_logd -c` prints the log and then marks it as read.  The firmware goes on writing while it
does, and `print` and `clear` each look at the header on their own.

* `Reader` is a run of `ethosu_logd -c`, cut at its accesses to the log; `Reader.step` makes one of
  them.  Undisturbed, the steps do what `main` does (`main_alone`).
* `System.after` is what an interleaving of the firmware's steps and the reader's steps leads to.
* `Calm` says that no byte was written between `print`'s look at the header and `clear`'s.
* `loses_nothing_iff` proves that this is exactly when nothing is lost, in all interleavings in
  which the ring never holds more than it has room for.
-/

set_option autoImplicit false

namespace EthosU

namespace EthosuLogd

open Wp Bytes

/-- What `main` does with the window it has mapped. -/
def main (log : Log) (clearBefore clearAfter : Bool) : M Unit := do
  if clearBefore then
    log.clear
  log.print
  if clearAfter then
    log.clear

/-! ## Steps -/

/-- Where a run of `ethosu_logd -c` is. -/
inductive Reader
  /-- No run has started, or the last one is over. -/
  | idle
  /-- `print` has looked at the header and has got to position `rpos`. -/
  | printing (header : LogHeader) (rpos : UInt64)
  /-- `clear` has looked at the header and will store what it found. -/
  | storing (rpos : UInt32)
  deriving DecidableEq

/-- One access to the log. -/
def Reader.step (log : Log) : Reader → M Reader
  | .idle => do
    let header ← log.readHeader
    let rpos ← Log.start header
    pure (.printing header rpos)
  | .printing header rpos =>
    if rpos < header.write.toUInt64 then do
      log.printChar header rpos
      pure (.printing header (rpos + 1))
    else do
      let header ← log.readHeader
      pure (.storing header.write)
  | .storing rpos => do
    log.writeRead rpos
    pure .idle

/-- The memory and the reader. -/
structure System where
  host : Host
  reader : Reader := .idle

/-- A step of one of the two processors. -/
inductive Move
  | append (b : UInt8)
  | read

/-- The system after a step.  An exception ends the run of the reader. -/
def System.move (log : Log) (s : System) : Move → System
  | .append b => { s with host := { s.host with mem := log.append b s.host.mem } }
  | .read =>
    match s.reader.step log s.host with
    | .ok reader host => ⟨host, reader⟩
    | .error _ host => ⟨host, .idle⟩

/-- The system after an interleaving of such steps, latest first. -/
def System.after (log : Log) (s : System) : List Move → System
  | [] => s
  | m :: moves => (s.after log moves).move log m

/-- What has been written in an interleaving. -/
def written : List Move → List UInt8
  | [] => []
  | .append b :: moves => written moves ++ [b]
  | .read :: moves => written moves

/-- The reader's step, by what it leads to. -/
theorem move_read {log : Log} {s : System} {P : System → Prop}
    (h : wp (s.reader.step log) (fun reader host ↦ P ⟨host, reader⟩) (fun _ host ↦ P ⟨host, .idle⟩)
      s.host) : P (s.move log .read) := by
  rw [wp] at h
  rw [System.move]
  cases hstep : s.reader.step log s.host <;> simpa [hstep] using h

/-! ## The steps make up the program -/

/-- Nobody else moving, the reader gets from `reader` to the end of `x`. -/
def Finishes (log : Log) (reader : Reader) (x : M Unit) (host : Host) : Prop :=
  ∃ n, System.after log ⟨host, reader⟩ (List.replicate n .read) = ⟨left x host, .idle⟩

theorem after_replicate_succ (log : Log) (s : System) (n : Nat) :
    s.after log (List.replicate (n + 1) .read)
      = (s.move log .read).after log (List.replicate n .read) := by
  induction n with
  | zero => rfl
  | succ n ih => rw [List.replicate_succ, System.after, ih, List.replicate_succ, System.after]

/-- A program that begins with the reader's step and goes on as the reader does. -/
theorem finishes_of_step {log : Log} {reader : Reader} {host : Host} {x : M Unit}
    (rest : Reader → M Unit) (hx : x = reader.step log >>= rest)
    (h : wp (reader.step log) (fun reader' host' ↦ Finishes log reader' (rest reader') host')
      (fun _ _ ↦ True) host) : Finishes log reader x host := by
  subst hx
  cases hstep : reader.step log host with
  | error e host' =>
    refine ⟨1, ?_⟩
    have hleft : left (reader.step log >>= rest) host = host' := by
      simp only [left, bind, EStateM.bind, hstep]
    rw [hleft]
    simp only [List.replicate, System.after, System.move, hstep]
  | ok reader' host' =>
    obtain ⟨n, hn⟩ := (wp_of_ok hstep).1 h
    refine ⟨n + 1, ?_⟩
    have hleft : left (reader.step log >>= rest) host = left (rest reader') host' := by
      simp only [left, bind, EStateM.bind, hstep]
    rw [hleft, after_replicate_succ, ← hn]
    simp only [System.move, hstep]

/-- What is left of the program, from what the reader is about to do. -/
def rest (log : Log) : Reader → M Unit
  | .idle => pure ()
  | .printing header rpos => do log.printFrom header rpos; log.clear
  | .storing rpos => log.writeRead rpos

theorem finishes_storing (log : Log) (rpos : UInt32) (host : Host) :
    Finishes log (.storing rpos) (log.writeRead rpos) host := by
  refine finishes_of_step (rest log) ?_ ?_
  · simp [Reader.step, rest]
  · rw [Reader.step, wp_bind]
    exact wp_of_forall (fun _ _ ↦ ⟨0, rfl⟩) fun _ _ ↦ trivial

theorem finishes_printing (log : Log) (header : LogHeader) {n : Nat} {rpos : UInt64}
    (hn : header.write.toNat - rpos.toNat = n) (host : Host) :
    Finishes log (.printing header rpos) (do log.printFrom header rpos; log.clear) host := by
  induction n generalizing rpos host with
  | zero =>
    have hdone : ¬ rpos < header.write.toUInt64 := by
      rw [Narrow.lt_toUInt64]
      omega
    refine finishes_of_step (rest log) ?_ ?_
    · rw [Log.printFrom, dif_neg hdone, Reader.step, if_neg hdone]
      simp [Log.clear, rest]
    · rw [Reader.step, if_neg hdone, wp_bind]
      exact wp_of_forall (fun header host' ↦ finishes_storing log header.write host')
        fun _ _ ↦ trivial
  | succ n ih =>
    have hlt : rpos.toNat < header.write.toNat := by omega
    have hmore : rpos < header.write.toUInt64 := Narrow.lt_toUInt64.2 hlt
    have hnext := Narrow.toNat_succ hlt
    refine finishes_of_step (rest log) ?_ ?_
    · rw [Log.printFrom, dif_pos hmore, Reader.step, if_pos hmore]
      simp [rest]
    · rw [Reader.step, if_pos hmore, wp_bind]
      exact wp_of_forall (fun _ host' ↦ ih (by rw [hnext]; omega) host') fun _ _ ↦ trivial

/-- A reader that nobody disturbs does what `ethosu_logd -c` does. -/
theorem main_alone (log : Log) (host : Host) : Finishes log .idle (main log false true) host := by
  refine finishes_of_step (rest log) ?_ ?_
  · simp [main, Reader.step, Log.print, rest]
  · rw [Reader.step, wp_bind]
    refine wp_of_forall (fun header host₁ ↦ ?_) (fun _ _ ↦ trivial)
    rw [wp_bind]
    exact wp_of_forall (fun rpos host₂ ↦ finishes_printing log header rfl host₂) fun _ _ ↦ trivial

/-! ## Interleavings -/

/-- Between `print`'s look at the header and `clear`'s. -/
def Reader.Between : Reader → Prop
  | .idle => False
  | .printing _ _ => True
  | .storing _ => False

/-- No byte was written between `print`'s look at the header and `clear`'s. -/
def Calm (log : Log) (s : System) (moves : List Move) : Prop :=
  ∀ b earlier, .append b :: earlier <:+ moves → ¬ (s.after log earlier).reader.Between

/-- The bytes that have been written and not been marked as read. -/
def unread (log : Log) (s : System) : Nat :=
  (log.header s.host.mem).write.toNat - (log.header s.host.mem).read.toNat

/-- The unread bytes have always had room in the ring. -/
def Room (log : Log) (s : System) (moves : List Move) : Prop :=
  ∀ earlier, earlier <:+ moves →
    unread log (s.after log earlier) ≤ (log.header (s.after log earlier).host.mem).size.toNat

theorem calm_cons (log : Log) (s : System) (m : Move) (moves : List Move) :
    Calm log s (m :: moves)
      ↔ Calm log s moves ∧ ∀ b, m = .append b → ¬ (s.after log moves).reader.Between := by
  refine ⟨?_, ?_⟩
  · intro h
    refine ⟨fun b earlier he ↦ h b earlier (he.trans (List.suffix_cons _ _)), ?_⟩
    rintro b rfl
    exact h b moves (List.suffix_refl _)
  · rintro ⟨hmoves, hm⟩ b earlier he
    rcases List.suffix_cons_iff.1 he with heq | he
    · obtain ⟨rfl, rfl⟩ := List.cons.inj heq
      exact hm b rfl
    · exact hmoves b earlier he

/-- `out` is the log up to position `p`, if all has been calm, and is too short for that if not. -/
def Accounts (calm : Prop) (out written : List UInt8) (p : Nat) : Prop :=
  (calm → out = written.take p) ∧ (¬ calm → out.length < p)

theorem Accounts.length_le {calm : Prop} {out written : List UInt8} {p : Nat}
    (h : Accounts calm out written p) : out.length ≤ p := by
  by_cases hcalm : calm
  · rw [h.1 hcalm]
    exact List.length_take_le _ _
  · exact Nat.le_of_lt (h.2 hcalm)

theorem Accounts.append {calm : Prop} {out written : List UInt8} {p : Nat}
    (h : Accounts calm out written p) (hp : p ≤ written.length) (b : UInt8) :
    Accounts calm out (written ++ [b]) p :=
  ⟨fun hcalm ↦ by rw [h.1 hcalm, List.take_append_of_le_length hp], h.2⟩

/-- What has been printed, by the step the reader is at. -/
inductive Progress (calm : Prop) (out written : List UInt8) (ring : UInt32) (read : Nat) :
    Reader → Prop
  | idle (accounts : Accounts calm out written read) : Progress calm out written ring read .idle
  | printing (header : LogHeader) (rpos : UInt64) (size : header.size = ring)
      (started : read ≤ rpos.toNat) (before : rpos.toNat ≤ header.write.toNat)
      (seen : header.write.toNat ≤ written.length) (printed : out.length ≤ rpos.toNat)
      (calm_eq : calm → out = written.take rpos.toNat ∧ header.write.toNat = written.length)
      (lost : ¬ calm → out.length < rpos.toNat ∨ header.write.toNat < written.length) :
      Progress calm out written ring read (.printing header rpos)
  | storing (rpos : UInt32) (seen : rpos.toNat ≤ written.length)
      (accounts : Accounts calm out written rpos.toNat) :
      Progress calm out written ring read (.storing rpos)

/-- What holds of every interleaving. -/
structure Invariant (log : Log) (ring : UInt32) (calm : Prop) (written : List UInt8) (s : System) :
    Prop where
  represents : log.Represents ring ⟨written, (log.header s.host.mem).read.toNat⟩ s.host.mem
  progress : Progress calm s.host.out written ring (log.header s.host.mem).read.toNat s.reader

section

variable {log : Log} {ring : UInt32} {calm : Prop} {bytes : List UInt8} {s : System}

theorem Invariant.read_le (h : Invariant log ring calm bytes s) :
    (log.header s.host.mem).read.toNat ≤ bytes.length := h.represents.cleared_le

theorem Invariant.write_eq (h : Invariant log ring calm bytes s) :
    (log.header s.host.mem).write.toNat = bytes.length := h.represents.write

/-- The firmware's step loses a byte exactly if the reader is in between. -/
theorem Invariant.append (h : Invariant log ring calm bytes s) (b : UInt8)
    (hlt : bytes.length + 1 < 2 ^ 32) :
    Invariant log ring (calm ∧ ¬ s.reader.Between) (bytes ++ [b]) (s.move log (.append b)) := by
  obtain ⟨host, reader⟩ := s
  obtain ⟨hrep, hprogress⟩ := h
  have hread := hrep.cleared_le
  have hrep' := Log.represents_append hrep b hlt
  have hsame : (log.header (log.append b host.mem)).read = (log.header host.mem).read :=
    UInt32.toNat_inj.1 hrep'.read
  refine ⟨?_, ?_⟩
  · rw [System.move, hsame]
    exact hrep'
  · rw [System.move, hsame]
    cases hprogress with
    | idle haccounts =>
      rw [Reader.Between, not_false_eq_true, and_true]
      exact .idle (haccounts.append hread b)
    | printing header rpos hsize hstarted hbefore hseen hprinted hcalm hlost =>
      refine .printing header rpos hsize hstarted hbefore ?_ hprinted ?_ fun _ ↦ .inr ?_
      · rw [List.length_append]
        exact Nat.le_add_right_of_le hseen
      · exact fun h ↦ absurd trivial h.2
      · rw [List.length_append]
        exact Nat.lt_succ_of_le hseen
    | storing rpos hseen haccounts =>
      rw [Reader.Between, not_false_eq_true, and_true]
      refine .storing rpos ?_ (haccounts.append hseen b)
      rw [List.length_append]
      exact Nat.le_add_right_of_le hseen

/-- What is left of the invariant when the reader only looks at the memory. -/
private theorem Invariant.of_reads {host host' : Host} {reader : Reader} {printed : List UInt8}
    (hrep : log.Represents ring ⟨bytes, (log.header host.mem).read.toNat⟩ host.mem)
    (hreads : log.Reads printed host host')
    (hprogress : Progress calm (host.out ++ printed) bytes ring (log.header host.mem).read.toNat
      reader) : Invariant log ring calm bytes ⟨host', reader⟩ := by
  refine ⟨?_, ?_⟩
  · show log.Represents ring ⟨bytes, (log.header host'.mem).read.toNat⟩ host'.mem
    rw [hreads.mem]
    exact hrep
  · show Progress calm host'.out bytes ring (log.header host'.mem).read.toNat reader
    rw [hreads.mem, hreads.out]
    exact hprogress

/-- The reader looks at the header and starts to print, at `header.read`: the ring has room for what
is unread, so that nothing is skipped. -/
private theorem Invariant.read_idle {host : Host} (h : Invariant log ring calm bytes ⟨host, .idle⟩)
    (hlaid : log.Laid ring)
    (hroom : bytes.length ≤ (log.header host.mem).read.toNat + ring.toNat) :
    Invariant log ring calm bytes (System.move log ⟨host, .idle⟩ .read) := by
  have hread := h.read_le
  have hwrite := h.write_eq
  obtain ⟨hrep, hprogress⟩ := h
  have hsize := hrep.size
  dsimp only at hread hwrite hrep hprogress hsize
  rcases hprogress with ⟨haccounts⟩
  refine move_read ?_
  dsimp only
  rw [Reader.step, wp_bind]
  refine wp_mono (Log.wp_readHeader hlaid) (fun header host₁ h₁ ↦ ?_) (fun _ _ he ↦ he)
  obtain ⟨rfl, hreads⟩ := h₁
  obtain ⟨rpos, hstart, hrpos⟩ := Log.start_eq (by rw [hsize]; exact hlaid.min)
    (by rw [hsize]; exact hlaid.max)
  have hfirst : rpos.toNat = (log.header host.mem).read.toNat := by
    rw [hsize] at hrpos
    omega
  rw [hstart, wp_bind, wp_pure, wp_pure]
  refine Invariant.of_reads hrep hreads ?_
  rw [List.append_nil]
  refine .printing _ rpos hsize (by omega) (by omega) (by omega) ?_ (fun hcalm ↦ ⟨?_, hwrite⟩)
    fun hlost ↦ .inl ?_
  · rw [hfirst]
    exact haccounts.length_le
  · rw [hfirst]
    exact haccounts.1 hcalm
  · rw [hfirst]
    exact haccounts.2 hlost

/-- The reader prints the next byte of the log, or is done and looks at the header again. -/
private theorem Invariant.read_printing {host : Host} {header : LogHeader} {rpos : UInt64}
    (h : Invariant log ring calm bytes ⟨host, .printing header rpos⟩) (hlaid : log.Laid ring)
    (hroom : bytes.length ≤ (log.header host.mem).read.toNat + ring.toNat) :
    Invariant log ring calm bytes (System.move log ⟨host, .printing header rpos⟩ .read) := by
  have hread := h.read_le
  have hwrite := h.write_eq
  obtain ⟨hrep, hprogress⟩ := h
  dsimp only at hread hwrite hrep hprogress
  rcases hprogress with _ | ⟨_, _, hsize, hstarted, hbefore, hseen, hprinted, hcalm, hlost⟩
  refine move_read ?_
  by_cases hmore : rpos < header.write.toUInt64
  · rw [Reader.step, if_pos hmore, wp_bind]
    rw [Narrow.lt_toUInt64] at hmore
    have hnext := Narrow.toNat_succ hmore
    have hin : rpos.toNat < bytes.length := by omega
    refine wp_mono (Log.wp_printChar hlaid hsize rpos) (fun _ host₁ hreads ↦ ?_) (fun _ _ he ↦ he)
    have hcell : log.cell host.mem (rpos.toNat % ring.toNat) = bytes[rpos.toNat] :=
      hrep.cells rpos.toNat hin (by dsimp only; omega)
    rw [hcell] at hreads
    rw [wp_pure]
    refine Invariant.of_reads hrep hreads (.printing header _ hsize ?_ ?_ hseen ?_ ?_ ?_)
    · omega
    · omega
    · rw [List.length_append, hnext, List.length_singleton]
      omega
    · intro h
      obtain ⟨hout, hall⟩ := hcalm h
      refine ⟨?_, hall⟩
      rw [hout, hnext, List.take_succ_eq_append_getElem hin]
    · intro h
      rw [List.length_append, hnext, List.length_singleton]
      exact (hlost h).imp_left fun hshort ↦ by omega
  · rw [Reader.step, if_neg hmore, wp_bind]
    rw [Narrow.lt_toUInt64] at hmore
    refine wp_mono (Log.wp_readHeader hlaid) (fun header' host₁ h₁ ↦ ?_) (fun _ _ he ↦ he)
    obtain ⟨rfl, hreads⟩ := h₁
    rw [wp_pure]
    refine Invariant.of_reads hrep hreads (.storing _ (Nat.le_of_eq hwrite) ⟨?_, ?_⟩)
    · intro h
      obtain ⟨hout, hall⟩ := hcalm h
      rw [List.append_nil, hout, hwrite]
      congr 1
      omega
    · intro h
      rw [List.append_nil, hwrite]
      have hshort := hlost h
      omega

/-- The reader marks as read what it has seen. -/
private theorem Invariant.read_storing {host : Host} {rpos : UInt32}
    (h : Invariant log ring calm bytes ⟨host, .storing rpos⟩) (hlaid : log.Laid ring) :
    Invariant log ring calm bytes (System.move log ⟨host, .storing rpos⟩ .read) := by
  obtain ⟨hrep, hprogress⟩ := h
  dsimp only at hrep hprogress
  rcases hprogress with _ | _ | ⟨_, hseen, haccounts⟩
  refine move_read ?_
  rw [Reader.step, wp_bind]
  refine wp_mono (Log.wp_writeRead hlaid rpos) (fun _ host₁ h₁ ↦ ?_) (fun _ _ he ↦ he)
  obtain ⟨hmem, hout, -⟩ := h₁
  rw [wp_pure]
  have hrep' := Log.represents_writeRead hrep hseen
  have hstored : (log.header (storeWord host.mem (log.first + LogHeader.offsetofRead) rpos)).read
      = rpos := by rw [Log.header_storeRead]
  refine ⟨?_, ?_⟩
  · show log.Represents ring ⟨bytes, (log.header host₁.mem).read.toNat⟩ host₁.mem
    rw [hmem, hstored]
    exact hrep'
  · show Progress calm host₁.out bytes ring (log.header host₁.mem).read.toNat .idle
    rw [hmem, hstored, hout]
    exact .idle haccounts

/-- Every step of the reader keeps the invariant. -/
theorem Invariant.read (h : Invariant log ring calm bytes s) (hlaid : log.Laid ring)
    (hroom : bytes.length ≤ (log.header s.host.mem).read.toNat + ring.toNat) :
    Invariant log ring calm bytes (s.move log .read) := by
  obtain ⟨host, reader⟩ := s
  rcases reader with _ | ⟨header, rpos⟩ | rpos
  · exact h.read_idle hlaid hroom
  · exact h.read_printing hlaid hroom
  · exact h.read_storing hlaid

end

/-- The invariant of all interleavings. -/
theorem invariant_after {log : Log} {ring : UInt32} (hlaid : log.Laid ring) {host : Host}
    (hfresh : log.header host.mem = ⟨ring, 0, 0⟩) (hout : host.out = []) (moves : List Move)
    (hroom : Room log ⟨host, .idle⟩ moves) (hlt : (written moves).length < 2 ^ 32) :
    Invariant log ring (Calm log ⟨host, .idle⟩ moves) (written moves)
      (System.after log ⟨host, .idle⟩ moves) := by
  induction moves with
  | nil =>
    have hread : (log.header host.mem).read.toNat = 0 := by rw [hfresh]; rfl
    refine ⟨?_, ?_⟩
    · show log.Represents ring ⟨[], (log.header host.mem).read.toNat⟩ host.mem
      rw [hread]
      exact Log.represents_fresh hfresh
    · show Progress _ host.out [] ring (log.header host.mem).read.toNat .idle
      rw [hread, hout]
      refine .idle ⟨fun _ ↦ rfl, fun hlost ↦ absurd (fun b earlier he ↦ ?_) hlost⟩
      exact absurd (List.suffix_nil.1 he) (List.cons_ne_nil _ _)
  | cons m moves ih =>
    have hroom' : Room log ⟨host, .idle⟩ moves :=
      fun earlier he ↦ hroom earlier (he.trans (List.suffix_cons _ _))
    cases m with
    | append b =>
      rw [written, List.length_append, List.length_singleton] at hlt
      have h := (ih hroom' (by omega)).append b hlt
      have hcalm : Calm log ⟨host, .idle⟩ (.append b :: moves) ↔ Calm log ⟨host, .idle⟩ moves
          ∧ ¬ (System.after log ⟨host, .idle⟩ moves).reader.Between := by
        rw [calm_cons]
        simp
      rw [hcalm]
      exact h
    | read =>
      have hinv := ih hroom' hlt
      have hunread := hroom moves (List.suffix_cons _ _)
      rw [unread, hinv.write_eq, hinv.represents.size] at hunread
      have h := hinv.read hlaid (by omega)
      have hcalm : Calm log ⟨host, .idle⟩ (.read :: moves) ↔ Calm log ⟨host, .idle⟩ moves := by
        rw [calm_cons]
        simp
      rw [hcalm]
      exact h

/-- **When reading and clearing loses nothing.**  In every interleaving in which the unread bytes
always have room in the ring, and whenever no run of `ethosu_logd -c` is under way: what has been
printed is what has been written up to `header.read`, exactly if no byte has ever been written
between `print`'s look at the header and `clear`'s. -/
theorem loses_nothing_iff {log : Log} {ring : UInt32} (hlaid : log.Laid ring) {host : Host}
    (hfresh : log.header host.mem = ⟨ring, 0, 0⟩) (hout : host.out = []) (moves : List Move)
    (hroom : Room log ⟨host, .idle⟩ moves) (hlt : (written moves).length < 2 ^ 32)
    (hidle : (System.after log ⟨host, .idle⟩ moves).reader = .idle) :
    (System.after log ⟨host, .idle⟩ moves).host.out
        = (written moves).take
          (log.header (System.after log ⟨host, .idle⟩ moves).host.mem).read.toNat
      ↔ Calm log ⟨host, .idle⟩ moves := by
  have hinv := invariant_after hlaid hfresh hout moves hroom hlt
  have hread := hinv.read_le
  have hprogress := hinv.progress
  rw [hidle] at hprogress
  cases hprogress with
  | idle haccounts =>
    refine ⟨fun heq ↦ ?_, haccounts.1⟩
    by_contra hlost
    have hshort := haccounts.2 hlost
    rw [heq, List.length_take] at hshort
    omega

/-- A run in which the firmware keeps its hands off between `print` and `clear`. -/
theorem loses_nothing_iff_calm :
    (System.after Log.freshLog ⟨Log.freshHost, .idle⟩ [.read, .append 105, .read, .read, .read,
        .append 72]).host.out
      = (written [.read, .append 105, .read, .read, .read, .append 72]).take
        (Log.freshLog.header (System.after Log.freshLog ⟨Log.freshHost, .idle⟩ [.read, .append 105,
          .read, .read, .read, .append 72]).host.mem).read.toNat
    ↔ Calm Log.freshLog ⟨Log.freshHost, .idle⟩ [.read, .append 105, .read, .read, .read,
      .append 72] := by
  have hroom : ∀ earlier ∈ List.tails [.read, .append 105, .read, .read, .read, .append 72],
      unread Log.freshLog (System.after Log.freshLog ⟨Log.freshHost, .idle⟩ earlier)
        ≤ (Log.freshLog.header
          (System.after Log.freshLog ⟨Log.freshHost, .idle⟩ earlier).host.mem).size.toNat := by
    decide +kernel
  have hidle : (System.after Log.freshLog ⟨Log.freshHost, .idle⟩ [.read, .append 105, .read, .read,
      .read, .append 72]).reader = .idle := by
    decide +kernel
  exact loses_nothing_iff Log.freshLog_laid (by decide) rfl _
    (fun earlier he ↦ hroom earlier ((List.mem_tails _ _).2 he)) (by decide) hidle

/-- Of two bytes, the second one written while the first one is being printed, the second one is
marked as read and has not been printed. -/
theorem loses_a_byte :
    ∃ moves, Room Log.freshLog ⟨Log.freshHost, .idle⟩ moves
      ∧ (written moves).length < 2 ^ 32
      ∧ (System.after Log.freshLog ⟨Log.freshHost, .idle⟩ moves).reader = .idle
      ∧ (System.after Log.freshLog ⟨Log.freshHost, .idle⟩ moves).host.out
        ≠ (written moves).take (Log.freshLog.header
          (System.after Log.freshLog ⟨Log.freshHost, .idle⟩ moves).host.mem).read.toNat := by
  refine ⟨[.read, .read, .read, .append 105, .read, .append 72], fun earlier he ↦ ?_, by decide,
    by decide +kernel, by decide +kernel⟩
  have hroom : ∀ earlier ∈ List.tails [.read, .read, .read, .append 105, .read, .append 72],
      unread Log.freshLog (System.after Log.freshLog ⟨Log.freshHost, .idle⟩ earlier)
        ≤ (Log.freshLog.header
          (System.after Log.freshLog ⟨Log.freshHost, .idle⟩ earlier).host.mem).size.toNat := by
    decide +kernel
  exact hroom earlier ((List.mem_tails _ _).2 he)

end EthosuLogd

end EthosU
