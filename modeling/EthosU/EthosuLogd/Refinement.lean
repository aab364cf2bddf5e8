import EthosU.EthosuLogd.DevMem

/-!
# The log as an unbounded log

What the ring is for: a log that never ends, of which `print` shows the latest bytes that have not
been cleared.

* `Record` is that log: every byte written so far, and how many there were at the last clear.
* `append` is the firmware's side of the ring, which is not part of the repository: a byte goes to
  the cell of its position and `header.write` is incremented.
* `Log.Represents` relates the memory to a `Record`.  Every operation keeps it
  (`represents_append`, `represents_clear`), so that all operations together do
  (`wp_performAll`).
* `Log.refines` is the result for all sequences of operations.
-/

set_option autoImplicit false

namespace EthosU

namespace EthosuLogd

open Wp Bytes

/-! ## The unbounded log -/

/-- The log the firmware writes, without any limit on what is remembered of it. -/
structure Record where
  written : List UInt8 := []
  /-- The number of bytes that had been written at the last clear. -/
  cleared : Nat := 0

namespace Record

def append (r : Record) (b : UInt8) : Record := { r with written := r.written ++ [b] }

def clear (r : Record) : Record := { r with cleared := r.written.length }

/-- The latest bytes since the last clear, but at most `size` of them. -/
def latest (r : Record) (size : Nat) : List UInt8 :=
  r.written.rtake (min size (r.written.length - r.cleared))

end Record

/-- The atomic operations on a log. -/
inductive Op
  | append (b : UInt8)
  | print
  | clear

/-- The log after an operation. -/
def Record.perform (r : Record) : Op → Record
  | .append b => r.append b
  | .print => r
  | .clear => r.clear

/-- What an operation prints. -/
def Record.printed (r : Record) (size : Nat) : Op → List UInt8
  | .append _ => []
  | .print => r.latest size
  | .clear => []

def Record.performAll (r : Record) (ops : List Op) : Record := ops.foldl Record.perform r

/-- What all operations print, in turn. -/
def Record.printedAll (r : Record) (size : Nat) : List Op → List UInt8
  | [] => []
  | op :: ops => r.printed size op ++ (r.perform op).printedAll size ops

theorem Record.length_le_performAll (r : Record) (ops : List Op) :
    r.written.length ≤ (r.performAll ops).written.length := by
  induction ops generalizing r with
  | nil => exact Nat.le_refl _
  | cons op ops ih =>
    refine Nat.le_trans ?_ (ih (r.perform op))
    cases op <;> simp [Record.perform, Record.append, Record.clear]

namespace Log

/-! ## The ring -/

/-- The firmware writes a byte to the log. -/
def append (log : Log) (b : UInt8) (mem : Memory) : Memory :=
  let header := log.header mem
  let mem := Function.update mem
    (log.first + LogHeader.sizeof + header.write.toNat % header.size.toNat) b
  storeWord mem (log.first + LogHeader.offsetofWrite) (header.write + 1)

def perform (log : Log) : Op → M Unit
  | .append b => modify fun host ↦ { host with mem := log.append b host.mem }
  | .print => log.print
  | .clear => log.clear

def performAll (log : Log) (ops : List Op) : M Unit := ops.forM log.perform

/-- The memory holds what fits of a log. -/
structure Represents (log : Log) (ring : UInt32) (r : Record) (mem : Memory) : Prop where
  size : (log.header mem).size = ring
  read : (log.header mem).read.toNat = r.cleared
  write : (log.header mem).write.toNat = r.written.length
  cells : Ring.Holds (log.cell mem) ring.toNat r.written
  cleared_le : r.cleared ≤ r.written.length

variable {log : Log} {ring : UInt32} {host : Host} {mem : Memory} {r : Record}
  {E : Exception → Host → Prop}

/-- A log to which nothing has been written. -/
theorem represents_fresh (h : log.header mem = ⟨ring, 0, 0⟩) : log.Represents ring {} mem :=
  ⟨by rw [h], by rw [h]; rfl, by rw [h]; rfl, Ring.Holds.nil, Nat.le_refl _⟩

private theorem offsets : LogHeader.offsetofSize = 0 ∧ LogHeader.offsetofRead = 4
    ∧ LogHeader.offsetofWrite = 32 ∧ LogHeader.sizeof = 36 := ⟨rfl, rfl, rfl, rfl⟩

/-- Writing a byte to the ring does not change the header. -/
theorem header_update (log : Log) (mem : Memory) (i : Nat) (b : UInt8) :
    log.header (Function.update mem (log.first + LogHeader.sizeof + i) b) = log.header mem := by
  obtain ⟨hsize, hread, hwrite, hsizeof⟩ := offsets
  simp only [header]
  rw [word_update_of_disjoint _ _ (by omega), word_update_of_disjoint _ _ (by omega),
    word_update_of_disjoint _ _ (by omega)]

theorem header_storeRead (log : Log) (mem : Memory) (v : UInt32) :
    log.header (storeWord mem (log.first + LogHeader.offsetofRead) v)
      = { log.header mem with read := v } := by
  obtain ⟨hsize, hread, hwrite, hsizeof⟩ := offsets
  simp only [header]
  rw [word_storeWord, word_storeWord_of_disjoint _ _ (by omega),
    word_storeWord_of_disjoint _ _ (by omega)]

theorem header_storeWrite (log : Log) (mem : Memory) (v : UInt32) :
    log.header (storeWord mem (log.first + LogHeader.offsetofWrite) v)
      = { log.header mem with write := v } := by
  obtain ⟨hsize, hread, hwrite, hsizeof⟩ := offsets
  simp only [header]
  rw [word_storeWord, word_storeWord_of_disjoint _ _ (by omega),
    word_storeWord_of_disjoint _ _ (by omega)]

/-- Writing a member of the header does not change the ring. -/
theorem cell_storeWord (log : Log) (mem : Memory) {offset : Nat} (v : UInt32) (i : Nat)
    (h : offset + 4 ≤ LogHeader.sizeof) :
    log.cell (storeWord mem (log.first + offset) v) i = log.cell mem i :=
  storeWord_frame _ _ (.inr (by omega))

/-- The firmware's step. -/
theorem represents_append (hrep : log.Represents ring r mem) (b : UInt8)
    (hlt : r.written.length + 1 < 2 ^ 32) :
    log.Represents ring (r.append b) (log.append b mem) := by
  have hheader : log.header (log.append b mem)
      = { log.header mem with write := (log.header mem).write + 1 } := by
    rw [append, header_storeWrite, header_update]
  have hcell : ∀ i, log.cell (log.append b mem) i
      = if i = r.written.length % ring.toNat then b else log.cell mem i := by
    intro i
    rw [append, cell_storeWord _ _ _ _ (by decide), cell, Function.update_apply, hrep.write,
      hrep.size]
    simp only [Nat.add_left_cancel_iff]
    rfl
  refine ⟨by rw [hheader, hrep.size], by rw [hheader]; exact hrep.read, ?_, ?_, ?_⟩
  · rw [hheader, UInt32.toNat_add, UInt32.toNat_one, hrep.write, Record.append, List.length_append]
    exact Nat.mod_eq_of_lt hlt
  · refine hrep.cells.write b ?_ fun i _ hne ↦ ?_
    · rw [hcell, if_pos rfl]
    · rw [hcell, if_neg hne]
  · rw [Record.append, List.length_append]
    exact Nat.le_add_right_of_le hrep.cleared_le

/-- The store of `clear`, for any position up to which the log may have been read. -/
theorem represents_writeRead (hrep : log.Represents ring r mem) {v : UInt32}
    (hv : v.toNat ≤ r.written.length) :
    log.Represents ring { r with cleared := v.toNat }
      (storeWord mem (log.first + LogHeader.offsetofRead) v) := by
  have hheader := header_storeRead log mem v
  refine ⟨by rw [hheader, hrep.size], by rw [hheader], by rw [hheader, hrep.write], ?_, hv⟩
  exact hrep.cells.congr fun i _ ↦ cell_storeWord _ _ _ _ (by decide)

theorem represents_clear (hrep : log.Represents ring r mem) :
    log.Represents ring r.clear
      (storeWord mem (log.first + LogHeader.offsetofRead) (log.header mem).write) := by
  have h := represents_writeRead hrep (v := (log.header mem).write) (Nat.le_of_eq hrep.write)
  rwa [hrep.write] at h

/-! ## The operations -/

/-- What is printed is the end of the log. -/
theorem wp_print_latest (h : log.Laid ring) (hrep : log.Represents ring r host.mem) :
    wp log.print (fun _ host' ↦ Reads log (r.latest ring.toNat) host host') E host := by
  refine wp_mono (wp_print h hrep.size) (fun _ host' hprint ↦ ?_) (fun _ _ he ↦ he)
  rw [hrep.read, hrep.write, hrep.cells.latest hrep.cleared_le] at hprint
  exact hprint

/-- Every operation prints what it should, leaves the log as it should and stays in the window. -/
theorem wp_perform (h : log.Laid ring) (hrep : log.Represents ring r host.mem) (op : Op)
    (hlt : (r.perform op).written.length < 2 ^ 32) :
    wp (log.perform op) (fun _ host' ↦ log.Represents ring (r.perform op) host'.mem
      ∧ host'.out = host.out ++ r.printed ring.toNat op
      ∧ log.StaysInside host host') E host := by
  cases op with
  | append b =>
    rw [Record.perform, Record.append, List.length_append] at hlt
    exact ⟨represents_append hrep b hlt, (List.append_nil _).symm, .refl log _⟩
  | print =>
    refine wp_mono (wp_print_latest h hrep) (fun _ host' hprint ↦ ?_) (fun _ _ he ↦ he)
    exact ⟨by rw [hprint.mem]; exact hrep, hprint.out, hprint.inside⟩
  | clear =>
    refine wp_mono (wp_clear h) (fun _ host' hclear ↦ ?_) (fun _ _ he ↦ he)
    obtain ⟨hmem, hout, hinside⟩ := hclear
    exact ⟨by rw [hmem]; exact represents_clear hrep,
      by rw [hout, Record.printed, List.append_nil], hinside⟩

theorem wp_performAll (h : log.Laid ring) (hrep : log.Represents ring r host.mem) (ops : List Op)
    (hlt : (r.performAll ops).written.length < 2 ^ 32) :
    wp (log.performAll ops) (fun _ host' ↦ log.Represents ring (r.performAll ops) host'.mem
      ∧ host'.out = host.out ++ r.printedAll ring.toNat ops
      ∧ log.StaysInside host host') E host := by
  induction ops generalizing r host with
  | nil => exact ⟨hrep, (List.append_nil _).symm, .refl log _⟩
  | cons op ops ih =>
    have hstep : (r.perform op).written.length < 2 ^ 32 :=
      Nat.lt_of_le_of_lt ((r.perform op).length_le_performAll ops) hlt
    rw [performAll, List.forM, wp_bind]
    refine wp_mono (wp_perform h hrep op hstep) (fun _ host₁ h₁ ↦ ?_) (fun _ _ he ↦ he)
    obtain ⟨hrep₁, hout₁, hinside₁⟩ := h₁
    refine wp_mono (ih hrep₁ hlt) (fun _ host₂ h₂ ↦ ?_) (fun _ _ he ↦ he)
    obtain ⟨hrep₂, hout₂, hinside₂⟩ := h₂
    refine ⟨hrep₂, ?_, hinside₁.trans hinside₂⟩
    rw [hout₂, hout₁, Record.printedAll, List.append_assoc]

/-- **The ring is an unbounded log.**  Whatever has been appended, printed and cleared: nothing has
been thrown, nothing outside the window has been touched, and what was printed is what the unbounded
log says.  A further `print` prints the end of the log, and changes nothing; a further `clear` sets
`header.read` to the number of bytes written, and changes nothing else. -/
theorem refines (h : log.Laid ring) (hfresh : log.header host.mem = ⟨ring, 0, 0⟩) (ops : List Op)
    (hlt : (Record.performAll {} ops).written.length < 2 ^ 32) :
    ∃ host', log.performAll ops host = .ok () host'
      ∧ host'.out = host.out ++ Record.printedAll {} ring.toNat ops
      ∧ log.StaysInside host host'
      ∧ (∃ printed, log.print host' = .ok () printed
        ∧ printed.mem = host'.mem
        ∧ printed.out = host'.out ++ (Record.performAll {} ops).latest ring.toNat
        ∧ log.StaysInside host' printed)
      ∧ ∃ cleared, log.clear host' = .ok () cleared
        ∧ cleared.out = host'.out
        ∧ (log.header cleared.mem).read.toNat = (Record.performAll {} ops).written.length
        ∧ (∀ a, cleared.mem a ≠ host'.mem a → log.first + LogHeader.offsetofRead ≤ a
          ∧ a < log.first + LogHeader.offsetofRead + 4)
        ∧ log.StaysInside host' cleared := by
  obtain ⟨_, host', hperform, hrep, hout, hinside⟩ :=
    exists_of_wp (wp_performAll h (represents_fresh hfresh) ops hlt)
  refine ⟨host', hperform, hout, hinside, ?_, ?_⟩
  · obtain ⟨_, printed, hprint, hreads⟩ := exists_of_wp (wp_print_latest h hrep)
    exact ⟨printed, hprint, hreads.mem, hreads.out, hreads.inside⟩
  · obtain ⟨_, cleared, hclear, hmem, hout, hinside⟩ := exists_of_wp (wp_clear h)
    refine ⟨cleared, hclear, hout, ?_, fun a ha ↦ ?_, hinside⟩
    · rw [hmem]
      exact (represents_clear hrep).read
    · rw [hmem] at ha
      by_contra hout
      exact ha (storeWord_frame _ _ (by omega))

/-- A memory of zeros but for the size of a ring of 1025 bytes, at address 64. -/
def freshHost : Host := { mem := storeWord (fun _ ↦ 0) 64 1025 }

/-- The window on that ring, which starts in the middle of a page. -/
def freshLog : Log := { base := 0, pageOffset := 64, size := 1061 }

theorem freshLog_laid : freshLog.Laid 1025 :=
  ⟨by decide, by decide, by decide, (by decide : 64 + 1061 < 2 ^ 64)⟩

theorem refines_freshHost :
    ∃ host', freshLog.performAll [.append 72, .print, .clear, .append 105] freshHost = .ok () host'
      ∧ host'.out = freshHost.out
        ++ Record.printedAll {} (1025 : UInt32).toNat [.append 72, .print, .clear, .append 105]
      ∧ freshLog.StaysInside freshHost host'
      ∧ (∃ printed, freshLog.print host' = .ok () printed
        ∧ printed.mem = host'.mem
        ∧ printed.out = host'.out
          ++ (Record.performAll {} [.append 72, .print, .clear, .append 105]).latest
            (1025 : UInt32).toNat
        ∧ freshLog.StaysInside host' printed)
      ∧ ∃ cleared, freshLog.clear host' = .ok () cleared
        ∧ cleared.out = host'.out
        ∧ (freshLog.header cleared.mem).read.toNat
          = (Record.performAll {} [.append 72, .print, .clear, .append 105]).written.length
        ∧ (∀ a, cleared.mem a ≠ host'.mem a → freshLog.first + LogHeader.offsetofRead ≤ a
          ∧ a < freshLog.first + LogHeader.offsetofRead + 4)
        ∧ freshLog.StaysInside host' cleared :=
  refines freshLog_laid (by decide) [.append 72, .print, .clear, .append 105] (by decide)

end Log

end EthosuLogd

end EthosU
