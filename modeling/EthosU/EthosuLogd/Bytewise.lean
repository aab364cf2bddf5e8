import EthosU.EthosuLogd.ReadAndClear
import EthosU.Lib.Script

/-!
# Byte by byte

`DevMem::read` and `DevMem::write` copy one byte after the other, from and to a memory that is not
theirs alone.  The header that `print` finds may be a mixture of an old and a new one, and the
counters in it anything at all.

* `Bytewise.main` is the program as a `Script`, in which every byte is an access of its own.  Nobody
  getting in between, it does what `main` does (`agrees_main`).
* `Bytewise.within_main` bounds what it does if somebody does.  `print` checks the copy of the
  header that it goes on to use, so that what it reads once more are only the bytes of the ring.
* `Bytewise.contained` is what follows for any number of runs, next to firmware that may store
  anything anywhere at any time.
-/

set_option autoImplicit false

namespace EthosU

namespace EthosuLogd

open Bytes

/-- Programs in which every access to a byte of the memory counts. -/
abbrev Bytewise := Script Nat UInt8 UInt8 Exception

namespace Bytewise

/-! ## The program -/

def read (d : DevMem) (length offset : UInt64) : Bytewise (List UInt8) :=
  if offset + length > d.size then .throw ⟨"Read failed"⟩
  else .loadAll ((List.range length.toNat).map (d.position offset))

def write (d : DevMem) (src : List UInt8) (offset : UInt64) : Bytewise Unit :=
  if offset + .ofNat src.length > d.size then .throw ⟨"Write failed"⟩
  else .storeAll (((List.range src.length).map (d.position offset)).zip src)

def readHeader (log : Log) : Bytewise LogHeader := do
  let bytes ← read log.toDevMem (.ofNat LogHeader.sizeof) 0
  pure (LogHeader.ofBytes bytes)

def writeRead (log : Log) (rpos : UInt32) : Bytewise Unit :=
  write log.toDevMem (encode 4 rpos.toNat) (.ofNat LogHeader.offsetofRead)

def clear (log : Log) : Bytewise Unit := do
  let header ← readHeader log
  writeRead log header.write

def start (header : LogHeader) : Bytewise UInt64 :=
  if header.size.toUInt64 < Log.logSizeMin ∨ header.size.toUInt64 > Log.logSizeMax then
    .throw ⟨"Incorrect ring buffer values. size=" ++ toString header.size ++ ", read="
      ++ toString header.read ++ ", write=" ++ toString header.write⟩
  else if header.read.toUInt64 + header.size.toUInt64 < header.write.toUInt64 then
    pure (header.write - header.size).toUInt64
  else
    pure header.read.toUInt64

def printChar (log : Log) (header : LogHeader) (rpos : UInt64) : Bytewise Unit := do
  let bytes ← read log.toDevMem 1 (rpos % header.size.toUInt64 + .ofNat LogHeader.sizeof)
  Script.emitAll bytes

def printFrom (log : Log) (header : LogHeader) (rpos : UInt64) : Bytewise Unit :=
  if h : rpos < header.write.toUInt64 then do
    printChar log header rpos
    printFrom log header (rpos + 1)
  else
    pure ()
termination_by header.write.toNat - rpos.toNat
decreasing_by
  have hlt := Narrow.lt_toUInt64.1 h
  rw [Narrow.toNat_succ hlt]
  omega

def print (log : Log) : Bytewise Unit := do
  let header ← readHeader log
  let rpos ← start header
  printFrom log header rpos

def main (log : Log) (clearBefore clearAfter : Bool) : Bytewise Unit := do
  if clearBefore then
    clear log
  print log
  if clearAfter then
    clear log

/-! ## Nobody in between -/

section

variable {α β : Type}

/-- How a program ends, and the memory and the output it leaves behind. -/
def outcome (x : M α) (host : Host) : Except Exception α × Memory × List UInt8 :=
  match x host with
  | .ok a host' => (.ok a, host'.mem, host'.out)
  | .error e host' => (.error e, host'.mem, host'.out)

/-- The two programs do the same. -/
def Agrees (x : M α) (s : Bytewise α) : Prop :=
  ∀ host, s.alone host.mem host.out = outcome x host

theorem agrees_pure (a : α) : Agrees (pure a) (pure a) := fun _ ↦ rfl

theorem agrees_throw (e : Exception) : Agrees (α := α) (throw e) (.throw e) := fun _ ↦ rfl

theorem Agrees.bind {x : M α} {s : Bytewise α} {f : α → M β} {g : α → Bytewise β}
    (h : Agrees x s) (hf : ∀ a, Agrees (f a) (g a)) : Agrees (x >>= f) (s >>= g) := by
  intro host
  have hhost := h host
  rw [Script.alone_bind, hhost]
  simp only [outcome, Bind.bind, EStateM.bind]
  cases x host with
  | ok a host' => exact hf a host'
  | error e host' => rfl

theorem Agrees.ite {c : Prop} [Decidable c] {x y : M α} {s t : Bytewise α} (hx : Agrees x s)
    (hy : Agrees y t) : Agrees (if c then x else y) (if c then s else t) := by
  by_cases hc : c
  · rwa [if_pos hc, if_pos hc]
  · rwa [if_neg hc, if_neg hc]

end

theorem agrees_read (d : DevMem) (length offset : UInt64) :
    Agrees (d.read length offset) (read d length offset) := by
  refine Agrees.ite (agrees_throw _) fun host ↦ ?_
  rw [Script.alone_loadAll, List.map_map]
  rfl

/-- A loop that stores one byte after the other. -/
theorem foldl_zip_range (mem : Memory) (position : Nat → Nat) (src : List UInt8) :
    (((List.range src.length).map position).zip src).foldl
      (fun mem s ↦ Function.update mem s.1 s.2) mem = scatter mem position src := by
  induction src generalizing mem position with
  | nil => rfl
  | cons b src ih =>
    rw [List.length_cons, List.range_succ_eq_map, List.map_cons, List.map_map, List.zip_cons_cons,
      List.foldl_cons, scatter]
    exact ih _ _

theorem agrees_write (d : DevMem) (src : List UInt8) (offset : UInt64) :
    Agrees (d.write src offset) (write d src offset) := by
  refine Agrees.ite (agrees_throw _) fun host ↦ ?_
  rw [Script.alone_storeAll, foldl_zip_range]
  rfl

theorem agrees_readHeader (log : Log) : Agrees log.readHeader (readHeader log) :=
  (agrees_read _ _ _).bind fun _ ↦ agrees_pure _

theorem agrees_clear (log : Log) : Agrees log.clear (clear log) :=
  (agrees_readHeader log).bind fun _ ↦ agrees_write _ _ _

theorem agrees_start (header : LogHeader) : Agrees (Log.start header) (start header) :=
  .ite (agrees_throw _) (.ite (agrees_pure _) (agrees_pure _))

theorem agrees_printChar (log : Log) (header : LogHeader) (rpos : UInt64) :
    Agrees (log.printChar header rpos) (printChar log header rpos) :=
  (agrees_read _ _ _).bind fun bytes host ↦ Script.alone_emitAll bytes host.mem host.out

theorem agrees_printFrom (log : Log) (header : LogHeader) (rpos : UInt64) :
    Agrees (log.printFrom header rpos) (printFrom log header rpos) := by
  fun_induction log.printFrom header rpos with
  | case1 rpos hmore ih =>
    rw [printFrom, dif_pos hmore]
    exact (agrees_printChar log header rpos).bind fun _ ↦ ih
  | case2 rpos hdone =>
    rw [printFrom, dif_neg hdone]
    exact agrees_pure ()

theorem agrees_print (log : Log) : Agrees log.print (print log) :=
  (agrees_readHeader log).bind fun header ↦ (agrees_start header).bind fun rpos ↦
    agrees_printFrom log header rpos

/-- Nobody getting in between, the program does what `main` does. -/
theorem agrees_main (log : Log) (clearBefore clearAfter : Bool) :
    Agrees (EthosuLogd.main log clearBefore clearAfter) (main log clearBefore clearAfter) := by
  have hafter : Agrees (if clearAfter = true then log.clear else pure ())
      (if clearAfter = true then clear log else pure ()) :=
    .ite (agrees_clear log) (agrees_pure ())
  have hrest := (agrees_print log).bind fun _ ↦ hafter
  exact .ite ((agrees_clear log).bind fun _ ↦ hrest) hrest

/-! ## Anybody in between -/

section

variable {log : Log}

/-- The bytes of `header.read`, as far as the window has them. -/
def InReadCounter (log : Log) (a : Nat) : Prop :=
  log.InWindow a ∧ log.first + LogHeader.offsetofRead ≤ a
    ∧ a < log.first + LogHeader.offsetofRead + 4

/-- A bound on what the program does to a log. -/
abbrev Bounded {α : Type} (log : Log) (returns : α → Prop) (n m : Nat) (s : Bytewise α) : Prop :=
  Script.Within log.InWindow (InReadCounter log) returns n m s

/-- The check of an access that does not wrap around. -/
theorem fits_of_check {length offset : UInt64} (hwrap : offset.toNat + length.toNat < 2 ^ 64)
    (h : ¬ offset + length > log.size) : offset.toNat + length.toNat ≤ log.size.toNat := by
  rw [gt_iff_lt, UInt64.lt_iff_toNat_lt, UInt64.toNat_add, Nat.mod_eq_of_lt hwrap] at h
  omega

theorem within_read (hmapped : log.Mapped) (length offset : UInt64)
    (hwrap : offset.toNat + length.toNat < 2 ^ 64) :
    Bounded log (fun bytes ↦ bytes.length = length.toNat) length.toNat 0
      (read log.toDevMem length offset) := by
  rw [read]
  split
  · exact .throw
  · rename_i hcheck
    have hfits := fits_of_check hwrap hcheck
    have hplaces : ∀ a ∈ (List.range length.toNat).map (log.position offset), log.InWindow a := by
      intro a ha
      obtain ⟨i, hi, rfl⟩ := List.mem_map.1 ha
      have hlt := List.mem_range.1 hi
      rw [position_eq hmapped (by omega)]
      exact ⟨by omega, by omega⟩
    have hloads := Script.within_loadAll (V := UInt8) (O := UInt8) (E := Exception) log.InWindow
      (InReadCounter log) hplaces
    rwa [List.length_map, List.length_range] at hloads

theorem within_readHeader (hmapped : log.Mapped) :
    Bounded log (fun _ ↦ True) LogHeader.sizeof 0 (readHeader log) := by
  have hdecode : ∀ bytes : List UInt8, bytes.length = LogHeader.sizeof →
      Bounded log (fun _ ↦ True) 0 0 (pure (LogHeader.ofBytes bytes)) :=
    fun _ _ ↦ .pure trivial
  exact (within_read hmapped (.ofNat LogHeader.sizeof) 0 (by decide)).bind hdecode

theorem within_writeRead (hmapped : log.Mapped) (rpos : UInt32) :
    Bounded log (fun _ ↦ True) 4 0 (writeRead log rpos) := by
  rw [writeRead, write, length_encode]
  split
  · exact .throw
  · rename_i hcheck
    have hfits := fits_of_check (by decide) hcheck
    have hoffset : (UInt64.ofNat LogHeader.offsetofRead).toNat = LogHeader.offsetofRead := by decide
    have hfour : (UInt64.ofNat 4).toNat = 4 := by decide
    rw [hoffset, hfour] at hfits
    have hplaces : ∀ s ∈ ((List.range 4).map
        (log.position (.ofNat LogHeader.offsetofRead))).zip (encode 4 rpos.toNat),
        InReadCounter log s.1 := by
      intro s hs
      obtain ⟨i, hi, heq⟩ := List.mem_map.1 (List.of_mem_zip (b := s.2) hs).1
      have hlt := List.mem_range.1 hi
      rw [position_eq hmapped (by rw [hoffset]; omega), hoffset] at heq
      exact ⟨⟨by omega, by omega⟩, by omega, by omega⟩
    have hstores := Script.within_storeAll (O := UInt8) (E := Exception) log.InWindow
      (InReadCounter log) hplaces
    rwa [List.length_zip, List.length_map, List.length_range, length_encode] at hstores

theorem within_clear (hmapped : log.Mapped) :
    Bounded log (fun _ ↦ True) (LogHeader.sizeof + 4) 0 (clear log) :=
  (within_readHeader hmapped).bind fun _ _ ↦ within_writeRead hmapped _

/-- The largest number of bytes that `print` prints. -/
def printMax : Nat := Log.logSizeMax.toNat

/-- What the check of the header is good for. -/
structure Accepted (header : LogHeader) (rpos : UInt64) : Prop where
  min : Log.logSizeMin.toNat ≤ header.size.toNat
  pending : header.write.toNat - rpos.toNat ≤ printMax

theorem within_start (header : LogHeader) : Bounded log (Accepted header) 0 0 (start header) := by
  have hread := header.read.toNat_lt
  have hwrite := header.write.toNat_lt
  have hsize := header.size.toNat_lt
  have hsum : (header.read.toUInt64 + header.size.toUInt64).toNat
      = header.read.toNat + header.size.toNat := by
    rw [UInt64.toNat_add, UInt32.toNat_toUInt64, UInt32.toNat_toUInt64]
    exact Nat.mod_eq_of_lt (by omega)
  rw [start]
  split
  · exact .throw
  · rename_i hok
    rw [not_or, gt_iff_lt, UInt64.lt_iff_toNat_lt, UInt64.lt_iff_toNat_lt, UInt32.toNat_toUInt64]
      at hok
    obtain ⟨hmin, hmax⟩ := hok
    split
    · rename_i hbehind
      rw [UInt64.lt_iff_toNat_lt, hsum, UInt32.toNat_toUInt64] at hbehind
      refine .pure ⟨by omega, ?_⟩
      rw [UInt32.toNat_toUInt64, UInt32.toNat_sub_of_le _ _ (UInt32.le_iff_toNat_le.2 (by omega)),
        printMax]
      omega
    · rename_i hnear
      rw [UInt64.lt_iff_toNat_lt, hsum, UInt32.toNat_toUInt64] at hnear
      refine .pure ⟨by omega, ?_⟩
      rw [UInt32.toNat_toUInt64, printMax]
      omega

theorem within_printChar (hmapped : log.Mapped) {header : LogHeader}
    (hmin : Log.logSizeMin.toNat ≤ header.size.toNat) (rpos : UInt64) :
    Bounded log (fun _ ↦ True) 2 1 (printChar log header rpos) := by
  have hpos : 0 < header.size.toNat := Nat.lt_of_lt_of_le (by decide) hmin
  have hmod := Nat.mod_lt rpos.toNat hpos
  have hsize := header.size.toNat_lt
  have hsizeof : (UInt64.ofNat LogHeader.sizeof).toNat = 36 := rfl
  have hoffset : (rpos % header.size.toUInt64 + .ofNat LogHeader.sizeof).toNat
      = rpos.toNat % header.size.toNat + 36 := by
    rw [UInt64.toNat_add, UInt64.toNat_mod, UInt32.toNat_toUInt64, hsizeof]
    exact Nat.mod_eq_of_lt (by omega)
  have hread := within_read hmapped 1 (rpos % header.size.toUInt64 + .ofNat LogHeader.sizeof)
    (by rw [hoffset, UInt64.toNat_one]; omega)
  have hemit : ∀ bytes : List UInt8, bytes.length = (1 : UInt64).toNat →
      Bounded log (fun _ ↦ True) 1 1 (Script.emitAll bytes) := by
    intro bytes hbytes
    have hbounds := Script.within_emitAll (V := UInt8) (E := Exception) log.InWindow
      (InReadCounter log) bytes
    rwa [hbytes, UInt64.toNat_one] at hbounds
  exact hread.bind hemit

/-- Every pass of the loop reads a byte and prints it. -/
theorem within_printFrom (hmapped : log.Mapped) {header : LogHeader}
    (hmin : Log.logSizeMin.toNat ≤ header.size.toNat) {n : Nat} {rpos : UInt64}
    (hn : header.write.toNat - rpos.toNat = n) :
    Bounded log (fun _ ↦ True) (2 * n) n (printFrom log header rpos) := by
  induction n generalizing rpos with
  | zero =>
    have hdone : ¬ rpos < header.write.toUInt64 := by
      rw [Narrow.lt_toUInt64]
      omega
    rw [printFrom, dif_neg hdone]
    exact .pure trivial
  | succ n ih =>
    have hlt : rpos.toNat < header.write.toNat := by omega
    have hmore : rpos < header.write.toUInt64 := Narrow.lt_toUInt64.2 hlt
    have hnext := Narrow.toNat_succ hlt
    rw [printFrom, dif_pos hmore, Nat.mul_succ, Nat.add_comm (2 * n), Nat.add_comm n]
    exact (within_printChar hmapped hmin rpos).bind fun _ _ ↦ ih (by rw [hnext]; omega)

theorem within_print (hmapped : log.Mapped) :
    Bounded log (fun _ ↦ True) (LogHeader.sizeof + 2 * printMax) printMax (print log) := by
  have hprintFrom : ∀ (header : LogHeader) (rpos : UInt64), Accepted header rpos →
      Bounded log (fun _ ↦ True) (2 * printMax) printMax (printFrom log header rpos) :=
    fun header rpos haccepted ↦ (within_printFrom hmapped haccepted.min rfl).mono
      (Nat.mul_le_mul_left 2 haccepted.pending) haccepted.pending
  have hrest := (within_readHeader hmapped).bind fun header _ ↦
    (within_start header).bind (hprintFrom header)
  exact hrest.mono (by rw [Nat.zero_add]) (by rw [Nat.zero_add, Nat.zero_add])

/-- The largest number of steps: two headers are read and marked, one is read and printed after. -/
def stepsMax : Nat :=
  (LogHeader.sizeof + 4) + ((LogHeader.sizeof + 2 * printMax) + (LogHeader.sizeof + 4))

theorem within_main (hmapped : log.Mapped) (clearBefore clearAfter : Bool) :
    Bounded log (fun _ ↦ True) stepsMax printMax (main log clearBefore clearAfter) := by
  have hafter : Bounded log (fun _ ↦ True) (LogHeader.sizeof + 4) 0
      (if clearAfter then clear log else pure ()) := by
    cases clearAfter
    · exact .pure trivial
    · exact within_clear hmapped
  have hrest := (within_print hmapped).bind fun _ _ ↦ hafter
  cases clearBefore
  · exact hrest.mono (Nat.le_add_left _ _) (Nat.le_refl _)
  · exact ((within_clear hmapped).bind fun _ _ ↦ hrest).mono (Nat.le_refl _)
      (Nat.le_of_eq (Nat.zero_add _))

end

/-- **Whatever happens to the log meanwhile.**  Next to any number of runs, and to firmware that
stores any byte anywhere between any two accesses to a byte: a run leaves neither its window nor the
four bytes of `header.read` when it stores, prints no more than the largest ring has, and is over
after a fixed number of steps of its own.  Left alone it does what `main` does. -/
theorem contained {I : Type} [DecidableEq I] {log : Log} (hmapped : log.Mapped)
    (options : I → Bool × Bool) (mem : Memory) (moves : List (Interference.Move I (Nat × UInt8))) :
    (∀ i, Agrees (EthosuLogd.main log (options i).1 (options i).2)
        (main log (options i).1 (options i).2))
      ∧ (∀ a, ¬ InReadCounter log a →
        (Script.after (fun i ↦ main log (options i).1 (options i).2) mem moves).shared.mem a
          = Script.worldStores moves mem a)
      ∧ ∀ i, (∀ a ∈ ((Script.after (fun i ↦ main log (options i).1 (options i).2) mem
          moves).locals i).touched, log.InWindow a)
        ∧ ((Script.after (fun i ↦ main log (options i).1 (options i).2) mem
          moves).locals i).out.length ≤ printMax
        ∧ (stepsMax ≤ Interference.steps i moves →
          Script.Over ((Script.after (fun i ↦ main log (options i).1 (options i).2) mem
            moves).locals i).rest) := by
  obtain ⟨hframe, hruns⟩ := Script.within_after
    (fun i ↦ within_main hmapped (options i).1 (options i).2) mem moves
  refine ⟨fun i ↦ agrees_main log _ _, hframe, fun i ↦ ?_⟩
  obtain ⟨htouched, hout, hover⟩ := hruns i
  exact ⟨fun a ha ↦ (htouched a ha).elim id And.left, hout, hover⟩

/-- Two runs, and firmware that changes the size of the ring while one of them reads it. -/
theorem contained_two :
    (∀ a, ¬ InReadCounter Log.freshLog a →
      (Script.after (fun i : Fin 2 ↦ main Log.freshLog (decide (i = 1)) true) Log.freshHost.mem
        [.thread 0, .world (65, 255), .thread 1, .thread 0, .world (64, 0),
          .thread 0]).shared.mem a
        = Script.worldStores [.thread 0, .world (65, 255), .thread 1, .thread 0, .world (64, 0),
          .thread (0 : Fin 2)] Log.freshHost.mem a)
      ∧ ∀ i, ∀ a ∈ ((Script.after (fun i : Fin 2 ↦ main Log.freshLog (decide (i = 1)) true)
        Log.freshHost.mem [.thread 0, .world (65, 255), .thread 1, .thread 0, .world (64, 0),
          .thread 0]).locals i).touched, Log.freshLog.InWindow a := by
  obtain ⟨-, hframe, hruns⟩ := contained Log.freshLog_laid.mapped
    (fun i : Fin 2 ↦ (decide (i = 1), true)) Log.freshHost.mem [.thread 0, .world (65, 255),
      .thread 1, .thread 0, .world (64, 0), .thread 0]
  exact ⟨hframe, fun i ↦ (hruns i).1⟩

end Bytewise

end EthosuLogd

end EthosU
