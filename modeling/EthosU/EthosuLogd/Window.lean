import EthosU.EthosuLogd.ReadAndClear

/-!
# Windows with room for the log

What `main` does with a window depends on the size of the window only as far as the accesses are
checked against it.  This file goes from the windows of `Log.Laid`, in which the log is all there
is, to windows of any size with room for it, and from there to what `main` does in all states of the
memory.

* `Log.resize` changes the size of a window.  `read_resize`, `write_resize` and what follows from
  them say that this makes no difference to accesses that are in both windows.
* `Log.RingSized` is what `print` checks, `Log.pending` what it prints, and `Log.marked` the memory
  after `clear`.
* `wp_main`, `wp_main_clearBefore` and `wp_main_of_not` are the specification of `main`.
-/

set_option autoImplicit false

namespace EthosU

namespace EthosuLogd

open Wp Bytes

namespace Log

/-! ## Windows of different sizes -/

/-- The window with another size. -/
def resize (log : Log) (n : UInt64) : Log := { log with size := n }

variable {log : Log} {n : UInt64} {header : LogHeader} {host : Host} {E : Exception → Host → Prop}

/-- What is in both windows is read the same way. -/
theorem read_resize {length offset : UInt64} (h : offset.toNat + length.toNat ≤ log.size.toNat)
    (h' : offset.toNat + length.toNat ≤ n.toNat) :
    (log.resize n).read length offset = log.read length offset := by
  have hfits : ¬ offset + length > (log.resize n).size := add_le_of_fits h'
  rw [DevMem.read, DevMem.read, if_neg hfits, if_neg (add_le_of_fits h)]
  rfl

theorem write_resize {src : List UInt8} {offset : UInt64}
    (h : offset.toNat + (UInt64.ofNat src.length).toNat ≤ log.size.toNat)
    (h' : offset.toNat + (UInt64.ofNat src.length).toNat ≤ n.toNat) :
    (log.resize n).write src offset = log.write src offset := by
  have hfits : ¬ offset + .ofNat src.length > (log.resize n).size := add_le_of_fits h'
  rw [DevMem.write, DevMem.write, if_neg hfits, if_neg (add_le_of_fits h)]
  rfl

theorem readHeader_resize (h : LogHeader.sizeof ≤ log.size.toNat)
    (h' : LogHeader.sizeof ≤ n.toNat) : (log.resize n).readHeader = log.readHeader := by
  have hzero : (0 : UInt64).toNat + (UInt64.ofNat LogHeader.sizeof).toNat = LogHeader.sizeof := rfl
  rw [readHeader, readHeader, read_resize (by rwa [hzero]) (by rwa [hzero])]

theorem clear_resize (h : LogHeader.sizeof ≤ log.size.toNat)
    (h' : LogHeader.sizeof ≤ n.toNat) : (log.resize n).clear = log.clear := by
  have hread : ∀ rpos : UInt32, (UInt64.ofNat LogHeader.offsetofRead).toNat
      + (UInt64.ofNat (encode 4 rpos.toNat).length).toNat ≤ LogHeader.sizeof := by
    intro rpos
    rw [length_encode]
    decide
  rw [clear, clear, readHeader_resize h h']
  refine congrArg _ (funext fun header ↦ ?_)
  exact write_resize ((hread _).trans h) ((hread _).trans h')

theorem printFrom_resize (hpos : 0 < header.size.toNat)
    (h : LogHeader.sizeof + header.size.toNat ≤ log.size.toNat)
    (h' : LogHeader.sizeof + header.size.toNat ≤ n.toNat) (rpos : UInt64) :
    (log.resize n).printFrom header rpos = log.printFrom header rpos := by
  have hchar : ∀ rpos, (log.resize n).printChar header rpos = log.printChar header rpos := by
    intro rpos
    have hmod := Nat.mod_lt rpos.toNat hpos
    have hsize := header.size.toNat_lt
    have hlayout : LogHeader.sizeof = 36 := rfl
    have hoffset : (rpos % header.size.toUInt64 + .ofNat LogHeader.sizeof).toNat
        = rpos.toNat % header.size.toNat + LogHeader.sizeof := by
      rw [UInt64.toNat_add, UInt64.toNat_mod, UInt32.toNat_toUInt64]
      exact Nat.mod_eq_of_lt (by simp; omega)
    rw [printChar, printChar, read_resize (by rw [hoffset, UInt64.toNat_one]; omega)
      (by rw [hoffset, UInt64.toNat_one]; omega)]
  fun_induction log.printFrom header rpos with
  | case1 rpos hmore ih =>
    rw [printFrom, dif_pos hmore, hchar, ih]
  | case2 rpos hdone =>
    rw [printFrom, dif_neg hdone]

/-! ## What `main` does with a window -/

/-- `print` accepts the size of the ring. -/
def RingSized (log : Log) (mem : Memory) : Prop :=
  logSizeMin.toNat ≤ (log.header mem).size.toNat ∧ (log.header mem).size.toNat ≤ logSizeMax.toNat

/-- The bytes that have not been read, as far as the ring still has them. -/
def pending (log : Log) (mem : Memory) : List UInt8 :=
  let header := log.header mem
  let first := max header.read.toNat (header.write.toNat - header.size.toNat)
  Ring.range (log.cell mem) header.size.toNat first (header.write.toNat - first)

/-- The memory after everything has been marked as read. -/
def marked (log : Log) (mem : Memory) : Memory :=
  storeWord mem (log.first + LogHeader.offsetofRead) (log.header mem).write

/-- The window has room for the header, and for the ring if `print` accepts its size. -/
structure HasRoom (log : Log) (mem : Memory) : Prop where
  header : LogHeader.sizeof ≤ log.size.toNat
  ring : log.RingSized mem → LogHeader.sizeof + (log.header mem).size.toNat ≤ log.size.toNat

theorem pending_resize (mem : Memory) : (log.resize n).pending mem = log.pending mem := by
  rw [pending, pending]
  rfl

/-- A window that ends where the ring ends. -/
theorem laid_resize (hoffset : log.pageOffset.toNat < 2 ^ 63) {ring : UInt32}
    (hmin : logSizeMin.toNat ≤ ring.toNat) (hmax : ring.toNat ≤ logSizeMax.toNat) :
    (log.resize (.ofNat (LogHeader.sizeof + ring.toNat))).Laid ring := by
  have hlimit : logSizeMax.toNat = 1048576 := rfl
  have hlayout : LogHeader.sizeof = 36 := rfl
  have hsize : (UInt64.ofNat (LogHeader.sizeof + ring.toNat)).toNat
      = LogHeader.sizeof + ring.toNat := Nat.mod_eq_of_lt (by omega)
  refine ⟨hmin, hmax, Nat.le_of_eq hsize.symm, ?_⟩
  show log.pageOffset.toNat + (UInt64.ofNat (LogHeader.sizeof + ring.toNat)).toNat < 2 ^ 64
  omega

theorem pending_marked (log : Log) (mem : Memory) : log.pending (log.marked mem) = [] := by
  rw [pending, marked, header_storeRead]
  have hnone : (log.header mem).write.toNat
      - max (log.header mem).write.toNat
        ((log.header mem).write.toNat - (log.header mem).size.toNat) = 0 := by omega
  dsimp only
  rw [hnone]
  rfl

/-- Marking as read changes the memory, if anything is pending. -/
theorem marked_ne {mem : Memory} (h : log.pending mem ≠ []) : log.marked mem ≠ mem := by
  intro heq
  have hpending := pending_marked log mem
  rw [heq] at hpending
  exact h hpending

theorem wp_readHeader_of_room (hoffset : log.pageOffset.toNat < 2 ^ 63)
    (hroom : LogHeader.sizeof ≤ log.size.toNat) :
    wp log.readHeader (fun header host' ↦ header = log.header host.mem ∧ host'.mem = host.mem
      ∧ host'.out = host.out) E host := by
  have hlaid : (log.resize _).Laid 1024 := laid_resize hoffset (by decide) (by decide)
  rw [← readHeader_resize hroom (hlaid.fits.trans' (Nat.le_add_right _ _))]
  refine wp_mono (wp_readHeader hlaid) (fun header host₁ h₁ ↦ ?_) (fun _ _ he ↦ he)
  exact ⟨h₁.1, h₁.2.mem, by rw [h₁.2.out, List.append_nil]⟩

theorem wp_clear_of_room (hoffset : log.pageOffset.toNat < 2 ^ 63)
    (hroom : LogHeader.sizeof ≤ log.size.toNat) :
    wp log.clear (fun _ host' ↦ host'.mem = log.marked host.mem ∧ host'.out = host.out) E host := by
  have hlaid : (log.resize _).Laid 1024 := laid_resize hoffset (by decide) (by decide)
  rw [← clear_resize hroom (hlaid.fits.trans' (Nat.le_add_right _ _))]
  exact wp_mono (wp_clear hlaid) (fun _ _ h ↦ ⟨h.1, h.2.1⟩) (fun _ _ he ↦ he)

theorem wp_print_of_room (hoffset : log.pageOffset.toNat < 2 ^ 63) (hroom : log.HasRoom host.mem)
    (hsized : log.RingSized host.mem) :
    wp log.print (fun _ host' ↦ host'.mem = host.mem
      ∧ host'.out = host.out ++ log.pending host.mem) E host := by
  have hlaid := laid_resize hoffset hsized.1 hsized.2
  have hfits := hlaid.fits
  have hring := hroom.ring hsized
  have hpos : 0 < (log.header host.mem).size.toNat := Nat.lt_of_lt_of_le (by decide) hsized.1
  have hprint : wp (log.resize (.ofNat (LogHeader.sizeof + (log.header host.mem).size.toNat))).print
      (fun _ host' ↦ host'.mem = host.mem
        ∧ host'.out = host.out ++ log.pending host.mem) E host := by
    rw [← pending_resize]
    exact wp_mono (wp_print hlaid rfl) (fun _ _ h ↦ ⟨h.mem, h.out⟩) (fun _ _ he ↦ he)
  refine (wp_congr ?_).1 hprint
  rw [print, print, ← readHeader_resize hroom.header (hfits.trans' (Nat.le_add_right _ _))]
  refine bind_congr fun header host₁ hread ↦ ?_
  obtain ⟨rfl, -⟩ := ok_of_wp (wp_readHeader (E := E) hlaid) hread
  refine bind_congr fun rpos host₂ hstart ↦ ?_
  exact congrFun (printFrom_resize hpos hring hfits rpos) host₂

/-- `print` throws if it does not accept the size of the ring. -/
theorem wp_print_of_not (hoffset : log.pageOffset.toNat < 2 ^ 63) (hroom : log.HasRoom host.mem)
    (hsized : ¬ log.RingSized host.mem) :
    wp log.print (fun _ _ ↦ False) (fun e host' ↦ host'.out = host.out
      ∧ ∃ values, e.msg = "Incorrect ring buffer values. size=" ++ values) host := by
  rw [print, wp_bind]
  refine wp_mono (wp_readHeader_of_room hoffset hroom.header) (fun header host₁ h₁ ↦ ?_)
    (fun _ _ he ↦ he)
  obtain ⟨rfl, -, hout⟩ := h₁
  have hbad : (log.header host.mem).size.toUInt64 < logSizeMin
      ∨ (log.header host.mem).size.toUInt64 > logSizeMax := by
    rw [gt_iff_lt, UInt64.lt_iff_toNat_lt, UInt64.lt_iff_toNat_lt, UInt32.toNat_toUInt64]
    rw [RingSized] at hsized
    omega
  rw [start, if_pos hbad, wp_bind, wp_throw]
  exact ⟨hout, _, by simp only [String.append_assoc]; rfl⟩

end Log

section

variable {log : Log} {host : Host}

/-- Without `-C`, what is pending is printed. -/
theorem wp_main (hoffset : log.pageOffset.toNat < 2 ^ 63) (hroom : log.HasRoom host.mem)
    (hsized : log.RingSized host.mem) (clearAfter : Bool) :
    wp (main log false clearAfter) (fun _ host' ↦ host'.out = host.out ++ log.pending host.mem
      ∧ host'.mem = if clearAfter then log.marked host.mem else host.mem) (fun _ _ ↦ False)
      host := by
  rw [main, if_neg Bool.false_ne_true, wp_bind]
  refine wp_mono (Log.wp_print_of_room hoffset hroom hsized) (fun _ host₁ h₁ ↦ ?_)
    (fun _ _ he ↦ he)
  obtain ⟨hmem, hout⟩ := h₁
  rcases clearAfter with _ | _
  · exact ⟨hout, hmem⟩
  · refine wp_mono (Log.wp_clear_of_room hoffset hroom.header) (fun _ host₂ h₂ ↦ ?_)
      (fun _ _ he ↦ he)
    rw [← hout, if_pos rfl, ← hmem]
    exact ⟨h₂.2, h₂.1⟩

/-- With it, nothing is. -/
theorem wp_main_clearBefore (hoffset : log.pageOffset.toNat < 2 ^ 63)
    (hroom : log.HasRoom host.mem) (hsized : log.RingSized host.mem) (clearAfter : Bool) :
    wp (main log true clearAfter) (fun _ host' ↦ host'.out = host.out) (fun _ _ ↦ False) host := by
  rw [main, if_pos rfl, wp_bind]
  refine wp_mono (Log.wp_clear_of_room hoffset hroom.header) (fun _ host₁ h₁ ↦ ?_)
    (fun _ _ he ↦ he)
  obtain ⟨hmem, hout⟩ := h₁
  have hheader : (log.header host₁.mem).size = (log.header host.mem).size := by
    rw [hmem, Log.marked, Log.header_storeRead]
  have hsized' : log.RingSized host₁.mem := by rwa [Log.RingSized, hheader]
  have hroom' : log.HasRoom host₁.mem := ⟨hroom.header, fun _ ↦ by
    rw [hheader]
    exact hroom.ring hsized⟩
  refine wp_mono (wp_main hoffset hroom' hsized' clearAfter) (fun _ host₂ h₂ ↦ ?_)
    (fun _ _ he ↦ he)
  rw [h₂.1, hmem, Log.pending_marked, List.append_nil, hout]

/-- A ring whose size `print` does not accept is reported. -/
theorem wp_main_of_not (hoffset : log.pageOffset.toNat < 2 ^ 63) (hroom : log.HasRoom host.mem)
    (hsized : ¬ log.RingSized host.mem) (clearBefore clearAfter : Bool) :
    wp (main log clearBefore clearAfter) (fun _ _ ↦ False) (fun e host' ↦ host'.out = host.out
      ∧ ∃ values, e.msg = "Incorrect ring buffer values. size=" ++ values) host := by
  rcases clearBefore with _ | _
  · rw [main, if_neg Bool.false_ne_true, wp_bind]
    exact wp_mono (Log.wp_print_of_not hoffset hroom hsized) (fun _ _ h ↦ h.elim) (fun _ _ he ↦ he)
  · rw [main, if_pos rfl, wp_bind]
    refine wp_mono (Log.wp_clear_of_room hoffset hroom.header) (fun _ host₁ h₁ ↦ ?_)
      (fun _ _ he ↦ he)
    obtain ⟨hmem, hout⟩ := h₁
    have hheader : (log.header host₁.mem).size = (log.header host.mem).size := by
      rw [hmem, Log.marked, Log.header_storeRead]
    have hsized' : ¬ log.RingSized host₁.mem := by rwa [Log.RingSized, hheader]
    have hroom' : log.HasRoom host₁.mem := ⟨hroom.header, fun h ↦ absurd h hsized'⟩
    rw [wp_bind, ← hout]
    exact wp_mono (Log.wp_print_of_not hoffset hroom' hsized') (fun _ _ h ↦ h.elim)
      (fun _ _ he ↦ he)

end

end EthosuLogd

end EthosU
