import EthosU.EthosuLogd.Window

/-!
# Printing in any window

`print` checks the size of the ring against fixed limits and every byte against the window, but the
ring as a whole against nothing.  This file says what it does if there is no room for the ring, and
what it does when the counters in the header have wrapped around.

* `Log.Reachable` says that the cell of a position is in the window.  `Log.wp_printFrom_cases`: the
  loop prints up to the first position that is not.
* `Log.allOrNothing_iff`: whether something is printed before `print` throws.
* `Log.wrapped_prints_nothing`: once `header.write` has wrapped around and `header.read` has not,
  nothing is printed at all.
-/

set_option autoImplicit false

namespace EthosU

namespace EthosuLogd

open Wp Bytes

namespace Log

variable {log : Log} {header : LogHeader} {host : Host}

/-! ## Accesses -/

/-- What is in a window can be read, if it does not begin too far from the mapping's first page. -/
theorem wp_read_of_fits (hoffset : log.pageOffset.toNat < 2 ^ 63) {length offset : UInt64}
    {Q : List UInt8 → Host → Prop} {E : Exception → Host → Prop}
    (hfits : offset.toNat + length.toNat ≤ log.size.toNat)
    (hsmall : offset.toNat + length.toNat < 2 ^ 63) :
    wp (log.read length offset) Q E host
      ↔ Q (load host.mem (log.first + offset.toNat) length.toNat)
        (host.touch (log.first + offset.toNat) length.toNat) := by
  have hsum : (offset + length).toNat = offset.toNat + length.toNat := by
    rw [UInt64.toNat_add]
    exact Nat.mod_eq_of_lt (by omega)
  -- a window that ends where the access ends
  have hmapped : (log.resize (offset + length)).Mapped := by
    show log.pageOffset.toNat + (offset + length).toNat < 2 ^ 64
    omega
  have hin : offset.toNat + length.toNat ≤ (offset + length).toNat := Nat.le_of_eq hsum.symm
  rw [← read_resize hfits hin, wp_read hmapped hin]
  rfl

/-- A window without room for the header. -/
theorem readHeader_of_small (h : log.size.toNat < LogHeader.sizeof) (host : Host) :
    log.readHeader host = .error ⟨"Read failed"⟩ host := by
  have hbehind : 0 + .ofNat LogHeader.sizeof > log.size := by
    rw [gt_iff_lt, UInt64.lt_iff_toNat_lt]
    exact h
  rw [readHeader, DevMem.read, if_pos hbehind]
  rfl

/-- The cell of a position is in the window. -/
def Reachable (log : Log) (size : UInt32) (pos : Nat) : Prop :=
  LogHeader.sizeof + pos % size.toNat < log.size.toNat

instance (size : UInt32) (pos : Nat) : Decidable (log.Reachable size pos) :=
  inferInstanceAs (Decidable (_ < _))

/-- The body of the loop prints the cell of a position, or throws if it is not in the window. -/
theorem wp_printChar_cases (hoffset : log.pageOffset.toNat < 2 ^ 63)
    (hpos : 0 < header.size.toNat) (rpos : UInt64) :
    wp (log.printChar header rpos)
      (fun _ host' ↦ log.Reachable header.size rpos.toNat ∧ host'.mem = host.mem
        ∧ host'.out = host.out ++ [log.cell host.mem (rpos.toNat % header.size.toNat)])
      (fun _ host' ↦ ¬ log.Reachable header.size rpos.toNat ∧ host'.out = host.out) host := by
  have hmod := Nat.mod_lt rpos.toNat hpos
  have hsize := header.size.toNat_lt
  have hlayout : LogHeader.sizeof = 36 := rfl
  have hplace : (rpos % header.size.toUInt64 + .ofNat LogHeader.sizeof).toNat
      = rpos.toNat % header.size.toNat + LogHeader.sizeof := by
    rw [UInt64.toNat_add, UInt64.toNat_mod, UInt32.toNat_toUInt64]
    exact Nat.mod_eq_of_lt (by simp; omega)
  rw [printChar, wp_bind]
  by_cases hreach : log.Reachable header.size rpos.toNat
  · have hin := hreach
    rw [Reachable] at hin
    rw [wp_read_of_fits hoffset (by rw [hplace, UInt64.toNat_one]; omega)
      (by rw [hplace, UInt64.toNat_one]; omega), wp_modify, hplace]
    refine ⟨hreach, rfl, ?_⟩
    rw [cell, Nat.add_assoc log.first, Nat.add_comm LogHeader.sizeof]
    rfl
  · have hout := hreach
    rw [Reachable] at hout
    have hbehind : rpos % header.size.toUInt64 + .ofNat LogHeader.sizeof + 1 > log.size := by
      rw [gt_iff_lt, UInt64.lt_iff_toNat_lt, UInt64.toNat_add, hplace, UInt64.toNat_one,
        Nat.mod_eq_of_lt (by omega)]
      omega
    rw [DevMem.read, if_pos hbehind, wp_throw]
    exact ⟨hreach, rfl⟩

/-- **What the loop prints in any window**: the cells of all positions, or those in front of the
first one that is not in the window. -/
theorem wp_printFrom_cases (hoffset : log.pageOffset.toNat < 2 ^ 63)
    (hpos : 0 < header.size.toNat) {n : Nat} {rpos : UInt64}
    (hn : header.write.toNat - rpos.toNat = n) :
    wp (log.printFrom header rpos)
      (fun _ host' ↦ (∀ i < n, log.Reachable header.size (rpos.toNat + i))
        ∧ host'.out = host.out ++ Ring.range (log.cell host.mem) header.size.toNat rpos.toNat n)
      (fun _ host' ↦ ∃ k < n, (∀ i < k, log.Reachable header.size (rpos.toNat + i))
        ∧ ¬ log.Reachable header.size (rpos.toNat + k)
        ∧ host'.out = host.out ++ Ring.range (log.cell host.mem) header.size.toNat rpos.toNat k)
      host := by
  induction n generalizing rpos host with
  | zero =>
    have hdone : ¬ rpos < header.write.toUInt64 := by
      rw [Narrow.lt_toUInt64]
      omega
    rw [printFrom, dif_neg hdone, wp_pure]
    exact ⟨fun i hi ↦ absurd hi (Nat.not_lt_zero i), (List.append_nil _).symm⟩
  | succ n ih =>
    have hlt : rpos.toNat < header.write.toNat := by omega
    have hmore : rpos < header.write.toUInt64 := Narrow.lt_toUInt64.2 hlt
    have hnext := Narrow.toNat_succ hlt
    rw [printFrom, dif_pos hmore, wp_bind]
    refine wp_mono (wp_printChar_cases hoffset hpos rpos) (fun _ host₁ hchar ↦ ?_)
      (fun _ host₁ hthrow ↦ ?_)
    · obtain ⟨hreach, hmem, hout⟩ := hchar
      have hfront : ∀ {k : Nat}, (∀ i < k, log.Reachable header.size ((rpos + 1).toNat + i)) →
          ∀ i < k + 1, log.Reachable header.size (rpos.toNat + i) := by
        intro k hk i hi
        rcases i with _ | i
        · exact hreach
        · have hi' := hk i (by omega)
          rwa [hnext, Nat.add_assoc, Nat.add_comm 1] at hi'
      refine wp_mono (ih (by rw [hnext]; omega)) (fun _ host₂ h₂ ↦ ?_) (fun _ host₂ h₂ ↦ ?_)
      · refine ⟨hfront h₂.1, ?_⟩
        rw [h₂.2, hout, hmem, hnext, Ring.range_succ, List.append_assoc, List.singleton_append]
      · obtain ⟨k, hk, hall, hnot, hout'⟩ := h₂
        refine ⟨k + 1, by omega, hfront hall, ?_, ?_⟩
        · rwa [hnext, Nat.add_assoc, Nat.add_comm 1] at hnot
        · rw [hout', hout, hmem, hnext, Ring.range_succ, List.append_assoc, List.singleton_append]
    · refine ⟨0, Nat.succ_pos n, fun i hi ↦ absurd hi (Nat.not_lt_zero i), hthrow.1, ?_⟩
      rw [hthrow.2]
      exact (List.append_nil _).symm

/-! ## All or nothing -/

/-- The position of the first byte that `print` prints. -/
def pendingFrom (log : Log) (mem : Memory) : Nat :=
  max (log.header mem).read.toNat ((log.header mem).write.toNat - (log.header mem).size.toNat)

/-- How many bytes it prints. -/
def pendingCount (log : Log) (mem : Memory) : Nat :=
  (log.header mem).write.toNat - log.pendingFrom mem

/-- `print` prints what is pending, or throws with nothing printed. -/
def AllOrNothing (log : Log) (host : Host) : Prop :=
  wp log.print (fun _ host' ↦ host'.out = host.out ++ log.pending host.mem)
    (fun _ host' ↦ host'.out = host.out) host

/-- What `print` does in a window with room for the header. -/
theorem wp_print_cases (hoffset : log.pageOffset.toNat < 2 ^ 63)
    (hroom : LogHeader.sizeof ≤ log.size.toNat) (hsized : log.RingSized host.mem) :
    wp log.print
      (fun _ host' ↦ (∀ i < log.pendingCount host.mem,
          log.Reachable (log.header host.mem).size (log.pendingFrom host.mem + i))
        ∧ host'.out = host.out ++ log.pending host.mem)
      (fun _ host' ↦ ∃ k < log.pendingCount host.mem, (∀ i < k,
          log.Reachable (log.header host.mem).size (log.pendingFrom host.mem + i))
        ∧ ¬ log.Reachable (log.header host.mem).size (log.pendingFrom host.mem + k)
        ∧ host'.out = host.out ++ Ring.range (log.cell host.mem) (log.header host.mem).size.toNat
          (log.pendingFrom host.mem) k)
      host := by
  have hpos : 0 < (log.header host.mem).size.toNat := Nat.lt_of_lt_of_le (by decide) hsized.1
  rw [print, wp_bind]
  refine wp_mono (wp_readHeader_of_room hoffset hroom) (fun header host₁ h₁ ↦ ?_) (fun _ _ he ↦ he)
  obtain ⟨rfl, hmem, hout⟩ := h₁
  obtain ⟨rpos, hstart, hrpos⟩ := start_eq hsized.1 hsized.2
  have hfrom : rpos.toNat = log.pendingFrom host.mem := hrpos
  rw [hstart, wp_bind, wp_pure]
  refine wp_mono (wp_printFrom_cases hoffset hpos rfl) (fun _ host₂ h₂ ↦ ?_)
    (fun _ host₂ h₂ ↦ ?_)
  · rwa [hmem, hout, hfrom] at h₂
  · rwa [hmem, hout, hfrom] at h₂

/-- Without room for the header, `print` throws before it has printed anything. -/
theorem allOrNothing_of_small (h : log.size.toNat < LogHeader.sizeof) : log.AllOrNothing host := by
  rw [AllOrNothing, print, wp_bind, wp_of_error (readHeader_of_small h host)]

/-- The first byte decides: if it can be read, so must all others. -/
theorem allOrNothing_iff_reachable (hoffset : log.pageOffset.toNat < 2 ^ 63)
    (hroom : LogHeader.sizeof ≤ log.size.toNat) (hsized : log.RingSized host.mem) :
    log.AllOrNothing host
      ↔ (log.Reachable (log.header host.mem).size (log.pendingFrom host.mem) →
        ∀ i < log.pendingCount host.mem,
          log.Reachable (log.header host.mem).size (log.pendingFrom host.mem + i)) := by
  have hcases := wp_print_cases hoffset hroom hsized
  refine ⟨?_, ?_⟩
  · intro hall hfirst
    by_contra hnot
    rcases hrun : log.print host with ⟨a, host'⟩ | ⟨e, host'⟩
    · exact hnot (ok_of_wp hcases hrun).1
    -- `print` has thrown, and the first byte is among what it has printed
    obtain ⟨k, -, -, hstop, hout'⟩ := error_of_wp hcases hrun
    rw [AllOrNothing] at hall
    have hout := error_of_wp hall hrun
    rw [hout, List.self_eq_append_right] at hout'
    rcases k with _ | k
    · exact hstop hfirst
    · rw [Ring.range_succ] at hout'
      exact List.cons_ne_nil _ _ hout'
  · intro hreach
    refine wp_mono hcases (fun _ _ h ↦ h.2) (fun _ host' h ↦ ?_)
    obtain ⟨k, hk, hfront, hstop, hout⟩ := h
    rcases k with _ | k
    · rw [hout]
      exact List.append_nil _
    · exact absurd (hreach (hfront 0 (Nat.succ_pos k)) (k + 1) hk) hstop

/-- The cells of `n` positions in a row are in the window if the last one of them in the ring is. -/
theorem reachable_iff {size : UInt32} (hpos : 0 < size.toNat) {first n : Nat} :
    (∀ i < n, log.Reachable size (first + i))
      ↔ n = 0 ∨ LogHeader.sizeof + min (first % size.toNat + n) size.toNat ≤ log.size.toNat := by
  have hmod := Nat.mod_lt first hpos
  refine ⟨?_, ?_⟩
  · intro hall
    rcases Nat.eq_zero_or_pos n with hzero | hsome
    · exact .inl hzero
    · have hlast := hall (min (first % size.toNat + n) size.toNat - 1 - first % size.toNat)
        (by omega)
      rw [Reachable, Nat.add_mod, Nat.mod_eq_of_lt (a := _ - 1 - _) (by omega),
        Nat.mod_eq_of_lt (by omega)] at hlast
      right
      omega
  · rintro (rfl | hfits) i hi
    · exact absurd hi (Nat.not_lt_zero i)
    · have hplace : (first + i) % size.toNat < min (first % size.toNat + n) size.toNat := by
        refine Nat.lt_min.2 ⟨?_, Nat.mod_lt _ hpos⟩
        rw [Nat.add_mod]
        have hle := Nat.mod_le (first % size.toNat + i % size.toNat) size.toNat
        have hle' := Nat.mod_le i size.toNat
        omega
      rw [Reachable]
      omega

/-- **When printing is all or nothing**: when nothing is pending, when the window ends before the
first byte that is, or when it has room for all of the ring up to the last one. -/
theorem allOrNothing_iff (hoffset : log.pageOffset.toNat < 2 ^ 63)
    (hsized : log.RingSized host.mem) :
    log.AllOrNothing host
      ↔ log.pendingCount host.mem = 0
        ∨ log.size.toNat
          ≤ LogHeader.sizeof + log.pendingFrom host.mem % (log.header host.mem).size.toNat
        ∨ LogHeader.sizeof + min
            (log.pendingFrom host.mem % (log.header host.mem).size.toNat
              + log.pendingCount host.mem) (log.header host.mem).size.toNat
          ≤ log.size.toNat := by
  by_cases hroom : LogHeader.sizeof ≤ log.size.toNat
  · have hpos : 0 < (log.header host.mem).size.toNat := Nat.lt_of_lt_of_le (by decide) hsized.1
    rw [allOrNothing_iff_reachable hoffset hroom hsized, reachable_iff hpos, Reachable]
    omega
  · have hsmall : log.size.toNat < LogHeader.sizeof := by omega
    exact iff_of_true (allOrNothing_of_small hsmall) (.inr (.inl (by omega)))

/-- A ring of 1 MiB that is full, and has never been read. -/
def fullHost : Host where
  mem := storeWord (storeWord (fun _ ↦ 0) 0 0x100000) LogHeader.offsetofWrite 0x100000

/-- The window that is mapped unless a size is given, of the size of the largest ring. -/
def defaultLog : Log where
  base := 0
  pageOffset := 0
  size := logSizeMax

theorem header_fullHost : defaultLog.header fullHost.mem = ⟨0x100000, 0, 0x100000⟩ := by
  decide +kernel

/-- The largest ring, in a window with room for it and for the header. -/
theorem fullHost_allOrNothing_iff :
    (defaultLog.resize 0x100024).AllOrNothing fullHost
      ↔ (defaultLog.resize 0x100024).pendingCount fullHost.mem = 0
        ∨ (0x100024 : UInt64).toNat ≤ LogHeader.sizeof
          + (defaultLog.resize 0x100024).pendingFrom fullHost.mem
            % ((defaultLog.resize 0x100024).header fullHost.mem).size.toNat
        ∨ LogHeader.sizeof + min
            ((defaultLog.resize 0x100024).pendingFrom fullHost.mem
              % ((defaultLog.resize 0x100024).header fullHost.mem).size.toNat
              + (defaultLog.resize 0x100024).pendingCount fullHost.mem)
            ((defaultLog.resize 0x100024).header fullHost.mem).size.toNat
          ≤ (0x100024 : UInt64).toNat :=
  allOrNothing_iff (by decide) (by
    have hheader : (defaultLog.resize 0x100024).header fullHost.mem = _ := header_fullHost
    rw [RingSized, hheader]
    decide)

/-- The default size of a window does not count the header: the last 36 bytes of the largest ring
are outside, and `print` throws after it has printed the others. -/
theorem defaultLog_not_allOrNothing :
    defaultLog.RingSized fullHost.mem ∧ ¬ defaultLog.AllOrNothing fullHost := by
  have hsized : defaultLog.RingSized fullHost.mem := by
    rw [RingSized, header_fullHost]
    decide
  refine ⟨hsized, ?_⟩
  rw [allOrNothing_iff_reachable (by decide) (by decide) hsized, pendingCount, pendingFrom,
    header_fullHost]
  intro hall
  have hlast := hall (by decide) 0xfffff (by decide)
  exact absurd hlast (by decide)

/-! ## Counters that have wrapped around -/

/-- The stream `s` has been read up to `r`, the header has both lengths in 32 bits, and
`header.write` has wrapped around once more than `header.read`. -/
structure WrappedAround (log : Log) (mem : Memory) (s : List UInt8) (r : Nat) : Prop where
  power : ∃ k, (log.header mem).size.toNat = 2 ^ k
  read_le : r ≤ s.length
  unread_lt : s.length - r < 2 ^ 32
  wrapped : s.length % 2 ^ 32 < r % 2 ^ 32
  read : (log.header mem).read.toNat = r % 2 ^ 32
  write : (log.header mem).write.toNat = s.length % 2 ^ 32
  holds : Ring.Holds (log.cell mem) (log.header mem).size.toNat s

/-- What has not been read is printed, as far as the ring still has it. -/
def PrintsLatest (log : Log) (s : List UInt8) (r : Nat) (host : Host) : Prop :=
  wp log.print (fun _ host' ↦ host'.out
    = host.out ++ s.rtake (min (log.header host.mem).size.toNat (s.length - r))) (fun _ _ ↦ False)
    host

variable {ring : UInt32} {s : List UInt8} {r : Nat}

/-- As `write` is behind `read`, nothing is pending. -/
theorem WrappedAround.pending_eq (h : log.WrappedAround host.mem s r) :
    log.pending host.mem = [] := by
  have hread := h.read
  have hwrite := h.write
  have hwrapped := h.wrapped
  have hnone : (log.header host.mem).write.toNat - max (log.header host.mem).read.toNat
      ((log.header host.mem).write.toNat - (log.header host.mem).size.toNat) = 0 := by omega
  rw [pending, hnone]
  rfl

/-- But something has not been read. -/
theorem WrappedAround.latest_ne (h : log.WrappedAround host.mem s r)
    (hpos : 0 < (log.header host.mem).size.toNat) :
    s.rtake (min (log.header host.mem).size.toNat (s.length - r)) ≠ [] := by
  have hle := h.read_le
  have hne : r ≠ s.length := by
    rintro rfl
    exact absurd h.wrapped (Nat.lt_irrefl _)
  intro hnil
  have hlength := congrArg List.length hnil
  rw [List.rtake, List.length_drop, List.length_nil] at hlength
  omega

/-- `print` returns and has printed nothing. -/
theorem wp_print_of_wrapped (hlaid : log.Laid ring) (hring : (log.header host.mem).size = ring)
    (hwrapped : log.WrappedAround host.mem s r) :
    wp log.print (fun _ host' ↦ host'.out = host.out) (fun _ _ ↦ False) host := by
  subst hring
  refine wp_mono (wp_print hlaid rfl) (fun _ host' hreads ↦ ?_) (fun _ _ he ↦ he)
  have hnothing : Ring.range (log.cell host.mem) (log.header host.mem).size.toNat
      (log.pendingFrom host.mem) (log.pendingCount host.mem) = [] := hwrapped.pending_eq
  rw [pendingCount, pendingFrom] at hnothing
  rw [hreads.out, hnothing, List.append_nil]

/-- Which is not what has not been read. -/
theorem not_printsLatest (hlaid : log.Laid ring) (hring : (log.header host.mem).size = ring)
    (hwrapped : log.WrappedAround host.mem s r) : ¬ log.PrintsLatest s r host := by
  have hpos : 0 < (log.header host.mem).size.toNat := by
    rw [hring]
    exact Nat.lt_of_lt_of_le (by decide) hlaid.min
  intro hlatest
  rw [PrintsLatest] at hlatest
  have hboth := wp_conj (wp_print_of_wrapped hlaid hring hwrapped) hlatest
  obtain ⟨_, host', -, hout, hout'⟩ := exists_of_wp
    (wp_mono hboth (fun _ _ h ↦ h) (fun _ _ he ↦ he.1))
  rw [hout, List.self_eq_append_right] at hout'
  exact hwrapped.latest_ne hpos hout'

/-- **The log is lost**: when `header.write` has wrapped around and `header.read` has not, nothing
is printed, although there always is something that has not been read. -/
theorem wrapped_prints_nothing (hlaid : log.Laid ring) (hring : (log.header host.mem).size = ring)
    (hwrapped : log.WrappedAround host.mem s r) :
    wp log.print (fun _ host' ↦ host'.out = host.out) (fun _ _ ↦ False) host
      ∧ ¬ log.PrintsLatest s r host :=
  ⟨wp_print_of_wrapped hlaid hring hwrapped, not_printsLatest hlaid hring hwrapped⟩

/-- A ring of 1 KiB full of zeros, with 2 bytes that have not been read. -/
def wrappedHost : Host where
  mem := storeWord (storeWord (storeWord (fun _ ↦ 0) 64 1024) 68 0xffffffff) 96 1

theorem header_wrappedHost : freshLog.header wrappedHost.mem = ⟨1024, 0xffffffff, 1⟩ := by
  decide +kernel

theorem cell_wrappedHost (i : Nat) : freshLog.cell wrappedHost.mem i = 0 := by
  have hwrite : freshLog.cell (storeWord (storeWord (storeWord (fun _ ↦ 0) 64 1024) 68 0xffffffff)
      (freshLog.first + LogHeader.offsetofWrite) 1) i = _ := cell_storeWord _ _ _ i (by decide)
  have hread : freshLog.cell (storeWord (storeWord (fun _ ↦ 0) 64 1024)
      (freshLog.first + LogHeader.offsetofRead) 0xffffffff) i = _ :=
    cell_storeWord _ _ _ i (by decide)
  have hsize : freshLog.cell (storeWord (fun _ ↦ 0) (freshLog.first + LogHeader.offsetofSize) 1024)
      i = 0 := cell_storeWord _ _ _ i (by decide)
  exact hwrite.trans (hread.trans hsize)

/-- The firmware has written `2 ^ 32 + 1` zeros, and all but the last two have been read. -/
theorem wrappedHost_wrappedAround :
    freshLog.WrappedAround wrappedHost.mem (List.replicate (2 ^ 32 + 1) 0) (2 ^ 32 - 1) := by
  have hlength : (List.replicate (2 ^ 32 + 1) (0 : UInt8)).length = 2 ^ 32 + 1 :=
    List.length_replicate
  constructor
  · rw [header_wrappedHost]
    exact ⟨10, rfl⟩
  · rw [hlength]
    decide
  · rw [hlength]
    decide
  · rw [hlength]
    decide
  · rw [header_wrappedHost]
    rfl
  · rw [header_wrappedHost, hlength]
    rfl
  · intro p hp hsize
    rw [cell_wrappedHost, List.getElem_replicate]

theorem freshLog_laid_of_le : freshLog.Laid 1024 :=
  ⟨by decide, by decide, by decide, freshLog_laid.mapped⟩

theorem wrappedHost_prints_nothing :
    wp freshLog.print (fun _ host' ↦ host'.out = wrappedHost.out) (fun _ _ ↦ False) wrappedHost
      ∧ ¬ freshLog.PrintsLatest (List.replicate (2 ^ 32 + 1) 0) (2 ^ 32 - 1) wrappedHost :=
  wrapped_prints_nothing freshLog_laid_of_le (by rw [header_wrappedHost]) wrappedHost_wrappedAround

/-- The last two of `2 ^ 32 + 1` bytes are never printed. -/
theorem wrappedHost_not_printsLatest :
    ∃ s r, freshLog.Laid 1024 ∧ (freshLog.header wrappedHost.mem).size = 1024
      ∧ freshLog.WrappedAround wrappedHost.mem s r ∧ ¬ freshLog.PrintsLatest s r wrappedHost := by
  have hring : (freshLog.header wrappedHost.mem).size = 1024 := by rw [header_wrappedHost]
  exact ⟨_, _, freshLog_laid_of_le, hring, wrappedHost_wrappedAround,
    not_printsLatest freshLog_laid_of_le hring wrappedHost_wrappedAround⟩

end Log

end EthosuLogd

end EthosU
