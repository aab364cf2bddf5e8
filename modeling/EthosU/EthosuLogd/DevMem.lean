import EthosU.Lib.Bytes
import EthosU.Lib.Narrow
import EthosU.Lib.Ring
import EthosU.Lib.Wp

/-!
# The log reader

`ethosu_logd` maps the memory in which the firmware of the Ethos-U keeps its log, prints what is
pending in it and marks it as read.  This file has the classes `DevMem` and `Log` of
`utils/ethosu_logd/dev_mem.cpp`.

* `DevMem` is a window into `/dev/mem`; `DevMem.read` and `DevMem.write` copy bytes from and to it
  and throw if the range is not in the window.
* `Log` is a window that starts with a `LogHeader`, with the ring of characters behind it.
  `Log.print` prints from `header.read` up to `header.write`, and `Log.clear` sets `header.read` to
  `header.write`.
* `Log.Laid` says that header and ring are in the window.  What the methods then do is stated once
  for each of them: `wp_read`, `wp_write`, `wp_readHeader`, `wp_printChar`, `wp_print`, `wp_clear`.

The header's counters count the bytes of the log from its beginning; the place of a byte in the ring
is its number modulo the size of the ring.
-/

set_option autoImplicit false

namespace EthosU

namespace EthosuLogd

open Wp Bytes

/-- `EthosU::DevMem::Exception`. -/
structure Exception where
  msg : String
  deriving DecidableEq, Repr

/-- What the program works on. -/
structure Host where
  /-- The physical memory. -/
  mem : Memory
  /-- What has been written to `std::cout`. -/
  out : List UInt8 := []
  /-- The addresses that have been read or written through a window, latest first. -/
  touched : List Nat := []

abbrev M (α : Type) := EStateM Exception Host α

/-! ## DevMem -/

/-- `class DevMem`.  The mapping is named by the physical address of its first page. -/
structure DevMem where
  base : Nat
  pageOffset : UInt64
  size : UInt64

/-- `&base[pageOffset + offset + i]`, with the subscript computed as a `size_t`. -/
def DevMem.position (d : DevMem) (offset : UInt64) (i : Nat) : Nat :=
  d.base + (d.pageOffset + offset + .ofNat i).toNat

def DevMem.read (d : DevMem) (length offset : UInt64) : M (List UInt8) := do
  if offset + length > d.size then
    throw ⟨"Read failed"⟩
  else
    let host ← get
    modify fun host ↦
      { host with touched := (List.range length.toNat).map (d.position offset) ++ host.touched }
    pure (gather host.mem (d.position offset) length.toNat)

def DevMem.write (d : DevMem) (src : List UInt8) (offset : UInt64) : M Unit := do
  if offset + .ofNat src.length > d.size then
    throw ⟨"Write failed"⟩
  else
    modify fun host ↦
      { host with
        mem := scatter host.mem (d.position offset) src
        touched := (List.range src.length).map (d.position offset) ++ host.touched }

/-! ## Log -/

/-- `struct LogHeader`; its padding is left out. -/
structure LogHeader where
  size : UInt32
  read : UInt32
  write : UInt32
  deriving DecidableEq, Repr

namespace LogHeader

def offsetofSize : Nat := 0
def offsetofRead : Nat := 4
def offsetofWrite : Nat := 32

/-- `sizeof(LogHeader)`. -/
def sizeof : Nat := 36

/-- The `uint32_t` at an offset of a struct, on a host with the least significant byte first. -/
def field (bytes : List UInt8) (offset : Nat) : UInt32 :=
  .ofNat (decode ((bytes.drop offset).take 4))

def ofBytes (bytes : List UInt8) : LogHeader where
  size := field bytes offsetofSize
  read := field bytes offsetofRead
  write := field bytes offsetofWrite

end LogHeader

/-- `class Log`. -/
structure Log extends DevMem

namespace Log

def logSizeMin : UInt64 := 1024
def logSizeMax : UInt64 := 1024 * 1024

/-- `LogHeader header; read(header, 0);` -/
def readHeader (log : Log) : M LogHeader := do
  let bytes ← log.read (.ofNat LogHeader.sizeof) 0
  pure (LogHeader.ofBytes bytes)

/-- `write(rpos, offsetof(LogHeader, read));` -/
def writeRead (log : Log) (rpos : UInt32) : M Unit :=
  log.write (encode 4 rpos.toNat) (.ofNat LogHeader.offsetofRead)

def clear (log : Log) : M Unit := do
  let header ← log.readHeader
  log.writeRead header.write

/-- The checks of `print`, and the position it starts at. -/
def start (header : LogHeader) : M UInt64 := do
  if header.size.toUInt64 < logSizeMin ∨ header.size.toUInt64 > logSizeMax then
    throw ⟨"Incorrect ring buffer values. size=" ++ toString header.size ++ ", read="
      ++ toString header.read ++ ", write=" ++ toString header.write⟩
  else if header.read.toUInt64 + header.size.toUInt64 < header.write.toUInt64 then
    pure (header.write - header.size).toUInt64
  else
    pure header.read.toUInt64

/-- The body of the loop of `print`. -/
def printChar (log : Log) (header : LogHeader) (rpos : UInt64) : M Unit := do
  let bytes ← log.read 1 (rpos % header.size.toUInt64 + .ofNat LogHeader.sizeof)
  modify fun host ↦ { host with out := host.out ++ bytes }

/-- The loop of `print`. -/
def printFrom (log : Log) (header : LogHeader) (rpos : UInt64) : M Unit := do
  if h : rpos < header.write.toUInt64 then
    log.printChar header rpos
    log.printFrom header (rpos + 1)
  else
    pure ()
termination_by header.write.toNat - rpos.toNat
decreasing_by
  have hlt := Narrow.lt_toUInt64.1 h
  rw [Narrow.toNat_succ hlt]
  omega

def print (log : Log) : M Unit := do
  let header ← log.readHeader
  let rpos ← start header
  log.printFrom header rpos

end Log

/-! ## The window -/

section

variable {d : DevMem} {host : Host} {E : Exception → Host → Prop}

/-- The window lies in the address space. -/
def DevMem.Mapped (d : DevMem) : Prop := d.pageOffset.toNat + d.size.toNat < 2 ^ 64

/-- The address of the first byte of the window. -/
def DevMem.first (d : DevMem) : Nat := d.base + d.pageOffset.toNat

/-- An address in the window. -/
def DevMem.InWindow (d : DevMem) (a : Nat) : Prop := d.first ≤ a ∧ a < d.first + d.size.toNat

theorem position_eq (h : d.Mapped) {offset : UInt64} {i : Nat}
    (hi : offset.toNat + i < d.size.toNat) : d.position offset i = d.first + offset.toNat + i := by
  have hmapped : d.pageOffset.toNat + d.size.toNat < 2 ^ 64 := h
  have hof : (UInt64.ofNat i).toNat = i := Nat.mod_eq_of_lt (by omega)
  have hsum : (d.pageOffset + offset + .ofNat i).toNat = d.pageOffset.toNat + offset.toNat + i := by
    rw [UInt64.toNat_add, UInt64.toNat_add, hof, Nat.mod_add_mod]
    exact Nat.mod_eq_of_lt (by omega)
  rw [DevMem.position, hsum, DevMem.first]
  omega

/-- The host after the `n` bytes from `a` on have been read. -/
def Host.touch (host : Host) (a n : Nat) : Host :=
  { host with touched := (List.range n).map (a + ·) ++ host.touched }

/-- The host after `src` has been written to the bytes from `a` on. -/
def Host.stored (host : Host) (a : Nat) (src : List UInt8) : Host :=
  { host.touch a src.length with mem := store host.mem a src }

private theorem map_position (h : d.Mapped) {offset : UInt64} {n : Nat}
    (hfits : offset.toNat + n ≤ d.size.toNat) :
    (List.range n).map (d.position offset)
      = (List.range n).map (d.first + offset.toNat + ·) :=
  List.map_congr_left fun i hi ↦ position_eq h (by have := List.mem_range.1 hi; omega)

/-- The check of `read` and `write` lets accesses to the window pass. -/
theorem add_le_of_fits {offset length : UInt64}
    (hfits : offset.toNat + length.toNat ≤ d.size.toNat) : ¬ offset + length > d.size := by
  have hlt := d.size.toNat_lt
  rw [gt_iff_lt, UInt64.lt_iff_toNat_lt, UInt64.toNat_add, Nat.mod_eq_of_lt (by omega)]
  omega

/-- What is in the window can be read. -/
theorem wp_read (h : d.Mapped) {length offset : UInt64} {Q : List UInt8 → Host → Prop}
    (hfits : offset.toNat + length.toNat ≤ d.size.toNat) :
    wp (d.read length offset) Q E host
      ↔ Q (load host.mem (d.first + offset.toNat) length.toNat)
        (host.touch (d.first + offset.toNat) length.toNat) := by
  rw [DevMem.read, if_neg (add_le_of_fits hfits), wp_bind, wp_get, wp_bind, wp_modify, wp_pure,
    map_position h hfits, gather_congr host.mem fun i hi ↦ position_eq h (by omega)]
  rfl

/-- And written. -/
theorem wp_write (h : d.Mapped) {src : List UInt8} {offset : UInt64} {Q : PUnit → Host → Prop}
    (hfits : offset.toNat + src.length ≤ d.size.toNat) :
    wp (d.write src offset) Q E host
      ↔ Q ⟨⟩ (host.stored (d.first + offset.toNat) src) := by
  have hsize := d.size.toNat_lt
  have hlength : (UInt64.ofNat src.length).toNat = src.length := Nat.mod_eq_of_lt (by omega)
  rw [DevMem.write, if_neg (add_le_of_fits (by omega)), wp_modify, map_position h hfits,
    scatter_congr host.mem src fun i hi ↦ position_eq h (by omega)]
  rfl

end

/-! ## What the methods of the log do -/

namespace Log

/-- Header and ring are in the window, and the ring has a size that `print` accepts. -/
structure Laid (log : Log) (ring : UInt32) : Prop where
  min : logSizeMin.toNat ≤ ring.toNat
  max : ring.toNat ≤ logSizeMax.toNat
  fits : LogHeader.sizeof + ring.toNat ≤ log.size.toNat
  mapped : log.Mapped

/-- The header, as it is in memory. -/
def header (log : Log) (mem : Memory) : LogHeader where
  size := word mem (log.first + LogHeader.offsetofSize)
  read := word mem (log.first + LogHeader.offsetofRead)
  write := word mem (log.first + LogHeader.offsetofWrite)

/-- The cells of the ring. -/
def cell (log : Log) (mem : Memory) (i : Nat) : UInt8 := mem (log.first + LogHeader.sizeof + i)

theorem ofBytes_load (log : Log) (mem : Memory) :
    LogHeader.ofBytes (load mem log.first LogHeader.sizeof) = log.header mem := by
  simp only [LogHeader.ofBytes, LogHeader.field, header, word]
  rw [take_drop_load _ _ (by decide), take_drop_load _ _ (by decide),
    take_drop_load _ _ (by decide)]

/-- Every access made from `host` to `host'` was to the window. -/
def StaysInside (log : Log) (host host' : Host) : Prop :=
  ∃ accesses, host'.touched = accesses ++ host.touched ∧ ∀ a ∈ accesses, log.InWindow a

/-- What a program that reads the log does: it leaves the memory as it is, prints, and touches
nothing but the window. -/
structure Reads (log : Log) (printed : List UInt8) (host host' : Host) : Prop where
  mem : host'.mem = host.mem
  out : host'.out = host.out ++ printed
  inside : log.StaysInside host host'

variable {log : Log} {ring : UInt32} {host host' host'' : Host} {printed printed' : List UInt8}
  {E : Exception → Host → Prop}

theorem StaysInside.refl (log : Log) (host : Host) : log.StaysInside host host :=
  ⟨[], rfl, fun _ ha ↦ absurd ha List.not_mem_nil⟩

theorem StaysInside.trans (h : log.StaysInside host host') (h' : log.StaysInside host' host'') :
    log.StaysInside host host'' := by
  obtain ⟨accesses, heq, hin⟩ := h
  obtain ⟨accesses', heq', hin'⟩ := h'
  refine ⟨accesses' ++ accesses, by rw [heq', heq, List.append_assoc], fun a ha ↦ ?_⟩
  exact (List.mem_append.1 ha).elim (hin' a) (hin a)

theorem StaysInside.touch (host : Host) {a n : Nat} (hfirst : log.first ≤ a)
    (hlast : a + n ≤ log.first + log.size.toNat) : log.StaysInside host (host.touch a n) := by
  refine ⟨_, rfl, fun b hb ↦ ?_⟩
  obtain ⟨i, hi, rfl⟩ := List.mem_map.1 hb
  have hlt := List.mem_range.1 hi
  exact ⟨by omega, by omega⟩

theorem Reads.trans (h : Reads log printed host host') (h' : Reads log printed' host' host'') :
    Reads log (printed ++ printed') host host'' where
  mem := h'.mem.trans h.mem
  out := by rw [h'.out, h.out, List.append_assoc]
  inside := h.inside.trans h'.inside

theorem wp_readHeader (h : log.Laid ring) :
    wp log.readHeader (fun header host' ↦ header = log.header host.mem ∧ Reads log [] host host') E
      host := by
  have hfits := h.fits
  have hsizeof : (UInt64.ofNat LogHeader.sizeof).toNat = LogHeader.sizeof := by decide
  rw [readHeader, wp_bind, wp_read h.mapped (by rw [hsizeof]; simp; omega), wp_pure, hsizeof]
  exact ⟨ofBytes_load log host.mem, rfl, (List.append_nil _).symm,
    StaysInside.touch _ (Nat.le_add_right _ _) (by simp; omega)⟩

theorem wp_writeRead (h : log.Laid ring) (rpos : UInt32) :
    wp (log.writeRead rpos) (fun _ host' ↦
      host'.mem = storeWord host.mem (log.first + LogHeader.offsetofRead) rpos
        ∧ host'.out = host.out ∧ log.StaysInside host host') E host := by
  have hfits := h.fits
  have hoffset : (UInt64.ofNat LogHeader.offsetofRead).toNat = LogHeader.offsetofRead := by decide
  have hlayout : LogHeader.offsetofRead + 4 ≤ LogHeader.sizeof := by decide
  rw [writeRead, wp_write h.mapped (by rw [hoffset, length_encode]; omega), hoffset]
  exact ⟨rfl, rfl, StaysInside.touch _ (Nat.le_add_right _ _) (by rw [length_encode]; omega)⟩

/-- Clearing sets `header.read` to `header.write`, and does nothing else. -/
theorem wp_clear (h : log.Laid ring) :
    wp log.clear (fun _ host' ↦
      host'.mem
          = storeWord host.mem (log.first + LogHeader.offsetofRead) (log.header host.mem).write
        ∧ host'.out = host.out ∧ log.StaysInside host host') E host := by
  rw [clear, wp_bind]
  refine wp_mono (wp_readHeader h) (fun header host₁ hread ↦ ?_) (fun _ _ he ↦ he)
  obtain ⟨rfl, hreads⟩ := hread
  refine wp_mono (wp_writeRead h _) (fun _ host₂ hwrite ↦ ?_) (fun _ _ he ↦ he)
  obtain ⟨hmem, hout, hinside⟩ := hwrite
  exact ⟨by rw [hmem, hreads.mem], by rw [hout, hreads.out, List.append_nil],
    hreads.inside.trans hinside⟩

/-- The position `print` starts at: `header.read`, or the oldest position left in the ring. -/
theorem start_eq {header : LogHeader} (hmin : logSizeMin.toNat ≤ header.size.toNat)
    (hmax : header.size.toNat ≤ logSizeMax.toNat) : ∃ rpos : UInt64, start header = pure rpos
      ∧ rpos.toNat = max header.read.toNat (header.write.toNat - header.size.toNat) := by
  have hread := header.read.toNat_lt
  have hsize := header.size.toNat_lt
  have hwrite := header.write.toNat_lt
  have hok : ¬ (header.size.toUInt64 < logSizeMin ∨ header.size.toUInt64 > logSizeMax) := by
    rw [gt_iff_lt, UInt64.lt_iff_toNat_lt, UInt64.lt_iff_toNat_lt, UInt32.toNat_toUInt64]
    omega
  have hsum : (header.read.toUInt64 + header.size.toUInt64).toNat
      = header.read.toNat + header.size.toNat := by
    rw [UInt64.toNat_add, UInt32.toNat_toUInt64, UInt32.toNat_toUInt64]
    exact Nat.mod_eq_of_lt (by omega)
  rw [start, if_neg hok]
  by_cases hbehind : header.read.toUInt64 + header.size.toUInt64 < header.write.toUInt64
  · refine ⟨_, if_pos hbehind, ?_⟩
    rw [UInt64.lt_iff_toNat_lt, hsum, UInt32.toNat_toUInt64] at hbehind
    rw [UInt32.toNat_toUInt64, UInt32.toNat_sub_of_le _ _ (UInt32.le_iff_toNat_le.2 (by omega))]
    omega
  · refine ⟨_, if_neg hbehind, ?_⟩
    rw [UInt64.lt_iff_toNat_lt, hsum, UInt32.toNat_toUInt64] at hbehind
    rw [UInt32.toNat_toUInt64]
    omega

theorem wp_printChar (h : log.Laid ring) {header : LogHeader} (hring : header.size = ring)
    (rpos : UInt64) :
    wp (log.printChar header rpos) (fun _ host' ↦
      Reads log [log.cell host.mem (rpos.toNat % ring.toNat)] host host') E host := by
  subst hring
  have hfits := h.fits
  have hmin := h.min
  have hpos : 0 < header.size.toNat := Nat.lt_of_lt_of_le (by decide) hmin
  have hmod := Nat.mod_lt rpos.toNat hpos
  have hsize := header.size.toNat_lt
  have hsizeof : (UInt64.ofNat LogHeader.sizeof).toNat = LogHeader.sizeof := by decide
  have hlayout : LogHeader.sizeof = 36 := rfl
  have hoffset : (rpos % header.size.toUInt64 + .ofNat LogHeader.sizeof).toNat
      = rpos.toNat % header.size.toNat + LogHeader.sizeof := by
    rw [UInt64.toNat_add, UInt64.toNat_mod, UInt32.toNat_toUInt64, hsizeof]
    exact Nat.mod_eq_of_lt (by omega)
  rw [printChar, wp_bind, wp_read h.mapped (by rw [hoffset, UInt64.toNat_one]; omega), wp_modify,
    hoffset]
  have hload : load host.mem (log.first + (rpos.toNat % header.size.toNat + LogHeader.sizeof)) 1
      = [log.cell host.mem (rpos.toNat % header.size.toNat)] := by
    rw [cell, Nat.add_comm _ LogHeader.sizeof, ← Nat.add_assoc]
    rfl
  exact ⟨rfl, by rw [← hload]; rfl,
    StaysInside.touch host (Nat.le_add_right _ _) (by rw [UInt64.toNat_one]; omega)⟩

/-- The loop prints the cells of all positions up to `header.write`. -/
theorem wp_printFrom (h : log.Laid ring) {header : LogHeader} (hring : header.size = ring) {n : Nat}
    {rpos : UInt64} (hn : header.write.toNat - rpos.toNat = n) :
    wp (log.printFrom header rpos) (fun _ host' ↦
      Reads log (Ring.range (log.cell host.mem) ring.toNat rpos.toNat n) host host') E host := by
  induction n generalizing rpos host with
  | zero =>
    have hdone : ¬ rpos < header.write.toUInt64 := by
      rw [Narrow.lt_toUInt64]
      omega
    rw [printFrom, dif_neg hdone, wp_pure]
    exact ⟨rfl, (List.append_nil _).symm, StaysInside.refl log host⟩
  | succ n ih =>
    have hlt : rpos.toNat < header.write.toNat := by omega
    have hmore : rpos < header.write.toUInt64 := Narrow.lt_toUInt64.2 hlt
    have hnext := Narrow.toNat_succ hlt
    rw [printFrom, dif_pos hmore, wp_bind]
    refine wp_mono (wp_printChar h hring rpos) (fun _ host₁ hchar ↦ ?_) (fun _ _ he ↦ he)
    refine wp_mono (ih (by rw [hnext]; omega)) (fun _ host₂ hrest ↦ ?_) (fun _ _ he ↦ he)
    rw [Ring.range_succ, ← hnext, ← hchar.mem]
    rw [hchar.mem] at hrest ⊢
    exact hchar.trans hrest

/-- Printing prints what is pending, as far as the ring still has it, and changes nothing. -/
theorem wp_print (h : log.Laid ring) (hring : (log.header host.mem).size = ring) :
    wp log.print (fun _ host' ↦
      Reads log (Ring.range (log.cell host.mem) ring.toNat
        (max (log.header host.mem).read.toNat ((log.header host.mem).write.toNat - ring.toNat))
        ((log.header host.mem).write.toNat
          - max (log.header host.mem).read.toNat ((log.header host.mem).write.toNat - ring.toNat)))
        host host') E host := by
  rw [print, wp_bind]
  refine wp_mono (wp_readHeader h) (fun header host₁ hread ↦ ?_) (fun _ _ he ↦ he)
  obtain ⟨rfl, hreads⟩ := hread
  subst hring
  obtain ⟨rpos, hstart, hrpos⟩ := start_eq h.min h.max
  rw [hstart, wp_bind, wp_pure]
  refine wp_mono (wp_printFrom h rfl rfl) (fun _ host₂ hprinted ↦ ?_) (fun _ _ he ↦ he)
  rw [← hrpos]
  rw [hreads.mem] at hprinted
  exact hreads.trans hprinted

end Log

end EthosuLogd

end EthosU
