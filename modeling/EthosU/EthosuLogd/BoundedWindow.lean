import EthosU.EthosuLogd.DevMem

/-!
# The bounds of a window

`DevMem::read` and `DevMem::write` compare `offset + length` with the size of the window, and both
are `size_t`: the sum wraps around.  So does the subscript in the loops that copy the bytes.  This
file says for which ranges they are the operations of a bounded window all the same.

* `DevMem.readTo` is `read` with the buffer that it fills.
* `DevMem.Bounded` is what a bounded window does with a range: it refuses what is not in the window
  and changes nothing; it reads the bytes of the window; it changes the bytes that are written,
  which then are read again, and no others.
* `DevMem.bounded_iff` is exactly when this holds.  `DevMem.bounded_iff_of_mapped` is the same for a
  window that ends before the end of the address space.
-/

set_option autoImplicit false

namespace EthosU

namespace EthosuLogd

open Bytes

namespace DevMem

/-! ## What a bounded window does -/

/-- `read(dst, length, offset)`: what it throws, if it does, and what `dst` points to afterwards. -/
def readTo (d : DevMem) (dst : Memory) (length offset : UInt64) (host : Host) :
    Option Exception × Memory × Host :=
  match d.read length offset host with
  | .ok bytes host' => (none, store dst 0 bytes, host')
  | .error e host' => (some e, dst, host')

/-- The range is in the window. -/
def Fits (d : DevMem) (length offset : UInt64) : Prop :=
  offset.toNat + length.toNat ≤ d.size.toNat

instance (d : DevMem) (length offset : UInt64) : Decidable (d.Fits length offset) :=
  inferInstanceAs (Decidable (_ ≤ _))

/-- The bytes of the window. -/
def byte (d : DevMem) (mem : Memory) (i : Nat) : UInt8 := mem (d.first + i)

/-- Reading a range into `dst`. -/
structure ReadsRange (d : DevMem) (length offset : UInt64) (dst : Memory) (host : Host) : Prop where
  refused : ¬ d.Fits length offset → ∃ e, d.readTo dst length offset host = (some e, dst, host)
  done : d.Fits length offset → ∃ dst' host', d.readTo dst length offset host = (none, dst', host')
    ∧ (∀ i < length.toNat, dst' i = d.byte host.mem (offset.toNat + i))
    ∧ (∀ i, length.toNat ≤ i → dst' i = dst i) ∧ host'.mem = host.mem

/-- What is different after `src` has been written. -/
structure Written (d : DevMem) (src : List UInt8) (offset : UInt64) (host host' : Host) : Prop where
  inside : ∀ i (h : i < src.length), d.byte host'.mem (offset.toNat + i) = src[i]
  outside : ∀ a, a < d.first + offset.toNat ∨ d.first + offset.toNat + src.length ≤ a →
    host'.mem a = host.mem a
  readBack : ∀ dst, ∃ dst' host'',
    d.readTo dst (.ofNat src.length) offset host' = (none, dst', host'')
      ∧ ∀ i (h : i < src.length), dst' i = src[i]
  elsewhere : ∀ dst length' offset', d.Fits length' offset' →
    offset'.toNat + length'.toNat ≤ offset.toNat ∨ offset.toNat + src.length ≤ offset'.toNat →
    (d.readTo dst length' offset' host').1 = (d.readTo dst length' offset' host).1
      ∧ (d.readTo dst length' offset' host').2.1 = (d.readTo dst length' offset' host).2.1

/-- Writing `src` to a range. -/
structure WritesRange (d : DevMem) (src : List UInt8) (offset : UInt64) (host : Host) : Prop where
  refused : ¬ d.Fits (.ofNat src.length) offset → ∃ e, d.write src offset host = .error e host
  done : d.Fits (.ofNat src.length) offset →
    ∃ host', d.write src offset host = .ok ⟨⟩ host' ∧ d.Written src offset host host'

/-- The range is read and written as in a bounded window, whatever is in memory. -/
def Bounded (d : DevMem) (length offset : UInt64) : Prop :=
  (∀ dst host, d.ReadsRange length offset dst host)
    ∧ ∀ src host, src.length = length.toNat → d.WritesRange src offset host

/-! ## What `read` and `write` do -/

variable {d : DevMem} {length offset : UInt64}

theorem read_of_lt (h : d.size < offset + length) (host : Host) :
    d.read length offset host = .error ⟨"Read failed"⟩ host := by
  rw [DevMem.read, if_pos h]
  rfl

theorem read_of_le (h : ¬ d.size < offset + length) (host : Host) :
    d.read length offset host = .ok (gather host.mem (d.position offset) length.toNat)
      { host with
        touched := (List.range length.toNat).map (d.position offset) ++ host.touched } := by
  rw [DevMem.read, if_neg h]
  rfl

theorem write_of_lt {src : List UInt8} (h : d.size < offset + .ofNat src.length) (host : Host) :
    d.write src offset host = .error ⟨"Write failed"⟩ host := by
  rw [DevMem.write, if_pos h]
  rfl

theorem write_of_le {src : List UInt8} (h : ¬ d.size < offset + .ofNat src.length) (host : Host) :
    d.write src offset host = .ok ⟨⟩
      { host with
        mem := scatter host.mem (d.position offset) src
        touched := (List.range src.length).map (d.position offset) ++ host.touched } := by
  rw [DevMem.write, if_neg h]
  rfl

/-- The subscript as a number. -/
theorem position_eq_mod (d : DevMem) (offset : UInt64) (i : Nat) :
    d.position offset i = d.base + (d.pageOffset.toNat + offset.toNat + i) % 2 ^ 64 := by
  rw [position, UInt64.toNat_add, UInt64.toNat_add, UInt64.toNat_ofNat', Nat.mod_add_mod,
    Nat.add_mod_mod]

/-- A subscript that does not wrap around is the one of the byte of the window. -/
theorem position_of_lt {i : Nat} (h : d.pageOffset.toNat + offset.toNat + i < 2 ^ 64) :
    d.position offset i = d.first + (offset.toNat + i) := by
  rw [position_eq_mod, Nat.mod_eq_of_lt h, first]
  omega

/-- One that does wrap around comes out before the window. -/
theorem position_of_le {i : Nat} (h : 2 ^ 64 ≤ d.pageOffset.toNat + offset.toNat + i)
    (hi : offset.toNat + i < d.size.toNat) : d.position offset i < d.first := by
  have hpage := d.pageOffset.toNat_lt
  have hsize := d.size.toNat_lt
  rw [position_eq_mod, first]
  omega

theorem readTo_of_lt (h : d.size < offset + length) (dst : Memory) (host : Host) :
    d.readTo dst length offset host = (some ⟨"Read failed"⟩, dst, host) := by
  rw [readTo, read_of_lt h]

theorem readTo_of_le (h : ¬ d.size < offset + length) (dst : Memory) (host : Host) :
    d.readTo dst length offset host
      = (none, store dst 0 (gather host.mem (d.position offset) length.toNat),
        { host with
          touched := (List.range length.toNat).map (d.position offset) ++ host.touched }) := by
  rw [readTo, read_of_le h]

/-! ## Ranges for which the check is right -/

/-- A read of a range in the window does not depend on memory behind it, nor on what lies in the
window outside the range: the subscripts that wrap around are before the window. -/
theorem readTo_congr (hfits : d.Fits length offset) {host host' : Host}
    (hbefore : ∀ a < d.first, host'.mem a = host.mem a)
    (hrange : ∀ i < length.toNat, d.byte host'.mem (offset.toNat + i)
      = d.byte host.mem (offset.toNat + i)) (dst : Memory) :
    (d.readTo dst length offset host').1 = (d.readTo dst length offset host).1
      ∧ (d.readTo dst length offset host').2.1 = (d.readTo dst length offset host).2.1 := by
  have hle : ¬ d.size < offset + length := add_le_of_fits hfits
  have hgather : gather host'.mem (d.position offset) length.toNat
      = gather host.mem (d.position offset) length.toNat := by
    refine List.map_congr_left fun i hi ↦ ?_
    have hlt := List.mem_range.1 hi
    rcases Nat.lt_or_ge (d.pageOffset.toNat + offset.toNat + i) (2 ^ 64) with hplain | hwraps
    · rw [position_of_lt hplain]
      exact hrange i hlt
    · exact hbefore _ (position_of_le hwraps (by rw [Fits] at hfits; omega))
  rw [readTo_of_le hle, readTo_of_le hle, hgather]
  exact ⟨rfl, rfl⟩

/-- Bytes that are read with the subscripts of the window. -/
theorem readsRange_of_position (hfits : d.Fits length offset)
    (hposition : ∀ i < length.toNat, d.position offset i = d.first + (offset.toNat + i))
    (dst : Memory) (host : Host) : d.ReadsRange length offset dst host := by
  refine ⟨fun h ↦ absurd hfits h, fun _ ↦ ⟨_, _, readTo_of_le (add_le_of_fits hfits) dst host,
    fun i hi ↦ ?_, fun i hi ↦ store_frame _ _ (.inr (by simpa [gather] using hi)), rfl⟩⟩
  rw [store_gather _ _ _ hi, hposition i hi, byte]

/-- Bytes that are written with the subscripts of the window. -/
theorem writesRange_of_position {src : List UInt8} (hlen : src.length = length.toNat)
    (hfits : d.Fits length offset)
    (hposition : ∀ i < length.toNat, d.position offset i = d.first + (offset.toNat + i))
    (host : Host) : d.WritesRange src offset host := by
  have hlength : UInt64.ofNat src.length = length := by rw [hlen, UInt64.ofNat_toNat]
  have hscatter : scatter host.mem (d.position offset) src
      = store host.mem (d.first + offset.toNat) src :=
    scatter_congr _ _ fun i hi ↦ by rw [hposition i (hlen ▸ hi), Nat.add_assoc]
  have hwrite := write_of_le (by rw [hlength]; exact add_le_of_fits hfits) host
  refine ⟨fun h ↦ absurd (hlength ▸ hfits) h, fun _ ↦ ⟨_, hwrite, ?_⟩⟩
  rw [hscatter]
  have hinside : ∀ i (h : i < src.length),
      store host.mem (d.first + offset.toNat) src (d.first + (offset.toNat + i)) = src[i] := by
    intro i hi
    rw [← Nat.add_assoc, store_add _ _ hi]
  refine ⟨hinside, fun a ha ↦ store_frame _ _ ha, fun dst ↦ ?_, fun dst length' offset' hfits' h ↦
    ?_⟩
  · have hreads := readsRange_of_position hfits hposition dst
    rw [hlength]
    obtain ⟨dst', host'', hread, hbytes, -⟩ := (hreads _).done hfits
    refine ⟨dst', host'', hread, fun i hi ↦ ?_⟩
    rw [hbytes i (hlen ▸ hi)]
    exact hinside i hi
  · refine readTo_congr hfits' (fun a ha ↦ store_frame _ _ (.inl (by omega))) (fun i hi ↦ ?_) dst
    exact store_frame _ _ (by omega)

/-- The check refuses the range. -/
theorem bounded_of_lt (h : d.size < offset + length) : d.Bounded length offset := by
  have hfits : ¬ d.Fits length offset := fun hfits ↦ add_le_of_fits hfits h
  refine ⟨fun dst host ↦ ⟨fun _ ↦ ⟨_, readTo_of_lt h dst host⟩, fun h' ↦ absurd h' hfits⟩, ?_⟩
  intro src host hlen
  have hlength : UInt64.ofNat src.length = length := by rw [hlen, UInt64.ofNat_toNat]
  refine ⟨fun _ ↦ ⟨_, write_of_lt (hlength ▸ h) host⟩, fun h' ↦ absurd (hlength ▸ h') hfits⟩

/-- The range is in the window, and its last subscript does not wrap around. -/
theorem bounded_of_fits (hfits : d.Fits length offset)
    (hplain : length = 0 ∨ d.pageOffset.toNat + offset.toNat + length.toNat ≤ 2 ^ 64) :
    d.Bounded length offset := by
  have hposition : ∀ i < length.toNat, d.position offset i = d.first + (offset.toNat + i) := by
    intro i hi
    rcases hplain with rfl | hplain
    · simp at hi
    · exact position_of_lt (by omega)
  exact ⟨readsRange_of_position hfits hposition,
    fun src host hlen ↦ writesRange_of_position hlen hfits hposition host⟩

/-! ## Ranges for which it is not -/

/-- The sum wraps around to a place in the window. -/
theorem not_bounded_of_not_fits (h : ¬ d.size < offset + length) (hfits : ¬ d.Fits length offset) :
    ¬ d.Bounded length offset := by
  intro hbounded
  obtain ⟨e, hread⟩ := (hbounded.1 (fun _ ↦ 0) ⟨fun _ ↦ 0, [], []⟩).refused hfits
  rw [readTo_of_le h] at hread
  simp at hread

/-- The subscript of the last byte wraps around to a place before the window. -/
theorem not_bounded_of_wraps (hfits : d.Fits length offset) (hpos : length ≠ 0)
    (hwraps : 2 ^ 64 < d.pageOffset.toNat + offset.toNat + length.toNat) :
    ¬ d.Bounded length offset := by
  intro hbounded
  have hlength : 0 < length.toNat := by
    rw [Nat.pos_iff_ne_zero, Ne, ← UInt64.toNat_zero, UInt64.toNat_inj]
    exact hpos
  have hlast : offset.toNat + (length.toNat - 1) < d.size.toNat := by
    rw [Fits] at hfits
    omega
  -- a memory that differs from the others at the last byte of the range
  let mem : Memory := Function.update (fun _ ↦ 0) (d.first + (offset.toNat + (length.toNat - 1))) 1
  obtain ⟨dst', host', hread, hbytes, -⟩ := (hbounded.1 (fun _ ↦ 0) ⟨mem, [], []⟩).done hfits
  rw [readTo_of_le (add_le_of_fits hfits), Prod.mk.injEq, Prod.mk.injEq] at hread
  have hbyte := hbytes (length.toNat - 1) (by omega)
  have hbefore : d.position offset (length.toNat - 1) < d.first := position_of_le (by omega) hlast
  rw [← hread.2.1, store_gather _ _ _ (by omega), byte] at hbyte
  simp only [mem, Function.update_self] at hbyte
  rw [Function.update_of_ne (by omega)] at hbyte
  simp at hbyte

/-! ## The whole law -/

/-- **A bounded window, almost.**  `read` and `write` do what a window of `size` bytes does exactly
if the check refuses the range, or if the range is in the window and its subscripts do not wrap
around. -/
theorem bounded_iff (d : DevMem) (length offset : UInt64) :
    d.Bounded length offset ↔ d.size < offset + length ∨ (d.Fits length offset
      ∧ (length = 0 ∨ d.pageOffset.toNat + offset.toNat + length.toNat ≤ 2 ^ 64)) := by
  refine ⟨fun h ↦ ?_, fun h ↦ ?_⟩
  · by_cases hlt : d.size < offset + length
    · exact .inl hlt
    · have hfits : d.Fits length offset := Decidable.not_not.1
        fun hfits ↦ not_bounded_of_not_fits hlt hfits h
      refine .inr ⟨hfits, Decidable.or_iff_not_imp_left.2 fun hpos ↦ Nat.not_lt.1 fun hwraps ↦ ?_⟩
      exact not_bounded_of_wraps hfits hpos hwraps h
  · rcases h with hlt | ⟨hfits, hplain⟩
    · exact bounded_of_lt hlt
    · exact bounded_of_fits hfits hplain

/-- In a window that ends before the end of the address space, only the sum can go wrong. -/
theorem bounded_iff_of_mapped (hmapped : d.Mapped) :
    d.Bounded length offset
      ↔ offset.toNat + length.toNat < 2 ^ 64 ∨ d.size < offset + length := by
  rw [Mapped] at hmapped
  refine ⟨fun h ↦ ?_, fun h ↦ ?_⟩
  · refine Decidable.or_iff_not_imp_right.2 fun hlt ↦ Nat.not_le.1 fun hwraps ↦ ?_
    refine not_bounded_of_not_fits hlt (fun hfits ↦ ?_) h
    rw [Fits] at hfits
    omega
  · rcases h with hsum | hlt
    · by_cases hlt : d.size < offset + length
      · exact bounded_of_lt hlt
      · rw [UInt64.lt_iff_toNat_lt, UInt64.toNat_add, Nat.mod_eq_of_lt hsum] at hlt
        exact bounded_of_fits (Nat.not_lt.1 hlt) (.inr (by omega))
    · exact bounded_of_lt hlt

/-- A window with room for the header of a log.  The byte before it is read instead of refused. -/
theorem not_bounded_before :
    ¬ (⟨0x1000, 16, 36⟩ : DevMem).Bounded 1 (0 - 1)
      ∧ ∀ dst host, ((⟨0x1000, 16, 36⟩ : DevMem).readTo dst 1 (0 - 1) host).1 = none
        ∧ ((⟨0x1000, 16, 36⟩ : DevMem).readTo dst 1 (0 - 1) host).2.1 0 = host.mem 0x100f := by
  refine ⟨not_bounded_of_not_fits (by decide) (by decide), fun dst host ↦ ?_⟩
  rw [readTo_of_le (by decide)]
  exact ⟨rfl, store_gather _ _ _ (by decide)⟩

end DevMem

end EthosuLogd

end EthosU
