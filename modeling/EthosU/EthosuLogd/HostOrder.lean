import EthosU.EthosuLogd.DeviceTree

/-!
# The host and the order of its bytes

The device tree stores integers with the most significant byte first.  `toCpu` copies the bytes in
the opposite order unless `isBigEndian` says that the host has that order too, and `isBigEndian`
looks at the value of an integer, which is the same on every host: it never says so.

* `DTS.getInt_encodeBig_iff`: an integer comes out as it has been written exactly if the host has
  the least significant byte first, or if the bytes of the integer read the same in both directions.
* `DTS.getRegByIndex_bigEndian`: on a host with the most significant byte first, no region of a node
  that has a file `#address-cells` is found.
-/

set_option autoImplicit false

namespace EthosU

namespace EthosuLogd

open Bytes

/-! ## Bytes that are stored in the opposite order -/

/-- What a host makes of the bytes of a big-endian integer, after they have been reversed. -/
theorem ByteOrder.value_reverse_encodeBig (order : ByteOrder) {k v : Nat} (hv : v < 256 ^ k) :
    order.value (encodeBig k v).reverse = v
      ↔ order = .littleEndian ∨ encodeBig k v = encode k v := by
  cases order with
  | littleEndian => simp [value, decode_reverse_encodeBig hv]
  | bigEndian =>
    have hencode : decode (encode k v) = v := by
      rw [decode_encode, Nat.mod_eq_of_lt hv]
    rw [value, List.reverse_reverse]
    refine ⟨fun h ↦ .inr (decode_injective (by simp) (h.trans hencode.symm)), fun h ↦ ?_⟩
    rcases h with h | h
    · simp at h
    · rw [h, hencode]

theorem ByteOrder.value_lt (order : ByteOrder) (bytes : List UInt8) :
    order.value bytes < 256 ^ bytes.length := by
  cases order with
  | littleEndian => exact decode_lt bytes
  | bigEndian => simpa [value] using decode_lt bytes.reverse

namespace DTS

variable {fs : FileSystem} {dts : DTS} {order : ByteOrder}

/-! ## One integer -/

/-- An integer of at most eight bytes fits into the type that holds all of them. -/
theorem pow_width_le {size : UInt64} (h : size = 1 ∨ size = 2 ∨ size = 4 ∨ size = 8) :
    256 ^ size.toNat ≤ 2 ^ 64 := by
  rcases h with rfl | rfl | rfl | rfl <;> decide

/-- **What has been written is read** exactly if the low byte comes first on the host, or if the
bytes of the integer are the same in both orders, as a single byte is. -/
theorem getInt_encodeBig_iff {name : Text} {before rest : List UInt8} {offset size : UInt64}
    {v : Nat} (hproperty : dts.getProperty fs name = before ++ encodeBig size.toNat v ++ rest)
    (hoffset : offset.toNat = before.length)
    (hsize : size = 1 ∨ size = 2 ∨ size = 4 ∨ size = 8) (hv : v < 256 ^ size.toNat) :
    dts.getInt fs order name offset size = .ok (.ofNat v)
      ↔ order = .littleEndian ∨ encodeBig size.toNat v = encode size.toNat v := by
  have hlt : order.value (encodeBig size.toNat v).reverse < 2 ^ 64 := by
    have h := order.value_lt (encodeBig size.toNat v).reverse
    rw [List.length_reverse, length_encodeBig] at h
    exact h.trans_le (pow_width_le hsize)
  have hv' : v < 2 ^ 64 := hv.trans_le (pow_width_le hsize)
  rw [getInt_eq order hproperty hoffset (length_encodeBig _ _) hsize,
    ← order.value_reverse_encodeBig hv, Except.ok.injEq, ← UInt64.toNat_inj, UInt64.toNat_ofNat',
    UInt64.toNat_ofNat', Nat.mod_eq_of_lt hlt, Nat.mod_eq_of_lt hv']

/-- The address of the second region, behind the address and the size of the first one. -/
theorem getInt_address :
    DTS.getInt twoRegionsFiles .littleEndian ⟨⟨bytes "/npu"⟩⟩ (bytes "reg") 12 4
      = .ok 0x2a020000 := by
  have hproperty : DTS.getProperty twoRegionsFiles ⟨⟨bytes "/npu"⟩⟩ (bytes "reg")
      = twoRegions.reg.take 12 ++ encodeBig (4 : UInt64).toNat 0x2a020000
        ++ twoRegions.reg.drop 16 := by decide
  exact (getInt_encodeBig_iff hproperty (by decide) (by decide) (by decide)).2 (.inl rfl)

/-- With the high byte first on the host, the number one comes out as `0x01000000`. -/
theorem not_getInt_encodeBig :
    ¬ ∀ (fs : FileSystem) (order : ByteOrder) (dts : DTS) (name : Text)
      (before rest : List UInt8) (offset size : UInt64) (v : Nat),
      dts.getProperty fs name = before ++ encodeBig size.toNat v ++ rest →
      offset.toNat = before.length → (size = 1 ∨ size = 2 ∨ size = 4 ∨ size = 8) →
      v < 256 ^ size.toNat → dts.getInt fs order name offset size = .ok (.ofNat v) := by
  intro h
  have hone := h twoRegionsFiles .bigEndian ⟨⟨bytes "/npu"⟩⟩ (bytes "#address-cells") [] [] 0 4 1
    (by decide) rfl (by decide) (by decide)
  have hread : DTS.getInt twoRegionsFiles .bigEndian ⟨⟨bytes "/npu"⟩⟩ (bytes "#address-cells") 0 4
      = .ok 0x01000000 := by rfl
  rw [hread] at hone
  exact absurd hone (by decide)

/-! ## A whole region -/

/-- A number of cells that a file has is shifted to the other end of the word. -/
theorem getCells_bigEndian (habs : dts.path.Absolute) {name : Text}
    (hname : name.take 1 ≠ bytes "/") {content : Content} {cells : UInt64}
    (hcells : cells = 1 ∨ cells = 2) (hcontent : fs.content (dts.path / name) = some content)
    (hwritten : content.bytes = encodeBig 4 cells.toNat) :
    dts.getCells fs .bigEndian name = .ok (cells <<< 24) := by
  have hproperty : dts.getProperty fs (dts.path / name).path
      = [] ++ encodeBig 4 cells.toNat ++ [] := by
    rw [getProperty, Path.div_of_absolute (habs.div hname), FileSystem.slurp, hcontent,
      List.nil_append, List.append_nil]
    exact hwritten
  rw [getCells, Path.exists, hcontent, Option.isSome_some, if_pos rfl,
    getInt_eq .bigEndian hproperty rfl (length_encodeBig _ _) (.inr (.inr (.inl rfl)))]
  rcases hcells with rfl | rfl <;> rfl

/-- **No region is found** where the high byte comes first, as soon as a file has the number of the
address cells: the address would have to be an integer of 2^26 or 2^27 bytes. -/
theorem getRegByIndex_bigEndian {node : Node} (habs : dts.path.Absolute)
    (hwritten : node.WrittenTo fs dts.path) {content : Content}
    (haddress : fs.content (dts.path / bytes "#address-cells") = some content) (index : UInt64) :
    dts.getRegByIndex fs .bigEndian index = .error (.exception ⟨"Illegal integer size"⟩) := by
  have haddressCells := hwritten.addressCells
  have hsizeCells := hwritten.sizeCells
  simp only [CellsWritten, haddress] at haddressCells
  obtain ⟨sizeCell, hsizeCell⟩ : ∃ n, dts.getCells fs .bigEndian (bytes "#size-cells") = .ok n := by
    rcases hsize : fs.content (dts.path / bytes "#size-cells") with _ | content'
    · exact ⟨2, by simp [getCells, Path.exists, hsize, pure, Except.pure]⟩
    · simp only [CellsWritten, hsize] at hsizeCells
      exact ⟨_, getCells_bigEndian habs (by decide) node.sizeCells_eq hsize hsizeCells⟩
  have hillegal : ∀ offset, dts.getInt fs .bigEndian (bytes "reg") offset
      (node.addressCells <<< 24 * 4) = .error (.exception ⟨"Illegal integer size"⟩) := by
    intro offset
    rcases node.addressCells_eq with h | h <;> rw [h] <;> rfl
  simp only [getRegByIndex, getAddressCells, getSizeCells, hsizeCell, hillegal, bind, Except.bind,
    getCells_bigEndian habs (by decide) node.addressCells_eq haddress haddressCells]

end DTS

end EthosuLogd

end EthosU
