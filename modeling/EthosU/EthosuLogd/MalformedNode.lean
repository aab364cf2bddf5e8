import EthosU.EthosuLogd.DeviceTree

/-!
# Malformed nodes

Nobody checks the files of a node before they are read: a property may be shorter than what
`getInt` is asked to take from it.  This file says what a lookup does with arbitrary files, and when
it does not read behind the end of a property: it avoids `Failure.overread`.

* `DTS.getInt_cases` is what `getInt` does with any property.
* `DTS.CellsHeld` and `DTS.RegionHeld` say that the integers which a lookup takes from the files are
  in them, as far as it gets; a number of cells that no integer has ends it early.
* `DTS.getRegByName_inside_iff`: a lookup stays inside the properties exactly if these hold of the
  region it looks for.
-/

set_option autoImplicit false

namespace EthosU

namespace EthosuLogd

open Bytes Fallible

/-- Steps of which one reads too far, while none fails in any other way. -/
private theorem mapM_overread {α β : Type} {f : α → Except Failure β} {l : List α}
    (hall : ∀ a ∈ l, (∃ b, f a = .ok b) ∨ f a = .error .overread)
    (hex : ∃ a ∈ l, f a = .error .overread) : l.mapM f = .error .overread := by
  obtain ⟨a, ha, hover⟩ := hex
  by_contra hinside
  refine (avoids_mapM fun b hb e he ↦ ?_).1 hinside a ha hover
  rcases hall b hb with ⟨c, hc⟩ | hover'
  · cases hc.symm.trans he
  · cases hover'.symm.trans he
    rfl

namespace DTS

/-! ## Any property -/

/-- The integer of `size` bytes at an offset lies in a property. -/
def Held (property : List UInt8) (offset size : UInt64) : Prop :=
  offset.toNat + size.toNat ≤ property.length

instance (property : List UInt8) (offset size : UInt64) : Decidable (Held property offset size) :=
  inferInstanceAs (Decidable (_ ≤ _))

/-- The integer there, as the host gets it. -/
def intAt (order : ByteOrder) (property : List UInt8) (offset size : UInt64) : UInt64 :=
  .ofNat (order.value ((property.drop offset.toNat).take size.toNat).reverse)

variable (fs : FileSystem) (order : ByteOrder) (dts : DTS)

theorem byteAt_cases (property : List UInt8) (k : Nat) :
    (∃ b, byteAt property k = .ok b) ∨ byteAt property k = .error .overread := by
  rw [byteAt]
  rcases property[k]? with _ | b
  · exact .inr rfl
  · exact .inl ⟨b, rfl⟩

theorem byteAt_eq_overread {property : List UInt8} {k : Nat} (h : property.length ≤ k) :
    byteAt property k = .error .overread := by
  rw [byteAt, List.getElem?_eq_none h]
  rfl

/-- An integer that does not lie in a property. -/
theorem toCpu_overread {property : List UInt8} {offset sizeofT : Nat} (hpos : 0 < sizeofT)
    (h : property.length < offset + sizeofT) :
    toCpu order sizeofT (fun i ↦ byteAt property (offset + i)) = .error .overread := by
  have hdst : (List.range sizeofT).mapM (fun i ↦ byteAt property (offset + (sizeofT - 1 - i)))
      = .error .overread := by
    refine mapM_overread (fun i _ ↦ byteAt_cases property _) ⟨0, List.mem_range.2 hpos, ?_⟩
    exact byteAt_eq_overread (by omega)
  have hfalse : isBigEndian = false := by decide
  rw [toCpu, hfalse, if_neg Bool.false_ne_true, hdst]
  rfl

/-- **What `getInt` does with any property.** -/
theorem getInt_cases (name : Text) (offset size : UInt64) :
    dts.getInt fs order name offset size
      = if size = 1 ∨ size = 2 ∨ size = 4 ∨ size = 8 then
          if Held (dts.getProperty fs name) offset size then
            .ok (intAt order (dts.getProperty fs name) offset size)
          else .error .overread
        else .error (.exception ⟨"Illegal integer size"⟩) := by
  by_cases hsize : size = 1 ∨ size = 2 ∨ size = 4 ∨ size = 8
  · rw [if_pos hsize]
    by_cases hheld : Held (dts.getProperty fs name) offset size
    · rw [if_pos hheld]
      rw [Held] at hheld
      have hproperty : dts.getProperty fs name
          = (dts.getProperty fs name).take offset.toNat
            ++ ((dts.getProperty fs name).drop offset.toNat).take size.toNat
            ++ ((dts.getProperty fs name).drop offset.toNat).drop size.toNat := by
        rw [List.append_assoc, List.take_append_drop, List.take_append_drop]
      refine getInt_eq order hproperty ?_ ?_ hsize
      · rw [List.length_take]
        omega
      · rw [List.length_take, List.length_drop]
        omega
    · rw [if_neg hheld]
      rw [Held, not_le] at hheld
      rcases hsize with rfl | rfl | rfl | rfl
      all_goals
        rw [getInt.eq_def]
        exact toCpu_overread order (by decide) hheld
  · rw [if_neg hsize]
    simp only [not_or] at hsize
    rw [getInt.eq_def]
    split <;> simp_all
    rfl

/-! ## Any node -/

/-- The file that a number of cells is read from, if there is one. -/
def cellsProperty (name : Text) : List UInt8 := dts.getProperty fs (dts.path / name).path

/-- The number of cells has its four bytes, if there is a file for it. -/
def CellsHeld (name : Text) : Prop :=
  (dts.path / name).exists fs = true → Held (dts.cellsProperty fs name) 0 4

/-- The number that `getCells` gets. -/
def cellsAt (name : Text) : UInt64 :=
  if (dts.path / name).exists fs then intAt order (dts.cellsProperty fs name) 0 4 else 2

/-- The address of a region is in `reg`, and then its size is.  Neither is looked for if the numbers
of cells are not those of an integer. -/
def RegionHeld (reg : List UInt8) (addressCell sizeCell index : UInt64) : Prop :=
  let offset := index * (addressCell + sizeCell) * 4
  addressCell = 1 ∨ addressCell = 2 →
    Held reg offset (addressCell * 4)
      ∧ (sizeCell = 1 ∨ sizeCell = 2 → Held reg (offset + addressCell * 4) (sizeCell * 4))

theorem inside_getInt_iff (name : Text) (offset size : UInt64) :
    Avoids .overread (dts.getInt fs order name offset size)
      ↔ (size = 1 ∨ size = 2 ∨ size = 4 ∨ size = 8 →
        Held (dts.getProperty fs name) offset size) := by
  rw [getInt_cases]
  by_cases hsize : size = 1 ∨ size = 2 ∨ size = 4 ∨ size = 8
  · rw [if_pos hsize]
    by_cases hheld : Held (dts.getProperty fs name) offset size
    · rw [if_pos hheld]
      exact ⟨fun _ _ ↦ hheld, fun _ ↦ avoids_ok _ _⟩
    · rw [if_neg hheld]
      exact ⟨fun h ↦ absurd rfl h, fun h ↦ absurd (h hsize) hheld⟩
  · rw [if_neg hsize]
    exact ⟨fun _ h ↦ absurd h hsize, fun _ ↦ avoids_error (by rintro ⟨⟩)⟩

/-- What `getInt` gets is an integer of a size that it knows. -/
theorem size_of_getInt {name : Text} {offset size v : UInt64}
    (h : dts.getInt fs order name offset size = .ok v) :
    size = 1 ∨ size = 2 ∨ size = 4 ∨ size = 8 := by
  by_contra hsize
  rw [getInt_cases, if_neg hsize] at h
  cases h

theorem inside_getCells_iff (name : Text) :
    Avoids .overread (dts.getCells fs order name) ↔ dts.CellsHeld fs name := by
  rw [getCells, CellsHeld]
  split
  · rename_i hexists
    rw [inside_getInt_iff]
    exact ⟨fun h _ ↦ h (by decide), fun h _ ↦ h hexists⟩
  · rename_i hexists
    exact ⟨fun _ h ↦ absurd h hexists, fun _ ↦ avoids_ok _ _⟩

theorem getCells_of_held {name : Text} (h : dts.CellsHeld fs name) :
    dts.getCells fs order name = .ok (dts.cellsAt fs order name) := by
  have hfour : (4 : UInt64) = 1 ∨ (4 : UInt64) = 2 ∨ (4 : UInt64) = 4 ∨ (4 : UInt64) = 8 := by
    decide
  rw [getCells, cellsAt]
  split
  · rename_i hexists
    rw [getInt_cases, if_pos hfour]
    exact if_pos (h hexists)
  · rfl

/-- Four bytes are a number below `2 ^ 32`. -/
theorem cellsAt_lt (name : Text) : (dts.cellsAt fs order name).toNat < 2 ^ 32 := by
  rw [cellsAt]
  split
  · have hlen : ((((dts.cellsProperty fs name).drop 0).take 4).reverse).length ≤ 4 := by simp
    have hpow := Nat.pow_le_pow_right (show 0 < 256 by decide) hlen
    have hvalue : order.value ((((dts.cellsProperty fs name).drop 0).take 4).reverse) < 2 ^ 32 := by
      rcases order with _ | _
      · exact Nat.lt_of_lt_of_le (decode_lt _) hpow
      · refine Nat.lt_of_lt_of_le (decode_lt _) ?_
        rwa [List.length_reverse]
    exact Nat.lt_of_le_of_lt (Nat.mod_le _ _) hvalue
  · decide

/-- The sizes that `getInt` knows are those of one cell and of two. -/
theorem size_iff {cells : UInt64} (h : cells.toNat < 2 ^ 32) :
    (cells * 4 = 1 ∨ cells * 4 = 2 ∨ cells * 4 = 4 ∨ cells * 4 = 8) ↔ cells = 1 ∨ cells = 2 := by
  have hmul : (cells * 4).toNat = cells.toNat * 4 := by
    rw [UInt64.toNat_mul]
    exact Nat.mod_eq_of_lt (by simp; omega)
  simp only [← UInt64.toNat_inj, hmul, UInt64.reduceToNat]
  omega

/-- A lookup by index stays inside the properties exactly if they hold what it takes from them. -/
theorem inside_getRegByIndex_iff (index : UInt64) :
    Avoids .overread (dts.getRegByIndex fs order index)
      ↔ dts.CellsHeld fs (bytes "#address-cells") ∧ dts.CellsHeld fs (bytes "#size-cells")
        ∧ RegionHeld (dts.getProperty fs (bytes "reg"))
          (dts.cellsAt fs order (bytes "#address-cells"))
          (dts.cellsAt fs order (bytes "#size-cells")) index := by
  have haddress := size_iff (dts.cellsAt_lt fs order (bytes "#address-cells"))
  have hsize := size_iff (dts.cellsAt_lt fs order (bytes "#size-cells"))
  rw [getRegByIndex, avoids_bind, getAddressCells, inside_getCells_iff]
  refine and_congr_right fun hheld ↦ ?_
  simp only [dts.getCells_of_held fs order hheld, Except.ok.injEq, forall_eq']
  rw [avoids_bind, getSizeCells, inside_getCells_iff]
  refine and_congr_right fun hheld' ↦ ?_
  simp only [dts.getCells_of_held fs order hheld', Except.ok.injEq, forall_eq']
  rw [avoids_bind, inside_getInt_iff, haddress, RegionHeld]
  refine ⟨?_, ?_⟩
  · rintro ⟨hin, hthen⟩ hone
    refine ⟨hin hone, fun hone' ↦ ?_⟩
    have hread := dts.getInt_cases fs order (bytes "reg")
      (index * (dts.cellsAt fs order (bytes "#address-cells")
        + dts.cellsAt fs order (bytes "#size-cells")) * 4)
      (dts.cellsAt fs order (bytes "#address-cells") * 4)
    rw [if_pos (haddress.2 hone), if_pos (hin hone)] at hread
    exact (inside_getInt_iff fs order dts _ _ _).1 (avoids_bind.1 (hthen _ hread)).1
      (hsize.2 hone')
  · intro hregion
    refine ⟨fun hone ↦ (hregion hone).1, fun v hread ↦ ?_⟩
    have hone := haddress.1 (dts.size_of_getInt fs order hread)
    rw [avoids_bind, inside_getInt_iff, hsize]
    exact ⟨(hregion hone).2, fun _ _ ↦ avoids_ok _ _⟩

/-- The loop finds the first region with the name, or throws. -/
theorem getRegByNameFrom_idxOf (name : Text) (names : List Text) (index : UInt64) :
    dts.getRegByNameFrom fs order name names index
      = if name ∈ names then dts.getRegByIndex fs order (index + .ofNat (names.idxOf name))
        else .error (.exception ⟨"Failed to find 'reg-name' " ++ shown name⟩) := by
  induction names generalizing index with
  | nil => rfl
  | cons n names ih =>
    rw [getRegByNameFrom]
    by_cases hn : n = name
    · subst hn
      rw [if_pos rfl, if_pos List.mem_cons_self, List.idxOf_cons_self]
      exact congrArg _ (UInt64.add_zero index).symm
    · have hne : name ≠ n := Ne.symm hn
      have hnext : index + 1 + .ofNat (names.idxOf name)
          = index + .ofNat (names.idxOf name + 1) := by
        rw [UInt64.ofNat_add, UInt64.add_assoc, UInt64.add_comm 1]
        rfl
      rw [if_neg hn, ih, List.idxOf_cons_ne _ hn, hnext]
      simp only [List.mem_cons, hne, false_or]

/-- What a lookup takes from the files is in them. -/
def Enclosed (name : Text) : Prop :=
  name ∈ dts.getString fs (bytes "reg-names") →
    dts.CellsHeld fs (bytes "#address-cells") ∧ dts.CellsHeld fs (bytes "#size-cells")
      ∧ RegionHeld (dts.getProperty fs (bytes "reg"))
        (dts.cellsAt fs order (bytes "#address-cells"))
        (dts.cellsAt fs order (bytes "#size-cells"))
        (.ofNat ((dts.getString fs (bytes "reg-names")).idxOf name))

/-- **When a lookup stays inside the properties.**  It does if no region has the name.  Otherwise
the numbers of cells have to be complete, and `reg` has to be long enough for the region, except
that a number of cells which no integer has ends the lookup before. -/
theorem getRegByName_inside_iff (fs : FileSystem) (order : ByteOrder) (dts : DTS) (name : Text) :
    Avoids .overread (dts.getRegByName fs order name) ↔ dts.Enclosed fs order name := by
  rw [getRegByName, getRegByNameFrom_idxOf, Enclosed, UInt64.zero_add]
  by_cases hname : name ∈ dts.getString fs (bytes "reg-names")
  · rw [if_pos hname, inside_getRegByIndex_iff]
    exact ⟨fun h _ ↦ h, fun h ↦ h hname⟩
  · rw [if_neg hname]
    exact ⟨fun _ h ↦ absurd h hname, fun _ ↦ avoids_error (by rintro ⟨⟩)⟩

/-- A node with a name and no region. -/
def bareName : FileSystem := .ofFiles
  [(⟨bytes "/npu/reg-names"⟩, ⟨bytes "print_queue" ++ [0], by decide⟩)]

/-- The first byte of the missing address is behind the end of `reg`. -/
theorem bareName_not_inside :
    ¬ Avoids .overread
      (DTS.getRegByName bareName .littleEndian ⟨⟨bytes "/npu"⟩⟩ (bytes "print_queue")) := by
  intro h
  exact h (by decide +kernel)

end DTS

end EthosuLogd

end EthosU
