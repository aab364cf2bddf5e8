import EthosU.EthosuLogd.DevMem
import EthosU.Lib.Fallible
import EthosU.Lib.Layout
import EthosU.Lib.Terminated
import Mathlib.Data.List.Infix

/-!
# The device tree

Unless it is told, `ethosu_logd` looks up where the log is in the device tree, which the kernel
shows as a directory tree: a node is a directory, and its properties are files.  This file has the
classes `Path` and `DTS` of `utils/ethosu_logd/main.cpp`.

* `FileSystem` is what the program can see of the files: what a stream opened on a path reads, and
  what `readdir` lists.
* `DTS.getRegByName` finds the register region with a name.  `reg-names` has the names, each of them
  terminated by a NUL, and `reg` the addresses and sizes, in big-endian cells of 32 bits; how many
  cells an address or a size takes is in two further files.
* `ByteOrder` is the order in which the host stores the bytes of an integer, which `toCpu` writes
  one by one.  A byte behind the end of a property is not read: `Failure.overread`.
* `Node.WrittenTo` says that the files of a directory describe a node.  `getRegByName_written`
  proves that reading gets back what has been written.
-/

set_option autoImplicit false

namespace EthosU

namespace EthosuLogd

open Bytes

/-! ## Strings and paths -/

/-- A `std::string`. -/
abbrev Text := List UInt8

/-- The bytes of a string literal. -/
def bytes (literal : String) : Text := literal.toList.map Char.toUInt8

/-- A text as part of a message. -/
def shown (text : Text) : String := .ofList (text.map Char.ofUInt8)

/-- `class Path`. -/
structure Path where
  path : Text
  deriving DecidableEq, Repr

namespace Path

/-- `operator/`. -/
def join (p : Path) (other : Text) : Path :=
  if other.take 1 = bytes "/" then ⟨other⟩ else ⟨p.path ++ bytes "/" ++ other⟩

instance : HDiv Path Text Path := ⟨join⟩

/-- The text up to the last slash, or all of it if there is none. -/
def parent (p : Path) : Path :=
  let behind := p.path.reverse.idxOf 0x2f
  if behind < p.path.length then ⟨p.path.take (p.path.length - 1 - behind)⟩ else p

/-- The path starts at the root of the file system. -/
def Absolute (p : Path) : Prop := p.path.take 1 = bytes "/"

end Path

/-! ## What the program sees of the files -/

/-- The content of a file, as far as a `std::vector` can hold it. -/
structure Content where
  bytes : List UInt8
  length_lt : bytes.length < 2 ^ 63

/-- `struct dirent`, with `d_type == DT_DIR` as a truth value. -/
structure Dirent where
  dName : Text
  isDir : Bool

/-- An entry that `Path::find` goes into. -/
def Dirent.Descends (dentry : Dirent) : Prop :=
  dentry.dName ≠ bytes "." ∧ dentry.dName ≠ bytes ".." ∧ dentry.isDir = true

instance (dentry : Dirent) : Decidable dentry.Descends := by
  unfold Dirent.Descends
  infer_instance

/-- The files, which do not change while the program runs. -/
structure FileSystem where
  /-- What a `std::ifstream` on a path has in it, or nothing if the file can not be opened. -/
  content : Path → Option Content
  /-- What `readdir` lists, or nothing if `opendir` fails. -/
  list : Path → Option (List Dirent)
  /-- How deep the directories below a path are nested. -/
  height : Path → Nat
  height_lt : ∀ {path entries dentry}, list path = some entries → dentry ∈ entries →
    dentry.Descends → height (path / dentry.dName) < height path

/-- Files, and no directories to list. -/
def FileSystem.ofFiles (files : List (Path × Content)) : FileSystem where
  content p := files.lookup p
  list _ := none
  height _ := 0
  height_lt h := absurd h (by simp)

/-- `Path::exists`. -/
def Path.exists (fs : FileSystem) (p : Path) : Bool := (fs.content p).isSome

/-- What reading a whole file through a stream gets; a stream that is not open is empty. -/
def FileSystem.slurp (fs : FileSystem) (p : Path) : List UInt8 :=
  match fs.content p with
  | some content => content.bytes
  | none => []

/-! ## Failures -/

/-- Why a lookup did not come to an end. -/
inductive Failure
  | exception (e : Exception)
  /-- A byte behind the end of a property would have been read.  C++ leaves open what happens. -/
  | overread
  deriving DecidableEq, Repr

/-- `Path::find`: the paths below `path` that end in `name`. -/
def Path.find (fs : FileSystem) (path : Path) (name : Text) : Except Failure (List Path) :=
  match _ : fs.list path with
  | none => throw (.exception ⟨"Failed to open " ++ shown path.path⟩)
  | some entries => do
    let files ← entries.attach.mapM fun ⟨dentry, _⟩ ↦ do
      let pathname := path / dentry.dName
      let here := if dentry.dName = name then [pathname] else []
      if _ : dentry.Descends then do
        let below ← pathname.find fs name
        pure (here ++ below)
      else
        pure here
    pure files.flatten
termination_by fs.height path
decreasing_by exact fs.height_lt ‹_› ‹_› ‹_›

def grep (fs : FileSystem) (path : Path) (needle : Text) : Bool :=
  decide (needle <:+: fs.slurp path)

/-! ## Integers -/

/-- The order in which a host stores the bytes of an integer. -/
inductive ByteOrder
  | littleEndian
  | bigEndian
  deriving DecidableEq, Repr

/-- The integer that is stored as the given bytes. -/
def ByteOrder.value : ByteOrder → List UInt8 → Nat
  | .littleEndian, dst => decode dst
  | .bigEndian, dst => decode dst.reverse

namespace DTS

/-- The test that is meant to find out the order of the bytes; it computes with the value of `d`
instead of looking at how `d` is stored. -/
def isBigEndian : Bool :=
  let d : Int32 := 0x12345678
  d &&& 0xf == 1

/-- `toCpu`, for an integer of `sizeofT` bytes. -/
def toCpu (order : ByteOrder) (sizeofT : Nat) (src : Nat → Except Failure UInt8) :
    Except Failure UInt64 := do
  let dst ←
    if isBigEndian then (List.range sizeofT).mapM fun i ↦ src i
    else (List.range sizeofT).mapM fun i ↦ src (sizeofT - 1 - i)
  pure (.ofNat (order.value dst))

end DTS

/-- `class DTS`. -/
structure DTS where
  path : Path

namespace DTS

variable (fs : FileSystem) (order : ByteOrder) (dts : DTS)

def getProperty (name : Text) : List UInt8 := fs.slurp (dts.path / name)

def getString (name : Text) : List Text := Terminated.pieces 0 (dts.getProperty fs name)

/-- `property[k]`. -/
def byteAt (property : List UInt8) (k : Nat) : Except Failure UInt8 :=
  match property[k]? with
  | some b => pure b
  | none => throw .overread

def getInt (name : Text) (offset size : UInt64) : Except Failure UInt64 :=
  let property := dts.getProperty fs name
  let src := fun i ↦ byteAt property (offset.toNat + i)
  match size with
  | 1 => toCpu order 1 src
  | 2 => toCpu order 2 src
  | 4 => toCpu order 4 src
  | 8 => toCpu order 8 src
  | _ => throw (.exception ⟨"Illegal integer size"⟩)

/-- `getAddressCells` and `getSizeCells`, with the name of the file they read.  `getInt` gets the
path of the file and not its name. -/
def getCells (name : Text) : Except Failure UInt64 :=
  let p := dts.path / name
  if p.exists fs then dts.getInt fs order p.path 0 4 else pure 2

def getAddressCells : Except Failure UInt64 := dts.getCells fs order (bytes "#address-cells")

def getSizeCells : Except Failure UInt64 := dts.getCells fs order (bytes "#size-cells")

def getRegByIndex (index : UInt64) : Except Failure (UInt64 × UInt64) := do
  let addressCell ← dts.getAddressCells fs order
  let sizeCell ← dts.getSizeCells fs order
  let offset := index * (addressCell + sizeCell) * 4
  let address ← dts.getInt fs order (bytes "reg") offset (addressCell * 4)
  let size ← dts.getInt fs order (bytes "reg") (offset + addressCell * 4) (sizeCell * 4)
  pure (address, size)

/-- The loop of `getRegByName`. -/
def getRegByNameFrom (name : Text) : List Text → UInt64 → Except Failure (UInt64 × UInt64)
  | [], _ => throw (.exception ⟨"Failed to find 'reg-name' " ++ shown name⟩)
  | n :: names, index =>
    if n = name then dts.getRegByIndex fs order index else getRegByNameFrom name names (index + 1)

def getRegByName (name : Text) : Except Failure (UInt64 × UInt64) :=
  dts.getRegByNameFrom fs order name (dts.getString fs (bytes "reg-names")) 0

end DTS

/-- The loop of `getAddressSizeFromDtb`. -/
def getAddressSizeFrom (fs : FileSystem) (order : ByteOrder) :
    List Path → Except Failure (UInt64 × UInt64)
  | [] => throw (.exception
      ⟨"Could not find Ethos-U device tree entry with reg-name 'print_queue'"⟩)
  | path :: paths =>
    if grep fs path (bytes "arm,ethosu") then
      DTS.getRegByName fs order ⟨path.parent⟩ (bytes "print_queue")
    else
      getAddressSizeFrom fs order paths

def getAddressSizeFromDtb (fs : FileSystem) (order : ByteOrder) :
    Except Failure (UInt64 × UInt64) := do
  let paths ← Path.find fs ⟨bytes "/sys/firmware/devicetree/base"⟩ (bytes "compatible")
  getAddressSizeFrom fs order paths

/-! ## Reading an integer -/

namespace DTS

theorem byteAt_append {before bytes rest : List UInt8} {k i : Nat} (hk : k = before.length)
    (hi : i < bytes.length) : byteAt (before ++ bytes ++ rest) (k + i) = .ok bytes[i] := by
  have hat : (before ++ bytes ++ rest)[k + i]? = some bytes[i] := by
    rw [hk, List.append_assoc, List.getElem?_append_right (Nat.le_add_right _ _),
      Nat.add_sub_cancel_left, List.getElem?_append_left hi, List.getElem?_eq_getElem hi]
  rw [byteAt, hat]
  rfl

/-- The host gets the bytes in the opposite order, whatever its own is. -/
theorem toCpu_eq (order : ByteOrder) {sizeofT : Nat} {src : Nat → Except Failure UInt8}
    {bytes : List UInt8} (hlen : bytes.length = sizeofT)
    (hsrc : ∀ i (hi : i < bytes.length), src i = .ok bytes[i]) :
    toCpu order sizeofT src = .ok (.ofNat (order.value bytes.reverse)) := by
  have hdst : (List.range sizeofT).mapM (fun i ↦ src (sizeofT - 1 - i)) = .ok bytes.reverse := by
    rw [Fallible.mapM_ok (g := fun i ↦ bytes.getD (sizeofT - 1 - i) 0)]
    · refine congrArg _ (List.ext_getElem (by simp [hlen]) fun i hi hi' ↦ ?_)
      rw [List.length_map, List.length_range] at hi
      rw [List.getElem_map, List.getElem_range, List.getElem_reverse,
        List.getD_eq_getElem _ _ (by omega)]
      simp only [hlen]
    · intro i hi
      have hlt := List.mem_range.1 hi
      rw [hsrc _ (by omega), List.getD_eq_getElem _ _ (by omega)]
  have hfalse : isBigEndian = false := by decide
  rw [toCpu, hfalse, if_neg Bool.false_ne_true, hdst]
  rfl

/-- An integer that is in a property can be read. -/
theorem getInt_eq {fs : FileSystem} (order : ByteOrder) {dts : DTS} {name : Text}
    {before bytes rest : List UInt8} {offset size : UInt64}
    (hproperty : dts.getProperty fs name = before ++ bytes ++ rest)
    (hoffset : offset.toNat = before.length) (hlen : bytes.length = size.toNat)
    (hsize : size = 1 ∨ size = 2 ∨ size = 4 ∨ size = 8) :
    dts.getInt fs order name offset size = .ok (.ofNat (order.value bytes.reverse)) := by
  have hsrc : ∀ i (hi : i < bytes.length),
      byteAt (dts.getProperty fs name) (offset.toNat + i) = .ok bytes[i] := by
    intro i hi
    rw [hproperty]
    exact byteAt_append hoffset hi
  rcases hsize with rfl | rfl | rfl | rfl
  all_goals
    rw [getInt.eq_def]
    exact toCpu_eq order hlen hsrc

end DTS

/-! ## Nodes and the files that describe them -/

/-- A register region. -/
structure Region where
  name : Text
  noNul : 0 ∉ name
  address : UInt64
  size : UInt64

/-- The register regions of a node, and the number of cells that an address and a size take. -/
structure Node where
  regions : List Region
  addressCells : UInt64
  sizeCells : UInt64
  addressCells_eq : addressCells = 1 ∨ addressCells = 2
  sizeCells_eq : sizeCells = 1 ∨ sizeCells = 2
  fits : ∀ r ∈ regions, r.address.toNat < 2 ^ (32 * addressCells.toNat)
    ∧ r.size.toNat < 2 ^ (32 * sizeCells.toNat)

namespace Node

def regNames (node : Node) : List UInt8 := node.regions.flatMap fun r ↦ r.name ++ [0]

/-- The cells of a region. -/
def cells (node : Node) (r : Region) : List UInt8 :=
  encodeBig (4 * node.addressCells.toNat) r.address.toNat
    ++ encodeBig (4 * node.sizeCells.toNat) r.size.toNat

def reg (node : Node) : List UInt8 := node.regions.flatMap node.cells

theorem length_cells (node : Node) (r : Region) :
    (node.cells r).length = 4 * node.addressCells.toNat + 4 * node.sizeCells.toNat := by
  rw [cells, List.length_append, length_encodeBig, length_encodeBig]

/-- The first region with a name. -/
def find (node : Node) (name : Text) : Option Region := node.regions.find? (·.name = name)

end Node

/-- A file has a number of cells in it, or is absent and the number is two. -/
def CellsWritten (fs : FileSystem) (file : Path) (cells : UInt64) : Prop :=
  match fs.content file with
  | some content => content.bytes = encodeBig 4 cells.toNat
  | none => cells = 2

/-- The files of a directory describe a node. -/
structure Node.WrittenTo (node : Node) (fs : FileSystem) (path : Path) : Prop where
  regNames : (fs.content (path / bytes "reg-names")).map Content.bytes = some node.regNames
  reg : (fs.content (path / bytes "reg")).map Content.bytes = some node.reg
  addressCells : CellsWritten fs (path / bytes "#address-cells") node.addressCells
  sizeCells : CellsWritten fs (path / bytes "#size-cells") node.sizeCells

/-! ## Files and paths -/

theorem slurp_eq {fs : FileSystem} {p : Path} {bytes : List UInt8}
    (h : (fs.content p).map Content.bytes = some bytes) : fs.slurp p = bytes := by
  obtain ⟨content, hcontent, rfl⟩ := Option.map_eq_some_iff.1 h
  rw [FileSystem.slurp, hcontent]

theorem length_slurp_lt (fs : FileSystem) (p : Path) : (fs.slurp p).length < 2 ^ 63 := by
  rw [FileSystem.slurp]
  rcases fs.content p with _ | content
  · decide
  · exact content.length_lt

namespace Path

theorem div_eq {p : Path} {other : Text} (h : other.take 1 ≠ bytes "/") :
    p / other = ⟨p.path ++ bytes "/" ++ other⟩ := if_neg h

/-- An absolute path stays what it is when it is joined to another one. -/
theorem div_of_absolute {q : Path} (h : q.Absolute) (p : Path) : p / q.path = q := if_pos h

theorem Absolute.div {p : Path} (h : p.Absolute) {other : Text}
    (hother : other.take 1 ≠ bytes "/") : (p / other).Absolute := by
  rw [Absolute] at h
  rw [Absolute, div_eq hother, List.append_assoc]
  rcases hp : p.path with _ | ⟨b, path⟩
  · rw [hp] at h
    exact absurd h (by decide)
  · rw [hp] at h
    exact h

end Path

/-! ## Reading a node -/

namespace DTS

variable {fs : FileSystem} {dts : DTS} {node : Node}

/-- An integer that has been written to a property can be read. -/
theorem getInt_encodeBig {name : Text} {before rest : List UInt8} {offset size : UInt64} {v : Nat}
    (hproperty : dts.getProperty fs name = before ++ encodeBig size.toNat v ++ rest)
    (hoffset : offset.toNat = before.length)
    (hsize : size = 1 ∨ size = 2 ∨ size = 4 ∨ size = 8) (hv : v < 256 ^ size.toNat) :
    dts.getInt fs .littleEndian name offset size = .ok (.ofNat v) := by
  rw [getInt_eq .littleEndian hproperty hoffset (length_encodeBig _ _) hsize, ByteOrder.value,
    decode_reverse_encodeBig hv]

theorem getCells_eq (habs : dts.path.Absolute) {name : Text} (hname : name.take 1 ≠ bytes "/")
    {cells : UInt64} (hcells : cells = 1 ∨ cells = 2)
    (hwritten : CellsWritten fs (dts.path / name) cells) :
    dts.getCells fs .littleEndian name = .ok cells := by
  rw [CellsWritten] at hwritten
  rw [getCells, Path.exists]
  rcases hcontent : fs.content (dts.path / name) with _ | content
  · rw [hcontent] at hwritten
    rw [hwritten]
    rfl
  · rw [hcontent] at hwritten
    have hproperty : dts.getProperty fs (dts.path / name).path
        = [] ++ encodeBig (4 : UInt64).toNat cells.toNat ++ [] := by
      -- the name of the property is the path of the file, which is absolute
      rw [getProperty, Path.div_of_absolute (habs.div hname), FileSystem.slurp, hcontent,
        List.nil_append, List.append_nil]
      exact hwritten
    have hlt : cells.toNat < 256 ^ (4 : UInt64).toNat := by
      rcases hcells with rfl | rfl <;> decide
    rw [Option.isSome_some, if_pos rfl,
      getInt_encodeBig hproperty rfl (.inr (.inr (.inl rfl))) hlt, UInt64.ofNat_toNat]

/-- The widths of the integers in `reg`. -/
theorem width {cells : UInt64} (h : cells = 1 ∨ cells = 2) :
    (cells * 4).toNat = 4 * cells.toNat
      ∧ (cells * 4 = 1 ∨ cells * 4 = 2 ∨ cells * 4 = 4 ∨ cells * 4 = 8)
      ∧ 2 ^ (32 * cells.toNat) = 256 ^ (cells * 4).toNat := by
  rcases h with rfl | rfl <;> decide

/-- Where a region and its size begin.  The counters do not wrap around, because the file has all
regions before this one. -/
theorem toNat_offset {n : Nat} {address size : UInt64} (haddress : address = 1 ∨ address = 2)
    (hsize : size = 1 ∨ size = 2) (hlt : n * (4 * address.toNat + 4 * size.toNat) < 2 ^ 63) :
    (UInt64.ofNat n * (address + size) * 4).toNat = n * (4 * address.toNat + 4 * size.toNat)
      ∧ (UInt64.ofNat n * (address + size) * 4 + address * 4).toNat
        = n * (4 * address.toNat + 4 * size.toNat) + 4 * address.toNat := by
  have hn : n < 2 ^ 63 := by
    rcases haddress with rfl | rfl <;> rcases hsize with rfl | rfl <;> simp at hlt <;> omega
  have hof : (UInt64.ofNat n).toNat = n := Nat.mod_eq_of_lt (by omega)
  rw [UInt64.toNat_add, UInt64.toNat_mul, UInt64.toNat_mul, hof]
  rcases haddress with rfl | rfl <;> rcases hsize with rfl | rfl <;> simp at hlt ⊢ <;> omega

theorem getRegByIndex_eq (habs : dts.path.Absolute) (hwritten : node.WrittenTo fs dts.path)
    {earlier later : List Region} {r : Region} (hregions : node.regions = earlier ++ r :: later) :
    dts.getRegByIndex fs .littleEndian (.ofNat earlier.length) = .ok (r.address, r.size) := by
  have haddress := node.addressCells_eq
  have hsize := node.sizeCells_eq
  obtain ⟨hwidthAddress, hcaseAddress, hpowAddress⟩ := width haddress
  obtain ⟨hwidthSize, hcaseSize, hpowSize⟩ := width hsize
  obtain ⟨hfitsAddress, hfitsSize⟩ := node.fits r (by simp [hregions])
  rw [hpowAddress] at hfitsAddress
  rw [hpowSize] at hfitsSize
  have hearlier := Layout.length_flatMap fun q (_ : q ∈ earlier) ↦ node.length_cells q
  -- the file, cut before the address of the region, and before its size
  have hreg : dts.getProperty fs (bytes "reg")
      = earlier.flatMap node.cells ++ encodeBig (node.addressCells * 4).toNat r.address.toNat
        ++ (encodeBig (node.sizeCells * 4).toNat r.size.toNat ++ later.flatMap node.cells) := by
    rw [getProperty, slurp_eq hwritten.reg, Node.reg, hregions, List.flatMap_append,
      List.flatMap_cons, Node.cells, hwidthAddress, hwidthSize]
    simp only [List.append_assoc]
  have hreg' : dts.getProperty fs (bytes "reg")
      = (earlier.flatMap node.cells ++ encodeBig (node.addressCells * 4).toNat r.address.toNat)
        ++ encodeBig (node.sizeCells * 4).toNat r.size.toNat ++ later.flatMap node.cells := by
    rw [hreg, List.append_assoc _ _ (later.flatMap node.cells)]
  have hlt : earlier.length * (4 * node.addressCells.toNat + 4 * node.sizeCells.toNat)
      < 2 ^ 63 := by
    have hall := length_slurp_lt fs (dts.path / bytes "reg")
    rw [← getProperty, hreg, List.length_append, List.length_append, hearlier] at hall
    omega
  obtain ⟨hoffset, hoffset'⟩ := toNat_offset haddress hsize hlt
  have hreadAddress := getInt_encodeBig hreg (hoffset.trans hearlier.symm) hcaseAddress hfitsAddress
  have hreadSize := getInt_encodeBig hreg'
    (by rw [hoffset', List.length_append, hearlier, length_encodeBig, hwidthAddress])
    hcaseSize hfitsSize
  have hcellsAddress := getCells_eq habs (by decide) haddress hwritten.addressCells
  have hcellsSize := getCells_eq habs (by decide) hsize hwritten.sizeCells
  rw [UInt64.ofNat_toNat] at hreadAddress hreadSize
  simp only [getRegByIndex, getAddressCells, getSizeCells, hcellsAddress, hcellsSize, hreadAddress,
    hreadSize, bind, Except.bind, pure, Except.pure]

theorem getRegByNameFrom_eq (habs : dts.path.Absolute) (hwritten : node.WrittenTo fs dts.path)
    (name : Text) {earlier later : List Region} (hregions : node.regions = earlier ++ later) :
    dts.getRegByNameFrom fs .littleEndian name (later.map Region.name) (.ofNat earlier.length)
      = match later.find? (·.name = name) with
        | some r => .ok (r.address, r.size)
        | none => .error (.exception ⟨"Failed to find 'reg-name' " ++ shown name⟩) := by
  induction later generalizing earlier with
  | nil => rfl
  | cons r later ih =>
    rw [List.map_cons, getRegByNameFrom]
    by_cases hname : r.name = name
    · rw [if_pos hname, getRegByIndex_eq habs hwritten hregions, List.find?_cons_of_pos (by simpa)]
    · have hnext : UInt64.ofNat earlier.length + 1 = .ofNat (earlier ++ [r]).length := by
        rw [List.length_append, UInt64.ofNat_add]
        rfl
      rw [if_neg hname, hnext, ih (by rw [hregions, List.append_assoc, List.singleton_append]),
        List.find?_cons_of_neg (by simpa)]

/-- **Reading undoes writing.**  `getRegByName` returns the first region with the name, and throws
if there is none; in neither case does it read behind the end of a property. -/
theorem getRegByName_written (habs : dts.path.Absolute) (hwritten : node.WrittenTo fs dts.path)
    (name : Text) :
    dts.getRegByName fs .littleEndian name
      = match node.find name with
        | some r => .ok (r.address, r.size)
        | none => .error (.exception ⟨"Failed to find 'reg-name' " ++ shown name⟩) := by
  have hnames : dts.getString fs (bytes "reg-names") = node.regions.map Region.name := by
    rw [getString, getProperty, slurp_eq hwritten.regNames, Node.regNames]
    exact Terminated.pieces_flatMap fun r _ ↦ r.noNul
  rw [getRegByName, hnames]
  exact getRegByNameFrom_eq habs hwritten name (List.nil_append _).symm

end DTS

theorem noNul_printQueue : 0 ∉ bytes "print_queue" := by decide

theorem two_cells : (2 : UInt64) = 1 ∨ (2 : UInt64) = 2 := .inr rfl

/-- What the `compatible` file of an Ethos-U has in it. -/
def compatibleFile : Content := ⟨bytes "arm,ethosu", by decide⟩

/-- A node with two regions, whose addresses take one cell and whose sizes take two. -/
def twoRegions : Node where
  regions := [⟨bytes "print_queue", noNul_printQueue, 0x80001000, 0x200000000⟩,
    ⟨bytes "regs", by decide, 0x2a020000, 0x1000⟩]
  addressCells := 1
  sizeCells := 2
  addressCells_eq := .inl rfl
  sizeCells_eq := two_cells
  fits := by decide

/-! The files of that node. -/

def regNamesFile : Content := ⟨twoRegions.regNames, by decide⟩

def regFile : Content := ⟨twoRegions.reg, by decide⟩

def addressCellsFile : Content := ⟨encodeBig 4 1, by decide⟩

/-- Nothing but the files of that node, without `#size-cells`, in the directory `/npu`. -/
def twoRegionsFiles : FileSystem := .ofFiles
  [(⟨bytes "/npu/reg-names"⟩, regNamesFile), (⟨bytes "/npu/reg"⟩, regFile),
    (⟨bytes "/npu/#address-cells"⟩, addressCellsFile)]

/-- The second region is found behind the first one. -/
theorem getRegByName_regs :
    DTS.getRegByName twoRegionsFiles .littleEndian ⟨⟨bytes "/npu"⟩⟩ (bytes "regs")
      = .ok (0x2a020000, 0x1000) := by
  have hwritten : twoRegions.WrittenTo twoRegionsFiles ⟨bytes "/npu"⟩ :=
    ⟨by decide, by decide, rfl, rfl⟩
  have habs : (⟨bytes "/npu"⟩ : Path).Absolute := rfl
  exact DTS.getRegByName_written habs hwritten (bytes "regs")

end EthosuLogd

end EthosU
