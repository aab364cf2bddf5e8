import EthosU.Lib.Strided
import EthosU.NetworkInformation
import EthosU.TensorPointers

/-!
# The Python module

`python/interpreter_wrapper.cpp` makes the interpreter available to Python, with numpy arrays for
the tensors.  An array is a pointer to its first element, the extents and strides of its dimensions
and the size of an element; `nbytes` is the number of bytes its elements have.

* `setInput` compares the type, the rank and the extents of an array with those of an input tensor,
  and copies `nbytes` bytes from the pointer on to the arena.  It does not look at the strides.
* `StoresArray` says what a call that reports no error should have done: the tensor consists of the
  elements in row-major order, nothing else has been read, and nothing else has been written.
* `setInput_stores_iff`: this is so for exactly the layouts that are contiguous.
-/

set_option autoImplicit false

namespace EthosU

open Wp

/-! ## Arrays -/

/-- The descriptors of numpy's element types.  Each of them exists once, so that `is` compares
types. -/
inductive DType
  | float32
  | float16
  | int32
  | uint8
  | int64
  | str
  | bool
  | int16
  | complex64
  | int8
  | float64
  | void
  /-- One that no tensor type has, such as an integer with its bytes in the other order. -/
  | other (id : Nat)
  deriving DecidableEq, Repr

/-- `py::array`. -/
structure NdArray where
  dtype : DType
  /-- The bytes of an element. -/
  itemSize : Nat
  /-- The extent and the stride of each dimension. -/
  dims : List (Nat × Int)
  /-- The memory around the first element. -/
  data : Int → UInt8

namespace NdArray

variable (a : NdArray)

def ndim : Nat := a.dims.length

def shape : List Nat := a.dims.map Prod.fst

def nbytes : Nat := Strided.count a.dims * a.itemSize

/-- The bytes of the elements, in row-major order. -/
def elements : List UInt8 := (Strided.bytes a.itemSize a.dims).map a.data

/-- The elements lie one after the other, in row-major order, or there are none. -/
def InOrder : Prop := a.nbytes = 0 ∨ Strided.Contiguous a.itemSize a.dims

instance decidableInOrder : Decidable a.InOrder := inferInstanceAs (Decidable (_ ∨ _))

end NdArray

/-- The bytes of an element.  Those of the last kind have what they have. -/
def DType.itemSize : DType → Option Nat
  | .float32 => some 4
  | .float16 => some 2
  | .int32 => some 4
  | .uint8 => some 1
  | .int64 => some 8
  | .str => some 0
  | .bool => some 1
  | .int16 => some 2
  | .complex64 => some 8
  | .int8 => some 1
  | .float64 => some 8
  | .void => some 0
  | .other _ => none

/-- The dimensions of an array without gaps: `c_strides`. -/
def cDims (itemSize : Nat) : List Nat → List (Nat × Int)
  | [] => []
  | extent :: shape =>
    (extent, (Strided.count (cDims itemSize shape) * itemSize : Nat)) :: cDims itemSize shape

/-- An element has the size of its type, and numbers of elements are signed. -/
structure NdArray.Proper (a : NdArray) : Prop where
  itemSize : ∀ n ∈ a.dtype.itemSize, a.itemSize = n
  extents : ∀ dim ∈ a.dims, dim.1 < 9223372036854775808

/-- `py::array(dtype, shape, data)`, which copies the elements.  What is around the copy does not
matter. -/
def NdArray.copyOf (dtype : DType) (shape : List Nat) (data : Int → UInt8) : NdArray where
  dtype := dtype
  itemSize := dtype.itemSize.getD 0
  dims := cDims (dtype.itemSize.getD 0) shape
  data := data

theorem NdArray.length_elements (a : NdArray) : a.elements.length = a.nbytes := by
  rw [NdArray.elements, List.length_map, Strided.length_bytes, NdArray.nbytes]

/-- Strides do not count. -/
theorem NdArray.nbytes_eq (a : NdArray) : a.nbytes = a.shape.foldr (· * ·) 1 * a.itemSize := by
  have hcount : ∀ dims : List (Nat × Int),
      Strided.count dims = (dims.map Prod.fst).foldr (· * ·) 1 := by
    intro dims
    induction dims with
    | nil => rfl
    | cons dim dims ih => rw [Strided.count, ih, List.map_cons, List.foldr_cons]
  rw [NdArray.nbytes, hcount, NdArray.shape]

/-- The bytes of an array without gaps are consecutive ones. -/
theorem NdArray.InOrder.elements_eq {a : NdArray} (h : a.InOrder) :
    a.elements = (List.range a.nbytes).map fun k : Nat ↦ a.data k := by
  rw [NdArray.elements, (Strided.bytes_eq_iff _ _).2 h, List.map_map]
  rfl

/-- A copy has no gaps. -/
theorem NdArray.copyOf_inOrder (dtype : DType) (shape : List Nat) (data : Int → UInt8) :
    (NdArray.copyOf dtype shape data).InOrder := by
  have hcontiguous : ∀ size, Strided.Contiguous size (cDims size shape) := by
    intro size
    induction shape with
    | nil => trivial
    | cons extent shape ih => exact ⟨.inr rfl, ih⟩
  exact .inr (hcontiguous _)

theorem NdArray.copyOf_shape (dtype : DType) (shape : List Nat) (data : Int → UInt8) :
    (NdArray.copyOf dtype shape data).shape = shape := by
  have hdims : ∀ size, (cDims size shape).map Prod.fst = shape := by
    intro size
    induction shape with
    | nil => rfl
    | cons extent shape ih => rw [cDims, List.map_cons, ih]
  exact hdims _

theorem NdArray.copyOf_nbytes (dtype : DType) (shape : List Nat) (data : Int → UInt8) :
    (NdArray.copyOf dtype shape data).nbytes
      = shape.foldr (· * ·) 1 * dtype.itemSize.getD 0 := by
  rw [NdArray.nbytes_eq, NdArray.copyOf_shape]
  rfl

/-- It is an array like any other. -/
theorem NdArray.copyOf_proper (dtype : DType) {shape : List Nat} (data : Int → UInt8)
    (hshape : ∀ n ∈ shape, n < 9223372036854775808) :
    (NdArray.copyOf dtype shape data).Proper where
  itemSize n hn := by
    have hsize : dtype.itemSize = some n := hn
    show dtype.itemSize.getD 0 = n
    rw [hsize, Option.getD_some]
  extents dim hdim := by
    have hmem : dim.1 ∈ (NdArray.copyOf dtype shape data).shape := List.mem_map_of_mem hdim
    rw [NdArray.copyOf_shape] at hmem
    exact hshape _ hmem

/-- Where the bytes of the element with an index are among them. -/
theorem NdArray.getD_elements (a : NdArray) {index : List Nat} (h : Strided.IsIndex a.dims index)
    {b : Nat} (hb : b < a.itemSize) :
    a.elements.getD (Strided.position a.dims index * a.itemSize + b) (a.data 0)
      = a.data (Strided.displacement a.dims index + b) := by
  rw [NdArray.elements, List.getD_map, Strided.getD_bytes h hb]

/-- The exceptions that are set with `PyErr_Format`. -/
inductive PyError
  | valueError (msg : String)
  deriving DecidableEq, Repr

/-- `TensorType` as numpy has it. -/
def ethosUTypeToPyType (ethosuType : Int32) : DType :=
  match ethosuType.toInt with
  | 0 => .float32
  | 1 => .float16
  | 2 => .int32
  | 3 => .uint8
  | 4 => .int64
  | 5 => .str
  | 6 => .bool
  | 7 => .int16
  | 8 => .complex64
  | 9 => .int8
  | 10 => .float64
  | _ => .void

/-- The displacements that `memcpy` reads from. -/
def consecutive (n : Nat) : List Int := (List.range n).map fun k : Nat ↦ (k : Int)

/-- `memcpy`. -/
def memcpy (dst : Int) (src : Int → UInt8) (n : Nat) : M Unit :=
  modify fun p ↦ { p with mem := storeBytes p.mem dst ((consecutive n).map src) }

/-! ## The wrapper -/

structure InterpreterWrapper where
  interpreter : Interpreter
  inputInfo : List TensorInfo
  outputInfo : List TensorInfo

namespace InterpreterWrapper

variable (env : Env)

/-- `DEFAULT_ARENA_SIZE_OF_MB`. -/
def defaultArenaSizeOfMB : Int64 := 16

def new (model : String) : M InterpreterWrapper := do
  let interpreter ← Interpreter.new env model "/dev/ethosu0" defaultArenaSizeOfMB
  let (infos, interpreter) ← onObject interpreter
    (unwinding (do onProc ((← get).this.destroy env)) do
      return (← Interpreter.getInputInfo, ← Interpreter.getOutputInfo))
  return ⟨interpreter, infos.1, infos.2⟩

variable (inputInfo : List TensorInfo)

/-- The first dimension in which a shape is not the expected one. -/
def mismatch (expected : List UInt64) (shape : List Nat) : Option Nat :=
  (List.range shape.length).find? fun j ↦ expected[j]? != shape[j]?.map .ofNat

/-- What is formatted with `%d`. -/
def shown (n : UInt64) : String := toString n.toUInt32.toInt32

/-- The checks of `SetInput`. -/
def checkInput (i : UInt64) (input : NdArray) : Except PyError Unit :=
  match inputInfo[i.toNat]? with
  | none => .error (.valueError ("Cannot set input: Invalid input index " ++ shown i
      ++ " exceeds max index " ++ toString (UInt64.ofNat inputInfo.length - 1)))
  | some info =>
    if ethosUTypeToPyType info.type ≠ input.dtype then
      .error (.valueError ("Cannot set input: Invalid input data type for input " ++ shown i))
    else if input.ndim ≠ info.shape.length then
      .error (.valueError ("Cannot set input: Dimension mismatch. Got " ++ shown (.ofNat input.ndim)
        ++ " but expected " ++ shown (.ofNat info.shape.length) ++ " for input " ++ shown i ++ "."))
    else match mismatch info.shape input.shape with
      | some j => .error (.valueError ("Cannot set input: Dimension mismatch. Got "
          ++ toString (input.shape.getD j 0) ++ " but expected " ++ shown (info.shape.getD j 0)
          ++ " for dimension " ++ toString j ++ " of input " ++ shown i ++ "."))
      | none => .ok ()

/-- An exception that is set is returned, and not thrown. -/
def setInput (i : UInt64) (input : NdArray) : Method (Option PyError) :=
  match checkInput inputInfo i input with
  | .error e => return some e
  | .ok () => do
    let buffer ← Interpreter.typedInputBuffer env i.toUInt32.toInt32
    onProc (memcpy buffer input.data input.nbytes)
    return none

/-- An exception that is set is returned here, too, without the array that nobody gets to see. -/
def getOutput (outputInfo : List TensorInfo) (i : UInt64) : Method (Except PyError NdArray) :=
  match outputInfo[i.toNat]? with
  | none => return .error (.valueError ("Cannot get output: Invalid output index " ++ shown i
      ++ " exceeds max index " ++ toString (UInt64.ofNat outputInfo.length - 1)))
  | some info => do
    let type := ethosUTypeToPyType info.type
    let data ← Interpreter.typedOutputBuffer env i.toUInt32.toInt32
    let mem := (← get).proc.mem
    return .ok (.copyOf type (info.shape.map UInt64.toNat) fun d ↦ mem (data + d))

def invoke (timeoutNanos : Int64) : Method Unit := Interpreter.invoke env timeoutNanos

/-- An entry of the lists that `GetInputDetails` and `GetOutputDetails` return. -/
structure TensorDetails where
  index : Nat
  dtype : DType
  ndim : Nat
  shape : List UInt64
  deriving DecidableEq, Repr

/-- The loop of `GetInputDetails` and `GetOutputDetails`. -/
def details (infos : List TensorInfo) : List TensorDetails :=
  infos.mapIdx fun i info ↦
    ⟨i, ethosUTypeToPyType info.type, info.shape.length, info.shape⟩

def getInputDetails : List TensorDetails := details inputInfo

def getOutputDetails (outputInfo : List TensorInfo) : List TensorDetails := details outputInfo

variable {env inputInfo} {i : UInt64} {input : NdArray} {s : Session}

/-! ## What a call should have done -/

/-- Where input `i` is: at its offset from the address that the arena has. -/
def TensorAt (env : Env) (i : UInt64) (s : Session) (dst : Int) : Prop :=
  ∃ network arena offset data p, s.this.network = some network ∧ s.this.arenaBuffer = some arena
    ∧ network.obj.ifmDataOffset[i.toNat]? = some offset
    ∧ arena.obj.data env s.proc = .ok data p ∧ dst = data + offset.toInt

theorem TensorAt.unique {dst dst' : Int} (h : TensorAt env i s dst) (h' : TensorAt env i s dst') :
    dst = dst' := by
  obtain ⟨network, arena, offset, data, p, hnetwork, harena, hoffset, hdata, rfl⟩ := h
  obtain ⟨network', arena', offset', data', p', hnetwork', harena', hoffset', hdata', rfl⟩ := h'
  cases hnetwork.symm.trans hnetwork'
  cases harena.symm.trans harena'
  cases hoffset.symm.trans hoffset'
  cases hdata.symm.trans hdata'
  rfl

/-- The array has been copied to the arena: the tensor has its elements, what has been read belongs
to its elements, and the rest of the memory is as it was. -/
structure Stored (env : Env) (i : UInt64) (input : NdArray) (s s' : Session) : Prop where
  place : ∃ dst, TensorAt env i s dst
    ∧ (∀ k < input.nbytes, input.elements[k]? = some (s'.proc.mem (dst + k)))
    ∧ ∀ addr, addr < dst ∨ dst + input.nbytes ≤ addr → s'.proc.mem addr = s.proc.mem addr
  reads : ∀ d ∈ consecutive input.nbytes, d ∈ Strided.bytes input.itemSize input.dims

/-- A call that reports nothing has copied the array. -/
def StoresArray (env : Env) (inputInfo : List TensorInfo) (i : UInt64) (input : NdArray)
    (s : Session) : Prop :=
  ∀ s', setInput env inputInfo i input s = .ok none s' → Stored env i input s s'

/-- The array is accepted. -/
def Accepted (env : Env) (inputInfo : List TensorInfo) (i : UInt64) (input : NdArray)
    (s : Session) : Prop :=
  checkInput inputInfo i input = .ok ()
    ∧ ∃ dst s', Interpreter.typedInputBuffer env i.toUInt32.toInt32 s = .ok dst s'

/-- The infos are those of the network. -/
def Constructed (inputInfo : List TensorInfo) (this : Interpreter) : Prop :=
  ∃ network device fd buffer info, this.network = some network
    ∧ network.obj = Network.ofInfo device fd buffer info
    ∧ Lists inputInfo (info NetworkInfo.ifm.count).toNat (NetworkInfo.ifm.tensor info)

/-- The constructor gets the infos from the network. -/
theorem wp_new_constructed (model : String) (p : Process) :
    wp (new env model) (fun wrapper _ ↦ Constructed wrapper.inputInfo wrapper.interpreter)
      (fun _ _ ↦ True) p := by
  rw [new, wp_bind]
  refine wp_mono (Interpreter.wp_new_placed model _ _) (fun interpreter p₁ h₁ ↦ ?_)
    (fun _ _ he ↦ he)
  obtain ⟨info, hplaced⟩ := h₁
  obtain ⟨⟨id, network⟩, device, fd, buffer, hnetwork, hobj⟩ := hplaced.network
  obtain rfl : network = _ := hobj
  have hdecodes := Network.decodes_ofInfo device fd buffer info
  obtain ⟨infos, hinputs, hlists⟩ := hdecodes.inputInfo ⟨p₁, interpreter⟩ id hnetwork
  obtain ⟨infos', houtputs, -⟩ := hdecodes.outputInfo ⟨p₁, interpreter⟩ id hnetwork
  rw [wp_bind, wp_onObject, unwinding, wp_onThrow, wp_bind, wp_of_ok hinputs, wp_bind,
    wp_of_ok houtputs]
  exact ⟨_, device, fd, buffer, info, hnetwork, rfl, hlists⟩

/-- What is not about the object leaves it at that. -/
theorem keeps_onProc_constructed {α : Type} (x : M α) :
    Keeps (fun s : Session ↦ Constructed inputInfo s.this) (onProc x) := fun _ hs ↦
  (wp_onProc x).2 (wp_of_forall (fun _ _ ↦ hs) fun _ _ ↦ hs)

/-- And so do the methods. -/
theorem keeps_perform_constructed (call : Interpreter.Call) :
    Keeps (fun s : Session ↦ Constructed inputInfo s.this) (Interpreter.perform env call) := by
  cases call with
  | setPmuCycleCounters counters cycleCounter => exact .ite (.throw _) (.modify fun _ hs ↦ hs)
  | invoke timeoutNanos =>
    refine Keeps.get.bind fun _ ↦ (keeps_deref _).bind fun _ ↦ (keeps_deref _).bind fun _ ↦
      (keeps_onProc_constructed _).bind fun _ ↦ Keeps.bind (.modify fun _ hs ↦ ?_) fun _ ↦
        (keeps_onProc_constructed _).bind fun _ ↦ (keeps_onProc_constructed _).bind fun _ ↦
          (keeps_onProc_constructed _).bind fun _ ↦ .ite (.throw _) (.pure _)
    exact hs

theorem keeps_setInput_constructed (i : UInt64) (input : NdArray) :
    Keeps (fun s : Session ↦ Constructed inputInfo s.this) (setInput env inputInfo i input) := by
  rw [setInput]
  rcases checkInput inputInfo i input with e | ⟨⟩
  · exact .pure _
  · exact Keeps.bind (Keeps.get.bind fun _ ↦ (keeps_deref _).bind fun _ ↦
      (keeps_onProc_constructed _).bind fun _ ↦ (keeps_deref _).bind fun _ ↦
        (keeps_onProc_constructed _).bind fun _ ↦ .pure _) fun _ ↦
      (keeps_onProc_constructed _).bind fun _ ↦ .pure _

/-! ## What it does -/

/-- The number of an input is an index that the interpreter understands, as far as there are
inputs. -/
theorem toNat_index {n : Nat} (hn : n < 2 ^ 32)
    (h : i.toUInt32.toInt32.toInt64.toUInt64.toNat < n) (hi : i.toNat < n) :
    i.toUInt32.toInt32.toInt64.toUInt64.toNat = i.toNat := by
  have hindex := ((Interpreter.index_lt_iff i.toUInt32.toInt32 hn).1 ⟨rfl, h⟩).1
  rw [Narrow.toInt_toInt32, Narrow.toNat_toUInt32 (by omega)] at hindex
  split at hindex <;> omega

/-- Asking for the address of a buffer leaves the memory alone. -/
theorem wp_data_mem (buffer : Buffer) (p : Process) :
    wp (buffer.data env) (fun _ p' ↦ p'.mem = p.mem) (fun _ _ ↦ True) p := by
  rw [Buffer.data, wp_bind, Buffer.offset, wp_bind, eioctl, wp_checked]
  exact ⟨fun _ ↦ trivial, fun _ ↦ rfl⟩

/-- The pointer, and what getting it leaves unchanged. -/
theorem wp_typedInputBuffer (hconstructed : Constructed inputInfo s.this)
    (hi : i.toNat < inputInfo.length) :
    wp (Interpreter.typedInputBuffer env i.toUInt32.toInt32)
      (fun dst s' ↦ TensorAt env i s dst ∧ s'.proc.mem = s.proc.mem) (fun _ _ ↦ True) s := by
  obtain ⟨network, device, fd, buffer, info, hnetwork, hobj, hlists⟩ := hconstructed
  have hcount := (info NetworkInfo.ifm.count).toNat_lt
  rw [hlists.1] at hi
  rw [Interpreter.typedInputBuffer, Interpreter.typedBuffer, wp_bind, wp_get, wp_bind, hnetwork,
    deref, wp_pure, wp_bind, wp_onProc, Network.getInputDataOffset, Network.dataOffsetAt, hobj]
  by_cases hk : i.toUInt32.toInt32.toInt64.toUInt64.toNat
      < (Network.ofInfo device fd buffer info).ifmDataOffset.length
  · rw [dif_pos hk, wp_pure, wp_bind]
    rcases harena : s.this.arenaBuffer with _ | arena
    · exact trivial
    have hindex : i.toUInt32.toInt32.toInt64.toUInt64.toNat = i.toNat :=
      toNat_index hcount (Interpreter.length_dataOffsets _ info ▸ hk) hi
    rw [deref, wp_pure, wp_bind, wp_onProc]
    rcases hdata : arena.obj.data env s.proc with ⟨data, p'⟩ | ⟨e, p'⟩
    · have hmem := (wp_of_ok hdata).1 (wp_data_mem arena.obj s.proc)
      rw [wp_of_ok hdata, wp_pure]
      refine ⟨⟨network, arena, _, data, p', hnetwork, harena, ?_, hdata, rfl⟩, hmem⟩
      rw [hobj, ← hindex]
      exact List.getElem?_eq_getElem hk
    · rw [wp_of_error hdata]
      exact trivial
  · rw [dif_neg hk]
    exact trivial

theorem mismatch_eq_none_iff {expected : List UInt64} {shape : List Nat}
    (hlen : shape.length = expected.length) :
    mismatch expected shape = none ↔ expected = shape.map .ofNat := by
  simp only [mismatch, List.find?_eq_none, List.mem_range, bne_iff_ne, ne_eq, not_not]
  refine ⟨?_, ?_⟩
  · intro hall
    refine List.ext_getElem? fun j ↦ ?_
    rw [List.getElem?_map]
    rcases Nat.lt_or_ge j shape.length with hj | hj
    · exact hall j hj
    · rw [List.getElem?_eq_none (by omega), List.getElem?_eq_none hj, Option.map_none]
  · rintro rfl j -
    rw [List.getElem?_map]

/-- What the checks let pass: the type and the shape of the array are those of the input. -/
theorem checkInput_eq_ok_iff : checkInput inputInfo i input = .ok ()
    ↔ ∃ info, inputInfo[i.toNat]? = some info ∧ ethosUTypeToPyType info.type = input.dtype
      ∧ info.shape = input.shape.map .ofNat := by
  rw [checkInput]
  rcases inputInfo[i.toNat]? with _ | info
  · simp
  · simp only [Option.some.injEq, exists_eq_left']
    have hndim : input.ndim = input.shape.length := (List.length_map _).symm
    by_cases htype : ethosUTypeToPyType info.type = input.dtype
    · by_cases hlen : input.ndim = info.shape.length
      · rw [if_neg (not_not.2 htype), if_neg (not_not.2 hlen),
          ← mismatch_eq_none_iff (hndim ▸ hlen)]
        rcases mismatch info.shape input.shape with _ | j <;> simp [htype]
      · rw [if_neg (not_not.2 htype), if_pos hlen]
        refine iff_of_false (fun h ↦ by cases h) fun h ↦ hlen ?_
        rw [h.2, List.length_map, hndim]
    · rw [if_pos htype]
      exact iff_of_false (fun h ↦ by cases h) fun h ↦ htype h.1

/-- An accepted array is for an input that there is. -/
theorem lt_of_checkInput (h : checkInput inputInfo i input = .ok ()) :
    i.toNat < inputInfo.length := by
  obtain ⟨info, hinfo, -⟩ := checkInput_eq_ok_iff.1 h
  exact (List.getElem?_eq_some_iff.1 hinfo).1

/-- **What `SetInput` does** with an array that it accepts: it copies consecutive bytes to the
tensor. -/
theorem wp_setInput (hconstructed : Constructed inputInfo s.this)
    (haccepted : Accepted env inputInfo i input s) :
    wp (setInput env inputInfo i input) (fun outcome s' ↦ outcome = none ∧ ∃ dst,
        TensorAt env i s dst ∧ s'.proc.mem
          = storeBytes s.proc.mem dst ((consecutive input.nbytes).map input.data))
      (fun _ _ ↦ False) s := by
  obtain ⟨hcheck, dst, s₁, hbuffer⟩ := haccepted
  obtain ⟨hat, hmem⟩ := (wp_of_ok hbuffer).1
    (wp_typedInputBuffer hconstructed (lt_of_checkInput hcheck))
  rw [setInput, hcheck]
  dsimp only
  rw [wp_bind, wp_of_ok hbuffer, wp_bind, wp_onProc, memcpy, wp_modify, wp_pure, ← hmem]
  exact ⟨rfl, dst, hat, rfl⟩

/-- It returns without an error only if it accepts the array. -/
theorem accepted_of_setInput {s' : Session} (h : setInput env inputInfo i input s = .ok none s') :
    Accepted env inputInfo i input s := by
  rcases hcheck : checkInput inputInfo i input with e | ⟨⟩
  · rw [setInput, hcheck] at h
    cases h
  · refine ⟨hcheck, ?_⟩
    rcases hbuffer : Interpreter.typedInputBuffer env i.toUInt32.toInt32 s
      with ⟨dst, s₁⟩ | ⟨e, s₁⟩
    · exact ⟨dst, s₁, rfl⟩
    · have hthrows : wp (setInput env inputInfo i input) (fun _ _ ↦ False) (fun _ _ ↦ True) s := by
        rw [setInput, hcheck]
        dsimp only
        rw [wp_bind, wp_of_error hbuffer]
        trivial
      exact (ok_of_wp hthrows h).elim

/-! ## Memory -/

/-- What `memcpy` leaves at an address. -/
theorem storeBytes_eq (m : Int → UInt8) (dst : Int) (bytes : List UInt8) :
    (∀ k < bytes.length, bytes[k]? = some (storeBytes m dst bytes (dst + k)))
      ∧ ∀ addr, addr < dst ∨ dst + bytes.length ≤ addr → storeBytes m dst bytes addr = m addr := by
  refine ⟨fun k hk ↦ ?_, fun addr hout ↦ ?_⟩
  · have hoffset : (dst + k - dst).toNat = k := by omega
    rw [storeBytes, if_pos (by omega), hoffset, List.getD_eq_getElem _ _ hk,
      List.getElem?_eq_getElem hk]
  · rw [storeBytes]
    split
    · exact List.getD_eq_default _ _ (by omega)
    · rfl

theorem length_consecutive (n : Nat) : (consecutive n).length = n := by
  rw [consecutive, List.length_map, List.length_range]

/-- **What is stored is what the array is** if the consecutive bytes are those of its elements. -/
theorem storesArray_iff (hconstructed : Constructed inputInfo s.this) :
    StoresArray env inputInfo i input s
      ↔ (Accepted env inputInfo i input s →
        (consecutive input.nbytes).map input.data = input.elements
          ∧ ∀ d ∈ consecutive input.nbytes, d ∈ Strided.bytes input.itemSize input.dims) := by
  have hlength : ((consecutive input.nbytes).map input.data).length = input.nbytes := by
    rw [List.length_map, length_consecutive]
  refine ⟨?_, ?_⟩
  · intro hstores haccepted
    obtain ⟨outcome, s', hrun, rfl, dst, hat, hmem⟩ :=
      exists_of_wp (wp_setInput hconstructed haccepted)
    obtain ⟨⟨dst', hat', hbytes, -⟩, hreads⟩ := hstores s' hrun
    obtain rfl := hat'.unique hat
    refine ⟨List.ext_getElem? fun k ↦ ?_, hreads⟩
    rcases Nat.lt_or_ge k input.nbytes with hk | hk
    · rw [(storeBytes_eq s.proc.mem dst' _).1 k (by rwa [hlength]), ← hmem, hbytes k hk]
    · rw [List.getElem?_eq_none (by rwa [hlength]),
        List.getElem?_eq_none (by rwa [input.length_elements])]
  · intro hsame s' hrun
    have haccepted := accepted_of_setInput hrun
    obtain ⟨hbytes, hreads⟩ := hsame haccepted
    obtain ⟨-, dst, hat, hmem⟩ := ok_of_wp (wp_setInput hconstructed haccepted) hrun
    obtain ⟨hstored, hframe⟩ := storeBytes_eq s.proc.mem dst
      ((consecutive input.nbytes).map input.data)
    rw [← hmem, hlength] at hstored hframe
    rw [hbytes] at hstored
    exact ⟨⟨dst, hat, hstored, hframe⟩, hreads⟩

/-! ## Which layouts are stored -/

/-- **Which arrays are stored as the caller sees them.**  Every array of a layout is stored exactly
if the layout is not accepted, or if its elements lie in order.  A single array is stored exactly if
it is not accepted, or if its elements happen to be the bytes that lie in order. -/
theorem setInput_stores_iff (hconstructed : Constructed inputInfo s.this) :
    ((∀ data, StoresArray env inputInfo i { input with data := data } s)
      ↔ (Accepted env inputInfo i input s → input.InOrder))
    ∧ (StoresArray env inputInfo i input s
      ↔ (Accepted env inputInfo i input s →
        (consecutive input.nbytes).map input.data = input.elements
          ∧ ∀ d ∈ consecutive input.nbytes, d ∈ Strided.bytes input.itemSize input.dims)) := by
  refine ⟨?_, storesArray_iff hconstructed⟩
  have heach : ∀ data, StoresArray env inputInfo i { input with data := data } s
      ↔ (Accepted env inputInfo i input s →
        (consecutive input.nbytes).map data = (Strided.bytes input.itemSize input.dims).map data
          ∧ ∀ d ∈ consecutive input.nbytes, d ∈ Strided.bytes input.itemSize input.dims) :=
    fun data ↦ storesArray_iff hconstructed
  simp only [heach]
  rw [forall_comm]
  refine forall_congr' fun _ ↦ ?_
  have hbytes := Strided.bytes_eq_iff input.itemSize input.dims
  have : Nontrivial UInt8 := ⟨0, 1, by decide⟩
  refine ⟨?_, ?_⟩
  · intro hall
    exact hbytes.1 (Strided.map_eq_iff.1 fun data ↦ (hall data).1).symm
  · intro horder data
    have heq : consecutive input.nbytes = _ := (hbytes.2 horder).symm
    rw [heq]
    exact ⟨rfl, fun _ h ↦ h⟩

/-- A network with one input, of type `uint8` and shape `2 × 2`. -/
def squareInput : Words := fun k ↦
  if k = NetworkInfo.ifm.count then 1
  else if k = NetworkInfo.ifm.types then 3
  else if k = NetworkInfo.ifm.dims then 2
  else if k = NetworkInfo.ifm.shapes ∨ k = NetworkInfo.ifm.shapes + 1 then 2
  else 0

def squareEnv : Env := .obliging squareInput fun _ ↦ ⟨false, false, 0, []⟩

/-- An interpreter for it, with its arena at address 4096. -/
def squareSession : Session where
  proc := {}
  this :=
    { device := ⟨3⟩
      networkBuffer := none
      arenaBuffer := some ⟨1, ⟨5, 4096, 16777216⟩⟩
      network := some ⟨0, Network.ofInfo ⟨3⟩ 4 none squareInput⟩
      inference := none
      arenaSizeOfMB := 16
      pmuCounters := []
      enableCycleCounter := false }

/-- The bytes `0, 1, 2, 3`, with the given strides. -/
def square (row column : Int) : NdArray where
  dtype := .uint8
  itemSize := 1
  dims := [(2, row), (2, column)]
  data := fun d ↦ .ofNat d.toNat

theorem square_constructed : Constructed [⟨3, [2, 2]⟩] squareSession.this :=
  ⟨_, ⟨3⟩, 4, none, squareInput, rfl, rfl, rfl, fun i hi ↦ by
    obtain rfl : i = 0 := Nat.lt_one_iff.1 hi
    rfl⟩

theorem square_stores_iff :
    ((∀ data, StoresArray squareEnv [⟨3, [2, 2]⟩] 0 { square 2 1 with data := data } squareSession)
      ↔ (Accepted squareEnv [⟨3, [2, 2]⟩] 0 (square 2 1) squareSession → (square 2 1).InOrder))
    ∧ (StoresArray squareEnv [⟨3, [2, 2]⟩] 0 (square 2 1) squareSession
      ↔ (Accepted squareEnv [⟨3, [2, 2]⟩] 0 (square 2 1) squareSession →
        (consecutive (square 2 1).nbytes).map (square 2 1).data = (square 2 1).elements
          ∧ ∀ d ∈ consecutive (square 2 1).nbytes,
            d ∈ Strided.bytes (square 2 1).itemSize (square 2 1).dims)) :=
  setInput_stores_iff square_constructed

/-- The transpose of that array is stored as if it were the array itself. -/
theorem transposed_not_stored :
    ¬ StoresArray squareEnv [⟨3, [2, 2]⟩] 0 (square 1 2) squareSession := by
  intro hstores
  have haccepted : Accepted squareEnv [⟨3, [2, 2]⟩] 0 (square 1 2) squareSession :=
    ⟨rfl, _, _, rfl⟩
  have hsame := ((storesArray_iff square_constructed).1 hstores haccepted).1
  exact absurd hsame (by decide)

end InterpreterWrapper

end EthosU
