import EthosU.Housekeeping

/-!
# What is recorded of a network

`collectNetworkInfo` copies the driver's reply to vectors.  Nothing compares the counts in the reply
with the sizes of its arrays, so the loops read behind the arrays if the driver says so.

* `Tensors.InArrays` says that all subscripts are below `ETHOSU_FD_MAX` and `ETHOSU_DIM_MAX`, and
  `Tensors.WithinLimits` that the counts are; the first follows from the second and the other way
  round (`inArrays_iff`).  Then nothing but the reply decides on the network (`ofInfo_congr`).
* `Network.Decodes` says that the vectors are the reply's arrays up to the counts, and that
  `GetInputInfo` and `GetOutputInfo` pair what belongs together.  It holds of every reply
  (`decodes_ofInfo`).
* `Network.decodedOrRefused_iff` puts the two together for both constructors.
-/

set_option autoImplicit false

namespace EthosU

open Wp

/-- The vector has `n` entries, which are what `entry` says. -/
def Lists {α : Type} (l : List α) (n : Nat) (entry : Nat → α) : Prop :=
  l.length = n ∧ ∀ i < n, l[i]? = some (entry i)

theorem lists_map_range {α : Type} (n : Nat) (entry : Nat → α) :
    Lists ((List.range n).map entry) n entry := by
  refine ⟨by rw [List.length_map, List.length_range], fun i hi ↦ ?_⟩
  rw [List.getElem?_map, List.getElem?_range hi, Option.map_some]

namespace NetworkInfo

namespace Tensors

variable (t : Tensors) (info : Words)

/-! ## Subscripts -/

/-- The arrays are read within their bounds. -/
def InArrays : Prop :=
  (∀ i ∈ t.indices info, i < ethosuFdMax)
    ∧ ∀ i ∈ t.indices info, ∀ j ∈ List.range (info (t.dims + i)).toNat, j < ethosuDimMax

/-- The counts are those of tensors that the arrays have room for. -/
def WithinLimits : Prop :=
  (info t.count).toNat ≤ ethosuFdMax
    ∧ ∀ i < (info t.count).toNat, (info (t.dims + i)).toNat ≤ ethosuDimMax

/-- All numbers below `n` are below `m`. -/
theorem range_lt_iff {n m : Nat} : (∀ i ∈ List.range n, i < m) ↔ n ≤ m := by
  refine ⟨?_, ?_⟩
  · intro h
    by_contra hlt
    exact Nat.lt_irrefl m (h m (List.mem_range.2 (by omega)))
  · intro hle i hi
    exact Nat.lt_of_lt_of_le (List.mem_range.1 hi) hle

theorem inArrays_iff : t.InArrays info ↔ t.WithinLimits info := by
  rw [InArrays, indices, range_lt_iff, WithinLimits]
  refine and_congr_right fun _ ↦ forall_congr' fun i ↦ ?_
  rw [List.mem_range, range_lt_iff]

/-! ## Vectors -/

/-- The type and the shape of a tensor. -/
def tensor (i : Nat) : TensorInfo := ⟨(info (t.types + i)).toInt32, t.shape info i⟩

/-- What the vectors of one direction hold. -/
structure Decoded (sizes : List UInt64) (types offsets : List Int32) (shapes : List (List UInt64)) :
    Prop where
  sizes : Lists sizes (info t.count).toNat fun i ↦ (info (t.size + i)).toUInt64
  types : Lists types (info t.count).toNat fun i ↦ (info (t.types + i)).toInt32
  offsets : Lists offsets (info t.count).toNat fun i ↦ (info (t.offset + i)).toInt32
  shapes : Lists shapes (info t.count).toNat (t.shape info)
  /-- The first `dims[i]` entries, in order. -/
  shape : ∀ i < (info t.count).toNat, Lists (t.shape info i) (info (t.dims + i)).toNat
    fun j ↦ (info (t.shapes + ethosuDimMax * i + j)).toUInt64

theorem decoded :
    t.Decoded info (t.sizes info) (t.typesOf info) (t.dataOffsets info) (t.shapesOf info) where
  sizes := lists_map_range _ _
  types := lists_map_range _ _
  offsets := lists_map_range _ _
  shapes := lists_map_range _ _
  shape _ _ := lists_map_range _ _

/-- Arrays that are read within their bounds are all that counts. -/
theorem vectors_congr {info info' : Words} {count : Nat} (h : (Tensors.at count).InArrays info)
    (hagree : ∀ k ≥ count, k < count + 1 + 4 * ethosuFdMax + ethosuFdMax * ethosuDimMax →
      info k = info' k) :
    (Tensors.at count).sizes info = (Tensors.at count).sizes info'
      ∧ (Tensors.at count).typesOf info = (Tensors.at count).typesOf info'
      ∧ (Tensors.at count).dataOffsets info = (Tensors.at count).dataOffsets info'
      ∧ (Tensors.at count).shapesOf info = (Tensors.at count).shapesOf info' := by
  obtain ⟨hfds, hdims⟩ := h
  have hindices : (Tensors.at count).indices info = (Tensors.at count).indices info' :=
    congrArg (fun n : UInt32 ↦ List.range n.toNat) (hagree count (Nat.le_refl count)
      (by show count < count + 1 + 4 * 16 + 16 * 8; omega))
  refine ⟨?_, ?_, ?_, ?_⟩
  all_goals
    refine (List.map_congr_left fun i hi ↦ ?_).trans (congrArg _ hindices)
    have hfd : i < 16 := hfds i hi
  · exact congrArg _ (hagree (count + 1 + i) (by omega)
      (by show count + 1 + i < count + 1 + 4 * 16 + 16 * 8; omega))
  · exact congrArg _ (hagree (count + 1 + 16 + i) (by omega)
      (by show count + 1 + 16 + i < count + 1 + 4 * 16 + 16 * 8; omega))
  · exact congrArg _ (hagree (count + 1 + 2 * 16 + i) (by omega)
      (by show count + 1 + 2 * 16 + i < count + 1 + 4 * 16 + 16 * 8; omega))
  · have hrank := hagree (count + 1 + 3 * 16 + i) (by omega)
      (by show count + 1 + 3 * 16 + i < count + 1 + 4 * 16 + 16 * 8; omega)
    refine (List.map_congr_left fun j hj ↦ ?_).trans
      (congrArg (fun n : UInt32 ↦ (List.range n.toNat).map _) hrank)
    have hdim : j < 8 := hdims i hi j hj
    exact congrArg _ (hagree (count + 1 + 4 * 16 + 8 * i + j) (by omega)
      (by show count + 1 + 4 * 16 + 8 * i + j < count + 1 + 4 * 16 + 16 * 8; omega))

end Tensors

/-- The number of words in the struct. -/
def words : Nat := ofm.shapes + ethosuFdMax * ethosuDimMax

end NetworkInfo

/-- No subscript is out of range if there are as many shapes as types. -/
theorem Interpreter.tensorInfos_eq {count : Nat} {types : List Int32} {shapes : List (List UInt64)}
    {type : Nat → Int32} {shape : Nat → List UInt64} (htypes : Lists types count type)
    (hshapes : Lists shapes count shape) :
    Interpreter.tensorInfos count types shapes
      = some ((List.range count).map fun i ↦ ⟨type i, shape i⟩) := by
  have hmap : ∀ l : List Nat, (∀ i ∈ l, i < count) →
      (l.mapM fun i ↦ do return (⟨← types[i]?, ← shapes[i]?⟩ : TensorInfo))
        = some (l.map fun i ↦ ⟨type i, shape i⟩) := by
    intro l hl
    induction l with
    | nil => rfl
    | cons i l ih =>
      have hi := hl i List.mem_cons_self
      rw [List.mapM_cons, htypes.2 i hi, hshapes.2 i hi,
        ih fun j hj ↦ hl j (List.mem_cons_of_mem i hj)]
      rfl
  exact hmap _ fun i hi ↦ List.mem_range.1 hi

namespace Network

open NetworkInfo

/-- The network is what the reply says it is. -/
structure Decodes (network : Network) (info : Words) : Prop where
  inputCount : network.getInputCount = (info ifm.count).toNat
  outputCount : network.getOutputCount = (info ofm.count).toNat
  inputs : ifm.Decoded info network.ifmDims network.ifmTypes network.ifmDataOffset network.ifmShapes
  outputs :
    ofm.Decoded info network.ofmDims network.ofmTypes network.ofmDataOffset network.ofmShapes
  /-- Whatever interpreter the network is in. -/
  inputInfo : ∀ (s : Session) (id : Nat), s.this.network = some ⟨id, network⟩ →
    ∃ infos, Interpreter.getInputInfo s = .ok infos s
      ∧ Lists infos (info ifm.count).toNat (ifm.tensor info)
  outputInfo : ∀ (s : Session) (id : Nat), s.this.network = some ⟨id, network⟩ →
    ∃ infos, Interpreter.getOutputInfo s = .ok infos s
      ∧ Lists infos (info ofm.count).toNat (ofm.tensor info)

/-- A method that gets the infos of the network, if they can be had. -/
theorem infos_eq (infosOf : Network → Option (List TensorInfo)) {s : Session}
    {network : Shared Network} {infos : List TensorInfo} (hnetwork : s.this.network = some network)
    (hinfos : infosOf network.obj = some infos) :
    (do deref (infosOf (← deref (← get).this.network).obj) : Method (List TensorInfo)) s
      = .ok infos s := by
  show (do deref (infosOf (← deref s.this.network).obj) : Method (List TensorInfo)) s = _
  rw [hnetwork]
  show deref (infosOf network.obj) s = _
  rw [hinfos]
  rfl

/-- **Every reply is decoded faithfully**, whatever there is behind its arrays. -/
theorem decodes_ofInfo (device : Device) (fd : Fd) (buffer : Option (Shared Buffer))
    (info : Words) : (ofInfo device fd buffer info).Decodes info := by
  have hifm := ifm.decoded info
  have hofm := ofm.decoded info
  refine ⟨hifm.types.1, hofm.types.1, hifm, hofm, fun s id hnetwork ↦ ?_, fun s id hnetwork ↦ ?_⟩
  · refine ⟨_, infos_eq (fun n ↦ Interpreter.tensorInfos n.getInputCount n.ifmTypes n.ifmShapes)
      hnetwork ?_, lists_map_range _ _⟩
    show Interpreter.tensorInfos (ifm.typesOf info).length _ _ = _
    rw [hifm.types.1]
    exact Interpreter.tensorInfos_eq hifm.types hifm.shapes
  · refine ⟨_, infos_eq (fun n ↦ Interpreter.tensorInfos n.getOutputCount n.ofmTypes n.ofmShapes)
      hnetwork ?_, lists_map_range _ _⟩
    show Interpreter.tensorInfos (ofm.typesOf info).length _ _ = _
    rw [hofm.types.1]
    exact Interpreter.tensorInfos_eq hofm.types hofm.shapes

/-- Within the limits, what is behind the struct makes no difference. -/
theorem ofInfo_congr (device : Device) (fd : Fd) (buffer : Option (Shared Buffer))
    {info info' : Words} (hifm : ifm.InArrays info) (hofm : ofm.InArrays info)
    (hagree : ∀ k < words, info k = info' k) :
    ofInfo device fd buffer info = ofInfo device fd buffer info' := by
  have hend : ifm.count + 1 + 4 * ethosuFdMax + ethosuFdMax * ethosuDimMax ≤ words := by decide
  obtain ⟨hsizes, htypes, hoffsets, hshapes⟩ :=
    Tensors.vectors_congr hifm fun k _ hk ↦ hagree k (Nat.lt_of_lt_of_le hk hend)
  obtain ⟨hsizes', htypes', hoffsets', hshapes'⟩ :=
    Tensors.vectors_congr hofm fun k _ hk ↦ hagree k hk
  have hvela : info isVela = info' isVela := hagree _ (by decide)
  rw [ofInfo, ofInfo, hvela]
  congr 1

/-! ## The constructors -/

section

variable (env : Env) (device : Device)

/-- What the driver answers to `NETWORK_INFO`, if it is asked right after `NETWORK_CREATE`. -/
def information (req : Request) (p : Process) : Reply :=
  (p.called env req).reply env (.networkInfo (p.reply env req).ret)

/-- The descriptor that `NETWORK_CREATE` returned, if it returned one, has been closed since. -/
def ClosedAgain (req : Request) (p p' : Process) : Prop :=
  (p.reply env req).ret < 0 ∨ ∃ later reply, p'.trace = later ++ (p.called env req).trace
    ∧ .call (.close (p.reply env req).ret) reply ∈ later

/-- A constructor throws with the descriptor closed, or completes and has read the reply's arrays
within their bounds.  If the counts are within the limits, it completes if the driver lets it, and
has decoded the reply. -/
structure DecodedOrRefused (req : Request) (construct : M Network) (p : Process) : Prop where
  outcome : wp construct
    (fun _ _ ↦ ifm.InArrays (information env req p).data
      ∧ ofm.InArrays (information env req p).data)
    (fun _ p' ↦ ClosedAgain env req p p') p
  completes : ¬ (p.reply env req).ret < 0 → ¬ (information env req p).ret < 0 →
    ifm.WithinLimits (information env req p).data → ofm.WithinLimits (information env req p).data →
    wp construct (fun network _ ↦ network.Decodes (information env req p).data)
      (fun _ _ ↦ False) p

/-- The condition under which a constructor does what it is for. -/
def InformationFits (req : Request) (p : Process) : Prop :=
  (p.reply env req).ret < 0 ∨ (information env req p).ret < 0
    ∨ ifm.WithinLimits (information env req p).data ∧ ofm.WithinLimits (information env req p).data

variable {env device} {req : Request} {p : Process}

/-- A call is added to the trace, behind what has ended before it. -/
theorem trace_called (env : Env) (p : Process) (req : Request) :
    ∃ ended, (p.called env req).trace = .call req (p.reply env req) :: ended ++ p.trace :=
  ⟨_, rfl⟩

theorem stable_closedAgain (env : Env) (req : Request) (p : Process) :
    Stable env (ClosedAgain env req p) where
  survives req' _ p' hp' := by
    refine hp'.imp_right fun hclosed ↦ ?_
    obtain ⟨later, reply, htrace, hmem⟩ := hclosed
    obtain ⟨ended, htrace'⟩ := trace_called env p' req'
    rw [htrace, ← List.append_assoc] at htrace'
    exact ⟨_, reply, htrace', List.mem_append_right _ hmem⟩
  counted _ _ _ hp' := hp'

/-- Closing after `NETWORK_INFO`. -/
theorem closedAgain_close (env : Env) (req : Request) (p : Process) :
    ClosedAgain env req p (((p.called env req).called env
      (.networkInfo (p.reply env req).ret)).called env (.close (p.reply env req).ret)) := by
  obtain ⟨ended, htrace⟩ := trace_called env (p.called env req) (.networkInfo (p.reply env req).ret)
  obtain ⟨ended', htrace'⟩ := trace_called env ((p.called env req).called env
    (.networkInfo (p.reply env req).ret)) (.close (p.reply env req).ret)
  rw [htrace, ← List.append_assoc] at htrace'
  exact .inr ⟨_, _, htrace', List.mem_append_left _ List.mem_cons_self⟩

variable {buffer : Option (Shared Buffer)} {type : NetworkType} {arg : UInt32}

/-- **How the creation of a network ends**: with the network that the driver described, or with an
exception and the descriptor closed. -/
theorem wp_create_cases (hreq : req = .networkCreate device.fd type arg) :
    wp (create env device buffer type arg)
      (fun network _ ↦ ¬ (p.reply env req).ret < 0 ∧ ¬ (information env req p).ret < 0
        ∧ network = ofInfo device (p.reply env req).ret buffer (information env req p).data)
      (fun _ p' ↦ ClosedAgain env req p p'
        ∧ ((p.reply env req).ret < 0 ∨ (information env req p).ret < 0)) p := by
  subst hreq
  rw [create, wp_bind, eioctl, wp_checked]
  refine ⟨fun hrefused ↦ ⟨.inl hrefused, .inl hrefused⟩, fun hcreated ↦ ?_⟩
  rw [wp_bind, catching, wp_onThrow, eioctl, wp_checked]
  refine ⟨fun hunknown ↦ ?_, fun hknown ↦ ⟨hcreated, hknown, rfl⟩⟩
  -- whether closing succeeds or not
  have hclosed := closedAgain_close env (.networkCreate device.fd type arg) p
  have hcaught : (!(Exception.error "IOCTL failed").fatal) = true := rfl
  rw [if_pos hcaught, wp_discard, eclose, wp_checked]
  exact ⟨fun _ ↦ ⟨hclosed, .inr hunknown⟩, fun _ ↦ ⟨hclosed, .inr hunknown⟩⟩

/-- Cleaning up after the creation leaves it at that. -/
theorem wp_ofBuffer_cases (buffer : Shared Buffer)
    (hreq : req = .networkCreate device.fd .buffer buffer.obj.fd.toUInt32) :
    wp (ofBuffer env device buffer)
      (fun network _ ↦ ¬ (p.reply env req).ret < 0 ∧ ¬ (information env req p).ret < 0
        ∧ network = ofInfo device (p.reply env req).ret (some buffer) (information env req p).data)
      (fun _ p' ↦ ClosedAgain env req p p'
        ∧ ((p.reply env req).ret < 0 ∨ (information env req p).ret < 0)) p := by
  rw [ofBuffer, wp_bind, wp_copy, unwinding, wp_onThrow]
  refine wp_mono (wp_create_cases (p := buffer.copied p) hreq) (fun _ _ hq ↦ hq)
    (fun e p₁ h₁ ↦ ?_)
  obtain ⟨hclosed, hrefused⟩ := h₁
  have hkeeps := (stable_closedAgain env req p).bufferRelease buffer p₁ hclosed
  split
  · exact wp_mono hkeeps (fun _ _ h ↦ ⟨h, hrefused⟩) (fun _ _ h ↦ ⟨h, hrefused⟩)
  · exact ⟨hclosed, hrefused⟩

/-- What follows for a constructor that ends in one of these ways. -/
theorem decodedOrRefused_of_cases {construct : M Network}
    (h : wp construct
      (fun network _ ↦ ¬ (p.reply env req).ret < 0 ∧ ¬ (information env req p).ret < 0
        ∧ network = ofInfo device (p.reply env req).ret buffer (information env req p).data)
      (fun _ p' ↦ ClosedAgain env req p p'
        ∧ ((p.reply env req).ret < 0 ∨ (information env req p).ret < 0)) p) :
    DecodedOrRefused env req construct p ↔ InformationFits env req p := by
  refine ⟨?_, ?_⟩
  · intro hdecoded
    rw [InformationFits, or_iff_not_imp_left, or_iff_not_imp_left]
    intro hcreated hknown
    have hboth := wp_conj h hdecoded.outcome
    obtain ⟨_, _, -, -, hifm, hofm⟩ := exists_of_wp (wp_mono hboth (fun _ _ hq ↦ hq)
      (fun _ _ he ↦ he.1.2.elim hcreated hknown))
    exact ⟨(Tensors.inArrays_iff _ _).1 hifm, (Tensors.inArrays_iff _ _).1 hofm⟩
  · intro hfits
    refine ⟨?_, ?_⟩
    · refine wp_mono h (fun network p' hq ↦ ?_) (fun _ _ he ↦ he.1)
      obtain ⟨hifm, hofm⟩ := (hfits.resolve_left hq.1).resolve_left hq.2.1
      exact ⟨(Tensors.inArrays_iff _ _).2 hifm, (Tensors.inArrays_iff _ _).2 hofm⟩
    · intro hcreated hknown _ _
      refine wp_mono h (fun network p' hq ↦ ?_) (fun _ _ he ↦ he.2.elim hcreated hknown)
      rw [hq.2.2]
      exact decodes_ofInfo _ _ _ _

/-- **When the information about a network is decoded or refused**: when the driver refuses to
create the network or to tell about it, or when the counts that it reports are within the limits.
This is so for both constructors. -/
theorem decodedOrRefused_iff (env : Env) (device : Device) (p : Process) :
    (∀ buffer : Shared Buffer, DecodedOrRefused env
        (.networkCreate device.fd .buffer buffer.obj.fd.toUInt32) (ofBuffer env device buffer) p
      ↔ InformationFits env (.networkCreate device.fd .buffer buffer.obj.fd.toUInt32) p)
    ∧ ∀ index : UInt32, DecodedOrRefused env (.networkCreate device.fd .index index)
        (ofIndex env device index) p
      ↔ InformationFits env (.networkCreate device.fd .index index) p :=
  ⟨fun buffer ↦ decodedOrRefused_of_cases (wp_ofBuffer_cases buffer rfl),
    fun _ ↦ decodedOrRefused_of_cases (wp_create_cases rfl)⟩

end

/-- A reply with one input tensor more than the arrays have room for. -/
def manyInputs : Words := fun k ↦ if k = ifm.count then 17 else 0

/-- The arrays are read behind their end. -/
theorem manyInputs_not_decodedOrRefused :
    ¬ DecodedOrRefused (.obliging manyInputs fun _ ↦ ⟨false, false, 0, []⟩)
      (.networkCreate 3 .index 0)
      (ofIndex (.obliging manyInputs fun _ ↦ ⟨false, false, 0, []⟩) ⟨3⟩ 0) {} := by
  intro h
  have hfits := (decodedOrRefused_of_cases (wp_create_cases rfl)).1 h
  rcases hfits with hrefused | hunknown | ⟨⟨hcount, -⟩, -⟩
  · exact absurd hrefused (by decide)
  · exact absurd hunknown (by decide)
  · exact absurd hcount (by decide)

end Network

end EthosU
