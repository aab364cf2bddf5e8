import EthosU.DriverLibrary.Inference
import Mathlib.Tactic.Common

/-!
# The inference request

`Inference::create` encodes an inference as an `ethosu_uapi_inference_create`.  This file is about
what the driver can read back from that struct.

* `Inference.LosesNothing` says that the encoding was faithful: every store to one of the two
  descriptor arrays had a subscript inside the array, and decoding the struct gives the arguments
  back.
* `losesNothing_iff` proves that, of the arguments the guards of `create` let pass, it is those
  that leave room for the arena which are encoded faithfully.  When the IFM buffers alone fill
  `ifm_fd` the last of them is stored behind it.
* `create_losesNothing_iff` is the same for `create` as a whole, for every answer of the driver.
-/

set_option autoImplicit false

namespace EthosU
namespace Inference

open InferenceCreate Wp

/-! ## The three loops -/

section Stores

variable (uapi : Words) {fds : List UInt32}

theorem storeIfm_count (h : fds.length < 2 ^ 32) :
    (storeIfm uapi fds ifmCount).toNat = fds.length :=
  uapi.storeCounted_counter (by decide) h

theorem block_storeIfm (h : fds.length < 2 ^ 32) :
    (storeIfm uapi fds).block ifmFd fds.length = fds :=
  uapi.block_storeCounted (by decide) h

theorem storeOfm_count (h : fds.length < 2 ^ 32) :
    (storeOfm uapi fds ofmCount).toNat = fds.length :=
  uapi.storeCounted_counter (by decide) h

theorem block_storeOfm (h : fds.length < 2 ^ 32) :
    (storeOfm uapi fds).block ofmFd fds.length = fds :=
  uapi.block_storeCounted (by decide) h

/-- The loop over the OFM buffers does not touch what comes before `ofm_count`. -/
theorem storeOfm_before (h : fds.length < 2 ^ 32) {j : Nat} (hj : j < ofmCount) :
    storeOfm uapi fds j = uapi j :=
  uapi.storeCounted_frame (by decide) h (by omega)
    (.inl (Nat.lt_trans hj (by decide)))

end Stores

/-- The counters and the flag come last and leave the rest of the struct alone. -/
theorem encode_uapi_before (uapi : Words) (arena : Fd) (ifm ofm : List Fd)
    (counterConfigs : List UInt32) (cycleCounterEnable : Bool) {j : Nat} (hj : j < events) :
    (encode uapi arena ifm ofm counterConfigs cycleCounterEnable).uapi j
      = storeOfm (storeIfm uapi ((arena :: ifm).map Int32.toUInt32))
        (ofm.map Int32.toUInt32) j := by
  have hne : j ≠ cycleCount := by simp only [cycleCount]; omega
  rw [encode]
  show Words.store _ _ _ j = _
  rw [Words.get_store_ne _ _ hne, storeEvents, Words.fill_frame _ _ (.inl hj)]

theorem encode_events (uapi : Words) (arena : Fd) (ifm ofm : List Fd)
    {counterConfigs : List UInt32} (cycleCounterEnable : Bool)
    (h : counterConfigs.length = ethosuPmuEventMax) :
    pmuEvents (encode uapi arena ifm ofm counterConfigs cycleCounterEnable).uapi
      = counterConfigs := by
  rw [pmuEvents, encode]
  show Words.block (Words.store _ _ _) _ _ = _
  rw [Words.block_store_of_disjoint _ _ (.inr (by decide)), storeEvents, Words.block_fill, ← h]
  refine List.ext_getElem (by simp) fun i _ hi ↦ ?_
  simp [List.getD, hi]

theorem encode_cycleCount (uapi : Words) (arena : Fd) (ifm ofm : List Fd)
    (counterConfigs : List UInt32) (cycleCounterEnable : Bool) :
    (encode uapi arena ifm ofm counterConfigs cycleCounterEnable).uapi cycleCount
      = if cycleCounterEnable then 1 else 0 := by
  simp only [encode, Words.get_store_self]

/-- No store of `create` reaches `inference_type`. -/
theorem encode_inferenceType (uapi : Words) (arena : Fd) {ifm ofm : List Fd}
    (counterConfigs : List UInt32) (cycleCounterEnable : Bool) (hifm : ifm.length ≤ ethosuFdMax)
    (hofm : ofm.length ≤ ethosuFdMax) :
    (encode uapi arena ifm ofm counterConfigs cycleCounterEnable).uapi inferenceType
      = uapi inferenceType := by
  have hifmEnd : ifmFd + ((arena :: ifm).map Int32.toUInt32).length ≤ inferenceType := by
    rw [List.length_map, List.length_cons, inferenceType, ofmFd, ofmCount, ifmFd]
    omega
  have hofmEnd : ofmFd + (ofm.map Int32.toUInt32).length ≤ inferenceType := by
    rw [List.length_map, inferenceType]
    omega
  rw [encode_uapi_before _ _ _ _ _ _ (by decide), storeOfm,
    Words.storeCounted_frame (by decide) _ ?_ (by decide) (.inr hofmEnd), storeIfm,
    Words.storeCounted_frame (by decide) _ ?_ (by decide) (.inr hifmEnd)]
  · simp only [inferenceType, ofmFd, ofmCount, ifmFd, ethosuFdMax] at hifmEnd
    omega
  · simp only [inferenceType, ofmFd, ofmCount, ifmFd, ethosuFdMax] at hofmEnd
    omega

/-! ## Decoding what was encoded -/

/-- The struct tells the driver everything, and was filled in without leaving its arrays. -/
structure LosesNothing (arena : Fd) (ifm ofm : List Fd) (counterConfigs : List UInt32)
    (cycleCounterEnable : Bool) (e : Encoded) : Prop where
  /-- Every store to `ifm_fd` is inside the array. -/
  ifmInside : ∀ i ∈ e.ifmSubscripts, i < ethosuFdMax
  /-- Every store to `ofm_fd` is inside the array. -/
  ofmInside : ∀ i ∈ e.ofmSubscripts, i < ethosuFdMax
  /-- The driver is told of no more input descriptors than the array has. -/
  ifmCountLe : (e.uapi ifmCount).toNat ≤ ethosuFdMax
  /-- The input descriptors are the arena and then the IFM buffers. -/
  ifm : ifmFds e.uapi = arena :: ifm
  /-- The output descriptors are counted. -/
  ofmCount : (e.uapi ofmCount).toNat = ofm.length
  /-- The output descriptors are the OFM buffers. -/
  ofm : ofmFds e.uapi = ofm
  /-- The counters are those asked for. -/
  events : pmuEvents e.uapi = counterConfigs
  /-- The cycle counter is enabled when it was asked for. -/
  cycleCount : e.uapi cycleCount = if cycleCounterEnable then 1 else 0

/-- The arguments the guards of `create` let pass. -/
def Accepts (ifm ofm : List Fd) (counterConfigs : List UInt32) : Prop :=
  ifm.length ≤ ethosuFdMax ∧ ofm.length ≤ ethosuFdMax ∧ counterConfigs.length = ethosuPmuEventMax

instance (ifm ofm : List Fd) (counterConfigs : List UInt32) :
    Decidable (Accepts ifm ofm counterConfigs) :=
  inferInstanceAs (Decidable (_ ∧ _))

/-- Counters that are copied over the default ones leave as many as the driver takes. -/
theorem accepts_copyCounters {ifm ofm : List Fd} {counters : List UInt32}
    (hifm : ifm.length ≤ ethosuFdMax) (hofm : ofm.length ≤ ethosuFdMax)
    (hcounters : counters.length ≤ ethosuPmuEventMax) :
    Accepts ifm ofm (copyCounters counters initializeCounterConfig) := by
  refine ⟨hifm, hofm, ?_⟩
  rw [copyCounters, List.length_append, List.length_drop, initializeCounterConfig,
    List.length_replicate]
  omega

private theorem map_fds (fds : List Fd) : (fds.map Int32.toUInt32).map UInt32.toInt32 = fds := by
  rw [List.map_map]
  exact (List.map_congr_left fun fd _ ↦ Int32.toInt32_toUInt32 fd).trans (List.map_id fds)

section

variable (uapi : Words) (arena : Fd) {ifm ofm : List Fd} {counterConfigs : List UInt32}
  (cycleCounterEnable : Bool)

/-- The subscripts of the first loop: the arena takes the first one. -/
theorem encode_ifmSubscripts (h : ifm.length ≤ ethosuFdMax) :
    (encode uapi arena ifm ofm counterConfigs cycleCounterEnable).ifmSubscripts
      = List.range (ifm.length + 1) := by
  simp only [ethosuFdMax] at h
  rw [encode]
  show Words.storeCountedSubscripts _ _ _ _ = _
  rw [Words.storeCountedSubscripts_eq (by decide) _ (by simp; omega)]
  simp

theorem encode_ofmSubscripts (h : ofm.length ≤ ethosuFdMax) :
    (encode uapi arena ifm ofm counterConfigs cycleCounterEnable).ofmSubscripts
      = List.range ofm.length := by
  simp only [ethosuFdMax] at h
  rw [encode]
  show Words.storeCountedSubscripts _ _ _ _ = _
  rw [Words.storeCountedSubscripts_eq (by decide) _ (by simp; omega)]
  simp

theorem encode_ofmFds (ifm : List Fd) (counterConfigs : List UInt32)
    (h : ofm.length ≤ ethosuFdMax) :
    ((encode uapi arena ifm ofm counterConfigs cycleCounterEnable).uapi ofmCount).toNat = ofm.length
      ∧ ofmFds (encode uapi arena ifm ofm counterConfigs cycleCounterEnable).uapi = ofm := by
  simp only [ethosuFdMax] at h
  have hlt : (ofm.map Int32.toUInt32).length < 2 ^ 32 := by simp; omega
  have hcount : ((encode uapi arena ifm ofm counterConfigs cycleCounterEnable).uapi
      ofmCount).toNat = ofm.length := by
    rw [encode_uapi_before _ _ _ _ _ _ (by decide), storeOfm_count _ hlt, List.length_map]
  refine ⟨hcount, ?_⟩
  have hblock := block_storeOfm (storeIfm uapi ((arena :: ifm).map Int32.toUInt32)) hlt
  rw [List.length_map] at hblock
  rw [ofmFds, hcount, Words.block_congr fun i hi ↦
    encode_uapi_before _ _ _ _ _ _ (show ofmFd + i < events by
      simp only [ofmFd, events, inferenceType, ethosuFdMax]; omega), hblock, map_fds]

/-- With room for the arena, the second loop finds the first array behind it. -/
theorem encode_ifmFds (counterConfigs : List UInt32) (h : ifm.length < ethosuFdMax)
    (hofm : ofm.length ≤ ethosuFdMax) :
    ((encode uapi arena ifm ofm counterConfigs cycleCounterEnable).uapi ifmCount).toNat
        = ifm.length + 1
      ∧ ifmFds (encode uapi arena ifm ofm counterConfigs cycleCounterEnable).uapi
        = arena :: ifm := by
  simp only [ethosuFdMax] at h hofm
  have hlt : ((arena :: ifm).map Int32.toUInt32).length < 2 ^ 32 := by simp; omega
  have hofmlt : (ofm.map Int32.toUInt32).length < 2 ^ 32 := by simp; omega
  have hcount : ((encode uapi arena ifm ofm counterConfigs cycleCounterEnable).uapi
      ifmCount).toNat = ifm.length + 1 := by
    rw [encode_uapi_before _ _ _ _ _ _ (by decide), storeOfm_before _ hofmlt (by decide),
      storeIfm_count _ hlt, List.length_map, List.length_cons]
  refine ⟨hcount, ?_⟩
  have hblock := block_storeIfm uapi hlt
  rw [List.length_map, List.length_cons] at hblock
  have hsame : ∀ i, i < ifm.length + 1 →
      (encode uapi arena ifm ofm counterConfigs cycleCounterEnable).uapi (ifmFd + i)
        = storeIfm uapi ((arena :: ifm).map Int32.toUInt32) (ifmFd + i) := by
    intro i hi
    have hj : ifmFd + i < ofmCount := by simp only [ofmCount, ethosuFdMax]; omega
    rw [encode_uapi_before _ _ _ _ _ _ (Nat.lt_trans hj (by decide)),
      storeOfm_before _ hofmlt hj]
  rw [ifmFds, hcount, Words.block_congr hsame, hblock, map_fds]

/-- **Of the arguments `create` accepts, those that leave room for the arena are encoded
faithfully.** -/
theorem losesNothing_iff (h : Accepts ifm ofm counterConfigs) :
    LosesNothing arena ifm ofm counterConfigs cycleCounterEnable
        (encode uapi arena ifm ofm counterConfigs cycleCounterEnable)
      ↔ ifm.length < ethosuFdMax := by
  obtain ⟨hifm, hofm, hcounters⟩ := h
  refine ⟨?_, ?_⟩
  · intro hl
    have hlast : ifm.length ∈ (encode uapi arena ifm ofm counterConfigs
        cycleCounterEnable).ifmSubscripts := by
      rw [encode_ifmSubscripts uapi arena cycleCounterEnable hifm]
      exact List.mem_range.2 (Nat.lt_succ_self _)
    exact hl.ifmInside _ hlast
  · intro hroom
    obtain ⟨hifmCount, hifmFds⟩ := encode_ifmFds uapi arena cycleCounterEnable counterConfigs
      hroom hofm
    obtain ⟨hofmCount, hofmFds⟩ := encode_ofmFds uapi arena cycleCounterEnable ifm
      counterConfigs hofm
    refine ⟨fun i hi ↦ ?_, fun i hi ↦ ?_, ?_, hifmFds, hofmCount, hofmFds,
      encode_events _ _ _ _ _ hcounters, encode_cycleCount _ _ _ _ _ _⟩
    · rw [encode_ifmSubscripts uapi arena cycleCounterEnable hifm, List.mem_range] at hi
      omega
    · rw [encode_ofmSubscripts uapi arena cycleCounterEnable hofm, List.mem_range] at hi
      omega
    · rw [hifmCount]
      exact hroom

end

/-! ## `create` -/

section Create

variable (env : Env) (network : Shared Network) (arenaBuffer : Shared Buffer)
  {ifmBuffers ofmBuffers : List (Shared Buffer)} {counterConfigs : List UInt32}
  (cycleCounterEnable : Bool) (p : Process)

@[simp] theorem length_getFds (buffers : List (Shared Buffer)) :
    (getFds buffers).length = buffers.length := List.length_map _

/-- Past its guards, `create` is one `ioctl`. -/
theorem create_of_accepts (h : Accepts (getFds ifmBuffers) (getFds ofmBuffers) counterConfigs) :
    create env network arenaBuffer ifmBuffers ofmBuffers counterConfigs cycleCounterEnable p
      = (do
          let reply ← eioctl env (.inferenceCreate network.obj.fd (request env p arenaBuffer
            ifmBuffers ofmBuffers counterConfigs cycleCounterEnable).uapi)
          return reply.ret : M Fd) p := by
  obtain ⟨hifm, hofm, hcounters⟩ := h
  rw [length_getFds] at hifm hofm
  rw [create, if_neg (by omega), if_neg (by omega), if_neg (by simpa using hcounters)]
  rfl

/-- A guard that does not pass throws before anything has happened. -/
theorem create_of_not_accepts
    (h : ¬ Accepts (getFds ifmBuffers) (getFds ofmBuffers) counterConfigs) :
    ∃ msg, create env network arenaBuffer ifmBuffers ofmBuffers counterConfigs
      cycleCounterEnable p = .error (.error msg) p := by
  simp only [Accepts, length_getFds] at h
  rw [create]
  by_cases hifm : ifmBuffers.length > ethosuFdMax
  · exact ⟨_, by rw [if_pos hifm]; rfl⟩
  by_cases hofm : ofmBuffers.length > ethosuFdMax
  · exact ⟨_, by rw [if_neg hifm, if_pos hofm]; rfl⟩
  · have hcounters : counterConfigs.length ≠ ethosuPmuEventMax := fun hc ↦
      h ⟨by omega, by omega, hc⟩
    exact ⟨_, by rw [if_neg hifm, if_neg hofm, if_pos hcounters]; rfl⟩

/-- A call that returned got past the guards. -/
theorem accepts_of_create_eq_ok {fd : Fd} {p' : Process}
    (h : create env network arenaBuffer ifmBuffers ofmBuffers counterConfigs cycleCounterEnable p
      = .ok fd p') : Accepts (getFds ifmBuffers) (getFds ofmBuffers) counterConfigs := by
  by_contra hrej
  obtain ⟨msg, hmsg⟩ := create_of_not_accepts env network arenaBuffer cycleCounterEnable p hrej
  rw [hmsg] at h
  exact absurd h (by simp)

/-- What the driver was handed by a call that returned. -/
theorem create_handed {fd : Fd} {p' : Process}
    (h : create env network arenaBuffer ifmBuffers ofmBuffers counterConfigs cycleCounterEnable p
      = .ok fd p') :
    ∃ reply, p'.trace.head? = some (.call (.inferenceCreate network.obj.fd (request env p
      arenaBuffer ifmBuffers ofmBuffers counterConfigs cycleCounterEnable).uapi) reply) := by
  have hacc := accepts_of_create_eq_ok env network arenaBuffer cycleCounterEnable p h
  rw [create_of_accepts env network arenaBuffer cycleCounterEnable p hacc] at h
  refine ok_of_wp ?_ h (Q := fun _ p' ↦ ∃ reply, p'.trace.head? = some (.call
    (.inferenceCreate network.obj.fd (request env p arenaBuffer ifmBuffers ofmBuffers
      counterConfigs cycleCounterEnable).uapi) reply)) (E := fun _ _ ↦ True)
  rw [wp_bind, eioctl, wp_checked]
  exact ⟨fun _ ↦ trivial, fun _ ↦ ⟨_, rfl⟩⟩

end Create

/-- **When `create` is faithful.**  Whatever the driver answers and whatever the stack held, every
call that returns has handed the driver a struct that loses nothing, except when the IFM buffers
alone fill `ifm_fd` and no other guard rejects them. -/
theorem create_losesNothing_iff (network : Shared Network) (arenaBuffer : Shared Buffer)
    (ifmBuffers ofmBuffers : List (Shared Buffer)) (counterConfigs : List UInt32)
    (cycleCounterEnable : Bool) :
    (∀ env p fd p', create env network arenaBuffer ifmBuffers ofmBuffers counterConfigs
        cycleCounterEnable p = .ok fd p' →
      (∃ reply, p'.trace.head? = some (.call (.inferenceCreate network.obj.fd (request env p
        arenaBuffer ifmBuffers ofmBuffers counterConfigs cycleCounterEnable).uapi) reply)) ∧
      LosesNothing arenaBuffer.obj.fd (getFds ifmBuffers) (getFds ofmBuffers) counterConfigs
        cycleCounterEnable (request env p arenaBuffer ifmBuffers ofmBuffers counterConfigs
          cycleCounterEnable))
      ↔ ¬ (ifmBuffers.length = ethosuFdMax ∧ ofmBuffers.length ≤ ethosuFdMax ∧
        counterConfigs.length = ethosuPmuEventMax) := by
  refine ⟨?_, ?_⟩
  · rintro hall ⟨hifm, hofm, hcounters⟩
    have hacc : Accepts (getFds ifmBuffers) (getFds ofmBuffers) counterConfigs :=
      ⟨by rw [length_getFds]; omega, by rwa [length_getFds], hcounters⟩
    -- a driver that accepts everything lets the call return
    have hok := create_of_accepts (Env.constant 3) network arenaBuffer cycleCounterEnable {} hacc
    have hroom := (losesNothing_iff _ _ _ hacc).1 (hall _ _ _ _ hok).2
    rw [length_getFds] at hroom
    omega
  · intro hcond env p fd p' hok
    refine ⟨create_handed env network arenaBuffer cycleCounterEnable p hok, ?_⟩
    have hacc := accepts_of_create_eq_ok env network arenaBuffer cycleCounterEnable p hok
    refine (losesNothing_iff _ _ _ hacc).2 ?_
    obtain ⟨hifm, hofm, hcounters⟩ := hacc
    rw [length_getFds] at hifm hofm ⊢
    have hne : ifmBuffers.length ≠ ethosuFdMax := fun h ↦ hcond ⟨h, hofm, hcounters⟩
    omega

/-- Sixteen IFM buffers pass the guard, and the last of them is stored behind the array. -/
theorem create_overflows :
    let network : Shared Network := ⟨0, Network.ofInfo ⟨3⟩ 4 none fun _ ↦ 0⟩
    let buffers : List (Shared Buffer) := List.replicate 16 ⟨1, ⟨5, 0, 64⟩⟩
    let counters : List UInt32 := [0, 0, 0, 0]
    let e := request (Env.constant 3) {} ⟨2, ⟨6, 0, 64⟩⟩ buffers [] counters false
    (∃ p', create (Env.constant 3) network ⟨2, ⟨6, 0, 64⟩⟩ buffers [] counters false {} = .ok 3 p')
      ∧ ethosuFdMax ∈ e.ifmSubscripts
      ∧ ¬ LosesNothing 6 (getFds buffers) [] counters false e := by
  intro network buffers counters e
  have hacc : Accepts (getFds buffers) (getFds []) counters := by decide
  refine ⟨⟨_, create_of_accepts _ _ _ _ _ hacc⟩, ?_, ?_⟩
  · show ethosuFdMax ∈ (encode _ _ _ _ _ _).ifmSubscripts
    rw [encode_ifmSubscripts _ _ _ hacc.1]
    decide
  · intro hl
    exact absurd ((losesNothing_iff _ _ _ hacc).1 hl) (by decide)

end Inference
end EthosU
