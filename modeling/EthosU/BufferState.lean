import EthosU.DriverLibrary.Buffer
import EthosU.Lib.Narrow
import Mathlib.Tactic.Common

/-!
# A buffer on both sides

The driver keeps a 32-bit capacity, offset and size for each buffer; the library keeps the `size_t`
capacity it was asked for, maps that many bytes, and narrows every other argument on its way into a
request.  This file asks when the two mean the same buffer.

* `KeptBuffer` is the driver's side: a capacity, and an offset and a size that fit into it.  `kept`
  reads it off a trace, and a kernel that `KeepsBuffers` answers `BUFFER_SET` and `BUFFER_GET` from
  it.
* `Buffer.Agrees` says that the driver and the library have the same capacity and the mapping that
  length; `Buffer.Right` that one call did what its arguments say, or nothing; `Buffer.AllRight`
  that each call of a sequence did.
* `Buffer.means_the_same_iff` proves that this is so exactly if the capacity is below `2 ^ 32` and
  so are the arguments of each call, except of those the driver rejects after narrowing them.
-/

set_option autoImplicit false

namespace EthosU

open Wp

/-! ## The driver's side -/

/-- What the driver keeps for a buffer. -/
structure KeptBuffer where
  capacity : UInt32
  offset : UInt32
  size : UInt32
  /-- `offset + size` must not exceed the capacity of the buffer. -/
  within : offset.toNat + size.toNat ≤ capacity.toNat

namespace KeptBuffer

/-- A buffer that was just created. -/
def created (capacity : UInt32) : KeptBuffer := ⟨capacity, 0, 0, Nat.zero_le _⟩

/-- Whether `BUFFER_SET` is accepted. -/
def Fits (k : KeptBuffer) (offset size : UInt32) : Prop :=
  offset.toNat + size.toNat ≤ k.capacity.toNat

instance (k : KeptBuffer) (offset size : UInt32) : Decidable (k.Fits offset size) :=
  inferInstanceAs (Decidable (_ ≤ _))

/-- The buffer after `BUFFER_SET`. -/
def set (k : KeptBuffer) (offset size : UInt32) : KeptBuffer :=
  if h : k.Fits offset size then ⟨k.capacity, offset, size, h⟩ else k

theorem set_of_fits {k : KeptBuffer} {offset size : UInt32} (h : k.Fits offset size) :
    k.set offset size = ⟨k.capacity, offset, size, h⟩ := dif_pos h

end KeptBuffer

/-- What an event does to the buffer at `fd`. -/
def Event.keep (fd : Fd) : Event → Option KeptBuffer → Option KeptBuffer
  | .call (.bufferCreate _ capacity) reply, k =>
    if reply.ret = fd ∧ ¬ reply.ret < 0 then some (.created capacity) else k
  | .call (.bufferSet fd' offset size) reply, k =>
    if fd' = fd ∧ ¬ reply.ret < 0 then k.map (·.set offset size) else k
  | .call (.close fd') _, k => if fd' = fd then none else k
  | _, k => k

/-- The buffer the driver keeps at `fd`. -/
def kept (fd : Fd) : List Event → Option KeptBuffer
  | [] => none
  | e :: past => e.keep fd (kept fd past)

/-- A driver that answers from the buffers it keeps. -/
structure Kernel.KeepsBuffers (kernel : Kernel) : Prop where
  /-- `BUFFER_SET` is rejected exactly when `offset + size` exceeds the capacity. -/
  set : ∀ past fd k offset size, kept fd past = some k →
    ((kernel.answer past (.bufferSet fd offset size)).ret < 0 ↔ ¬ k.Fits offset size)
  /-- `BUFFER_GET` succeeds. -/
  get : ∀ past fd k, kept fd past = some k → ¬ (kernel.answer past (.bufferGet fd)).ret < 0
  /-- It tells the offset. -/
  offset : ∀ past fd k, kept fd past = some k →
    (kernel.answer past (.bufferGet fd)).data BufferDescriptor.offset = k.offset
  /-- It tells the size. -/
  size : ∀ past fd k, kept fd past = some k →
    (kernel.answer past (.bufferGet fd)).data BufferDescriptor.size = k.size

section

variable {env : Env} {fd : Fd} {p : Process}

theorem kept_past : kept fd (p.past env) = kept fd p.trace := by
  have hended : ∀ fds : List Fd, kept fd (fds.map .ended ++ p.trace) = kept fd p.trace := by
    intro fds
    induction fds with
    | nil => rfl
    | cons fd' fds ih => exact ih
  exact hended _

theorem kept_called (req : Request) :
    kept fd (p.called env req).trace
      = (Event.call req (p.reply env req)).keep fd (kept fd p.trace) := by
  rw [Process.called_trace, kept, kept_past]

/-- A call that is not about the buffer. -/
theorem kept_quiet {req : Request} (h : ∀ reply k, (Event.call req reply).keep fd k = k) :
    kept fd (p.called env req).trace = kept fd p.trace := by
  rw [kept_called, h]

/-- `x` returns `a` from `p`. -/
def Returns {α : Type} (x : M α) (p : Process) (a : α) : Prop := ∃ q, x p = .ok a q

theorem Returns.bind {α β : Type} {x : M α} {f : α → M β} {a : α} {b : β} {q : Process}
    (hx : x p = .ok a q) (hf : Returns (f a) q b) : Returns (x >>= f) p b := by
  obtain ⟨r, hr⟩ := hf
  refine ⟨r, ?_⟩
  show EStateM.bind x f p = _
  rw [EStateM.bind, hx]
  exact hr

theorem Returns.unique {α : Type} {x : M α} {a b : α} (ha : Returns x p a) (hb : Returns x p b) :
    a = b := by
  obtain ⟨q, hq⟩ := ha
  obtain ⟨r, hr⟩ := hb
  rw [hq] at hr
  cases hr
  rfl

end

/-! ## Asking the driver -/

namespace Buffer

variable {env : Env} (hkeeps : env.kernel.KeepsBuffers) {buffer : Buffer} {k : KeptBuffer}
  {p : Process}

include hkeeps

theorem get_eq_ok (hk : kept buffer.fd p.trace = some k) :
    eioctl env (.bufferGet buffer.fd) p
      = .ok (p.reply env (.bufferGet buffer.fd)) (p.called env (.bufferGet buffer.fd)) :=
  checked_of_nonneg _ (hkeeps.get _ _ k (kept_past.trans hk))

theorem returns_size (hk : kept buffer.fd p.trace = some k) :
    Returns (buffer.size env) p k.size.toUInt64 := by
  refine Returns.bind (get_eq_ok hkeeps hk) ⟨p.called env (.bufferGet buffer.fd), ?_⟩
  rw [Process.reply, hkeeps.size _ _ k (kept_past.trans hk)]
  rfl

theorem returns_offset (hk : kept buffer.fd p.trace = some k) :
    Returns (buffer.offset env) p k.offset.toUInt64 := by
  refine Returns.bind (get_eq_ok hkeeps hk) ⟨p.called env (.bufferGet buffer.fd), ?_⟩
  rw [Process.reply, hkeeps.offset _ _ k (kept_past.trans hk)]
  rfl

theorem returns_data (hk : kept buffer.fd p.trace = some k) :
    Returns (buffer.data env) p (buffer.dataPtr + k.offset.toNat) := by
  obtain ⟨q, hq⟩ := returns_offset hkeeps hk
  refine Returns.bind hq ⟨q, ?_⟩
  rw [UInt32.toNat_toUInt64]
  rfl

/-- `resize`, when the driver accepts it. -/
theorem resize_of_fits (hk : kept buffer.fd p.trace = some k) {size offset : UInt64}
    (h : k.Fits offset.toUInt32 size.toUInt32) :
    ∃ q, buffer.resize env size offset p = .ok () q
      ∧ kept buffer.fd q.trace = some ⟨k.capacity, offset.toUInt32, size.toUInt32, h⟩ := by
  have hret : ¬ (p.reply env (.bufferSet buffer.fd offset.toUInt32 size.toUInt32)).ret < 0 :=
    fun hneg ↦ (hkeeps.set _ _ k _ _ (kept_past.trans hk)).1 hneg h
  refine ⟨p.called env (.bufferSet buffer.fd offset.toUInt32 size.toUInt32), ?_, ?_⟩
  · show EStateM.map _ (checked env _ _) p = _
    rw [EStateM.map, checked_of_nonneg _ hret]
  · rw [kept_called, Event.keep, if_pos ⟨rfl, hret⟩, hk, Option.map_some, KeptBuffer.set_of_fits h]

/-- `resize`, when the driver rejects it. -/
theorem resize_of_not_fits (hk : kept buffer.fd p.trace = some k) {size offset : UInt64}
    (h : ¬ k.Fits offset.toUInt32 size.toUInt32) :
    ∃ e q, buffer.resize env size offset p = .error e q ∧ kept buffer.fd q.trace = some k := by
  have hret : (p.reply env (.bufferSet buffer.fd offset.toUInt32 size.toUInt32)).ret < 0 :=
    (hkeeps.set _ _ k _ _ (kept_past.trans hk)).2 h
  refine ⟨.error "IOCTL failed",
    p.called env (.bufferSet buffer.fd offset.toUInt32 size.toUInt32), ?_, ?_⟩
  · show EStateM.map _ (checked env _ _) p = _
    rw [EStateM.map, checked_of_neg _ hret]
  · rw [kept_called, Event.keep, if_neg fun hand ↦ hand.2 hret, hk]

/-! ## Whole sequences of calls -/

omit hkeeps

/-- A call that changes what the driver keeps. -/
inductive Call
  | resize (size offset : UInt64)
  | clear
  deriving DecidableEq, Repr

namespace Call

/-- The size a call asks for. -/
def size : Call → UInt64
  | resize size _ => size
  | clear => 0

/-- The offset a call asks for. -/
def offset : Call → UInt64
  | resize _ offset => offset
  | clear => 0

/-- Makes the call. -/
def perform (env : Env) (buffer : Buffer) : Call → M Unit
  | resize size offset => buffer.resize env size offset
  | clear => buffer.clear env

theorem perform_eq (env : Env) (buffer : Buffer) (c : Call) :
    c.perform env buffer = buffer.resize env c.size c.offset := by
  cases c <;> rfl

end Call

/-- The driver and the library have the same capacity, and the mapping was made with it. -/
structure Agrees (buffer : Buffer) (p : Process) : Prop where
  capacity : ∃ k, kept buffer.fd p.trace = some k ∧ k.capacity.toNat = buffer.capacity.toNat
  mapped : ∃ reply, p.trace.head? = some (.call (.mmap buffer.capacity buffer.fd) reply)
    ∧ reply.addr = buffer.dataPtr

/-- What a call has to do that returns in `q`. -/
structure Did (env : Env) (buffer : Buffer) (c : Call) (q : Process) : Prop where
  /-- `size()` returns what was passed. -/
  size : Returns (buffer.size env) q c.size
  /-- `offset()` returns what was passed. -/
  offset : Returns (buffer.offset env) q c.offset
  /-- They fit into the capacity. -/
  within : c.offset.toNat + c.size.toNat ≤ buffer.capacity.toNat
  /-- `data()` points into the mapping, with `size()` bytes behind it. -/
  data : ∃ addr, Returns (buffer.data env) q addr ∧ buffer.dataPtr ≤ addr
    ∧ addr + c.size.toNat ≤ buffer.dataPtr + buffer.capacity.toNat

/-- The call did what its arguments say, or it threw and changed nothing. -/
def Right (env : Env) (buffer : Buffer) (c : Call) (p : Process) : Prop :=
  match c.perform env buffer p with
  | .ok _ q => Did env buffer c q
  | .error _ q =>
    (∀ v, Returns (buffer.size env) p v ↔ Returns (buffer.size env) q v)
      ∧ ∀ v, Returns (buffer.offset env) p v ↔ Returns (buffer.offset env) q v

/-- Each call of a sequence is right, whatever the calls before it threw. -/
def AllRight (env : Env) (buffer : Buffer) : List Call → Process → Prop
  | [], _ => True
  | c :: calls, p =>
    Right env buffer c p ∧ AllRight env buffer calls (left (c.perform env buffer) p)

/-- The driver rejects the call, or it loses nothing when it is narrowed. -/
def Call.Narrow (c : Call) (capacity : UInt64) : Prop :=
  c.offset.toUInt32.toNat + c.size.toUInt32.toNat ≤ capacity.toNat →
    c.size.toNat < 2 ^ 32 ∧ c.offset.toNat < 2 ^ 32

include hkeeps

/-- What the driver keeps after a call, and when the call was right. -/
theorem right_iff (hk : kept buffer.fd p.trace = some k)
    (hcapacity : k.capacity.toNat = buffer.capacity.toNat) (c : Call) :
    (Right env buffer c p ↔ c.Narrow buffer.capacity)
      ∧ ∃ k', kept buffer.fd (left (c.perform env buffer) p).trace = some k'
        ∧ k'.capacity = k.capacity := by
  rw [Right, left, c.perform_eq]
  by_cases hfits : k.Fits c.offset.toUInt32 c.size.toUInt32
  · obtain ⟨q, hq, hkq⟩ := resize_of_fits hkeeps hk hfits
    have hsize := returns_size hkeeps hkq
    have hoffset := returns_offset hkeeps hkq
    have hdata := returns_data hkeeps hkq
    rw [hq]
    refine ⟨⟨fun hdid _ ↦ ?_, fun hnarrow ↦ ?_⟩, _, hkq, rfl⟩
    · exact ⟨Narrow.toUInt64_toUInt32.1 (hsize.unique hdid.size),
        Narrow.toUInt64_toUInt32.1 (hoffset.unique hdid.offset)⟩
    · have hwithin : c.offset.toUInt32.toNat + c.size.toUInt32.toNat ≤ buffer.capacity.toNat :=
        hcapacity ▸ hfits
      obtain ⟨hltSize, hltOffset⟩ := hnarrow hwithin
      rw [Narrow.toUInt64_toUInt32.2 hltSize] at hsize
      rw [Narrow.toUInt64_toUInt32.2 hltOffset] at hoffset
      rw [Narrow.toNat_toUInt32 hltOffset] at hdata hwithin
      rw [Narrow.toNat_toUInt32 hltSize] at hwithin
      exact ⟨hsize, hoffset, hwithin, _, hdata, by omega, by omega⟩
  · obtain ⟨e, q, hq, hkq⟩ := resize_of_not_fits hkeeps hk hfits
    rw [hq]
    refine ⟨⟨fun _ hwithin ↦ (hfits (Nat.le_trans hwithin (Nat.le_of_eq hcapacity.symm))).elim,
      fun _ ↦ ⟨fun v ↦ ?_, fun v ↦ ?_⟩⟩, _, hkq, rfl⟩
    · have hp := returns_size hkeeps hk
      have hq := returns_size hkeeps hkq
      exact ⟨fun hv ↦ hp.unique hv ▸ hq, fun hv ↦ hq.unique hv ▸ hp⟩
    · have hp := returns_offset hkeeps hk
      have hq := returns_offset hkeeps hkq
      exact ⟨fun hv ↦ hp.unique hv ▸ hq, fun hv ↦ hq.unique hv ▸ hp⟩

theorem allRight_iff (calls : List Call) (hk : kept buffer.fd p.trace = some k)
    (hcapacity : k.capacity.toNat = buffer.capacity.toNat) :
    AllRight env buffer calls p ↔ ∀ c ∈ calls, c.Narrow buffer.capacity := by
  induction calls generalizing p k with
  | nil => simp [AllRight]
  | cons c calls ih =>
    obtain ⟨hright, k', hk', hcap'⟩ := right_iff hkeeps hk hcapacity c
    rw [AllRight, hright, ih hk' (by rw [hcap', hcapacity]), List.forall_mem_cons]

omit hkeeps

/-- What a constructor that returns has made. -/
theorem wp_new_kept (env : Env) (device : Device) (capacity : UInt64) (p : Process) :
    wp (new env device capacity)
      (fun buffer q ↦ buffer.capacity = capacity
        ∧ kept buffer.fd q.trace = some (.created capacity.toUInt32)
        ∧ ∃ reply, q.trace.head? = some (.call (.mmap capacity buffer.fd) reply)
          ∧ reply.addr = buffer.dataPtr) (fun _ _ ↦ True) p := by
  rw [new, wp_bind, eioctl, wp_checked]
  refine ⟨fun _ ↦ trivial, fun hcreated ↦ ?_⟩
  rw [wp_bind, catching, wp_onThrow, emmap, wp_checked]
  refine ⟨fun _ ↦ ?_, fun _ ↦ ⟨rfl, ?_, _, rfl, rfl⟩⟩
  · split
    · exact wp_of_forall (fun _ _ ↦ trivial) fun _ _ ↦ trivial
    · exact trivial
  · rw [kept_quiet fun _ _ ↦ rfl, kept_called, Event.keep, if_pos ⟨rfl, hcreated⟩]

/-- **When a buffer means the same to the library and to the driver.**  Once the constructor has
returned, the capacities agree and every call of every sequence is right exactly if the capacity
fits into 32 bits, and so do the arguments of each call, unless the driver rejects it as it is
narrowed. -/
theorem means_the_same_iff {env : Env} (hkeeps : env.kernel.KeepsBuffers) {device : Device}
    {capacity : UInt64} {p : Process} {buffer : Buffer} {q : Process}
    (hnew : new env device capacity p = .ok buffer q) (calls : List Call) :
    (Agrees buffer q ∧ AllRight env buffer calls q)
      ↔ capacity.toNat < 2 ^ 32 ∧ ∀ c ∈ calls, c.Narrow capacity := by
  obtain ⟨hcap, hk, hmapped⟩ := ok_of_wp (wp_new_kept env device capacity p) hnew
  have hcapacity : (KeptBuffer.created capacity.toUInt32).capacity.toNat = buffer.capacity.toNat
      ↔ capacity.toNat < 2 ^ 32 := by
    rw [hcap, KeptBuffer.created, UInt64.toNat_toUInt32]
    exact ⟨fun h ↦ h ▸ Nat.mod_lt _ (by decide), Nat.mod_eq_of_lt⟩
  constructor
  · rintro ⟨hagrees, hright⟩
    obtain ⟨k, hk', heq⟩ := hagrees.capacity
    rw [hk] at hk'
    cases hk'
    refine ⟨hcapacity.1 heq, ?_⟩
    rw [← hcap]
    exact (allRight_iff hkeeps calls hk heq).1 hright
  · rintro ⟨hlt, hnarrow⟩
    refine ⟨⟨⟨_, hk, hcapacity.2 hlt⟩, ?_⟩, ?_⟩
    · rw [hcap]
      exact hmapped
    · rw [← hcap] at hnarrow
      exact (allRight_iff hkeeps calls hk (hcapacity.2 hlt)).2 hnarrow

/-- A driver that keeps buffers, knows `info` about every network and grants everything else. -/
def keeper (info : Words) : Env where
  kernel :=
    { answer := fun past req ↦
        match req with
        | .bufferSet fd offset size =>
          match kept fd past with
          | some k => { ret := if k.Fits offset size then 0 else -1 }
          | none => { ret := -1 }
        | .bufferGet fd =>
          match kept fd past with
          | some k =>
            { ret := 0, data := fun i ↦ if i = BufferDescriptor.offset then k.offset else k.size }
          | none => { ret := -1 }
        | _ => { ret := .ofNat (past.length + 3), addr := 4096, data := info } }
  files := fun _ ↦ ⟨true, true, 0, []⟩
  stack := fun _ _ ↦ 0
  heapBool := fun _ ↦ false

theorem keeper_keepsBuffers (info : Words) : (keeper info).kernel.KeepsBuffers := by
  refine ⟨fun past fd k offset size hk ↦ ?_, fun past fd k hk ↦ ?_, fun past fd k hk ↦ ?_,
    fun past fd k hk ↦ ?_⟩
  · simp only [keeper, hk]
    split
    · simp [*]
    · simp [*]
  · simp [keeper, hk]
  · simp [keeper, hk]
  · simp [keeper, hk, BufferDescriptor.offset, BufferDescriptor.size]

theorem means_the_same_iff_keeper :
    ∃ buffer q, new (keeper fun _ ↦ 0) ⟨2⟩ 4096 {} = .ok buffer q
      ∧ ((Agrees buffer q
          ∧ AllRight (keeper fun _ ↦ 0) buffer [.resize 4096 0, .resize 1 4096, .clear] q)
        ↔ (4096 : UInt64).toNat < 2 ^ 32
          ∧ ∀ c ∈ [Call.resize 4096 0, .resize 1 4096, .clear], c.Narrow 4096) := by
  have hnew : new (keeper fun _ ↦ 0) ⟨2⟩ 4096 {} = .ok _ _ := rfl
  exact ⟨_, _, hnew, means_the_same_iff (keeper_keepsBuffers _) hnew _⟩

/-- A buffer of 4 GiB is a buffer without capacity to the driver, and a size that does not fit into
32 bits is set to something else. -/
theorem not_means_the_same :
    (∃ buffer q, new (keeper fun _ ↦ 0) ⟨2⟩ 4294967296 {} = .ok buffer q ∧ ¬ Agrees buffer q)
      ∧ ∃ buffer q, new (keeper fun _ ↦ 0) ⟨2⟩ 4096 {} = .ok buffer q
        ∧ ¬ AllRight (keeper fun _ ↦ 0) buffer [.resize 4294967297 0] q := by
  refine ⟨⟨_, _, rfl, fun hagrees ↦ ?_⟩, _, _, rfl, fun hright ↦ ?_⟩
  · obtain ⟨k, hk, hcap⟩ := hagrees.capacity
    cases hk
    exact absurd hcap (by decide)
  · have hnarrow := (allRight_iff (k := .created 4096) (keeper_keepsBuffers _) _ rfl rfl).1 hright
    exact absurd (hnarrow _ List.mem_cons_self (by decide)).1 (by decide)

end Buffer

end EthosU
