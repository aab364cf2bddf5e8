import EthosU.Objects

/-!
# The operations on shared objects

What the constructors, destructors and methods of the driver library do to everything a process has
custody of (`Owns`), one specification for each of them.

* The names are those of the operations.  A constructor adds an object to what the variables refer
  to (`Owns.makeBuffer`, `Owns.makeNetwork`, `Owns.makeInference`), a release removes one
  (`Owns.releaseBuffer`, `Owns.releaseNetwork`, `Owns.releaseInference`), whether it is the last
  reference or not, and a query changes nothing.
* A constructor that throws has changed nothing either (`Unwound`).
* Destructors never throw, so that none of the specifications of a release says what happens then.
-/

set_option autoImplicit false

namespace EthosU

open Wp Object

variable {J : History → Prop} {env : Env} {devices : Multiset Device}
  {roots : Multiset Object} {hand : Multiset Piece} {p : Process} {E : Exception → Process → Prop}

theorem Device.eq_of_fd {d d' : Device} (h : d.fd = d'.fd) : d = d' := by
  cases d
  cases d'
  cases h
  rfl

/-- What the driver has said of a network is all the network is. -/
def Network.Reported (env : Env) (device : Device) (fromBuffer : Option (Shared Buffer))
    (network : Network) (t : List Event) : Prop :=
  ∃ past fd, .call (.networkInfo fd) (env.kernel.answer past (.networkInfo fd)) ∈ t ∧ network
    = Network.ofInfo device fd fromBuffer (env.kernel.answer past (.networkInfo fd)).data

theorem Network.Reported.mono {device : Device} {fromBuffer : Option (Shared Buffer)}
    {network : Network} {t t' : List Event} (h : network.Reported env device fromBuffer t)
    (hsub : t ⊆ t') : network.Reported env device fromBuffer t' := by
  obtain ⟨past, fd, hmem, heq⟩ := h
  exact ⟨past, fd, hsub hmem, heq⟩

/-- The variables refer to nothing with this number, not even through another object. -/
def Unrelated (roots : Multiset Object) (n : ℕ) : Prop :=
  ∀ o ∈ roots, o.id ≠ n ∧ ∀ m ∈ o.members, m.id ≠ n

namespace Owns

/-! ## System calls -/

section

variable {req : Request}

/-- A request that gives and takes nothing. -/
theorem quiet (hJ : Lasting env J) (h : Owns J devices roots hand p) (msg : String)
    (hrevokes : req.revokes = none) (hgains : ∀ reply, req.gains reply = none)
    (hneeds : ∀ x ∈ req.needs, x ∈ tags devices (reach roots) hand) :
    wp (checked env msg req) (fun _ p' ↦ Owns J devices roots hand p')
      (fun e p' ↦ e = .error msg ∧ Owns J devices roots hand p') p := by
  obtain ⟨live, hstock⟩ := h
  have heffect : req.effect (p.reply env req) = .keep := by
    simp only [Request.effect, hrevokes, hgains]
    exact ite_self _
  have hcreate (network : Fd) (uapi : Words) : req ≠ .inferenceCreate network uapi := by
    rintro rfl
    cases hgains { ret := 0 }
  have hcalled := hstock.called_keep (hJ.called hstock.lasting hcreate) heffect hneeds
  rw [wp_checked]
  exact ⟨fun _ ↦ ⟨rfl, live, hcalled⟩, fun _ ↦ ⟨live, hcalled⟩⟩

/-- A request that gives something. -/
theorem gain (hkernel : env.kernel.Apart) (h : Owns J devices roots hand p)
    {K : History → Prop} (hK : K (p.called env req).history) (msg : String)
    (hrevokes : req.revokes = none)
    {f : Reply → Resource} {kind : Kind} (hgains : ∀ reply, req.gains reply = some (f reply, kind))
    (hneeds : ∀ x ∈ req.needs, x ∈ tags devices (reach roots) hand) :
    wp (checked env msg req)
      (fun reply p' ↦ Owns K devices roots (⟨f reply, kind, req.needs⟩ ::ₘ hand) p')
      (fun e p' ↦ e = .error msg ∧ Owns K devices roots hand p') p := by
  obtain ⟨live, hstock⟩ := h
  rw [wp_checked]
  refine ⟨fun hneg ↦ ⟨rfl, live, hstock.called_keep hK ?_ hneeds⟩,
    fun hneg ↦ ⟨live, hstock.called_gain hkernel hK hrevokes hneg (hgains _) hneeds⟩⟩
  simp only [Request.effect, hrevokes, if_pos hneg]

end

/-- Giving back something in hand. -/
theorem give {q : Piece} (hJ : Lasting env J) (h : Owns J devices roots (q ::ₘ hand) p)
    (hkind : q.kind ≠ .device) (hhand : ∀ q' ∈ hand, q.tag ∉ q'.sources) {req : Request}
    (hrevokes : req.revokes = some q.name) :
    Owns J devices roots hand (p.called env req) := by
  obtain ⟨live, hstock⟩ := h
  have hneeds : req.needs = [] := by
    cases req <;> first | rfl | cases hrevokes
  have hcreate (network : Fd) (uapi : Words) : req ≠ .inferenceCreate network uapi := by
    rintro rfl
    cases hrevokes
  exact ⟨live, hstock.called_give (hJ.called hstock.lasting hcreate) hrevokes hneeds hhand
    (hstock.unneeded hkind)⟩

theorem eclose {q : Piece} (hkernel : env.kernel.Apart) (hJ : Lasting env J)
    (h : Owns J devices roots (q ::ₘ hand) p) (hkind : q.kind ≠ .device)
    (hhand : ∀ q' ∈ hand, q.tag ∉ q'.sources) {fd : Fd} (hname : q.name = .descriptor fd) :
    wp (EthosU.eclose env fd) (fun _ p' ↦ Owns J devices roots hand p') E p := by
  rw [EthosU.eclose, wp_checked]
  refine ⟨fun hneg ↦ absurd hneg (hkernel.close _ fd), fun _ ↦ h.give hJ hkind hhand ?_⟩
  rw [hname]
  rfl

theorem emunmap {q : Piece} (hkernel : env.kernel.Apart) (hJ : Lasting env J)
    (h : Owns J devices roots (q ::ₘ hand) p) (hkind : q.kind ≠ .device)
    (hhand : ∀ q' ∈ hand, q.tag ∉ q'.sources) {addr : Nat} {length : UInt64}
    (hname : q.name = .mapping addr length) :
    wp (EthosU.emunmap env addr length) (fun _ p' ↦ Owns J devices roots hand p') E p := by
  rw [EthosU.emunmap, wp_checked]
  refine ⟨fun hneg ↦ absurd hneg (hkernel.munmap _ addr length), fun _ ↦ h.give hJ hkind hhand ?_⟩
  rw [hname]
  rfl

/-! ## Scopes -/

/-- The destructors of a scope that is left by an exception. -/
theorem unwinding {α : Type} {x : M α} {destructors : M Unit} {Q : α → Process → Prop}
    {expected : Exception → Prop} {inside : Multiset Device} {inner : Multiset Object}
    (hx : wp x Q (Escaped expected J inside inner) p)
    (hd : ∀ p, Owns J inside inner 0 p →
      wp destructors (fun _ p' ↦ Owns J devices roots 0 p') (fun _ _ ↦ False) p) :
    wp (EthosU.unwinding destructors x) Q (Escaped expected J devices roots) p := by
  rw [EthosU.unwinding, wp_onThrow]
  refine wp_mono hx (fun _ _ hq ↦ hq) (fun e p' he ↦ ?_)
  by_cases hfatal : e.fatal = true
  · rw [if_neg (by simp [hfatal])]
    exact ⟨he.accepted, he.returns, fun hnot ↦ absurd hfatal (by simp [hnot])⟩
  · rw [if_pos (by simpa using hfatal)]
    exact wp_mono (hd p' (he.owns (by simpa using hfatal)))
      (fun _ p'' hp'' ↦ hp''.unwound he.returns) (fun _ _ hf ↦ hf.elim)

/-- Two destructors in a row. -/
theorem destroyBoth {first second : M Unit} {R : Process → Prop} {Q : Unit → Process → Prop}
    (hfirst : wp first (fun _ p' ↦ R p') (fun _ _ ↦ False) p)
    (hsecond : ∀ p', R p' → wp second Q E p') :
    wp (EthosU.destroyBoth first second) Q E p :=
  wp_destroyBoth (wp_mono hfirst (fun _ p' hp' ↦ hsecond p' hp') (fun _ _ hf ↦ hf))

/-! ## Shared pointers -/

section

variable {α : Type}

theorem copy (h : Owns J devices roots 0 p) {o : Object} (ho : o ∈ roots) {s : Shared α}
    (hid : o.id = s.id) : wp s.copy (fun _ p' ↦ Owns J devices (o ::ₘ roots) 0 p') E p := by
  obtain ⟨live, hstock⟩ := h
  rw [wp_copy]
  have hcounted := hstock.counted.copy (hstock.counted.mem_live ho)
  refine ⟨live, ?_, hstock.holds, hstock.lasting⟩
  rw [show Object.shape.id o = s.id from hid] at hcounted
  exact hcounted

/-- A new object, from members and custody of what is in hand. -/
theorem makeShared {obj : α} {o : Shared α → Object} (hid : ∀ s, (o s).id = s.id)
    {members : Multiset Object} (hmembers : ∀ n, (o ⟨n, obj⟩).members = members)
    (hpieces : ∀ n, (o ⟨n, obj⟩).pieces = hand) (h : Owns J devices (members + roots) hand p) :
    wp (EthosU.makeShared obj) (fun s p' ↦ s.obj = obj ∧ Unrelated roots s.id
      ∧ Owns J devices (o s ::ₘ roots) 0 p') E p := by
  obtain ⟨live, hstock⟩ := h
  rw [wp_makeShared]
  have hbelow (x : Object) (hx : x ∈ live) : x.id ≠ p.made :=
    Nat.ne_of_lt (hstock.counted.below x hx)
  refine ⟨rfl, fun x hx ↦ ?_, o ⟨p.made, obj⟩ ::ₘ live, ?_, ?_, hstock.lasting⟩
  · have hlive := hstock.counted.mem_live (Multiset.mem_add.2 (.inr hx))
    exact ⟨hbelow x hlive, fun m hm ↦ hbelow m (hstock.counted.mem_live_of_member hlive hm)⟩
  · refine Sharing.Counted.make ?_ (hid _)
    rw [show Object.shape.members (o ⟨p.made, obj⟩) = members from hmembers _]
    exact hstock.counted
  · rw [pieces_cons, hpieces, Multiset.add_zero]
    exact hstock.holds

/-- A reference goes away.  What the destructor does matters only for the last one. -/
theorem release {s : Shared α} {destructor : α → M Unit} {o : Object} (hid : o.id = s.id)
    (h : Owns J devices (o ::ₘ roots) 0 p)
    (hlast : ∀ p, Owns J devices (o.members + roots) o.pieces p →
      wp (destructor s.obj) (fun _ p' ↦ Owns J devices roots 0 p') (fun _ _ ↦ False) p) :
    wp (s.release destructor) (fun _ p' ↦ Owns J devices roots 0 p') E p := by
  obtain ⟨live, hstock⟩ := h
  have hid' : Object.shape.id o = s.id := hid
  rw [wp_release]
  refine ⟨fun huses ↦ ?_, fun huses ↦ ?_⟩
  · obtain ⟨live', rfl, hcounted⟩ := hstock.counted.last (by rw [hid', huses])
    refine wp_mono (hlast _ ⟨live', ?_, ?_, hstock.lasting⟩) (fun _ _ hq ↦ hq)
      (fun _ _ hf ↦ hf.elim)
    · rw [hid'] at hcounted
      exact hcounted
    · have hholds := hstock.holds
      rw [pieces_cons, Multiset.add_zero] at hholds
      exact hholds
  · have hcounted := hstock.counted.drop (by rwa [hid'])
    rw [hid'] at hcounted
    exact ⟨live, hcounted, hstock.holds, hstock.lasting⟩

end

/-! ## Devices -/

theorem mem_device {d : Device} (hd : d ∈ devices) :
    (.descriptor d.fd, .device) ∈ tags devices roots hand :=
  mem_tags.2 (.inr (.inl ⟨d, hd, rfl⟩))

theorem mem_object {o : Object} (ho : o ∈ reach roots) {x : Resource × Kind}
    (hx : x ∈ o.pieces.map Custody.Piece.tag) : x ∈ tags devices (reach roots) hand :=
  mem_tags.2 (.inr (.inr ⟨o, ho, hx⟩))

/-- What a system call that throws leaves behind. -/
theorem unwound_error {e : Exception} {msg : String}
    (h : e = .error msg ∧ Owns J devices roots 0 p) : Unwound J devices roots e p := by
  obtain ⟨rfl, h⟩ := h
  exact h.unwound (by simp)

/-- A method that makes a request and does something with the answer. -/
theorem asks {α : Type} {f : Reply → M α} (hJ : Lasting env J) (h : Owns J devices roots 0 p)
    (msg : String) {req : Request} (hrevokes : req.revokes = none)
    (hgains : ∀ reply, req.gains reply = none)
    (hneeds : ∀ x ∈ req.needs, x ∈ tags devices (reach roots) 0) {Q : α → Process → Prop}
    (hf : ∀ reply p', Owns J devices roots 0 p' → wp (f reply) Q (Unwound J devices roots) p') :
    wp (checked env msg req >>= f) Q (Unwound J devices roots) p := by
  rw [wp_bind]
  exact wp_mono (h.quiet hJ msg hrevokes hgains hneeds) (fun reply p' h' ↦ hf reply p' h')
    (fun _ _ he ↦ unwound_error he)

theorem deviceNew (hkernel : env.kernel.Apart) (hJ : Lasting env J) (h : Owns J devices roots 0 p)
    (device : String) :
    wp (Device.new env device) (fun d p' ↦ Owns J (d ::ₘ devices) roots 0 p')
      (Unwound J devices roots) p := by
  rw [Device.new, wp_bind, eopen]
  refine wp_mono (h.gain hkernel (hJ.called h.accepted.2 (by simp)) _ rfl (fun _ ↦ rfl)
    (by simp [Request.needs])) (fun reply p' h' ↦ ?_) (fun _ _ he ↦ unwound_error he)
  obtain ⟨live, hstock⟩ := h'
  refine ⟨live, hstock.counted, ?_, hstock.lasting⟩
  have hholds := hstock.holds
  rw [pieces, Multiset.cons_add, Multiset.zero_add] at hholds
  rw [pieces, Multiset.map_cons, Multiset.zero_add]
  exact hholds

theorem capabilities (hJ : Lasting env J) (h : Owns J devices roots 0 p) {d : Device}
    (hd : d ∈ devices) :
    wp (d.capabilities env) (fun _ p' ↦ Owns J devices roots 0 p') (Unwound J devices roots) p := by
  rw [Device.capabilities, wp_discard]
  refine wp_mono (h.quiet hJ _ rfl (fun _ ↦ rfl) ?_) (fun _ _ h' ↦ h')
    (fun _ _ he ↦ unwound_error he)
  simpa [Request.needs] using mem_device hd

/-- Closing a device that nothing belongs to. -/
theorem deviceDestroy (hkernel : env.kernel.Apart) (hJ : Lasting env J) {d : Device}
    (h : Owns J (d ::ₘ devices) roots 0 p) (hroots : ∀ o ∈ roots, o.device ≠ d) :
    wp (d.destroy env) (fun _ p' ↦ Owns J devices roots 0 p') E p := by
  obtain ⟨live, hstock⟩ := h
  rw [Device.destroy, wp_discard, EthosU.eclose, wp_checked]
  refine ⟨fun hneg ↦ absurd hneg (hkernel.close _ d.fd), fun _ ↦ ⟨live, ?_⟩⟩
  have hother : ∀ o ∈ live, o.device ≠ d := fun o ho ↦
    hstock.counted.forall_live (P := fun o ↦ o.device ≠ d) hroots
      (fun o _ hne m hm ↦ by rwa [device_member hm]) ho
  have hholds : Holds p.trace (pieces devices live {d.piece}) := by
    have hholds := hstock.holds
    rw [pieces, Multiset.map_cons, Multiset.zero_add] at hholds
    rw [pieces, Multiset.singleton_add]
    exact hholds
  refine Stock.called_give (q := d.piece) ⟨hstock.counted, hholds, hstock.lasting⟩
    (hJ.called hstock.lasting (by simp)) rfl rfl (fun q hq ↦ absurd hq (Multiset.notMem_zero q))
    fun o ho q hq hx ↦ ?_
  -- what belongs to a device is not needed through anything else
  have hkind : ∀ o' : Object, d.piece.tag ∉ o'.pieces.map Custody.Piece.tag := by
    intro o'
    cases o' <;> simp [Custody.Piece.tag, Device.piece, Buffer.mappingPiece, Buffer.descriptorPiece,
      Network.piece, Inference.piece]
  rcases source_cases hq hx with heq | hown | ⟨m, -, hmember⟩
  · exact hother o ho (Device.eq_of_fd (Resource.descriptor.inj (congrArg Prod.fst heq)).symm)
  · exact hkind o hown
  · exact hkind m hmember

/-! ## Buffers -/

theorem bufferNew (hkernel : env.kernel.Apart) (hJ : Lasting env J) (h : Owns J devices roots 0 p)
    {d : Device} (hd : d ∈ devices) (capacity : UInt64) :
    wp (Buffer.new env d capacity)
      (fun b p' ↦ Owns J devices roots {b.mappingPiece, b.descriptorPiece d} p')
      (Unwound J devices roots) p := by
  rw [Buffer.new, wp_bind, eioctl]
  refine wp_mono (h.gain hkernel (hJ.called h.accepted.2 (by simp)) _ rfl (fun _ ↦ rfl)
    (by simpa [Request.needs] using mem_device hd)) (fun created p₁ h₁ ↦ ?_)
    (fun _ _ he ↦ unwound_error he)
  rw [wp_bind, catching, wp_onThrow]
  refine wp_mono (h₁.gain hkernel (hJ.called h₁.accepted.2 (by simp)) _ rfl (fun _ ↦ rfl) ?_)
    (fun mapped p₂ h₂ ↦ h₂) (fun e p₂ he ↦ ?_)
  · simp [Request.needs, mem_tags, Custody.Piece.tag]
  · obtain ⟨rfl, h₂⟩ := he
    rw [if_pos (show (!(Exception.error _).fatal) = true from rfl), wp_discard]
    exact wp_mono (h₂.eclose (E := fun _ _ ↦ False) hkernel hJ (by simp)
      (fun q hq ↦ absurd hq (Multiset.notMem_zero q)) rfl) (fun _ _ h₃ ↦ h₃.unwound (by simp))
      (fun _ _ hf ↦ hf.elim)

theorem makeBuffer (hkernel : env.kernel.Apart) (hJ : Lasting env J) (h : Owns J devices roots 0 p)
    {d : Device} (hd : d ∈ devices) (capacity : UInt64) :
    wp (Buffer.new env d capacity >>= EthosU.makeShared)
      (fun b p' ↦ Unrelated roots b.id ∧ Owns J devices (buffer d b ::ₘ roots) 0 p')
      (Unwound J devices roots) p := by
  rw [wp_bind]
  refine wp_mono (h.bufferNew hkernel hJ hd capacity) (fun b p₁ h₁ ↦ ?_) (fun _ _ he ↦ he)
  have h₀ : Owns J devices (0 + roots) {b.mappingPiece, b.descriptorPiece d} p₁ := by
    rwa [Multiset.zero_add]
  exact wp_mono (makeShared (E := fun _ _ ↦ False) (o := buffer d) (fun _ ↦ rfl) (fun _ ↦ rfl)
    (fun _ ↦ rfl) h₀) (fun s p₂ h₂ ↦ h₂.2) (fun _ _ hf ↦ hf.elim)

theorem bufferDestroy (hkernel : env.kernel.Apart) (hJ : Lasting env J) {d : Device} {b : Buffer}
    (h : Owns J devices roots {b.mappingPiece, b.descriptorPiece d} p) :
    wp (b.destroy env) (fun _ p' ↦ Owns J devices roots 0 p') E p := by
  rw [Buffer.destroy, wp_bind, catching, wp_onThrow, wp_discard]
  refine wp_mono (h.emunmap (E := fun _ _ ↦ False) hkernel hJ (by simp [Buffer.mappingPiece]) ?_
    rfl) (fun _ p₁ h₁ ↦ ?_) (fun _ _ hf ↦ hf.elim)
  · simp [Buffer.descriptorPiece, Custody.Piece.tag, Buffer.mappingPiece]
  · rw [wp_discard]
    exact h₁.eclose hkernel hJ (by simp [Buffer.descriptorPiece])
      (fun q hq ↦ absurd hq (Multiset.notMem_zero q)) rfl

theorem releaseBuffer (hkernel : env.kernel.Apart) (hJ : Lasting env J) {d : Device}
    {b : Shared Buffer} (h : Owns J devices (buffer d b ::ₘ roots) 0 p) :
    wp (Buffer.release env b) (fun _ p' ↦ Owns J devices roots 0 p') E p :=
  h.release rfl fun p' h' ↦ by
    rw [members_buffer, Multiset.zero_add] at h'
    exact h'.bufferDestroy hkernel hJ

/-- The vector of buffers of one device goes away. -/
theorem releaseBuffers (hkernel : env.kernel.Apart) (hJ : Lasting env J) {d : Device}
    {buffers : List (Shared Buffer)} (h : Owns J devices (buffers.map (buffer d) + roots) 0 p) :
    wp (buffers.forM (Buffer.release env)) (fun _ p' ↦ Owns J devices roots 0 p') E p := by
  induction buffers generalizing p with
  | nil => simpa using h
  | cons b buffers ih =>
    rw [List.map_cons, ← Multiset.cons_coe, Multiset.cons_add] at h
    show wp (Buffer.release env b >>= fun _ ↦ buffers.forM (Buffer.release env)) _ E p
    rw [wp_bind]
    exact wp_mono (h.releaseBuffer (E := fun _ _ ↦ False) hkernel hJ) (fun _ p' h' ↦ ih h')
      (fun _ _ hf ↦ hf.elim)

theorem copyBuffers {d : Device} {buffers : List (Shared Buffer)}
    (h : Owns J devices roots 0 p) (hbuffers : ∀ b ∈ buffers, buffer d b ∈ roots) :
    wp (buffers.forM Shared.copy)
      (fun _ p' ↦ Owns J devices (buffers.map (buffer d) + roots) 0 p') E p := by
  induction buffers generalizing p roots with
  | nil => simpa using h
  | cons b buffers ih =>
    rw [List.forall_mem_cons] at hbuffers
    show wp (b.copy >>= fun _ ↦ buffers.forM Shared.copy) _ E p
    rw [wp_bind]
    refine wp_mono (h.copy (E := fun _ _ ↦ False) hbuffers.1 rfl) (fun _ p' h' ↦ ?_)
      (fun _ _ hf ↦ hf.elim)
    refine wp_mono (ih h' fun b' hb' ↦ Multiset.mem_cons_of_mem (hbuffers.2 b' hb'))
      (fun _ p'' h'' ↦ ?_) (fun _ _ he ↦ he)
    rwa [List.map_cons, ← Multiset.cons_coe, Multiset.cons_add, ← Multiset.add_cons]

section

variable {d : Device} {b : Shared Buffer}

theorem mem_buffer (hb : buffer d b ∈ reach roots) :
    (.descriptor b.obj.fd, .buffer) ∈ tags devices (reach roots) hand :=
  mem_object hb (tag_buffer d b)

theorem resize (hJ : Lasting env J) (h : Owns J devices roots 0 p) (hb : buffer d b ∈ reach roots)
    (size : UInt64) (offset : UInt64 := 0) :
    wp (b.obj.resize env size offset) (fun _ p' ↦ Owns J devices roots 0 p')
      (Unwound J devices roots) p := by
  rw [Buffer.resize, wp_discard]
  refine wp_mono (h.quiet hJ _ rfl (fun _ ↦ rfl) ?_) (fun _ _ h' ↦ h')
    (fun _ _ he ↦ unwound_error he)
  simpa [Request.needs] using mem_buffer hb

theorem bufferData (hJ : Lasting env J) (h : Owns J devices roots 0 p)
    (hb : buffer d b ∈ reach roots) :
    wp (b.obj.data env) (fun _ p' ↦ Owns J devices roots 0 p') (Unwound J devices roots) p := by
  rw [Buffer.data, wp_bind]
  exact h.asks hJ _ rfl (fun _ ↦ rfl) (by simpa [Request.needs] using mem_buffer hb) fun _ _ h' ↦ h'

end

/-! ## Networks -/

theorem networkCreate (hkernel : env.kernel.Apart) (hJ : Lasting env J)
    (h : Owns J devices roots 0 p) {d : Device} (hd : d ∈ devices)
    {fromBuffer : Option (Shared Buffer)} (hbuffer : ∀ b ∈ fromBuffer, buffer d b ∈ roots)
    {type : NetworkType} {arg : UInt32}
    (hneeds : (Request.networkCreate d.fd type arg).needs = (.descriptor d.fd, .device)
      :: fromBuffer.toList.map fun b ↦ (.descriptor b.obj.fd, .buffer)) :
    wp (Network.create env d fromBuffer type arg)
      (fun n p' ↦ n.Reported env d fromBuffer p'.trace ∧ Owns J devices roots {n.piece} p')
      (Unwound J devices roots) p := by
  have htags : ∀ x ∈ (Request.networkCreate d.fd type arg).needs,
      x ∈ tags devices (reach roots) 0 := by
    rw [hneeds, List.forall_mem_cons]
    refine ⟨mem_device hd, fun x hx ↦ ?_⟩
    obtain ⟨b, hb, rfl⟩ := List.mem_map.1 hx
    exact mem_buffer (mem_reach (hbuffer b (Option.mem_toList.1 hb)))
  rw [Network.create, wp_bind, eioctl]
  refine wp_mono (h.gain hkernel (hJ.called h.accepted.2 (by simp)) _ rfl (fun _ ↦ rfl) htags)
    (fun created p₁ h₁ ↦ ?_) (fun _ _ he ↦ unwound_error he)
  rw [hneeds] at h₁
  rw [wp_bind, catching, wp_onThrow, eioctl]
  have hinfo : wp (checked env "IOCTL failed" (.networkInfo created.ret)) _ _ p₁ :=
    h₁.quiet hJ _ rfl (fun _ ↦ rfl) (by simp [Request.needs, mem_tags, Custody.Piece.tag])
  rw [wp_checked] at hinfo ⊢
  refine ⟨fun hneg ↦ ?_, fun hneg ↦ ⟨⟨_, _, List.mem_cons_self, rfl⟩, hinfo.2 hneg⟩⟩
  rw [if_pos (show (!(Exception.error _).fatal) = true from rfl), wp_discard]
  exact wp_mono ((hinfo.1 hneg).2.eclose (E := fun _ _ ↦ False) hkernel hJ (by simp)
    (fun q hq ↦ absurd hq (Multiset.notMem_zero q)) rfl) (fun _ _ h₂ ↦ h₂.unwound (by simp))
    (fun _ _ hf ↦ hf.elim)

theorem networkOfBuffer (hkernel : env.kernel.Apart) (hJ : Lasting env J)
    (h : Owns J devices roots 0 p) {d : Device} (hd : d ∈ devices) {b : Shared Buffer}
    (hb : buffer d b ∈ roots) :
    wp (Network.ofBuffer env d b)
      (fun n p' ↦ n.Reported env d (some b) p'.trace
        ∧ Owns J devices (buffer d b ::ₘ roots) {n.piece} p') (Unwound J devices roots) p := by
  rw [Network.ofBuffer, wp_bind]
  refine wp_mono (h.copy (E := fun _ _ ↦ False) hb rfl) (fun _ p₁ h₁ ↦ ?_)
    (fun _ _ hf ↦ hf.elim)
  refine unwinding (h₁.networkCreate hkernel hJ hd (fun b' hb' ↦ ?_) ?_)
    fun p₂ h₂ ↦ h₂.releaseBuffer hkernel hJ
  · cases hb'
    exact Multiset.mem_cons_self _ _
  · simp [Request.needs]

theorem networkOfIndex (hkernel : env.kernel.Apart) (hJ : Lasting env J)
    (h : Owns J devices roots 0 p) {d : Device} (hd : d ∈ devices) (index : UInt32) :
    wp (Network.ofIndex env d index)
      (fun n p' ↦ n.Reported env d none p'.trace ∧ Owns J devices roots {n.piece} p')
      (Unwound J devices roots) p :=
  h.networkCreate hkernel hJ hd (fun b hb ↦ by cases hb) rfl

/-- A network that has been constructed becomes a shared object. -/
theorem shareNetwork {d : Device} {fromBuffer : Option (Shared Buffer)} {n : Network}
    (hn : n.Reported env d fromBuffer p.trace)
    (h : Owns J devices (fromBuffer.toList.map (buffer d) + roots) {n.piece} p) :
    wp (EthosU.makeShared n) (fun s p' ↦ s.obj.Reported env d fromBuffer p'.trace
      ∧ Unrelated roots s.id ∧ Owns J devices (network s ::ₘ roots) 0 p') E p := by
  obtain ⟨past, fd, hmem, rfl⟩ := hn
  have hshared := makeShared (E := E) (o := network) (fun _ ↦ rfl) (fun _ ↦ rfl) (fun _ ↦ rfl) h
  rw [wp_makeShared] at hshared ⊢
  exact ⟨⟨past, fd, hmem, rfl⟩, hshared.2⟩

theorem networkDestroy (hkernel : env.kernel.Apart) (hJ : Lasting env J) {n : Shared Network}
    (h : Owns J devices ((network n).members + roots) (network n).pieces p) :
    wp (n.obj.destroy env) (fun _ p' ↦ Owns J devices roots 0 p') E p := by
  rw [members_network, pieces_network] at h
  have hclosed : wp (EthosU.eclose env n.obj.fd) (fun _ p' ↦ Owns J devices
      (n.obj.buffer.toList.map (buffer n.obj.device) + roots) 0 p') (fun _ _ ↦ False) p :=
    h.eclose hkernel hJ (by simp [Network.piece]) (fun q hq ↦ absurd hq (Multiset.notMem_zero q))
      rfl
  refine destroyBoth (R := fun p' ↦ Owns J devices
    (n.obj.buffer.toList.map (buffer n.obj.device) + roots) 0 p') ?_ fun p' h' ↦ ?_
  · rw [wp_discard]
    exact hclosed
  · cases hbuffer : n.obj.buffer with
    | none =>
      rw [hbuffer] at h'
      simpa using h'
    | some b =>
      rw [hbuffer] at h'
      exact releaseBuffer hkernel hJ (by simpa using h')

theorem releaseNetwork (hkernel : env.kernel.Apart) (hJ : Lasting env J) {n : Shared Network}
    (h : Owns J devices (network n ::ₘ roots) 0 p) :
    wp (Inference.releaseNetwork env n) (fun _ p' ↦ Owns J devices roots 0 p') E p :=
  h.release rfl fun _ h' ↦ h'.networkDestroy hkernel hJ

/-! ## Inferences -/

/-- What the driver is handed names the network and the buffers, if there is room for the arena. -/
theorem needs_request {network : Shared Network} {arenaBuffer : Shared Buffer}
    {ifmBuffers ofmBuffers : List (Shared Buffer)} (hifm : ifmBuffers.length < ethosuFdMax)
    (hofm : ofmBuffers.length ≤ ethosuFdMax) (counterConfigs : List UInt32)
    (cycleCounterEnable : Bool) (p : Process) (fd : Fd) :
    (Request.inferenceCreate network.obj.fd (Inference.request env p arenaBuffer ifmBuffers
        ofmBuffers counterConfigs cycleCounterEnable).uapi).needs
      = (Inference.piece ⟨fd, network, ifmBuffers, ofmBuffers, arenaBuffer⟩).sources := by
  rw [Request.needs, Inference.request, Inference.piece, Inference.buffers,
    (Inference.encode_ifmFds _ _ _ _ (by rwa [Inference.length_getFds])
      (by rwa [Inference.length_getFds])).2,
    (Inference.encode_ofmFds _ _ _ _ _ (by rwa [Inference.length_getFds])).2]
  simp [Inference.getFds, Function.comp_def]

/-- What a constructor of an inference refers to, before it has an arena. -/
def constructing (n : Shared Network) (ifmBuffers ofmBuffers : List (Shared Buffer))
    (roots : Multiset Object) : Multiset Object :=
  ofmBuffers.map (buffer n.obj.device)
    + (ifmBuffers.map (buffer n.obj.device) + network n ::ₘ roots)

theorem mem_constructing {n : Shared Network} {ifmBuffers ofmBuffers : List (Shared Buffer)}
    {o : Object} (ho : o ∈ roots) : o ∈ constructing n ifmBuffers ofmBuffers roots :=
  Multiset.mem_add.2 (.inr (Multiset.mem_add.2 (.inr (Multiset.mem_cons_of_mem ho))))

theorem constructing_nil (n : Shared Network) (roots : Multiset Object) :
    constructing n [] [] roots = network n ::ₘ roots := by
  simp [constructing]

/-- The members of an inference. -/
theorem members_eq (s : Shared Inference) : (inference s).members + roots
    = buffer s.obj.network.obj.device s.obj.arenaBuffer
      ::ₘ constructing s.obj.network s.obj.ifmBuffers s.obj.ofmBuffers roots := by
  rw [members_inference, Inference.buffers, List.map_append, List.map_cons, ← Multiset.coe_add,
    ← Multiset.cons_coe, constructing]
  simp only [← Multiset.singleton_add]
  abel

section

variable {n : Shared Network} {ifmBuffers ofmBuffers : List (Shared Buffer)}
  {counters : List UInt32} {flag : Bool}

/-- What has been done has the property `J` before the call, `K` after it and `L` in both cases. -/
theorem inferenceCreate (hkernel : env.kernel.Apart) (h : Owns J devices roots 0 p)
    {K L : History → Prop} (hJL : ∀ p : Process, J p.history → L p.history)
    (hKL : ∀ p : Process, K p.history → L p.history)
    {arenaBuffer : Shared Buffer} (hn : network n ∈ roots)
    (hbuffers : ∀ b ∈ (arenaBuffer :: ifmBuffers) ++ ofmBuffers, buffer n.obj.device b ∈ roots)
    (hroom : ifmBuffers.length ≠ ethosuFdMax)
    (hsent : ifmBuffers.length < ethosuFdMax → ofmBuffers.length ≤ ethosuFdMax →
      K (p.called env (.inferenceCreate n.obj.fd (Inference.request env p arenaBuffer ifmBuffers
        ofmBuffers counters flag).uapi)).history) :
    wp (Inference.create env n arenaBuffer ifmBuffers ofmBuffers counters flag)
      (fun fd p' ↦ Owns K devices roots
        {Inference.piece ⟨fd, n, ifmBuffers, ofmBuffers, arenaBuffer⟩} p')
      (Unwound L devices roots) p := by
  by_cases hacc : Inference.Accepts (Inference.getFds ifmBuffers) (Inference.getFds ofmBuffers)
    counters
  · have hlength := hacc.1
    rw [Inference.length_getFds] at hlength
    have hifm : ifmBuffers.length < ethosuFdMax := Nat.lt_of_le_of_ne hlength hroom
    have hofm : ofmBuffers.length ≤ ethosuFdMax := by simpa using hacc.2.1
    have hneeds (fd : Fd) :
        (Request.inferenceCreate n.obj.fd (Inference.request env p arenaBuffer ifmBuffers
          ofmBuffers counters flag).uapi).needs
        = (Inference.piece ⟨fd, n, ifmBuffers, ofmBuffers, arenaBuffer⟩).sources :=
      needs_request hifm hofm counters flag p fd
    rw [wp_congr (Inference.create_of_accepts env n arenaBuffer flag p hacc), wp_bind, eioctl]
    refine wp_mono (h.gain hkernel (hsent hifm hofm) _ rfl (fun _ ↦ rfl) fun x hx ↦ ?_)
      (fun reply p' h' ↦ ?_) (fun _ p' he ↦ (unwound_error he).mono (hKL p'))
    · rw [hneeds 0, Inference.piece, List.mem_cons] at hx
      rcases hx with rfl | hx
      · exact mem_object (mem_reach hn) (tag_network n)
      · obtain ⟨b, hb, rfl⟩ := List.mem_map.1 hx
        exact mem_buffer (mem_reach (hbuffers b hb))
    · rw [hneeds reply.ret] at h'
      exact h'
  · obtain ⟨msg, hmsg⟩ := Inference.create_of_not_accepts env n arenaBuffer flag p hacc
    rw [wp_of_error hmsg]
    exact (h.mono (hJL p)).unwound (by simp)

/-- The variables of a constructor go away. -/
theorem releaseConstructing (hkernel : env.kernel.Apart) (hJ : Lasting env J)
    (h : Owns J devices (constructing n ifmBuffers ofmBuffers roots) 0 p) :
    wp (EthosU.destroyBoth (ofmBuffers.forM (Buffer.release env))
        (EthosU.destroyBoth (ifmBuffers.forM (Buffer.release env))
          (Inference.releaseNetwork env n))) (fun _ p' ↦ Owns J devices roots 0 p') E p := by
  rw [constructing] at h
  refine destroyBoth (h.releaseBuffers hkernel hJ) fun p₁ h₁ ↦ ?_
  exact destroyBoth (h₁.releaseBuffers hkernel hJ) fun p₂ h₂ ↦ h₂.releaseNetwork hkernel hJ

theorem releaseMembers_none (hkernel : env.kernel.Apart) (hJ : Lasting env J)
    (h : Owns J devices (constructing n ifmBuffers ofmBuffers roots) 0 p) :
    wp (Inference.releaseMembers env n ifmBuffers ofmBuffers none)
      (fun _ p' ↦ Owns J devices roots 0 p') E p :=
  destroyBoth (R := fun p' ↦ Owns J devices (constructing n ifmBuffers ofmBuffers roots) 0 p')
    h fun _ h₁ ↦ h₁.releaseConstructing hkernel hJ

theorem releaseMembers_some (hkernel : env.kernel.Apart) (hJ : Lasting env J) {d : Device}
    {arenaBuffer : Shared Buffer}
    (h : Owns J devices (buffer d arenaBuffer ::ₘ constructing n ifmBuffers ofmBuffers roots) 0 p) :
    wp (Inference.releaseMembers env n ifmBuffers ofmBuffers (some arenaBuffer))
      (fun _ p' ↦ Owns J devices roots 0 p') E p :=
  destroyBoth (h.releaseBuffer hkernel hJ) fun _ h₁ ↦ h₁.releaseConstructing hkernel hJ

theorem inferenceDestroy (hkernel : env.kernel.Apart) (hJ : Lasting env J) {s : Shared Inference}
    (h : Owns J devices ((inference s).members + roots) (inference s).pieces p) :
    wp (s.obj.destroy env) (fun _ p' ↦ Owns J devices roots 0 p') E p := by
  have hclosed : wp (EthosU.eclose env s.obj.fd)
      (fun _ p' ↦ Owns J devices ((inference s).members + roots) 0 p') (fun _ _ ↦ False) p :=
    h.eclose hkernel hJ (by simp [Inference.piece])
      (fun q hq ↦ absurd hq (Multiset.notMem_zero q)) rfl
  refine destroyBoth (R := fun p' ↦ Owns J devices ((inference s).members + roots) 0 p') ?_
    fun p' h' ↦ ?_
  · rw [wp_discard]
    exact hclosed
  · rw [members_eq] at h'
    exact h'.releaseMembers_some hkernel hJ

theorem releaseInference (hkernel : env.kernel.Apart) (hJ : Lasting env J) {s : Shared Inference}
    (h : Owns J devices (inference s ::ₘ roots) 0 p) :
    wp (Inference.release env s) (fun _ p' ↦ Owns J devices roots 0 p') E p :=
  h.release rfl fun _ h' ↦ h'.inferenceDestroy hkernel hJ

/-- An inference that has been constructed becomes a shared object. -/
theorem shareInference {i : Inference}
    (h : Owns J devices ((inference ⟨0, i⟩).members + roots) {i.piece} p) :
    wp (EthosU.makeShared i) (fun s p' ↦ s.obj = i ∧ Unrelated roots s.id
      ∧ Owns J devices (inference s ::ₘ roots) 0 p') E p :=
  makeShared (o := inference) (fun _ ↦ rfl) (fun _ ↦ rfl) (fun _ ↦ rfl) h

/-- The constructor that allocates an arena of its own. -/
theorem ofBuffers (hkernel : env.kernel.Apart) (hJ : Lasting env J) (h : Owns J devices roots 0 p)
    {K L : History → Prop} (hL : Lasting env L) (hJL : ∀ p : Process, J p.history → L p.history)
    (hKL : ∀ p : Process, K p.history → L p.history) (hd : n.obj.device ∈ devices)
    (hn : network n ∈ roots)
    (hifm : ∀ b ∈ ifmBuffers, buffer n.obj.device b ∈ roots)
    (hofm : ∀ b ∈ ofmBuffers, buffer n.obj.device b ∈ roots)
    (hroom : ifmBuffers.length ≠ ethosuFdMax)
    (hsent : ∀ p arenaBuffer, Unrelated roots arenaBuffer.id →
      Owns J devices (buffer n.obj.device arenaBuffer
        ::ₘ constructing n ifmBuffers ofmBuffers roots) 0 p →
      ifmBuffers.length < ethosuFdMax → ofmBuffers.length ≤ ethosuFdMax →
        K (p.called env (.inferenceCreate n.obj.fd (Inference.request env p arenaBuffer ifmBuffers
          ofmBuffers (Inference.copyCounters counters Inference.initializeCounterConfig)
          flag).uapi)).history) :
    wp (Inference.ofBuffers env n ifmBuffers ofmBuffers counters flag)
      (fun i p' ↦ (∃ arenaBuffer, i = ⟨i.fd, n, ifmBuffers, ofmBuffers, arenaBuffer⟩)
        ∧ Owns K devices ((inference ⟨0, i⟩).members + roots) {i.piece} p')
      (Unwound L devices roots) p := by
  rw [Inference.ofBuffers, wp_bind]
  refine wp_mono (h.copy (E := fun _ _ ↦ False) hn rfl) (fun _ p₁ h₁ ↦ ?_) (fun _ _ hf ↦ hf.elim)
  rw [wp_bind]
  refine wp_mono (h₁.copyBuffers (E := fun _ _ ↦ False) fun b hb ↦
    Multiset.mem_cons_of_mem (hifm b hb)) (fun _ p₂ h₂ ↦ ?_) (fun _ _ hf ↦ hf.elim)
  rw [wp_bind]
  refine wp_mono (h₂.copyBuffers (E := fun _ _ ↦ False) fun b hb ↦
    Multiset.mem_add.2 (.inr (Multiset.mem_cons_of_mem (hofm b hb)))) (fun _ p₃ h₃ ↦ ?_)
    (fun _ _ hf ↦ hf.elim)
  rw [wp_bind]
  refine wp_mono (unwinding (Q := fun arenaBuffer p' ↦ Unrelated roots arenaBuffer.id
    ∧ Owns J devices (buffer n.obj.device arenaBuffer
      ::ₘ constructing n ifmBuffers ofmBuffers roots) 0 p') ?_ fun p' h' ↦
      h'.releaseMembers_none hkernel hJ) (fun arenaBuffer p₄ h₄ ↦ ?_)
      (fun _ p' he ↦ he.mono (hJL p'))
  · rw [wp_ite]
    refine ⟨fun _ ↦ h₃.unwound (by simp), fun _ ↦ ?_⟩
    exact wp_mono (h₃.makeBuffer hkernel hJ hd _)
      (fun arenaBuffer p' h' ↦ ⟨fun o ho ↦ h'.1 o (mem_constructing ho), h'.2⟩) (fun _ _ he ↦ he)
  obtain ⟨hunrelated, h₄⟩ := h₄
  refine unwinding ?_ fun p' h' ↦ h'.releaseMembers_some (d := n.obj.device) hkernel hL
  rw [wp_bind]
  refine wp_mono (h₄.resize hJ (mem_reach (Multiset.mem_cons_self _ _)) _) (fun _ p₅ h₅ ↦ ?_)
    (fun _ p' he ↦ he.mono (hJL p'))
  rw [wp_bind]
  refine wp_mono (h₅.inferenceCreate hkernel hJL hKL (n := n)
    (Multiset.mem_cons_of_mem (mem_constructing hn)) (fun b hb ↦ ?_) hroom
    (hsent p₅ arenaBuffer hunrelated h₅))
    (fun fd p₆ h₆ ↦ ⟨⟨arenaBuffer, rfl⟩, ?_⟩) (fun _ _ he ↦ he)
  · rw [List.cons_append, List.mem_cons, List.mem_append] at hb
    rcases hb with rfl | hb | hb
    · exact Multiset.mem_cons_self _ _
    · exact Multiset.mem_cons_of_mem (mem_constructing (hifm b hb))
    · exact Multiset.mem_cons_of_mem (mem_constructing (hofm b hb))
  · rw [members_eq]
    exact h₆

/-- The constructor that is given its arena. -/
theorem ofArena (hkernel : env.kernel.Apart) (hJ : Lasting env J) (h : Owns J devices roots 0 p)
    {arenaBuffer : Shared Buffer} (hn : network n ∈ roots)
    (harena : buffer n.obj.device arenaBuffer ∈ roots)
    (hsent : ∀ (p : Process) uapi, J p.history →
      J (p.called env (.inferenceCreate n.obj.fd uapi)).history) :
    wp (Inference.ofArena env n arenaBuffer counters flag)
      (fun i p' ↦ i = ⟨i.fd, n, [], [], arenaBuffer⟩
        ∧ Owns J devices ((inference ⟨0, i⟩).members + roots) {i.piece} p')
      (Unwound J devices roots) p := by
  rw [Inference.ofArena, wp_bind]
  refine wp_mono (h.copy (E := fun _ _ ↦ False) hn rfl) (fun _ p₁ h₁ ↦ ?_) (fun _ _ hf ↦ hf.elim)
  rw [wp_bind]
  refine wp_mono (h₁.copy (E := fun _ _ ↦ False) (Multiset.mem_cons_of_mem harena) rfl)
    (fun _ p₂ h₂ ↦ ?_) (fun _ _ hf ↦ hf.elim)
  rw [← constructing_nil] at h₂
  refine unwinding ?_ fun p' h' ↦ h'.releaseMembers_some (d := n.obj.device) hkernel hJ
  rw [wp_ite]
  refine ⟨fun _ ↦ h₂.unwound (by simp), fun _ ↦ ?_⟩
  rw [wp_bind]
  refine wp_mono (h₂.inferenceCreate hkernel (fun _ h ↦ h) (fun _ h ↦ h) (n := n)
    (by simp [constructing]) (fun b hb ↦ ?_) (by decide) fun _ _ ↦ hsent p₂ _ h₂.accepted.2)
    (fun fd p₃ h₃ ↦ ⟨rfl, ?_⟩) (fun _ _ he ↦ he)
  · rw [List.append_nil, List.mem_singleton] at hb
    rw [hb]
    exact Multiset.mem_cons_self _ _
  · rw [members_eq]
    exact h₃

end

/-! ## Queries -/

section

variable {s : Shared Inference}

theorem mem_inference (hs : inference s ∈ roots) :
    (.descriptor s.obj.fd, .inference) ∈ tags devices (reach roots) hand :=
  mem_object (mem_reach hs) (tag_inference s)

theorem wait (hJ : Lasting env J) (h : Owns J devices roots 0 p) (hs : inference s ∈ roots)
    (timeoutNanos : Int64) :
    wp (s.obj.wait env timeoutNanos) (fun _ p' ↦ Owns J devices roots 0 p')
      (Unwound J devices roots) p :=
  h.asks hJ _ rfl (fun _ ↦ rfl) (by simpa [Request.needs] using mem_inference hs) fun _ _ h' ↦ h'

theorem status (hJ : Lasting env J) (h : Owns J devices roots 0 p) (hs : inference s ∈ roots) :
    wp (s.obj.status env) (fun _ p' ↦ Owns J devices roots 0 p') (Unwound J devices roots) p := by
  refine h.asks hJ _ rfl (fun _ ↦ rfl) (by simpa [Request.needs] using mem_inference hs)
    fun _ _ h' ↦ ?_
  split
  · exact h'
  · exact h'.unwound (by simp)

theorem getPmuCounters (hJ : Lasting env J) (h : Owns J devices roots 0 p)
    (hs : inference s ∈ roots) :
    wp (s.obj.getPmuCounters env) (fun _ p' ↦ Owns J devices roots 0 p')
      (Unwound J devices roots) p :=
  h.asks hJ _ rfl (fun _ ↦ rfl) (by simpa [Request.needs] using mem_inference hs) fun _ _ h' ↦ h'

theorem getCycleCounter (hJ : Lasting env J) (h : Owns J devices roots 0 p)
    (hs : inference s ∈ roots) :
    wp (s.obj.getCycleCounter env) (fun _ p' ↦ Owns J devices roots 0 p')
      (Unwound J devices roots) p :=
  h.asks hJ _ rfl (fun _ ↦ rfl) (by simpa [Request.needs] using mem_inference hs) fun _ _ h' ↦ h'

end

end Owns

end EthosU
