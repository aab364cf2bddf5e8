import EthosU.Lib.Interference

/-!
# Programs, access by access

A `Script` is a program on a memory that it shares with others.  It shows every one of its accesses,
so that somebody else can get in between any two of them.

* `Script.alone` is what it does if nobody does.
* `Script.Within` bounds what it does in any case, whatever the values are that it loads: where it
  loads from and stores to, and how much it does of it.  It is a property of the program alone, that
  is proved along its structure (`Within.bind`, `within_loadAll`, `within_storeAll`).
* `Thread.step` makes one access.  `within_after` says what is left of the bounds of any number
  of programs next to each other, while the world stores what and where it likes: all of it.
-/

set_option autoImplicit false

/-- A program with memory cells `A`, values `V`, output `O` and exceptions `E`. -/
inductive Script (A V O E α : Type)
  | pure (a : α)
  | throw (e : E)
  | load (a : A) (next : V → Script A V O E α)
  | store (a : A) (v : V) (next : Script A V O E α)
  | emit (o : O) (next : Script A V O E α)

namespace Script

open Interference

variable {A V O E α β : Type}

def bind : Script A V O E α → (α → Script A V O E β) → Script A V O E β
  | .pure a, f => f a
  | .throw e, _ => .throw e
  | .load a next, f => .load a fun v ↦ (next v).bind f
  | .store a v next, f => .store a v (next.bind f)
  | .emit o next, f => .emit o (next.bind f)

instance instMonad : Monad (Script A V O E) where
  pure := .pure
  bind := bind

/-- The values at some places, one after the other. -/
def loadAll : List A → Script A V O E (List V)
  | [] => .pure []
  | a :: places => .load a fun v ↦ (loadAll places).bind fun values ↦ .pure (v :: values)

def storeAll : List (A × V) → Script A V O E Unit
  | [] => .pure ()
  | (a, v) :: stores => .store a v (storeAll stores)

def emitAll : List O → Script A V O E Unit
  | [] => .pure ()
  | o :: os => .emit o (emitAll os)

/-! ## Undisturbed -/

section

variable [DecidableEq A]

/-- How the program ends, and the memory and the output it leaves behind. -/
def alone : Script A V O E α → (A → V) → List O → Except E α × (A → V) × List O
  | .pure a, mem, out => (.ok a, mem, out)
  | .throw e, mem, out => (.error e, mem, out)
  | .load a next, mem, out => (next (mem a)).alone mem out
  | .store a v next, mem, out => next.alone (Function.update mem a v) out
  | .emit o next, mem, out => next.alone mem (out ++ [o])

theorem alone_bind (x : Script A V O E α) (f : α → Script A V O E β) (mem : A → V) (out : List O) :
    (x >>= f).alone mem out
      = match x.alone mem out with
        | (.ok a, mem', out') => (f a).alone mem' out'
        | (.error e, mem', out') => (.error e, mem', out') := by
  show (x.bind f).alone mem out = _
  induction x generalizing mem out with
  | pure a => rfl
  | throw e => rfl
  | load a next ih => exact ih (mem a) mem out
  | store a v next ih => exact ih _ out
  | emit o next ih => exact ih mem _

theorem alone_loadAll (places : List A) (mem : A → V) (out : List O) :
    (loadAll (E := E) places).alone mem out = (.ok (places.map mem), mem, out) := by
  induction places with
  | nil => rfl
  | cons a places ih =>
    have hbind := alone_bind (loadAll (E := E) places) (fun values ↦ .pure (mem a :: values)) mem
      out
    rw [ih] at hbind
    exact hbind

theorem alone_storeAll (stores : List (A × V)) (mem : A → V) (out : List O) :
    (storeAll (E := E) stores).alone mem out
      = (.ok (), stores.foldl (fun mem s ↦ Function.update mem s.1 s.2) mem, out) := by
  induction stores generalizing mem with
  | nil => rfl
  | cons s stores ih => exact ih _

theorem alone_emitAll (os : List O) (mem : A → V) (out : List O) :
    (emitAll (E := E) os).alone mem out = (.ok (), mem, out ++ os) := by
  induction os generalizing out with
  | nil => rw [List.append_nil]; rfl
  | cons o os ih =>
    rw [emitAll, alone, ih, List.append_assoc, List.singleton_append]

end

/-! ## Bounds -/

/-- Whatever it loads, the program makes at most `n` steps, among them at most `m` outputs; it loads
from and stores to the places given, and returns a value that is as it should. -/
inductive Within (reads writes : A → Prop) (returns : α → Prop) :
    Nat → Nat → Script A V O E α → Prop
  | pure {n m : Nat} {a : α} (h : returns a) : Within reads writes returns n m (.pure a)
  | throw {n m : Nat} {e : E} : Within reads writes returns n m (.throw e)
  | load {n m : Nat} {a : A} {next : V → Script A V O E α} (h : reads a)
      (hnext : ∀ v, Within reads writes returns n m (next v)) :
      Within reads writes returns (n + 1) m (.load a next)
  | store {n m : Nat} {a : A} {v : V} {next : Script A V O E α} (h : writes a)
      (hnext : Within reads writes returns n m next) :
      Within reads writes returns (n + 1) m (.store a v next)
  | emit {n m : Nat} {o : O} {next : Script A V O E α}
      (hnext : Within reads writes returns n m next) :
      Within reads writes returns (n + 1) (m + 1) (.emit o next)

namespace Within

variable {reads writes : A → Prop} {returns : α → Prop} {returns' : β → Prop} {n n' m m' : Nat}

theorem mono {x : Script A V O E α} (h : Within reads writes returns n m x) (hn : n ≤ n')
    (hm : m ≤ m') : Within reads writes returns n' m' x := by
  induction h generalizing n' m' with
  | pure h => exact .pure h
  | throw => exact .throw
  | load h _ ih =>
    obtain ⟨n', rfl⟩ := Nat.exists_eq_add_of_lt hn
    exact .load h fun v ↦ ih v (by omega) hm
  | store h _ ih =>
    obtain ⟨n', rfl⟩ := Nat.exists_eq_add_of_lt hn
    exact .store h (ih (by omega) hm)
  | emit _ ih =>
    obtain ⟨n', rfl⟩ := Nat.exists_eq_add_of_lt hn
    obtain ⟨m', rfl⟩ := Nat.exists_eq_add_of_lt hm
    exact .emit (ih (by omega) (by omega))

/-- One program after the other. -/
theorem bind {x : Script A V O E α} {f : α → Script A V O E β}
    (hx : Within reads writes returns n m x)
    (hf : ∀ a, returns a → Within reads writes returns' n' m' (f a)) :
    Within reads writes returns' (n + n') (m + m') (x >>= f) := by
  show Within reads writes returns' (n + n') (m + m') (x.bind f)
  induction hx with
  | pure h => exact (hf _ h).mono (Nat.le_add_left _ _) (Nat.le_add_left _ _)
  | throw => exact .throw
  | load h _ ih =>
    rw [Nat.add_right_comm]
    exact .load h ih
  | store h _ ih =>
    rw [Nat.add_right_comm]
    exact .store h ih
  | emit _ ih =>
    rw [Nat.add_right_comm, Nat.add_right_comm (m := 1)]
    exact .emit ih

end Within

section

variable (reads writes : A → Prop)

theorem within_loadAll {places : List A} (h : ∀ a ∈ places, reads a) :
    Within (V := V) (O := O) (E := E) reads writes (fun values ↦ values.length = places.length)
      places.length 0 (loadAll places) := by
  induction places with
  | nil => exact .pure rfl
  | cons a places ih =>
    refine .load (h a List.mem_cons_self) fun v ↦ ?_
    have hcons : ∀ values : List V, values.length = places.length →
        Within (V := V) (O := O) (E := E) reads writes
          (fun values ↦ values.length = (a :: places).length) 0 0 (.pure (v :: values)) :=
      fun values hvalues ↦ .pure (by rw [List.length_cons, List.length_cons, hvalues])
    exact (ih fun b hb ↦ h b (List.mem_cons_of_mem a hb)).bind hcons

theorem within_storeAll {stores : List (A × V)} (h : ∀ s ∈ stores, writes s.1) :
    Within (O := O) (E := E) reads writes (fun _ ↦ True) stores.length 0 (storeAll stores) := by
  induction stores with
  | nil => exact .pure trivial
  | cons s stores ih =>
    exact .store (h s List.mem_cons_self) (ih fun b hb ↦ h b (List.mem_cons_of_mem s hb))

theorem within_emitAll (os : List O) :
    Within (V := V) (E := E) reads writes (fun _ ↦ True) os.length os.length (emitAll os) := by
  induction os with
  | nil => exact .pure trivial
  | cons o os ih => exact .emit ih

end

/-! ## Next to others -/

/-- A program that has got somewhere. -/
structure Thread (A V O E α : Type) where
  rest : Script A V O E α
  out : List O := []
  /-- The places it has accessed, latest first. -/
  touched : List A := []
  /-- The steps it has made. -/
  made : Nat := 0

/-- The memory, and what it would be if the world had it to itself. -/
structure Memory (A V : Type) where
  mem : A → V
  world : A → V

/-- Nothing is left to do. -/
def Over : Script A V O E α → Prop
  | .pure _ => True
  | .throw _ => True
  | _ => False

section

variable [DecidableEq A]

def Thread.step (t : Thread A V O E α) (s : Memory A V) : Thread A V O E α × Memory A V :=
  match t.rest with
  | .pure _ => ({ t with made := t.made + 1 }, s)
  | .throw _ => ({ t with made := t.made + 1 }, s)
  | .load a next => (⟨next (s.mem a), t.out, a :: t.touched, t.made + 1⟩, s)
  | .store a v next =>
    (⟨next, t.out, a :: t.touched, t.made + 1⟩, { s with mem := Function.update s.mem a v })
  | .emit o next => (⟨next, t.out ++ [o], t.touched, t.made + 1⟩, s)

/-- The world stores a value. -/
def Memory.act (e : A × V) (s : Memory A V) : Memory A V :=
  ⟨Function.update s.mem e.1 e.2, Function.update s.world e.1 e.2⟩

variable {reads writes : A → Prop} {returns : α → Prop} {n m : Nat}

/-- The memory is that of the world, but for what the threads may store to. -/
def Memory.Framed (writes : A → Prop) (s : Memory A V) : Prop :=
  ∀ a, ¬ writes a → s.mem a = s.world a

/-- What a thread has done, and what it can still do, is within the bounds. -/
structure Thread.Bounded (reads writes : A → Prop) (returns : α → Prop) (n m : Nat)
    (t : Thread A V O E α) : Prop where
  rest : Within reads writes returns (n - t.made) (m - t.out.length) t.rest
  out : t.out.length ≤ m
  touched : ∀ a ∈ t.touched, reads a ∨ writes a

/-- A step is a step nearer to the end. -/
theorem Thread.Bounded.step {t : Thread A V O E α} (h : t.Bounded reads writes returns n m)
    {s : Memory A V} (hs : s.Framed writes) :
    (t.step s).2.Framed writes ∧ (t.step s).1.Bounded reads writes returns n m := by
  obtain ⟨rest, out, touched, made⟩ := t
  obtain ⟨hrest, hout, htouched⟩ := h
  dsimp only at hrest hout htouched
  generalize hk : n - made = k at hrest
  generalize hl : m - out.length = l at hrest
  have htouch : ∀ {a : A}, reads a ∨ writes a → ∀ b ∈ a :: touched, reads b ∨ writes b :=
    fun ha b hb ↦ (List.mem_cons.1 hb).elim (fun heq ↦ heq ▸ ha) (htouched b)
  cases hrest with
  | pure h => exact ⟨hs, .pure h, hout, htouched⟩
  | throw => exact ⟨hs, .throw, hout, htouched⟩
  | @load k _ a next h hnext =>
    refine ⟨hs, ?_, hout, htouch (.inl h)⟩
    show Within reads writes returns (n - (made + 1)) (m - out.length) (next (s.mem a))
    rw [hl, show n - (made + 1) = k by omega]
    exact hnext _
  | @store k _ a v next h hnext =>
    refine ⟨fun b hb ↦ ?_, ?_, hout, htouch (.inr h)⟩
    · have hne : b ≠ a := fun heq ↦ hb (heq ▸ h)
      exact (Function.update_of_ne hne _ _).trans (hs b hb)
    · show Within reads writes returns (n - (made + 1)) (m - out.length) next
      rw [hl, show n - (made + 1) = k by omega]
      exact hnext
  | @emit k l o next hnext =>
    refine ⟨hs, ?_, ?_, htouched⟩
    · show Within reads writes returns (n - (made + 1)) (m - (out ++ [o]).length) next
      rw [List.length_append, List.length_singleton, show n - (made + 1) = k by omega,
        show m - (out.length + 1) = l by omega]
      exact hnext
    · show (out ++ [o]).length ≤ m
      rw [List.length_append, List.length_singleton]
      omega

/-- The world keeps what is known of the memory. -/
theorem Memory.Framed.act {s : Memory A V} (h : s.Framed writes) (e : A × V) :
    (s.act e).Framed writes := by
  intro a ha
  by_cases hae : a = e.1
  · subst hae
    show Function.update s.mem e.1 e.2 e.1 = Function.update s.world e.1 e.2 e.1
    rw [Function.update_self, Function.update_self]
  · exact (Function.update_of_ne hae _ _).trans
      ((h a ha).trans (Function.update_of_ne hae _ _).symm)

/-- The proof obligation for all interleavings: nothing is asked of the world. -/
theorem sound (reads writes : A → Prop) (returns : α → Prop) (n m : Nat) :
    Sound (E := A × V) (Thread.step (O := O) (E := E) (α := α)) Memory.act (Memory.Framed writes)
      (fun t _ ↦ t.Bounded reads writes returns n m) (fun _ _ ↦ True) (fun _ _ ↦ True) where
  thread _ _ hs ht := ⟨(ht.step hs).1, (ht.step hs).2, trivial⟩
  world e _ _ hs := ⟨hs.act e, trivial⟩
  stable _ _ _ ht _ := ht

/-- What the world has stored. -/
def worldStores {I : Type} : List (Move I (A × V)) → (A → V) → A → V
  | [], mem => mem
  | .thread _ :: moves, mem => worldStores moves mem
  | .world e :: moves, mem => Function.update (worldStores moves mem) e.1 e.2

variable {I : Type} [DecidableEq I]

/-- The memory and the programs after an interleaving, latest move first. -/
def after (scripts : I → Script A V O E α) (mem : A → V) (moves : List (Move I (A × V))) :
    State I (Memory A V) (Thread A V O E α) :=
  State.after Thread.step Memory.act ⟨⟨mem, mem⟩, fun i ↦ { rest := scripts i }⟩ moves

theorem after_world (scripts : I → Script A V O E α) (mem : A → V) (moves : List (Move I (A × V))) :
    (after scripts mem moves).shared.world = worldStores moves mem := by
  have hstep : ∀ (t : Thread A V O E α) (s : Memory A V), (t.step s).2.world = s.world := by
    intro t s
    rw [Thread.step]
    split <;> rfl
  induction moves with
  | nil => rfl
  | cons move moves ih =>
    cases move with
    | thread i => exact (hstep _ _).trans ih
    | world e => exact congrArg (Function.update · e.1 e.2) ih

theorem after_made (scripts : I → Script A V O E α) (mem : A → V) (moves : List (Move I (A × V)))
    (i : I) : ((after scripts mem moves).locals i).made = steps i moves := by
  have hstep : ∀ (t : Thread A V O E α) (s : Memory A V), (t.step s).1.made = t.made + 1 := by
    intro t s
    rw [Thread.step]
    split <;> rfl
  induction moves with
  | nil => rfl
  | cons move moves ih =>
    cases move with
    | world e => exact ih
    | thread j =>
      by_cases hj : j = i
      · subst hj
        simp only [after, State.after, State.move, Function.update_self, steps, if_true, hstep]
        exact congrArg (· + 1) ih
      · simpa [after, State.after, State.move, Function.update_of_ne (Ne.symm hj), steps, hj]
          using ih

/-- **Any number of programs within their bounds, next to a world that stores what it likes**: they
have accessed nothing but what they may, the memory is what the world has made of it except where
they may store, none of them has put out more than `m` values, and each is over after `n` steps of
its own. -/
theorem within_after {scripts : I → Script A V O E α}
    (h : ∀ i, Within reads writes returns n m (scripts i)) (mem : A → V)
    (moves : List (Move I (A × V))) :
    (∀ a, ¬ writes a → (after scripts mem moves).shared.mem a = worldStores moves mem a)
      ∧ ∀ i, (∀ a ∈ ((after scripts mem moves).locals i).touched, reads a ∨ writes a)
        ∧ ((after scripts mem moves).locals i).out.length ≤ m
        ∧ (n ≤ steps i moves → Over ((after scripts mem moves).locals i).rest) := by
  have hallowed : ∀ moves : List (Move I (A × V)),
      Allowed Thread.step Memory.act (fun _ _ ↦ True)
        (⟨⟨mem, mem⟩, fun i ↦ { rest := scripts i }⟩ : State I (Memory A V) (Thread A V O E α))
        moves := by
    intro moves
    induction moves with
    | nil => trivial
    | cons move moves ih =>
      cases move with
      | thread i => exact ih
      | world e => exact ⟨trivial, ih⟩
  obtain ⟨hframed, hbounded⟩ := (sound reads writes returns n m).after moves (hallowed moves)
    (fun _ _ ↦ rfl) fun i ↦ ⟨h i, Nat.zero_le m, fun a ha ↦ absurd ha List.not_mem_nil⟩
  refine ⟨fun a ha ↦ ?_, fun i ↦ ⟨(hbounded i).touched, (hbounded i).out, fun hsteps ↦ ?_⟩⟩
  · rw [← after_world scripts mem moves]
    exact hframed a ha
  · have hrest := (hbounded i).rest
    have hmade : ((after scripts mem moves).locals i).made = _ := after_made scripts mem moves i
    change Within reads writes returns (n - ((after scripts mem moves).locals i).made) _
      ((after scripts mem moves).locals i).rest at hrest
    rw [hmade, Nat.sub_eq_zero_of_le hsteps] at hrest
    revert hrest
    generalize ((after scripts mem moves).locals i).rest = rest
    intro hrest
    cases hrest <;> trivial

end

end Script
