import EthosU.Uapi
import EthosU.Lib.Wp

/-!
# The process and the kernel

What the driver library runs on.  A `Process` is the state a program works on: the system calls it
has made, the use counts of its shared objects and the memory behind its mappings.  Everything the
program does not decide itself is in an `Env`: the answers of the kernel, the files, and what an
uninitialised variable happens to hold.

* The kernel is an arbitrary function of the system calls so far; nothing is assumed of it here.
  Inferences run on their own, so between two calls it may also report that some of them have
  ended (`Event.ended`).
* `eioctl`, `eopen`, `eppoll`, `eclose`, `emmap` and `emunmap` are the wrappers at the top of
  `driver_library/src/ethosu.cpp`, which turn a negative result into an exception.
* `Shared` is `std::shared_ptr`.  The objects it points at never change after construction, so the
  pointer carries the object; what the process keeps is the use count.
-/

set_option autoImplicit false

namespace EthosU

open Wp

/-! ## System calls -/

/-- `struct timespec`. -/
structure Timespec where
  tvSec : Int64
  tvNsec : Int64
  deriving DecidableEq, Repr

/-- The system calls of the driver library, with the data they hand to the kernel. -/
inductive Request
  | open (path : String)
  | close (fd : Fd)
  | mmap (length : UInt64) (fd : Fd)
  | munmap (addr : Nat) (length : UInt64)
  | ppoll (fd : Fd) (timeout : Option Timespec)
  | ping (device : Fd)
  | versionReq (device : Fd)
  | capabilitiesReq (device : Fd)
  | bufferCreate (device : Fd) (capacity : UInt32)
  | bufferSet (fd : Fd) (offset size : UInt32)
  | bufferGet (fd : Fd)
  | networkCreate (device : Fd) (type : NetworkType) (arg : UInt32)
  | networkInfo (fd : Fd)
  | inferenceCreate (network : Fd) (uapi : Words)
  | inferenceStatus (fd : Fd)
  | inferenceCancel (fd : Fd)

/-- What comes back from a system call: its result, the address `mmap` chose, and the struct an
`ioctl` filled in. -/
structure Reply where
  ret : Int32
  addr : Nat := 0
  data : Words := fun _ ↦ 0

/-- What happens between a process and the kernel. -/
inductive Event
  /-- The process makes a system call. -/
  | call (req : Request) (reply : Reply)
  /-- The device completes, fails or aborts an inference. -/
  | ended (inference : Fd)

/-- A kernel decides on every answer, and on what the device has finished in the meantime, from the
events so far (latest first). -/
structure Kernel where
  answer : List Event → Request → Reply
  ended : List Event → List Fd := fun _ ↦ []

/-! ## The environment and the process -/

/-- A file, and how reading it turns out.  When the size query fails `tellg` returns `-1` and the
stream delivers nothing afterwards. -/
structure File where
  opens : Bool
  tells : Bool
  delivers : Nat
  content : List UInt8

/-- Everything a program does not decide itself. -/
structure Env where
  kernel : Kernel
  files : String → File
  /-- What an uninitialised struct on the stack holds. -/
  stack : List Event → Words
  /-- What an uninitialised `bool` on the heap reads as. -/
  heapBool : List Event → Bool
  /-- What surrounds and fills an uninitialised array of bytes on the stack. -/
  stackBytes : List Event → Int → UInt8 := fun _ _ ↦ 0
  /-- What lies behind the last element of a vector. -/
  heapWord : List Event → Nat → UInt64 := fun _ _ ↦ 0
  /-- The bits of `(static_cast<int>(x) - 127.5f) / 127.5f`, from the bits of `x`. -/
  convertFloat : UInt32 → UInt32 := id

/-- An environment in which every system call returns `ret` and no file can be opened. -/
def Env.constant (ret : Int32) : Env where
  kernel := { answer := fun _ _ ↦ { ret := ret } }
  files := fun _ ↦ ⟨false, false, 0, []⟩
  stack := fun _ _ ↦ 0
  heapBool := fun _ ↦ false

/-- An environment in which every system call is granted, and `NETWORK_INFO` says `info`.  What is
given out is numbered by the events so far, up to a thousand of them. -/
def Env.obliging (info : Words) (files : String → File) : Env where
  kernel :=
    { answer := fun past req ↦
        { ret := .ofNat (min past.length 1000 + 3)
          addr := 4096 * past.length
          data := match req with
            | .networkInfo _ => info
            | _ => fun _ ↦ 0 } }
  files := files
  stack := fun _ _ ↦ 0
  heapBool := fun _ ↦ false

/-- A file has been read into the memory of a buffer. -/
structure ModelLoad where
  file : File
  buffer : Fd
  address : Int
  bytes : List UInt8

/-- A tensor has been filled from an image file, or should have been. -/
structure TensorLoad where
  file : File
  /-- What the decoder was given. -/
  staged : Int → UInt8
  /-- The dimensions of the tensor, and the bytes of one element. -/
  width : Nat
  height : Nat
  channels : Nat
  elementSize : Nat
  address : Int
  /-- The decoder was called and reported success. -/
  decoded : Bool
  /-- The addresses the decoder stored to, and those the conversion stored to. -/
  pixels : List Int
  converted : List Int
  /-- What the caller was told. -/
  result : Int32

/-- The number of elements. -/
def TensorLoad.elements (l : TensorLoad) : Nat := l.width * l.height * l.channels

/-- What there was when a system call was made: the memory, and what had been loaded into it. -/
structure Submission where
  req : Request
  mem : Int → UInt8
  models : List ModelLoad
  tensors : List TensorLoad

/-- The state a program works on.  The last three members are a record that no program reads. -/
structure Process where
  /-- The events so far, latest first. -/
  trace : List Event := []
  /-- The use count of every shared object. -/
  uses : Nat → Nat := fun _ ↦ 0
  /-- The number of shared objects made so far. -/
  made : Nat := 0
  /-- The memory behind the mappings. -/
  mem : Int → UInt8 := fun _ ↦ 0
  /-- The global `s_buffer`, into which images are decoded. -/
  decodeBuffer : Int → UInt8 := fun _ ↦ 0
  models : List ModelLoad := []
  tensors : List TensorLoad := []
  submissions : List Submission := []

/-- What a program can throw. -/
inductive Exception
  /-- `EthosU::Exception`. -/
  | error (msg : String)
  /-- What `std::throw_with_nested` throws.  It is no `EthosU::Exception`. -/
  | nested
  /-- An exception left a destructor that ran during unwinding: `std::terminate`. -/
  | terminate
  /-- A pointer that points at nothing was followed. -/
  | crash
  /-- `exit`, which destroys no local object. -/
  | exit (status : Int32)
  deriving DecidableEq, Repr

/-- What ends the program and can not be caught. -/
def Exception.fatal : Exception → Bool
  | .error _ => false
  | .nested => false
  | .terminate => true
  | .crash => true
  | .exit _ => true

/-- Programs. -/
abbrev M (α : Type) := EStateM Exception Process α

namespace Process

/-- The events a kernel sees when the next call arrives. -/
def past (p : Process) (env : Env) : List Event :=
  (env.kernel.ended p.trace).map .ended ++ p.trace

/-- The answer to a system call. -/
def reply (p : Process) (env : Env) (req : Request) : Reply := env.kernel.answer (p.past env) req

/-- The process after a system call. -/
def called (p : Process) (env : Env) (req : Request) : Process :=
  { p with
    trace := .call req (p.reply env req) :: p.past env
    submissions := ⟨req, p.mem, p.models, p.tensors⟩ :: p.submissions }

variable (p : Process) (env : Env) (req : Request)

@[simp] theorem called_trace :
    (p.called env req).trace = .call req (p.reply env req) :: p.past env := rfl
@[simp] theorem called_uses : (p.called env req).uses = p.uses := rfl

end Process

/-- One system call. -/
def syscall (env : Env) (req : Request) : M Reply := fun p ↦
  .ok (p.reply env req) (p.called env req)

section

variable {Q : Reply → Process → Prop} {E : Exception → Process → Prop} {p : Process}

@[simp] theorem wp_syscall (env : Env) (req : Request) :
    wp (syscall env req) Q E p ↔ Q (p.reply env req) (p.called env req) := Iff.rfl

/-- A system call that throws `msg` when its result is negative. -/
def checked (env : Env) (msg : String) (req : Request) : M Reply := do
  let reply ← syscall env req
  if reply.ret < 0 then throw (.error msg)
  return reply

@[simp] theorem wp_checked (env : Env) (msg : String) (req : Request) :
    wp (checked env msg req) Q E p
      ↔ ((p.reply env req).ret < 0 → E (.error msg) (p.called env req))
        ∧ (¬ (p.reply env req).ret < 0 → Q (p.reply env req) (p.called env req)) := by
  rw [checked, wp_bind, wp_syscall]
  by_cases h : (p.reply env req).ret < 0 <;> simp [h]

end

theorem checked_of_neg {env : Env} {req : Request} {p : Process} (msg : String)
    (h : (p.reply env req).ret < 0) :
    checked env msg req p = .error (.error msg) (p.called env req) := by
  show (if _ then _ else _ : M Reply) _ = _
  rw [if_pos h]
  rfl

theorem checked_of_nonneg {env : Env} {req : Request} {p : Process} (msg : String)
    (h : ¬ (p.reply env req).ret < 0) :
    checked env msg req p = .ok (p.reply env req) (p.called env req) := by
  show (if _ then _ else _ : M Reply) _ = _
  rw [if_neg h]
  rfl

/-! ## The wrappers -/

def eioctl (env : Env) (req : Request) : M Reply := checked env "IOCTL failed" req

def eopen (env : Env) (path : String) : M Reply :=
  checked env "Failed to open device" (.open path)

def eppoll (env : Env) (fd : Fd) (timeout : Option Timespec) : M Reply :=
  checked env "Failed to wait for ppoll event or signal" (.ppoll fd timeout)

def eclose (env : Env) (fd : Fd) : M Reply := checked env "Failed to close file" (.close fd)

def emmap (env : Env) (length : UInt64) (fd : Fd) : M Reply :=
  checked env "Failed to mmap file" (.mmap length fd)

def emunmap (env : Env) (addr : Nat) (length : UInt64) : M Reply :=
  checked env "Failed to munmap file" (.munmap addr length)

/-! ## Input streams -/

/-- `tellg` at the end of the stream, as a `size_t`. -/
def File.tellg (file : File) : UInt64 := if file.tells then .ofNat file.content.length else -1

/-- The bytes `read` delivers when it is asked for `n`. -/
def File.delivered (file : File) (n : Nat) : List UInt8 :=
  if file.tells then file.content.take (min n file.delivers) else []

/-- Memory after bytes have been stored from address `addr` on. -/
def storeBytes (m : Int → UInt8) (addr : Int) (bytes : List UInt8) : Int → UInt8 := fun a ↦
  if addr ≤ a then bytes.getD (a - addr).toNat (m a) else m a

/-- The process after bytes of a file have been stored. -/
def Process.loaded (p : Process) (load : ModelLoad) : Process :=
  { p with mem := storeBytes p.mem load.address load.bytes, models := load :: p.models }

/-- `stream.read` into the memory of a buffer.  Nobody looks at the state of the stream. -/
def File.read (file : File) (buffer : Fd) (addr : Int) (n : UInt64) : M Unit :=
  modify fun p ↦ p.loaded ⟨file, buffer, addr, file.delivered n.toNat⟩

/-! ## Exceptions -/

/-- `try { x } catch (std::exception &e) { try { cleanup } catch (...) { throw_with_nested(e); }
throw; }`. -/
def catching {α : Type} (cleanup : M Unit) (x : M α) : M α :=
  onThrow (fun e ↦ !e.fatal) (fun _ _ ↦ .nested) cleanup x

/-- `x`, in a scope whose local objects are destroyed by `destructors` when `x` throws. -/
def unwinding {σ α : Type} (destructors : EStateM Exception σ Unit) (x : EStateM Exception σ α) :
    EStateM Exception σ α :=
  onThrow (fun e ↦ !e.fatal) (fun _ _ ↦ .terminate) destructors x

/-- Two destructors in a row: the second one runs whether or not the first one throws. -/
def destroyBoth (first second : M Unit) : M Unit := do
  unwinding second first
  second

/-- A destructor that no exception leaves. -/
def noexcept (destructor : M Unit) : M Unit := tryCatch destructor fun _ ↦ throw .terminate

/-! ## Smart pointers -/

/-- `std::shared_ptr`. -/
structure Shared (α : Type) where
  id : Nat
  obj : α

section

variable {α : Type}

/-- `std::make_shared`, once the constructor has returned. -/
def makeShared (obj : α) : M (Shared α) := fun p ↦
  .ok ⟨p.made, obj⟩ { p with made := p.made + 1, uses := Function.update p.uses p.made 1 }

/-- The process once one more copy of the pointer exists. -/
def Shared.copied (s : Shared α) (p : Process) : Process :=
  { p with uses := Function.update p.uses s.id (p.uses s.id + 1) }

/-- The process once one copy fewer exists. -/
def Shared.dropped (s : Shared α) (p : Process) : Process :=
  { p with uses := Function.update p.uses s.id (p.uses s.id - 1) }

/-- A copy of the pointer comes into being. -/
def Shared.copy (s : Shared α) : M Unit := modify s.copied

/-- A copy of the pointer goes away, and with the last one the object. -/
def Shared.release (s : Shared α) (destructor : α → M Unit) : M Unit := do
  let p ← get
  modify s.dropped
  if p.uses s.id = 1 then
    noexcept (destructor s.obj)

variable {Q : Unit → Process → Prop} {E : Exception → Process → Prop} {p : Process}

@[simp] theorem wp_makeShared {Q : Shared α → Process → Prop} (obj : α) :
    wp (makeShared obj) Q E p ↔ Q ⟨p.made, obj⟩
      { p with made := p.made + 1, uses := Function.update p.uses p.made 1 } := Iff.rfl

@[simp] theorem wp_copy (s : Shared α) : wp s.copy Q E p ↔ Q () (s.copied p) := Iff.rfl

theorem wp_release (s : Shared α) (destructor : α → M Unit) :
    wp (s.release destructor) Q E p
      ↔ (p.uses s.id = 1 → wp (destructor s.obj) Q (fun _ ↦ E .terminate) (s.dropped p))
        ∧ (p.uses s.id ≠ 1 → Q () (s.dropped p)) := by
  rw [Shared.release, wp_bind, wp_get, wp_bind, wp_modify, wp_ite, noexcept, wp_tryCatch]
  exact Iff.rfl

/-- An exception that leaves the destructor ends the program. -/
theorem wp_release_terminates (s : Shared α) (destructor : α → M Unit) :
    wp (s.release destructor) (fun _ _ ↦ True) (fun e _ ↦ e = .terminate) p :=
  (wp_release s destructor).2
    ⟨fun _ ↦ wp_of_forall (fun _ _ ↦ trivial) fun _ _ ↦ rfl, fun _ ↦ trivial⟩

end

end EthosU
