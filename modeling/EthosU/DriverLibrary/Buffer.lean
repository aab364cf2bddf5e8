import EthosU.Kernel

/-!
# Devices and buffers

The classes `Device` and `Buffer` of the driver library.

A buffer lives on both sides of the `ioctl` boundary: the driver knows it by its descriptor and
keeps a 32-bit capacity, offset and size for it, while the library keeps the `size_t` capacity it
was asked for, maps that many bytes, and asks the driver for the offset and the size every time.
The constructor and `resize` narrow their `size_t` arguments to 32 bits, each on its own.
-/

set_option autoImplicit false

namespace EthosU

/-! ## `class Device` -/

structure Device where
  fd : Fd

namespace Device

variable (env : Env)

def new (device : String) : M Device := do
  let reply ← eopen env device
  return ⟨reply.ret⟩

def destroy (device : Device) : M Unit := discard (eclose env device.fd)

/-- What the request returns is only ever printed, so the model keeps the request alone. -/
def capabilities (device : Device) : M Unit := discard (eioctl env (.capabilitiesReq device.fd))

end Device

/-! ## `class Buffer` -/

structure Buffer where
  fd : Fd
  dataPtr : Nat
  dataCapacity : UInt64

namespace Buffer

variable (env : Env)

def new (device : Device) (capacity : UInt64) : M Buffer := do
  let created ← eioctl env (.bufferCreate device.fd capacity.toUInt32)
  let mapped ← catching (discard (eclose env created.ret)) (emmap env capacity created.ret)
  return ⟨created.ret, mapped.addr, capacity⟩

def destroy (buffer : Buffer) : M Unit := do
  catching (discard (eclose env buffer.fd))
    (discard (emunmap env buffer.dataPtr buffer.dataCapacity))
  discard (eclose env buffer.fd)

/-- `~shared_ptr<Buffer>`. -/
def release (buffer : Shared Buffer) : M Unit := Shared.release buffer (destroy env)

def capacity (buffer : Buffer) : UInt64 := buffer.dataCapacity

def resize (buffer : Buffer) (size : UInt64) (offset : UInt64 := 0) : M Unit :=
  discard (eioctl env (.bufferSet buffer.fd offset.toUInt32 size.toUInt32))

def clear (buffer : Buffer) : M Unit := buffer.resize env 0 0

def offset (buffer : Buffer) : M UInt64 := do
  let reply ← eioctl env (.bufferGet buffer.fd)
  return (reply.data BufferDescriptor.offset).toUInt64

def size (buffer : Buffer) : M UInt64 := do
  let reply ← eioctl env (.bufferGet buffer.fd)
  return (reply.data BufferDescriptor.size).toUInt64

def data (buffer : Buffer) : M Nat := do
  let offset ← buffer.offset env
  return buffer.dataPtr + offset.toNat

end Buffer

end EthosU
