import EthosU.Lib.Words

/-!
# The user space API of the kernel driver

`kernel_driver/include/uapi/ethosu.h`: the limits, the enumerations and the structs that cross the
`ioctl` boundary.

A struct is a `Words` and a member is its position, in units of 32 bits.  This is how the structs
are laid out on the targets of the driver — every member of the two large ones is a `__u32` or an
enumeration, so there is no padding — and it is what makes a subscript that is one too large mean
what it means in C: in `ethosu_uapi_inference_create` the position of `ifm_fd[ETHOSU_FD_MAX]` is
the position of `ofm_count`.

Only members that the modelled code stores or reads have a name here.
-/

set_option autoImplicit false

namespace EthosU

/-- A file descriptor is an `int`. -/
abbrev Fd := Int32

/-- `ETHOSU_FD_MAX`, the number of IFM (and of OFM) file descriptors of a network. -/
def ethosuFdMax : Nat := 16

/-- `ETHOSU_DIM_MAX`, the number of dimensions of a tensor. -/
def ethosuDimMax : Nat := 8

/-- `ETHOSU_PMU_EVENT_MAX`, the number of performance counters. -/
def ethosuPmuEventMax : Nat := 4

/-- `enum ethosu_uapi_network_type`. -/
inductive NetworkType
  | buffer
  | index
  deriving DecidableEq, Repr

/-- `enum ethosu_uapi_status`, which `InferenceStatus` of the driver library repeats. -/
inductive Status
  | ok
  | error
  | running
  | rejected
  | aborted
  | aborting
  deriving DecidableEq, Repr

/-- The status a word encodes, `none` for a value that is not in the enumeration. -/
def Status.ofWord (w : UInt32) : Option Status :=
  match w.toNat with
  | 0 => some .ok
  | 1 => some .error
  | 2 => some .running
  | 3 => some .rejected
  | 4 => some .aborted
  | 5 => some .aborting
  | _ => none

/-! ## `struct ethosu_uapi_buffer` -/

namespace BufferDescriptor

def offset : Nat := 0
def size : Nat := 1

end BufferDescriptor

/-! ## `struct ethosu_uapi_inference_create` -/

namespace InferenceCreate

def ifmCount : Nat := 0
def ifmFd : Nat := 1
def ofmCount : Nat := ifmFd + ethosuFdMax
def ofmFd : Nat := ofmCount + 1
def inferenceType : Nat := ofmFd + ethosuFdMax
def events : Nat := inferenceType + 1
def cycleCount : Nat := events + ethosuPmuEventMax

/-- The descriptors `ifm_fd[0..ifm_count)`. -/
def ifmFds (uapi : Words) : List Fd := (uapi.block ifmFd (uapi ifmCount).toNat).map UInt32.toInt32

/-- The descriptors `ofm_fd[0..ofm_count)`. -/
def ofmFds (uapi : Words) : List Fd := (uapi.block ofmFd (uapi ofmCount).toNat).map UInt32.toInt32

/-- `pmu_config.events`. -/
def pmuEvents (uapi : Words) : List UInt32 := uapi.block events ethosuPmuEventMax

end InferenceCreate

/-! ## `struct ethosu_uapi_result_status` -/

namespace ResultStatus

/-- `pmu_config.events`. -/
def configEvents : Nat := 1

/-- `pmu_count.events`, behind `pmu_config.cycle_count`. -/
def countEvents : Nat := configEvents + ethosuPmuEventMax + 1

/-- `pmu_count.cycle_count`, of two words. -/
def cycleCount : Nat := countEvents + ethosuPmuEventMax

end ResultStatus

/-! ## `struct ethosu_uapi_network_info` -/

namespace NetworkInfo

def isVela : Nat := 8

/-- The members that describe the tensors of one direction, which the struct has twice. -/
structure Tensors where
  count : Nat
  size : Nat
  types : Nat
  offset : Nat
  dims : Nat
  shapes : Nat

/-- The members from `count` on, laid out one after the other. -/
def Tensors.at (count : Nat) : Tensors where
  count := count
  size := count + 1
  types := count + 1 + ethosuFdMax
  offset := count + 1 + 2 * ethosuFdMax
  dims := count + 1 + 3 * ethosuFdMax
  shapes := count + 1 + 4 * ethosuFdMax

def ifm : Tensors := .at (isVela + 1)
def ofm : Tensors := .at (ifm.shapes + ethosuFdMax * ethosuDimMax)

end NetworkInfo

end EthosU
