/-
Limits that sessions share with the kernel they run on, and the identity under which the kernel knows a guest.
-/
import NestedGuest.Page

namespace NestedGuest

/-- most vCPUs of one session -/
def vcpuMax : Nat := 16

/-- most tables a nested page table allocates below its root -/
def tableMax : Nat := 128

/-- slots of VM identities, of which slot 0 is never handed to a guest -/
def vmidSlots : Nat := 256

/-- scheduling priorities lie below this limit -/
def priorityLimit : Nat := 1 <<< 16

/-- kernel-side memory that each vCPU charges to its session: control block and host save area -/
def vcpuDataSize : Nat := 2 * pageSize

/-- bytes of the vCPU state shared between kernel and monitor -/
def vcpuStateSize : Nat := pageSize

/-- the name of a guest towards the kernel -/
structure VmIdentity where
  /-- a small handle, never 0 -/
  id : Nat
  /-- physical address of the root of the nested page table -/
  pageTableRoot : UInt64
deriving DecidableEq, Repr

end NestedGuest
