/-
Kernel capabilities: selectors that name an object of one kind. The selector 0 names nothing.
-/
import NestedGuest.Text.Layout

namespace NestedGuest

/-- what a capability names -/
inductive ObjectKind where
  | dataspace
  | thread
  | signal
  /-- the client's handle of a vCPU -/
  | vcpu
  /-- the kernel object that executes a vCPU -/
  | kernelVcpu
deriving DecidableEq, Repr

/-- a selector naming an object of kind `kind` -/
structure Capability (kind : ObjectKind) where
  raw : UInt64
deriving DecidableEq, Repr

abbrev DataspaceCap := Capability .dataspace
abbrev ThreadCap := Capability .thread
abbrev SignalCap := Capability .signal
abbrev VcpuCap := Capability .vcpu
abbrev KernelVcpuCap := Capability .kernelVcpu

namespace Capability

/-- the capability that names nothing, which is also the default -/
def invalid {kind : ObjectKind} : Capability kind := ⟨0⟩

instance {kind : ObjectKind} : Inhabited (Capability kind) := ⟨invalid⟩

/-- the capability names an object -/
def isValid {kind : ObjectKind} (c : Capability kind) : Bool := c.raw != 0

/-- diagnostic text: the selector in hexadecimal -/
def describe {kind : ObjectKind} (c : Capability kind) : String :=
  Text.tuple "Capability" [if c.isValid then Text.hex c.raw.toNat else "invalid"]

end Capability
end NestedGuest
