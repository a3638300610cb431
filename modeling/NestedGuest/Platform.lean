/-
What a session asks of its surroundings, and what it may be answered.

A `Call` goes to the entrypoint (dataspaces, threads, vCPU capabilities), to one of two RAM pools, to the local address
space or to the kernel. A `Platform` answers calls in any way it likes and may remember whatever it needs; the theory
of sessions holds for all platforms.
-/
import NestedGuest.Limits
import NestedGuest.Memory.Region
import NestedGuest.Quota

namespace NestedGuest

/-! ## Values exchanged -/

/-- how the processor caches a RAM allocation -/
inductive Cache where
  | cached
  | uncached
deriving DecidableEq, Repr

def Cache.name : Cache → String
  | .cached => "Cached"
  | .uncached => "Uncached"

/-- where a thread runs on the grid of processors -/
structure Affinity where
  xpos : Nat := 0
  ypos : Nat := 0
  width : Nat := 1
  height : Nat := 1
deriving DecidableEq, Repr

namespace Affinity

instance : Inhabited Affinity := ⟨{}⟩

/-- the processor that a vCPU bound to the location runs on -/
def cpu (a : Affinity) : Nat := a.xpos

def describe (a : Affinity) : String :=
  Text.record "AffinityLocation"
    [("xpos", toString a.xpos), ("ypos", toString a.ypos), ("width", toString a.width),
      ("height", toString a.height)]

end Affinity

/-- RAM handed out by a pool -/
structure RamDataspace where
  cap : DataspaceCap
  size : UInt64
  /-- physical address of its first byte -/
  phys : UInt64
deriving DecidableEq, Repr

def RamDataspace.describe (ds : RamDataspace) : String :=
  Text.record "RamDataspace"
    [("cap", ds.cap.describe), ("size", toString ds.size.toNat), ("phys_addr", toString ds.phys.toNat)]

/-- where RAM comes from -/
inductive RamPool where
  /-- RAM on behalf of the session, for vCPU state -/
  | session
  /-- local RAM, for page tables -/
  | core
deriving DecidableEq, Repr

def RamPool.name : RamPool → String
  | .session => "ram"
  | .core => "core_ram"

/-- why a dataspace could not be attached to the local address space -/
inductive RegionMapError where
  | outOfRam
  | outOfCaps
  | regionConflict
  | invalidDataspace
deriving DecidableEq, Repr

namespace RegionMapError

def name : RegionMapError → String
  | .outOfRam => "OutOfRam"
  | .outOfCaps => "OutOfCaps"
  | .regionConflict => "RegionConflict"
  | .invalidDataspace => "InvalidDataspace"

def message : RegionMapError → String
  | .outOfRam => "out of RAM"
  | .outOfCaps => "out of capabilities"
  | .regionConflict => "region conflict"
  | .invalidDataspace => "invalid dataspace"

end RegionMapError

/-! ## Calls -/

inductive Call where
  /-- which dataspace a client's capability names -/
  | lookupDataspace (cap : DataspaceCap)
  /-- tells a dataspace that a region refers to it from now on -/
  | attachedTo (ds : Dataspace) (region : RegionAttr)
  /-- tells a dataspace that a region refers to it no longer -/
  | detachedFrom (ds : Dataspace) (region : RegionAttr)
  /-- where a client's thread runs -/
  | threadAffinity (thread : ThreadCap)
  /-- a new capability for a vCPU, invalid if there is none left -/
  | manageVcpu
  /-- revokes a capability of a vCPU -/
  | dissolveVcpu (cap : VcpuCap)
  | allocRam (pool : RamPool) (size : UInt64) (cache : Cache)
  | freeRam (pool : RamPool) (ds : RamDataspace)
  /-- attaches a dataspace to the local address space; the answer is where -/
  | attachLocal (ds : DataspaceCap) (attr : AttachAttr)
  | detachLocal (addr : UInt64)
  /-- a kernel object that executes a vCPU whose state is at the local address `stateAddr` -/
  | createKernelVcpu (cpu : Nat) (stateAddr : UInt64) (signal : SignalCap) (identity : VmIdentity)
  | destroyKernelVcpu (vcpu : KernelVcpuCap)
deriving DecidableEq, Repr

/-- the type of the answers to a call -/
abbrev Call.Answer : Call → Type
  | .lookupDataspace _ => Option Dataspace
  | .attachedTo _ _ => Unit
  | .detachedFrom _ _ => Unit
  | .threadAffinity _ => Option Affinity
  | .manageVcpu => VcpuCap
  | .dissolveVcpu _ => Unit
  | .allocRam _ _ _ => Except AllocError RamDataspace
  | .freeRam _ _ => Unit
  | .attachLocal _ _ => Except RegionMapError UInt64
  | .detachLocal _ => Unit
  | .createKernelVcpu _ _ _ _ => Option KernelVcpuCap
  | .destroyKernelVcpu _ => Unit

/-- surroundings that remember a `σ` from one call to the next -/
structure Platform (σ : Type) where
  answer : (c : Call) → σ → c.Answer × σ
  /-- the dataspace still exists -/
  alive : Dataspace → σ → Bool

end NestedGuest
