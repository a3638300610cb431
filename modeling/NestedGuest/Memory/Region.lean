/-
Client dataspaces, and the regions of guest-physical memory that windows of them back.
-/
import NestedGuest.Capability
import NestedGuest.Page

namespace NestedGuest

/-- A client's dataspace: physically contiguous host memory. Two dataspaces that had the same capability one after the
other differ in `handle`. -/
structure Dataspace where
  handle : Nat
  cap : DataspaceCap
  size : UInt64
  /-- host-physical address of its first byte -/
  phys : UInt64
  /-- a region map that poses as a dataspace -/
  managed : Bool
  writeable : Bool
deriving DecidableEq, Repr

/-- what a client asks for when it attaches a dataspace -/
structure AttachAttr where
  /-- where the window begins in the dataspace -/
  offset : UInt64
  /-- bytes of the window; 0 stands for all from `offset` on -/
  size : UInt64
  writeable : Bool
  executable : Bool
deriving DecidableEq, Repr

/-- the guest's view of an attached region -/
structure RegionAttr where
  /-- guest-physical address of its first byte -/
  base : UInt64
  size : UInt64
  /-- where it begins in its dataspace -/
  offset : UInt64
  write : Bool
  exec : Bool
  dma : Bool
deriving DecidableEq, Repr

namespace RegionAttr

/-- one past the last address -/
def stop (r : RegionAttr) : Nat := r.base.toNat + r.size.toNat

/-- `a` lies in the region -/
def contains (r : RegionAttr) (a : UInt64) : Bool := decide (r.base.toNat ≤ a.toNat) && decide (a.toNat < r.stop)

def describe (r : RegionAttr) : String :=
  Text.record "RegionAttr"
    [("base", toString r.base.toNat), ("size", toString r.size.toNat), ("offset", toString r.offset.toNat),
      ("write", Text.bool r.write), ("exec", Text.bool r.exec), ("dma", Text.bool r.dma)]

end RegionAttr

/-- the entry kept for an attached region -/
structure Region where
  attr : RegionAttr
  /-- the dataspace behind it, which may be gone by now -/
  dataspace : Dataspace
  /-- its hardware mapping was flushed and it waits to be detached -/
  reserved : Bool
deriving DecidableEq, Repr

def Region.describe (r : Region) : String :=
  Text.record "Region"
    [("base", Text.hex r.attr.base.toNat), ("size", Text.hex r.attr.size.toNat), ("ds", r.dataspace.cap.describe),
      ("reserved", Text.bool r.reserved)]

end NestedGuest
