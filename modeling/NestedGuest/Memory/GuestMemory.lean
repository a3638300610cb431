/-
The guest-physical memory of one guest: disjoint regions in ascending order, each backed by a window of a dataspace.

Every 32 regions share a block of metadata, which is charged to the session's quota. What has to happen outside, to
dataspaces and to the hardware mapping, is handed to the caller: `place` says what is to be mapped, and each region
taken out of use comes back as a `Flush`.

* `place` decides an attach request;
* `detach`, `detachAt` and `detachAll` remove regions;
* `reserveAndFlush` keeps a region registered but takes its mapping away.
-/
import NestedGuest.Memory.Region
import NestedGuest.Memory.Window

namespace NestedGuest

/-- regions that share one block of metadata -/
def regionsPerMetadataBlock : Nat := 32

structure GuestMemory where
  /-- in ascending order of their bases -/
  regions : List Region
  quota : Quota
  metadataBlocks : Nat
deriving DecidableEq, Repr

/-- `size` bytes of host memory from `host` on, to be mapped at `guest` -/
structure Mapping where
  guest : UInt64
  host : UInt64
  size : UInt64
deriving DecidableEq, Repr

/-- The window that a request to attach `ds` at `guest` selects: its offset in the dataspace and what is to be mapped.
A managed dataspace has no window, nor has a misaligned request or one that runs past the last word. -/
def select? (ds : Dataspace) (guest : UInt64) (attr : AttachAttr) : Option (UInt64 × Mapping) :=
  if ds.managed || !(isPageAligned guest && isPageAligned attr.offset && isPageAligned attr.size) then none
  else
    match window ds.size attr.offset attr.size with
    | .error _ => none
    | .ok (offset, size) =>
      if guest.toNat + size.toNat < wordEnd ∧ ds.phys.toNat + offset.toNat < wordEnd then
        some (offset, ⟨guest, ds.phys + offset, size⟩)
      else none

/-- what an attach request comes to -/
inductive Placement where
  /-- the window lies in a region of the same dataspace, which is mapped once more -/
  | again (mapping : Mapping)
  /-- a new region, now registered -/
  | fresh (memory : GuestMemory) (region : Region) (mapping : Mapping)
deriving DecidableEq, Repr

/-- A region loses its hardware mapping. If it was not reserved before, its dataspace learns that it is detached. -/
structure Flush where
  region : RegionAttr
  dataspace : Dataspace
  /-- the dataspace has not been told yet -/
  first : Bool
deriving DecidableEq, Repr

/-- what is logged when a managed dataspace is to be attached -/
def managedAttachText : String := "cannot attach managed dataspace"

/-- what is logged when a detach request is malformed -/
def malformedDetachText (guest size : UInt64) : String :=
  "skipping invalid memory detach addr=" ++ Text.hex guest.toNat ++ " size=" ++ Text.hex size.toNat

namespace GuestMemory

/-- no regions, metadata to be charged to `quota` -/
def new (quota : Quota) : GuestMemory := ⟨[], quota, 0⟩

/-! ## Finding regions -/

/-- the last region whose base satisfies `low`, which holds up to some base and not after it -/
def lastWith (m : GuestMemory) (low : Nat → Bool) : Option Region :=
  (m.regions.takeWhile fun r => low r.attr.base.toNat).getLast?

/-- the region that contains `a` -/
def regionContaining (m : GuestMemory) (a : UInt64) : Option Region :=
  (m.lastWith fun base => decide (base ≤ a.toNat)).filter fun r => r.attr.contains a

/-- attributes of the region that contains `a` -/
def regionAt (m : GuestMemory) (a : UInt64) : Option RegionAttr := (m.regionContaining a).map Region.attr

/-- whether the region that contains `a` is reserved -/
def isReserved (m : GuestMemory) (a : UInt64) : Option Bool := (m.regionContaining a).map Region.reserved

/-- attributes of all regions in ascending order -/
def attrs (m : GuestMemory) : List RegionAttr := m.regions.map Region.attr

/-- Some region meets `[start, stop)`. Since regions are disjoint, their ends ascend with their bases, and only the
last one that begins before `stop` can reach past `start`. -/
def overlaps (m : GuestMemory) (start stop : Nat) : Bool :=
  (m.lastWith fun base => decide (base < stop)).any fun r => decide (start < r.attr.stop)

/-! ## Metadata -/

/-- charges a further block of metadata if all blocks are full -/
def reserveMetadata (m : GuestMemory) : Except AllocError GuestMemory :=
  if m.regions.length < m.metadataBlocks * regionsPerMetadataBlock then .ok m
  else
    match m.quota.withdraw pageSize 1 with
    | .error e => .error e
    | .ok quota => .ok { m with quota, metadataBlocks := m.metadataBlocks + 1 }

/-- gives the last block of metadata back if the regions fit without it -/
def releaseMetadata (m : GuestMemory) : GuestMemory :=
  if 0 < m.metadataBlocks ∧ m.regions.length ≤ (m.metadataBlocks - 1) * regionsPerMetadataBlock then
    { m with quota := m.quota.replenish pageSize 1, metadataBlocks := m.metadataBlocks - 1 }
  else m

/-! ## Attaching -/

/-- puts a region where its base belongs -/
def insertRegion (r : Region) : List Region → List Region
  | [] => [r]
  | s :: rest => if r.attr.base < s.attr.base then r :: s :: rest else s :: insertRegion r rest

/-- decides a request to attach a window of `ds` at `guest` -/
def place (m : GuestMemory) (ds : Dataspace) (guest : UInt64) (attr : AttachAttr) : Except AttachError Placement :=
  match select? ds guest attr with
  | none => .error .invalidDataspace
  | some (offset, mapping) =>
    let stop := guest.toNat + mapping.size.toNat
    if m.overlaps guest.toNat stop then
      if (m.regionContaining guest).any fun r => r.dataspace.cap == ds.cap && decide (stop ≤ r.attr.stop) then
        .ok (.again mapping)
      else .error .regionConflict
    else
      match m.reserveMetadata with
      | .error e => .error (.ofAlloc e)
      | .ok m =>
        let region : Region :=
          { attr :=
              { base := guest, size := mapping.size, offset, write := ds.writeable && attr.writeable
                exec := attr.executable, dma := false }
            dataspace := ds
            reserved := false }
        .ok (.fresh { m with regions := insertRegion region m.regions } region mapping)

/-! ## Detaching -/

/-- Takes away the mapping of the region that contains `a`, which stays registered and is marked reserved. -/
def reserveAndFlush (m : GuestMemory) (a : UInt64) : GuestMemory × Option Flush :=
  match m.regionContaining a with
  | none => (m, none)
  | some r =>
    ({ m with regions := m.regions.map fun s => if s.attr.base = r.attr.base then { s with reserved := true } else s },
      some ⟨r.attr, r.dataspace, !r.reserved⟩)

/-- removes the region that contains `a` -/
def detachAt (m : GuestMemory) (a : UInt64) : GuestMemory × Option Flush :=
  match m.regionContaining a with
  | none => (m, none)
  | some r =>
    let (m, flush) := m.reserveAndFlush r.attr.base
    ({ m with regions := m.regions.filter fun s => s.attr.base ≠ r.attr.base }.releaseMetadata, flush)

/-- Where a walk over guest memory that has come to `a` goes next: past the region that contains `a`, else to the next
region, else past `last`. -/
def nextStop (m : GuestMemory) (last a : Nat) : Nat :=
  match m.regionContaining (UInt64.ofNat a) with
  | some r => r.attr.stop
  | none =>
    match m.regions.find? fun r => decide (a ≤ r.attr.base.toNat) with
    | some r => r.attr.base.toNat
    | none => last + pageSize

/-- removes the regions met on a walk from `a` to `last` -/
def detachWalk (m : GuestMemory) (last a : Nat) : GuestMemory × List Flush :=
  if a ≤ last then
    let next := m.nextStop last a
    let (m, flush) := m.detachAt (UInt64.ofNat a)
    if a < next then
      let (m, flushes) := m.detachWalk last next
      (m, flush.toList ++ flushes)
    else (m, flush.toList)
  else (m, [])
termination_by last + 1 - a

/-- removes every region that meets `[guest, guest + size)`, unless the request is malformed -/
def detach? (m : GuestMemory) (guest size : UInt64) : Option (GuestMemory × List Flush) :=
  if size ≠ 0 ∧ isPageAligned guest ∧ isPageAligned size ∧ guest.toNat + (size.toNat - 1) < wordEnd then
    some (m.detachWalk (guest.toNat + (size.toNat - 1)) guest.toNat)
  else none

/-- removes every region, in ascending order -/
def detachAll (m : GuestMemory) : GuestMemory × List Flush :=
  m.regions.foldl (fun (m, flushes) r => let (m, flush) := m.detachAt r.attr.base; (m, flushes ++ flush.toList)) (m, [])

/-- diagnostic text -/
def describe (m : GuestMemory) : String :=
  Text.record "GuestMemory"
    [("regions", Text.map (m.regions.map fun r => (toString r.attr.base.toNat, r.describe))),
      ("quota", m.quota.describe), ("metadata_blocks", toString m.metadataBlocks)]

end GuestMemory
end NestedGuest
