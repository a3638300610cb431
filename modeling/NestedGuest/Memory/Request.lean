/-
Requests to a guest memory, and all that they do outside: what dataspaces are told and what is mapped and unmapped, in
order.

The outcome of mapping is part of an attach request, and which dataspaces are still there is asked at every flush, so
every behaviour of the surroundings is some choice of the two.
-/
import NestedGuest.Memory.GuestMemory
import NestedGuest.Observe.Level

namespace NestedGuest

/-- what happens outside the books of a guest memory -/
inductive Notice where
  /-- the dataspace learns of a new region -/
  | attached (ds : Dataspace) (region : RegionAttr)
  /-- the dataspace learns that the region is gone -/
  | detached (ds : Dataspace) (region : RegionAttr)
  | map (mapping : Mapping)
  | unmap (base size : UInt64)
deriving DecidableEq, Repr

inductive MemoryRequest where
  /-- `outcome` is what mapping the window will answer, if it comes to that -/
  | attach (ds : Dataspace) (guest : UInt64) (attr : AttachAttr) (outcome : Except TranslationError Unit)
  | detach (guest size : UInt64)
  | detachAt (a : UInt64)
  | flush (a : UInt64)
  | detachAll

/-- what a request leaves behind and brings about -/
structure MemoryReply where
  memory : GuestMemory
  result : Except AttachError Unit := .ok ()
  notices : List Notice := []
  log : List LogLine := []

/-- a flush tells a dataspace that is still there, if this is the first one, and always unmaps the whole region -/
def Flush.notices (f : Flush) (alive : Bool) : List Notice :=
  (if f.first && alive then [.detached f.dataspace f.region] else []) ++ [.unmap f.region.base f.region.size]

/-- the notices of flushes one after the other; `alive i` tells which dataspaces exist at the `i`-th one -/
def flushNotices (alive : Nat → Dataspace → Bool) (flushes : List Flush) : List Notice :=
  flushes.zipIdx.flatMap fun (f, i) => f.notices (alive i f.dataspace)

namespace GuestMemory

/-- serves one request -/
def perform (alive : Nat → Dataspace → Bool) (m : GuestMemory) : MemoryRequest → MemoryReply
  | .attach ds guest attr outcome =>
    let mapped (newRegion : Bool) : Except AttachError Unit :=
      outcome.mapError fun e => .translation e newRegion
    match m.place ds guest attr with
    | .error e =>
      { memory := m, result := .error e, log := if ds.managed then [⟨.error, managedAttachText⟩] else [] }
    | .ok (.again mapping) => { memory := m, result := mapped false, notices := [.map mapping] }
    | .ok (.fresh memory region mapping) =>
      { memory, result := mapped true, notices := [.attached ds region.attr, .map mapping] }
  | .detach guest size =>
    match m.detach? guest size with
    | none => { memory := m, log := [⟨.warn, malformedDetachText guest size⟩] }
    | some (memory, flushes) => { memory, notices := flushNotices alive flushes }
  | .detachAt a =>
    let (memory, flush) := m.detachAt a
    { memory, notices := flushNotices alive flush.toList }
  | .flush a =>
    let (memory, flush) := m.reserveAndFlush a
    { memory, notices := flushNotices alive flush.toList }
  | .detachAll =>
    let (memory, flushes) := m.detachAll
    { memory, notices := flushNotices alive flushes }

end GuestMemory
end NestedGuest
