/-
What a client does with the memory of its guest: attaching windows of dataspaces, detaching and flushing regions.

Each operation changes the books of the guest memory first and then brings the page table in line: a window attached is
inserted, a region flushed or detached is removed as a whole. Dataspaces are told of their regions.
-/
import NestedGuest.Session.Basic

namespace NestedGuest

variable {σ : Type}

namespace Session

/-! ## Flushing -/

/-- tells the dataspace of a flushed region, if it is still there, and removes the region from the page table -/
def carryOut (P : Platform σ) (table : PageTable) (f : Flush) : Run σ PageTable := do
  if f.first then
    if ← stillAlive P f.dataspace then
      ask P (.detachedFrom f.dataspace f.region)
  return table.remove f.region.base f.region.size

/-- brings the page table in line with a guest memory that flushed or removed regions -/
def settle (P : Platform σ) (s : Session) (memory : GuestMemory) (flushes : List Flush) : Run σ Session := do
  let table ← flushes.foldlM (carryOut P) s.table
  return { s with memory, table }

/-- removes the region that contains `a` -/
def removeRegionAt (P : Platform σ) (s : Session) (a : UInt64) : Run σ Session :=
  let (memory, flush) := s.memory.detachAt a
  s.settle P memory flush.toList

/-! ## Attaching -/

/-- maps a window as guest RAM; `newRegion` tells whether a region was registered for it -/
def mapWindow (s : Session) (mapping : Mapping) (newRegion : Bool) : Except AttachError Unit × Session :=
  let (table, r) := s.table.insert mapping.guest mapping.host mapping.size .guestRam
  (r.mapError fun e => .translation e newRegion, { s with table })

/-- attaches a window of `ds`, whatever becomes of a region whose mapping fails -/
def attachWindow (P : Platform σ) (s : Session) (ds : Dataspace) (guest : UInt64) (attr : AttachAttr) :
    Run σ (Except AttachError Unit × Session) :=
  traced "attach" (fun r => failureText AttachError.describe r.1) do
    match s.memory.place ds guest attr with
    | .error e =>
      if ds.managed then log .error managedAttachText
      return (.error e, s)
    | .ok (.again mapping) => return s.mapWindow mapping false
    | .ok (.fresh memory region mapping) =>
      ask P (.attachedTo ds region.attr)
      return { s with memory }.mapWindow mapping true

/-- the configuration wants the region that failed with `e` to be detached -/
def wantsRollback (s : Session) : AttachError → Bool
  | .translation _ newRegion => newRegion && s.config.rollback
  | _ => false

/-- attaches a window of `ds` and undoes a failed mapping if the configuration wants it -/
def attachDataspace (P : Platform σ) (s : Session) (ds : Dataspace) (guest : UInt64) (attr : AttachAttr) :
    Run σ (Except SessionError Unit × Session) := do
  match ← s.attachWindow P ds guest attr with
  | (.ok (), s) => return (.ok (), s)
  | (.error e, s) =>
    if s.wantsRollback e then
      let s ← s.removeRegionAt P guest
      return (.error (.ofAttach e), s)
    else return (.error (.ofAttach e), s)

/-- attaches a window of the dataspace that `cap` names at `guest` -/
def attach (P : Platform σ) (s : Session) (cap : DataspaceCap) (guest : UInt64) (attr : AttachAttr) :
    Run σ (Except SessionError Unit × Session) :=
  traced "attach" (fun r => failureText SessionError.describe r.1) do
    let (r, s) ← match ← ask P (.lookupDataspace cap) with
      | none => pure (.error .invalidDataspace, s)
      | some ds => s.attachDataspace P ds guest attr
    match r with
    | .error e => count ("guest_memory_attach_failures_total reason=" ++ e.kind)
    | .ok () => pure ()
    return (r, s)

/-! ## Detaching -/

/-- detaches every region that meets `[guest, guest + size)`; a malformed request is logged -/
def detach (P : Platform σ) (s : Session) (guest size : UInt64) : Run σ Session :=
  spanned "detach" <| spanned "detach" do
    match s.memory.detach? guest size with
    | none =>
      log .warn (malformedDetachText guest size)
      return s
    | some (memory, flushes) => s.settle P memory flushes

/-- detaches the region that contains `a` -/
def detachAt (P : Platform σ) (s : Session) (a : UInt64) : Run σ Session :=
  spanned "detach_at" (s.removeRegionAt P a)

/-- takes the mapping of the region that contains `a` away and keeps it registered -/
def reserveAndFlush (P : Platform σ) (s : Session) (a : UInt64) : Run σ Session :=
  spanned "reserve_and_flush" <|
    let (memory, flush) := s.memory.reserveAndFlush a
    s.settle P memory flush.toList

/-- unmapping a part of a region is not supported -/
def unmapRegion (s : Session) (a size : UInt64) : Run σ (Except SessionError Unit × Session) := do
  log .error ("unmap_region not implemented addr=" ++ Text.hex a.toNat ++ " size=" ++ Text.hex size.toNat)
  return (.error (.notImplemented "unmap_region"), s)

end Session
end NestedGuest
