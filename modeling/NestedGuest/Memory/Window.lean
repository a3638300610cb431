/-
The window of a dataspace that an attach request selects, and the reasons why a request is refused.
-/
import NestedGuest.Paging.Translation
import NestedGuest.Quota

namespace NestedGuest

/-- why an attach request failed -/
inductive AttachError where
  /-- a managed dataspace, misaligned arguments or a window out of range -/
  | invalidDataspace
  /-- no RAM left for the region's metadata -/
  | outOfRam
  /-- no capability left for the region's metadata -/
  | outOfCaps
  /-- the window meets a region it does not lie in, or one of another dataspace -/
  | regionConflict
  /-- the window could not be mapped; `newRegion` tells whether a region was registered for it, which stays -/
  | translation (error : TranslationError) (newRegion : Bool)
deriving DecidableEq, Repr

namespace AttachError

/-- metadata is charged to the session's quota, so its errors are those of allocation -/
def ofAlloc : AllocError → AttachError
  | .outOfRam => .outOfRam
  | .outOfCaps => .outOfCaps

def name : AttachError → String
  | .invalidDataspace => "InvalidDataspace"
  | .outOfRam => "OutOfRam"
  | .outOfCaps => "OutOfCaps"
  | .regionConflict => "RegionConflict"
  | .translation _ _ => "Translation"

def message : AttachError → String
  | .invalidDataspace => "invalid dataspace"
  | .outOfRam => "out of RAM quota"
  | .outOfCaps => "out of capability quota"
  | .regionConflict => "region conflict"
  | .translation e _ => "mapping failed: " ++ e.message

def describe : AttachError → String
  | .translation e newRegion => Text.record "Translation" [("error", e.name), ("new_region", Text.bool newRegion)]
  | e => e.name

end AttachError

/-- The window of a dataspace of `dsSize` bytes, as offset and size. Size 0 selects all from `offset` on, and a size
past the end is cut there. -/
def window (dsSize offset size : UInt64) : Except AttachError (UInt64 × UInt64) :=
  if dsSize ≤ offset then .error .invalidDataspace
  else
    let avail := dsSize - offset
    .ok (offset, if size = 0 then avail else min size avail)

end NestedGuest
