/-
The allocator of VM identities: a set of small numbers of which the least free one is handed out next.

Identity 0 is taken from the start and never given back, so no guest ever has it. Giving back an identity that no guest
has changes nothing and is remarked on.
-/
import NestedGuest.Bitmap
import NestedGuest.Limits
import NestedGuest.Text.Layout

namespace NestedGuest

/-- the identities taken -/
structure VmidAllocator where
  slots : Bitmap
deriving DecidableEq, Repr

/-- why giving back an identity changed nothing -/
inductive VmidMisuse where
  | reserved
  | notAllocated (id : Nat)
deriving DecidableEq, Repr

/-- the remark made on a misuse -/
def VmidMisuse.message : VmidMisuse → String
  | .reserved => "refusing to free reserved VM id 0"
  | .notAllocated id => s!"freeing VM id {id} which is not allocated"

namespace VmidAllocator

/-- all identities but 0 are free -/
def new : VmidAllocator :=
  let slots := Bitmap.empty vmidSlots
  ⟨(slots.insert? 0).getD slots⟩

/-- takes the least free identity, if there is one -/
def alloc? (a : VmidAllocator) : Option (Nat × VmidAllocator) :=
  (a.slots.firstClear vmidSlots).map fun id => (id, ⟨(a.slots.insert? id).getD a.slots⟩)

/-- gives `id` back -/
def free (a : VmidAllocator) (id : Nat) : VmidAllocator × Option VmidMisuse :=
  if id = 0 then (a, some .reserved)
  else
    match a.slots.erase? id with
    | some slots => (⟨slots⟩, none)
    | none => (a, some (.notAllocated id))

/-- `id` is taken; 0 always is -/
def isAllocated (a : VmidAllocator) (id : Nat) : Bool := a.slots.contains id

/-- `id` has room in the byte by which a guest knows it -/
def isByte (id : Nat) : Bool := id < UInt8.size

/-- the identities that guests have, in ascending order -/
def allocated (a : VmidAllocator) : List Nat := (a.slots.toList.filter (· ≠ 0)).filter isByte

/-- diagnostic text: the blocks of the set in decimal -/
def describe (a : VmidAllocator) : String :=
  Text.record "VmidAllocator"
    [("slots", Text.locked (Text.list (a.slots.blocks.map fun w => toString w.toNat)))]

end VmidAllocator
end NestedGuest
