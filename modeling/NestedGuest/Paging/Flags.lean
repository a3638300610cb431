/-
Attributes of a guest-physical translation, as a set of bits. Bits without a name are kept but never shown.
-/
namespace NestedGuest

/-- attributes of a translation -/
structure PageFlags where
  bits : UInt32
deriving DecidableEq, Repr

namespace PageFlags

/-- the guest may write -/
def write : PageFlags := ⟨1⟩
/-- the guest may execute -/
def execute : PageFlags := ⟨2⟩
/-- accessible from guest user mode -/
def user : PageFlags := ⟨4⟩
/-- survives a switch of the guest's address space -/
def global : PageFlags := ⟨8⟩
/-- device memory rather than RAM -/
def device : PageFlags := ⟨16⟩
/-- accesses bypass the caches -/
def uncached : PageFlags := ⟨32⟩
/-- no attribute: read-only data -/
def empty : PageFlags := ⟨0⟩

/-- all attributes of either -/
def union (f g : PageFlags) : PageFlags := ⟨f.bits ||| g.bits⟩

/-- every attribute of `g` is one of `f` -/
def contains (f g : PageFlags) : Bool := f.bits &&& g.bits == g.bits

/-- `f` and `g` share an attribute -/
def intersects (f g : PageFlags) : Bool := f.bits &&& g.bits != 0

/-- `f` if `b` holds, else no attribute -/
def onlyIf (b : Bool) (f : PageFlags) : PageFlags := if b then f else empty

/-- what all guest RAM is mapped with: writeable, executable and user, cached RAM and not global -/
def guestRam : PageFlags := (write.union execute).union user

/-- the named attributes in bit order -/
def named : List (String × PageFlags) :=
  [("WRITE", write), ("EXECUTE", execute), ("USER", user), ("GLOBAL", global), ("DEVICE", device),
    ("UNCACHED", uncached)]

/-- the names joined by bars, `READ` for no attribute at all -/
def display (f : PageFlags) : String :=
  if f.bits = 0 then "READ"
  else " | ".intercalate ((named.filter fun n => f.contains n.2).map Prod.fst)

end PageFlags
end NestedGuest
