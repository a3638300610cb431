/-
What a page table answers: a translation of one address, or the reason why a request to map a range was refused.
-/
import NestedGuest.Paging.Flags

namespace NestedGuest

/-- one resolved guest-physical address -/
structure Translation where
  /-- the host-physical address it maps to -/
  phys : Nat
  /-- bytes of the leaf that holds the translation -/
  leafSize : Nat
  /-- attributes of the leaf, as far as its format expresses them -/
  flags : PageFlags
deriving DecidableEq, Repr

/-- why a range could not be mapped -/
inductive TranslationError where
  /-- the fixed storage has no free table left -/
  | outOfTables
  /-- the range is malformed, or meets a translation with another target or other attributes -/
  | invalidMapping
deriving DecidableEq, Repr

namespace TranslationError

def name : TranslationError → String
  | .outOfTables => "OutOfTables"
  | .invalidMapping => "InvalidMapping"

def message : TranslationError → String
  | .outOfTables => "out of translation tables"
  | .invalidMapping => "invalid mapping"

end TranslationError
end NestedGuest
