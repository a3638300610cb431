/-
Pages of 4 KiB, the sizes of the larger leaves of a page table, and rounding to page boundaries.

Addresses and sizes are 64-bit words (`UInt64`). Sums of words are taken in `Nat`, where they are exact, and compared
with `wordEnd` where a request may not run past the last word.
-/
namespace NestedGuest

/-! ## Sizes -/

/-- bits of an address that give the offset within a page -/
def pageShift : Nat := 12

/-- bytes of a page, which is also the smallest leaf of a page table -/
def pageSize : Nat := 4096

/-- mask of the offset bits within a page -/
def pageMask : Nat := pageSize - 1

/-- bytes of a leaf one level above the pages -/
def largePageSize : Nat := 1 <<< 21

/-- bytes of a leaf two levels above the pages -/
def hugePageSize : Nat := 1 <<< 30

/-- one past the largest 64-bit word -/
def wordEnd : Nat := 1 <<< 64

/-! ## Alignment -/

/-- none of the offset bits of `a` is set -/
def isPageAligned (a : UInt64) : Bool := a.toNat % pageSize == 0

/-- the least page boundary at or above `a`, if it is a word -/
def alignPageUp (a : UInt64) : Option UInt64 :=
  if a.toNat + pageMask < wordEnd then
    some (UInt64.ofNat ((a.toNat + pageMask) / pageSize * pageSize))
  else none

end NestedGuest
