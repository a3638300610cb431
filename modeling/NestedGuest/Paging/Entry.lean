/-
The two layouts of a page-table entry: long-mode tables (`hpt`), walked for AMD-V guests, and extended tables (`ept`),
walked for VT-x guests. An entry is a 64-bit word that refers to a table, maps a leaf, or is 0 and absent.

Both keep the physical address in bits 12 to 51. They differ in how they say that an entry is present, executable and
uncached, and only long-mode entries know user and global translations.
-/
import NestedGuest.Page
import NestedGuest.Paging.Flags

namespace NestedGuest

/-- layout of the entries of a page table -/
inductive EntryFormat where
  | hpt
  | ept
deriving DecidableEq, Repr

/-- end of the physical addresses an entry can hold -/
def physAddressEnd : Nat := 1 <<< 52

/-- bits of an entry that hold the physical address -/
def addressMask : UInt64 := 0xffffffffff000

/-! ## Bits of a word -/

/-- some bit of `mask` is set in `e` -/
def hasBits (e mask : UInt64) : Bool := e &&& mask != 0

/-- `bits` if `b` holds, else none -/
def bitsIf (b : Bool) (bits : UInt64) : UInt64 := if b then bits else 0

/-- the physical address in an entry -/
def entryAddress (e : UInt64) : UInt64 := e &&& addressMask

namespace LongMode

def present : UInt64 := 1
def readWrite : UInt64 := 2
def user : UInt64 := 4
def writeThrough : UInt64 := 8
def cacheDisable : UInt64 := 16
def large : UInt64 := 0x80
def global : UInt64 := 0x100
def noExecute : UInt64 := 0x8000000000000000

end LongMode

namespace Extended

def read : UInt64 := 1
def write : UInt64 := 2
def execute : UInt64 := 4
/-- the memory type, three bits wide; all clear is uncached -/
def memoryType : UInt64 := 0x38
/-- memory type of ordinary RAM -/
def writeBack : UInt64 := 0x30
def large : UInt64 := 0x80

end Extended

namespace EntryFormat

/-- the name in diagnostics -/
def name : EntryFormat → String
  | .hpt => "Hpt"
  | .ept => "Ept"

/-- the entry that refers to the table at `phys` and restricts nothing -/
def table : EntryFormat → UInt64 → UInt64
  | .hpt, phys => entryAddress phys ||| LongMode.present ||| LongMode.readWrite ||| LongMode.user
  | .ept, phys => entryAddress phys ||| Extended.read ||| Extended.write ||| Extended.execute

/-- the entry that maps `phys` with `flags`; `isLarge` marks a leaf above the last level -/
def leaf : EntryFormat → UInt64 → PageFlags → Bool → UInt64
  | .hpt, phys, flags, isLarge =>
    entryAddress phys ||| LongMode.present
      ||| bitsIf (flags.contains .write) LongMode.readWrite
      ||| bitsIf (flags.contains .user) LongMode.user
      ||| bitsIf (flags.contains .global) LongMode.global
      ||| bitsIf (flags.intersects (.union .uncached .device)) (LongMode.writeThrough ||| LongMode.cacheDisable)
      ||| bitsIf (!flags.contains .execute) LongMode.noExecute
      ||| bitsIf isLarge LongMode.large
  | .ept, phys, flags, isLarge =>
    entryAddress phys ||| Extended.read
      ||| bitsIf (flags.contains .write) Extended.write
      ||| bitsIf (flags.contains .execute) Extended.execute
      ||| bitsIf (!flags.intersects (.union .uncached .device)) Extended.writeBack
      ||| bitsIf isLarge Extended.large

/-- the entry is in use; an extended entry is if it grants any access -/
def present : EntryFormat → UInt64 → Bool
  | .hpt, e => hasBits e LongMode.present
  | .ept, e => hasBits e (Extended.read ||| Extended.write ||| Extended.execute)

/-- an entry above the last level is a leaf -/
def large : EntryFormat → UInt64 → Bool
  | .hpt, e => hasBits e LongMode.large
  | .ept, e => hasBits e Extended.large

/-- the attributes a leaf entry expresses -/
def flags : EntryFormat → UInt64 → PageFlags
  | .hpt, e =>
    ((((PageFlags.onlyIf (hasBits e LongMode.readWrite) .write).union
      (.onlyIf (hasBits e LongMode.user) .user)).union
      (.onlyIf (hasBits e LongMode.global) .global)).union
      (.onlyIf (hasBits e LongMode.cacheDisable) .uncached)).union
      (.onlyIf (!hasBits e LongMode.noExecute) .execute)
  | .ept, e =>
    ((PageFlags.onlyIf (hasBits e Extended.write) .write).union
      (.onlyIf (hasBits e Extended.execute) .execute)).union
      (.onlyIf (!hasBits e Extended.memoryType) .uncached)

end EntryFormat
end NestedGuest
