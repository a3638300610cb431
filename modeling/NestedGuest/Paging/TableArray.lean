/-
A fixed number of translation tables at consecutive physical pages. Tables are handed out zeroed, the lowest free page
first, and named by their physical address.

A table is made when it is first handed out. A freed table keeps its contents, but its address names no table until it
is handed out again.
-/
import NestedGuest.Bitmap
import NestedGuest.Page
import NestedGuest.Text.Layout

namespace NestedGuest

/-- entries of one table -/
abbrev entriesPerTable : Nat := 512

/-- one translation table -/
abbrev Table := Vector UInt64 entriesPerTable

/-- a table with all entries absent -/
def Table.zeroed : Table := Vector.replicate entriesPerTable 0

/-- all entries are absent -/
def Table.isZero (t : Table) : Bool := t.all (· == 0)

/-- a table as it is handed out: one that was made before is overwritten -/
def Table.cleared : Option Table → Table
  | some t => t.map fun _ => 0
  | none => zeroed

/-- tables at consecutive pages from `base` on -/
structure TableArray where
  base : UInt64
  /-- how many tables there are -/
  capacity : Nat
  /-- the numbers of the tables handed out -/
  used : Bitmap
  /-- the contents of the tables that were ever made, also of those free -/
  tables : Array (Option Table)
deriving DecidableEq

namespace TableArray

/-- `capacity` free tables -/
def new (base : UInt64) (capacity : Nat) : TableArray :=
  ⟨base, capacity, Bitmap.empty capacity, Array.replicate capacity none⟩

/-- the physical address of table `i` -/
def address (a : TableArray) (i : Nat) : UInt64 := a.base + UInt64.ofNat (i * pageSize)

/-- the number of the table handed out at `phys` -/
def index? (a : TableArray) (phys : UInt64) : Option Nat :=
  if a.base ≤ phys then
    let offset := phys.toNat - a.base.toNat
    let i := offset / pageSize
    if offset % pageSize = 0 ∧ i < a.capacity ∧ a.used.contains i then some i else none
  else none

/-- marks table `i` as used and clears it -/
def take (a : TableArray) (i : Nat) : TableArray :=
  { a with
    used := (a.used.insert? i).getD a.used
    tables := a.tables.modify i fun t => some (Table.cleared t) }

/-- hands out the lowest free table, zeroed, by its physical address -/
def alloc? (a : TableArray) : Option (UInt64 × TableArray) :=
  (a.used.firstClear a.capacity).map fun i => (a.address i, a.take i)

/-- takes back the table at `phys`, if one was handed out there -/
def free? (a : TableArray) (phys : UInt64) : Option TableArray :=
  (a.index? phys).bind fun i => (a.used.erase? i).map fun used => { a with used }

/-- what table `i` holds, if it was ever made -/
def contents? (a : TableArray) (i : Nat) : Option Table := a.tables[i]?.join

/-- the table handed out at `phys` -/
def get? (a : TableArray) (phys : UInt64) : Option Table := (a.index? phys).bind a.contents?

/-- overwrites table `i` -/
def put (a : TableArray) (i : Nat) (t : Table) : TableArray :=
  { a with tables := a.tables.setIfInBounds i (some t) }

/-- writes an entry of the table handed out at `phys` -/
def set? (a : TableArray) (phys : UInt64) (slot : Fin entriesPerTable) (value : UInt64) : Option TableArray :=
  (a.index? phys).bind fun i => (a.contents? i).map fun t => a.put i (t.set slot value slot.isLt)

/-- how many tables are handed out -/
def inUse (a : TableArray) : Nat := a.used.count

/-- diagnostic text -/
def describe (a : TableArray) : String :=
  Text.record "TableArray"
    [("phys_base", Text.hex a.base.toNat), ("capacity", toString a.capacity), ("in_use", toString a.inUse)]

end TableArray
end NestedGuest
