/-
A nested page table of four levels. The root lies at the start of its physical storage and further tables come from a
fixed array right behind it. An entry at level 0 maps a page; one level up it covers 512 times as much. Leaves may sit
at levels 0, 1 and 2.

Requests name ranges by 64-bit words. They are checked once; after that all sums of addresses are exact in `Nat`.

* `insert` maps a range with the largest leaves that fit, and keeps what it mapped so far when it fails;
* `remove` clears every leaf that meets a range, a large leaf as a whole, and takes back tables that became empty;
* `lookup` resolves one address.
-/
import NestedGuest.Limits
import NestedGuest.Paging.Entry
import NestedGuest.Paging.TableArray
import NestedGuest.Paging.Translation

namespace NestedGuest

/-- levels of a nested page table -/
def pageTableLevels : Nat := 4

/-- the level of the root -/
def rootLevel : Nat := 3

/-- the highest level of a leaf -/
def maxLeafLevel : Nat := 2

/-- end of the guest-physical addresses that four levels translate -/
def addressSpaceEnd : Nat := 1 <<< 48

/-- bytes that one entry at `level` covers -/
def levelSize : (level : Nat) → Nat
  | 0 => pageSize
  | level + 1 => levelSize level * entriesPerTable

/-- bytes of physical storage a page table needs: its root and all further tables -/
def tableStorageSize : Nat := (1 + tableMax) * pageSize

/-- the entry that covers `addr` in a table at `level` -/
def slotOf (addr level : Nat) : Fin entriesPerTable := Fin.ofNat entriesPerTable (addr / levelSize level)

/-- the parts of `[start, stop)` that fall to one entry each at `level`, in ascending order, as start and end -/
def chunks (level start stop : Nat) : List (Nat × Nat) :=
  let size := levelSize level
  if start < stop then
    (List.range' (start / size) ((stop - 1) / size + 1 - start / size)).map fun k =>
      (max start (k * size), min stop ((k + 1) * size))
  else []

structure PageTable where
  format : EntryFormat
  rootPhys : UInt64
  root : Table
  /-- the tables below the root -/
  nodes : TableArray
deriving DecidableEq

namespace PageTable

/-! ## Tables and entries -/

/-- an empty page table with room for `capacity` tables below the root -/
def withCapacity (format : EntryFormat) (base : UInt64) (capacity : Nat) : PageTable :=
  ⟨format, base, Table.zeroed, TableArray.new (base + UInt64.ofNat pageSize) capacity⟩

/-- an empty page table of the usual size, `tableStorageSize` bytes from `base` on -/
def new (format : EntryFormat) (base : UInt64) : PageTable := withCapacity format base tableMax

/-- the table at `phys`: the root or one handed out below it -/
def table? (t : PageTable) (phys : UInt64) : Option Table :=
  if phys = t.rootPhys then some t.root else t.nodes.get? phys

/-- an entry of the table at `phys` -/
def entry? (t : PageTable) (phys : UInt64) (slot : Fin entriesPerTable) : Option UInt64 :=
  (t.table? phys).map fun table => table.get slot

/-- writes an entry of the table at `phys`; without such a table nothing changes -/
def setEntry (t : PageTable) (phys : UInt64) (slot : Fin entriesPerTable) (value : UInt64) : PageTable :=
  if phys = t.rootPhys then { t with root := t.root.set slot value slot.isLt }
  else { t with nodes := (t.nodes.set? phys slot value).getD t.nodes }

/-- how many tables are in use below the root -/
def tablesInUse (t : PageTable) : Nat := t.nodes.inUse

/-! ## Insertion -/

/-- What an existing leaf at `level` contributes to mapping `va` to `pa`: the bytes of the request it covers, if it has
the same target and the attributes that a new leaf would have. -/
def acceptLeaf (f : EntryFormat) (level : Nat) (entry : UInt64) (va pa remaining : Nat) (flags : PageFlags) :
    Except TranslationError Nat :=
  let offset := va % levelSize level
  if (entryAddress entry).toNat + offset = pa ∧ f.flags entry = f.flags (f.leaf 0 flags (level > 0)) then
    .ok (min (levelSize level - offset) remaining)
  else .error .invalidMapping

/-- a new leaf at `level` may map `va` to `pa` -/
def leafFits (level va pa remaining : Nat) : Bool :=
  level == 0 || (level ≤ maxLeafLevel && va % levelSize level == 0 && pa % levelSize level == 0
    && levelSize level ≤ remaining)

/-- Maps `va` to `pa` by one leaf, or accepts the leaf that is there, walking down from the table at `node`, which is
at `level`. Returns how many bytes of the request the leaf covers. -/
def insertLeaf (va pa remaining : Nat) (flags : PageFlags) :
    (level : Nat) → (node : UInt64) → PageTable → PageTable × Except TranslationError Nat
  | 0, node, t =>
    match t.entry? node (slotOf va 0) with
    | none => (t, .error .invalidMapping)
    | some entry =>
      if t.format.present entry then (t, acceptLeaf t.format 0 entry va pa remaining flags)
      else (t.setEntry node (slotOf va 0) (t.format.leaf (UInt64.ofNat pa) flags false), .ok (levelSize 0))
  | level + 1, node, t =>
    match t.entry? node (slotOf va (level + 1)) with
    | none => (t, .error .invalidMapping)
    | some entry =>
      if t.format.present entry then
        if t.format.large entry then (t, acceptLeaf t.format (level + 1) entry va pa remaining flags)
        else insertLeaf va pa remaining flags level (entryAddress entry) t
      else if leafFits (level + 1) va pa remaining then
        (t.setEntry node (slotOf va (level + 1)) (t.format.leaf (UInt64.ofNat pa) flags true),
          .ok (levelSize (level + 1)))
      else
        match t.nodes.alloc? with
        | none => (t, .error .outOfTables)
        | some (child, nodes) =>
          insertLeaf va pa remaining flags level child
            ({ t with nodes }.setEntry node (slotOf va (level + 1)) (t.format.table child))

/-- maps `[va, va + remaining)` to `[pa, pa + remaining)` leaf by leaf, until one cannot be inserted -/
def insertLeaves (va pa remaining : Nat) (flags : PageFlags) (t : PageTable) :
    PageTable × Except TranslationError Unit :=
  if remaining = 0 then (t, .ok ())
  else
    match insertLeaf va pa remaining flags rootLevel t.rootPhys t with
    | (t, .error e) => (t, .error e)
    | (t, .ok 0) => (t, .ok ())
    | (t, .ok (covered + 1)) =>
      insertLeaves (va + (covered + 1)) (pa + (covered + 1)) (remaining - (covered + 1)) flags t
termination_by remaining

/-- maps `[vm, vm + size)` to `[phys, phys + size)`; what was mapped before a failure stays -/
def insert (t : PageTable) (vm phys size : UInt64) (flags : PageFlags) : PageTable × Except TranslationError Unit :=
  if isPageAligned vm && isPageAligned phys && isPageAligned size
      && decide (vm.toNat + size.toNat ≤ addressSpaceEnd) && decide (phys.toNat + size.toNat ≤ physAddressEnd) then
    insertLeaves vm.toNat phys.toNat size.toNat flags t
  else (t, .error .invalidMapping)

/-! ## Removal -/

/-- takes back the table `child`, to which `slot` of the table at `node` refers, if all its entries are absent -/
def pruneChild (t : PageTable) (node : UInt64) (slot : Fin entriesPerTable) (child : UInt64) : PageTable :=
  match t.nodes.get? child with
  | none => t
  | some table =>
    if table.isZero then
      let t := t.setEntry node slot 0
      { t with nodes := (t.nodes.free? child).getD t.nodes }
    else t

/-- clears every leaf that meets `[start, stop)` below the table at `node`, which is at `level` -/
def removeRange : (level : Nat) → (node : UInt64) → (start stop : Nat) → PageTable → PageTable
  | 0, node, start, stop, t =>
    (chunks 0 start stop).foldl (fun t chunk =>
      match t.entry? node (slotOf chunk.1 0) with
      | none => t
      | some entry => if t.format.present entry then t.setEntry node (slotOf chunk.1 0) 0 else t) t
  | level + 1, node, start, stop, t =>
    (chunks (level + 1) start stop).foldl (fun t chunk =>
      match t.entry? node (slotOf chunk.1 (level + 1)) with
      | none => t
      | some entry =>
        if t.format.present entry then
          if t.format.large entry then t.setEntry node (slotOf chunk.1 (level + 1)) 0
          else
            (removeRange level (entryAddress entry) chunk.1 chunk.2 t).pruneChild node (slotOf chunk.1 (level + 1))
              (entryAddress entry)
        else t) t

/-- clears every leaf that meets `[vm, vm + size)`, as far as the range lies in the guest's address space -/
def remove (t : PageTable) (vm size : UInt64) : PageTable :=
  removeRange rootLevel t.rootPhys vm.toNat (min (vm.toNat + size.toNat) addressSpaceEnd) t

/-! ## Lookup -/

/-- the leaf that translates `va` below the table at `node`, which is at `level`: its own level and its entry -/
def leafAt (t : PageTable) (va : Nat) : (level : Nat) → (node : UInt64) → Option (Nat × UInt64)
  | 0, node =>
    match t.entry? node (slotOf va 0) with
    | none => none
    | some entry => if t.format.present entry then some (0, entry) else none
  | level + 1, node =>
    match t.entry? node (slotOf va (level + 1)) with
    | none => none
    | some entry =>
      if t.format.present entry then
        if t.format.large entry then some (level + 1, entry) else leafAt t va level (entryAddress entry)
      else none

/-- resolves the guest-physical address `vm` -/
def lookup (t : PageTable) (vm : UInt64) : Option Translation :=
  if vm.toNat < addressSpaceEnd then
    (t.leafAt vm.toNat rootLevel t.rootPhys).map fun (level, entry) =>
      { phys := (entryAddress entry).toNat + vm.toNat % levelSize level
        leafSize := levelSize level
        flags := t.format.flags entry }
  else none

/-- diagnostic text -/
def describe (t : PageTable) : String :=
  Text.record t.format.name [("root_phys", Text.hex t.rootPhys.toNat), ("nodes", t.nodes.describe)]

end PageTable
end NestedGuest
