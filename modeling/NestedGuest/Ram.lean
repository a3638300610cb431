/-
RAM charged to a quota: each allocation is rounded up to whole pages and costs its size and one capability, which come
back when the RAM is freed. A refused allocation costs nothing.
-/
import NestedGuest.World

namespace NestedGuest

variable {σ : Type}

/-- allocates at least `size` bytes from `pool`, at the expense of `q` -/
def Quota.allocRam (P : Platform σ) (pool : RamPool) (q : Quota) (size : UInt64) (cache : Cache) :
    Run σ (Except AllocError RamDataspace × Quota) :=
  traced "alloc" (fun r => failureText AllocError.name r.1) do
    match alignPageUp size with
    | none => return (.error .outOfRam, q)
    | some size =>
      match q.withdraw size.toNat 1 with
      | .error e => return (.error e, q)
      | .ok charged =>
        match ← ask P (.allocRam pool size cache) with
        | .ok ds => return (.ok ds, charged)
        | .error e => return (.error e, charged.replenish size.toNat 1)

/-- frees RAM and takes its charge off the quota -/
def Quota.freeRam (P : Platform σ) (pool : RamPool) (q : Quota) (ds : RamDataspace) : Run σ Quota := do
  ask P (.freeRam pool ds)
  return q.replenish ds.size.toNat 1

/-- RAM held until it is released, which happens at most once -/
structure RamStore where
  /-- where the RAM comes from and goes back to -/
  pool : RamPool
  /-- `none` once released -/
  ds : Option RamDataspace
deriving DecidableEq, Repr

namespace RamStore

/-- the physical address, 0 once released -/
def phys (s : RamStore) : UInt64 := (s.ds.map RamDataspace.phys).getD 0

/-- the size, 0 once released -/
def size (s : RamStore) : UInt64 := (s.ds.map RamDataspace.size).getD 0

/-- allocates a store of cached RAM -/
def alloc (P : Platform σ) (pool : RamPool) (q : Quota) (size : UInt64) :
    Run σ (Except AllocError RamStore × Quota) := do
  let (r, q) ← q.allocRam P pool size .cached
  return (r.map fun ds => ⟨pool, some ds⟩, q)

/-- gives the RAM back, unless that was done before -/
def release (P : Platform σ) (q : Quota) (s : RamStore) : Run σ (RamStore × Quota) :=
  match s.ds with
  | none => return (s, q)
  | some ds => do
    let q ← q.freeRam P s.pool ds
    return ({ s with ds := none }, q)

/-- diagnostic text of RAM that is charged to `q` -/
def describeCharged (q : Quota) : String := Text.openRecord "ConstrainedRamAllocator" [("quota", q.describe)]

/-- diagnostic text -/
def describe (q : Quota) (s : RamStore) : String :=
  Text.record "PhysAllocated"
    [("ram", describeCharged q), ("ds", Text.option (s.ds.map RamDataspace.describe))]

end RamStore
end NestedGuest
