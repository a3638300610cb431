/-
RAM charged to one quota by many holders: dataspaces and stores held side by side, from either pool, which draw on the
quota and give back to it in any order.
-/
import NestedGuest.Ram

namespace NestedGuest

variable {σ : Type}

/-- a quota, and what is charged to it: dataspaces and stores in the order of their allocation -/
structure RamHolders where
  quota : Quota
  /-- with the pool they come from; `none` for a dataspace given back -/
  dataspaces : List (Option (RamPool × RamDataspace))
  /-- `none` for a store that was dropped -/
  stores : List (Option RamStore)

inductive RamRequest where
  | alloc (pool : RamPool) (size : UInt64) (cache : Cache)
  | free (i : Nat)
  /-- allocates a store -/
  | store (pool : RamPool) (size : UInt64)
  /-- releases a store, which stays as an empty one -/
  | release (i : Nat)
  /-- releases a store and forgets it -/
  | drop (i : Nat)
  | upgrade (ram caps : Nat)
deriving DecidableEq, Repr

inductive RamReply where
  | done
  /-- there is nothing of that number -/
  | nothing
  | refused (e : AllocError)
  | dataspace (ds : RamDataspace)
  | store (s : RamStore)
deriving DecidableEq, Repr

namespace RamHolders

def new (quota : Quota) : RamHolders := ⟨quota, [], []⟩

/-- serves one request -/
def perform (P : Platform σ) (h : RamHolders) : RamRequest → Run σ (RamReply × RamHolders)
  | .alloc pool size cache => do
    match ← h.quota.allocRam P pool size cache with
    | (.ok ds, quota) => return (.dataspace ds, { h with quota, dataspaces := h.dataspaces ++ [some (pool, ds)] })
    | (.error e, quota) => return (.refused e, { h with quota })
  | .free i =>
    match h.dataspaces[i]?.join with
    | none => return (.nothing, h)
    | some (pool, ds) => do
      let quota ← h.quota.freeRam P pool ds
      return (.done, { h with quota, dataspaces := h.dataspaces.set i none })
  | .store pool size => do
    match ← RamStore.alloc P pool h.quota size with
    | (.ok s, quota) => return (.store s, { h with quota, stores := h.stores ++ [some s] })
    | (.error e, quota) => return (.refused e, { h with quota })
  | .release i =>
    match h.stores[i]?.join with
    | none => return (.nothing, h)
    | some s => do
      let (s, quota) ← s.release P h.quota
      return (.store s, { h with quota, stores := h.stores.set i (some s) })
  | .drop i =>
    match h.stores[i]?.join with
    | none => return (.nothing, h)
    | some s => do
      let (_, quota) ← s.release P h.quota
      return (.done, { h with quota, stores := h.stores.set i none })
  | .upgrade ram caps => return (.done, { h with quota := h.quota.upgrade ram caps })

/-- drops all stores in order -/
def dropAll (P : Platform σ) (h : RamHolders) : Run σ RamHolders := do
  let quota ← h.stores.foldlM (fun q s =>
    match s with
    | none => pure q
    | some s => do
      let (_, q) ← s.release P q
      return q) h.quota
  return { h with quota, stores := h.stores.map fun _ => none }

/-- diagnostic text of store `i`, or of the quota if there is no such store -/
def describe (h : RamHolders) (i : Nat) : String :=
  match h.stores[i]?.join with
  | some s => s.describe h.quota
  | none => RamStore.describeCharged h.quota

end RamHolders
end NestedGuest
