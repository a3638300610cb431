/-
Quota: what a session may draw of RAM bytes and of capabilities, and what it has drawn so far.

A withdrawal takes from both guards or from neither. Limits only rise, up to the largest word.
-/
import NestedGuest.Page
import NestedGuest.Text.Layout

namespace NestedGuest

/-- why an allocation was refused -/
inductive AllocError where
  | outOfRam
  | outOfCaps
deriving DecidableEq, Repr

namespace AllocError

def name : AllocError → String
  | .outOfRam => "OutOfRam"
  | .outOfCaps => "OutOfCaps"

def message : AllocError → String
  | .outOfRam => "out of RAM"
  | .outOfCaps => "out of capabilities"

end AllocError

/-! ## One resource -/

/-- a limit and the amount drawn -/
structure QuotaGuard where
  limit : Nat
  used : Nat
  /-- no more was ever given back than had been drawn, which debug builds assert -/
  covered : Bool
deriving DecidableEq, Repr

namespace QuotaGuard

/-- nothing drawn yet -/
def new (limit : Nat) : QuotaGuard := ⟨limit, 0, true⟩

/-- what can still be drawn -/
def avail (g : QuotaGuard) : Nat := g.limit - g.used

/-- draws `amount` if that much is left -/
def withdraw? (g : QuotaGuard) (amount : Nat) : Option QuotaGuard :=
  if amount ≤ g.avail then some { g with used := g.used + amount } else none

/-- gives back what was drawn before -/
def replenish (g : QuotaGuard) (amount : Nat) : QuotaGuard :=
  { g with used := g.used - amount, covered := g.covered && decide (amount ≤ g.used) }

/-- raises the limit, at most to the largest word -/
def upgrade (g : QuotaGuard) (amount : Nat) : QuotaGuard := { g with limit := min (g.limit + amount) (wordEnd - 1) }

def describe (g : QuotaGuard) : String :=
  Text.record "QuotaGuard" [("limit", toString g.limit), ("used", toString g.used)]

end QuotaGuard

/-! ## RAM and capabilities together -/

/-- the two guards of one session -/
structure Quota where
  ram : QuotaGuard
  caps : QuotaGuard
deriving DecidableEq, Repr

namespace Quota

def new (ram caps : Nat) : Quota := ⟨.new ram, .new caps⟩

/-- draws `ram` bytes and `caps` capabilities; missing capabilities are reported first -/
def withdraw (q : Quota) (ram caps : Nat) : Except AllocError Quota :=
  match q.caps.withdraw? caps with
  | none => .error .outOfCaps
  | some capsLeft =>
    match q.ram.withdraw? ram with
    | none => .error .outOfRam
    | some ramLeft => .ok ⟨ramLeft, capsLeft⟩

def replenish (q : Quota) (ram caps : Nat) : Quota := ⟨q.ram.replenish ram, q.caps.replenish caps⟩

def upgrade (q : Quota) (ram caps : Nat) : Quota := ⟨q.ram.upgrade ram, q.caps.upgrade caps⟩

def describe (q : Quota) : String :=
  Text.tuple "SharedQuota"
    [Text.locked (Text.record "SessionQuota" [("ram", q.ram.describe), ("caps", q.caps.describe)])]

end Quota
end NestedGuest
