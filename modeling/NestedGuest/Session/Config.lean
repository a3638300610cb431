/-
The configuration of a session, read from its arguments or changed field by field.

Reading reports which fields it set before it failed, because each setter is seen by a tracer.
-/
import NestedGuest.Args.Value
import NestedGuest.Limits

namespace NestedGuest

/-- what a client chooses when it creates a session -/
structure Config where
  /-- scheduling priority of the vCPUs -/
  priority : Nat
  /-- RAM the client donates, for page tables, region metadata and vCPU state -/
  ramQuota : UInt64
  /-- capabilities the client donates -/
  capQuota : UInt64
  label : String
  /-- a region whose mapping failed is detached before the error is returned -/
  rollback : Bool
deriving DecidableEq, Repr

namespace Config

def defaultPriority : Nat := 0
def maxPriority : Nat := priorityLimit - 1
def defaultRamQuota : UInt64 := 0x100000
def defaultCapQuota : UInt64 := 32

def default : Config := ⟨defaultPriority, defaultRamQuota, defaultCapQuota, "", false⟩

/-- sets the priority, cut at the highest one -/
def withPriority (c : Config) (priority : Nat) : Config := { c with priority := min priority maxPriority }

/-- Reads a configuration, with the names of the setters that were called. Keys that are absent keep their defaults,
and a negative priority counts as 0. -/
def read (args : String) : List String × Except SessionError Config :=
  match Args.signed args "priority" defaultPriority with
  | .error e => ([], .error e)
  | .ok priority =>
    match Args.unsigned args "ram_quota" defaultRamQuota with
    | .error e => (["set_priority"], .error e)
    | .ok ramQuota =>
      match Args.unsigned args "cap_quota" defaultCapQuota with
      | .error e => (["set_priority", "set_ram_quota"], .error e)
      | .ok capQuota =>
        (["set_priority", "set_ram_quota", "set_cap_quota"],
          .ok
            { default.withPriority priority.toNat with
              ramQuota
              capQuota
              label := (Args.string args "label").getD default.label })

/-- the configuration that session arguments give -/
def ofArgs (args : String) : Except SessionError Config := (read args).2

/-- fields to be set, each if it is given -/
structure Changes where
  priority : Option Nat := none
  ramQuota : Option UInt64 := none
  capQuota : Option UInt64 := none
  label : Option String := none
  rollback : Option Bool := none

/-- sets the fields that are given -/
def apply (c : Config) (ch : Changes) : Config :=
  let c := (ch.priority.map c.withPriority).getD c
  { c with
    ramQuota := ch.ramQuota.getD c.ramQuota
    capQuota := ch.capQuota.getD c.capQuota
    label := ch.label.getD c.label
    rollback := ch.rollback.getD c.rollback }

/-- the setters called for the changes that a tracer sees; label and rollback are set without a trace -/
def Changes.setters (ch : Changes) : List String :=
  (if ch.priority.isSome then ["set_priority"] else []) ++ (if ch.ramQuota.isSome then ["set_ram_quota"] else [])
    ++ (if ch.capQuota.isSome then ["set_cap_quota"] else [])

end Config
end NestedGuest
