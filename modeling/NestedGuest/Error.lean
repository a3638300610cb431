/-
The errors of session operations: their causes, their texts and the causes they are made from.
-/
import NestedGuest.Memory.Window
import NestedGuest.Platform
import NestedGuest.Text.Layout

namespace NestedGuest

inductive SessionError where
  /-- a cause that has nothing but a text -/
  | other (text : String)
  /-- an unusable dataspace, or a malformed address, size or offset -/
  | invalidDataspace
  /-- session arguments that cannot be read -/
  | invalidSessionArgs (text : String)
  /-- a lock could not be taken -/
  | lockAttemptFailed (text : String)
  /-- an operation that is not supported -/
  | notImplemented (operation : String)
  | outOfCaps
  /-- no RAM quota left, or no table left in the page table's storage, which the quota pays for -/
  | outOfRam
  /-- all VM identities are taken -/
  | outOfVmIds
  /-- the request meets an incompatible region -/
  | regionConflict
  /-- the processor has no virtualization extension -/
  | serviceDenied
deriving DecidableEq, Repr

namespace SessionError

/-! ## Causes that errors are made from -/

def ofTranslation : TranslationError → SessionError
  | .outOfTables => .outOfRam
  | .invalidMapping => .invalidDataspace

def ofAttach : AttachError → SessionError
  | .invalidDataspace => .invalidDataspace
  | .outOfRam => .outOfRam
  | .outOfCaps => .outOfCaps
  | .regionConflict => .regionConflict
  | .translation e _ => ofTranslation e

def ofAlloc : AllocError → SessionError
  | .outOfRam => .outOfRam
  | .outOfCaps => .outOfCaps

def ofRegionMap : RegionMapError → SessionError
  | .outOfRam => .outOfRam
  | .outOfCaps => .outOfCaps
  | .regionConflict => .regionConflict
  | .invalidDataspace => .invalidDataspace

/-- a lock whose holder failed -/
def ofPoisonedLock : SessionError := .lockAttemptFailed "poisoned lock: another task failed inside"

/-- an argument whose value cannot be read -/
def ofArgument (key value : String) : SessionError := .invalidSessionArgs (key ++ "=" ++ value)

/-! ## Texts -/

/-- a short name of the kind of error, also used to count failures -/
def kind : SessionError → String
  | .other _ => "error"
  | .invalidDataspace => "invalid_dataspace"
  | .invalidSessionArgs _ => "invalid_session_args"
  | .lockAttemptFailed _ => "lock_attempt_failed"
  | .notImplemented _ => "not_implemented"
  | .outOfCaps => "out_of_caps"
  | .outOfRam => "out_of_ram"
  | .outOfVmIds => "out_of_vm_ids"
  | .regionConflict => "region_conflict"
  | .serviceDenied => "service_denied"

def message : SessionError → String
  | .other text => text
  | .invalidDataspace => "Invalid dataspace"
  | .invalidSessionArgs text => "Invalid session arguments: " ++ text
  | .lockAttemptFailed text => "Unable to lock resource: " ++ text
  | .notImplemented operation => "Operation not implemented: " ++ operation
  | .outOfCaps => "Out of capability quota"
  | .outOfRam => "Out of RAM quota"
  | .outOfVmIds => "No free VM identity left"
  | .regionConflict => "Guest-physical region conflict"
  | .serviceDenied => "Service denied: no hardware virtualization support"

/-- the name in diagnostics -/
def name : SessionError → String
  | .other _ => "Error"
  | .invalidDataspace => "InvalidDataspace"
  | .invalidSessionArgs _ => "InvalidSessionArgs"
  | .lockAttemptFailed _ => "LockAttemptFailed"
  | .notImplemented _ => "NotImplemented"
  | .outOfCaps => "OutOfCaps"
  | .outOfRam => "OutOfRam"
  | .outOfVmIds => "OutOfVmIds"
  | .regionConflict => "RegionConflict"
  | .serviceDenied => "ServiceDenied"

/-- the text that an error carries, if it does -/
def detail? : SessionError → Option String
  | .other text => some text
  | .invalidSessionArgs text => some text
  | .lockAttemptFailed text => some text
  | .notImplemented operation => some operation
  | _ => none

/-- diagnostic text: the name, and the text carried in quotes -/
def describe (e : SessionError) : String :=
  match e.detail? with
  | none => e.name
  | some text => Text.tuple e.name [Text.quote text]

end SessionError
end NestedGuest
