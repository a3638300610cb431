/-
Values of session arguments by key: texts without their quotes, and numbers with a default for a key that is absent.
-/
import NestedGuest.Args.Item
import NestedGuest.Args.Number
import NestedGuest.Error

namespace NestedGuest.Args

/-- the text without the quotes around it, if it has one at either end -/
def unquote (cs : List Char) : List Char :=
  match cs with
  | '"' :: rest => if rest.getLast? = some '"' then rest.dropLast else cs
  | _ => cs

/-- the text of `key` -/
def string (args key : String) : Option String :=
  (findChars args.toList key.toList).map fun value => String.ofList (unquote value)

/-- the unsigned number of `key`, `default` if there is none -/
def unsigned (args key : String) (default : UInt64) : Except SessionError UInt64 :=
  match find args key with
  | none => .ok default
  | some value =>
    match scaled? value.toList with
    | some n => .ok n
    | none => .error (.ofArgument key value)

/-- the signed number of `key`, `default` if there is none -/
def signed (args key : String) (default : Int) : Except SessionError Int :=
  match find args key with
  | none => .ok default
  | some value =>
    match signed? value.toList with
    | some n => .ok n
    | none => .error (.ofArgument key value)

end NestedGuest.Args
