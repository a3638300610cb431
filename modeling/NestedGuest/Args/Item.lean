/-
Session arguments: items separated by commas, each a key, an equal sign and a value, such as
`label="a, b", ram_quota=8M`.

A comma inside double quotes separates nothing. White space around items, keys and values does not count, and items
that are empty or have no equal sign are passed over.
-/
import NestedGuest.Text.Characters

namespace NestedGuest.Args

/-- Splits at the commas outside quotes; `quoted` tells whether the text begins inside. -/
def splitItems (quoted : Bool) : List Char → List (List Char)
  | [] => [[]]
  | c :: cs =>
    let quoted := if c = '"' then !quoted else quoted
    let rest := splitItems quoted cs
    if c = ',' && !quoted then [] :: rest
    else (c :: rest.headD []) :: rest.tail

/-- the items, trimmed, without the empty ones -/
def items (args : List Char) : List (List Char) :=
  ((splitItems false args).map Text.trim).filter fun item => !item.isEmpty

/-- key and value of an item, trimmed; the first equal sign separates them -/
def keyValue? (item : List Char) : Option (List Char × List Char) :=
  match item.dropWhile (· ≠ '=') with
  | [] => none
  | _ :: value => some (Text.trim (item.takeWhile (· ≠ '=')), Text.trim value)

/-- the value of the first item with that key -/
def findChars (args key : List Char) : Option (List Char) :=
  (items args).findSome? fun item =>
    match keyValue? item with
    | some (k, value) => if k = key then some value else none
    | none => none

/-- the value of the first item with that key -/
def find (args key : String) : Option String := (findChars args.toList key.toList).map String.ofList

end NestedGuest.Args
