/-
The layout of diagnostic text: quoted text, and records, tuples, lists and maps written on one line.

Quoted text has double quotes around it, and inside it an escape for quotes, backslashes and what cannot be seen. Tab,
carriage return, line feed and the null character have short escapes; any other character without a mark of its own is
written by its code point, `\u\x7b301\x7d` with lower-case digits. Apostrophes stay as they are.

A record is its name and its fields in order, `Name \x7b a: 1, b: 2 \x7d`. A record that keeps fields to itself ends
in two dots. Each value of the library has one `describe`, built from these.
-/
import NestedGuest.Text.Characters

namespace NestedGuest.Text

/-! ## Quoted text -/

/-- what stands for a character inside quotes -/
def escape (c : Char) : List Char :=
  if c = '\x00' then ['\\', '0']
  else if c = '\t' then ['\\', 't']
  else if c = '\r' then ['\\', 'r']
  else if c = '\n' then ['\\', 'n']
  else if c = '"' then ['\\', '"']
  else if c = '\\' then ['\\', '\\']
  else if isUnprintable c then ['\\', 'u', '\x7b'] ++ Nat.toDigits 16 c.toNat ++ ['\x7d']
  else [c]

/-- the text in quotes -/
def quote (s : String) : String := String.ofList ('"' :: s.toList.flatMap escape ++ ['"'])

/-! ## Records, lists and maps -/

/-- the items one after the other, a comma and a blank between two -/
def commas (items : List String) : String := ", ".intercalate items

/-- a record: all fields are shown -/
def record (name : String) (fields : List (String × String)) : String :=
  if fields.isEmpty then name
  else name ++ " \x7b " ++ commas (fields.map fun f => f.1 ++ ": " ++ f.2) ++ " \x7d"

/-- a record that keeps further fields to itself -/
def openRecord (name : String) (fields : List (String × String)) : String :=
  name ++ " \x7b " ++ commas (fields.map (fun f => f.1 ++ ": " ++ f.2) ++ [".."]) ++ " \x7d"

/-- a constructor with its arguments -/
def tuple (name : String) (items : List String) : String := name ++ "(" ++ commas items ++ ")"

/-- a list in square brackets -/
def list (items : List String) : String := "[" ++ commas items ++ "]"

/-- a map in braces -/
def map (entries : List (String × String)) : String :=
  "\x7b" ++ commas (entries.map fun e => e.1 ++ ": " ++ e.2) ++ "\x7d"

/-- an optional value -/
def option (item : Option String) : String :=
  match item with
  | none => "None"
  | some text => tuple "Some" [text]

/-- a value behind a lock that nobody holds and no failed task has poisoned -/
def locked (value : String) : String := openRecord "Mutex" [("data", value), ("poisoned", "false")]

/-- hexadecimal with the marker `0x`, lower case, no leading zeros -/
def hex (n : Nat) : String := "0x" ++ String.ofList (Nat.toDigits 16 n)

/-- the two truth values in lower case -/
def bool (b : Bool) : String := if b then "true" else "false"

end NestedGuest.Text
