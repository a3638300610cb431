/-
Numbers in session arguments.

An unsigned number is decimal or, after `0x`, hexadecimal, with an optional plus sign and an optional suffix that
multiplies it by a power of 1024. A signed number is decimal. Numbers that leave the range of a 64-bit word, before or
after scaling, are not read.
-/
import NestedGuest.Page

namespace NestedGuest.Args

/-- the value of a digit in the given radix, at most 36 -/
def digitValue? (radix : Nat) (c : Char) : Option Nat :=
  let v :=
    if '0' ≤ c ∧ c ≤ '9' then c.toNat - '0'.toNat
    else if 'a' ≤ c ∧ c ≤ 'z' then c.toNat - 'a'.toNat + 10
    else if 'A' ≤ c ∧ c ≤ 'Z' then c.toNat - 'A'.toNat + 10
    else radix
  if v < radix then some v else none

/-- the number that the digits write after the digits of `n` -/
def digitsFrom (radix n : Nat) : List Char → Option Nat
  | [] => some n
  | c :: cs =>
    match digitValue? radix c with
    | none => none
    | some v => digitsFrom radix (n * radix + v) cs

/-- one or more digits -/
def digits? (radix : Nat) (cs : List Char) : Option Nat := if cs = [] then none else digitsFrom radix 0 cs

/-- digits after an optional plus sign, below the end of a word -/
def unsigned? (radix : Nat) (cs : List Char) : Option Nat :=
  let n := match cs with
    | '+' :: rest => digits? radix rest
    | _ => digits? radix cs
  n.filter fun n => decide (n < wordEnd)

/-- decimal digits after an optional sign, in the range of a signed word -/
def signed? (cs : List Char) : Option Int :=
  let n : Option Int := match cs with
    | '+' :: rest => (digits? 10 rest).map Int.ofNat
    | '-' :: rest => (digits? 10 rest).map fun n => -(Int.ofNat n)
    | _ => (digits? 10 cs).map Int.ofNat
  n.filter fun n => decide (-0x8000000000000000 ≤ n) && decide (n < 0x8000000000000000)

/-- the power of two that a suffix letter stands for -/
def suffixShift? (c : Char) : Option Nat :=
  if c = 'K' ∨ c = 'k' then some 10
  else if c = 'M' ∨ c = 'm' then some 20
  else if c = 'G' ∨ c = 'g' then some 30
  else none

/-- splits a suffix off, as the power of two it stands for -/
def splitSuffix (cs : List Char) : List Char × Nat :=
  match cs.getLast?.bind suffixShift? with
  | some shift => (cs.dropLast, shift)
  | none => (cs, 0)

/-- decimal, or hexadecimal after `0x` -/
def magnitude? (cs : List Char) : Option Nat :=
  match cs with
  | '0' :: 'x' :: hex => unsigned? 16 hex
  | _ => unsigned? 10 cs

/-- a number with an optional suffix, as a word -/
def scaled? (cs : List Char) : Option UInt64 :=
  let (number, shift) := splitSuffix cs
  match magnitude? number with
  | none => none
  | some n => if n <<< shift < wordEnd then some (UInt64.ofNat (n <<< shift)) else none

end NestedGuest.Args
