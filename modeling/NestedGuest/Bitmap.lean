/-
Finite sets of numbers as blocks of 64 bits: number `i` is bit `i % 64` of block `i / 64`.

A bitmap has a fixed number of blocks. Numbers past the last block are never in the set and cannot be put into it, so
insertion and removal say by `none` that they changed nothing.
-/
namespace NestedGuest

structure Bitmap where
  blocks : List UInt64
deriving DecidableEq, Repr

/-! ## One block -/

/-- all 64 bits set -/
def allOnes : UInt64 := 0xffffffffffffffff

/-- bit `j` of the block -/
def bitOf (w : UInt64) (j : Nat) : Bool := w.toNat.testBit j

/-- the block with bit `j` alone -/
def bitMask (j : Nat) : UInt64 := 1 <<< UInt64.ofNat j

/-- the least set bit, 64 if there is none -/
def trailingZeros (w : UInt64) : Nat := ((List.range 64).find? fun j => bitOf w j).getD 64

/-- the least clear bit, 64 if there is none -/
def trailingOnes (w : UInt64) : Nat := ((List.range 64).find? fun j => !bitOf w j).getD 64

theorem clearLowest_lt {w : UInt64} (h : w ≠ 0) : (w &&& (w - 1)).toNat < w.toNat := by
  have hw : 0 < w.toNat := Nat.pos_of_ne_zero fun h0 => h (UInt64.toNat_inj.mp h0)
  have hsub : (w - 1).toNat = w.toNat - 1 := by
    rw [UInt64.toNat_sub_of_le _ _ (by rw [UInt64.le_iff_toNat_le]; exact hw)]
    rfl
  rw [UInt64.toNat_and, hsub]
  exact Nat.lt_of_le_of_lt Nat.and_le_right (by omega)

namespace Bitmap

/-! ## Making a bitmap -/

/-- blocks that hold `n` bits -/
def blocksFor (n : Nat) : Nat := (n + 63) / 64

/-- room for the numbers below `n`, none of them in the set -/
def empty (n : Nat) : Bitmap := ⟨List.replicate (blocksFor n) 0⟩

/-- the numbers below `n`; the bits of the last block past `n` stay clear -/
def full (n : Nat) : Bitmap :=
  match blocksFor n with
  | 0 => ⟨[]⟩
  | k + 1 => ⟨List.replicate k allOnes ++ [allOnes >>> UInt64.ofNat (64 * (k + 1) - n)]⟩

/-! ## Single numbers -/

/-- `i` is in the set -/
def contains (b : Bitmap) (i : Nat) : Bool :=
  match b.blocks[i / 64]? with
  | some w => bitOf w (i % 64)
  | none => false

/-- the set with `i` added, if there is room for `i` and it was not in the set -/
def insert? (b : Bitmap) (i : Nat) : Option Bitmap :=
  match b.blocks[i / 64]? with
  | some w => if bitOf w (i % 64) then none else some ⟨b.blocks.set (i / 64) (w ||| bitMask (i % 64))⟩
  | none => none

/-- the set without `i`, if `i` was in it -/
def erase? (b : Bitmap) (i : Nat) : Option Bitmap :=
  match b.blocks[i / 64]? with
  | some w => if bitOf w (i % 64) then some ⟨b.blocks.set (i / 64) (w &&& ~~~bitMask (i % 64))⟩ else none
  | none => none

/-! ## Searching -/

/-- the least number at or after `start` that is missing from the blocks `ws`, the first of which begins at `start` -/
def firstClearFrom (start : Nat) : List UInt64 → Option Nat
  | [] => none
  | w :: ws => if w = allOnes then firstClearFrom (start + 64) ws else some (start + trailingOnes w)

/-- the least number missing from the set, if the blocks have room for it and it is below `limit` -/
def firstClear (b : Bitmap) (limit : Nat) : Option Nat :=
  (firstClearFrom 0 b.blocks).filter fun i => decide (i < limit)

/-! ## Listing -/

/-- A walk through the numbers of a set, from the least on. -/
structure Cursor where
  blocks : List UInt64
  /-- how many blocks the walk has entered -/
  entered : Nat
  /-- the numbers still to come of the block entered last -/
  current : UInt64
  /-- before the first block is entered none are -/
  primed : current ≠ 0 → 0 < entered

namespace Cursor

/-- the next number, and the walk after it; blocks that have none are passed -/
def next? (c : Cursor) : Option (Nat × Cursor) :=
  if h : c.current = 0 then
    match _ : c.blocks[c.entered]? with
    | none => none
    | some w => next? { c with entered := c.entered + 1, current := w, primed := fun _ => Nat.succ_pos _ }
  else
    some ((c.entered - 1) * 64 + trailingZeros c.current,
      { c with current := c.current &&& (c.current - 1), primed := fun _ => c.primed h })
termination_by c.blocks.length - c.entered
decreasing_by exact Nat.sub_lt_sub_left (List.getElem?_eq_some_iff.1 ‹_›).1 (Nat.lt_succ_self _)

/-- decreases from one number to the next, whether a block is entered or not -/
def weight (c : Cursor) : Nat := (c.blocks.length - c.entered) * UInt64.size + c.current.toNat

theorem weight_next? {c c' : Cursor} {i : Nat} (h : c.next? = some (i, c')) : c'.weight < c.weight := by
  fun_induction next? c with
  | case1 c hzero hw => cases h
  | case2 c hzero w hw ih =>
    have hlt := (List.getElem?_eq_some_iff.1 hw).1
    have hword := w.toNat_lt
    refine Nat.lt_trans (ih h) ?_
    simp only [weight, UInt64.size]
    omega
  | case3 c hne =>
    cases h
    exact Nat.add_lt_add_left (clearLowest_lt hne) _

/-- the numbers to come -/
def toList (c : Cursor) : List Nat :=
  match _ : c.next? with
  | none => []
  | some (i, c') => i :: c'.toList
termination_by c.weight
decreasing_by exact weight_next? ‹_›

end Cursor

/-- the walk through all numbers of the set -/
def cursor (b : Bitmap) : Cursor := ⟨b.blocks, 0, 0, fun h => absurd rfl h⟩

/-- the numbers in the set in ascending order -/
def toList (b : Bitmap) : List Nat := b.cursor.toList

/-- how many numbers are in the set -/
def count (b : Bitmap) : Nat := b.toList.length

end Bitmap
end NestedGuest
