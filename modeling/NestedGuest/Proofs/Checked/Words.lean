/-
Arithmetic of 64-bit words that notices where it leaves them.

Sums of addresses are exact in `Nat`. A processor computes them in words, where a sum may wrap around. A `Checked`
computation gives up as soon as a sum, a difference or a product is no word, or a slot is not one of a table: one that
gives an outcome never does either.

- `levelSize?_eq`, `tableIndex?_eq`: the sizes of blocks and the slots of tables, computed by shifts and masks;
- `TableArray.allocChecked_eq`: handing out a table.
-/
import NestedGuest.Proofs.Paging.Levels
import NestedGuest.Proofs.Paging.TableArray

namespace NestedGuest

/-! ## Words -/

/-- a computation with words, without outcome if a result on the way is none -/
abbrev Checked := Option

/-- the word `n`, if it is one -/
def word? (n : ℤ) : Checked ℕ := if 0 ≤ n ∧ n < wordEnd then some n.toNat else none

def add? (a b : ℕ) : Checked ℕ := word? (a + b)

def sub? (a b : ℕ) : Checked ℕ := word? (a - b)

def mul? (a b : ℕ) : Checked ℕ := word? (a * b)

/-- a step that has an outcome may be left out -/
theorem checked_bind {α β : Type} {x : Checked α} {a : α} (h : x = some a) (f : α → Checked β) : x >>= f = f a := by
  rw [h]
  rfl

section

variable {a b : ℕ}

theorem word?_eq_some_iff {n : ℤ} : word? n = some a ↔ n = a ∧ a < wordEnd := by
  unfold word?
  split_ifs with h
  · rw [Option.some.injEq]
    omega
  · simp only [false_iff]
    omega

theorem add?_eq (h : a + b < wordEnd) : add? a b = some (a + b) := by
  apply word?_eq_some_iff.2
  exact ⟨by push_cast; rfl, h⟩

theorem sub?_eq (hle : b ≤ a) (h : a < wordEnd) : sub? a b = some (a - b) := by
  apply word?_eq_some_iff.2
  exact ⟨by omega, by omega⟩

theorem mul?_eq (h : a * b < wordEnd) : mul? a b = some (a * b) := by
  apply word?_eq_some_iff.2
  exact ⟨by push_cast; rfl, h⟩

end

/-- a sum wraps around no more than a difference falls below 0 -/
example : add? (wordEnd - 1) 1 = none ∧ sub? 1 2 = none ∧ add? (wordEnd - 2) 1 = some (wordEnd - 1) := by decide

/-! ## Levels of a page table -/

/-- bits of an address that select the slot of one table -/
def indexBits : ℕ := 9

/-- bytes that one entry at `level` covers -/
def levelSize? (level : ℕ) : Checked ℕ := do
  let bits ← mul? indexBits level
  return pageSize <<< bits

/-- slot `i` of a table, if a table has it -/
def slot? (i : ℕ) : Checked (Fin entriesPerTable) := if h : i < entriesPerTable then some ⟨i, h⟩ else none

/-- the slot that covers `addr` in a table at `level` -/
def tableIndex? (addr level : ℕ) : Checked (Fin entriesPerTable) := do
  let bits ← mul? indexBits level
  let shift ← add? pageShift bits
  let mask ← sub? entriesPerTable 1
  slot? ((addr >>> shift) &&& mask)

/-- how far `va` lies behind the start of its block of `size` bytes -/
def blockOffset? (va size : ℕ) : Checked ℕ := do
  let mask ← sub? size 1
  return va &&& mask

/-- the end of the block of `size` bytes in which `va` lies; the bits of the mask are cleared first -/
def blockEnd? (va size : ℕ) : Checked ℕ := do
  let mask ← sub? size 1
  add? (va ^^^ (va &&& mask)) size

section

variable {level : ℕ}

theorem levelSize_eq_pow (level : ℕ) : levelSize level = 2 ^ (pageShift + indexBits * level) := by
  induction level with
  | zero => rfl
  | succ l ih =>
    rw [levelSize_succ, ih, mul_add, mul_one, ← add_assoc, pow_add _ _ indexBits]
    rfl

/-- all sums with the size of a block stay far below the last word -/
theorem levelSize_le_two_pow (h : level ≤ rootLevel) : levelSize level ≤ 2 ^ 39 := by
  have hroot : levelSize rootLevel = 2 ^ 39 := by decide
  exact hroot ▸ levelSize_le h

theorem mul?_indexBits (h : level ≤ rootLevel) : mul? indexBits level = some (indexBits * level) := by
  apply mul?_eq
  simp only [indexBits, rootLevel, wordEnd, Nat.reduceShiftLeft] at *
  omega

theorem levelSize?_eq (h : level ≤ rootLevel) : levelSize? level = some (levelSize level) := by
  have hshift : pageSize <<< (indexBits * level) = levelSize level := by
    rw [levelSize_eq_pow, pow_add, Nat.shiftLeft_eq]
    rfl
  rw [levelSize?, mul?_indexBits h, ← hshift]
  rfl

/-- the lowest bits of an address are its offset in the block of their number -/
theorem and_levelMask (va level : ℕ) : va &&& (levelSize level - 1) = va % levelSize level := by
  rw [levelSize_eq_pow, Nat.and_two_pow_sub_one_eq_mod]

theorem clear_levelMask (va level : ℕ) :
    va ^^^ (va &&& (levelSize level - 1)) = va / levelSize level * levelSize level := by
  rw [levelSize_eq_pow]
  apply Nat.eq_of_testBit_eq
  intro i
  rw [Nat.testBit_xor, Nat.testBit_and, Nat.testBit_two_pow_sub_one, Nat.testBit_mul_two_pow, Nat.testBit_div_two_pow]
  by_cases hi : pageShift + indexBits * level ≤ i
  · simp [hi, Nat.sub_add_cancel hi, Nat.not_lt.2 hi]
  · simp [hi, Nat.lt_of_not_le hi]

/-- The slot computed is that of the address, so a table always has it. -/
theorem tableIndex?_eq (h : level ≤ rootLevel) (addr : ℕ) : tableIndex? addr level = some (slotOf addr level) := by
  have hshift : add? pageShift (indexBits * level) = some (pageShift + indexBits * level) := by
    apply add?_eq
    simp only [pageShift, indexBits, rootLevel, wordEnd, Nat.reduceShiftLeft] at *
    omega
  have hmask : sub? entriesPerTable 1 = some (2 ^ indexBits - 1) := by decide
  have hslot : (addr >>> (pageShift + indexBits * level)) &&& (2 ^ indexBits - 1) = slotOf addr level := by
    rw [Nat.and_two_pow_sub_one_eq_mod, Nat.shiftRight_eq_div_pow, ← levelSize_eq_pow, slotOf_val]
    rfl
  rw [tableIndex?, checked_bind (mul?_indexBits h), checked_bind hshift, checked_bind hmask, hslot]
  exact dif_pos (slotOf addr level).isLt

theorem sub?_levelSize (h : level ≤ rootLevel) : sub? (levelSize level) 1 = some (levelSize level - 1) := by
  have hle := levelSize_le_two_pow h
  apply sub?_eq (levelSize_pos level)
  simp only [wordEnd, Nat.reduceShiftLeft]
  omega

theorem blockOffset?_eq (h : level ≤ rootLevel) (va : ℕ) :
    blockOffset? va (levelSize level) = some (va % levelSize level) := by
  rw [blockOffset?, sub?_levelSize h, ← and_levelMask]
  rfl

theorem blockEnd?_eq (h : level ≤ rootLevel) {va : ℕ} (hva : va < addressSpaceEnd) :
    blockEnd? va (levelSize level) = some ((va / levelSize level + 1) * levelSize level) := by
  have hle := levelSize_le_two_pow h
  have hstart := Nat.div_mul_le_self va (levelSize level)
  rw [blockEnd?, checked_bind (sub?_levelSize h), clear_levelMask, add_mul, one_mul]
  apply add?_eq
  simp only [addressSpaceEnd, wordEnd, Nat.reduceShiftLeft] at *
  omega

end

/-! ## Tables handed out -/

/-- the least number missing from the blocks `ws`, the first of which has the number `index` -/
def Bitmap.firstClearFrom? (index : ℕ) : List UInt64 → Checked (Option ℕ)
  | [] => return none
  | w :: ws =>
    if w = allOnes then firstClearFrom? (index + 1) ws
    else do
      let start ← mul? index 64
      let i ← add? start (trailingOnes w)
      return some i

/-- hands out the lowest free table -/
def TableArray.allocChecked (a : TableArray) : Checked (Option (UInt64 × TableArray)) := do
  match (← Bitmap.firstClearFrom? 0 a.used.blocks).filter fun i => decide (i < a.capacity) with
  | none => return none
  | some i =>
    let offset ← mul? i pageSize
    let phys ← add? a.base.toNat offset
    return some (UInt64.ofNat phys, a.take i)

theorem Bitmap.firstClearFrom?_eq {index : ℕ} {ws : List UInt64} (h : (index + ws.length) * 64 < wordEnd) :
    firstClearFrom? index ws = some (firstClearFrom (index * 64) ws) := by
  induction ws generalizing index with
  | nil => rfl
  | cons w ws ih =>
    rw [List.length_cons] at h
    rw [firstClearFrom?, firstClearFrom]
    split_ifs with hfull
    · rw [ih (by omega), add_mul, one_mul]
    · have hlt := (trailingOnes_clear hfull).1
      rw [checked_bind (mul?_eq (by omega)), checked_bind (add?_eq (by omega))]
      rfl

/-- The tables of an array lie at addresses that are words. -/
theorem TableArray.allocChecked_eq {a : TableArray} (h : a.Sound) : a.allocChecked = some a.alloc? := by
  have hfits := h.fits
  have hroom : (0 + a.used.blocks.length) * 64 < wordEnd := by
    rw [h.room, Bitmap.blocksFor]
    simp only [pageSize, wordEnd, Nat.reduceShiftLeft] at *
    omega
  rw [allocChecked, checked_bind (Bitmap.firstClearFrom?_eq hroom), zero_mul, alloc?, Bitmap.firstClear]
  cases hfree : (Bitmap.firstClearFrom 0 a.used.blocks).filter fun i => decide (i < a.capacity) with
  | none => rfl
  | some i =>
    have hi : i < a.capacity := of_decide_eq_true (Option.filter_eq_some_iff.1 hfree).2
    have haddr := address_toNat h hi
    have hlt := (a.address i).toNat_lt
    have hword : a.base.toNat + i * pageSize < wordEnd := by
      simp only [wordEnd, Nat.reduceShiftLeft]
      omega
    dsimp only
    rw [checked_bind (mul?_eq (by omega)), checked_bind (add?_eq hword), ← haddr, UInt64.ofNat_toNat]
    rfl

end NestedGuest
