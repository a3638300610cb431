/-
Bitmaps as finite sets.

A bitmap stands for the positions of its set bits (`Bitmap.members`), out of those for which it has room
(`Bitmap.room`). Each operation is one on that set, and a walk through the bitmap is a finite one.

- `operations_on_members`: what each operation does to the set, for every bitmap, every number and every limit.
-/
import Mathlib.Data.Finset.Sort
import NestedGuest.Proofs.Bitmap

namespace NestedGuest

namespace Bitmap

variable {b b' : Bitmap} {i n limit : ℕ}

/-- one past the last position -/
def room (b : Bitmap) : ℕ := 64 * b.blocks.length

/-- the set that a bitmap stands for: bit `j` of block `k` has the position `64 * k + j` -/
def members (b : Bitmap) : Finset ℕ :=
  ((Finset.range b.blocks.length ×ˢ Finset.range 64).filter fun p => (b.blocks.getD p.1 0).toNat.testBit p.2).image
    fun p => 64 * p.1 + p.2

theorem mem_members : i ∈ b.members ↔ b.contains i = true := by
  simp only [members, Finset.mem_image, Finset.mem_filter, Finset.mem_product, Finset.mem_range, Prod.exists]
  constructor
  · rintro ⟨k, j, ⟨⟨hk, hj⟩, hbit⟩, rfl⟩
    have hw : b.blocks[k]? = some (b.blocks.getD k 0) := by simp [hk]
    rw [mul_comm, contains_div hw hj]
    exact hbit
  · intro hin
    have hk := contains_lt hin
    have hw : b.blocks[i / 64]? = some (b.blocks.getD (i / 64) 0) := by simp [hk]
    rw [contains_eq hw] at hin
    exact ⟨i / 64, i % 64, ⟨⟨hk, Nat.mod_lt _ (by decide)⟩, hin⟩, Nat.div_add_mod i 64⟩

theorem not_mem_members : i ∉ b.members ↔ b.contains i = false := by
  rw [mem_members, Bool.not_eq_true]

theorem lt_room_iff : i < b.room ↔ i / 64 < b.blocks.length := by
  rw [room]
  omega

/-! ## Making a bitmap -/

theorem members_empty (n : ℕ) : (empty n).members = ∅ := by
  ext i
  simp [mem_members, contains_empty]

theorem bitOf_shiftRight (w : UInt64) {s : ℕ} (hs : s < 64) (j : ℕ) :
    bitOf (w >>> UInt64.ofNat s) j = bitOf w (s + j) := by
  have hmod : s % 2 ^ 64 % 64 = s := by omega
  simp only [bitOf, UInt64.toNat_shiftRight, UInt64.toNat_ofNat', hmod, Nat.testBit_shiftRight]

/-- the last block has the bits below the limit -/
theorem members_full (n : ℕ) : (full n).members = Finset.range n := by
  ext i
  rw [mem_members, Finset.mem_range, full]
  have hblocks : blocksFor n = (n + 63) / 64 := rfl
  cases hk : blocksFor n with
  | zero =>
    have hn : n = 0 := by omega
    simp [contains, hn]
  | succ k =>
    have hshift : 64 * (k + 1) - n < 64 := by omega
    simp only [contains]
    rcases Nat.lt_trichotomy (i / 64) k with hlt | heq | hgt
    · rw [List.getElem?_append_left (by simpa using hlt), List.getElem?_replicate, if_pos hlt]
      simp only [bitOf_allOnes (Nat.mod_lt i (by decide : 0 < 64)), true_iff]
      omega
    · rw [List.getElem?_append_right (by simp [heq]), List.length_replicate, heq, Nat.sub_self, List.getElem?_cons_zero]
      simp only [bitOf_shiftRight _ hshift]
      constructor
      · intro hbit
        have hlt := bitOf_lt hbit
        omega
      · intro hin
        exact bitOf_allOnes (by omega)
    · rw [List.getElem?_eq_none (by simp; omega)]
      simp only [Bool.false_eq_true, false_iff]
      omega

/-! ## Single numbers -/

theorem insert?_isSome_iff : (b.insert? i).isSome = true ↔ i < b.room ∧ i ∉ b.members := by
  rw [lt_room_iff, not_mem_members]
  constructor
  · intro hsome
    obtain ⟨b', hb'⟩ := Option.isSome_iff_exists.1 hsome
    unfold insert? at hb'
    split at hb'
    · rename_i w hw
      split_ifs at hb' with hbit
      exact ⟨(List.getElem?_eq_some_iff.1 hw).1, (contains_eq hw).trans (Bool.eq_false_of_not_eq_true hbit)⟩
    · cases hb'
  · rintro ⟨hroom, hfree⟩
    obtain ⟨b', hb', -⟩ := insert?_eq_some hroom hfree
    rw [hb']
    rfl

theorem erase?_isSome_iff : (b.erase? i).isSome = true ↔ i ∈ b.members := by
  rw [mem_members]
  constructor
  · intro hsome
    obtain ⟨b', hb'⟩ := Option.isSome_iff_exists.1 hsome
    unfold erase? at hb'
    split at hb'
    · rename_i w hw
      split_ifs at hb' with hbit
      exact (contains_eq hw).trans hbit
    · cases hb'
  · intro hin
    obtain ⟨b', hb', -⟩ := erase?_eq_some hin
    rw [hb']
    rfl

theorem members_insert? (h : b.insert? i = some b') : b'.members = insert i b.members := by
  ext j
  rw [Finset.mem_insert, mem_members, mem_members, contains_insert? h, Bool.or_eq_true, decide_eq_true_eq, or_comm,
    eq_comm]

theorem members_erase? (h : b.erase? i = some b') : b'.members = b.members.erase i := by
  ext j
  rw [Finset.mem_erase, mem_members, mem_members, contains_erase? h, Bool.and_eq_true, Bool.not_eq_true',
    decide_eq_false_iff_not, and_comm, ne_comm]

theorem room_insert? (h : b.insert? i = some b') : b'.room = b.room := by
  obtain ⟨hroom, hfree⟩ := insert?_isSome_iff.1 (Option.isSome_of_eq_some h)
  obtain ⟨b'', hb'', hlength⟩ := insert?_eq_some (lt_room_iff.1 hroom) (not_mem_members.1 hfree)
  rw [h] at hb''
  cases hb''
  rw [room, hlength, room]

theorem room_erase? (h : b.erase? i = some b') : b'.room = b.room := by
  rw [room, erase?_length h, room]

/-! ## Searching -/

/-- the search without a limit finds the least position that is free -/
theorem firstClearFrom_eq_some_iff :
    firstClearFrom 0 b.blocks = some i ↔ IsLeast {j | j < b.room ∧ j ∉ b.members} i := by
  have hfound : ∀ k, firstClearFrom 0 b.blocks = some k → IsLeast {j | j < b.room ∧ j ∉ b.members} k := by
    intro k hk
    obtain ⟨hroom, hclear⟩ := firstClearFrom_missing hk
    refine ⟨⟨lt_room_iff.2 hroom, not_mem_members.2 hclear⟩, ?_⟩
    rintro j ⟨hj, hfree⟩
    by_contra hlt
    refine hfree (mem_members.2 (contains_of_passed (lt_room_iff.1 hj) fun x hx => ?_))
    rw [hk] at hx
    cases hx
    exact Nat.lt_of_not_le hlt
  constructor
  · exact hfound i
  · intro hleast
    cases hfind : firstClearFrom 0 b.blocks with
    | none =>
      have hset := contains_of_passed (lt_room_iff.1 hleast.1.1) (by simp [hfind])
      exact absurd (mem_members.2 hset) hleast.1.2
    | some k => rw [(hfound k hfind).unique hleast]

theorem firstClear_eq_some_iff :
    b.firstClear limit = some i ↔ IsLeast {j | j < b.room ∧ j ∉ b.members} i ∧ i < limit := by
  rw [firstClear, Option.filter_eq_some_iff, firstClearFrom_eq_some_iff, decide_eq_true_iff]

/-! ## Listing -/

/-- the numbers that a walk gives when it is asked again and again, until it has none -/
inductive Cursor.Yields : Cursor → List ℕ → Prop
  | done {c : Cursor} (h : c.next? = none) : Yields c []
  | next {c c' : Cursor} {i : ℕ} {is : List ℕ} (h : c.next? = some (i, c')) (hrest : Yields c' is) : Yields c (i :: is)

theorem Cursor.yields_toList (c : Cursor) : c.Yields c.toList := by
  fun_induction Cursor.toList c with
  | case1 c hend => exact .done hend
  | case2 c i c' hnext ih => exact .next hnext ih

theorem toList_eq_sort (b : Bitmap) : b.toList = b.members.sort := by
  have hmembers : b.members = b.toList.toFinset := by
    ext i
    rw [mem_members, List.mem_toFinset, mem_toList]
  rw [hmembers]
  exact ((List.toFinset_sort _ b.nodup_toList).2 (b.toList_sorted.imp Nat.le_of_lt)).symm

theorem count_eq (b : Bitmap) : b.count = b.members.card := by
  rw [count, toList_eq_sort, Finset.length_sort]

/-! ## Main result -/

/-- What the operations of `b` do to the set `B`. Where one gives `none`, the bitmap stays as it is. -/
structure Operates (b : Bitmap) (B : Finset ℕ) : Prop where
  contains_iff : ∀ i, b.contains i = true ↔ i ∈ B
  /-- a position is added if there is room for it and it is free -/
  insert_iff : ∀ i, (b.insert? i).isSome = true ↔ i < b.room ∧ i ∉ B
  insert : ∀ i b', b.insert? i = some b' → b'.members = insert i B ∧ b'.room = b.room
  erase_iff : ∀ i, (b.erase? i).isSome = true ↔ i ∈ B
  erase : ∀ i b', b.erase? i = some b' → b'.members = B.erase i ∧ b'.room = b.room
  /-- the search finds the least free position, or none if that is not below the limit -/
  firstClear_iff : ∀ limit i, b.firstClear limit = some i ↔ IsLeast {j | j < b.room ∧ j ∉ B} i ∧ i < limit
  /-- the walk comes to an end, and gives each member once and in ascending order -/
  yields : b.cursor.Yields B.sort
  toList : b.toList = B.sort

/-- **Bitmaps stand for finite sets.** Whatever the blocks of a bitmap are, its operations are those on the set of the
positions of its set bits; a new bitmap stands for the empty set, or for all numbers below its size. -/
theorem operations_on_members :
    (∀ b : Bitmap, b.Operates b.members) ∧ ∀ n, (empty n).members = ∅ ∧ (full n).members = Finset.range n := by
  constructor
  · intro b
    exact {
      contains_iff := fun i => mem_members.symm
      insert_iff := fun i => insert?_isSome_iff
      insert := fun i b' h => ⟨members_insert? h, room_insert? h⟩
      erase_iff := fun i => erase?_isSome_iff
      erase := fun i b' h => ⟨members_erase? h, room_erase? h⟩
      firstClear_iff := fun limit i => firstClear_eq_some_iff
      yields := b.toList_eq_sort ▸ b.cursor.yields_toList
      toList := b.toList_eq_sort }
  · exact fun n => ⟨members_empty n, members_full n⟩

end Bitmap
end NestedGuest
