/-
What the operations of a bitmap do to the set it stands for. `contains` is the view: an insertion adds one number, a
removal takes one away, the search for a missing number finds the least one, which insertion then accepts, and the list
of a set has each of its numbers once.
-/
import Mathlib.Tactic
import NestedGuest.Bitmap

namespace NestedGuest

/-! ## Bits of one block -/

theorem bitOf_or (v w : UInt64) (j : ℕ) : bitOf (v ||| w) j = (bitOf v j || bitOf w j) := by
  simp [bitOf, UInt64.toNat_or, Nat.testBit_or]

theorem bitOf_and (v w : UInt64) (j : ℕ) : bitOf (v &&& w) j = (bitOf v j && bitOf w j) := by
  simp [bitOf, UInt64.toNat_and, Nat.testBit_and]

theorem bitOf_not (w : UInt64) {j : ℕ} (hj : j < 64) : bitOf (~~~w) j = !bitOf w j := by
  have hw : w.toNat < 2 ^ 64 := w.toNat_lt
  have hnot : (~~~w).toNat = 2 ^ 64 - (w.toNat + 1) := by
    rw [UInt64.toNat_not]
    simp only [UInt64.size]
    omega
  rw [bitOf, hnot, Nat.testBit_two_pow_sub_succ hw]
  simp [hj, bitOf]

theorem bitOf_bitMask {i : ℕ} (hi : i < 64) (j : ℕ) : bitOf (bitMask i) j = decide (i = j) := by
  have hmod : i % 2 ^ 64 % 64 = i := by omega
  have hpow : 2 ^ i < 2 ^ 64 := Nat.pow_lt_pow_right (by decide) hi
  have hmask : (bitMask i).toNat = 2 ^ i := by
    simp only [bitMask, UInt64.toNat_shiftLeft, UInt64.toNat_ofNat', hmod, UInt64.toNat_one, Nat.one_shiftLeft]
    exact Nat.mod_eq_of_lt hpow
  rw [bitOf, hmask, Nat.testBit_two_pow]

theorem eq_allOnes {w : UInt64} (h : ∀ j < 64, bitOf w j = true) : w = allOnes := by
  have hall : allOnes.toNat = 2 ^ 64 - 1 := by decide
  apply UInt64.toNat_inj.mp
  rw [hall]
  apply Nat.eq_of_testBit_eq
  intro j
  rw [Nat.testBit_two_pow_sub_one]
  by_cases hj : j < 64
  · simpa [hj, bitOf] using h j hj
  · have hlt : w.toNat < 2 ^ j := w.toNat_lt.trans_le (Nat.pow_le_pow_right (by decide) (by omega))
    simp [hj, Nat.testBit_lt_two_pow hlt]

theorem trailingOnes_clear {w : UInt64} (h : w ≠ allOnes) : trailingOnes w < 64 ∧ bitOf w (trailingOnes w) = false := by
  unfold trailingOnes
  cases hf : (List.range 64).find? fun j => !bitOf w j with
  | none =>
    rw [List.find?_eq_none] at hf
    exact absurd (eq_allOnes fun j hj => by simpa using hf j (List.mem_range.2 hj)) h
  | some j =>
    have hmem := List.mem_of_find?_eq_some hf
    have hclear := List.find?_some hf
    exact ⟨List.mem_range.1 hmem, by simpa using hclear⟩

/-- every bit below the one found is set -/
theorem trailingOnes_least {w : UInt64} {j : ℕ} (hj : j < trailingOnes w) (hlt : j < 64) : bitOf w j = true := by
  unfold trailingOnes at hj
  cases hf : (List.range 64).find? fun j => !bitOf w j with
  | none =>
    rw [List.find?_eq_none] at hf
    simpa using hf j (List.mem_range.2 hlt)
  | some i =>
    rw [hf, Option.getD_some] at hj
    rw [List.find?_range_eq_some] at hf
    simpa using hf.2.2 j hj

theorem bitOf_allOnes {j : ℕ} (hj : j < 64) : bitOf allOnes j = true := by
  have hall : allOnes.toNat = 2 ^ 64 - 1 := by decide
  rw [bitOf, hall, Nat.testBit_two_pow_sub_one, decide_eq_true hj]

/-! ## The least set bit -/

/-- the search for a set bit finds the least one -/
theorem trailingZeros_least {w : UInt64} (h : w ≠ 0) :
    bitOf w (trailingZeros w) = true ∧ trailingZeros w < 64 ∧ ∀ j < trailingZeros w, bitOf w j = false := by
  unfold trailingZeros
  cases hf : (List.range 64).find? fun j => bitOf w j with
  | none =>
    have hclear : ∀ j, w.toNat.testBit j = false := by
      intro j
      by_cases hj : j < 64
      · rw [List.find?_eq_none] at hf
        simpa [bitOf] using hf j (List.mem_range.2 hj)
      · exact Nat.testBit_lt_two_pow (w.toNat_lt.trans_le (Nat.pow_le_pow_right (by decide) (by omega)))
    exact absurd (UInt64.toNat_inj.mp (Nat.eq_of_testBit_eq (by simp [hclear]))) h
  | some i =>
    rw [List.find?_range_eq_some] at hf
    obtain ⟨hset, hlt, hleast⟩ := hf
    refine ⟨hset, List.mem_range.1 hlt, fun j hj => ?_⟩
    simpa using hleast j hj

/-- a number whose least set bit is `i` is odd after `i` halvings -/
theorem eq_two_pow_mul_odd {n i : ℕ} (hset : n.testBit i = true) (hleast : ∀ j < i, n.testBit j = false) :
    ∃ q, n = 2 ^ i * (2 * q + 1) := by
  have hlow : n % 2 ^ i = 0 := by
    apply Nat.eq_of_testBit_eq
    intro j
    by_cases hj : j < i <;> simp [Nat.testBit_mod_two_pow, hj, hleast]
  have hodd : n / 2 ^ i % 2 = 1 := by
    have hbit : (n / 2 ^ i).testBit 0 = true := by rw [Nat.testBit_div_two_pow, zero_add]; exact hset
    simpa [Nat.testBit_zero] using hbit
  refine ⟨n / 2 ^ i / 2, ?_⟩
  have hdecomp := Nat.div_add_mod n (2 ^ i)
  have hhalf : 2 * (n / 2 ^ i / 2) + 1 = n / 2 ^ i := by omega
  rw [hhalf]
  omega

/-- `w &&& (w - 1)` is `w` without its least bit -/
theorem bitOf_clearLowest {w : UInt64} (h : w ≠ 0) (j : ℕ) :
    bitOf (w &&& (w - 1)) j = (bitOf w j && decide (j ≠ trailingZeros w)) := by
  obtain ⟨hset, hlt, hleast⟩ := trailingZeros_least h
  obtain ⟨q, hq⟩ := eq_two_pow_mul_odd hset hleast
  generalize trailingZeros w = i at *
  have hpos : 0 < 2 ^ i := Nat.two_pow_pos i
  have hw : w.toNat = 2 ^ i * (2 * q + 1) + 0 := hq
  have hsub : (w - 1).toNat = 2 ^ i * (2 * q) + (2 ^ i - 1) := by
    rw [UInt64.toNat_sub_of_le _ _ (by rw [UInt64.le_iff_toNat_le, hq]; exact Nat.mul_pos hpos (Nat.succ_pos _)), hq, mul_add]
    have : (1 : UInt64).toNat = 1 := rfl
    omega
  rw [bitOf_and, bitOf, bitOf, hsub, hw, Nat.testBit_two_pow_mul_add _ hpos,
    Nat.testBit_two_pow_mul_add _ (Nat.sub_lt hpos one_pos)]
  rcases Nat.lt_trichotomy j i with hj | rfl | hj
  · simp [hj]
  · simp
  · obtain ⟨d, rfl⟩ := Nat.exists_eq_add_of_lt hj
    have hge : ¬ i + d + 1 < i := by omega
    have hd : i + d + 1 - i = d + 1 := by omega
    have hne : i + d + 1 ≠ i := by omega
    simp [hge, hd, hne, Nat.testBit_succ, Nat.mul_add_div]

theorem bitOf_lt {w : UInt64} {j : ℕ} (h : bitOf w j = true) : j < 64 := by
  by_contra hj
  have hlt : w.toNat < 2 ^ j := w.toNat_lt.trans_le (Nat.pow_le_pow_right (by decide) (by omega))
  rw [bitOf, Nat.testBit_lt_two_pow hlt] at h
  exact absurd h (by decide)

namespace Bitmap

/-! ## Single numbers -/

theorem contains_eq {b : Bitmap} {i : ℕ} {w : UInt64} (h : b.blocks[i / 64]? = some w) :
    b.contains i = bitOf w (i % 64) := by
  simp [contains, h]

theorem contains_lt {b : Bitmap} {i : ℕ} (h : b.contains i = true) : i / 64 < b.blocks.length := by
  by_contra hn
  simp [contains, List.getElem?_eq_none (Nat.le_of_not_lt hn)] at h

/-- one block replaced: the numbers in it are read off the new block, the others as before -/
theorem contains_set {b : Bitmap} {k : ℕ} (hk : k < b.blocks.length) (v : UInt64) (j : ℕ) :
    (Bitmap.mk (b.blocks.set k v)).contains j = if k = j / 64 then bitOf v (j % 64) else b.contains j := by
  unfold contains
  rw [List.getElem?_set]
  split_ifs <;> rfl

theorem contains_insert? {b b' : Bitmap} {i : ℕ} (h : b.insert? i = some b') (j : ℕ) :
    b'.contains j = (b.contains j || decide (i = j)) := by
  unfold insert? at h
  split at h
  · rename_i w hw
    split_ifs at h with hbit
    cases h
    have hk := (List.getElem?_eq_some_iff.1 hw).1
    have hi : i % 64 < 64 := Nat.mod_lt _ (by decide)
    rw [contains_set hk, bitOf_or, bitOf_bitMask hi]
    split_ifs with hij
    · have hsame : i % 64 = j % 64 ↔ i = j := by omega
      rw [contains_eq (hij ▸ hw), decide_eq_decide.2 hsame]
    · have hne : i ≠ j := fun he => hij (he ▸ rfl)
      simp [hne]
  · exact absurd h (by simp)

theorem contains_erase? {b b' : Bitmap} {i : ℕ} (h : b.erase? i = some b') (j : ℕ) :
    b'.contains j = (b.contains j && !decide (i = j)) := by
  unfold erase? at h
  split at h
  · rename_i w hw
    split_ifs at h with hbit
    cases h
    have hk := (List.getElem?_eq_some_iff.1 hw).1
    have hi : i % 64 < 64 := Nat.mod_lt _ (by decide)
    rw [contains_set hk, bitOf_and, bitOf_not _ (Nat.mod_lt _ (by decide)), bitOf_bitMask hi]
    split_ifs with hij
    · have hsame : i % 64 = j % 64 ↔ i = j := by omega
      rw [contains_eq (hij ▸ hw), decide_eq_decide.2 hsame]
    · have hne : i ≠ j := fun he => hij (he ▸ rfl)
      simp [hne]
  · exact absurd h (by simp)

theorem insert?_eq_some {b : Bitmap} {i : ℕ} (hroom : i / 64 < b.blocks.length) (hi : b.contains i = false) :
    ∃ b', b.insert? i = some b' ∧ b'.blocks.length = b.blocks.length := by
  have hw : b.blocks[i / 64]? = some b.blocks[i / 64] := List.getElem?_eq_getElem hroom
  rw [contains_eq hw] at hi
  simp [insert?, hw, hi]

theorem erase?_eq_some {b : Bitmap} {i : ℕ} (hi : b.contains i = true) :
    ∃ b', b.erase? i = some b' ∧ b'.blocks.length = b.blocks.length := by
  have hroom := contains_lt hi
  have hw : b.blocks[i / 64]? = some b.blocks[i / 64] := List.getElem?_eq_getElem hroom
  rw [contains_eq hw] at hi
  simp [erase?, hw, hi]

theorem erase?_length {b b' : Bitmap} {i : ℕ} (h : b.erase? i = some b') : b'.blocks.length = b.blocks.length := by
  unfold erase? at h
  split at h
  · split_ifs at h
    cases h
    exact List.length_set
  · cases h

theorem contains_empty (n i : ℕ) : (empty n).contains i = false := by
  unfold contains empty
  rw [List.getElem?_replicate]
  split_ifs <;> simp [bitOf]

/-! ## Searching -/

/-- what the search finds lies in a block that has the bit clear -/
theorem firstClearFrom_clear {start : ℕ} {ws : List UInt64} {i : ℕ} (h : firstClearFrom start ws = some i) :
    start ≤ i ∧ ∃ w, ws[(i - start) / 64]? = some w ∧ bitOf w ((i - start) % 64) = false := by
  induction ws generalizing start with
  | nil => simp [firstClearFrom] at h
  | cons w ws ih =>
    unfold firstClearFrom at h
    split_ifs at h with hw
    · obtain ⟨hle, v, hv, hbit⟩ := ih h
      have hdiv : (i - start) / 64 = (i - (start + 64)) / 64 + 1 := by omega
      have hmod : (i - start) % 64 = (i - (start + 64)) % 64 := by omega
      exact ⟨by omega, v, by rw [hdiv]; exact hv, by rw [hmod]; exact hbit⟩
    · cases h
      obtain ⟨hlt, hbit⟩ := trailingOnes_clear hw
      have hsub : start + trailingOnes w - start = trailingOnes w := by omega
      refine ⟨by omega, w, ?_, ?_⟩
      · rw [hsub, Nat.div_eq_of_lt hlt]; rfl
      · rw [hsub, Nat.mod_eq_of_lt hlt]; exact hbit

/-- the search passes no clear bit -/
theorem firstClearFrom_least {start j : ℕ} {ws : List UInt64} (hle : start ≤ j) (hroom : (j - start) / 64 < ws.length)
    (hj : ∀ i, firstClearFrom start ws = some i → j < i) :
    ∃ w, ws[(j - start) / 64]? = some w ∧ bitOf w ((j - start) % 64) = true := by
  induction ws generalizing start with
  | nil => simp at hroom
  | cons w ws ih =>
    have hmod : (j - start) % 64 < 64 := Nat.mod_lt _ (by decide)
    unfold firstClearFrom at hj
    by_cases hlt : j - start < 64
    · refine ⟨w, by rw [Nat.div_eq_of_lt hlt]; rfl, ?_⟩
      split_ifs at hj with hw
      · rw [hw]
        exact bitOf_allOnes hmod
      · have hbelow := hj _ rfl
        rw [Nat.mod_eq_of_lt hlt]
        exact trailingOnes_least (by omega) hlt
    · have hdiv : (j - start) / 64 = (j - (start + 64)) / 64 + 1 := by omega
      have hsame : (j - start) % 64 = (j - (start + 64)) % 64 := by omega
      rw [hdiv, List.length_cons] at hroom
      rw [hdiv, hsame, List.getElem?_cons_succ]
      split_ifs at hj with hw
      · exact ih (by omega) (by omega) hj
      · have hbelow := hj _ rfl
        have hclear := (trailingOnes_clear hw).1
        omega

/-- the number found is missing, and there is room for it -/
theorem firstClearFrom_missing {b : Bitmap} {i : ℕ} (h : firstClearFrom 0 b.blocks = some i) :
    i / 64 < b.blocks.length ∧ b.contains i = false := by
  obtain ⟨-, w, hw, hbit⟩ := firstClearFrom_clear h
  rw [Nat.sub_zero] at hw hbit
  exact ⟨(List.getElem?_eq_some_iff.1 hw).1, (contains_eq hw).trans hbit⟩

/-- a number that the search has passed is in the set -/
theorem contains_of_passed {b : Bitmap} {j : ℕ} (hroom : j / 64 < b.blocks.length)
    (hbelow : ∀ i, firstClearFrom 0 b.blocks = some i → j < i) : b.contains j = true := by
  obtain ⟨w, hw, hbit⟩ := firstClearFrom_least (Nat.zero_le j) hroom hbelow
  rw [Nat.sub_zero] at hw hbit
  exact (contains_eq hw).trans hbit

theorem firstClear_missing {b : Bitmap} {limit i : ℕ} (h : b.firstClear limit = some i) :
    i < limit ∧ i / 64 < b.blocks.length ∧ b.contains i = false := by
  obtain ⟨hfind, hlt⟩ := Option.filter_eq_some_iff.1 h
  exact ⟨of_decide_eq_true hlt, firstClearFrom_missing hfind⟩

/-- every number below the one found is in the set -/
theorem firstClear_least {b : Bitmap} {limit i j : ℕ} (h : b.firstClear limit = some i) (hj : j < i) :
    b.contains j = true := by
  obtain ⟨hfind, -⟩ := Option.filter_eq_some_iff.1 h
  have hroom := (firstClearFrom_missing hfind).1
  refine contains_of_passed (by omega) fun k hk => ?_
  rw [hfind] at hk
  cases hk
  exact hj

/-- no number is found exactly if all that there is room for are in the set -/
theorem firstClear_eq_none_iff {b : Bitmap} {limit : ℕ} (hroom : limit ≤ 64 * b.blocks.length) :
    b.firstClear limit = none ↔ ∀ i < limit, b.contains i = true := by
  constructor
  · intro h i hi
    rw [firstClear, Option.filter_eq_none_iff] at h
    refine contains_of_passed (by omega) fun k hk => ?_
    have hpast := h k hk
    rw [decide_eq_true_iff] at hpast
    omega
  · intro h
    cases hfind : b.firstClear limit with
    | none => rfl
    | some i =>
      obtain ⟨hlt, -, hclear⟩ := firstClear_missing hfind
      rw [h i hlt] at hclear
      cases hclear

/-! ## Listing -/

theorem contains_div {b : Bitmap} {k j : ℕ} {w : UInt64} (hw : b.blocks[k]? = some w) (hj : j < 64) :
    b.contains (k * 64 + j) = bitOf w j := by
  have hdiv : (k * 64 + j) / 64 = k := by omega
  have hmod : (k * 64 + j) % 64 = j := by omega
  rw [contains_eq (hdiv.symm ▸ hw), hmod]

namespace Cursor

variable {c c' : Cursor} {i : ℕ}

/-- number `i` is still to come: in the block entered last, or in a later one -/
def Holds (c : Cursor) (i : ℕ) : Prop :=
  (∃ j, bitOf c.current j = true ∧ i = (c.entered - 1) * 64 + j) ∨
    (c.entered * 64 ≤ i ∧ (Bitmap.mk c.blocks).contains i = true)

theorem holds_cursor {b : Bitmap} : b.cursor.Holds i ↔ b.contains i = true := by
  simp [Holds, cursor, bitOf]

/-- entering a block changes nothing of what is to come -/
theorem holds_enter {w : UInt64} (hzero : c.current = 0) (hw : c.blocks[c.entered]? = some w)
    (hprimed : w ≠ 0 → 0 < c.entered + 1) : Holds ⟨c.blocks, c.entered + 1, w, hprimed⟩ i ↔ c.Holds i := by
  have hnone : ∀ j, bitOf c.current j = false := by
    intro j
    rw [hzero]
    simp [bitOf]
  simp only [Holds, hnone, Bool.false_eq_true, false_and, exists_false, false_or, Nat.add_sub_cancel]
  constructor
  · rintro (⟨j, hj, rfl⟩ | ⟨hle, hin⟩)
    · exact ⟨by omega, (contains_div hw (bitOf_lt hj)).trans hj⟩
    · exact ⟨by omega, hin⟩
  · rintro ⟨hle, hin⟩
    by_cases hlt : i - c.entered * 64 < 64
    · have hi : i = c.entered * 64 + (i - c.entered * 64) := by omega
      refine Or.inl ⟨i - c.entered * 64, ?_, hi⟩
      rw [hi, contains_div hw hlt] at hin
      exact hin
    · exact Or.inr ⟨by omega, hin⟩

/-- past the last block nothing is to come -/
theorem not_holds_of_next? (h : c.next? = none) (i : ℕ) : ¬c.Holds i := by
  fun_induction next? c with
  | case1 c hzero hend =>
    rintro (⟨j, hj, -⟩ | ⟨hle, hin⟩)
    · rw [hzero] at hj
      simp [bitOf] at hj
    · have hroom := contains_lt hin
      rw [List.getElem?_eq_none_iff] at hend
      simp only at hroom
      omega
  | case2 c hzero w hw ih =>
    rw [← holds_enter hzero hw]
    exact ih h
  | case3 c hne => cases h

/-- The number that comes next is the least one to come, and all others are still to come after it. -/
theorem holds_of_next? (h : c.next? = some (i, c')) :
    (∀ j, c.Holds j ↔ j = i ∨ c'.Holds j) ∧ ∀ j, c'.Holds j → i < j := by
  fun_induction next? c with
  | case1 c hzero hend => cases h
  | case2 c hzero w hw ih =>
    obtain ⟨hall, hleast⟩ := ih h
    refine ⟨fun j => ?_, hleast⟩
    rw [← holds_enter hzero hw]
    exact hall j
  | case3 c hne =>
    cases h
    have hpos := c.primed hne
    obtain ⟨hset, hlt, hleast⟩ := trailingZeros_least hne
    simp only [Holds, bitOf_clearLowest hne, Bool.and_eq_true, decide_eq_true_eq]
    constructor
    · intro j
      constructor
      · rintro (⟨x, hx, rfl⟩ | hlater)
        · by_cases hfirst : x = trailingZeros c.current
          · exact Or.inl (by rw [hfirst])
          · exact Or.inr (Or.inl ⟨x, ⟨hx, hfirst⟩, rfl⟩)
        · exact Or.inr (Or.inr hlater)
      · rintro (rfl | ⟨x, ⟨hx, -⟩, rfl⟩ | hlater)
        · exact Or.inl ⟨_, hset, rfl⟩
        · exact Or.inl ⟨x, hx, rfl⟩
        · exact Or.inr hlater
    · rintro j (⟨x, ⟨hx, hnot⟩, rfl⟩ | ⟨hle, -⟩)
      · have hge : ¬x < trailingZeros c.current := by
          intro hbelow
          rw [hleast x hbelow] at hx
          cases hx
        omega
      · omega

theorem mem_toList : i ∈ c.toList ↔ c.Holds i := by
  fun_induction toList c with
  | case1 c hend => simp [not_holds_of_next? hend]
  | case2 c x c' hnext ih => rw [List.mem_cons, ih, (holds_of_next? hnext).1]

theorem toList_sorted (c : Cursor) : c.toList.Pairwise (· < ·) := by
  fun_induction toList c with
  | case1 c hend => exact List.Pairwise.nil
  | case2 c x c' hnext ih =>
    exact List.pairwise_cons.2 ⟨fun j hj => (holds_of_next? hnext).2 j (mem_toList.1 hj), ih⟩

end Cursor

/-- the list has exactly the numbers in the set -/
theorem mem_toList {b : Bitmap} {i : ℕ} : i ∈ b.toList ↔ b.contains i = true := by
  rw [toList, Cursor.mem_toList, Cursor.holds_cursor]

/-- the list ascends, so that it has no number twice -/
theorem toList_sorted (b : Bitmap) : b.toList.Pairwise (· < ·) := b.cursor.toList_sorted

theorem nodup_toList (b : Bitmap) : b.toList.Nodup := b.toList_sorted.imp Nat.ne_of_lt

end Bitmap
end NestedGuest
