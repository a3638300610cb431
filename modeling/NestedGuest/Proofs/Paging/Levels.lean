/-
Arithmetic of the levels of a page table. An address `a` lies in block `a / levelSize l` at level `l`, and the block of
`a` one level up has 512 blocks below it, one for each slot of a table.

A range is cut into chunks of one block each; a block meets the range exactly if it meets one of its chunks.
-/
import Mathlib.Tactic
import NestedGuest.Paging.PageTable

namespace NestedGuest

/-! ## Blocks and slots -/

theorem levelSize_zero : levelSize 0 = pageSize := rfl

theorem levelSize_succ (l : ℕ) : levelSize (l + 1) = levelSize l * entriesPerTable := rfl

theorem levelSize_pos (l : ℕ) : 0 < levelSize l := by
  induction l with
  | zero => decide
  | succ l ih => exact Nat.mul_pos ih (by decide)

theorem pageSize_dvd_levelSize (l : ℕ) : pageSize ∣ levelSize l := by
  induction l with
  | zero => exact dvd_rfl
  | succ l ih => exact ih.mul_right _

theorem levelSize_dvd {l m : ℕ} (h : l ≤ m) : levelSize l ∣ levelSize m := by
  induction m, h using Nat.le_induction with
  | base => exact dvd_rfl
  | succ m _ ih => exact ih.mul_right _

theorem levelSize_le {l m : ℕ} (h : l ≤ m) : levelSize l ≤ levelSize m :=
  Nat.le_of_dvd (levelSize_pos m) (levelSize_dvd h)

theorem div_levelSize_succ (a l : ℕ) : a / levelSize (l + 1) = a / levelSize l / entriesPerTable := by
  rw [levelSize_succ, Nat.div_div_eq_div_mul]

theorem slotOf_val (a l : ℕ) : (slotOf a l).val = a / levelSize l % entriesPerTable := rfl

/-- slot `s` of the table for block `k` of the level above translates block `k * 512 + s` -/
theorem block_eq_iff (a l k : ℕ) (s : Fin entriesPerTable) :
    a / levelSize l = k * entriesPerTable + s ↔ a / levelSize (l + 1) = k ∧ slotOf a l = s := by
  rw [div_levelSize_succ, Fin.ext_iff, slotOf_val]
  have hs := s.isLt
  simp only [entriesPerTable] at *
  omega

theorem block_of_slot (a l : ℕ) :
    a / levelSize l = a / levelSize (l + 1) * entriesPerTable + (slotOf a l : ℕ) :=
  (block_eq_iff a l _ _).2 ⟨rfl, rfl⟩

theorem slotOf_congr {a b l : ℕ} (h : a / levelSize l = b / levelSize l) : slotOf a l = slotOf b l := by
  rw [Fin.ext_iff, slotOf_val, slotOf_val, h]

/-- addresses of one block lie in one block of every higher level -/
theorem block_congr {a b l m : ℕ} (hlm : l ≤ m) (h : a / levelSize l = b / levelSize l) :
    a / levelSize m = b / levelSize m := by
  induction m, hlm using Nat.le_induction with
  | base => exact h
  | succ m _ ih => rw [div_levelSize_succ, div_levelSize_succ, ih]

/-- an aligned address is the first one of its block -/
theorem block_of_aligned {a b l : ℕ} (ha : a % levelSize l = 0) (hb : b / levelSize l = a / levelSize l) :
    a ≤ b ∧ b < a + levelSize l := by
  have hdecomp := Nat.div_add_mod a (levelSize l)
  have hdecomp' := Nat.div_add_mod b (levelSize l)
  have hmod := Nat.mod_lt b (levelSize_pos l)
  rw [hb] at hdecomp'
  omega

/-- the root translates the whole address space -/
theorem levelSize_above_root : levelSize (rootLevel + 1) = addressSpaceEnd := by
  decide

theorem block_root {a : ℕ} (ha : a < addressSpaceEnd) : a / levelSize (rootLevel + 1) = 0 :=
  Nat.div_eq_of_lt (levelSize_above_root ▸ ha)

/-- blocks do not reach past the end of the address space -/
theorem lt_addressSpaceEnd_of_block {a b l : ℕ} (hl : l ≤ rootLevel) (h : a / levelSize l = b / levelSize l)
    (ha : a < addressSpaceEnd) : b < addressSpaceEnd := by
  have hb : b / levelSize (rootLevel + 1) = 0 := by
    rw [← block_congr (Nat.le_succ_of_le hl) h]
    exact block_root ha
  rw [Nat.div_eq_zero_iff_lt (levelSize_pos _)] at hb
  exact levelSize_above_root ▸ hb

/-! ## Blocks that meet a range -/

/-- the block of `a` at level `l` shares an address with `[start, stop)` -/
def meets (l a start stop : ℕ) : Bool :=
  decide (max (a / levelSize l * levelSize l) start < min ((a / levelSize l + 1) * levelSize l) stop)

theorem mem_block_iff (b l k : ℕ) : b / levelSize l = k ↔ k * levelSize l ≤ b ∧ b < (k + 1) * levelSize l := by
  rw [Nat.div_eq_iff (levelSize_pos l), add_mul, one_mul]
  have := levelSize_pos l
  omega

theorem meets_iff {l a start stop : ℕ} :
    meets l a start stop = true ↔ ∃ b, start ≤ b ∧ b < stop ∧ b / levelSize l = a / levelSize l := by
  simp only [meets, decide_eq_true_eq, mem_block_iff]
  constructor
  · intro h
    exact ⟨max (a / levelSize l * levelSize l) start, by omega, by omega, by omega, by omega⟩
  · intro hx
    rcases hx with ⟨b, h1, h2, h3, h4⟩
    omega

theorem meets_self {l a start stop : ℕ} (h1 : start ≤ a) (h2 : a < stop) : meets l a start stop = true :=
  meets_iff.2 ⟨a, h1, h2, rfl⟩

/-! ## Chunks -/

theorem mem_chunks {level start stop : ℕ} {c : ℕ × ℕ} :
    c ∈ chunks level start stop ↔ start < stop ∧ ∃ k, start / levelSize level ≤ k ∧ k ≤ (stop - 1) / levelSize level ∧
      c = (max start (k * levelSize level), min stop ((k + 1) * levelSize level)) := by
  unfold chunks
  by_cases h : start < stop
  · simp only [h, if_true, List.mem_map, List.mem_range'_1, true_and]
    constructor
    · intro hx
      rcases hx with ⟨k, hk, rfl⟩
      exact ⟨k, hk.1, by omega, rfl⟩
    · intro hx
      rcases hx with ⟨k, h1, h2, rfl⟩
      exact ⟨k, ⟨h1, by omega⟩, rfl⟩
  · simp [h]

/-- a chunk is a non-empty part of the range and lies in the block of its first address -/
theorem chunk_bounds {level start stop : ℕ} {c : ℕ × ℕ} (h : c ∈ chunks level start stop) :
    start ≤ c.1 ∧ c.1 < c.2 ∧ c.2 ≤ stop ∧ ∀ b, c.1 ≤ b → b < c.2 → b / levelSize level = c.1 / levelSize level := by
  obtain ⟨hlt, k, h1, h2, rfl⟩ := mem_chunks.1 h
  have hpos := levelSize_pos level
  have hstart : start < (k + 1) * levelSize level :=
    (Nat.div_lt_iff_lt_mul hpos).1 (Nat.lt_succ_of_le h1)
  have hstop : k * levelSize level ≤ stop - 1 := (Nat.le_div_iff_mul_le hpos).1 h2
  have hk : k * levelSize level < (k + 1) * levelSize level := by rw [add_mul]; omega
  have hfirst : max start (k * levelSize level) / levelSize level = k :=
    (mem_block_iff _ _ _).2 ⟨by omega, by omega⟩
  refine ⟨by omega, by omega, by omega, fun b hb1 hb2 => ?_⟩
  rw [hfirst]
  exact (mem_block_iff _ _ _).2 ⟨by omega, by omega⟩

/-- every address of a range lies in one of its chunks -/
theorem exists_chunk (level : ℕ) {start stop b : ℕ} (h1 : start ≤ b) (h2 : b < stop) :
    ∃ c ∈ chunks level start stop, c.1 ≤ b ∧ b < c.2 := by
  have hb := (mem_block_iff b level _).1 rfl
  refine ⟨_, mem_chunks.2 ⟨by omega, b / levelSize level, ?_, ?_, rfl⟩, by simp only; omega, by simp only; omega⟩
  · exact Nat.div_le_div_right h1
  · exact Nat.div_le_div_right (by omega)

/-- a block meets a range exactly if it meets one of the chunks -/
theorem any_chunks_meets (level l a start stop : ℕ) :
    (chunks level start stop).any (fun c => meets l a c.1 c.2) = meets l a start stop := by
  rw [Bool.eq_iff_iff, List.any_eq_true, meets_iff]
  constructor
  · intro hx
    rcases hx with ⟨c, hc, hm⟩
    obtain ⟨b, h1, h2, hb⟩ := meets_iff.1 hm
    obtain ⟨h3, -, h4, -⟩ := chunk_bounds hc
    exact ⟨b, by omega, by omega, hb⟩
  · intro hx
    rcases hx with ⟨b, h1, h2, hb⟩
    obtain ⟨c, hc, h3, h4⟩ := exists_chunk level h1 h2
    exact ⟨c, hc, meets_iff.2 ⟨b, h3, h4, hb⟩⟩

end NestedGuest
