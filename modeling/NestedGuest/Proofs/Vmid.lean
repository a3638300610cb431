/-
Who has which identity. An identity is handed out only while it is free and no smaller one is (`alloc?_least`), and only
its holder can make it free again: `VmidAllocator.Others id` is what all others do, and it never frees `id`. What holds
of an allocator at all times is `VmidAllocator.Sound`; it has no identity left just when all are taken. The identities
that guests have are a finite set (`given`), and each operation is one on that set.
-/
import NestedGuest.Proofs.Bitmap.Members
import NestedGuest.World

namespace NestedGuest

namespace VmidAllocator

variable {a b : VmidAllocator} {id : ℕ}

/-! ## Single operations -/

/-- identity 0 is taken from the start -/
theorem isAllocated_new : new.isAllocated 0 = true := by decide

/-- the least slot that is clear is found and set -/
theorem alloc?_slots (h : a.alloc? = some (id, b)) :
    a.slots.firstClear vmidSlots = some id ∧ a.slots.insert? id = some b.slots := by
  obtain ⟨found, hfound, heq⟩ := Option.map_eq_some_iff.1 h
  obtain ⟨rfl, rfl⟩ := Prod.mk.inj heq
  obtain ⟨-, hroom, hclear⟩ := Bitmap.firstClear_missing hfound
  obtain ⟨slots, hslots, -⟩ := Bitmap.insert?_eq_some hroom hclear
  exact ⟨hfound, by rw [hslots, Option.getD_some]⟩

/-- the identity handed out was free, and is the only one that was taken -/
theorem alloc?_eq_some (h : a.alloc? = some (id, b)) :
    a.isAllocated id = false ∧ ∀ i, b.isAllocated i = (a.isAllocated i || decide (id = i)) := by
  obtain ⟨hfound, hslots⟩ := alloc?_slots h
  exact ⟨(Bitmap.firstClear_missing hfound).2.2, Bitmap.contains_insert? hslots⟩

/-- an identity that is given back is free, apart from 0 -/
theorem isAllocated_free (a : VmidAllocator) (id i : ℕ) :
    (a.free id).1.isAllocated i = (a.isAllocated i && (decide (id = 0) || !decide (id = i))) := by
  unfold free
  split_ifs with hzero
  · simp [hzero]
  cases herase : a.slots.erase? id with
  | some slots => simpa [isAllocated, hzero] using Bitmap.contains_erase? herase i
  | none =>
    have hfree : a.isAllocated id = false := by
      by_contra htaken
      obtain ⟨slots, hslots, -⟩ := Bitmap.erase?_eq_some (Bool.eq_true_of_not_eq_false htaken)
      rw [herase] at hslots
      cases hslots
    by_cases hi : id = i
    · subst hi
      simp [hfree]
    · simp [hi]

/-- an identity that is handed out has room in a byte -/
theorem alloc?_isByte (h : a.alloc? = some (id, b)) : isByte id = true :=
  decide_eq_true (Bitmap.firstClear_missing (alloc?_slots h).1).1

/-- the identity handed out is the least that was free -/
theorem alloc?_least (h : a.alloc? = some (id, b)) {i : ℕ} (hi : i < id) : a.isAllocated i = true :=
  Bitmap.firstClear_least (alloc?_slots h).1 hi

/-! ## The set of identities taken -/

/-- room for all identities, of which 0 is taken -/
structure Sound (a : VmidAllocator) : Prop where
  room : 64 * a.slots.blocks.length = vmidSlots
  zero : a.isAllocated 0 = true

theorem sound_new : new.Sound := ⟨by decide, isAllocated_new⟩

theorem Sound.alloc? (h : a.Sound) (halloc : a.alloc? = some (id, b)) : b.Sound where
  room := (Bitmap.room_insert? (alloc?_slots halloc).2).trans h.room
  zero := by rw [(alloc?_eq_some halloc).2, h.zero, Bool.true_or]

theorem Sound.free (h : a.Sound) (id : ℕ) : (a.free id).1.Sound := by
  refine ⟨?_, by simp [isAllocated_free, h.zero]⟩
  unfold VmidAllocator.free
  split_ifs
  · exact h.room
  cases herase : a.slots.erase? id with
  | none => exact h.room
  | some slots => exact (Bitmap.room_erase? herase).trans h.room

/-- an identity is a small number -/
theorem Sound.lt (h : a.Sound) (hid : a.isAllocated id = true) : id < vmidSlots := by
  have hblock := Bitmap.contains_lt hid
  have hroom := h.room
  omega

/-- no identity is handed out exactly if all are taken -/
theorem Sound.alloc?_eq_none_iff (h : a.Sound) :
    a.alloc? = none ↔ ∀ id < vmidSlots, a.isAllocated id = true := by
  rw [VmidAllocator.alloc?, Option.map_eq_none_iff]
  exact Bitmap.firstClear_eq_none_iff h.room.ge

/-! ## The set that guests have -/

/-- the identities that a guest may have -/
def guestIds : Finset ℕ := Finset.Icc 1 255

/-- the identities that guests have -/
def given (a : VmidAllocator) : Finset ℕ := a.slots.members.erase 0

theorem mem_given : id ∈ a.given ↔ a.isAllocated id = true ∧ id ≠ 0 := by
  rw [given, Finset.mem_erase, Bitmap.mem_members, and_comm]
  rfl

theorem isAllocated_new_iff : new.isAllocated id = true ↔ id = 0 := by
  have hfree : ∀ i < vmidSlots, new.isAllocated i = true → i = 0 := by decide +kernel
  constructor
  · intro hid
    exact hfree id (sound_new.lt hid) hid
  · rintro rfl
    exact isAllocated_new

theorem given_new : new.given = ∅ := by
  ext id
  simp [mem_given, isAllocated_new_iff]

/-- giving back an identity that no guest has changes nothing -/
theorem free_of_notMem_given (h : id ∉ a.given) : (a.free id).1 = a := by
  unfold free
  split_ifs with hzero
  · rfl
  · rw [given, Finset.mem_erase, ← Bitmap.erase?_isSome_iff] at h
    cases herase : a.slots.erase? id with
    | none => rfl
    | some slots => exact absurd ⟨hzero, by rw [herase, Option.isSome_some]⟩ h

theorem given_free (a : VmidAllocator) (id : ℕ) : (a.free id).1.given = a.given.erase id := by
  by_cases h : id ∈ a.given
  · obtain ⟨hne, hin⟩ := Finset.mem_erase.1 h
    obtain ⟨slots, hslots⟩ := Option.isSome_iff_exists.1 (Bitmap.erase?_isSome_iff.2 hin)
    rw [free, if_neg hne, hslots]
    calc (VmidAllocator.mk slots).given = (a.slots.members.erase id).erase 0 := by
          rw [given, Bitmap.members_erase? hslots]
      _ = a.given.erase id := Finset.erase_right_comm
  · rw [free_of_notMem_given h, Finset.erase_eq_of_notMem h]

namespace Sound

theorem isAllocated_iff (h : a.Sound) : a.isAllocated id = true ↔ id = 0 ∨ id ∈ a.given := by
  rw [mem_given]
  constructor
  · intro hid
    exact or_iff_not_imp_left.2 fun hne => ⟨hid, hne⟩
  · rintro (rfl | hid)
    · exact h.zero
    · exact hid.1

theorem given_subset (h : a.Sound) : a.given ⊆ guestIds := by
  intro id hid
  obtain ⟨htaken, hne⟩ := mem_given.1 hid
  have hlt := h.lt htaken
  simp only [vmidSlots] at hlt
  exact Finset.mem_Icc.2 ⟨Nat.one_le_iff_ne_zero.2 hne, Nat.le_of_lt_succ hlt⟩

theorem given_alloc? (h : a.Sound) (halloc : a.alloc? = some (id, b)) : b.given = insert id a.given := by
  have hne : id ≠ 0 := by
    rintro rfl
    exact absurd h.zero (by simp [(alloc?_eq_some halloc).1])
  rw [given, Bitmap.members_insert? (alloc?_slots halloc).2, Finset.erase_insert_of_ne hne, given]

/-- the least identity that a guest may have and none has -/
theorem isLeast_alloc? (h : a.Sound) (halloc : a.alloc? = some (id, b)) :
    IsLeast {i | i ∈ guestIds ∧ i ∉ a.given} id := by
  have hmem : id ∈ b.given := by
    rw [h.given_alloc? halloc]
    exact Finset.mem_insert_self id a.given
  have hfree := (alloc?_eq_some halloc).1
  refine ⟨⟨(h.alloc? halloc).given_subset hmem, ?_⟩, ?_⟩
  · rw [mem_given, hfree]
    exact fun htaken => absurd htaken.1 Bool.false_ne_true
  · rintro i ⟨hi, hnot⟩
    by_contra hlt
    have hpos := (Finset.mem_Icc.1 hi).1
    exact hnot (mem_given.2 ⟨alloc?_least halloc (Nat.lt_of_not_le hlt), Nat.one_le_iff_ne_zero.1 hpos⟩)

theorem alloc?_eq_none_iff_given (h : a.Sound) : a.alloc? = none ↔ a.given = guestIds := by
  rw [h.alloc?_eq_none_iff]
  constructor
  · intro hall
    refine Finset.Subset.antisymm h.given_subset fun id hid => ?_
    obtain ⟨hlow, hhigh⟩ := Finset.mem_Icc.1 hid
    exact mem_given.2 ⟨hall id (Nat.lt_succ_of_le hhigh), Nat.one_le_iff_ne_zero.1 hlow⟩
  · intro hfull id hid
    rw [h.isAllocated_iff, hfull]
    rcases Nat.eq_zero_or_pos id with hzero | hpos
    · exact Or.inl hzero
    · exact Or.inr (Finset.mem_Icc.2 ⟨hpos, Nat.le_of_lt_succ hid⟩)

theorem allocated_eq (h : a.Sound) : a.allocated = a.given.sort := by
  have hset : a.allocated.toFinset = a.given := by
    ext id
    simp only [allocated, List.mem_toFinset, List.mem_filter, Bitmap.mem_toList, decide_eq_true_iff, isByte]
    rw [mem_given]
    exact and_iff_left_of_imp fun hid => h.lt hid.1
  have hnodup : a.allocated.Nodup := (a.slots.nodup_toList.filter _).filter _
  have hsorted : a.allocated.Pairwise (· ≤ ·) := ((a.slots.toList_sorted.filter _).filter _).imp Nat.le_of_lt
  rw [← hset]
  exact ((List.toFinset_sort _ hnodup).2 hsorted).symm

end Sound

/-! ## The other holders -/

/-- what happens to the identities while the holder of `id` does nothing -/
inductive Others (id : ℕ) (a : VmidAllocator) : VmidAllocator → Prop
  | refl : Others id a a
  | alloc {b c : VmidAllocator} {j : ℕ} (h : Others id a b) (halloc : b.alloc? = some (j, c)) : Others id a c
  | free {b : VmidAllocator} {j : ℕ} (h : Others id a b) (hj : j ≠ id) : Others id a (b.free j).1

/-- an identity stays taken while its holder does nothing -/
theorem Others.isAllocated (h : Others id a b) (ha : a.isAllocated id = true) : b.isAllocated id = true := by
  induction h with
  | refl => exact ha
  | alloc _ halloc ih => rw [(alloc?_eq_some halloc).2, ih, Bool.true_or]
  | free _ hj ih => simp [isAllocated_free, ih, hj]

end VmidAllocator
end NestedGuest
