/-
Which leaves an insertion uses.

A leaf can map an address of a request if guest and target are congruent modulo its size and the block of the address
lies in the range (`Suits`). The insertion chooses from the position it has reached, with what is left of the request,
and knows nothing of the range as a whole. Where it could use no large leaf for an address it needed a table there, and
such a table is one that the range needs in any case (`needs`); no other table is there if no 1 GiB slot that meets the
range was in use.

- `insert_largest`: then every address of the range is translated by the largest leaf that suits it.
  Premise: the storage of the page table is aligned and ends at or below 2^52 (`StorageFits`).
-/
import NestedGuest.Proofs.Paging.Outcome

namespace NestedGuest

/-- the sizes that a leaf can have -/
def leafSizes : List ℕ := [pageSize, largePageSize, hugePageSize]

/-- a leaf of `s` bytes can map the block of `a` for a request that maps `[vm, vm + size)` to `[phys, …)` -/
structure Suits (vm phys size s a : ℕ) : Prop where
  congruent : vm ≡ phys [MOD s]
  first : vm ≤ a / s * s
  last : a / s * s + s ≤ vm + size

/-- `s` is the size of the largest leaf that suits `a` -/
structure IsLargest (vm phys size s a : ℕ) : Prop where
  offered : s ∈ leafSizes
  suits : Suits vm phys size s a
  largest : ∀ s' ∈ leafSizes, Suits vm phys size s' a → s' ≤ s

theorem mem_leafSizes {s : ℕ} : s ∈ leafSizes ↔ ∃ l ≤ maxLeafLevel, levelSize l = s := by
  constructor
  · intro hs
    simp only [leafSizes, List.mem_cons, List.not_mem_nil, or_false] at hs
    rcases hs with rfl | rfl | rfl
    · exact ⟨0, by decide, by decide⟩
    · exact ⟨1, by decide, by decide⟩
    · exact ⟨2, by decide, by decide⟩
  · intro hx
    obtain ⟨l, hl, rfl⟩ := hx
    simp only [maxLeafLevel] at hl
    interval_cases l <;> decide

namespace PageTable

variable {format : EntryFormat} {base : UInt64} {capacity : ℕ} {t : PageTable} {pos : UInt64 → Option (ℕ × ℕ)}
  {q r vm phys size b : UInt64} {va pa n a l m : ℕ} {e : UInt64} {flags : PageFlags}

/-- the target of a block is aligned exactly if guest and target are congruent -/
theorem aligned_iff_congruent {s k : ℕ} (hfirst : va ≤ k * s) : (pa + (k * s - va)) % s = 0 ↔ va ≡ pa [MOD s] := by
  have hzero : k * s ≡ 0 [MOD s] := Nat.mul_mod_left k s
  have hsum : pa + (k * s - va) + va = pa + k * s := by omega
  have hblock : pa + k * s ≡ pa [MOD s] := hzero.add_left pa
  constructor
  · intro h
    have hshift : pa + (k * s - va) + va ≡ 0 + va [MOD s] := (show pa + (k * s - va) ≡ 0 [MOD s] from h).add_right va
    rw [hsum, zero_add] at hshift
    exact hshift.symm.trans hblock
  · intro h
    have hshift : pa + (k * s - va) + va ≡ 0 + va [MOD s] := by
      rw [hsum, zero_add]
      exact hblock.trans h.symm
    exact hshift.add_right_cancel' va

/-- what suits an address is what can be put for its block -/
theorem admits_iff_suits (hl : l ≤ maxLeafLevel) :
    Admits va pa n l (a / levelSize l) ↔ Suits va pa n (levelSize l) a := by
  constructor
  · intro h
    refine ⟨(aligned_iff_congruent h.first).1 h.aligned, h.first, ?_⟩
    have hlast := h.last
    rwa [add_mul, one_mul] at hlast
  · intro h
    refine ⟨hl, h.first, ?_, (aligned_iff_congruent h.first).2 h.congruent⟩
    rw [add_mul, one_mul]
    exact h.last

/-! ## The slots of 1 GiB -/

/-- the entry of the 1 GiB slot of `a`, if the root leads to the table that holds it -/
def hugeSlot? (t : PageTable) (a : ℕ) : Option UInt64 :=
  match t.entry? t.rootPhys (slotOf a rootLevel) with
  | none => none
  | some e =>
    if t.format.present e && !t.format.large e then t.entry? (entryAddress e) (slotOf a maxLeafLevel) else none

/-- no 1 GiB slot that meets the range is in use -/
def HugeSlotsFree (t : PageTable) (vm size : UInt64) : Prop :=
  ∀ a, InRange vm size a → ∀ e, t.hugeSlot? a.toNat = some e → t.format.present e = false

/-- the table with the 1 GiB slot of an address is where it is placed -/
theorem hugeSlot?_of_place (h : t.Placed pos) (hr : pos r = some (maxLeafLevel, a / levelSize rootLevel)) :
    t.hugeSlot? a = t.entry? r (slotOf a maxLeafLevel) := by
  obtain ⟨q, hq, e, he, hpresent, hlarge, rfl⟩ := h.parent_of_place hr (by decide)
  obtain rfl | hlt := (h.parent q _ _ hq).imp_right And.left
  · have hentry : t.entry? t.rootPhys (slotOf a rootLevel) = some e := he
    simp only [hugeSlot?, hentry, hpresent, hlarge, Bool.not_false, Bool.and_self, if_true]
  · exact absurd hlt (lt_irrefl _)

namespace HugeSlotsFree

/-- no table is there below a 1 GiB slot that is not in use -/
theorem no_table (hfree : t.HugeSlotsFree vm size) (h : t.Placed pos) (hb : InRange vm size b) (hm : m < maxLeafLevel) :
    pos q ≠ some (m, b.toNat / levelSize (m + 1)) := by
  intro hq
  obtain ⟨r, p, hr, e, he, hpresent, -⟩ := h.above hq hm (by decide)
  have habsent := hfree b hb e ((hugeSlot?_of_place h hr).trans he)
  rw [hpresent] at habsent
  cases habsent

/-- nor is there a leaf -/
theorem no_leaf (hfree : t.HugeSlotsFree vm size) (h : t.Shaped pos) (hb : InRange vm size b) :
    t.leafOf b.toNat = none := by
  rw [Option.eq_none_iff_forall_ne_some]
  intro x hx
  obtain ⟨l, e⟩ := x
  obtain ⟨-, p, hp, he, hleaf⟩ := (leafOf_eq_some_iff h.toPlaced).1 hx
  obtain ⟨hlevel, -⟩ := h.tree.leaves l p _ e (h.inTree_iff.2 ⟨_, hp⟩) he hleaf
  rcases (Nat.le_of_lt_succ hlevel : l ≤ maxLeafLevel).lt_or_eq with hlt | rfl
  · exact hfree.no_table h.toPlaced hb hlt hp
  · have habsent := hfree b hb e ((hugeSlot?_of_place h.toPlaced hp).trans he)
    rw [hleaf.1] at habsent
    cases habsent

end HugeSlotsFree

/-! ## Main result -/

/-- a leaf lies in tables for every higher level -/
theorem mem_places_of_leaf (h : t.Placed pos) (hleaf : t.leafOf a = some (l, e)) (hlm : l ≤ m) (hm : m < rootLevel) :
    (m, a / levelSize (m + 1)) ∈ t.places := by
  obtain ⟨-, p, hp, -⟩ := (leafOf_eq_some_iff h).1 hleaf
  rw [h.mem_places_iff]
  rcases hlm.lt_or_eq with hlt | rfl
  · obtain ⟨r, -, hr, -⟩ := h.above hp hlt hm.le
    exact ⟨hm, r, hr⟩
  · exact ⟨hm, p, hp⟩

/-- The leaves of a range in which no 1 GiB slot was in use are the largest that suit. -/
theorem isLargest_of_insert (h : t.Shaped pos) (hfree : t.HugeSlotsFree vm size)
    (hok : (t.insert vm phys size flags).2 = .ok ()) (hb : InRange vm size b)
    (hleaf : (t.insert vm phys size flags).1.leafOf b.toNat = some (l, e)) :
    IsLargest vm.toNat phys.toNat size.toNat (levelSize l) b.toNat := by
  have hmap := mappable_of_insert hok
  have hnone : ∀ a, vm.toNat ≤ a → a < vm.toNat + size.toNat → t.leafOf a = none := by
    intro a hlow hhigh
    have hword := hmap.word hhigh
    rw [← hword] at hlow hhigh ⊢
    exact hfree.no_leaf h ⟨hlow, hhigh⟩
  obtain ⟨pos', hgrows, -⟩ := insert_needs hmap flags h hnone
  obtain ⟨k, -, hall, hins⟩ := insert_inserts ⟨pos, h.toPlaced⟩ vm phys size flags
  rw [hall hok] at hins
  have hadmits := admits_of_leaf hgrows.shaped hins (hnone _ hb.1 hb.2) hleaf le_rfl
  refine ⟨mem_leafSizes.2 ⟨l, hadmits.level, rfl⟩, (admits_iff_suits hadmits.level).1 hadmits, fun s hs hsuits => ?_⟩
  obtain ⟨m, hm, rfl⟩ := mem_leafSizes.1 hs
  refine levelSize_le ?_
  by_contra hgt
  -- the leaf has a table one level below `m`, which was not there before and which the request does not need
  obtain ⟨m, rfl⟩ := Nat.exists_eq_succ_of_ne_zero (show m ≠ 0 by omega)
  have hplace := mem_places_of_leaf hgrows.shaped.toPlaced hleaf (show l ≤ m by omega) (Nat.lt_succ_of_lt hm)
  rw [places_insert h hnone hok] at hplace
  rcases hplace with hold | ⟨-, -, hnot⟩
  · obtain ⟨-, q, hq⟩ := h.mem_places_iff.1 hold
    exact hfree.no_table h.toPlaced hb hm hq
  · exact hnot ((admits_iff_suits hm).2 hsuits)

/-- **An insertion uses the largest leaves.** In every page table that can be reached, after an insertion that succeeded
and that met no 1 GiB slot in use, every address of the range is translated, by a leaf of the largest size such that
guest and target are congruent modulo it and the block of the address lies in the range. -/
theorem insert_largest (hs : StorageFits base capacity) (h : Reachable format base capacity t)
    (hfree : t.HugeSlotsFree vm size) (hok : (t.insert vm phys size flags).2 = .ok ()) :
    ∀ a, InRange vm size a → ∃ tr, (t.insert vm phys size flags).1.lookup a = some tr ∧
      IsLargest vm.toNat phys.toNat size.toNat tr.leafSize a.toNat := by
  obtain ⟨⟨pos, hshaped⟩, -⟩ := h.shaped hs
  obtain ⟨k, -, hall, hins⟩ := insert_inserts (h.sound hs) vm phys size flags
  rw [hall hok] at hins
  intro a ha
  obtain ⟨l, e, hleaf, -⟩ := hins.mapped a.toNat ha.1 ha.2
  exact ⟨_, lookup_eq_some_iff.2 ⟨l, e, hleaf, rfl⟩, isLargest_of_insert hshaped hfree hok ha hleaf⟩

/-- a page table with one huge leaf, and tables left -/
def oneHuge : PageTable := ((withCapacity .ept 0x1000000 4).insert 0x40000000 0x80000000 0x40000000 .guestRam).1

/-- below the huge leaf, a page, a large leaf and another page are used for a range that begins and ends in the middle
of a large block -/
theorem insert_largest_oneHuge :
    StorageFits 0x1000000 4 ∧ Reachable .ept 0x1000000 4 oneHuge ∧ oneHuge.HugeSlotsFree 0x1ff000 0x202000 ∧
      (oneHuge.insert 0x1ff000 0x401ff000 0x202000 .guestRam).2 = .ok () ∧
      (∀ a, InRange 0x1ff000 0x202000 a →
        ∃ tr, (oneHuge.insert 0x1ff000 0x401ff000 0x202000 .guestRam).1.lookup a = some tr ∧
          IsLargest 0x1ff000 0x401ff000 0x202000 tr.leafSize a.toNat) ∧
      ((oneHuge.insert 0x1ff000 0x401ff000 0x202000 .guestRam).1.lookup 0x3ffabc).map (·.leafSize) =
        some largePageSize := by
  have hfits : StorageFits 0x1000000 4 := by decide
  have hreach : Reachable .ept 0x1000000 4 oneHuge := .insert _ _ _ _ .new
  have hok : (oneHuge.insert 0x1ff000 0x401ff000 0x202000 .guestRam).2 = .ok () := by decide +kernel
  have hfree : oneHuge.HugeSlotsFree 0x1ff000 0x202000 := by
    intro a ha e he
    have hlow : (0x1ff000 : ℕ) ≤ a.toNat := ha.1
    have hhigh : a.toNat < 0x1ff000 + 0x202000 := ha.2
    have hslots : slotOf a.toNat rootLevel = 0 ∧ slotOf a.toNat maxLeafLevel = 0 := by
      refine ⟨slotOf_congr (b := 0) ?_, slotOf_congr (b := 0) ?_⟩
      · exact Nat.div_eq_of_lt (by simp only [levelSize, pageSize, entriesPerTable, rootLevel]; omega)
      · exact Nat.div_eq_of_lt (by simp only [levelSize, pageSize, entriesPerTable, maxLeafLevel]; omega)
    rw [hugeSlot?, hslots.1, hslots.2] at he
    have hzero : oneHuge.hugeSlot? 0 = some 0 := by decide +kernel
    rw [hugeSlot?] at hzero
    rw [← Option.some.inj (hzero.symm.trans he)]
    exact EntryFormat.present_zero _
  exact ⟨hfits, hreach, hfree, hok, insert_largest hfits hreach hfree hok, by decide +kernel⟩

end PageTable
end NestedGuest
