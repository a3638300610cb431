/-
Insertions and removals change exactly the translations that they should, in every page table that any sequence of them
leads to.

- `insert_exact`: an insertion, refused or not, maps some first part of its request, all of it if it succeeds, and
  changes no other address and no translation that was there.
- `remove_exact`: a removal clears the leaves that meet its range and leaves every other translation as it was.

Premise: the storage is page-aligned and ends at or below `2 ^ 52` (`StorageFits`), so that entries can hold the
addresses of all tables.
-/
import NestedGuest.Proofs.Paging.Insertion
import NestedGuest.Proofs.Paging.Removal

namespace NestedGuest

/-- room for a root and `capacity` tables from `base` on, at addresses that an entry can hold -/
def StorageFits (base : UInt64) (capacity : ℕ) : Prop :=
  base.toNat % pageSize = 0 ∧ base.toNat + (capacity + 1) * pageSize ≤ physAddressEnd

instance (base : UInt64) (capacity : ℕ) : Decidable (StorageFits base capacity) := by
  unfold StorageFits; infer_instance

/-- the leaf that `tr` was read from is the aligned block of its size around `a`; it shares an address with
`[start, stop)` -/
def Translation.Meets (tr : Translation) (a start stop : ℕ) : Prop :=
  ∃ b, start ≤ b ∧ b < stop ∧ b / tr.leafSize = a / tr.leafSize

namespace PageTable

/-- the page tables that insertions and removals lead to, failed ones included -/
inductive Reachable (format : EntryFormat) (base : UInt64) (capacity : ℕ) : PageTable → Prop
  | new : Reachable format base capacity (withCapacity format base capacity)
  | insert {t : PageTable} (vm phys size : UInt64) (flags : PageFlags) (h : Reachable format base capacity t) :
      Reachable format base capacity (t.insert vm phys size flags).1
  | remove {t : PageTable} (vm size : UInt64) (h : Reachable format base capacity t) :
      Reachable format base capacity (t.remove vm size)

/-- Between `t` and `t'` the addresses `[vm, vm + k)` were mapped to `[phys, phys + k)`, and nothing else changed: what
was translated keeps its translation, and nothing outside became translated. -/
structure MapsExactly (t t' : PageTable) (vm phys k : ℕ) (flags : PageFlags) : Prop where
  mapped : ∀ a : UInt64, vm ≤ a.toNat → a.toNat < vm + k → ∃ tr, t'.lookup a = some tr ∧
    tr.phys = phys + (a.toNat - vm) ∧ tr.flags = t.format.flags (t.format.leaf 0 flags false)
  kept : ∀ (a : UInt64) (tr : Translation), t.lookup a = some tr → t'.lookup a = some tr
  only : ∀ a : UInt64, t.lookup a = none → t'.lookup a ≠ none → vm ≤ a.toNat ∧ a.toNat < vm + k

/-- Between `t` and `t'` the leaves that meet `[start, stop)` were cleared, and nothing else changed. -/
structure ClearsExactly (t t' : PageTable) (start stop : ℕ) : Prop where
  absent : ∀ a : UInt64, t.lookup a = none → t'.lookup a = none
  cleared : ∀ (a : UInt64) (tr : Translation), t.lookup a = some tr → tr.Meets a.toNat start stop → t'.lookup a = none
  kept : ∀ (a : UInt64) (tr : Translation), t.lookup a = some tr → ¬ tr.Meets a.toNat start stop →
    t'.lookup a = some tr

variable {t t' : PageTable} {format : EntryFormat} {base : UInt64} {capacity : ℕ}

/-! ## Lookups show leaves -/

/-- what a lookup reads from the leaf `x` of `a` -/
def translationOf (t : PageTable) (a : ℕ) (x : ℕ × UInt64) : Translation where
  phys := (entryAddress x.2).toNat + a % levelSize x.1
  leafSize := levelSize x.1
  flags := t.format.flags x.2

theorem lookup_eq (t : PageTable) (a : UInt64) : t.lookup a = (t.leafOf a.toNat).map (t.translationOf a.toNat) := by
  unfold lookup leafOf
  split_ifs <;> rfl

theorem lookup_eq_some_iff {a : UInt64} {tr : Translation} :
    t.lookup a = some tr ↔ ∃ l e, t.leafOf a.toNat = some (l, e) ∧ t.translationOf a.toNat (l, e) = tr := by
  rw [lookup_eq, Option.map_eq_some_iff, Prod.exists]

theorem lookup_eq_none_iff {a : UInt64} : t.lookup a = none ↔ t.leafOf a.toNat = none := by
  rw [lookup_eq, Option.map_eq_none_iff]

theorem translationOf_congr (h : t'.format = t.format) (a : ℕ) (x : ℕ × UInt64) :
    t'.translationOf a x = t.translationOf a x := by
  simp only [translationOf, h]

theorem Inserts.mapsExactly {vm phys k : ℕ} {flags : PageFlags} (h : Inserts t t' vm phys k flags) :
    MapsExactly t t' vm phys k flags where
  mapped a hle hlt := by
    obtain ⟨l, e, hleaf, hphys, hflags⟩ := h.mapped a.toNat hle hlt
    rw [h.same.format] at hflags
    refine ⟨_, lookup_eq_some_iff.2 ⟨l, e, hleaf, rfl⟩, hphys, ?_⟩
    rw [translationOf_congr h.same.format]
    exact hflags
  kept a tr htr := by
    obtain ⟨l, e, hleaf, rfl⟩ := lookup_eq_some_iff.1 htr
    exact lookup_eq_some_iff.2 ⟨l, e, h.kept _ _ hleaf, translationOf_congr h.same.format _ _⟩
  only a hnone hsome := by
    obtain ⟨tr, htr⟩ := Option.ne_none_iff_exists'.1 hsome
    obtain ⟨l, e, hleaf, -⟩ := lookup_eq_some_iff.1 htr
    exact h.inside _ l e (lookup_eq_none_iff.1 hnone) hleaf _ rfl

theorem Removes.clearsExactly {start stop : ℕ} (h : Removes t t' fun m a => meets m a start stop) :
    ClearsExactly t t' start stop where
  absent a hnone := by
    rw [lookup_eq_none_iff] at hnone ⊢
    rw [h.leafOf, hnone, Option.filter_none]
  cleared a tr htr hmeets := by
    obtain ⟨l, e, hleaf, rfl⟩ := lookup_eq_some_iff.1 htr
    have hm : meets l a.toNat start stop = true := meets_iff.2 hmeets
    rw [lookup_eq_none_iff, h.leafOf, hleaf, Option.filter_some, hm]
    rfl
  kept a tr htr hmeets := by
    obtain ⟨l, e, hleaf, rfl⟩ := lookup_eq_some_iff.1 htr
    have hm : meets l a.toNat start stop = false := by
      rw [Bool.eq_false_iff]
      exact fun hm => hmeets (meets_iff.1 hm)
    refine lookup_eq_some_iff.2 ⟨l, e, ?_, translationOf_congr h.same.format _ _⟩
    rw [h.leafOf, hleaf, Option.filter_some, hm]
    rfl

/-! ## Reachable page tables -/

/-- only the root is there at first -/
theorem placed_withCapacity (h : StorageFits base capacity) :
    (withCapacity format base capacity).Placed fun p => if p = base then some (rootLevel, 0) else none := by
  obtain ⟨halign, hend⟩ := h
  have hnodes : (base + UInt64.ofNat pageSize).toNat = base.toNat + pageSize := by
    rw [UInt64.toNat_add, UInt64.toNat_ofNat']
    simp only [pageSize, physAddressEnd] at *
    omega
  have hfits : (base + UInt64.ofNat pageSize).toNat + capacity * pageSize ≤ physAddressEnd := by
    rw [hnodes]
    simp only [pageSize, physAddressEnd] at *
    omega
  have htable : ∀ p, (withCapacity format base capacity).table? p =
      if p = base then some Table.zeroed else none := fun p => by
    simp only [table?, withCapacity, TableArray.get?_new]
  have hno : ∀ q s p, ¬ (withCapacity format base capacity).Refers q s p := by
    intro q s p hx
    rcases hx with ⟨e, he, hpresent, -⟩
    unfold entry? at he
    rw [htable q] at he
    split_ifs at he
    · simp only [Option.map_some, Option.some.injEq, Table.get_zeroed] at he
      rw [← he, EntryFormat.present_zero] at hpresent
      exact absurd hpresent (by decide)
    · cases he
  refine { nodes := TableArray.sound_new (hfits.trans (by decide)), base := hnodes, aligned := halign, fits := hfits,
           known := ?_, root := if_pos rfl, inj := ?_, child := ?_, parent := ?_ }
  · intro p
    rw [htable p]
    split_ifs <;> rfl
  · intro p q x hp hq
    split_ifs at hp hq with hpb hqb
    exact hpb.trans hqb.symm
  · intro q l k s p _ hr
    exact absurd hr (hno q s p)
  · intro p l k hp
    split_ifs at hp with hpb
    exact Or.inl hpb

theorem sound_withCapacity (h : StorageFits base capacity) : (withCapacity format base capacity).Sound :=
  ⟨_, placed_withCapacity h⟩

theorem rootEntry_withCapacity (s : Fin entriesPerTable) :
    PageTable.entry? (withCapacity format base capacity) base s = some 0 := by
  simp [PageTable.entry?, table?, withCapacity, Table.get_zeroed]

/-- nothing is translated at first -/
theorem leafOf_withCapacity (a : ℕ) : (withCapacity format base capacity).leafOf a = none := by
  unfold leafOf
  split_ifs
  · exact leafAt_of_absent (rootEntry_withCapacity _) (EntryFormat.present_zero _)
  · rfl

/-- some first part of any request is inserted, and all of it if it succeeds -/
theorem insert_inserts (h : t.Sound) (vm phys size : UInt64) (flags : PageFlags) :
    ∃ k ≤ size.toNat, ((t.insert vm phys size flags).2 = .ok () → k = size.toNat) ∧
      Inserts t (t.insert vm phys size flags).1 vm.toNat phys.toNat k flags := by
  unfold insert
  split_ifs with hcond
  · simp only [isPageAligned, Bool.and_eq_true, beq_iff_eq, decide_eq_true_eq] at hcond
    obtain ⟨⟨⟨⟨hvm, hphys⟩, hsize⟩, hlast⟩, hend⟩ := hcond
    exact insertLeaves_inserts h hvm hphys hsize hlast hend
  · refine ⟨0, Nat.zero_le _, fun hc => ?_, Inserts.refl h⟩
    exact absurd hc (by simp)

theorem Reachable.sound (hs : StorageFits base capacity) (h : Reachable format base capacity t) : t.Sound := by
  induction h with
  | new => exact sound_withCapacity hs
  | insert vm phys size flags _ ih =>
    obtain ⟨k, -, -, hins⟩ := insert_inserts ih vm phys size flags
    exact hins.sound
  | remove vm size _ ih => exact (remove_removes ih vm size).1

/-! ## Main results -/

/-- **Insertion is exact.** Whatever an insertion answers, a first part of its range, of `k` bytes, is mapped as asked,
and nothing else changed; a successful one maps its whole range. -/
theorem insert_exact (hs : StorageFits base capacity) (h : Reachable format base capacity t) (vm phys size : UInt64)
    (flags : PageFlags) :
    ∃ k ≤ size.toNat, ((t.insert vm phys size flags).2 = .ok () → k = size.toNat) ∧
      MapsExactly t (t.insert vm phys size flags).1 vm.toNat phys.toNat k flags := by
  obtain ⟨k, hk, hok, hins⟩ := insert_inserts (h.sound hs) vm phys size flags
  exact ⟨k, hk, hok, hins.mapsExactly⟩

/-- two tables, both taken by a leaf of 2 MiB for the addresses from 0 on -/
def twoTables : PageTable := ((withCapacity .hpt 0x1000000 2).insert 0 0x40000000 0x200000 .guestRam).1

theorem reachable_twoTables : Reachable .hpt 0x1000000 2 twoTables := .insert 0 0x40000000 0x200000 .guestRam .new

/-- a request that begins in the large leaf and runs out of tables behind it -/
theorem insert_exact_half_way :
    StorageFits 0x1000000 2 ∧ Reachable .hpt 0x1000000 2 twoTables ∧
    (twoTables.insert 0x1ff000 0x401ff000 0x3000 .guestRam).2 = .error .outOfTables ∧
    ∃ k ≤ 0x3000, ((twoTables.insert 0x1ff000 0x401ff000 0x3000 .guestRam).2 = .ok () → k = 0x3000) ∧
      MapsExactly twoTables (twoTables.insert 0x1ff000 0x401ff000 0x3000 .guestRam).1 0x1ff000 0x401ff000 k
        .guestRam := by
  have hfits : StorageFits 0x1000000 2 := by decide
  exact ⟨hfits, reachable_twoTables, by decide +kernel,
    insert_exact hfits reachable_twoTables 0x1ff000 0x401ff000 0x3000 .guestRam⟩

/-- **Removal is exact.** The leaves that meet the range, as far as it lies in the address space, are cleared as a whole,
and every other address keeps its translation. -/
theorem remove_exact (hs : StorageFits base capacity) (h : Reachable format base capacity t) (vm size : UInt64) :
    ClearsExactly t (t.remove vm size) vm.toNat
      (min (min (vm.toNat + size.toNat) (wordEnd - 1)) addressSpaceEnd) := by
  have hsat : min (min (vm.toNat + size.toNat) (wordEnd - 1)) addressSpaceEnd =
      min (vm.toNat + size.toNat) addressSpaceEnd := by
    simp only [wordEnd, addressSpaceEnd]
    omega
  rw [hsat]
  exact (remove_removes (h.sound hs) vm size).2.clearsExactly

/-- one byte is enough to clear the large leaf -/
theorem remove_exact_one_byte :
    StorageFits 0x1000000 2 ∧ Reachable .hpt 0x1000000 2 twoTables ∧
    twoTables.lookup 0x1000 = some ⟨0x40001000, 0x200000, .guestRam⟩ ∧
    (twoTables.remove 0x1ff001 1).lookup 0x1000 = none := by
  have hfits : StorageFits 0x1000000 2 := by decide
  have htr : twoTables.lookup 0x1000 = some ⟨0x40001000, 0x200000, .guestRam⟩ := by decide +kernel
  have hclears := remove_exact hfits reachable_twoTables 0x1ff001 1
  exact ⟨hfits, reachable_twoTables, htr, hclears.cleared 0x1000 _ htr ⟨0x1ff001, by decide, by decide, by decide⟩⟩

end PageTable
end NestedGuest
