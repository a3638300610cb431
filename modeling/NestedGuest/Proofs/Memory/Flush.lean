/-
What detaching and flushing leave of a guest memory.

`Flushed m m' fs` says what a client of the books relies on, whatever the operation: each flush names a region that was
there, a region that is gone was flushed, and one that stays although it was flushed is marked reserved.

- `reserveAndFlush_flushed`, `detachAt_flushed`, `detach?_flushed`: every operation that takes regions out of use is of
  this kind.
-/
import NestedGuest.Proofs.Memory.Regions

namespace NestedGuest.GuestMemory

variable {m m' m'' : GuestMemory} {fs gs : List Flush} {r : Region} {a : UInt64}

/-- `m'` is what `fs` leave of `m` -/
structure Flushed (m m' : GuestMemory) (fs : List Flush) : Prop where
  /-- no region is new or moved -/
  attrs : m'.attrs.Sublist m.attrs
  source : ∀ f ∈ fs, f.region ∈ m.attrs
  /-- a region that is gone was flushed -/
  kept : ∀ r ∈ m.regions, r ∈ m'.regions ∨ ∃ f ∈ fs, f.region = r.attr
  /-- a region that stays is as it was or reserved now -/
  origin : ∀ r ∈ m'.regions, ∃ s ∈ m.regions, s.attr = r.attr ∧ s.dataspace = r.dataspace ∧
    (s = r ∨ r.reserved = true)
  /-- a region that stays although it was flushed is reserved -/
  marked : ∀ r ∈ m'.regions, ∀ f ∈ fs, f.region = r.attr → r.reserved = true

namespace Flushed

theorem of_regions_eq (h : m'.regions = m.regions) : Flushed m m' [] where
  attrs := by
    rw [GuestMemory.attrs, GuestMemory.attrs, h]
  source := by simp
  kept r hr := Or.inl (h ▸ hr)
  origin r hr := ⟨r, h ▸ hr, rfl, rfl, Or.inl rfl⟩
  marked := by simp

theorem refl (m : GuestMemory) : Flushed m m [] := of_regions_eq rfl

theorem sound (h : Flushed m m' fs) (hs : m.Sound) : m'.Sound := hs.sublist h.attrs

/-- an unreserved region that stays is an old one that was not flushed -/
theorem unreserved (h : Flushed m m' fs) (hr : r ∈ m'.regions) (hres : r.reserved = false) :
    r ∈ m.regions ∧ ∀ f ∈ fs, f.region ≠ r.attr := by
  refine ⟨?_, fun f hf hfr => ?_⟩
  · obtain ⟨s, hs, -, -, rfl | hmarked⟩ := h.origin r hr
    · exact hs
    · rw [hres] at hmarked; cases hmarked
  · have hmarked := h.marked r hr f hf hfr
    rw [hres] at hmarked; cases hmarked

theorem trans (h : Flushed m m' fs) (h' : Flushed m' m'' gs) : Flushed m m'' (fs ++ gs) where
  attrs := h'.attrs.trans h.attrs
  source f hf := by
    rcases List.mem_append.1 hf with hf | hf
    · exact h.source f hf
    · exact h.attrs.subset (h'.source f hf)
  kept r hr := by
    rcases h.kept r hr with hr' | ⟨f, hf, hfr⟩
    · rcases h'.kept r hr' with hr'' | ⟨f, hf, hfr⟩
      · exact Or.inl hr''
      · exact Or.inr ⟨f, List.mem_append_right _ hf, hfr⟩
    · exact Or.inr ⟨f, List.mem_append_left _ hf, hfr⟩
  origin r hr := by
    obtain ⟨s, hs, hattr, hds, hsame⟩ := h'.origin r hr
    obtain ⟨q, hq, hattr', hds', hsame'⟩ := h.origin s hs
    refine ⟨q, hq, hattr'.trans hattr, hds'.trans hds, ?_⟩
    rcases hsame with rfl | hres
    · exact hsame'
    · exact Or.inr hres
  marked r hr f hf hfr := by
    rcases List.mem_append.1 hf with hf | hf
    · obtain ⟨s, hs, hattr, -, rfl | hres⟩ := h'.origin r hr
      · exact h.marked s hs f hf hfr
      · exact hres
    · exact h'.marked r hr f hf hfr

/-- regions that were flushed may be dropped -/
theorem filter (h : Flushed m m' fs) (p : Region → Bool) (hm : m''.regions = m'.regions.filter p)
    (hp : ∀ r ∈ m.regions, p r = false → ∃ f ∈ fs, f.region = r.attr) : Flushed m m'' fs where
  attrs := by
    rw [GuestMemory.attrs, hm]
    exact (List.filter_sublist.map _).trans h.attrs
  source := h.source
  kept r hr := by
    rcases h.kept r hr with hr' | hf
    · cases hpr : p r with
      | true => exact Or.inl (hm ▸ List.mem_filter.2 ⟨hr', hpr⟩)
      | false => exact Or.inr (hp r hr hpr)
    · exact Or.inr hf
  origin r hr := h.origin r (List.filter_subset_self _ (hm ▸ hr))
  marked r hr := h.marked r (List.filter_subset_self _ (hm ▸ hr))

end Flushed

/-! ## The operations -/

/-- marks a region reserved if it begins at `base` -/
def markAt (base : UInt64) (s : Region) : Region := if s.attr.base = base then { s with reserved := true } else s

theorem markAt_attr (base : UInt64) (s : Region) : (markAt base s).attr = s.attr := by
  unfold markAt
  split_ifs <;> rfl

theorem markAt_dataspace (base : UInt64) (s : Region) : (markAt base s).dataspace = s.dataspace := by
  unfold markAt
  split_ifs <;> rfl

theorem reserveAndFlush_of_none (h : m.regionContaining a = none) : m.reserveAndFlush a = (m, none) := by
  unfold reserveAndFlush
  rw [h]

theorem reserveAndFlush_of_region (h : m.regionContaining a = some r) :
    m.reserveAndFlush a =
      ({ m with regions := m.regions.map (markAt r.attr.base) }, some ⟨r.attr, r.dataspace, !r.reserved⟩) := by
  unfold reserveAndFlush
  rw [h]
  rfl

theorem reserveAndFlush_flushed (hs : m.Sound) (a : UInt64) :
    Flushed m (m.reserveAndFlush a).1 (m.reserveAndFlush a).2.toList := by
  cases hreg : m.regionContaining a with
  | none =>
    rw [reserveAndFlush_of_none hreg]
    exact Flushed.refl m
  | some r =>
    rw [reserveAndFlush_of_region hreg]
    have hr := ((regionContaining_eq_some_iff hs).1 hreg).1
    have hattrs : (m.regions.map (markAt r.attr.base)).map Region.attr = m.regions.map Region.attr := by
      rw [List.map_map]
      exact List.map_congr_left fun s _ => markAt_attr _ s
    refine ⟨?_, ?_, fun s hsr => ?_, fun s hsr => ?_, fun s hsr f hf hfs => ?_⟩
    · simp only [attrs, hattrs]
      exact List.Sublist.refl _
    · simpa using mem_attrs hr
    · by_cases hbase : s.attr.base = r.attr.base
      · obtain rfl := hs.eq_of_base_eq hsr hr hbase
        exact Or.inr ⟨_, List.mem_singleton_self _, rfl⟩
      · refine Or.inl (List.mem_map.2 ⟨s, hsr, ?_⟩)
        rw [markAt, if_neg hbase]
    · obtain ⟨q, hq, rfl⟩ := List.mem_map.1 hsr
      refine ⟨q, hq, (markAt_attr _ q).symm, (markAt_dataspace _ q).symm, ?_⟩
      unfold markAt
      split_ifs
      · exact Or.inr rfl
      · exact Or.inl rfl
    · obtain ⟨q, hq, rfl⟩ := List.mem_map.1 hsr
      obtain rfl := List.mem_singleton.1 hf
      rw [markAt_attr] at hfs
      rw [markAt, if_pos (congrArg RegionAttr.base hfs).symm]

theorem releaseMetadata_regions (m : GuestMemory) : m.releaseMetadata.regions = m.regions := by
  unfold releaseMetadata
  split_ifs <;> rfl

theorem detachAt_of_none (h : m.regionContaining a = none) : m.detachAt a = (m, none) := by
  unfold detachAt
  rw [h]

theorem detachAt_flushed (hs : m.Sound) (a : UInt64) : Flushed m (m.detachAt a).1 (m.detachAt a).2.toList := by
  cases hreg : m.regionContaining a with
  | none =>
    rw [detachAt_of_none hreg]
    exact Flushed.refl m
  | some r =>
    have hr := ((regionContaining_eq_some_iff hs).1 hreg).1
    have hflush := reserveAndFlush_flushed hs r.attr.base
    simp only [detachAt, hreg]
    refine hflush.filter (fun s => decide (s.attr.base ≠ r.attr.base)) (releaseMetadata_regions _) fun s hsr hsb => ?_
    obtain rfl := hs.eq_of_base_eq hsr hr (by simpa using hsb)
    rw [reserveAndFlush_of_region (hs.regionContaining_base hr)]
    exact ⟨_, List.mem_singleton_self _, rfl⟩

theorem detachWalk_flushed (hs : m.Sound) (last a : ℕ) :
    Flushed m (m.detachWalk last a).1 (m.detachWalk last a).2 := by
  fun_induction detachWalk m last a with
  | case1 m a hle next m1 flush hdetach hlt m2 flushes hwalk ih =>
    have hfirst := detachAt_flushed hs (UInt64.ofNat a)
    rw [hdetach] at hfirst
    have hrest := ih (hfirst.sound hs)
    rw [hwalk] at hrest
    exact hfirst.trans hrest
  | case2 m a hle next m1 flush hdetach hlt =>
    have hfirst := detachAt_flushed hs (UInt64.ofNat a)
    rwa [hdetach] at hfirst
  | case3 m a hle => exact Flushed.refl m

theorem detach?_flushed (hs : m.Sound) {guest size : UInt64} (h : m.detach? guest size = some (m', fs)) :
    Flushed m m' fs := by
  unfold detach? at h
  split_ifs at h
  have hwalk := detachWalk_flushed hs (guest.toNat + (size.toNat - 1)) guest.toNat
  rwa [Option.some.inj h] at hwalk

end NestedGuest.GuestMemory
