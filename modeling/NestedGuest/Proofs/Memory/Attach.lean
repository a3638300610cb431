/-
What an accepted attach request comes to.

Either the window lies in a region of the same dataspace and is mapped once more (`place_eq_again`), or it meets no
region and becomes one (`place_eq_fresh`). A refused request has no effect, so nothing more is said about it.
-/
import NestedGuest.Proofs.Memory.Regions

namespace NestedGuest

variable {ds : Dataspace} {guest offset : UInt64} {attr : AttachAttr} {mapping : Mapping}

/-! ## The window -/

/-- a dataspace has a window from every offset within it, and from no other -/
theorem window_eq_ok_iff {dsSize offset size o n : UInt64} :
    window dsSize offset size = .ok (o, n) ↔ offset.toNat < dsSize.toNat ∧ o = offset ∧
      n.toNat = if size = 0 then dsSize.toNat - offset.toNat else min size.toNat (dsSize.toNat - offset.toNat) := by
  by_cases hle : dsSize ≤ offset
  · rw [window, if_pos hle]
    rw [UInt64.le_iff_toNat_le] at hle
    exact ⟨fun h => (by cases h), fun h => absurd h.1 (Nat.not_lt.2 hle)⟩
  · have hlt : offset.toNat < dsSize.toNat := by
      rw [UInt64.le_iff_toNat_le] at hle
      omega
    have hrest : (dsSize - offset).toNat = dsSize.toNat - offset.toNat :=
      UInt64.toNat_sub_of_le _ _ (UInt64.le_iff_toNat_le.2 hlt.le)
    have hsize : (if size = 0 then dsSize - offset else min size (dsSize - offset)).toNat =
        if size = 0 then dsSize.toNat - offset.toNat else min size.toNat (dsSize.toNat - offset.toNat) := by
      split_ifs
      · exact hrest
      · rw [← hrest]
        change (if size ≤ dsSize - offset then size else dsSize - offset).toNat = _
        split_ifs with hcut
        · exact (Nat.min_eq_left (UInt64.le_iff_toNat_le.1 hcut)).symm
        · exact (Nat.min_eq_right (Nat.le_of_not_le fun h => hcut (UInt64.le_iff_toNat_le.2 h))).symm
    rw [window, if_neg hle]
    simp only [Except.ok.injEq, Prod.mk.injEq]
    rw [← hsize, UInt64.toNat_inj]
    exact ⟨fun h => ⟨hlt, h.1.symm, h.2.symm⟩, fun h => ⟨h.2.1.symm, h.2.2.symm⟩⟩

theorem window_eq_ok {dsSize size o n : UInt64} (h : window dsSize offset size = .ok (o, n)) :
    o = offset ∧ 0 < n.toNat := by
  obtain ⟨hlt, ho, hn⟩ := window_eq_ok_iff.1 h
  refine ⟨ho, ?_⟩
  rw [hn]
  split_ifs with hzero
  · omega
  · have hpos : 0 < size.toNat := Nat.pos_of_ne_zero fun h0 => hzero (UInt64.toNat_inj.mp h0)
    omega

/-- the window selected is not empty, and its host addresses are those of the dataspace from the offset on -/
theorem select?_eq_some (h : select? ds guest attr = some (offset, mapping)) :
    offset = attr.offset ∧ mapping.guest = guest ∧ 0 < mapping.size.toNat ∧
      mapping.host.toNat = ds.phys.toNat + attr.offset.toNat := by
  unfold select? at h
  split_ifs at h
  split at h
  · cases h
  · rename_i o n hwindow
    split_ifs at h with hfits
    cases h
    obtain ⟨rfl, hpos⟩ := window_eq_ok hwindow
    refine ⟨rfl, rfl, hpos, ?_⟩
    simp only [wordEnd] at hfits
    rw [UInt64.toNat_add]
    omega

namespace GuestMemory

/-- `m'` is `m` with the new region `r`, which is the window `mapping` of `ds` from `offset` on and meets no other -/
structure Registers (m m' : GuestMemory) (ds : Dataspace) (offset : UInt64) (mapping : Mapping) (r : Region) : Prop where
  regions : m'.regions = insertRegion r m.regions
  dataspace : r.dataspace = ds
  base : r.attr.base = mapping.guest
  size : r.attr.size = mapping.size
  offset : r.attr.offset = offset
  nonempty : 0 < r.attr.size.toNat
  free : ∀ s ∈ m.regions, s.attr.stop ≤ r.attr.base.toNat ∨ r.attr.stop ≤ s.attr.base.toNat

variable {m m' : GuestMemory} {r : Region}

theorem Registers.sound (h : Registers m m' ds offset mapping r) (hs : m.Sound) : m'.Sound :=
  hs.insertRegion h.nonempty h.free h.regions

theorem Registers.mem (h : Registers m m' ds offset mapping r) {s : Region} :
    s ∈ m'.regions ↔ s = r ∨ s ∈ m.regions := by
  rw [h.regions, mem_insertRegion]

/-- a region that was there is not the new one -/
theorem Registers.attr_ne (h : Registers m m' ds offset mapping r) (hs : m.Sound) {s : Region} (hsr : s ∈ m.regions) :
    s.attr ≠ r.attr := by
  intro heq
  have hlt := hs.base_lt_stop hsr
  have hfree := h.free s hsr
  rw [heq] at hlt hfree
  omega

theorem reserveMetadata_regions (h : m.reserveMetadata = .ok m') : m'.regions = m.regions := by
  unfold reserveMetadata at h
  split_ifs at h
  · cases h; rfl
  · split at h
    · cases h
    · cases h; rfl

theorem place_eq_again (hs : m.Sound) (h : m.place ds guest attr = .ok (.again mapping)) :
    select? ds guest attr = some (attr.offset, mapping) ∧
      ∃ r ∈ m.regions, r.dataspace.cap = ds.cap ∧ r.attr.base.toNat ≤ guest.toNat ∧
        guest.toNat + mapping.size.toNat ≤ r.attr.stop := by
  unfold place at h
  split at h
  · cases h
  rename_i offset mapping' hselect
  simp only at h
  split_ifs at h with hoverlap hsame
  · cases h
    obtain ⟨rfl, -⟩ := select?_eq_some hselect
    refine ⟨hselect, ?_⟩
    obtain ⟨r, hr, hin⟩ := (Option.any_eq_true _ _).1 hsame
    rw [regionContaining_eq_some_iff hs, RegionAttr.contains_iff] at hr
    simp only [Bool.and_eq_true, beq_iff_eq, decide_eq_true_eq] at hin
    exact ⟨r, hr.1, hin.1, hr.2.1, hin.2⟩
  · split at h <;> cases h

theorem place_eq_fresh (hs : m.Sound) (h : m.place ds guest attr = .ok (.fresh m' r mapping)) :
    select? ds guest attr = some (attr.offset, mapping) ∧ Registers m m' ds attr.offset mapping r := by
  unfold place at h
  split at h
  · cases h
  rename_i offset mapping' hselect
  simp only at h
  split_ifs at h with hoverlap hsame
  · cases h
  · split at h
    · cases h
    · rename_i m1 hmeta
      cases h
      have hregions := reserveMetadata_regions hmeta
      obtain ⟨rfl, rfl, hpos, -⟩ := select?_eq_some hselect
      rw [Bool.not_eq_true] at hoverlap
      exact ⟨hselect, by rw [← hregions], rfl, rfl, rfl, rfl, hpos, fun s => disjoint_of_overlaps hs hoverlap⟩

end GuestMemory
end NestedGuest
