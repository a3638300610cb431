/-
Attach requests whose windows are free.

An `Offer` is an attach request together with the dataspace that its capability names. If its window meets no region, it
becomes a region (`place_eq_ok_iff`), and all that guest memory decides of it is whether there is metadata: which does
not depend on the regions but on their number (`SameBooks`).

- `eq_of_books`: guest memories with the same regions, in whatever order they came, and the same metadata are equal.
-/
import NestedGuest.Proofs.Memory.Metadata
import NestedGuest.Proofs.Paging.Windows

namespace NestedGuest

/-- a request to attach a window at `guest`, and the dataspace that its capability names -/
structure Offer where
  cap : DataspaceCap
  dataspace : Dataspace
  guest : UInt64
  attr : AttachAttr

namespace Offer

/-- the request comes to the window `w` -/
def Selects (o : Offer) (w : Mapping) : Prop := select? o.dataspace o.guest o.attr = some (o.attr.offset, w)

/-- the region that is registered for the window `w` -/
def region (o : Offer) (w : Mapping) : Region where
  attr :=
    { base := o.guest, size := w.size, offset := o.attr.offset, write := o.dataspace.writeable && o.attr.writeable
      exec := o.attr.executable, dma := false }
  dataspace := o.dataspace
  reserved := false

/-- the windows of two requests have no address in common -/
def Apart (o o' : Offer) : Prop := ∀ w w', o.Selects w → o'.Selects w' → ∀ a, w.Has a → ¬ w'.Has a

/-- the window of the request meets no region -/
def FreeOf (o : Offer) (m : GuestMemory) : Prop :=
  ∀ w, o.Selects w → ∀ r ∈ m.regions, ∀ a, w.Has a → ¬ (r.attr.base.toNat ≤ a ∧ a < r.attr.stop)

variable {o o' : Offer} {w w' : Mapping} {m : GuestMemory}

theorem Selects.unique (h : o.Selects w) (h' : o.Selects w') : w = w' :=
  (Prod.mk.inj (Option.some.inj (h.symm.trans h'))).2

theorem Selects.guest (h : o.Selects w) : w.guest = o.guest ∧ 0 < w.size.toNat := by
  obtain ⟨-, hguest, hpos, -⟩ := select?_eq_some h
  exact ⟨hguest, hpos⟩

/-- the region is the window -/
theorem Selects.has_iff (h : o.Selects w) {a : ℕ} :
    w.Has a ↔ (o.region w).attr.base.toNat ≤ a ∧ a < (o.region w).attr.stop := by
  rw [Mapping.Has, h.guest.1]
  rfl

theorem Apart.symm (h : o.Apart o') : o'.Apart o := fun w w' hw hw' a ha ha' => h w' w hw' hw a ha' ha

end Offer

namespace GuestMemory

variable {o : Offer} {w : Mapping} {m m' n : GuestMemory} {r : Region}

/-- `m` with a further region, whatever becomes of the metadata -/
def register (m : GuestMemory) (r : Region) : GuestMemory := { m with regions := insertRegion r m.regions }

theorem mem_register {s : Region} : s ∈ (m.register r).regions ↔ s = r ∨ s ∈ m.regions := mem_insertRegion

theorem length_register (m : GuestMemory) (r : Region) : (m.register r).regions.length = m.regions.length + 1 := by
  obtain ⟨before, behind, hrs, hins⟩ := insertRegion_split r m.regions
  rw [register, hins, hrs, List.length_append, List.length_cons, List.length_append]
  rfl

/-- a free window is found free -/
theorem overlaps_of_free (hs : m.Sound) (hw : o.Selects w) (hfree : o.FreeOf m) :
    m.overlaps o.guest.toNat (o.guest.toNat + w.size.toNat) = false := by
  obtain ⟨hguest, hpos⟩ := hw.guest
  refine Bool.eq_false_iff.2 fun hoverlaps => ?_
  obtain ⟨q, hq, hlow, hmeets⟩ := (overlaps_iff hs).1 hoverlaps
  have hstop := hs.base_lt_stop hq
  refine hfree w hw q hq (max o.guest.toNat q.attr.base.toNat) ?_ ⟨le_max_right _ _, by omega⟩
  rw [Mapping.Has, hguest]
  omega

/-- A request for a free window is accepted if there is metadata for one region more, and then is a region. -/
theorem place_eq_ok_iff (hs : m.Sound) (hfree : o.FreeOf m) {placement : Placement} :
    m.place o.dataspace o.guest o.attr = .ok placement ↔
      ∃ w m', o.Selects w ∧ m.reserveMetadata = .ok m' ∧
        placement = .fresh (m'.register (o.region w)) (o.region w) w := by
  unfold place
  cases hselect : select? o.dataspace o.guest o.attr with
  | none =>
    refine ⟨fun h => (by cases h), fun hx => ?_⟩
    obtain ⟨w, m', hw, -⟩ := hx
    rw [Offer.Selects, hselect] at hw
    cases hw
  | some x =>
    obtain ⟨offset, w⟩ := x
    obtain rfl := (select?_eq_some hselect).1
    simp only [overlaps_of_free hs hselect hfree, Bool.false_eq_true, if_false]
    cases hmeta : m.reserveMetadata with
    | error e =>
      refine ⟨fun h => (by cases h), fun hx => ?_⟩
      obtain ⟨w, m', -, hm', -⟩ := hx
      cases hm'
    | ok m1 =>
      constructor
      · intro h
        cases h
        exact ⟨w, m1, hselect, rfl, rfl⟩
      · intro hx
        obtain ⟨w', m', hw', hm', rfl⟩ := hx
        cases hm'
        obtain rfl := Offer.Selects.unique hselect hw'
        rfl

/-! ## Metadata -/

/-- both have the same metadata, for as many regions -/
structure SameBooks (m n : GuestMemory) : Prop where
  regions : n.regions.length = m.regions.length
  quota : n.quota = m.quota
  blocks : n.metadataBlocks = m.metadataBlocks

theorem SameBooks.refl (m : GuestMemory) : SameBooks m m := ⟨rfl, rfl, rfl⟩

/-- metadata for one region more depends on nothing else -/
theorem SameBooks.reserve (h : SameBooks m n) (hm : m.reserveMetadata = .ok m') :
    ∃ n', n.reserveMetadata = .ok n' ∧ SameBooks m' n' := by
  obtain ⟨hregions, hquota, hblocks⟩ := h
  unfold reserveMetadata
  rw [hregions, hquota, hblocks]
  rcases reserveMetadata_cases hm with ⟨hroom, rfl⟩ | ⟨hfull, quota, hw, rfl⟩
  · rw [if_pos hroom]
    exact ⟨n, rfl, hregions, hquota, hblocks⟩
  · rw [if_neg (Nat.not_lt.2 hfull), hw]
    exact ⟨_, rfl, hregions, rfl, by simp only⟩

theorem SameBooks.register (h : SameBooks m n) (r s : Region) : SameBooks (m.register r) (n.register s) where
  regions := by rw [length_register, length_register, h.regions]
  quota := h.quota
  blocks := h.blocks

/-- The order in which regions came cannot be told. -/
theorem eq_of_books (hm : m.Sound) (hn : n.Sound) (hbooks : SameBooks m n)
    (hregions : ∀ r, r ∈ n.regions ↔ r ∈ m.regions) : n = m := by
  have hnodup : ∀ {k : GuestMemory}, k.Sound → k.regions.Nodup := by
    intro k hk
    refine hk.ascending.imp (fun {r s} hlt => ?_)
    rintro rfl
    exact UInt64.lt_irrefl _ hlt
  have hperm := (List.perm_ext_iff_of_nodup (hnodup hn) (hnodup hm)).2 hregions
  have hlist : n.regions = m.regions := by
    refine hperm.eq_of_pairwise (fun r s _ _ hlt hgt => ?_) hn.ascending hm.ascending
    exact absurd (UInt64.lt_trans hlt hgt) (UInt64.lt_irrefl _)
  obtain ⟨regions, quota, blocks⟩ := m
  obtain ⟨regions', quota', blocks'⟩ := n
  obtain ⟨-, hquota, hblocks⟩ := hbooks
  simp only at hlist hquota hblocks
  rw [hlist, hquota, hblocks]

end GuestMemory
end NestedGuest
