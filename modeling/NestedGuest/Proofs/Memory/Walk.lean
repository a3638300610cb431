/-
Which regions detaching and flushing take out of use.

Each of the operations takes out the regions that a test on their attributes selects, all of them, once and in ascending
order. For a range, the walk over guest memory misses no region on its way and stops at no other (`detachWalk_eq`); for
an address, no region but the one that contains it is selected (`filter_contains`).
-/
import NestedGuest.Proofs.Memory.Metadata

namespace NestedGuest

/-- the region shares an address with the range from `first` to `last`, both included -/
def RegionAttr.meets (r : RegionAttr) (first last : ℕ) : Bool :=
  decide (first ≤ last ∧ r.base.toNat ≤ last ∧ first < r.stop)

theorem RegionAttr.meets_iff {r : RegionAttr} {first last : ℕ} :
    r.meets first last = true ↔ first ≤ last ∧ r.base.toNat ≤ last ∧ first < r.stop := decide_eq_true_iff

namespace GuestMemory

variable {m m' : GuestMemory} {r s : Region} {before behind : List Region} {a guest size : UInt64} {fs : List Flush}

/-- Between `m` and `m'` the regions that `p` selects were taken out, and `fs` flush each of them once, in ascending
order. -/
structure Drops (m m' : GuestMemory) (fs : List Flush) (p : RegionAttr → Bool) : Prop where
  regions : m'.regions = m.regions.filter fun r => !p r.attr
  flushes : fs = (m.regions.filter fun r => p r.attr).map Region.flush

/-- nothing is taken out if nothing is selected -/
theorem Drops.of_none {p : RegionAttr → Bool} (h : ∀ r ∈ m.regions, p r.attr = false) : Drops m m [] p where
  regions := by
    refine (List.filter_eq_self.2 fun r hr => ?_).symm
    rw [h r hr]
    rfl
  flushes := by
    rw [List.filter_eq_nil_iff.2 fun r hr => Bool.eq_false_iff.1 (h r hr)]
    rfl

theorem Drops.congr {p q : RegionAttr → Bool} (h : Drops m m' fs p) (hpq : ∀ r ∈ m.regions, q r.attr = p r.attr) :
    Drops m m' fs q where
  regions := by
    rw [h.regions]
    exact List.filter_congr fun r hr => by rw [hpq r hr]
  flushes := by
    rw [h.flushes]
    exact congrArg _ (List.filter_congr fun r hr => (hpq r hr).symm)

/-- A region is taken out first, and then regions behind it. -/
theorem Drops.cons {m1 : GuestMemory} {p q : RegionAttr → Bool} (h : Drops m1 m' fs q)
    (hsplit : m.regions = before ++ r :: behind) (hrest : m1.regions = before ++ behind)
    (hp : ∀ s ∈ before, p s.attr = false) (hq : ∀ s ∈ before, q s.attr = false) (hr : p r.attr = true)
    (hpq : ∀ s ∈ behind, q s.attr = p s.attr) : Drops m m' (r.flush :: fs) p := by
  have hall : ∀ {f : RegionAttr → Bool}, (∀ s ∈ before, f s.attr = false) →
      (before.filter fun s => f s.attr) = [] ∧ (before.filter fun s => !f s.attr) = before := by
    intro f hf
    refine ⟨List.filter_eq_nil_iff.2 fun s hs => Bool.eq_false_iff.1 (hf s hs), List.filter_eq_self.2 fun s hs => ?_⟩
    rw [hf s hs]
    rfl
  constructor
  · calc m'.regions
        = before ++ behind.filter fun s => !q s.attr := by
          rw [h.regions, hrest, List.filter_append, (hall hq).2]
      _ = before ++ behind.filter fun s => !p s.attr := by
          rw [List.filter_congr fun s hs => by rw [hpq s hs]]
      _ = m.regions.filter fun s => !p s.attr := by
          rw [hsplit, List.filter_append, (hall hp).2, List.filter_cons_of_neg (by simp [hr])]
  · calc r.flush :: fs
        = r.flush :: (behind.filter fun s => q s.attr).map Region.flush := by
          rw [h.flushes, hrest, List.filter_append, (hall hq).1, List.nil_append]
      _ = r.flush :: (behind.filter fun s => p s.attr).map Region.flush := by
          rw [List.filter_congr hpq]
      _ = (m.regions.filter fun s => p s.attr).map Region.flush := by
          rw [hsplit, List.filter_append, (hall hp).1, List.nil_append, List.filter_cons_of_pos (by simp [hr]),
            List.map_cons]

/-! ## One address -/

theorem regionContaining_eq_none (hs : m.Sound) (h : m.regionContaining a = none) (hr : r ∈ m.regions) :
    r.attr.contains a = false := by
  by_contra hcontains
  have hfound := (regionContaining_eq_some_iff hs).2 ⟨hr, Bool.eq_true_of_not_eq_false hcontains⟩
  rw [h] at hfound
  cases hfound

/-- the region selected by an address stands between regions that are not -/
theorem contains_of_split (hs : m.Sound) (hsplit : m.regions = before ++ r :: behind) (ha : r.attr.contains a = true)
    (hsr : s ∈ before ++ behind) : s.attr.contains a = false := by
  by_contra hcontains
  have hr : r ∈ m.regions := by simp [hsplit]
  have hs' : s ∈ m.regions := by
    rw [hsplit]
    exact (List.Sublist.append_left (List.sublist_cons_self _ _) _).subset hsr
  obtain ⟨hlow, hhigh⟩ := RegionAttr.contains_iff.1 ha
  obtain ⟨hlow', hhigh'⟩ := RegionAttr.contains_iff.1 (Bool.eq_true_of_not_eq_false hcontains)
  exact hs.base_ne hsplit hsr (congrArg (fun q : Region => q.attr.base) (hs.eq_of_mem hs' hr hlow' hhigh' hlow hhigh))

/-- no region but the one found contains an address -/
theorem filter_contains (hs : m.Sound) (a : UInt64) :
    (m.regions.filter fun r => r.attr.contains a) = (m.regionContaining a).toList := by
  cases hreg : m.regionContaining a with
  | none =>
    rw [Option.toList_none, List.filter_eq_nil_iff]
    intro r hr
    rw [regionContaining_eq_none hs hreg hr]
    exact Bool.false_ne_true
  | some r =>
    obtain ⟨hr, ha⟩ := (regionContaining_eq_some_iff hs).1 hreg
    obtain ⟨before, behind, hsplit⟩ := List.append_of_mem hr
    have hothers : ∀ s ∈ before ++ behind, ¬ s.attr.contains a = true := fun s hsr =>
      Bool.eq_false_iff.1 (contains_of_split hs hsplit ha hsr)
    have hbefore : (before.filter fun r => r.attr.contains a) = [] :=
      List.filter_eq_nil_iff.2 fun s hsb => hothers s (List.mem_append_left _ hsb)
    have hbehind : (behind.filter fun r => r.attr.contains a) = [] :=
      List.filter_eq_nil_iff.2 fun s hsb => hothers s (List.mem_append_right _ hsb)
    have hfound : ((r :: behind).filter fun r => r.attr.contains a) = r :: behind.filter fun r => r.attr.contains a :=
      List.filter_cons_of_pos ha
    rw [hsplit, List.filter_append, hfound, hbefore, hbehind, List.nil_append, Option.toList_some]

/-- detaching at an address takes out the region that contains it -/
theorem detachAt_drops (hs : m.Sound) (a : UInt64) :
    Drops m (m.detachAt a).1 (m.detachAt a).2.toList fun r => r.contains a := by
  cases hreg : m.regionContaining a with
  | none =>
    rw [detachAt_of_none hreg]
    exact .of_none fun r hr => regionContaining_eq_none hs hreg hr
  | some r =>
    obtain ⟨hr, ha⟩ := (regionContaining_eq_some_iff hs).1 hreg
    obtain ⟨before, behind, hsplit⟩ := List.append_of_mem hr
    have hkept : ∀ l : List Region, (∀ s ∈ l, s ∈ before ++ behind) →
        (l.filter fun s => !s.attr.contains a) = l := by
      intro l hl
      refine List.filter_eq_self.2 fun s hsl => ?_
      rw [contains_of_split hs hsplit ha (hl s hsl)]
      rfl
    rw [detachAt_eq hs hreg hsplit]
    constructor
    · rw [releaseMetadata_regions, hsplit, List.filter_append, List.filter_cons_of_neg (by simp [ha]),
        hkept before fun s hsb => List.mem_append_left _ hsb, hkept behind fun s hsb => List.mem_append_right _ hsb]
    · rw [filter_contains hs, hreg]
      rfl

/-- flushing at an address keeps every region registered, and the flush is that of the region that contains it -/
theorem reserveAndFlush_eq (hs : m.Sound) (a : UInt64) :
    (m.reserveAndFlush a).1.attrs = m.attrs ∧
      (m.reserveAndFlush a).2.toList = (m.regions.filter fun r => r.attr.contains a).map Region.flush := by
  rw [filter_contains hs]
  cases hreg : m.regionContaining a with
  | none =>
    rw [reserveAndFlush_of_none hreg]
    exact ⟨rfl, rfl⟩
  | some r =>
    rw [reserveAndFlush_of_region hreg]
    refine ⟨?_, rfl⟩
    rw [attrs, attrs, List.map_map]
    exact List.map_congr_left fun s _ => markAt_attr _ s

/-! ## A range -/

/-- from a region that contains `a` the walk goes on behind it -/
theorem nextStop_of_region {last a : ℕ} (h : m.regionContaining (UInt64.ofNat a) = some r) :
    m.nextStop last a = r.attr.stop := by
  unfold nextStop
  rw [h]

/-- where no region contains `a`, the walk leaves out nothing that the range meets -/
theorem meets_nextStop (hs : m.Sound) {last a : ℕ} (ha : a ≤ last) (hlast : last < wordEnd)
    (h : m.regionContaining (UInt64.ofNat a) = none) :
    a < m.nextStop last a ∧ ∀ r ∈ m.regions, r.attr.meets (m.nextStop last a) last = r.attr.meets a last := by
  have htoNat : (UInt64.ofNat a).toNat = a := UInt64.toNat_ofNat_of_lt' (ha.trans_lt hlast)
  -- a region that reaches past `a` begins behind `a`
  have hbehind : ∀ r ∈ m.regions, a < r.attr.stop → a < r.attr.base.toNat := by
    intro r hr hstop
    have hcontains := regionContaining_eq_none hs h hr
    by_contra hbase
    rw [RegionAttr.contains_iff.2 ⟨by omega, by omega⟩] at hcontains
    cases hcontains
  unfold nextStop
  rw [h]
  cases hfind : m.regions.find? fun r => decide (a ≤ r.attr.base.toNat) with
  | none =>
    refine ⟨by simp only [pageSize]; omega, fun r hr => ?_⟩
    have hbase := List.find?_eq_none.1 hfind r hr
    rw [decide_eq_true_iff] at hbase
    have hstop : ¬ a < r.attr.stop := fun hstop => hbase (hbehind r hr hstop).le
    rw [Bool.eq_iff_iff, RegionAttr.meets_iff, RegionAttr.meets_iff]
    simp only [pageSize]
    omega
  | some q =>
    obtain ⟨hbase, before, behind, hsplit, hbefore⟩ := List.find?_eq_some_iff_append.1 hfind
    rw [decide_eq_true_iff] at hbase
    have hq : q ∈ m.regions := by simp [hsplit]
    have hqstop := hs.base_lt_stop hq
    have hnext := hbehind q hq (by omega)
    refine ⟨hnext, fun r hr => ?_⟩
    rw [Bool.eq_iff_iff, RegionAttr.meets_iff, RegionAttr.meets_iff]
    -- `q` is the first region that begins at `a` or later
    have hfirst : a < r.attr.stop → q.attr.base.toNat ≤ r.attr.base.toNat := by
      intro hstop
      have hbase' := hbehind r hr hstop
      rw [hsplit] at hr
      rcases List.mem_append.1 hr with hr | hr
      · have hlow := hbefore r hr
        simp only [Bool.not_eq_true', decide_eq_false_iff_not] at hlow
        omega
      · rcases List.mem_cons.1 hr with rfl | hr
        · exact le_rfl
        · have hpair := hs.pairwise
          rw [hsplit] at hpair
          have hafter := (List.pairwise_cons.1 (List.pairwise_append.1 hpair).2.1).1 r hr
          omega
    have hrstop := hs.base_lt_stop hr
    simp only
    constructor
    · intro hx
      omega
    · intro hx
      have hle := hfirst hx.2.2
      omega

/-- the walk always gets on -/
theorem lt_nextStop (hs : m.Sound) {last a : ℕ} (ha : a ≤ last) (hlast : last < wordEnd) : a < m.nextStop last a := by
  cases hreg : m.regionContaining (UInt64.ofNat a) with
  | none => exact (meets_nextStop hs ha hlast hreg).1
  | some r =>
    obtain ⟨-, hcontains⟩ := (regionContaining_eq_some_iff hs).1 hreg
    have hstop := (RegionAttr.contains_iff.1 hcontains).2
    rw [UInt64.toNat_ofNat_of_lt' (ha.trans_lt hlast)] at hstop
    exact hstop.trans_eq (nextStop_of_region hreg).symm

/-- The region that contains `a` is the first one that a range from `a` on meets, and the others that it meets are those
met behind that region. -/
theorem meets_of_split (hs : m.Sound) (hsplit : m.regions = before ++ r :: behind) {last a : ℕ} (ha : a ≤ last)
    (hlow : r.attr.base.toNat ≤ a) (hhigh : a < r.attr.stop) :
    (∀ q ∈ before, ∀ b, a ≤ b → q.attr.meets b last = false) ∧ r.attr.meets a last = true ∧
      ∀ q ∈ behind, q.attr.meets r.attr.stop last = q.attr.meets a last := by
  have hpair := hs.pairwise
  rw [hsplit] at hpair
  obtain ⟨-, htail, hcross⟩ := List.pairwise_append.1 hpair
  refine ⟨fun q hq b hb => ?_, RegionAttr.meets_iff.2 ⟨ha, by omega, hhigh⟩, fun q hq => ?_⟩
  · have hstop := hcross q hq r List.mem_cons_self
    rw [← Bool.not_eq_true, RegionAttr.meets_iff]
    omega
  · have hbase := (List.pairwise_cons.1 htail).1 q hq
    have hqstop := hs.base_lt_stop (r := q) (by simp [hsplit, hq])
    rw [Bool.eq_iff_iff, RegionAttr.meets_iff, RegionAttr.meets_iff]
    omega

/-- The walk takes out the regions that meet its range. -/
theorem detachWalk_drops (hs : m.Sound) {last a : ℕ} (hlast : last < wordEnd) :
    Drops m (m.detachWalk last a).1 (m.detachWalk last a).2 fun r => r.meets a last := by
  fun_induction detachWalk m last a with
  | case1 m a hle next m1 flush hdetach hlt m2 flushes hwalk ih =>
    have hflushed := detachAt_flushed hs (UInt64.ofNat a)
    rw [hdetach] at hflushed
    have hrest := ih (hflushed.sound hs)
    rw [hwalk] at hrest
    cases hreg : m.regionContaining (UInt64.ofNat a) with
    | none =>
      obtain ⟨rfl, rfl⟩ := Prod.mk.inj (hdetach.symm.trans (detachAt_of_none hreg))
      exact hrest.congr fun r hr => ((meets_nextStop hs hle hlast hreg).2 r hr).symm
    | some r =>
      obtain ⟨hr, ha⟩ := (regionContaining_eq_some_iff hs).1 hreg
      obtain ⟨hlow, hhigh⟩ := RegionAttr.contains_iff.1 ha
      rw [UInt64.toNat_ofNat_of_lt' (hle.trans_lt hlast)] at hlow hhigh
      obtain ⟨before, behind, hsplit⟩ := List.append_of_mem hr
      obtain ⟨hbefore, hfirst, hbehind⟩ := meets_of_split hs hsplit hle hlow hhigh
      have hnext : next = r.attr.stop := nextStop_of_region hreg
      obtain ⟨rfl, rfl⟩ := Prod.mk.inj (hdetach.symm.trans (detachAt_eq hs hreg hsplit))
      exact hrest.cons hsplit (releaseMetadata_regions _) (fun q hq => hbefore q hq a le_rfl)
        (fun q hq => hbefore q hq next (by omega)) hfirst fun q hq => by rw [hnext, hbehind q hq]
  | case2 m a hle next m1 flush hdetach hlt => exact absurd (lt_nextStop hs hle hlast) hlt
  | case3 m a hle =>
    refine .of_none fun r hr => ?_
    rw [← Bool.not_eq_true, RegionAttr.meets_iff]
    omega

/-- a request to detach a range is served only if the range is not empty, aligned to pages and ends with the last word -/
def DetachWellFormed (guest size : UInt64) : Prop :=
  size ≠ 0 ∧ isPageAligned guest ∧ isPageAligned size ∧ guest.toNat + (size.toNat - 1) < wordEnd

instance (guest size : UInt64) : Decidable (DetachWellFormed guest size) := by
  unfold DetachWellFormed; infer_instance

/-- Detaching a range takes out the regions that meet it; a malformed request is refused. -/
theorem detach?_drops (hs : m.Sound) (guest size : UInt64) :
    (m.detach? guest size = none ∧ ¬ DetachWellFormed guest size) ∨
      ∃ m' fs, m.detach? guest size = some (m', fs) ∧ DetachWellFormed guest size ∧
        Drops m m' fs fun r => r.meets guest.toNat (guest.toNat + (size.toNat - 1)) := by
  unfold detach?
  split_ifs with hformed
  · exact Or.inr ⟨_, _, rfl, hformed, detachWalk_drops hs hformed.2.2.2⟩
  · exact Or.inl ⟨rfl, hformed⟩

end GuestMemory
end NestedGuest
