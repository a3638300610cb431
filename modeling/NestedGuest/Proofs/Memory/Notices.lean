/-
What dataspaces are told of their regions, and what is unmapped.

A request that takes regions out of use flushes each of them once, in ascending order, so what a turn says of one region
is what that one flush says (`count_notices`), and it is the first to say that the region is gone if no earlier turn of
the region's life reached it.

- `notices_pair`: over the life of a region its dataspace learns once that the region is there and at most once that it
  is gone, and removing the region unmaps all of it.
-/
import NestedGuest.Proofs.Memory.History

namespace NestedGuest

open GuestMemory

variable {quota : Quota} {turns newer older later : List MemoryTurn} {m : GuestMemory} {x y : MemoryTurn} {q r : Region}
  {front back : List Region} {n : Notice} {alive : ℕ → Dataspace → Bool} {ds : Dataspace} {attr : RegionAttr}

/-! ## One turn -/

/-- a flush speaks of its own region only -/
theorem Flush.mem_notices {f : Flush} {b : Bool} (h : n ∈ f.notices b) :
    n = .unmap f.region.base f.region.size ∨ n = .detached f.dataspace f.region ∧ f.first = true := by
  unfold Flush.notices at h
  split_ifs at h with hfirst
  · rw [Bool.and_eq_true] at hfirst
    simp only [List.mem_append, List.mem_singleton] at h
    tauto
  · simpa using Or.inl h

theorem mem_flushNotices {flushes : List Flush} (h : n ∈ flushNotices alive flushes) :
    ∃ f ∈ flushes, ∃ b, n ∈ f.notices b := by
  obtain ⟨⟨f, i⟩, hf, hn⟩ := List.mem_flatMap.1 h
  exact ⟨f, (List.mem_zipIdx' hf).2 ▸ List.getElem_mem _, _, hn⟩

/-- a notice that only one of the flushes gives -/
theorem count_flushNotices {before behind : List Flush} (f : Flush)
    (hothers : ∀ g ∈ before ++ behind, ∀ b, n ∉ g.notices b) :
    (flushNotices alive (before ++ f :: behind)).count n = (f.notices (alive before.length f.dataspace)).count n := by
  have hsilent : ∀ (l : List Flush) (k : ℕ), (∀ g ∈ l, ∀ b, n ∉ g.notices b) →
      ((l.zipIdx k).flatMap fun p => p.1.notices (alive p.2 p.1.dataspace)).count n = 0 := by
    intro l k hl
    refine List.count_eq_zero.2 fun hn => ?_
    obtain ⟨⟨g, i⟩, hg, hn⟩ := List.mem_flatMap.1 hn
    exact hl g (List.fst_mem_of_mem_zipIdx hg) _ hn
  unfold flushNotices
  rw [List.zipIdx_append, List.zipIdx_cons, List.flatMap_append, List.flatMap_cons, List.count_append,
    List.count_append, hsilent before 0 fun g hg => hothers g (List.mem_append_left _ hg),
    hsilent behind _ fun g hg => hothers g (List.mem_append_right _ hg)]
  simp

namespace MemoryTurn

/-- how many regions the turn flushes before it comes to `r` -/
def position (x : MemoryTurn) (r : RegionAttr) : ℕ :=
  x.before.attrs.countP fun s => x.reaches s && decide (s.base < r.base)

/-- the dataspace of `r` is there when the turn comes to `r` -/
def hears (x : MemoryTurn) (r : Region) : Bool := x.alive (x.position r.attr) r.dataspace

/-- a turn that reaches a region flushes it, and tells nothing but that -/
theorem notices_of_reaches (hs : x.before.Sound) (hr : x.reaches attr = true) :
    x.notices = flushNotices x.alive x.flushes := by
  rcases x.effect hs with ⟨hreaches, -, -⟩ | ⟨-, hreaches, -⟩ | ⟨-, hnotices⟩ | ⟨-, hnotices⟩
  · rw [hreaches] at hr
    cases hr
  · rw [hreaches] at hr
    cases hr
  · exact hnotices
  · exact hnotices

/-- a dataspace that is told of a region's end is the one behind it, and is told by the first flush -/
theorem mem_notices_detached (hs : x.before.Sound) (h : .detached ds attr ∈ x.notices) :
    x.reaches attr = true ∧ ∃ q ∈ x.before.regions, q.attr = attr ∧ q.dataspace = ds ∧ q.reserved = false := by
  have hflushed : x.notices = flushNotices x.alive x.flushes := by
    rcases x.effect hs with ⟨-, -, hkept⟩ | ⟨r, -, hnew⟩ | ⟨-, hnotices⟩ | ⟨-, hnotices⟩
    · rcases hkept with hnone | ⟨mapping, hmapped⟩
      · rw [hnone] at h
        cases h
      · rw [hmapped] at h
        simp at h
    · obtain ⟨-, mapping, hnotices, -⟩ := hnew.spec hs
      rw [hnotices] at h
      simp at h
    · exact hnotices
    · exact hnotices
  rw [hflushed] at h
  obtain ⟨f, hf, b, hn⟩ := mem_flushNotices h
  obtain ⟨q, hq, rfl⟩ := List.mem_map.1 hf
  obtain ⟨hq, hreached⟩ := List.mem_filter.1 hq
  rcases Flush.mem_notices hn with hunmap | ⟨hdetached, hfirst⟩
  · cases hunmap
  · obtain ⟨rfl, rfl⟩ := Notice.detached.inj hdetached
    exact ⟨hreached, q, hq, rfl, rfl, by simpa [Region.flush] using hfirst⟩

/-- the regions below a region are those in front of it -/
theorem position_of_split (hs : x.before.Sound) (hsplit : x.before.regions = front ++ q :: back) :
    x.position q.attr = (front.filter fun s => x.reaches s.attr).length := by
  have hascending := hs.ascending
  rw [hsplit] at hascending
  obtain ⟨-, htail, hcross⟩ := List.pairwise_append.1 hascending
  have hfront : (front.map Region.attr).countP (fun s => x.reaches s && decide (s.base < q.attr.base)) =
      front.countP fun s => x.reaches s.attr := by
    rw [List.countP_map]
    refine List.countP_congr fun s hsf => ?_
    simp [hcross s hsf q List.mem_cons_self]
  have hback : ((q :: back).map Region.attr).countP (fun s => x.reaches s && decide (s.base < q.attr.base)) = 0 := by
    rw [List.countP_map]
    refine List.countP_eq_zero.2 fun s hsb => ?_
    have hnot : ¬ s.attr.base < q.attr.base := by
      intro hlt
      rcases List.mem_cons.1 hsb with rfl | hsb
      · exact UInt64.lt_irrefl _ hlt
      · exact UInt64.lt_irrefl _ (UInt64.lt_trans hlt ((List.pairwise_cons.1 htail).1 s hsb))
    simp [hnot]
  rw [position, GuestMemory.attrs, hsplit, List.map_append, List.countP_append, hfront, hback, add_zero,
    List.countP_eq_length_filter]

/-- what is told of a region that the turn reaches is what its one flush tells -/
theorem count_notices (hs : x.before.Sound) (hq : q ∈ x.before.regions) (hreached : x.reaches q.attr = true)
    (hn : n = .unmap q.attr.base q.attr.size ∨ ∃ ds, n = .detached ds q.attr) :
    x.notices.count n = (q.flush.notices (x.alive (x.position q.attr) q.dataspace)).count n := by
  obtain ⟨front, back, hsplit⟩ := List.append_of_mem hq
  have hflushes : x.flushes = (front.filter fun s => x.reaches s.attr).map Region.flush ++ q.flush ::
      (back.filter fun s => x.reaches s.attr).map Region.flush := by
    have hq : ((q :: back).filter fun s => x.reaches s.attr) = q :: back.filter fun s => x.reaches s.attr :=
      List.filter_cons_of_pos hreached
    rw [flushes, hsplit, List.filter_append, hq, List.map_append, List.map_cons]
  have hposition : x.position q.attr = ((front.filter fun s => x.reaches s.attr).map Region.flush).length := by
    rw [position_of_split hs hsplit, List.length_map]
  rw [notices_of_reaches hs hreached, hflushes, hposition]
  refine count_flushNotices q.flush fun g hg b hmem => ?_
  -- every other flush is one of a region that begins elsewhere
  obtain ⟨s, hsr, rfl⟩ : ∃ s ∈ front ++ back, g = s.flush := by
    rcases List.mem_append.1 hg with hg | hg
    · obtain ⟨s, hsf, rfl⟩ := List.mem_map.1 hg
      exact ⟨s, List.mem_append_left _ (List.filter_subset_self _ hsf), rfl⟩
    · obtain ⟨s, hsb, rfl⟩ := List.mem_map.1 hg
      exact ⟨s, List.mem_append_right _ (List.filter_subset_self _ hsb), rfl⟩
  refine hs.base_ne hsplit hsr ?_
  rcases Flush.mem_notices hmem with rfl | ⟨rfl, -⟩
  · rcases hn with hn | ⟨ds, hn⟩
    · exact (Notice.unmap.inj hn).1
    · cases hn
  · rcases hn with hn | ⟨ds, hn⟩
    · cases hn
    · exact congrArg RegionAttr.base (Notice.detached.inj hn).2

end MemoryTurn

/-! ## The life of a region -/

/-- what dataspaces are told of the region `r`, which `x` registered and which was there at the `later` turns, and what
is unmapped of it -/
structure NoticesPair (r : Region) (x : MemoryTurn) (later : List MemoryTurn) : Prop where
  /-- when the region is registered its dataspace is told so, and then the window is mapped -/
  registered : ∃ mapping : Mapping, mapping.guest = r.attr.base ∧ mapping.size = r.attr.size ∧
    x.notices = [.attached r.dataspace r.attr, .map mapping]
  /-- no dataspace is told so again -/
  attached_once : ∀ y ∈ later, ∀ ds, .attached ds r.attr ∉ y.notices
  /-- whoever is told that a region is gone is the dataspace of a region that is reached just then -/
  detached_names : ∀ y ∈ later, ∀ ds attr, .detached ds attr ∈ y.notices →
    y.reaches attr = true ∧ ∃ q ∈ y.before.regions, q.attr = attr ∧ q.dataspace = ds
  /-- the first turn that reaches the region tells its dataspace that it is gone, if that is still there -/
  detached_first : ∀ newer y older, later = newer ++ y :: older → y.reaches r.attr = true →
    (∀ z ∈ older, z.reaches r.attr = false) →
      y.notices.count (.detached r.dataspace r.attr) = if y.hears r then 1 else 0
  /-- no turn after the first one that reaches the region tells any dataspace that it is gone -/
  detached_no_more : ∀ newer y older, later = newer ++ y :: older → (∃ z ∈ older, z.reaches r.attr = true) →
    ∀ ds, .detached ds r.attr ∉ y.notices
  detached_once : (later.flatMap MemoryTurn.notices).count (.detached r.dataspace r.attr) ≤ 1
  /-- attaching in the region tells no dataspace anything -/
  again : ∀ y ∈ later, ∀ ds guest attr outcome, y.request = .attach ds guest attr outcome →
    r.attr.contains guest = true → y.notices = [] ∨ ∃ mapping, y.notices = [.map mapping]
  /-- flushing the region again tells no dataspace anything -/
  flushed_again : ∀ newer y older, later = newer ++ y :: older → (∃ z ∈ older, z.reaches r.attr = true) →
    ∀ a, y.request = .flush a → r.attr.contains a = true → y.notices = [.unmap r.attr.base r.attr.size]
  /-- the turn that removes the region unmaps all of it, once -/
  removed : ∀ y ∈ later, r.attr ∉ y.after.attrs → y.notices.count (.unmap r.attr.base r.attr.size) = 1

namespace RegionLife

theorem mem_of_later (hm : m.Reaches quota turns) (h : RegionLife turns r x later) (hy : y ∈ later) :
    y.before.Sound ∧ ∃ q ∈ y.before.regions, q.attr = r.attr ∧ q.dataspace = r.dataspace := by
  obtain ⟨newer, older, hsplit⟩ := List.append_of_mem hy
  refine ⟨?_, _, h.mem_before hm hsplit, rfl, rfl⟩
  obtain ⟨⟨earlier, rfl⟩, -, -⟩ := h
  rw [hsplit, List.append_assoc] at hm
  exact hm.before.sound

/-- what a turn that reaches the region tells of it -/
theorem count_notices (hm : m.Reaches quota turns) (h : RegionLife turns r x later)
    (hlater : later = newer ++ y :: older) (hreached : y.reaches r.attr = true) {n : Notice}
    (hn : n = .unmap r.attr.base r.attr.size ∨ ∃ ds, n = .detached ds r.attr) :
    y.notices.count n =
      (Flush.notices ⟨r.attr, r.dataspace, !older.any fun z => z.reaches r.attr⟩ (y.hears r)).count n := by
  obtain ⟨hs, -⟩ := h.mem_of_later hm (y := y) (by simp [hlater])
  exact MemoryTurn.count_notices hs (h.mem_before hm hlater) hreached hn

/-- registering a region tells of no region that is there already -/
theorem attached_once (hm : m.Reaches quota turns) (h : RegionLife turns r x later) (hy : y ∈ later) :
    .attached ds r.attr ∉ y.notices := by
  obtain ⟨hs, q, hq, hattr, -⟩ := h.mem_of_later hm hy
  intro hmem
  have hflush : .attached ds r.attr ∉ flushNotices y.alive y.flushes := by
    intro hmem
    obtain ⟨f, -, b, hn⟩ := mem_flushNotices hmem
    rcases Flush.mem_notices hn with hn | ⟨hn, -⟩ <;> cases hn
  rcases y.effect hs with ⟨-, -, hnotices⟩ | ⟨p, -, hnew⟩ | ⟨-, hnotices⟩ | ⟨-, hnotices⟩
  · rcases hnotices with hnone | ⟨mapping, hmapped⟩
    · rw [hnone] at hmem
      cases hmem
    · rw [hmapped] at hmem
      simp at hmem
  · obtain ⟨-, mapping, hnotices, hnew⟩ := hnew.spec hs
    rw [hnotices] at hmem
    simp only [List.mem_cons, Notice.attached.injEq, reduceCtorEq, List.not_mem_nil, or_false] at hmem
    exact hnew.attr_ne hs hq (hattr.trans hmem.2)
  · rw [hnotices] at hmem
    exact hflush hmem
  · rw [hnotices] at hmem
    exact hflush hmem

/-- no window of a new region begins in one that is there -/
theorem again (hm : m.Reaches quota turns) (h : RegionLife turns r x later) (hy : y ∈ later) {guest : UInt64}
    {window : AttachAttr} {outcome : Except TranslationError Unit}
    (hrequest : y.request = .attach ds guest window outcome) (hguest : r.attr.contains guest = true) :
    y.notices = [] ∨ ∃ mapping, y.notices = [.map mapping] := by
  obtain ⟨hs, q, hq, hattr, -⟩ := h.mem_of_later hm hy
  rw [← hattr] at hguest
  obtain ⟨hlow, hhigh⟩ := RegionAttr.contains_iff.1 hguest
  rcases y.attach_cases hrequest with ⟨-, hnotices⟩ | ⟨p, ds', guest', window', outcome', mapping, hrequest', hplace, -⟩
  · exact hnotices
  · obtain ⟨rfl, rfl, rfl, rfl⟩ := MemoryRequest.attach.inj (hrequest.symm.trans hrequest')
    obtain ⟨hselect, hnew⟩ := place_eq_fresh hs hplace
    have hbase : p.attr.base = guest := hnew.base.trans (select?_eq_some hselect).2.1
    have hfree := hnew.free q hq
    have hstop : p.attr.base.toNat < p.attr.stop := Nat.lt_add_of_pos_right hnew.nonempty
    rw [hbase] at hfree hstop
    omega

/-- once the region was reached, no dataspace is told again that it is gone -/
theorem detached_no_more (hm : m.Reaches quota turns) (h : RegionLife turns r x later)
    (hlater : later = newer ++ y :: older) (holder : ∃ z ∈ older, z.reaches r.attr = true) :
    .detached ds r.attr ∉ y.notices := by
  obtain ⟨hs, -⟩ := h.mem_of_later hm (y := y) (by simp [hlater])
  have hold := h.mem_before hm hlater
  rw [List.any_eq_true.2 holder] at hold
  intro hmem
  obtain ⟨-, q, hq, hattr, -, hreserved⟩ := MemoryTurn.mem_notices_detached hs hmem
  obtain rfl := hs.eq_of_base_eq hq hold (congrArg RegionAttr.base hattr)
  cases hreserved

/-- the first turn that reaches the region tells its dataspace, if that is there -/
theorem detached_first (hm : m.Reaches quota turns) (h : RegionLife turns r x later)
    (hlater : later = newer ++ y :: older) (hreached : y.reaches r.attr = true)
    (holder : ∀ z ∈ older, z.reaches r.attr = false) :
    y.notices.count (.detached r.dataspace r.attr) = if y.hears r then 1 else 0 := by
  have hfirst : older.any (fun z => z.reaches r.attr) = false := by
    rw [List.any_eq_false]
    intro z hz
    rw [holder z hz]
    exact Bool.false_ne_true
  rw [h.count_notices hm hlater hreached (Or.inr ⟨_, rfl⟩), hfirst]
  cases y.hears r
  · rfl
  · simp [Flush.notices]

/-- no more than one turn tells the dataspace that the region is gone -/
theorem detached_once (hm : m.Reaches quota turns) (h : RegionLife turns r x later) (hlater : later = newer ++ older) :
    (older.flatMap MemoryTurn.notices).count (.detached r.dataspace r.attr) ≤ 1 ∧
      ((∀ z ∈ older, z.reaches r.attr = false) →
        (older.flatMap MemoryTurn.notices).count (.detached r.dataspace r.attr) = 0) := by
  induction older generalizing newer with
  | nil => simp
  | cons y older ih =>
    have hrest : later = (newer ++ [y]) ++ older := by rw [hlater, List.append_assoc, List.singleton_append]
    obtain ⟨hatmost, hnone⟩ := ih hrest
    obtain ⟨hs, -⟩ := h.mem_of_later hm (y := y) (by simp [hlater])
    have hunreached : y.reaches r.attr = false → y.notices.count (.detached r.dataspace r.attr) = 0 := by
      intro hy
      refine List.count_eq_zero.2 fun hmem => ?_
      obtain ⟨hreached, -⟩ := MemoryTurn.mem_notices_detached hs hmem
      rw [hy] at hreached
      cases hreached
    rw [List.flatMap_cons, List.count_append]
    by_cases holder : ∃ z ∈ older, z.reaches r.attr = true
    · have hy : y.notices.count (.detached r.dataspace r.attr) = 0 :=
        List.count_eq_zero.2 (h.detached_no_more hm hlater holder)
      refine ⟨by rw [hy]; omega, fun hall => ?_⟩
      obtain ⟨z, hz, hreached⟩ := holder
      rw [hall z (List.mem_cons_of_mem _ hz)] at hreached
      cases hreached
    · have hfresh : ∀ z ∈ older, z.reaches r.attr = false := fun z hz =>
        Bool.eq_false_iff.2 fun hreached => holder ⟨z, hz, hreached⟩
      rw [hnone hfresh]
      refine ⟨?_, fun hall => hunreached (hall y List.mem_cons_self)⟩
      by_cases hy : y.reaches r.attr = true
      · rw [h.detached_first hm hlater hy hfresh]
        split_ifs <;> simp
      · rw [hunreached (Bool.eq_false_iff.2 hy)]
        simp

/-- flushing the region again only unmaps it -/
theorem flushed_again (hm : m.Reaches quota turns) (h : RegionLife turns r x later)
    (hlater : later = newer ++ y :: older) (holder : ∃ z ∈ older, z.reaches r.attr = true) {a : UInt64}
    (hrequest : y.request = .flush a) (ha : r.attr.contains a = true) :
    y.notices = [.unmap r.attr.base r.attr.size] := by
  obtain ⟨hs, -⟩ := h.mem_of_later hm (y := y) (by simp [hlater])
  have hold := h.mem_before hm hlater
  rw [List.any_eq_true.2 holder] at hold
  have hreached : y.reaches = fun q => q.contains a := by
    funext q
    rw [MemoryTurn.reaches, hrequest]
    rfl
  have hflushes : y.flushes = [Region.flush { r with reserved := true }] := by
    rw [MemoryTurn.flushes, hreached, filter_contains hs, (regionContaining_eq_some_iff hs).2 ⟨hold, ha⟩]
    rfl
  have hregion : y.reaches r.attr = true := by rw [hreached]; exact ha
  rw [MemoryTurn.notices_of_reaches hs hregion, hflushes]
  rfl

end RegionLife

/-- **Notices of a region pair up.** Over the life of a region its dataspace is told once that the region is there,
before the window is mapped, and at most once that it is gone: by the first turn that reaches it. -/
theorem notices_pair (hm : m.Reaches quota turns) (h : RegionLife turns r x later) : NoticesPair r x later where
  registered := by
    obtain ⟨earlier, rfl⟩ := h.split
    obtain ⟨-, mapping, hnotices, hnew⟩ := h.registers.spec hm.before.sound
    exact ⟨mapping, hnew.base.symm, hnew.size.symm, hnotices⟩
  attached_once y hy ds := h.attached_once hm hy
  detached_names y hy ds attr hmem := by
    obtain ⟨hreached, q, hq, hattr, hds, -⟩ := MemoryTurn.mem_notices_detached (h.mem_of_later hm hy).1 hmem
    exact ⟨hreached, q, hq, hattr, hds⟩
  detached_first newer y older hlater hreached holder := h.detached_first hm hlater hreached holder
  detached_no_more newer y older hlater holder ds := h.detached_no_more hm hlater holder
  detached_once := (h.detached_once hm (List.nil_append later).symm).1
  again y hy ds guest attr outcome hrequest hguest := h.again hm hy hrequest hguest
  flushed_again newer y older hlater holder a hrequest ha := h.flushed_again hm hlater holder hrequest ha
  removed y hy hgone := by
    obtain ⟨newer, older, hlater⟩ := List.append_of_mem hy
    obtain ⟨hs, q, hq, hattr, -⟩ := h.mem_of_later hm hy
    rw [← hattr] at hgone
    have hreached := MemoryTurn.reaches_of_removed hs hq hgone
    rw [hattr] at hreached
    rw [h.count_notices hm hlater hreached (Or.inl rfl)]
    unfold Flush.notices
    split_ifs <;> simp

/-- two pages of RAM are attached -/
def attachPages : MemoryTurn :=
  ⟨.new (.new 0x10000 16), fun _ _ => true, .attach ⟨0, ⟨0x10⟩, 0x2000, 0x100000000, false, true⟩ 0x1000
    ⟨0, 0, true, false⟩ (.ok ())⟩

/-- their mapping is flushed -/
def flushPages : MemoryTurn := ⟨attachPages.after, fun _ _ => true, .flush 0x2000⟩

/-- the second page is mapped again -/
def attachSecond : MemoryTurn :=
  ⟨flushPages.after, fun _ _ => true, .attach ⟨0, ⟨0x10⟩, 0x2000, 0x100000000, false, true⟩ 0x2000
    ⟨0x1000, 0x1000, true, false⟩ (.ok ())⟩

/-- the region is removed -/
def detachPages : MemoryTurn := ⟨attachSecond.after, fun _ _ => true, .detach 0x1000 0x1000⟩

/-- the region of the two pages -/
def pagesRegion : Region where
  attr := ⟨0x1000, 0x2000, 0, true, false, false⟩
  dataspace := ⟨0, ⟨0x10⟩, 0x2000, 0x100000000, false, true⟩
  reserved := false

theorem notices_pair_attached_again :
    RegionLife [detachPages, attachSecond, flushPages, attachPages] pagesRegion attachPages
      [detachPages, attachSecond, flushPages] ∧
    (∃ mapping : Mapping, attachPages.notices = [.attached pagesRegion.dataspace pagesRegion.attr, .map mapping]) ∧
    flushPages.notices.count (.detached pagesRegion.dataspace pagesRegion.attr) = 1 ∧
    detachPages.notices.count (.unmap 0x1000 0x2000) = 1 := by
  have hreach : detachPages.after.Reaches (.new 0x10000 16) [detachPages, attachSecond, flushPages, attachPages] :=
    .serve (.serve (.serve (.serve .new attachPages.alive attachPages.request) flushPages.alive flushPages.request)
      attachSecond.alive attachSecond.request) detachPages.alive detachPages.request
  have hlife : RegionLife [detachPages, attachSecond, flushPages, attachPages] pagesRegion attachPages
      [detachPages, attachSecond, flushPages] := by
    refine ⟨⟨[], rfl⟩, ⟨_, _, _, _, ⟨0x1000, 0x100000000, 0x2000⟩, rfl, by decide +kernel, by decide +kernel⟩, ?_⟩
    simp only [List.forall_mem_cons]
    decide +kernel
  have hpair := notices_pair hreach hlife
  obtain ⟨mapping, -, -, hregistered⟩ := hpair.registered
  refine ⟨hlife, ⟨mapping, hregistered⟩, ?_, hpair.removed detachPages (by simp) (by decide +kernel)⟩
  exact hpair.detached_first [detachPages, attachSecond] flushPages [] rfl (by decide +kernel) (by simp)

end NestedGuest
