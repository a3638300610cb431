/-
What the guest still reaches of a region that is reserved.

A flush marks the region that it finds reserved, and tells the region's dataspace that it is detached. The mark stays
until the region is removed (`MarkedBy`), even if windows of the dataspace are attached in the region again: such a
window is mapped without a word to the dataspace. So a reserved region may well be reached by the guest
(`reserved_region_translated`), but only in windows that were asked for since it was last flushed.

- `reserved_region_confined`: the addresses of a reserved region are not translated, except those of such windows.

Premise: core RAM gives the page table page-aligned storage that ends at or below `2 ^ 52` (`StorageFits`).
-/
import NestedGuest.Proofs.Session.Lookups
import NestedGuest.Proofs.Session.Release
import NestedGuest.Proofs.Session.Teardown

namespace NestedGuest

open Bench (Host)

variable {σ α : Type} {P : Platform σ} {virt : Virt} {config : Config} {steps later : List (Served σ)} {s : Session}
  {st x : Served σ} {r : Region} {a : UInt64} {tr : Translation}

/-! ## Histories of a reserved region -/

/-- `st` is a request to flush `r` -/
def Served.Flushes (st : Served σ) (r : Region) : Prop := ∃ a, st.request = .flush a ∧ r.attr.contains a = true

/-- `st` marked `r` reserved and told its dataspace, if it was still there; `r` has been so ever since -/
structure MarkedBy (P : Platform σ) (steps : List (Served σ)) (r : Region) (st : Served σ) (later : List (Served σ)) :
    Prop where
  split : ∃ earlier, steps = later ++ st :: earlier
  flushes : st.Flushes r
  unmarked : { r with reserved := false } ∈ st.before.memory.regions
  told : Calls (st.before.perform P st.request) st.world
    (if P.alive r.dataspace st.world.host then [.detachedFrom r.dataspace r.attr] else [])
  stays : ∀ x ∈ later, r ∈ x.before.memory.regions

/-- `st` was the last request to flush `r`, which has been there since -/
structure LastFlushedBy (steps : List (Served σ)) (r : Region) (st : Served σ) (later : List (Served σ)) : Prop where
  split : ∃ earlier, steps = later ++ st :: earlier
  flushes : st.Flushes r
  last : ∀ x ∈ later, ¬ x.Flushes r
  stays : ∀ x ∈ later, r ∈ x.before.memory.regions

theorem MarkedBy.push (h : MarkedBy P steps r st later) (hr : r ∈ x.before.memory.regions) :
    MarkedBy P (x :: steps) r st (x :: later) := by
  obtain ⟨earlier, hsplit⟩ := h.split
  exact { h with
    split := ⟨earlier, by rw [hsplit, List.cons_append]⟩
    stays := List.forall_mem_cons.2 ⟨hr, h.stays⟩ }

theorem LastFlushedBy.push (h : LastFlushedBy steps r st later) (hr : r ∈ x.before.memory.regions)
    (hx : ¬ x.Flushes r) : LastFlushedBy (x :: steps) r st (x :: later) := by
  obtain ⟨earlier, hsplit⟩ := h.split
  exact { h with
    split := ⟨earlier, by rw [hsplit, List.cons_append]⟩
    last := List.forall_mem_cons.2 ⟨hx, h.last⟩
    stays := List.forall_mem_cons.2 ⟨hr, h.stays⟩ }

theorem LastFlushedBy.now (h : x.Flushes r) : LastFlushedBy (x :: steps) r x [] where
  split := ⟨steps, rfl⟩
  flushes := h
  last := by simp
  stays := by simp

/-! ## Marks -/

/-- removing a region leaves the marks of the others alone -/
theorem Session.mem_of_removeRegionAt (hs : s.memory.Sound) {w : World σ}
    (hr : r ∈ (s.removeRegionAt P a w).1.memory.regions) : r ∈ s.memory.regions := by
  have hregions : (s.removeRegionAt P a w).1.memory = (s.memory.detachAt a).1 := by
    rw [removeRegionAt, settle_fst]
  rw [hregions, (GuestMemory.detachAt_drops hs a).regions] at hr
  exact List.filter_subset_self _ hr

theorem Session.reserveAndFlush_fst (P : Platform σ) (s : Session) (a : UInt64) (w : World σ) :
    (s.reserveAndFlush P a w).1.memory = (s.memory.reserveAndFlush a).1 := by
  rw [reserveAndFlush, spanned_fst, settle_fst]

/-- a flush marks the region that contains the address -/
theorem GuestMemory.reserveAndFlush_cases {m : GuestMemory} (hs : m.Sound)
    (hr : r ∈ (m.reserveAndFlush a).1.regions) (hres : r.reserved = true) :
    r ∈ m.regions ∨ r.attr.contains a = true ∧ { r with reserved := false } ∈ m.regions := by
  cases hfound : m.regionContaining a with
  | none =>
    rw [reserveAndFlush_of_none hfound] at hr
    exact Or.inl hr
  | some q =>
    obtain ⟨hq, ha⟩ := (regionContaining_eq_some_iff hs).1 hfound
    rw [reserveAndFlush_of_region hfound] at hr
    obtain ⟨p, hp, rfl⟩ := List.mem_map.1 hr
    unfold markAt at hres ⊢
    split_ifs with hbase
    · obtain rfl := hs.eq_of_base_eq hp hq hbase
      obtain ⟨attr, ds, reserved⟩ := p
      cases reserved with
      | true => exact Or.inl hp
      | false => exact Or.inr ⟨ha, hp⟩
    · exact Or.inl hp

/-- A mark that is seen after a request was there before, or the request is the flush that set it. -/
theorem Served.reserved_cases (hs : x.before.memory.Sound) (hr : r ∈ (x.after P).memory.regions)
    (hres : r.reserved = true) : r ∈ x.before.memory.regions ∨
      x.Flushes r ∧ { r with reserved := false } ∈ x.before.memory.regions := by
  by_cases hmemory : x.request.ConcernsMemory
  · obtain ⟨s, w, request⟩ := x
    cases request with
    | attach cap guest attr =>
      obtain ⟨s1, hmaps, hafter | ⟨w, hafter⟩⟩ := Served.attach_maps P hs rfl
      · rw [hafter] at hr
        exact Or.inl ((hmaps.regions hs).2 r hr hres)
      · rw [hafter] at hr
        exact Or.inl ((hmaps.regions hs).2 r (Session.mem_of_removeRegionAt (hmaps.sound hs) hr) hres)
    | detach guest size =>
      obtain ⟨fs, hrel⟩ := Served.releases_detach P hs w guest size
      rw [hrel.removed (by simp)] at hr
      exact Or.inl (List.filter_subset_self _ hr)
    | detachAt b =>
      obtain ⟨fs, hrel⟩ := Served.releases_detachAt P hs w b
      rw [hrel.removed (by simp)] at hr
      exact Or.inl (List.filter_subset_self _ hr)
    | flush b =>
      have hmemory : (after P ⟨s, w, .flush b⟩).memory = (s.memory.reserveAndFlush b).1 :=
        Session.reserveAndFlush_fst P s b w
      rw [hmemory] at hr
      rcases GuestMemory.reserveAndFlush_cases hs hr hres with hold | ⟨hcontains, hunmarked⟩
      · exact Or.inl hold
      · exact Or.inr ⟨⟨b, rfl, hcontains⟩, hunmarked⟩
    | _ => exact hmemory.elim
  · rw [(Served.sameMemory P x hmemory).regions] at hr
    exact Or.inl hr

/-- the dataspace of a region is told of it by the flush that marks it -/
theorem MarkedBy.now (hs : x.before.memory.Sound) (hflush : x.Flushes r)
    (hr : { r with reserved := false } ∈ x.before.memory.regions) : MarkedBy P (x :: steps) r x [] := by
  refine ⟨⟨steps, rfl⟩, hflush, hr, ?_, by simp⟩
  obtain ⟨s, w, request⟩ := x
  obtain ⟨b, rfl, hb⟩ := hflush
  have hfound : s.memory.regionContaining b = some { r with reserved := false } :=
    (GuestMemory.regionContaining_eq_some_iff hs).2 ⟨hr, hb⟩
  have hflushes := (GuestMemory.reserveAndFlush_eq hs b).2
  rw [GuestMemory.filter_contains hs, hfound, Option.toList_some] at hflushes
  have hcalls := carryOut_flushes_calls P [{ r with reserved := false }] s.table
    { w with journal := .span "reserve_and_flush" :: w.journal }
  rw [← hflushes] at hcalls
  have hnotices : notices P [{ r with reserved := false }] w.host =
      if P.alive r.dataspace w.host then [.detachedFrom r.dataspace r.attr] else [] := by
    simp [notices]
  rw [← hnotices]
  exact ((hcalls.map _).spanned "reserve_and_flush").map _

/-! ## The invariant -/

/-- `r` was marked and flushed, and it shows nothing but windows of its dataspace that were asked for after that -/
structure Withdrawn (P : Platform σ) (steps : List (Served σ)) (s : Session) (r : Region) : Prop where
  marked : ∃ st later, MarkedBy P steps r st later
  shows : ∃ st later, LastFlushedBy steps r st later ∧ ∀ a tr, r.attr.contains a = true → s.lookup a = some tr →
    ∃ x ∈ later, ∃ cap ds attr mapping, x.Asks P cap ds attr mapping ∧ r.Holds ds attr.offset mapping a.toNat tr.phys

/-- a flush clears the region, whether it was reserved before or not -/
theorem Withdrawn.flush (hm : Mirrors P virt steps x.before) (hs : x.before.memory.Sound)
    (hold : ∀ r ∈ x.before.memory.regions, r.reserved = true → Withdrawn P steps x.before r)
    (hr : r ∈ (x.after P).memory.regions) (hres : r.reserved = true) (hflush : x.Flushes r) :
    Withdrawn P (x :: steps) (x.after P) r := by
  obtain ⟨b, hb, hcontains⟩ := hflush
  have hcases := Served.reserved_cases hs hr hres
  obtain ⟨q, hq, hattr⟩ : ∃ q ∈ x.before.memory.regions, q.attr = r.attr := by
    rcases hcases with hbefore | ⟨-, hunmarked⟩
    · exact ⟨r, hbefore, rfl⟩
    · exact ⟨_, hunmarked, rfl⟩
  constructor
  · rcases hcases with hbefore | ⟨hflush, hunmarked⟩
    · obtain ⟨st, later, hmarked⟩ := (hold r hbefore hres).marked
      exact ⟨st, x :: later, hmarked.push hbefore⟩
    · exact ⟨x, [], .now hs hflush hunmarked⟩
  · refine ⟨x, [], .now ⟨b, hb, hcontains⟩, fun a tr ha htr => ?_⟩
    have hexact := hm.releasesExactly hs (by rw [hb]; exact trivial)
    have hout : x.TakesOut P q := (hexact.taken q).2 ⟨hq, by rw [hb, hattr]; exact hcontains⟩
    rw [hexact.cleared q a hout (hattr ▸ ha)] at htr
    cases htr

/-- any other request leaves the mark, and may show a window that it asks for -/
theorem Withdrawn.keep (hs : x.before.memory.Sound) (hs' : (x.after P).memory.Sound)
    (ht : PageTable.Reachable virt.format x.before.store.phys tableMax x.before.table)
    (hold : ∀ r ∈ x.before.memory.regions, r.reserved = true → Withdrawn P steps x.before r)
    (hr : r ∈ (x.after P).memory.regions) (hres : r.reserved = true) (hflush : ¬ x.Flushes r) :
    Withdrawn P (x :: steps) (x.after P) r := by
  have hbefore : r ∈ x.before.memory.regions := by
    rcases Served.reserved_cases hs hr hres with hbefore | ⟨hx, -⟩
    · exact hbefore
    · exact absurd hx hflush
  obtain ⟨⟨st, later, hmarked⟩, ⟨st', later', hlast, hshows⟩⟩ := hold r hbefore hres
  refine ⟨⟨st, x :: later, hmarked.push hbefore⟩, st', x :: later', hlast.push hbefore hflush, fun a tr ha htr => ?_⟩
  rcases Served.lookup_cases hs ht htr with ⟨htr, -⟩ | ⟨-, cap, ds, attr, mapping, hask, q, hq, hholds, -⟩
  · obtain ⟨y, hy, hasked⟩ := hshows a tr ha htr
    exact ⟨y, List.mem_cons_of_mem _ hy, hasked⟩
  · -- the window lies in the one region that contains `a`
    obtain ⟨hra, hrb⟩ := RegionAttr.contains_iff.1 ha
    obtain ⟨hqa, hqb⟩ := RegionAttr.contains_iff.1 hholds.contains
    obtain rfl := hs'.eq_of_mem hq hr hqa hqb hra hrb
    exact ⟨x, List.mem_cons_self, cap, ds, attr, mapping, hask, hholds⟩

theorem Session.Reaches.withdrawn (h : s.Reaches P virt config steps) (hfits : StorageFits s.store.phys tableMax) :
    ∀ r ∈ s.memory.regions, r.reserved = true → Withdrawn P steps s r := by
  induction h with
  | new hnew =>
    intro r hr
    rw [(Session.new_eq_ok hnew).1] at hr
    cases hr
  | @serve steps s hreach w request ih =>
    have hs := hreach.memory_sound
    obtain ⟨s1, fs, hmaps, hunmaps⟩ := Served.effect P ⟨s, w, request⟩ hs
    rw [hunmaps.store, hmaps.store] at hfits
    have hm := hreach.mirrors hfits
    intro r hr hres
    by_cases hflush : Served.Flushes ⟨s, w, request⟩ r
    · exact Withdrawn.flush (x := ⟨s, w, request⟩) hm hs (ih hfits) hr hres hflush
    · exact Withdrawn.keep (x := ⟨s, w, request⟩) hs (hreach.serve w request).memory_sound hreach.table_reachable
        (ih hfits) hr hres hflush

/-! ## Main results -/

/-- **A reserved region is out of reach, except for what was attached again.** Its dataspace was told that it is
detached, if it was still there, and after the last flush no address of it is translated, unless a window of its
dataspace was asked for there since; then the host address is the one in that window. -/
theorem reserved_region_confined (h : s.Reaches P virt config steps) (hfits : StorageFits s.store.phys tableMax)
    (hr : r ∈ s.memory.regions) (hres : r.reserved = true) :
    (∃ st later, MarkedBy P steps r st later) ∧
    ∃ st later, LastFlushedBy steps r st later ∧ ∀ a, r.attr.contains a = true → s.lookup a = none ∨
      ∃ tr, s.lookup a = some tr ∧ ∃ x ∈ later, ∃ cap ds attr mapping, x.Asks P cap ds attr mapping ∧
        (P.Resolves → cap = r.dataspace.cap) ∧ r.Holds ds attr.offset mapping a.toNat tr.phys := by
  obtain ⟨hmarked, st, later, hlast, hshows⟩ := h.withdrawn hfits r hr hres
  refine ⟨hmarked, st, later, hlast, fun a ha => ?_⟩
  cases htr : s.lookup a with
  | none => exact Or.inl rfl
  | some tr =>
    obtain ⟨x, hx, cap, ds, attr, mapping, hask, hholds⟩ := hshows a tr ha htr
    refine Or.inr ⟨tr, rfl, x, hx, cap, ds, attr, mapping, hask, fun hP => ?_, hholds⟩
    rw [← hholds.cap, hP cap _ ds hask.resolved]

/-- the second of two adjacent regions is flushed -/
def flushBehind : Served Host := ⟨attachBehind.after Host.platform, oneDataspace, .flush 0x5000⟩

/-- its second page is attached again -/
def attachAgain : Served Host :=
  ⟨flushBehind.after Host.platform, oneDataspace, .attach ⟨0x10⟩ 0x6000 ⟨0x2000, 0x1000, true, false⟩⟩

/-- that region, from its flush on -/
def reservedRegion : Region where
  attr := ⟨0x5000, 0x2000, 0x1000, true, false, false⟩
  dataspace := ⟨0, ⟨0x10⟩, 0x4000, 0x100000000, false, true⟩
  reserved := true

theorem reaches_attachAgain : (attachAgain.after Host.platform).Reaches Host.platform .svm .default
    [attachAgain, flushBehind, attachBehind, attachWhole] :=
  .serve (.serve (.serve (.serve reaches_emptySession oneDataspace attachWhole.request) oneDataspace
    attachBehind.request) oneDataspace flushBehind.request) oneDataspace attachAgain.request

/-- A region may be reserved, its dataspace told that it is detached, and still be reached by the guest. -/
theorem reserved_region_translated :
    ¬ ∀ (steps : List (Served Host)) (s : Session), s.Reaches Host.platform .svm .default steps →
        StorageFits s.store.phys tableMax →
        ∀ r ∈ s.memory.regions, r.reserved = true → ∀ a, r.attr.contains a = true → s.lookup a = none := by
  intro hnone
  have hfits : StorageFits (attachAgain.after Host.platform).store.phys tableMax := by decide +kernel
  have hr : reservedRegion ∈ (attachAgain.after Host.platform).memory.regions := by decide +kernel
  have htr : (attachAgain.after Host.platform).lookup 0x6000 = some ⟨0x100002000, 0x1000, .guestRam⟩ := by
    decide +kernel
  have habsent := hnone _ _ reaches_attachAgain hfits reservedRegion hr rfl 0x6000 (by decide)
  rw [htr] at habsent
  cases habsent

theorem reserved_region_confined_again :
    StorageFits (attachAgain.after Host.platform).store.phys tableMax ∧
    reservedRegion ∈ (attachAgain.after Host.platform).memory.regions ∧
    (∃ st later, MarkedBy Host.platform [attachAgain, flushBehind, attachBehind, attachWhole] reservedRegion st later) ∧
    ∃ (x : Served Host) (cap : DataspaceCap) (ds : Dataspace) (attr : AttachAttr) (mapping : Mapping),
      x.Asks Host.platform cap ds attr mapping ∧ reservedRegion.Holds ds attr.offset mapping 0x6000 0x100002000 := by
  have hfits : StorageFits (attachAgain.after Host.platform).store.phys tableMax := by decide +kernel
  have hr : reservedRegion ∈ (attachAgain.after Host.platform).memory.regions := by decide +kernel
  have htr : (attachAgain.after Host.platform).lookup 0x6000 = some ⟨0x100002000, 0x1000, .guestRam⟩ := by
    decide +kernel
  obtain ⟨hmarked, st, later, -, hshows⟩ := reserved_region_confined reaches_attachAgain hfits hr rfl
  refine ⟨hfits, hr, hmarked, ?_⟩
  rcases hshows 0x6000 (by decide) with hnone | ⟨tr, hsome, x, -, cap, ds, attr, mapping, hask, -, hholds⟩
  · rw [htr] at hnone
    cases hnone
  · obtain rfl := Option.some.inj (htr.symm.trans hsome)
    exact ⟨x, cap, ds, attr, mapping, hask, hholds⟩

end NestedGuest
