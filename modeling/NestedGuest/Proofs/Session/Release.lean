/-
Detaching and flushing never disturb neighbours.

A removal from the page table clears whole leaves, however large, as soon as the range touches them. Since each leaf
lies in one region (`Mirrors.inside`), and a request to detach or flush takes out whole regions (`GuestMemory.Drops`),
no address outside these regions loses its translation.

- `released_exactly`: which regions a request takes out, that none of their addresses is translated any more, and that
  every other address is translated as before.

Premise: core RAM gives the page table page-aligned storage that ends at or below `2 ^ 52` (`StorageFits`).
-/
import NestedGuest.Proofs.Memory.Walk
import NestedGuest.Proofs.Session.Translations

namespace NestedGuest

open Bench (Host)
open GuestMemory (DetachWellFormed Drops Flushed)

variable {σ : Type} {P : Platform σ} {virt : Virt} {config : Config} {steps : List (Served σ)} {s s' : Session}
  {st : Served σ} {fs : List Flush}

/-! ## Requests that take regions out -/

/-- a request to detach or to flush -/
def Request.Releases : Request → Prop
  | .detach _ _ | .detachAt _ | .flush _ => True
  | _ => False

/-- the regions that a request to detach or to flush is about, by their attributes -/
def Request.names : Request → RegionAttr → Bool
  | .detach guest size, r =>
    decide (DetachWellFormed guest size) && r.meets guest.toNat (guest.toNat + (size.toNat - 1))
  | .detachAt a, r | .flush a, r => r.contains a
  | _, _ => false

namespace Served

/-- the request removes the region, or it is a request to flush an address in it -/
structure TakesOut (P : Platform σ) (st : Served σ) (r : Region) : Prop where
  registered : r ∈ st.before.memory.regions
  released : r.attr ∉ (st.after P).memory.attrs ∨ ∃ a, st.request = .flush a ∧ r.attr.contains a = true

/-- The regions that the request is about are taken out, and no other. Their addresses are not translated afterwards,
all others are as they were, and a request that is about no region leaves the whole page table alone. -/
structure ReleasesExactly (P : Platform σ) (st : Served σ) : Prop where
  taken : ∀ r, st.TakesOut P r ↔ r ∈ st.before.memory.regions ∧ st.request.names r.attr = true
  cleared : ∀ r a, st.TakesOut P r → r.attr.contains a = true → (st.after P).lookup a = none
  kept : ∀ a, (∀ r, st.TakesOut P r → r.attr.contains a = false) → (st.after P).lookup a = st.before.lookup a
  idle : (∀ r ∈ st.before.memory.regions, st.request.names r.attr = false) → (st.after P).table = st.before.table

/-- what a request to detach or to flush does: it unmaps the regions that it is about, and removes them unless they are
only to be flushed -/
structure Releases (P : Platform σ) (st : Served σ) (fs : List Flush) : Prop where
  unmaps : st.before.Unmaps (st.after P) fs
  flushes : fs = (st.before.memory.regions.filter fun r => st.request.names r.attr).map Region.flush
  removed : (∀ a, st.request ≠ .flush a) →
    (st.after P).memory.regions = st.before.memory.regions.filter fun r => !st.request.names r.attr
  registered : ∀ a, st.request = .flush a → (st.after P).memory.attrs = st.before.memory.attrs

/-- without a region that it is about, the request leaves the session as it was -/
theorem releases_nothing (hafter : st.after P = st.before)
    (hnone : ∀ r ∈ st.before.memory.regions, st.request.names r.attr = false) : st.Releases P [] := by
  have hd : Drops st.before.memory st.before.memory [] st.request.names := .of_none hnone
  refine ⟨?_, hd.flushes, fun _ => ?_, fun _ _ => ?_⟩
  · rw [hafter]
    exact .of_sameMemory (.refl _)
  · rw [hafter]
    exact hd.regions
  · rw [hafter]

/-- the regions are taken out of the books, and then unmapped -/
theorem releases_of_drops {m : GuestMemory} {w : World σ} (hafter : st.after P = (st.before.settle P m fs w).1)
    (hflush : ∀ a, st.request ≠ .flush a) (hf : Flushed st.before.memory m fs)
    (hd : Drops st.before.memory m fs st.request.names) : st.Releases P fs where
  unmaps := by
    rw [hafter]
    exact .of_settle P hf w
  flushes := hd.flushes
  removed _ := by
    rw [hafter, Session.settle_fst]
    exact hd.regions
  registered a ha := absurd ha (hflush a)

theorem releases_detach (P : Platform σ) (hs : s.memory.Sound) (w : World σ) (guest size : UInt64) :
    ∃ fs, Releases P ⟨s, w, .detach guest size⟩ fs := by
  have hafter : after P ⟨s, w, .detach guest size⟩ = (s.detach P guest size w).1 := rfl
  rw [Session.detach, spanned_fst, spanned_fst] at hafter
  rcases GuestMemory.detach?_drops hs guest size with ⟨hnone, hformed⟩ | ⟨m, fs, hsome, hformed, hd⟩
  · rw [hnone] at hafter
    refine ⟨[], releases_nothing hafter fun r _ => ?_⟩
    rw [Request.names, decide_eq_false hformed, Bool.false_and]
  · rw [hsome] at hafter
    refine ⟨fs, releases_of_drops hafter (by simp) (GuestMemory.detach?_flushed hs hsome) (hd.congr fun r _ => ?_)⟩
    rw [Request.names, decide_eq_true hformed, Bool.true_and]

theorem releases_detachAt (P : Platform σ) (hs : s.memory.Sound) (w : World σ) (a : UInt64) :
    ∃ fs, Releases P ⟨s, w, .detachAt a⟩ fs :=
  ⟨_, releases_of_drops rfl (by simp) (GuestMemory.detachAt_flushed hs a) (GuestMemory.detachAt_drops hs a)⟩

theorem releases_flush (P : Platform σ) (hs : s.memory.Sound) (w : World σ) (a : UInt64) :
    ∃ fs, Releases P ⟨s, w, .flush a⟩ fs := by
  have hafter : after P ⟨s, w, .flush a⟩ = (s.reserveAndFlush P a w).1 := rfl
  rw [Session.reserveAndFlush, spanned_fst] at hafter
  obtain ⟨hattrs, hflushes⟩ := GuestMemory.reserveAndFlush_eq hs a
  refine ⟨_, ?_, hflushes, fun hflush => absurd rfl (hflush a), fun _ _ => ?_⟩
  · rw [hafter]
    exact .of_settle P (GuestMemory.reserveAndFlush_flushed hs a) _
  · rw [hafter, Session.settle_fst]
    exact hattrs

/-- every request to detach or to flush is of this kind -/
theorem releases (P : Platform σ) (st : Served σ) (hs : st.before.memory.Sound) (hreq : st.request.Releases) :
    ∃ fs, st.Releases P fs := by
  obtain ⟨s, w, request⟩ := st
  cases request with
  | detach guest size => exact releases_detach P hs w guest size
  | detachAt a => exact releases_detachAt P hs w a
  | flush a => exact releases_flush P hs w a
  | _ => exact hreq.elim

/-- a request takes out the regions that it is about -/
theorem Releases.takesOut_iff (h : st.Releases P fs) {r : Region} :
    st.TakesOut P r ↔ r ∈ st.before.memory.regions ∧ st.request.names r.attr = true := by
  constructor
  · intro hout
    rcases hout with ⟨hr, hgone | ⟨a, ha, hcontains⟩⟩
    · refine ⟨hr, ?_⟩
      by_contra hnames
      by_cases hflush : ∃ a, st.request = .flush a
      · obtain ⟨a, ha⟩ := hflush
        rw [h.registered a ha] at hgone
        exact hgone (GuestMemory.mem_attrs hr)
      · have hkept := h.removed fun a ha => hflush ⟨a, ha⟩
        refine hgone (GuestMemory.mem_attrs ?_)
        rw [hkept, List.mem_filter]
        exact ⟨hr, by simpa using hnames⟩
    · refine ⟨hr, ?_⟩
      rw [ha]
      exact hcontains
  · intro hx
    rcases hx with ⟨hr, hnames⟩
    refine ⟨hr, ?_⟩
    by_cases hflush : ∃ a, st.request = .flush a
    · obtain ⟨a, ha⟩ := hflush
      rw [ha] at hnames
      exact Or.inr ⟨a, ha, hnames⟩
    · refine Or.inl fun hmem => ?_
      obtain ⟨q, hq, hattr⟩ := List.mem_map.1 hmem
      rw [h.removed fun a ha => hflush ⟨a, ha⟩, List.mem_filter, hattr, hnames] at hq
      exact absurd hq.2 (by decide)

end Served

/-! ## Translations -/

/-- Unmapping regions takes the translations of their addresses and no others. -/
theorem Mirrors.lookup_unmaps (h : Mirrors P virt steps s) (hs : s.memory.Sound) (hu : s.Unmaps s' fs) (a : UInt64) :
    s'.lookup a = if (fs.any fun f => f.region.contains a) = true then none else s.lookup a := by
  obtain ⟨-, hrem⟩ := PageTable.removeAll_removes h.table fs
  rw [← hu.table] at hrem
  rw [Session.lookup, Session.lookup, PageTable.lookup_eq, PageTable.lookup_eq, hrem.leafOf]
  cases hleaf : s.table.leafOf a.toNat with
  | none => simp
  | some x =>
    obtain ⟨r, hr, hin, -⟩ := h.inside a.toNat x.1 x.2 hleaf
    have hmeets := hin.any_meets_iff hs hr (PageTable.lt_addressSpaceEnd_of_leafOf hleaf) hu.memory.source
    -- the flushed region that contains `a` is the one that the leaf lies in
    have hany : (fs.any fun f => f.region.contains a) = true ↔ ∃ f ∈ fs, f.region = r.attr := by
      rw [List.any_eq_true]
      refine exists_congr fun f => and_congr_right fun hf => ?_
      obtain ⟨q, hq, hattr⟩ := List.mem_map.1 (hu.memory.source f hf)
      rw [← hattr, RegionAttr.contains_iff]
      constructor
      · intro ha
        rw [hs.eq_of_mem hq hr ha.1 ha.2 (hin _ rfl).1 (hin _ rfl).2]
      · intro hqr
        rw [hqr]
        exact hin _ rfl
    rw [Option.filter_some]
    by_cases hout : (fs.any fun f => f.region.contains a) = true
    · rw [if_pos hout, hmeets.2 (hany.1 hout)]
      rfl
    · have hnot := mt hmeets.1 (mt hany.2 hout)
      rw [if_neg hout, Bool.eq_false_iff.2 hnot]
      exact congrArg some (PageTable.translationOf_congr hrem.same.format _ _)

/-- in line with guest memory, the page table loses exactly what the request is about -/
theorem Mirrors.releasesExactly (h : Mirrors P virt steps st.before) (hs : st.before.memory.Sound)
    (hreq : st.request.Releases) : st.ReleasesExactly P := by
  obtain ⟨fs, hrel⟩ := Served.releases P st hs hreq
  have hlookup := h.lookup_unmaps hs hrel.unmaps
  have hany : ∀ a, (fs.any fun f => f.region.contains a) = true ↔ ∃ r, st.TakesOut P r ∧ r.attr.contains a = true := by
    intro a
    simp only [hrel.takesOut_iff, hrel.flushes, List.any_map, List.any_filter, List.any_eq_true, Bool.and_eq_true,
      Function.comp_apply, Region.flush, and_assoc]
  refine ⟨fun r => hrel.takesOut_iff, fun r a hr ha => ?_, fun a ha => ?_, fun hnone => ?_⟩
  · rw [hlookup, if_pos ((hany a).2 ⟨r, hr, ha⟩)]
  · rw [hlookup, if_neg]
    intro hx
    obtain ⟨r, hr, hcontains⟩ := (hany a).1 hx
    rw [ha r hr] at hcontains
    cases hcontains
  · have hnil : fs = [] := by
      rw [hrel.flushes, List.filter_eq_nil_iff.2 fun r hr => Bool.eq_false_iff.1 (hnone r hr)]
      rfl
    rw [hrel.unmaps.table, hnil]
    rfl

/-! ## Main result -/

/-- **Neighbours are left alone.** In every state of a session, a request to detach or to flush takes out the regions
that it is about. No address of these is translated afterwards, every other address has the translation that it had,
and a malformed request, or one for an address in no region, changes no translation at all. -/
theorem released_exactly (h : s.Reaches P virt config steps) (hfits : StorageFits s.store.phys tableMax) (w : World σ)
    {request : Request} (hreq : request.Releases) : Served.ReleasesExactly P ⟨s, w, request⟩ := by
  have hmirrors : Mirrors P virt steps (Served.before ⟨s, w, request⟩) := h.mirrors hfits
  exact hmirrors.releasesExactly h.memory_sound hreq

/-- two pages more are attached right behind the region of the whole dataspace -/
def attachBehind : Served Host :=
  ⟨attachWhole.after Host.platform, oneDataspace, .attach ⟨0x10⟩ 0x5000 ⟨0x1000, 0x2000, true, false⟩⟩

/-- a page in the middle of the first region is detached -/
def detachMiddle : Served Host := ⟨attachBehind.after Host.platform, oneDataspace, .detach 0x2000 0x1000⟩

theorem released_exactly_next_page :
    StorageFits detachMiddle.before.store.phys tableMax ∧ detachMiddle.request.Releases ∧
    detachMiddle.before.lookup 0x4fff = some ⟨0x100003fff, 0x1000, .guestRam⟩ ∧
    (detachMiddle.after Host.platform).lookup 0x4fff = none ∧
    detachMiddle.before.lookup 0x5000 = some ⟨0x100001000, 0x1000, .guestRam⟩ ∧
    (detachMiddle.after Host.platform).lookup 0x5000 = some ⟨0x100001000, 0x1000, .guestRam⟩ := by
  have hfits : StorageFits detachMiddle.before.store.phys tableMax := by decide +kernel
  have hreach : detachMiddle.before.Reaches Host.platform .svm .default [attachBehind, attachWhole] :=
    .serve (.serve reaches_emptySession oneDataspace attachWhole.request) oneDataspace attachBehind.request
  have hfirst : detachMiddle.before.lookup 0x4fff = some ⟨0x100003fff, 0x1000, .guestRam⟩ := by decide +kernel
  have hsecond : detachMiddle.before.lookup 0x5000 = some ⟨0x100001000, 0x1000, .guestRam⟩ := by decide +kernel
  have hwhole : wholeRegion ∈ detachMiddle.before.memory.regions := by decide +kernel
  have hothers : ∀ r ∈ detachMiddle.before.memory.regions, detachMiddle.request.names r.attr = true →
      r.attr.contains 0x5000 = false := by decide +kernel
  have hreq : detachMiddle.request.Releases := trivial
  have hexact : detachMiddle.ReleasesExactly Host.platform := released_exactly hreach hfits oneDataspace hreq
  refine ⟨hfits, hreq, hfirst, ?_, hsecond, ?_⟩
  · exact hexact.cleared wholeRegion 0x4fff ((hexact.taken wholeRegion).2 ⟨hwhole, by decide⟩) (by decide)
  · rw [hexact.kept 0x5000 fun r hr => ?_, hsecond]
    obtain ⟨hmem, hnames⟩ := (hexact.taken r).1 hr
    exact hothers r hmem hnames

end NestedGuest
