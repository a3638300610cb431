/-
Which tables a session keeps in use.

Every change of the page table follows a change of guest memory: a window is mapped in a region that is registered by
then, and a region that goes is unmapped as a whole, whatever had become of its windows. So a table is in use only as
long as some registered region has an address in its block.

- `tables_cover_regions`: every table in use is there for an address of a registered region, and without regions no
  table is in use.

Premise: core RAM gives the page table page-aligned storage that ends at or below `2 ^ 52` (`StorageFits`).
-/
import NestedGuest.Proofs.Paging.Coverage
import NestedGuest.Proofs.Session.Release

namespace NestedGuest

open Bench (Host)

variable {σ : Type} {P : Platform σ} {virt : Virt} {config : Config} {steps : List (Served σ)} {s s' : Session}
  {x : Served σ} {fs : List Flush} {t : PageTable} {A : ℕ → Prop}

/-- `a` lies in a registered region -/
def GuestMemory.Holds (m : GuestMemory) (a : ℕ) : Prop := ∃ r ∈ m.regions, r.attr.base.toNat ≤ a ∧ a < r.attr.stop

/-- regions removed one after the other leave nothing that is in use for their addresses only -/
theorem PageTable.Covers.removeAll (h : t.Covers A) (fs : List Flush) :
    (t.removeAll fs).Covers fun a => A a ∧ ∀ f ∈ fs, ¬ (f.region.base.toNat ≤ a ∧ a < f.region.stop) := by
  induction fs generalizing t A with
  | nil => exact h.mono fun a ha => ⟨ha, by simp⟩
  | cons f fs ih =>
    refine (ih (h.remove f.region.base f.region.size)).mono fun a ha => ⟨ha.1.1, ?_⟩
    exact List.forall_mem_cons.2 ⟨ha.1.2, ha.2⟩

/-- a window is mapped in a region that is registered -/
theorem Served.Maps.covers (h : x.Maps P s) (hs : x.before.memory.Sound)
    (hcovers : x.before.table.Covers x.before.memory.Holds) : s.table.Covers s.memory.Holds := by
  cases h with
  | nothing => exact hcovers
  | @again cap ds attr mapping hask hplace =>
    obtain ⟨-, r, hr, -, hfirst, hlast⟩ := GuestMemory.place_eq_again hs hplace
    refine (hcovers.insert mapping.guest mapping.host mapping.size .guestRam).mono fun a ha => ?_
    rcases ha with hold | hin
    · exact hold
    · exact ⟨r, hr, by omega, by omega⟩
  | @fresh cap ds attr mapping memory region hask hplace hreply =>
    obtain ⟨-, hnew⟩ := GuestMemory.place_eq_fresh hs hplace
    refine (hcovers.insert mapping.guest mapping.host mapping.size .guestRam).mono fun a ha => ?_
    rcases ha with ⟨r, hr, hin⟩ | hin
    · exact ⟨r, hnew.mem.2 (Or.inr hr), hin⟩
    · refine ⟨region, hnew.mem.2 (Or.inl rfl), ?_⟩
      rw [RegionAttr.stop, hnew.base, hnew.size]
      exact hin

/-- a region that goes was flushed -/
theorem Session.Unmaps.covers (h : s.Unmaps s' fs) (hcovers : s.table.Covers s.memory.Holds) :
    s'.table.Covers s'.memory.Holds := by
  rw [h.table]
  refine (hcovers.removeAll fs).mono fun a ha => ?_
  obtain ⟨⟨r, hr, hin⟩, hother⟩ := ha
  rcases h.memory.kept r hr with hkept | ⟨f, hf, hattr⟩
  · exact ⟨r, hkept, hin⟩
  · exact absurd hin (hattr ▸ hother f hf)

/-- tables are in use for registered regions only, in every state reached -/
theorem Session.Reaches.covers (h : s.Reaches P virt config steps) (hfits : StorageFits s.store.phys tableMax) :
    s.table.Covers s.memory.Holds := by
  induction h with
  | new h =>
    rw [(Session.new_eq_ok h).2]
    exact .withCapacity hfits _
  | @serve steps s hreach w request ih =>
    have hs := hreach.memory_sound
    obtain ⟨s1, fs, hmaps, hunmaps⟩ := Served.effect P ⟨s, w, request⟩ hs
    rw [hunmaps.store, hmaps.store] at hfits
    exact hunmaps.covers (hmaps.covers hs (ih hfits))

/-! ## Main result -/

/-- **No table leaks.** Each table in use is one that the root leads to, and its block of addresses meets a region that
is registered, however insertions failed, were kept or rolled back. Without regions no table is in use. -/
theorem tables_cover_regions (h : s.Reaches P virt config steps) (hfits : StorageFits s.store.phys tableMax) :
    (∀ p tb, s.table.nodes.get? p = some tb → (∃ l k, l < rootLevel ∧ s.table.TableFor l k p) ∧
      ∀ l k, s.table.TableFor l k p → ∃ r ∈ s.memory.regions, ∃ a : UInt64,
        r.attr.contains a = true ∧ a.toNat / levelSize (l + 1) = k) ∧
    (s.memory.regions = [] → s.table.tablesInUse = 0) := by
  have hcovers := h.covers hfits
  obtain ⟨pos, hshaped⟩ := hcovers.shaped
  refine ⟨fun p tb hp => ⟨hshaped.exists_tableFor hp, fun l k hfor => ?_⟩, fun hnone => ?_⟩
  · obtain ⟨m, j, hm, hplace⟩ := hshaped.exists_tableFor hp
    rw [hshaped.tableFor_iff] at hfor hplace
    obtain ⟨rfl, rfl⟩ := Prod.mk.inj (Option.some.inj (hplace.symm.trans hfor))
    obtain ⟨a, ⟨r, hr, hin⟩, rfl⟩ := hcovers.tables m j p (hshaped.tableFor_iff.2 hfor) hm
    have hlt := hshaped.lt_addressSpaceEnd hfor
    have hword : (UInt64.ofNat a).toNat = a := UInt64.toNat_ofNat_of_lt' (hlt.trans (by decide))
    refine ⟨r, hr, UInt64.ofNat a, ?_, by rw [hword]⟩
    rw [RegionAttr.contains_iff, hword]
    exact hin
  · refine (hcovers.mono fun a ha => ?_).tablesInUse_eq_zero
    obtain ⟨r, hr, -⟩ := ha
    rw [hnone] at hr
    cases hr

/-- after the first of two regions, which share their tables, the other one is detached -/
def detachLast : Served Host := ⟨detachMiddle.after Host.platform, oneDataspace, .detachAt 0x5000⟩

theorem tables_cover_regions_last :
    StorageFits (detachLast.after Host.platform).store.phys tableMax ∧
    detachLast.before.table.tablesInUse = 3 ∧
    (detachLast.after Host.platform).memory.regions = [] ∧ (detachLast.after Host.platform).table.tablesInUse = 0 := by
  have hreach : (detachLast.after Host.platform).Reaches Host.platform .svm .default
      [detachLast, detachMiddle, attachBehind, attachWhole] :=
    .serve (.serve (.serve (.serve reaches_emptySession oneDataspace attachWhole.request) oneDataspace
      attachBehind.request) oneDataspace detachMiddle.request) oneDataspace detachLast.request
  have hfits : StorageFits (detachLast.after Host.platform).store.phys tableMax := by decide +kernel
  have hnone : (detachLast.after Host.platform).memory.regions = [] := by decide +kernel
  exact ⟨hfits, by decide +kernel, hnone, (tables_cover_regions hreach hfits).2 hnone⟩

end NestedGuest
