/-
What one request changes of what the guest reaches, in storage of any kind.

- `Served.lookup_cases`: an address that is translated after a request was translated before, in a region that is still
  there, or it was not, and lies in the window that the request asked for;
- `Session.Reaches.exists_region`: so no address is translated outside the regions.
-/
import NestedGuest.Proofs.Paging.Provenance
import NestedGuest.Proofs.Session.Undo

namespace NestedGuest

variable {σ : Type} {P : Platform σ} {virt : Virt} {config : Config} {steps : List (Served σ)} {s s' : Session}
  {x : Served σ} {fs : List Flush} {r : Region} {a : UInt64} {tr : Translation}

theorem Region.Holds.contains {ds : Dataspace} {offset : UInt64} {mapping : Mapping} {phys : ℕ}
    (h : r.Holds ds offset mapping a.toNat phys) : r.attr.contains a = true := by
  have hlow := h.low
  have hhigh := h.high
  have hfirst := h.first
  have hlast := h.last
  exact RegionAttr.contains_iff.2 ⟨by omega, by omega⟩

/-! ## What is mapped -/

/-- no window that is mapped marks a region, or takes a region away -/
theorem Served.Maps.regions (h : x.Maps P s) (hs : x.before.memory.Sound) :
    (∀ r ∈ x.before.memory.regions, r ∈ s.memory.regions) ∧
      ∀ r ∈ s.memory.regions, r.reserved = true → r ∈ x.before.memory.regions := by
  cases h with
  | nothing => exact ⟨fun r hr => hr, fun r hr _ => hr⟩
  | again => exact ⟨fun r hr => hr, fun r hr _ => hr⟩
  | fresh hask hplace =>
    obtain ⟨-, hnew⟩ := GuestMemory.place_eq_fresh hs hplace
    obtain ⟨hfresh, -⟩ := GuestMemory.place_fresh_books hplace
    refine ⟨fun r hr => hnew.mem.2 (Or.inr hr), fun r hr hres => ?_⟩
    rcases hnew.mem.1 hr with rfl | hr
    · rw [hfresh] at hres
      cases hres
    · exact hr

/-- A translation that is there after a window was mapped was there before, or it is that of the window just asked for.
The window lies in a region that was there, or it became one. -/
theorem Served.Maps.lookup_cases (h : x.Maps P s) (hs : x.before.memory.Sound)
    (ht : PageTable.Reachable virt.format x.before.store.phys tableMax x.before.table) (htr : s.lookup a = some tr) :
    x.before.lookup a = some tr ∨ x.before.lookup a = none ∧ ∃ cap ds attr mapping, x.Asks P cap ds attr mapping ∧
      ∃ r ∈ s.memory.regions, r.Holds ds attr.offset mapping a.toNat tr.phys ∧
        (r ∈ x.before.memory.regions ∧ x.before.memory.place ds mapping.guest attr = .ok (.again mapping) ∨
          r.attr.base = mapping.guest ∧ r.attr.offset = attr.offset) := by
  -- what the page table says of a window that lies in `r`
  have hmapped {cap : DataspaceCap} {ds : Dataspace} {attr : AttachAttr} {mapping : Mapping}
      (hask : x.Asks P cap ds attr mapping)
      (htable : (x.before.table.insert mapping.guest mapping.host mapping.size .guestRam).1.lookup a = some tr) :
      x.before.lookup a = some tr ∨ x.before.lookup a = none ∧ ∀ r : Region, ds.cap = r.dataspace.cap →
        r.attr.base.toNat ≤ mapping.guest.toNat → mapping.guest.toNat + mapping.size.toNat ≤ r.attr.stop →
          r.Holds ds attr.offset mapping a.toNat tr.phys := by
    refine (PageTable.lookup_insert (by decide) ht htable).imp_right ?_
    rintro ⟨hnone, hlow, hhigh, hphys⟩
    obtain ⟨-, -, -, hhost⟩ := select?_eq_some hask.window
    exact ⟨hnone, fun r hcap hfirst hlast =>
      { cap := hcap, first := hfirst, last := hlast, low := hlow, high := hhigh, phys := by rw [hphys, hhost] }⟩
  cases h with
  | nothing => exact Or.inl htr
  | again hask hplace =>
    obtain ⟨-, r, hr, hcap, hfirst, hlast⟩ := GuestMemory.place_eq_again hs hplace
    refine (hmapped hask htr).imp_right fun ⟨hnone, hholds⟩ => ?_
    exact ⟨hnone, _, _, _, _, hask, r, hr, hholds r hcap.symm hfirst hlast, Or.inl ⟨hr, hplace⟩⟩
  | @fresh _ _ _ _ _ region hask hplace =>
    obtain ⟨-, hnew⟩ := GuestMemory.place_eq_fresh hs hplace
    refine (hmapped hask htr).imp_right fun ⟨hnone, hholds⟩ => ?_
    have hin := hholds region (congrArg Dataspace.cap hnew.dataspace.symm) (by rw [hnew.base])
      (by rw [RegionAttr.stop, hnew.base, hnew.size])
    exact ⟨hnone, _, _, _, _, hask, region, hnew.mem.2 (Or.inl rfl), hin, Or.inr ⟨hnew.base, hnew.offset⟩⟩

/-! ## What is unmapped -/

theorem PageTable.removeAll_within (t : PageTable) (fs : List Flush) : PageTable.Within (t.removeAll fs) t := by
  rw [PageTable.removeAll]
  exact PageTable.foldl_within (fun t f => PageTable.remove_within t f.region.base f.region.size) fs t

/-- nothing is translated in a region that was flushed -/
theorem PageTable.lookup_removeAll {t : PageTable} {f : Flush} (hf : f ∈ fs) (ha : f.region.contains a = true) :
    (t.removeAll fs).lookup a = none := by
  obtain ⟨before, behind, rfl⟩ := List.append_of_mem hf
  obtain ⟨hlow, hhigh⟩ := RegionAttr.contains_iff.1 ha
  rw [PageTable.removeAll, List.foldl_append, List.foldl_cons, Option.eq_none_iff_forall_ne_some]
  intro tr htr
  have hkept := (PageTable.removeAll_within _ behind).lookup htr
  rw [PageTable.lookup_remove _ hlow hhigh] at hkept
  cases hkept

/-- what is translated after regions were unmapped was translated before, in regions that are still there -/
theorem Session.Unmaps.lookup (hu : s.Unmaps s' fs) (htr : s'.lookup a = some tr) :
    s.lookup a = some tr ∧ ∀ r ∈ s.memory.regions, r.attr.contains a = true → r ∈ s'.memory.regions := by
  rw [Session.lookup, hu.table] at htr
  refine ⟨(s.table.removeAll_within fs).lookup htr, fun r hr ha => ?_⟩
  refine (hu.memory.kept r hr).resolve_right ?_
  rintro ⟨f, hf, hattr⟩
  rw [PageTable.lookup_removeAll hf (hattr ▸ ha)] at htr
  cases htr

/-! ## One request, and a run -/

/-- A translation that is there after a request was there before, and the region of its address still is. Otherwise the
address was not translated, and the request asked for the window that shows it. -/
theorem Served.lookup_cases (hs : x.before.memory.Sound)
    (ht : PageTable.Reachable virt.format x.before.store.phys tableMax x.before.table)
    (htr : (x.after P).lookup a = some tr) :
    x.before.lookup a = some tr ∧
        (∀ r ∈ x.before.memory.regions, r.attr.contains a = true → r ∈ (x.after P).memory.regions) ∨
      x.before.lookup a = none ∧ ∃ cap ds attr mapping, x.Asks P cap ds attr mapping ∧
        ∃ r ∈ (x.after P).memory.regions, r.Holds ds attr.offset mapping a.toNat tr.phys ∧
          (r ∈ x.before.memory.regions ∧ x.before.memory.place ds mapping.guest attr = .ok (.again mapping) ∨
            r.attr.base = mapping.guest ∧ r.attr.offset = attr.offset) := by
  obtain ⟨s1, fs, hmaps, hunmaps⟩ := Served.effect P x hs
  obtain ⟨htr, hstays⟩ := hunmaps.lookup htr
  rcases hmaps.lookup_cases hs ht htr with hbefore | ⟨hnone, cap, ds, attr, mapping, hask, r, hr, hholds, hplace⟩
  · exact Or.inl ⟨hbefore, fun r hr => hstays r ((hmaps.regions hs).1 r hr)⟩
  · exact Or.inr ⟨hnone, cap, ds, attr, mapping, hask, r, hstays r hr hholds.contains, hholds, hplace⟩

/-- a new session translates nothing -/
theorem Session.lookup_new {w : World σ} (h : (Session.new P virt config w).1 = .ok s) : s.lookup a = none := by
  rw [Session.lookup, (Session.new_eq_ok h).2, PageTable.lookup_eq, PageTable.new, PageTable.leafOf_withCapacity]
  rfl

/-- Every address that is translated lies in a region. -/
theorem Session.Reaches.exists_region (h : s.Reaches P virt config steps) (htr : s.lookup a = some tr) :
    ∃ r ∈ s.memory.regions, r.attr.contains a = true := by
  induction h generalizing tr with
  | new hnew =>
    rw [Session.lookup_new hnew] at htr
    cases htr
  | @serve steps s hreach w request ih =>
    rcases Served.lookup_cases (x := ⟨s, w, request⟩) hreach.memory_sound hreach.table_reachable htr with
      ⟨hbefore, hstays⟩ | ⟨-, cap, ds, attr, mapping, -, r, hr, hholds, -⟩
    · obtain ⟨r, hr, ha⟩ := ih hbefore
      exact ⟨r, hstays r hr ha, ha⟩
    · exact ⟨r, hr, hholds.contains⟩

end NestedGuest
