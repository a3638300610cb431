/-
Permissions are recorded, not enforced.

A region records whether it is writeable and executable, as its dataspace and the request that registered it allow. The
page table takes no part in that: all guest RAM is mapped with the same attributes, which grant both.

- `permissions_recorded`: what is recorded of a region is what was allowed, and every translation grants both;
- `permissions_not_enforced`: so a read-only dataspace can be written through a translation.
-/
import NestedGuest.Proofs.Paging.Contents
import NestedGuest.Proofs.Session.Lookups

namespace NestedGuest

open Bench (Host)

variable {σ : Type} {P : Platform σ} {virt : Virt} {config : Config} {steps : List (Served σ)} {s s' : Session}
  {x : Served σ} {fs : List Flush} {r : Region}

/-! ## The page table -/

/-- an entry in use lets the guest write and execute -/
def EntryFormat.Grants (f : EntryFormat) (e : UInt64) : Prop :=
  f.present e = true → (f.flags e).contains .write = true ∧ (f.flags e).contains .execute = true

/-- references restrict nothing, and guest RAM may be written and executed -/
theorem EntryFormat.writes_grants (f : EntryFormat) : PageTable.Writes f .guestRam f.Grants where
  zero h := by
    rw [present_zero] at h
    cases h
  table p _ := by
    rw [flags_table]
    cases f <;> decide
  leaf p isLarge _ := by
    rw [flags_leaf]
    cases f <;> decide

/-- what is mapped is guest RAM -/
theorem Served.Maps.grants (h : x.Maps P s) (ht : x.before.table.Stores virt.format virt.format.Grants) :
    s.table.Stores virt.format virt.format.Grants := by
  cases h with
  | nothing => exact ht
  | again => exact ht.insert virt.format.writes_grants _ _ _
  | fresh => exact ht.insert virt.format.writes_grants _ _ _

theorem Session.Unmaps.grants (h : s.Unmaps s' fs) (ht : s.table.Stores virt.format virt.format.Grants) :
    s'.table.Stores virt.format virt.format.Grants := by
  rw [h.table, PageTable.removeAll]
  exact List.foldlRecOn (motive := fun t : PageTable => t.Stores virt.format virt.format.Grants) _ _ ht
    fun t ht f _ => ht.remove virt.format.writes_grants.zero _ _

theorem Session.Reaches.grants (h : s.Reaches P virt config steps) :
    s.table.Stores virt.format virt.format.Grants := by
  induction h with
  | new hnew =>
    rw [(Session.new_eq_ok hnew).2]
    exact PageTable.stores_withCapacity virt.format.writes_grants.zero _ _
  | @serve steps s hreach w request ih =>
    obtain ⟨s1, fs, hmaps, hunmaps⟩ := Served.effect P ⟨s, w, request⟩ hreach.memory_sound
    exact hunmaps.grants (Served.Maps.grants (x := ⟨s, w, request⟩) hmaps ih)

/-! ## The record -/

namespace GuestMemory

/-- a region records what its dataspace and the request allow -/
theorem place_fresh_permissions {m m' : GuestMemory} {ds : Dataspace} {guest : UInt64} {attr : AttachAttr}
    {mapping : Mapping} (h : m.place ds guest attr = .ok (.fresh m' r mapping)) :
    r.attr.write = (ds.writeable && attr.writeable) ∧ r.attr.exec = attr.executable := by
  unfold place at h
  split at h
  · cases h
  simp only at h
  split_ifs at h
  · cases h
  · split at h
    · cases h
    · cases h
      exact ⟨rfl, rfl⟩

end GuestMemory

/-- the request asked for the permissions that the region records, as far as its dataspace has them -/
def Served.Permits (P : Platform σ) (st : Served σ) (r : Region) : Prop :=
  ∃ cap attr mapping, st.Asks P cap r.dataspace attr mapping ∧
    r.attr.write = (r.dataspace.writeable && attr.writeable) ∧ r.attr.exec = attr.executable

theorem Served.Registers.permits (h : x.Registers P r.attr r.dataspace) : x.Permits P r := by
  obtain ⟨cap, attr, mapping, memory, region, hask, hplace, hattr⟩ := h
  obtain ⟨hwrite, hexec⟩ := GuestMemory.place_fresh_permissions hplace
  exact ⟨cap, attr, mapping, hask, hattr ▸ hwrite, hattr ▸ hexec⟩

/-! ## Main results -/

/-- **Permissions recorded are those allowed, and translations grant all.** In every state, the region that contains a
translated address records that it may be written only if its dataspace and the request that registered it both allow
that, and that it may be executed if that request asked for it. The translation lets the guest write and execute in any
case. -/
theorem permissions_recorded (h : s.Reaches P virt config steps) {a : UInt64} {tr : Translation}
    (htr : s.lookup a = some tr) :
    tr.flags.contains .write = true ∧ tr.flags.contains .execute = true ∧
      ∃ r, s.memory.regionContaining a = some r ∧
        ∃ st later, RegisteredBy P steps r.attr r.dataspace st later ∧ st.Permits P r := by
  obtain ⟨e, hgrants, hpresent, hflags⟩ := h.grants.lookup htr
  obtain ⟨hwrite, hexec⟩ := hgrants hpresent
  obtain ⟨r, hr, ha⟩ := h.exists_region htr
  obtain ⟨st, later, hreg⟩ := h.registered r hr
  rw [hflags]
  exact ⟨hwrite, hexec, r, (GuestMemory.regionContaining_eq_some_iff h.memory_sound).2 ⟨hr, ha⟩, st, later, hreg,
    hreg.registers.permits⟩

/-- a host with one dataspace of four pages, which is read-only -/
def readOnlyDataspace : World Host :=
  ⟨(Host.new 0x40000000 0x80000000).addDataspace ⟨0x10⟩ 0x4000 0x100000000 false false, .new, []⟩

/-- the whole of it is attached at the second page, to be written and not executed -/
def attachReadOnly : Served Host := ⟨emptySession, readOnlyDataspace, .attach ⟨0x10⟩ 0x1000 ⟨0, 0, true, false⟩⟩

theorem reaches_attachReadOnly :
    (attachReadOnly.after Host.platform).Reaches Host.platform .svm .default [attachReadOnly] :=
  .serve reaches_emptySession readOnlyDataspace attachReadOnly.request

/-- the region that it becomes -/
def readOnlyRegion : Region where
  attr := ⟨0x1000, 0x4000, 0, false, false, false⟩
  dataspace := ⟨0, ⟨0x10⟩, 0x4000, 0x100000000, false, false⟩
  reserved := false

/-- A guest may write to a region that is recorded as read-only, and execute what is recorded as data. -/
theorem permissions_not_enforced :
    ¬ ∀ (steps : List (Served Host)) (s : Session), s.Reaches Host.platform .svm .default steps →
        ∀ (a : UInt64) (tr : Translation), s.lookup a = some tr → ∀ r, s.memory.regionContaining a = some r →
          (tr.flags.contains .write = true → r.attr.write = true) ∧
            (tr.flags.contains .execute = true → r.attr.exec = true) := by
  intro hall
  have hr : (attachReadOnly.after Host.platform).memory.regionContaining 0x2000 = some readOnlyRegion := by
    decide +kernel
  have htr : (attachReadOnly.after Host.platform).lookup 0x2000 = some ⟨0x100001000, 0x1000, .guestRam⟩ := by
    decide +kernel
  obtain ⟨hwrite, -⟩ := hall _ _ reaches_attachReadOnly 0x2000 _ htr readOnlyRegion hr
  exact absurd (hwrite (by decide)) (by decide)

theorem permissions_recorded_read_only :
    (attachReadOnly.after Host.platform).memory.regionContaining 0x2000 = some readOnlyRegion ∧
      (attachReadOnly.after Host.platform).lookup 0x2000 = some ⟨0x100001000, 0x1000, .guestRam⟩ ∧
      PageFlags.guestRam.contains .write = true ∧ PageFlags.guestRam.contains .execute = true ∧
      ∃ st later, RegisteredBy Host.platform [attachReadOnly] readOnlyRegion.attr readOnlyRegion.dataspace st later ∧
        st.Permits Host.platform readOnlyRegion := by
  have hr : (attachReadOnly.after Host.platform).memory.regionContaining 0x2000 = some readOnlyRegion := by
    decide +kernel
  have htr : (attachReadOnly.after Host.platform).lookup 0x2000 = some ⟨0x100001000, 0x1000, .guestRam⟩ := by
    decide +kernel
  obtain ⟨hwrite, hexec, r, hfound, hpermits⟩ := permissions_recorded reaches_attachReadOnly htr
  rw [hr] at hfound
  cases hfound
  exact ⟨hr, htr, hwrite, hexec, hpermits⟩

end NestedGuest
