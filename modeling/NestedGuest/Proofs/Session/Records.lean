/-
What a region record says of the host addresses of its region.

A region records the window that registered it: where it begins in the guest and in the dataspace. An attach request for
another window of the same dataspace in the region is mapped without a new record. Where the guest reached nothing at
that moment, it reaches the host address in the window asked for then, which need not be the one recorded.

- `record_or_displaced`: a translation agrees with the record of its region exactly if no such window displaced it since
  the region was registered;
- `record_contradicted`: so a record may name another host address than the guest reaches.

Nothing is asked of the storage of the page table.
-/
import NestedGuest.Proofs.Session.Reserved

namespace NestedGuest

open Bench (Host)

variable {σ : Type} {P : Platform σ} {virt : Virt} {config : Config} {steps : List (Served σ)} {s : Session}
  {x : Served σ} {r : Region} {a : UInt64} {tr : Translation} {names : DataspaceCap → Dataspace}

/-- whenever a capability resolves while `steps` are served, it does so to the dataspace that `names` gives, which bears
it -/
def Names (P : Platform σ) (steps : List (Served σ)) (names : DataspaceCap → Dataspace) : Prop :=
  ∀ x ∈ steps, ∀ cap ds, (P.answer (.lookupDataspace cap) x.world.host).1 = some ds → ds = names cap ∧ ds.cap = cap

/-- the host address that the record of `r` gives for `a` in its dataspace `ds` -/
def Region.recorded (r : Region) (ds : Dataspace) (a : UInt64) : ℕ :=
  ds.phys.toNat + r.attr.offset.toNat + (a.toNat - r.attr.base.toNat)

/-- the request attached a window of the dataspace of `r` in it once more, which shows `a` at `phys` and begins at
another offset than the record gives for its guest address -/
def Served.Displaces (P : Platform σ) (x : Served σ) (r : Region) (a : UInt64) (phys : ℕ) : Prop :=
  ∃ cap ds attr mapping, x.Asks P cap ds attr mapping ∧
    x.before.memory.place ds mapping.guest attr = .ok (.again mapping) ∧ r.Holds ds attr.offset mapping a.toNat phys ∧
      attr.offset.toNat ≠ r.attr.offset.toNat + (mapping.guest.toNat - r.attr.base.toNat)

/-- since `r` was registered, such a window was attached when `a` was not translated, and `a` has been translated by it
ever since -/
def Displaced (P : Platform σ) (steps : List (Served σ)) (r : Region) (a : UInt64) (tr : Translation) : Prop :=
  ∃ st newer x older, RegisteredBy P steps r.attr r.dataspace st (newer ++ x :: older) ∧ x.Displaces P r a tr.phys ∧
    x.before.lookup a = none ∧ ∀ y ∈ newer, y.before.lookup a = some tr

/-! ## Capabilities -/

theorem Names.tail (h : Names P (x :: steps) names) : Names P steps names :=
  fun y hy => h y (List.mem_cons_of_mem _ hy)

theorem Names.resolved (hnames : Names P steps names) (hx : x ∈ steps) {cap : DataspaceCap} {ds : Dataspace}
    {attr : AttachAttr} {mapping : Mapping} (hask : x.Asks P cap ds attr mapping) : names ds.cap = ds := by
  obtain ⟨hds, hcap⟩ := hnames x hx cap ds hask.resolved
  rw [hcap, ← hds]

/-- the capability of a region names its dataspace -/
theorem Names.dataspace (hnames : Names P steps names) (h : s.Reaches P virt config steps)
    (hr : r ∈ s.memory.regions) : names r.dataspace.cap = r.dataspace := by
  obtain ⟨st, later, hreg⟩ := h.registered r hr
  obtain ⟨earlier, rfl⟩ := hreg.split
  obtain ⟨cap, window, mapping, memory, region, hask, -⟩ := hreg.registers
  exact hnames.resolved (by simp) hask

/-! ## The invariant -/

/-- a displaced address is not at the host address recorded -/
theorem Displaced.ne_recorded (hnames : Names P steps names) (hds : names r.dataspace.cap = r.dataspace)
    (h : Displaced P steps r a tr) : tr.phys ≠ r.recorded r.dataspace a := by
  obtain ⟨st, newer, x, older, hreg, ⟨cap, ds, attr, mapping, hask, -, hholds, hoffset⟩, -⟩ := h
  obtain ⟨earlier, rfl⟩ := hreg.split
  have hsame := hnames.resolved (by simp) hask
  rw [hholds.cap, hds] at hsame
  have hphys := hholds.phys
  have hfirst := hholds.first
  have hlow := hholds.low
  rw [hphys, ← hsame, Region.recorded]
  omega

theorem Displaced.push (h : Displaced P steps r a tr) (hr : r ∈ x.before.memory.regions)
    (htr : x.before.lookup a = some tr) : Displaced P (x :: steps) r a tr := by
  obtain ⟨st, newer, y, older, hreg, hdisplaces, hnone, hsince⟩ := h
  exact ⟨st, x :: newer, y, older, hreg.push hr, hdisplaces, hnone, List.forall_mem_cons.2 ⟨htr, hsince⟩⟩

theorem Session.Reaches.recorded_or_displaced (h : s.Reaches P virt config steps) (hnames : Names P steps names)
    (htr : s.lookup a = some tr) : ∃ r ∈ s.memory.regions, r.attr.contains a = true ∧
      (tr.phys = r.recorded r.dataspace a ∨ Displaced P steps r a tr) := by
  induction h generalizing tr with
  | new hnew =>
    rw [Session.lookup_new hnew] at htr
    cases htr
  | @serve steps s hreach w request ih =>
    have hreach' := hreach.serve w request
    rcases Served.lookup_cases (x := ⟨s, w, request⟩) hreach.memory_sound hreach.table_reachable htr with
      ⟨hbefore, hstays⟩ | ⟨hnone, cap, ds, attr, mapping, hask, r, hr, hholds, hplace⟩
    · obtain ⟨r, hr, ha, hcases⟩ := ih hnames.tail hbefore
      refine ⟨r, hstays r hr ha, ha, hcases.imp_right fun hdisplaced => ?_⟩
      exact hdisplaced.push (x := ⟨s, w, request⟩) hr hbefore
    · have hds := hnames.dataspace hreach' hr
      rw [← hholds.cap, hnames.resolved List.mem_cons_self hask] at hds
      have hphys := hholds.phys
      have hlow := hholds.low
      have hfirst := hholds.first
      refine ⟨r, hr, hholds.contains, ?_⟩
      by_cases hoffset : attr.offset.toNat = r.attr.offset.toNat + (mapping.guest.toNat - r.attr.base.toNat)
      · -- the window continues the one recorded
        left
        rw [hphys, hds, Region.recorded]
        omega
      · right
        rcases hplace with ⟨hold, hagain⟩ | ⟨hbase, hfirst⟩
        · obtain ⟨st, later, hreg⟩ := hreach.registered r hold
          exact ⟨st, [], _, later, hreg.push hold, ⟨cap, ds, attr, mapping, hask, hagain, hholds, hoffset⟩, hnone,
            by simp⟩
        · rw [hbase, hfirst] at hoffset
          omega

/-! ## Main results -/

/-- **A record is right unless a later window displaced it.** -/
theorem record_or_displaced (h : s.Reaches P virt config steps) (hnames : Names P steps names)
    (htr : s.lookup a = some tr) : ∃ r, s.memory.regionContaining a = some r ∧
      (tr.phys = r.recorded (names r.dataspace.cap) a ↔ ¬ Displaced P steps r a tr) := by
  obtain ⟨r, hr, ha, hcases⟩ := h.recorded_or_displaced hnames htr
  have hds := hnames.dataspace h hr
  refine ⟨r, (GuestMemory.regionContaining_eq_some_iff h.memory_sound).2 ⟨hr, ha⟩, ?_⟩
  rw [hds]
  exact ⟨fun hphys hdisplaced => hdisplaced.ne_recorded hnames hds hphys, hcases.resolve_right⟩

/-- the second page of the flushed region is attached again, as another page of the dataspace than before -/
def attachElsewhere : Served Host :=
  ⟨flushBehind.after Host.platform, oneDataspace, .attach ⟨0x10⟩ 0x6000 ⟨0x3000, 0x1000, true, false⟩⟩

theorem reaches_attachElsewhere : (attachElsewhere.after Host.platform).Reaches Host.platform .svm .default
    [attachElsewhere, flushBehind, attachBehind, attachWhole] :=
  .serve (.serve (.serve (.serve reaches_emptySession oneDataspace attachWhole.request) oneDataspace
    attachBehind.request) oneDataspace flushBehind.request) oneDataspace attachElsewhere.request

/-- one capability resolves on this host, and it is that of its dataspace -/
theorem names_attachElsewhere : Names Host.platform [attachElsewhere, flushBehind, attachBehind, attachWhole]
    fun _ => reservedRegion.dataspace := by
  intro x hx cap ds hds
  have hworld : x.world = oneDataspace := by
    revert x
    simp [attachElsewhere, flushBehind, attachBehind, attachWhole]
  rw [hworld] at hds
  have hfind : [reservedRegion.dataspace].find? (fun d => d.cap == cap) = some ds := hds
  obtain rfl : ds = reservedRegion.dataspace := by simpa using List.mem_of_find?_eq_some hfind
  exact ⟨rfl, by simpa using List.find?_some hfind⟩

/-- A record may name another host address than the guest reaches. -/
theorem record_contradicted :
    ¬ ∀ (steps : List (Served Host)) (s : Session) (names : DataspaceCap → Dataspace),
        s.Reaches Host.platform .svm .default steps → Names Host.platform steps names →
        ∀ (a : UInt64) (tr : Translation), s.lookup a = some tr → ∃ r, s.memory.regionContaining a = some r ∧
          tr.phys = r.recorded (names r.dataspace.cap) a := by
  intro hall
  have htr : (attachElsewhere.after Host.platform).lookup 0x6000 = some ⟨0x100003000, 0x1000, .guestRam⟩ := by
    decide +kernel
  have hr : (attachElsewhere.after Host.platform).memory.regionContaining 0x6000 = some reservedRegion := by
    decide +kernel
  obtain ⟨r, hfound, hphys⟩ := hall _ _ _ reaches_attachElsewhere names_attachElsewhere 0x6000 _ htr
  rw [hr] at hfound
  cases hfound
  revert hphys
  decide

theorem record_or_displaced_page :
    (attachElsewhere.after Host.platform).lookup 0x6000 = some ⟨0x100003000, 0x1000, .guestRam⟩ ∧
      reservedRegion.recorded reservedRegion.dataspace 0x6000 = 0x100002000 ∧
      Displaced Host.platform [attachElsewhere, flushBehind, attachBehind, attachWhole] reservedRegion 0x6000
        ⟨0x100003000, 0x1000, .guestRam⟩ := by
  have htr : (attachElsewhere.after Host.platform).lookup 0x6000 = some ⟨0x100003000, 0x1000, .guestRam⟩ := by
    decide +kernel
  have hr : (attachElsewhere.after Host.platform).memory.regionContaining 0x6000 = some reservedRegion := by
    decide +kernel
  obtain ⟨r, hfound, hiff⟩ := record_or_displaced reaches_attachElsewhere names_attachElsewhere htr
  rw [hr] at hfound
  cases hfound
  refine ⟨htr, by decide, not_not.1 fun hnot => ?_⟩
  have hphys := hiff.2 hnot
  revert hphys
  decide

end NestedGuest
