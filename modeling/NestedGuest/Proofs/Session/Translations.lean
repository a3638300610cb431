/-
The page table follows guest memory: what a guest can reach, and what it must be able to reach, in every state of its
session.

- `translation_confined`: each translation belongs to a registered region, and it is that of a window of the region's
  dataspace that was attached when the region was registered or later. So none survives the detach of its region.
- `attached_region_resolves`: every address of a region that is not reserved resolves to the host address that attaching
  the region promised, if the attach request that registered it succeeded. Nothing else that happens to the session
  changes this.

Both are read off one invariant, `Mirrors`: each leaf lies in one region as a whole (`inside`), and each region attached
with success and not flushed is mapped (`mapped`). A request maps a window (`Mirrors.maps`) and then unmaps what it
flushed (`Mirrors.unmaps`).

Premise: core RAM gives the page table page-aligned storage that ends at or below `2 ^ 52` (`StorageFits`).
-/
import NestedGuest.Bench.Host
import NestedGuest.Proofs.Session.History

namespace NestedGuest

open Bench (Host)
open PageTable (Inserts MapsTo)

variable {σ : Type} {P : Platform σ} {virt : Virt} {config : Config} {steps : List (Served σ)} {s s' : Session}
  {st x : Served σ} {later : List (Served σ)} {r : Region} {fs : List Flush}

/-- capabilities resolve to dataspaces that they name -/
def Platform.Resolves (P : Platform σ) : Prop :=
  ∀ cap host ds, (P.answer (.lookupDataspace cap) host).1 = some ds → ds.cap = cap

/-- the window `mapping` of `ds` from `offset` on lies in `r`, which has the same dataspace, and `phys` is the host
address of `a` in it -/
structure Region.Holds (r : Region) (ds : Dataspace) (offset : UInt64) (mapping : Mapping) (a phys : ℕ) : Prop where
  cap : ds.cap = r.dataspace.cap
  first : r.attr.base.toNat ≤ mapping.guest.toNat
  last : mapping.guest.toNat + mapping.size.toNat ≤ r.attr.stop
  low : mapping.guest.toNat ≤ a
  high : a < mapping.guest.toNat + mapping.size.toNat
  phys : phys = ds.phys.toNat + offset.toNat + (a - mapping.guest.toNat)

/-- one of the requests that registered `r` or were served since attached a window of its dataspace in it, and `phys`
is the host address of `a` in that window -/
def Exposed (P : Platform σ) (steps : List (Served σ)) (r : Region) (a phys : ℕ) : Prop :=
  ∃ st later, RegisteredBy P steps r.attr r.dataspace st later ∧ ∃ x ∈ later ++ [st], ∃ cap ds attr mapping,
    x.Asks P cap ds attr mapping ∧ r.Holds ds attr.offset mapping a phys

/-- a leaf at level `l` that translates `a` lies in `r` as a whole -/
def Region.Encloses (r : Region) (l a : ℕ) : Prop :=
  ∀ b, b / levelSize l = a / levelSize l → r.attr.base.toNat ≤ b ∧ b < r.attr.stop

/-- Among disjoint regions, a leaf that lies in `r` meets a flushed region exactly if `r` itself was flushed. -/
theorem Region.Encloses.any_meets_iff {m : GuestMemory} {l a : ℕ} (hin : r.Encloses l a) (hs : m.Sound)
    (hr : r ∈ m.regions) (ha : a < addressSpaceEnd) (hfs : ∀ f ∈ fs, f.region ∈ m.attrs) :
    (fs.any fun f => meets l a f.region.base.toNat (min f.region.stop addressSpaceEnd)) = true ↔
      ∃ f ∈ fs, f.region = r.attr := by
  rw [List.any_eq_true]
  constructor
  · intro hx
    rcases hx with ⟨f, hf, hmeets⟩
    obtain ⟨b, hfirst, hlast, hb⟩ := meets_iff.1 hmeets
    obtain ⟨q, hq, hattr⟩ := List.mem_map.1 (hfs f hf)
    rw [← hattr] at hfirst hlast
    obtain rfl := hs.eq_of_mem hq hr hfirst (by omega) (hin b hb).1 (hin b hb).2
    exact ⟨f, hf, hattr.symm⟩
  · intro hx
    rcases hx with ⟨f, hf, hattr⟩
    obtain ⟨hlow, hhigh⟩ := hin a rfl
    refine ⟨f, hf, meets_self ?_ ?_⟩
    · rw [hattr]; exact hlow
    · rw [hattr]; exact lt_min hhigh ha

/-! ## The invariant -/

/-- the page table mirrors guest memory, and `steps` explains how it came to do so -/
structure Mirrors (P : Platform σ) (virt : Virt) (steps : List (Served σ)) (s : Session) : Prop where
  table : s.table.Sound
  format : s.table.format = virt.format
  registered : ∀ r ∈ s.memory.regions, ∃ st later, RegisteredBy P steps r.attr r.dataspace st later
  /-- each leaf lies in one region and shows a window that was attached there -/
  inside : ∀ a l e, s.table.leafOf a = some (l, e) → ∃ r ∈ s.memory.regions,
    r.Encloses l a ∧ Exposed P steps r a ((entryAddress e).toNat + a % levelSize l)
  /-- a region attached with success is mapped until it is flushed -/
  mapped : ∀ r ∈ s.memory.regions, r.reserved = false → ∀ st later,
    RegisteredBy P steps r.attr r.dataspace st later → st.reply P = .done (.ok ()) →
      ∀ a, r.attr.base.toNat ≤ a → a < r.attr.stop →
        s.table.MapsTo a (r.dataspace.phys.toNat + r.attr.offset.toNat + (a - r.attr.base.toNat)) .guestRam

/-- a request that is served adds to the history of every region -/
theorem Exposed.push {a phys : ℕ} (h : Exposed P steps r a phys) (hr : r ∈ x.before.memory.regions) :
    Exposed P (x :: steps) r a phys := by
  obtain ⟨st, later, hreg, y, hy, hask⟩ := h
  exact ⟨st, x :: later, hreg.push hr, y, List.mem_cons_of_mem _ hy, hask⟩

theorem Mirrors.push (h : Mirrors P virt steps x.before) (hs : x.before.memory.Sound) :
    Mirrors P virt (x :: steps) x.before := by
  refine { h with registered := ?_, inside := ?_, mapped := ?_ }
  · intro r hr
    obtain ⟨st, later, hreg⟩ := h.registered r hr
    exact ⟨st, x :: later, hreg.push hr⟩
  · intro a l e hleaf
    obtain ⟨r, hr, hin, hexp⟩ := h.inside a l e hleaf
    exact ⟨r, hr, hin, hexp.push hr⟩
  · intro r hr hres st later hreg
    obtain ⟨rest, -, hrest⟩ := hreg.pop hs hr
    exact h.mapped r hr hres st rest hrest

/-! ## Mapping a window -/

/-- a window that is mapped into the region `r` -/
theorem Mirrors.inserts (h : Mirrors P virt steps s) {cap : DataspaceCap} {ds : Dataspace} {attr : AttachAttr}
    {mapping : Mapping} (hreg : RegisteredBy P steps r.attr r.dataspace st later) (hx : x ∈ later ++ [st])
    (hask : x.Asks P cap ds attr mapping) (hcap : ds.cap = r.dataspace.cap)
    (hfirst : r.attr.base.toNat ≤ mapping.guest.toNat)
    (hlast : mapping.guest.toNat + mapping.size.toNat ≤ r.attr.stop) (hr : r ∈ s'.memory.regions)
    (hregions : ∀ q ∈ s.memory.regions, q ∈ s'.memory.regions) {k : ℕ} (hk : k ≤ mapping.size.toNat)
    (hins : Inserts s.table s'.table mapping.guest.toNat mapping.host.toNat k .guestRam) :
    ∀ a l e, s'.table.leafOf a = some (l, e) → ∃ r ∈ s'.memory.regions,
      r.Encloses l a ∧ Exposed P steps r a ((entryAddress e).toNat + a % levelSize l) := by
  intro a l e hleaf
  rcases hins.leaf_cases hleaf with hold | ⟨hblock, hphys⟩
  · obtain ⟨q, hq, hin⟩ := h.inside a l e hold
    exact ⟨q, hregions q hq, hin⟩
  · have ha := hblock a rfl
    obtain ⟨-, -, -, hhost⟩ := select?_eq_some hask.window
    refine ⟨r, hr, fun b hb => ?_, st, later, hreg, x, hx, cap, ds, attr, mapping, hask, ?_⟩
    · have hb := hblock b hb
      omega
    · refine { cap := hcap, first := hfirst, last := hlast, low := ha.1, high := ?_, phys := ?_ }
      · omega
      · rw [hphys, hhost]

theorem Mirrors.again (h : Mirrors P virt steps x.before) (hs : x.before.memory.Sound) {cap : DataspaceCap}
    {ds : Dataspace} {attr : AttachAttr} {mapping : Mapping} (hask : x.Asks P cap ds attr mapping)
    (hplace : x.before.memory.place ds mapping.guest attr = .ok (.again mapping)) :
    Mirrors P virt (x :: steps)
      { x.before with table := (x.before.table.insert mapping.guest mapping.host mapping.size .guestRam).1 } := by
  have hpush := h.push hs
  obtain ⟨-, r, hr, hcap, hfirst, hlast⟩ := GuestMemory.place_eq_again hs hplace
  obtain ⟨st, later, hreg⟩ := hpush.registered r hr
  obtain ⟨rest, rfl, -⟩ := hreg.pop hs hr
  obtain ⟨k, hk, -, hins⟩ :=
    PageTable.insert_inserts h.table mapping.guest mapping.host mapping.size .guestRam
  refine ⟨hins.sound, hins.same.format.trans h.format, hpush.registered, ?_, ?_⟩
  · exact hpush.inserts hreg List.mem_cons_self hask hcap.symm hfirst hlast hr (fun q hq => hq) hk hins
  · intro q hq hres st later hreg hok a hlow hhigh
    exact (hpush.mapped q hq hres st later hreg hok a hlow hhigh).kept hins.same.format (hins.kept a)

theorem Mirrors.fresh (h : Mirrors P virt steps x.before) (hs : x.before.memory.Sound) {cap : DataspaceCap}
    {ds : Dataspace} {attr : AttachAttr} {mapping : Mapping} {memory : GuestMemory} {region : Region}
    (hask : x.Asks P cap ds attr mapping)
    (hplace : x.before.memory.place ds mapping.guest attr = .ok (.fresh memory region mapping))
    (hreply : x.reply P = .done (.ok ()) →
      (x.before.table.insert mapping.guest mapping.host mapping.size .guestRam).2 = .ok ()) :
    Mirrors P virt (x :: steps)
      { x.before with
        memory
        table := (x.before.table.insert mapping.guest mapping.host mapping.size .guestRam).1 } := by
  have hpush := h.push hs
  obtain ⟨-, hnew⟩ := GuestMemory.place_eq_fresh hs hplace
  obtain ⟨-, -, -, hhost⟩ := select?_eq_some hask.window
  have hreg : RegisteredBy P (x :: steps) region.attr region.dataspace x [] := by
    rw [hnew.dataspace]
    exact .now ⟨cap, attr, mapping, memory, region, hask, hplace, rfl⟩
  have hbase : region.attr.base.toNat = mapping.guest.toNat := by rw [hnew.base]
  have hstop : region.attr.stop = mapping.guest.toNat + mapping.size.toNat := by
    rw [RegionAttr.stop, hnew.base, hnew.size]
  obtain ⟨k, hk, hall, hins⟩ :=
    PageTable.insert_inserts h.table mapping.guest mapping.host mapping.size .guestRam
  refine ⟨hins.sound, hins.same.format.trans h.format, ?_, ?_, ?_⟩
  · intro q hq
    rcases hnew.mem.1 hq with rfl | hq
    · exact ⟨x, [], hreg⟩
    · exact hpush.registered q hq
  · exact hpush.inserts hreg List.mem_cons_self hask (by rw [hnew.dataspace]) hbase.le hstop.ge
      (hnew.mem.2 (Or.inl rfl)) (fun q hq => hnew.mem.2 (Or.inr hq)) hk hins
  · intro q hq hres st later hreg' hok a hlow hhigh
    rcases hnew.mem.1 hq with rfl | hq
    · -- the region is not among those before, so that the last request registered it
      rcases hreg'.cases_last with ⟨-, rfl⟩ | ⟨rest, rfl, -⟩
      · have hsize := hall (hreply hok)
        have hmapped := hins.mapped a (hbase ▸ hlow) (by omega)
        rwa [hhost, ← hbase, ← hnew.offset, ← hnew.dataspace] at hmapped
      · obtain ⟨y, hy, hattr, -⟩ := hreg'.stays x List.mem_cons_self
        exact absurd hattr (hnew.attr_ne hs hy)
    · exact (hpush.mapped q hq hres st later hreg' hok a hlow hhigh).kept hins.same.format (hins.kept a)

theorem Mirrors.maps (h : Mirrors P virt steps x.before) (hs : x.before.memory.Sound) (hm : x.Maps P s) :
    Mirrors P virt (x :: steps) s := by
  cases hm with
  | nothing => exact h.push hs
  | again hask hplace => exact h.again hs hask hplace
  | fresh hask hplace hreply => exact h.fresh hs hask hplace hreply

/-! ## Unmapping regions -/

theorem Mirrors.unmaps (h : Mirrors P virt steps s) (hs : s.memory.Sound) (hu : s.Unmaps s' fs) :
    Mirrors P virt steps s' := by
  obtain ⟨hsound, hrem⟩ := PageTable.removeAll_removes h.table fs
  rw [← hu.table] at hsound hrem
  refine ⟨hsound, hrem.same.format.trans h.format, ?_, ?_, ?_⟩
  · intro r hr
    obtain ⟨q, hq, hattr, hds, -⟩ := hu.memory.origin r hr
    rw [← hattr, ← hds]
    exact h.registered q hq
  · intro a l e hleaf
    rw [hrem.leafOf, Option.filter_eq_some_iff] at hleaf
    obtain ⟨hleaf, hcut⟩ := hleaf
    obtain ⟨r, hr, hin, hexp⟩ := h.inside a l e hleaf
    have hflushed := hin.any_meets_iff hs hr (PageTable.lt_addressSpaceEnd_of_leafOf hleaf) hu.memory.source
    rcases hu.memory.kept r hr with hr' | hgone
    · exact ⟨r, hr', hin, hexp⟩
    · rw [hflushed.2 hgone] at hcut
      cases hcut
  · intro r hr hres st later hreg hok a hlow hhigh
    obtain ⟨hr, hfs⟩ := hu.memory.unreserved hr hres
    have hmapped := h.mapped r hr hres st later hreg hok a hlow hhigh
    refine hmapped.kept hrem.same.format fun y hleaf => ?_
    -- the leaf lies in the region, which was not flushed
    obtain ⟨q, hq, hin, -⟩ := h.inside a y.1 y.2 hleaf
    obtain rfl := hs.eq_of_mem hq hr (hin a rfl).1 (hin a rfl).2 hlow hhigh
    have hflushed := hin.any_meets_iff hs hr (PageTable.lt_addressSpaceEnd_of_leafOf hleaf) hu.memory.source
    rw [hrem.leafOf, hleaf, Option.filter_some, if_pos]
    rw [Bool.not_eq_true', Bool.eq_false_iff, Ne, hflushed]
    intro hgone
    rcases hgone with ⟨f, hf, hattr⟩
    exact hfs f hf hattr

/-- requests keep the page table in line with guest memory -/
theorem Session.Reaches.mirrors (h : s.Reaches P virt config steps) (hfits : StorageFits s.store.phys tableMax) :
    Mirrors P virt steps s := by
  induction h with
  | @new w s h =>
    obtain ⟨hregions, htable⟩ := Session.new_eq_ok h
    have hempty : ∀ r, r ∉ s.memory.regions := by simp [hregions]
    refine ⟨?_, ?_, fun r hr => absurd hr (hempty r), ?_, fun r hr => absurd hr (hempty r)⟩
    · rw [htable]
      exact PageTable.sound_withCapacity hfits
    · rw [htable]
      rfl
    · intro a l e hleaf
      rw [htable, PageTable.new, PageTable.leafOf_withCapacity] at hleaf
      cases hleaf
  | @serve steps s hreach w request ih =>
    have hs := hreach.memory_sound
    obtain ⟨s1, fs, hmaps, hunmaps⟩ := Served.effect P ⟨s, w, request⟩ hs
    rw [hunmaps.store, hmaps.store] at hfits
    exact (Mirrors.maps (x := ⟨s, w, request⟩) (ih hfits) hs hmaps).unmaps (hmaps.sound hs) hunmaps

/-! ## Main results -/

/-- **Confinement of the guest.** An address that is translated lies in a registered region, and its host address is the
one it has in a window of the region's dataspace that was attached in the region when it was registered or later. -/
theorem translation_confined (h : s.Reaches P virt config steps) (hfits : StorageFits s.store.phys tableMax)
    {a : UInt64} {tr : Translation} (htr : s.lookup a = some tr) :
    ∃ r ∈ s.memory.regions, r.attr.contains a = true ∧
      ∃ st later, RegisteredBy P steps r.attr r.dataspace st later ∧
        ∃ x ∈ later ++ [st], ∃ cap ds attr mapping, x.Asks P cap ds attr mapping ∧
          (P.Resolves → cap = r.dataspace.cap) ∧ r.Holds ds attr.offset mapping a.toNat tr.phys := by
  obtain ⟨l, e, hleaf, rfl⟩ := PageTable.lookup_eq_some_iff.1 htr
  obtain ⟨r, hr, hin, st, later, hreg, x, hx, cap, ds, attr, mapping, hask, hholds⟩ :=
    (h.mirrors hfits).inside a.toNat l e hleaf
  have hcontains : r.attr.contains a = true := RegionAttr.contains_iff.2 (hin _ rfl)
  refine ⟨r, hr, hcontains, st, later, hreg, x, hx, cap, ds, attr, mapping, hask, ?_, hholds⟩
  intro hP
  rw [← hholds.cap, hP cap _ ds hask.resolved]

/-- a host with one dataspace, of four pages -/
def oneDataspace : World Host :=
  ⟨(Host.new 0x40000000 0x80000000).addDataspace ⟨0x10⟩ 0x4000 0x100000000 false true, .new, []⟩

/-- a new session on that host -/
def emptySession : Session where
  config := .default
  identity := ⟨1, 0x80000000⟩
  memory := .new ⟨⟨0x100000, 0x81000, true⟩, ⟨32, 1, true⟩⟩
  table := .new .hpt 0x80000000
  store := ⟨.core, some ⟨⟨0x1000⟩, 0x81000, 0x80000000⟩⟩
  vcpus := []

theorem reaches_emptySession : emptySession.Reaches Host.platform .svm .default [] := .new (w := oneDataspace) rfl

/-- the whole dataspace is attached at the second page -/
def attachWhole : Served Host := ⟨emptySession, oneDataspace, .attach ⟨0x10⟩ 0x1000 ⟨0, 0, true, false⟩⟩

theorem translation_confined_second_page :
    StorageFits (attachWhole.after Host.platform).store.phys tableMax ∧
    (attachWhole.after Host.platform).lookup 0x1234 = some ⟨0x100000234, 0x1000, .guestRam⟩ ∧
    ∃ r ∈ (attachWhole.after Host.platform).memory.regions, r.attr.contains 0x1234 = true ∧
      ∃ st later, RegisteredBy Host.platform [attachWhole] r.attr r.dataspace st later ∧
        ∃ x ∈ later ++ [st], ∃ cap ds attr mapping, x.Asks Host.platform cap ds attr mapping ∧
          (Host.platform.Resolves → cap = r.dataspace.cap) ∧ r.Holds ds attr.offset mapping 0x1234 0x100000234 := by
  have hfits : StorageFits (attachWhole.after Host.platform).store.phys tableMax := by decide +kernel
  have htr : (attachWhole.after Host.platform).lookup 0x1234 = some ⟨0x100000234, 0x1000, .guestRam⟩ := by
    decide +kernel
  exact ⟨hfits, htr, translation_confined (.serve reaches_emptySession oneDataspace attachWhole.request) hfits htr⟩

/-- **No lost mapping.** Every address of a region that is not reserved resolves to its host address in the dataspace,
with the attributes of guest RAM, if the attach request that registered the region succeeded. -/
theorem attached_region_resolves (h : s.Reaches P virt config steps) (hfits : StorageFits s.store.phys tableMax)
    (hr : r ∈ s.memory.regions) (hres : r.reserved = false)
    (hreg : RegisteredBy P steps r.attr r.dataspace st later) (hok : st.reply P = .done (.ok ())) {a : UInt64}
    (ha : r.attr.contains a = true) :
    ∃ tr, s.lookup a = some tr ∧
      tr.phys = r.dataspace.phys.toNat + r.attr.offset.toNat + (a.toNat - r.attr.base.toNat) ∧
      tr.flags = virt.format.flags (virt.format.leaf 0 .guestRam false) := by
  have hm := h.mirrors hfits
  obtain ⟨hlow, hhigh⟩ := RegionAttr.contains_iff.1 ha
  obtain ⟨l, e, hleaf, hphys, hflags⟩ := hm.mapped r hr hres st later hreg hok a.toNat hlow hhigh
  rw [hm.format] at hflags
  refine ⟨_, PageTable.lookup_eq_some_iff.2 ⟨l, e, hleaf, rfl⟩, hphys, ?_⟩
  rw [PageTable.translationOf, hm.format]
  exact hflags

/-- a window of the same dataspace is attached over the second page of the region, and refused by the page table -/
def attachOver : Served Host :=
  ⟨attachWhole.after Host.platform, oneDataspace, .attach ⟨0x10⟩ 0x2000 ⟨0, 0x1000, true, false⟩⟩

/-- the region of the whole dataspace -/
def wholeRegion : Region where
  attr := ⟨0x1000, 0x4000, 0, true, false, false⟩
  dataspace := ⟨0, ⟨0x10⟩, 0x4000, 0x100000000, false, true⟩
  reserved := false

theorem attached_region_resolves_after_refusal :
    wholeRegion ∈ (attachOver.after Host.platform).memory.regions ∧
    RegisteredBy Host.platform [attachOver, attachWhole] wholeRegion.attr wholeRegion.dataspace attachWhole
      [attachOver] ∧
    attachWhole.reply Host.platform = .done (.ok ()) ∧
    ∃ tr, (attachOver.after Host.platform).lookup 0x2345 = some tr ∧ tr.phys = 0x100001345 ∧
      tr.flags = EntryFormat.hpt.flags (EntryFormat.hpt.leaf 0 .guestRam false) := by
  have hr : wholeRegion ∈ (attachOver.after Host.platform).memory.regions := by decide +kernel
  have hfits : StorageFits (attachOver.after Host.platform).store.phys tableMax := by decide +kernel
  have hok : attachWhole.reply Host.platform = .done (.ok ()) := by
    have hattach : (emptySession.attach Host.platform ⟨0x10⟩ 0x1000 ⟨0, 0, true, false⟩ oneDataspace).1.1 = .ok () := by
      decide +kernel
    exact congrArg Reply.done hattach
  have hreg : RegisteredBy Host.platform [attachOver, attachWhole] wholeRegion.attr wholeRegion.dataspace attachWhole
      [attachOver] := by
    have hregisters : attachWhole.Registers Host.platform wholeRegion.attr wholeRegion.dataspace :=
      ⟨⟨0x10⟩, ⟨0, 0, true, false⟩, ⟨0x1000, 0x100000000, 0x4000⟩,
        ⟨[wholeRegion], ⟨⟨0x100000, 0x82000, true⟩, ⟨32, 2, true⟩⟩, 1⟩, wholeRegion, ⟨rfl, rfl, rfl⟩, rfl, rfl⟩
    exact .push (.now hregisters) (by decide +kernel)
  exact ⟨hr, hreg, hok, attached_region_resolves
    (.serve (.serve reaches_emptySession oneDataspace attachWhole.request) oneDataspace attachOver.request)
    hfits hr rfl hreg hok rfl⟩

end NestedGuest
