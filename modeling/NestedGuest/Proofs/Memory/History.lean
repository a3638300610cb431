/-
How a guest memory came to be in its state.

A `MemoryTurn` is a request, the guest memory that served it, and which dataspaces were there at each of its flushes.
`GuestMemory.Reaches quota turns m` says that serving `turns`, newest first, leads from a new guest memory to `m`;
between two turns the quota may change, since others draw on it too. A `RegionLife` is the turns from the registration
of a region on, as long as it is there.

- `MemoryTurn.effect`: all that one turn can come to;
- `MemoryTurn.mem_after`: what becomes of a region in a turn that leaves it registered;
- `RegionLife.mem_before`: the region is reserved as soon as a turn has reached it.
-/
import NestedGuest.Memory.Request
import NestedGuest.Proofs.Memory.Walk

namespace NestedGuest

/-- a request, and what it was served in -/
structure MemoryTurn where
  before : GuestMemory
  /-- which dataspaces are there at the `i`-th flush -/
  alive : ℕ → Dataspace → Bool
  request : MemoryRequest

/-- the request takes the mapping of such a region away, if it is registered -/
def MemoryRequest.reaches (r : RegionAttr) : MemoryRequest → Bool
  | .attach _ _ _ _ => false
  | .detach guest size =>
    decide (GuestMemory.DetachWellFormed guest size) && r.meets guest.toNat (guest.toNat + (size.toNat - 1))
  | .detachAt a | .flush a => r.contains a
  | .detachAll => true

namespace MemoryTurn

def reply (x : MemoryTurn) : MemoryReply := x.before.perform x.alive x.request

def after (x : MemoryTurn) : GuestMemory := x.reply.memory

def notices (x : MemoryTurn) : List Notice := x.reply.notices

/-- the request takes the mapping of such a region away, if it is registered -/
def reaches (x : MemoryTurn) (r : RegionAttr) : Bool := x.request.reaches r

/-- the flushes of the regions reached, in ascending order -/
def flushes (x : MemoryTurn) : List Flush := (x.before.regions.filter fun r => x.reaches r.attr).map Region.flush

/-- the turn registered the region `r` -/
def Registers (x : MemoryTurn) (r : Region) : Prop :=
  ∃ ds guest attr outcome mapping, x.request = .attach ds guest attr outcome ∧
    x.before.place ds guest attr = .ok (.fresh x.after r mapping) ∧ x.notices = [.attached ds r.attr, .map mapping]

/-- all that a turn can come to -/
inductive Effect (x : MemoryTurn) : Prop
  /-- an attach request that registers no region -/
  | kept (reaches : ∀ r, x.reaches r = false) (regions : x.after.regions = x.before.regions)
      (notices : x.notices = [] ∨ ∃ mapping, x.notices = [.map mapping])
  | registered (r : Region) (reaches : ∀ r, x.reaches r = false) (registers : x.Registers r)
  /-- the regions reached stay registered, and are marked reserved -/
  | flushed (regions : x.after.regions = x.before.regions.map fun r =>
      { r with reserved := r.reserved || x.reaches r.attr }) (notices : x.notices = flushNotices x.alive x.flushes)
  /-- the regions reached are removed -/
  | removed (regions : x.after.regions = x.before.regions.filter fun r => !x.reaches r.attr)
      (notices : x.notices = flushNotices x.alive x.flushes)

variable {x : MemoryTurn} {q r : Region} {m : GuestMemory} {alive : ℕ → Dataspace → Bool}

/-- a turn that takes out exactly the regions its request reaches -/
theorem Effect.of_drops (p : RegionAttr → Bool) (fs : List Flush) (hp : ∀ r, x.reaches r = p r)
    (hdrops : GuestMemory.Drops x.before x.after fs p) (hnotices : x.notices = flushNotices x.alive fs) :
    x.Effect := by
  obtain rfl : p = x.reaches := (funext hp).symm
  exact .removed hdrops.regions (by rw [hnotices, hdrops.flushes]; rfl)

/-- an attach request registers a region, or leaves the regions as they are and maps a window at most -/
theorem attach_cases (x : MemoryTurn) {ds : Dataspace} {guest : UInt64} {attr : AttachAttr}
    {outcome : Except TranslationError Unit} (hrequest : x.request = .attach ds guest attr outcome) :
    (x.after.regions = x.before.regions ∧ (x.notices = [] ∨ ∃ mapping, x.notices = [.map mapping])) ∨
      ∃ r, x.Registers r := by
  cases hplace : x.before.place ds guest attr with
  | error e =>
    have hreply : x.reply.memory = x.before ∧ x.reply.notices = [] := by
      simp [reply, hrequest, GuestMemory.perform, hplace]
    exact Or.inl ⟨congrArg _ hreply.1, Or.inl hreply.2⟩
  | ok placement =>
    cases placement with
    | again mapping =>
      have hreply : x.reply.memory = x.before ∧ x.reply.notices = [.map mapping] := by
        simp [reply, hrequest, GuestMemory.perform, hplace]
      exact Or.inl ⟨congrArg _ hreply.1, Or.inr ⟨mapping, hreply.2⟩⟩
    | fresh m r mapping =>
      have hreply : x.reply.memory = m ∧ x.reply.notices = [.attached ds r.attr, .map mapping] := by
        simp [reply, hrequest, GuestMemory.perform, hplace]
      obtain rfl : x.after = m := hreply.1
      exact Or.inr ⟨r, ds, guest, attr, outcome, mapping, hrequest, hplace, hreply.2⟩

/-- flushing at an address marks the regions that contain it -/
theorem reserveAndFlush_regions (hs : m.Sound) (a : UInt64) : (m.reserveAndFlush a).1.regions =
    m.regions.map fun r => { r with reserved := r.reserved || r.attr.contains a } := by
  cases hfound : m.regionContaining a with
  | none =>
    rw [GuestMemory.reserveAndFlush_of_none hfound]
    refine (List.map_id _).symm.trans (List.map_congr_left fun s hsr => ?_)
    rw [GuestMemory.regionContaining_eq_none hs hfound hsr, Bool.or_false]
    rfl
  | some r =>
    obtain ⟨hr, ha⟩ := (GuestMemory.regionContaining_eq_some_iff hs).1 hfound
    rw [GuestMemory.reserveAndFlush_of_region hfound]
    refine List.map_congr_left fun s hsr => ?_
    unfold GuestMemory.markAt
    split_ifs with hbase
    · obtain rfl := hs.eq_of_base_eq hsr hr hbase
      rw [ha, Bool.or_true]
    · have hother : s.attr.contains a = false := by
        by_contra hcontains
        obtain ⟨hlow, hhigh⟩ := RegionAttr.contains_iff.1 (Bool.eq_true_of_not_eq_false hcontains)
        obtain ⟨hlow', hhigh'⟩ := RegionAttr.contains_iff.1 ha
        exact hbase (congrArg (fun q : Region => q.attr.base) (hs.eq_of_mem hsr hr hlow hhigh hlow' hhigh'))
      rw [hother, Bool.or_false]

theorem effect (x : MemoryTurn) (hs : x.before.Sound) : x.Effect := by
  obtain ⟨m, alive, request⟩ := x
  cases request with
  | attach ds guest attr outcome =>
    rcases attach_cases ⟨m, alive, .attach ds guest attr outcome⟩ rfl with ⟨hregions, hnotices⟩ | ⟨r, hnew⟩
    · exact .kept (fun _ => rfl) hregions hnotices
    · exact .registered r (fun _ => rfl) hnew
  | detach guest size =>
    rcases GuestMemory.detach?_drops hs guest size with ⟨hnone, hformed⟩ | ⟨m', fs, hsome, hformed, hdrops⟩
    · refine .of_drops (fun _ => false) [] (fun r => ?_) ?_ ?_
      · simp [reaches, MemoryRequest.reaches, hformed]
      · simp only [after, reply, GuestMemory.perform, hnone]
        exact .of_none fun _ _ => rfl
      · simp only [notices, reply, GuestMemory.perform, hnone]
        rfl
    · refine .of_drops (fun r => r.meets guest.toNat (guest.toNat + (size.toNat - 1))) fs (fun r => ?_) ?_ ?_
      · simp [reaches, MemoryRequest.reaches, hformed]
      · simp only [after, reply, GuestMemory.perform, hsome]
        exact hdrops
      · simp only [notices, reply, GuestMemory.perform, hsome]
  | detachAt a => exact .of_drops _ _ (fun _ => rfl) (GuestMemory.detachAt_drops hs a) rfl
  | flush a =>
    have hflushes := (GuestMemory.reserveAndFlush_eq hs a).2
    exact .flushed (reserveAndFlush_regions hs a) (congrArg (flushNotices alive) hflushes)
  | detachAll =>
    obtain ⟨m', hall, hnone, -⟩ := GuestMemory.detachAll_eq hs
    refine .of_drops (fun _ => true) (m.regions.map Region.flush) (fun _ => rfl) ⟨?_, ?_⟩ ?_
    · simp [after, reply, GuestMemory.perform, hall, hnone]
    · rw [List.filter_eq_self.2 fun _ _ => rfl]
    · simp [notices, reply, GuestMemory.perform, hall]

/-- what a new region has to do with the regions there are -/
theorem Registers.spec (h : x.Registers r) (hs : x.before.Sound) :
    r.reserved = false ∧ ∃ mapping, x.notices = [.attached r.dataspace r.attr, .map mapping] ∧
      x.before.Registers x.after r.dataspace r.attr.offset mapping r := by
  obtain ⟨ds, guest, attr, outcome, mapping, -, hplace, hnotices⟩ := h
  obtain ⟨-, hnew⟩ := GuestMemory.place_eq_fresh hs hplace
  obtain ⟨hreserved, -⟩ := GuestMemory.place_fresh_books hplace
  refine ⟨hreserved, mapping, ?_, ?_⟩
  · rw [hnotices, hnew.dataspace]
  · rw [hnew.dataspace, hnew.offset]
    exact hnew

theorem sound_after (x : MemoryTurn) (hs : x.before.Sound) : x.after.Sound := by
  have hsub : ∀ (p : Region → Bool), (x.before.regions.filter p).map Region.attr |>.Sublist x.before.attrs :=
    fun p => List.filter_sublist.map _
  rcases x.effect hs with ⟨-, hregions, -⟩ | ⟨r, -, hnew⟩ | ⟨hregions, -⟩ | ⟨hregions, -⟩
  · refine hs.sublist ?_
    rw [GuestMemory.attrs, hregions]
    exact List.Sublist.refl _
  · obtain ⟨-, _, -, hnew⟩ := hnew.spec hs
    exact hnew.sound hs
  · refine hs.sublist ?_
    rw [GuestMemory.attrs, hregions, List.map_map]
    exact List.Sublist.refl _
  · refine hs.sublist ?_
    rw [GuestMemory.attrs, hregions]
    exact hsub _

/-- A region that is left registered is as it was, but for the mark if it was reached. -/
theorem mem_after (hs : x.before.Sound) (hq : q ∈ x.before.regions) (hstays : q.attr ∈ x.after.attrs) :
    { q with reserved := q.reserved || x.reaches q.attr } ∈ x.after.regions := by
  rcases x.effect hs with ⟨hreaches, hregions, -⟩ | ⟨r, hreaches, hnew⟩ | ⟨hregions, -⟩ | ⟨hregions, -⟩
  · rw [hreaches, Bool.or_false, hregions]
    exact hq
  · obtain ⟨-, _, -, hnew⟩ := hnew.spec hs
    rw [hreaches, Bool.or_false]
    exact hnew.mem.2 (Or.inr hq)
  · rw [hregions]
    exact List.mem_map.2 ⟨q, hq, rfl⟩
  · obtain ⟨s, hs', hattr⟩ := List.mem_map.1 hstays
    rw [hregions] at hs' ⊢
    obtain ⟨hsr, hkept⟩ := List.mem_filter.1 hs'
    obtain rfl := hs.eq_of_base_eq hsr hq (congrArg RegionAttr.base hattr)
    rw [Bool.not_eq_true'] at hkept
    rw [hkept, Bool.or_false]
    exact hs'

/-- a turn removes only regions that it reaches -/
theorem reaches_of_removed (hs : x.before.Sound) (hq : q ∈ x.before.regions) (hgone : q.attr ∉ x.after.attrs) :
    x.reaches q.attr = true := by
  by_contra hreaches
  rw [Bool.not_eq_true] at hreaches
  refine hgone ?_
  rcases x.effect hs with ⟨-, hregions, -⟩ | ⟨r, -, hnew⟩ | ⟨hregions, -⟩ | ⟨hregions, -⟩
  · rw [GuestMemory.attrs, hregions]
    exact GuestMemory.mem_attrs hq
  · obtain ⟨-, _, -, hnew⟩ := hnew.spec hs
    exact GuestMemory.mem_attrs (hnew.mem.2 (Or.inr hq))
  · rw [GuestMemory.attrs, hregions, List.map_map]
    exact List.mem_map_of_mem hq
  · rw [GuestMemory.attrs, hregions]
    exact List.mem_map_of_mem (List.mem_filter.2 ⟨hq, by rw [hreaches]; rfl⟩)

/-- a region that is registered after a turn was there before it, or is new -/
theorem origin (hs : x.before.Sound) (hq : q ∈ x.after.regions) :
    x.Registers q ∨ ∃ p ∈ x.before.regions, p.attr = q.attr ∧ p.dataspace = q.dataspace := by
  rcases x.effect hs with ⟨-, hregions, -⟩ | ⟨r, -, hnew⟩ | ⟨hregions, -⟩ | ⟨hregions, -⟩
  · rw [hregions] at hq
    exact Or.inr ⟨q, hq, rfl, rfl⟩
  · obtain ⟨-, _, -, hmem⟩ := hnew.spec hs
    rcases hmem.mem.1 hq with rfl | hq
    · exact Or.inl hnew
    · exact Or.inr ⟨q, hq, rfl, rfl⟩
  · rw [hregions] at hq
    obtain ⟨p, hp, rfl⟩ := List.mem_map.1 hq
    exact Or.inr ⟨p, hp, rfl, rfl⟩
  · rw [hregions] at hq
    exact Or.inr ⟨q, List.filter_subset_self _ hq, rfl, rfl⟩

end MemoryTurn

/-! ## Runs -/

/-- serving `turns`, newest first, leads from a new guest memory to `m` -/
inductive GuestMemory.Reaches (quota : Quota) : List MemoryTurn → GuestMemory → Prop
  | new : Reaches quota [] (.new quota)
  | serve {turns : List MemoryTurn} {m : GuestMemory} (h : Reaches quota turns m) (alive : ℕ → Dataspace → Bool)
      (request : MemoryRequest) :
      Reaches quota (⟨m, alive, request⟩ :: turns) (MemoryTurn.after ⟨m, alive, request⟩)
  /-- the quota is shared with others -/
  | share {turns : List MemoryTurn} {m : GuestMemory} (h : Reaches quota turns m) (shared : Quota) :
      Reaches quota turns { m with quota := shared }

variable {quota : Quota} {turns newer older later : List MemoryTurn} {m : GuestMemory} {x y : MemoryTurn} {q r : Region}

namespace GuestMemory.Reaches

theorem sound (h : m.Reaches quota turns) : m.Sound := by
  induction h with
  | new => exact sound_new quota
  | serve _ alive request ih => exact MemoryTurn.sound_after ⟨_, alive, request⟩ ih
  | share _ _ ih => exact ⟨ih.ordered, ih.nonempty⟩

/-- the regions are those that the last turn left -/
theorem last (h : m.Reaches quota (x :: turns)) : m.regions = x.after.regions ∧ x.before.Reaches quota turns := by
  obtain ⟨l, hl⟩ : ∃ l, x :: turns = l := ⟨_, rfl⟩
  rw [hl] at h
  induction h with
  | new => cases hl
  | serve h => cases hl; exact ⟨rfl, h⟩
  | share _ _ ih => exact ih hl

/-- what served a turn was reached by the turns before it -/
theorem before (h : m.Reaches quota (newer ++ x :: older)) : x.before.Reaches quota older := by
  induction newer generalizing m with
  | nil => exact h.last.2
  | cons y newer ih => exact ih h.last.2

end GuestMemory.Reaches

/-- `x` registered the region `r`, and a region with its attributes was there whenever one of the `later` turns was
served -/
structure RegionLife (turns : List MemoryTurn) (r : Region) (x : MemoryTurn) (later : List MemoryTurn) : Prop where
  split : ∃ earlier, turns = later ++ x :: earlier
  registers : x.Registers r
  stays : ∀ y ∈ later, r.attr ∈ y.before.attrs

namespace RegionLife

/-- the region stays the one that was registered, and is reserved as soon as it was reached -/
theorem mem (hm : m.Reaches quota turns) (h : RegionLife turns r x later) (hr : r.attr ∈ m.attrs) :
    { r with reserved := later.any fun y => y.reaches r.attr } ∈ m.regions := by
  obtain ⟨⟨earlier, rfl⟩, hnew, hstays⟩ := h
  induction later generalizing m with
  | nil =>
    obtain ⟨hregions, hx⟩ := hm.last
    obtain ⟨hreserved, _, -, hnew⟩ := hnew.spec hx.sound
    rw [hregions]
    refine hnew.mem.2 (Or.inl ?_)
    rw [List.any_nil, ← hreserved]
  | cons y later ih =>
    obtain ⟨hy, hrest⟩ := List.forall_mem_cons.1 hstays
    obtain ⟨hregions, hbefore⟩ := hm.last
    have hold := ih hy hrest hbefore
    rw [GuestMemory.attrs, hregions] at hr
    have hnow := MemoryTurn.mem_after hbefore.sound hold hr
    rw [hregions, List.any_cons, Bool.or_comm]
    exact hnow

/-- the same, seen from a turn of the region's life -/
theorem mem_before (hm : m.Reaches quota turns) (h : RegionLife turns r x later)
    (hlater : later = newer ++ y :: older) :
    { r with reserved := older.any fun y => y.reaches r.attr } ∈ y.before.regions := by
  obtain ⟨⟨earlier, rfl⟩, hnew, hstays⟩ := h
  subst hlater
  rw [List.append_assoc] at hm
  have hbefore : y.before.Reaches quota (older ++ x :: earlier) := hm.before
  refine mem hbefore ⟨⟨earlier, rfl⟩, hnew, fun z hz => hstays z ?_⟩ (hstays y (by simp))
  exact List.mem_append_right _ (List.mem_cons_of_mem _ hz)

end RegionLife

/-- every region there is has been registered by some turn, and has been there since -/
theorem GuestMemory.Reaches.exists_life (hm : m.Reaches quota turns) (hq : q ∈ m.regions) :
    ∃ r x later, RegionLife turns r x later ∧ r.attr = q.attr ∧ r.dataspace = q.dataspace := by
  induction hm generalizing q with
  | new => cases hq
  | @serve turns m h alive request ih =>
    rcases MemoryTurn.origin h.sound hq with hnew | ⟨p, hp, hattr, hds⟩
    · exact ⟨q, _, [], ⟨⟨turns, rfl⟩, hnew, by simp⟩, rfl, rfl⟩
    · obtain ⟨r, x, later, ⟨⟨earlier, hsplit⟩, hnew, hstays⟩, hattr', hds'⟩ := ih hp
      refine ⟨r, x, ⟨m, alive, request⟩ :: later, ⟨⟨earlier, by rw [hsplit, List.cons_append]⟩, hnew, ?_⟩,
        hattr'.trans hattr, hds'.trans hds⟩
      refine List.forall_mem_cons.2 ⟨?_, hstays⟩
      rw [hattr']
      exact mem_attrs hp
  | share _ _ ih => exact ih hq

end NestedGuest
