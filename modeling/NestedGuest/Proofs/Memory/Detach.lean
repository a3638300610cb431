/-
Detaching a range of guest memory.

The loop goes from region to region while it removes them. `Walks` is that loop without a bound on its turns, so a
derivation of it is a run that comes to its end: each turn gets on, past the region that it removed or over a hole
(`lt_nextStop`). What the run removes is then said without it, by the addresses that a region and the range share.

- `detach_exact`: in every guest memory that can be reached, detaching a range removes exactly the regions that share an
  address with it, and a range that is not made of whole pages nothing.
-/
import NestedGuest.Proofs.Memory.Finding
import NestedGuest.Proofs.Memory.Verdict

namespace NestedGuest

variable {quota : Quota} {turns : List MemoryTurn} {m m' : GuestMemory} {r : Region} {fs : List Flush}
  {alive : ℕ → Dataspace → Bool} {guest size : UInt64} {last a : ℕ}

/-! ## Ranges -/

/-- a range of whole pages, of one at least, whose last address is a word -/
structure PageRange (guest size : UInt64) : Prop where
  nonempty : 0 < size.toNat
  aligned : pageSize ∣ guest.toNat ∧ pageSize ∣ size.toNat
  last : guest.toNat + (size.toNat - 1) < wordEnd

/-- some address of the region is one of the `size` addresses from `guest` on -/
def RegionAttr.Shares (r : RegionAttr) (guest size : UInt64) : Prop :=
  ∃ a, r.Has a ∧ guest.toNat ≤ a ∧ a < guest.toNat + size.toNat

theorem RegionAttr.shares_iff {r : RegionAttr} : r.Shares guest size ↔
    max r.base.toNat guest.toNat < min (r.base.toNat + r.size.toNat) (guest.toNat + size.toNat) := by
  constructor
  · intro h
    obtain ⟨a, ⟨hlow, hhigh⟩, hfirst, hlast⟩ := h
    omega
  · intro h
    exact ⟨max r.base.toNat guest.toNat, ⟨le_max_left _ _, by omega⟩, le_max_right _ _, by omega⟩

instance (r : RegionAttr) (guest size : UInt64) : Decidable (r.Shares guest size) :=
  decidable_of_iff _ RegionAttr.shares_iff.symm

/-- for a region that is not empty, the test on its ends tells whether it shares an address with the range -/
theorem RegionAttr.meets_eq_shares {r : RegionAttr} (hr : 0 < r.size.toNat) (hsize : 0 < size.toNat) :
    r.meets guest.toNat (guest.toNat + (size.toNat - 1)) = decide (r.Shares guest size) := by
  rw [Bool.eq_iff_iff, meets_iff, decide_eq_true_iff, shares_iff, stop]
  omega

theorem detachWellFormed_iff : GuestMemory.DetachWellFormed guest size ↔ PageRange guest size := by
  have hzero : size ≠ 0 ↔ 0 < size.toNat := by
    rw [Nat.pos_iff_ne_zero, ne_eq, ne_eq, ← UInt64.toNat_inj]
    rfl
  rw [GuestMemory.DetachWellFormed, hzero, isPageAligned_iff, isPageAligned_iff]
  constructor
  · intro h
    obtain ⟨hpos, hguest, hsize, hlast⟩ := h
    exact ⟨hpos, ⟨hguest, hsize⟩, hlast⟩
  · intro h
    obtain ⟨hpos, ⟨hguest, hsize⟩, hlast⟩ := h
    exact ⟨hpos, hguest, hsize, hlast⟩

instance (guest size : UInt64) : Decidable (PageRange guest size) := decidable_of_iff _ detachWellFormed_iff

namespace GuestMemory

/-! ## The loop -/

/-- The loop over a range that ends with `last`: at the address that it has come to it removes the region there, if
there is one, and goes on where `nextStop` sends it, until that is past the range. -/
inductive Walks (last : ℕ) : GuestMemory → ℕ → GuestMemory → List Flush → Prop
  | done {m : GuestMemory} {a : ℕ} (h : last < a) : Walks last m a m []
  | turn {m m' : GuestMemory} {a : ℕ} {fs : List Flush} (h : a ≤ last)
      (rest : Walks last (m.detachAt (UInt64.ofNat a)).1 (m.nextStop last a) m' fs) :
      Walks last m a m' ((m.detachAt (UInt64.ofNat a)).2.toList ++ fs)

/-- The loop comes to its end. -/
theorem detachWalk_walks (hs : m.Sound) (hlast : last < wordEnd) :
    Walks last m a (m.detachWalk last a).1 (m.detachWalk last a).2 := by
  fun_induction detachWalk m last a with
  | case1 m a hle next m1 flush hdetach hlt m2 flushes hwalk ih =>
    have hflushed := detachAt_flushed hs (UInt64.ofNat a)
    rw [hdetach] at hflushed
    have hrest := ih (hflushed.sound hs)
    rw [hwalk] at hrest
    have hturn : Walks last m a m2 ((m.detachAt (UInt64.ofNat a)).2.toList ++ flushes) := by
      refine .turn hle ?_
      rw [hdetach]
      exact hrest
    rwa [hdetach] at hturn
  | case2 m a hle next m1 flush hdetach hlt => exact absurd (lt_nextStop hs hle hlast) hlt
  | case3 m a hle => exact .done (Nat.lt_of_not_le hle)

/-- A walk that meets no region changes nothing, the metadata included. -/
theorem detachWalk_of_none (hs : m.Sound) (hlast : last < wordEnd)
    (hnone : ∀ r ∈ m.regions, r.attr.meets a last = false) : m.detachWalk last a = (m, []) := by
  fun_induction detachWalk m last a with
  | case1 m a hle next m1 flush hdetach hlt m2 flushes hwalk ih =>
    have hfree : m.regionContaining (UInt64.ofNat a) = none := by
      refine Option.eq_none_iff_forall_ne_some.2 fun r hreg => ?_
      obtain ⟨hr, hcontains⟩ := (regionContaining_eq_some_iff hs).1 hreg
      obtain ⟨hlow, hhigh⟩ := RegionAttr.contains_iff.1 hcontains
      rw [UInt64.toNat_ofNat_of_lt' (hle.trans_lt hlast)] at hlow hhigh
      have hmeets := RegionAttr.meets_iff.2 ⟨hle, hlow.trans hle, hhigh⟩
      rw [hnone r hr] at hmeets
      cases hmeets
    obtain ⟨rfl, rfl⟩ := Prod.mk.inj (hdetach.symm.trans (detachAt_of_none hfree))
    have hskip := (meets_nextStop hs hle hlast hfree).2
    have hrest := ih hs fun r hr => (hskip r hr).trans (hnone r hr)
    rw [hwalk] at hrest
    obtain ⟨rfl, rfl⟩ := Prod.mk.inj hrest
    rfl
  | case2 m a hle next m1 flush hdetach hlt => exact absurd (lt_nextStop hs hle hlast) hlt
  | case3 m a hle => rfl

/-! ## The request -/

/-- the regions that a range shares an address with, in ascending order -/
def sharing (m : GuestMemory) (guest size : UInt64) : List Region :=
  m.regions.filter fun r => r.attr.Shares guest size

/-- the ranges unmapped, first to last -/
def unmapped (notices : List Notice) : List (UInt64 × UInt64) :=
  notices.filterMap fun
    | .unmap base size => some (base, size)
    | _ => none

theorem unmapped_append (ns ns' : List Notice) : unmapped (ns ++ ns') = unmapped ns ++ unmapped ns' :=
  List.filterMap_append

theorem Flush.unmapped_notices (f : Flush) (b : Bool) : unmapped (f.notices b) = [(f.region.base, f.region.size)] := by
  unfold Flush.notices
  split_ifs <;> rfl

/-- each flush unmaps its region as a whole, whatever dataspaces are there -/
theorem unmapped_flushNotices (alive : ℕ → Dataspace → Bool) (fs : List Flush) :
    unmapped (flushNotices alive fs) = fs.map fun f => (f.region.base, f.region.size) := by
  have hfrom : ∀ k, unmapped ((fs.zipIdx k).flatMap fun p => p.1.notices (alive p.2 p.1.dataspace)) =
      fs.map fun f => (f.region.base, f.region.size) := by
    induction fs with
    | nil => exact fun _ => rfl
    | cons f fs ih =>
      intro k
      rw [List.zipIdx_cons, List.flatMap_cons, unmapped_append, Flush.unmapped_notices, ih (k + 1)]
      rfl
  exact hfrom 0

/-- All that detaching a range of whole pages does. -/
structure Detaches (m : GuestMemory) (alive : ℕ → Dataspace → Bool) (guest size : UInt64) (reply : MemoryReply) :
    Prop where
  /-- the loop comes to its end, and what it flushes is told -/
  walks : ∃ fs, Walks (guest.toNat + (size.toNat - 1)) m guest.toNat reply.memory fs ∧
    reply.notices = flushNotices alive fs
  /-- every other region stays as it was -/
  regions : reply.memory.regions = m.regions.filter fun r => ¬ r.attr.Shares guest size
  /-- each region removed is unmapped once, as a whole -/
  unmaps : unmapped reply.notices = (m.sharing guest size).map fun r => (r.attr.base, r.attr.size)
  ascending : (unmapped reply.notices).Pairwise fun p q => p.1 < q.1
  /-- its dataspace learns of it if it is still there and was not told before -/
  notices : reply.notices = flushNotices alive ((m.sharing guest size).map Region.flush)
  /-- there remain as many blocks of metadata as the regions left need, and the quota drawn is that of the rest -/
  blocks : reply.memory.metadataBlocks = (reply.memory.regions.length + 31) / 32
  charged : ∀ ram caps, m.Charged ram caps → reply.memory.Charged ram caps
  answer : reply.result = .ok () ∧ reply.log = []
  /-- the same request again does nothing -/
  again : ∀ alive', reply.memory.perform alive' (.detach guest size) = { memory := reply.memory }

/-- a request for anything but whole pages is logged and ignored -/
theorem detach_ignored (h : ¬ PageRange guest size) : m.perform alive (.detach guest size) =
    { memory := m, log := [⟨.warn, malformedDetachText guest size⟩] } := by
  have hnone : m.detach? guest size = none := if_neg fun hformed => h (detachWellFormed_iff.1 hformed)
  simp only [perform, hnone]

/-- a request for whole pages takes out the regions that share an address with them -/
theorem detach_served (hs : m.Sound) (h : PageRange guest size) :
    ∃ m' fs, m.detach? guest size = some (m', fs) ∧ Walks (guest.toNat + (size.toNat - 1)) m guest.toNat m' fs ∧
      Drops m m' fs fun r => decide (r.Shares guest size) := by
  refine ⟨_, _, if_pos (detachWellFormed_iff.2 h), detachWalk_walks hs h.last, ?_⟩
  exact (detachWalk_drops hs h.last).congr fun r hr =>
    (RegionAttr.meets_eq_shares (hs.nonempty _ (mem_attrs hr)) h.nonempty).symm

/-- a range that shares no address with a region is detached already -/
theorem detach_again (hs : m.Sound) (h : PageRange guest size) (hnone : ∀ r ∈ m.regions, ¬ r.attr.Shares guest size) :
    m.perform alive (.detach guest size) = { memory := m } := by
  have hfree : ∀ r ∈ m.regions, r.attr.meets guest.toNat (guest.toNat + (size.toNat - 1)) = false := by
    intro r hr
    rw [RegionAttr.meets_eq_shares (hs.nonempty _ (mem_attrs hr)) h.nonempty, decide_eq_false_iff_not]
    exact hnone r hr
  have hserved : m.detach? guest size = some (m, []) := by
    rw [← detachWalk_of_none hs h.last hfree]
    exact if_pos (detachWellFormed_iff.2 h)
  simp only [perform, hserved]
  rfl

/-- **Detach removes exactly the regions it meets.** In every guest memory that can be reached, detaching a range of
whole pages, up to one that ends with the last word, comes to an end and removes the regions that share an address with
the range, and no other. Whatever else is asked for is ignored. -/
theorem detach_exact (hm : m.Reaches quota turns) (alive : ℕ → Dataspace → Bool) (guest size : UInt64) :
    (PageRange guest size → m.Detaches alive guest size (m.perform alive (.detach guest size))) ∧
      (¬ PageRange guest size → m.perform alive (.detach guest size) =
        { memory := m, log := [⟨.warn, malformedDetachText guest size⟩] }) := by
  refine ⟨fun h => ?_, detach_ignored⟩
  obtain ⟨m', fs, hserved, hwalks, hdrops⟩ := detach_served hm.sound h
  obtain ⟨hregions, rfl⟩ := hdrops
  have hreply : m.perform alive (.detach guest size) =
      { memory := m', notices := flushNotices alive ((m.sharing guest size).map Region.flush) } := by
    simp only [perform, hserved]
    rfl
  have hunmaps : unmapped (flushNotices alive ((m.sharing guest size).map Region.flush)) =
      (m.sharing guest size).map fun r => (r.attr.base, r.attr.size) := by
    rw [unmapped_flushNotices, List.map_map]
    rfl
  have hascending : ((m.sharing guest size).map fun r => (r.attr.base, r.attr.size)).Pairwise fun p q => p.1 < q.1 :=
    List.pairwise_map.2 (hm.sound.ascending.filter _)
  have hafter := (detach?_flushed hm.sound hserved).sound hm.sound
  have hbills := detach?_bills hm.sound hserved
  rw [hreply]
  refine ⟨⟨_, hwalks, rfl⟩, ?_, hunmaps, hunmaps ▸ hascending, rfl, hbills.metered hm.metered, hbills.charged,
    ⟨rfl, rfl⟩, fun alive' => ?_⟩
  · rw [hregions]
    exact List.filter_congr fun r _ => by rw [decide_not]
  · refine detach_again hafter h fun r hr hshares => ?_
    rw [hregions] at hr
    simp [hshares] at hr

/-- the last two pages are detached, which the region that ends with the last page but one begins before -/
theorem detach_exact_top :
    flushTop.after.Reaches (.new 0x10000 16) [flushTop, attachTop, attachRagged] ∧
      PageRange 0xffffffffffffe000 0x2000 ∧
      flushTop.after.Detaches (fun _ _ => true) 0xffffffffffffe000 0x2000
        (flushTop.after.perform (fun _ _ => true) (.detach 0xffffffffffffe000 0x2000)) ∧
      flushTop.after.sharing 0xffffffffffffe000 0x2000 =
        [⟨⟨0xffffffffffffc000, 0x3000, 0, true, false, false⟩, ⟨1, ⟨0x11⟩, 0x3000, 0x200000000, false, true⟩, true⟩] ∧
      ¬ PageRange 0xfffffffffffff000 0x2000 ∧
      (flushTop.after.perform (fun _ _ => true) (.detach 0xfffffffffffff000 0x2000)).memory = flushTop.after := by
  have hlast : PageRange 0xffffffffffffe000 0x2000 := by decide +kernel
  have hpast : ¬ PageRange 0xfffffffffffff000 0x2000 := by decide +kernel
  have hdetach := (detach_exact reaches_flushTop (fun _ _ => true) 0xffffffffffffe000 0x2000).1 hlast
  have hignored := (detach_exact reaches_flushTop (fun _ _ => true) 0xfffffffffffff000 0x2000).2 hpast
  exact ⟨reaches_flushTop, hlast, hdetach, by decide +kernel, hpast, by rw [hignored]⟩

end GuestMemory
end NestedGuest
