/-
The books of a guest memory with their arithmetic checked: the quota, the metadata, and the search for regions.

What keeps the sums in range was decided before. A region ends with a word because its window was refused otherwise, so
its end can be computed again. As regions begin at different pages there are at most `2 ^ 52` of them, so the blocks of
metadata can be counted in entries. An amount is drawn from a quota only if the limit, which is a word, has room for it.
`Regular` says this of a guest memory, and every operation keeps it.

- `placeChecked_eq`, `detachAtChecked_eq`, `detachChecked_eq`, `reserveAndFlushChecked_eq`: each operation is in range
  in a regular guest memory, and comes to what the books say.
-/
import NestedGuest.Proofs.Checked.Words
import NestedGuest.Proofs.Memory.Finding

namespace NestedGuest

/-! ## Quota -/

namespace QuotaGuard

/-- draws `amount` if that much is left -/
def withdrawChecked (g : QuotaGuard) (amount : ℕ) : Checked (Option QuotaGuard) :=
  if amount ≤ g.avail then do
    let used ← add? g.used amount
    return some { g with used }
  else return none

/-- the limit and the amount drawn are words -/
structure InWords (g : QuotaGuard) : Prop where
  limit : g.limit < wordEnd
  used : g.used < wordEnd

variable {g g' : QuotaGuard} {amount : ℕ}

/-- What is drawn then is a word, even if more was drawn before than the limit allows. -/
theorem InWords.withdraw (h : g.InWords) (hw : g.withdraw? amount = some g') : g'.InWords := by
  obtain ⟨hle, rfl⟩ := withdraw?_eq_some hw
  have hlimit := h.limit
  have hused := h.used
  refine ⟨hlimit, ?_⟩
  simp only
  omega

theorem InWords.replenish (h : g.InWords) (amount : ℕ) : (g.replenish amount).InWords :=
  ⟨h.limit, Nat.lt_of_le_of_lt (Nat.sub_le _ _) h.used⟩

theorem InWords.upgrade (h : g.InWords) (amount : ℕ) : (g.upgrade amount).InWords := by
  refine ⟨?_, h.used⟩
  have hpos : 0 < wordEnd := by decide
  simp only [QuotaGuard.upgrade]
  omega

theorem withdrawChecked_eq (h : g.InWords) (amount : ℕ) : g.withdrawChecked amount = some (g.withdraw? amount) := by
  unfold withdrawChecked
  cases hw : g.withdraw? amount with
  | none =>
    simp only [withdraw?, ite_eq_right_iff, reduceCtorEq, imp_false] at hw
    rw [if_neg hw]
    rfl
  | some g' =>
    have hword := (h.withdraw hw).used
    obtain ⟨-, rfl⟩ := withdraw?_eq_some hw
    simp only [withdraw?, Option.ite_none_right_eq_some] at hw
    rw [if_pos hw.1, checked_bind (add?_eq hword)]
    rfl

end QuotaGuard

namespace Quota

/-- Draws `ram` bytes and `caps` capabilities. Whether there are capabilities is asked first; they are drawn last. -/
def withdrawChecked (q : Quota) (ram caps : ℕ) : Checked (Except AllocError Quota) :=
  if q.caps.avail < caps then return .error .outOfCaps
  else do
    match ← q.ram.withdrawChecked ram with
    | none => return .error .outOfRam
    | some ramLeft =>
      let capsLeft ← q.caps.withdrawChecked caps
      return .ok ⟨ramLeft, capsLeft.getD q.caps⟩

/-- both guards hold words -/
structure InWords (q : Quota) : Prop where
  ram : q.ram.InWords
  caps : q.caps.InWords

variable {q q' : Quota} {ram caps : ℕ}

theorem inWords_new (hram : ram < wordEnd) (hcaps : caps < wordEnd) : (new ram caps).InWords := by
  have hpos : 0 < wordEnd := by decide
  exact ⟨⟨hram, hpos⟩, ⟨hcaps, hpos⟩⟩

theorem InWords.withdraw (h : q.InWords) (hw : q.withdraw ram caps = .ok q') : q'.InWords := by
  obtain ⟨hram, hcaps⟩ := withdraw_eq_ok hw
  exact ⟨h.ram.withdraw hram, h.caps.withdraw hcaps⟩

theorem InWords.replenish (h : q.InWords) (ram caps : ℕ) : (q.replenish ram caps).InWords :=
  ⟨h.ram.replenish ram, h.caps.replenish caps⟩

theorem InWords.upgrade (h : q.InWords) (ram caps : ℕ) : (q.upgrade ram caps).InWords :=
  ⟨h.ram.upgrade ram, h.caps.upgrade caps⟩

theorem withdrawChecked_eq (h : q.InWords) (ram caps : ℕ) :
    q.withdrawChecked ram caps = some (q.withdraw ram caps) := by
  unfold withdrawChecked withdraw
  by_cases hcaps : caps ≤ q.caps.avail
  · have hdrawn : q.caps.withdraw? caps = some { q.caps with used := q.caps.used + caps } := if_pos hcaps
    rw [if_neg (Nat.not_lt.2 hcaps), checked_bind (QuotaGuard.withdrawChecked_eq h.ram ram), hdrawn]
    cases q.ram.withdraw? ram with
    | none => rfl
    | some ramLeft =>
      dsimp only
      rw [checked_bind (QuotaGuard.withdrawChecked_eq h.caps caps), hdrawn]
      rfl
  · have hmissing : q.caps.withdraw? caps = none := if_neg hcaps
    rw [if_pos (Nat.lt_of_not_le hcaps), hmissing]
    rfl

end Quota

/-! ## The window of a request -/

def windowChecked (dsSize offset size : UInt64) : Checked (Except AttachError (UInt64 × UInt64)) :=
  if dsSize ≤ offset then return .error .invalidDataspace
  else do
    let rest ← sub? dsSize.toNat offset.toNat
    let avail := UInt64.ofNat rest
    return .ok (offset, if size = 0 then avail else min size avail)

/-- the end of the window and its host address are refused where they are no words, whatever is computed of them -/
def selectChecked (ds : Dataspace) (guest : UInt64) (attr : AttachAttr) : Checked (Option (UInt64 × Mapping)) :=
  if ds.managed || !(isPageAligned guest && isPageAligned attr.offset && isPageAligned attr.size) then return none
  else do
    match ← windowChecked ds.size attr.offset attr.size with
    | .error _ => return none
    | .ok (offset, size) =>
      if guest.toNat + size.toNat < wordEnd ∧ ds.phys.toNat + offset.toNat < wordEnd then
        return some (offset, ⟨guest, ds.phys + offset, size⟩)
      else return none

theorem windowChecked_eq (dsSize offset size : UInt64) :
    windowChecked dsSize offset size = some (window dsSize offset size) := by
  unfold windowChecked window
  by_cases hle : dsSize ≤ offset
  · rw [if_pos hle, if_pos hle]
    rfl
  · have hlt : offset.toNat < dsSize.toNat := Nat.lt_of_not_le fun h => hle (UInt64.le_iff_toNat_le.2 h)
    have hrest : UInt64.ofNat (dsSize.toNat - offset.toNat) = dsSize - offset := by
      rw [← UInt64.toNat_sub_of_le _ _ (UInt64.le_iff_toNat_le.2 hlt.le), UInt64.ofNat_toNat]
    rw [if_neg hle, if_neg hle, checked_bind (sub?_eq hlt.le dsSize.toNat_lt), hrest]
    rfl

theorem selectChecked_eq (ds : Dataspace) (guest : UInt64) (attr : AttachAttr) :
    selectChecked ds guest attr = some (select? ds guest attr) := by
  unfold selectChecked select?
  split_ifs
  · rfl
  · rw [checked_bind (windowChecked_eq _ _ _)]
    cases window ds.size attr.offset attr.size with
    | error e => rfl
    | ok selected =>
      dsimp only
      split_ifs <;> rfl

/-! ## Operations -/

/-- `a` lies in the region: the base is taken off only if it is not above `a` -/
def RegionAttr.containsChecked (r : RegionAttr) (a : UInt64) : Checked Bool :=
  if r.base ≤ a then do
    let offset ← sub? a.toNat r.base.toNat
    return decide (offset < r.size.toNat)
  else return false

namespace GuestMemory

def regionContainingChecked (m : GuestMemory) (a : UInt64) : Checked (Option Region) :=
  match m.lastWith fun base => decide (base ≤ a.toNat) with
  | none => return none
  | some r => do
    if ← r.attr.containsChecked a then return some r
    else return none

def overlapsChecked (m : GuestMemory) (start stop : ℕ) : Checked Bool :=
  match m.lastWith fun base => decide (base < stop) with
  | none => return false
  | some r => do
    let regionStop ← add? r.attr.base.toNat r.attr.size.toNat
    return decide (start < regionStop)

def reserveMetadataChecked (m : GuestMemory) : Checked (Except AllocError GuestMemory) := do
  let room ← mul? m.metadataBlocks regionsPerMetadataBlock
  if m.regions.length < room then return .ok m
  else
    match ← m.quota.withdrawChecked pageSize 1 with
    | .error e => return .error e
    | .ok quota =>
      let metadataBlocks ← add? m.metadataBlocks 1
      return .ok { m with quota, metadataBlocks }

def releaseMetadataChecked (m : GuestMemory) : Checked GuestMemory :=
  if 0 < m.metadataBlocks then do
    let others ← sub? m.metadataBlocks 1
    let room ← mul? others regionsPerMetadataBlock
    if m.regions.length ≤ room then
      let metadataBlocks ← sub? m.metadataBlocks 1
      return { m with quota := m.quota.replenish pageSize 1, metadataBlocks }
    else return m
  else return m

/-- the window from `guest` to `stop` lies in a region of `ds`: the one that contains `guest` does not end before -/
def reattachesChecked (m : GuestMemory) (ds : Dataspace) (guest : UInt64) (stop : ℕ) : Checked Bool := do
  match ← m.regionContainingChecked guest with
  | none => return false
  | some r =>
    if r.dataspace.cap == ds.cap then
      let extent ← sub? stop r.attr.base.toNat
      return decide (extent ≤ r.attr.size.toNat)
    else return false

def placeChecked (m : GuestMemory) (ds : Dataspace) (guest : UInt64) (attr : AttachAttr) :
    Checked (Except AttachError Placement) := do
  match ← selectChecked ds guest attr with
  | none => return .error .invalidDataspace
  | some (offset, mapping) =>
    let stop := guest.toNat + mapping.size.toNat
    if ← m.overlapsChecked guest.toNat stop then
      if ← m.reattachesChecked ds guest stop then return .ok (.again mapping)
      else return .error .regionConflict
    else
      match ← m.reserveMetadataChecked with
      | .error e => return .error (.ofAlloc e)
      | .ok m =>
        let region : Region :=
          { attr :=
              { base := guest, size := mapping.size, offset, write := ds.writeable && attr.writeable
                exec := attr.executable, dma := false }
            dataspace := ds
            reserved := false }
        return .ok (.fresh { m with regions := insertRegion region m.regions } region mapping)

def reserveAndFlushChecked (m : GuestMemory) (a : UInt64) : Checked (GuestMemory × Option Flush) := do
  match ← m.regionContainingChecked a with
  | none => return (m, none)
  | some r =>
    return ({ m with regions := m.regions.map (markAt r.attr.base) }, some ⟨r.attr, r.dataspace, !r.reserved⟩)

def detachAtChecked (m : GuestMemory) (a : UInt64) : Checked (GuestMemory × Option Flush) := do
  match ← m.regionContainingChecked a with
  | none => return (m, none)
  | some r =>
    let (m, flush) ← m.reserveAndFlushChecked r.attr.base
    let m ← releaseMetadataChecked { m with regions := m.regions.filter fun s => s.attr.base ≠ r.attr.base }
    return (m, flush)

/-- removes the region that contains `a`, which is looked up once more by its base -/
def detachFoundChecked (m : GuestMemory) (a : UInt64) : Checked (GuestMemory × Option Flush) := do
  match ← m.regionContainingChecked a with
  | none => return (m, none)
  | some r => m.detachAtChecked r.attr.base

/-- removes the regions met on a walk from `a` to `last`, which ends at the latest where its next stop is no word -/
def detachWalkChecked (m : GuestMemory) (last a : ℕ) : Checked (GuestMemory × List Flush) :=
  if a ≤ last then do
    let (left, flush) ← m.detachFoundChecked (UInt64.ofNat a)
    let next := m.nextStop last a
    if a < next then
      let (left, flushes) ← left.detachWalkChecked last next
      return (left, flush.toList ++ flushes)
    else return (left, flush.toList)
  else return (m, [])
termination_by last + 1 - a

def detachChecked (m : GuestMemory) (guest size : UInt64) : Checked (Option (GuestMemory × List Flush)) :=
  if size ≠ 0 ∧ isPageAligned guest ∧ isPageAligned size ∧ guest.toNat + (size.toNat - 1) < wordEnd then do
    let left ← m.detachWalkChecked (guest.toNat + (size.toNat - 1)) guest.toNat
    return some left
  else return none

def detachAllChecked (m : GuestMemory) : Checked (GuestMemory × List Flush) :=
  m.regions.foldlM (fun (m, flushes) r => do
    let (m, flush) ← m.detachAtChecked r.attr.base
    return (m, flushes ++ flush.toList)) (m, [])

/-! ## Regular guest memories -/

/-- regions begin at pages and end with words, there are as many blocks of metadata as they need, and the quota is one
of words -/
structure Regular (m : GuestMemory) : Prop extends Sound m where
  fits : ∀ r ∈ m.regions, r.attr.stop < wordEnd
  aligned : ∀ r ∈ m.regions, pageSize ∣ r.attr.base.toNat
  metered : m.Metered
  quota : m.quota.InWords

variable {m m' : GuestMemory} {r : Region} {ds : Dataspace} {guest a : UInt64} {attr : AttachAttr} {mapping : Mapping}
  {fs : List Flush}

theorem regular_new {quota : Quota} (h : quota.InWords) : (new quota).Regular where
  toSound := sound_new quota
  fits := by simp [new]
  aligned := by simp [new]
  metered := metered_new quota
  quota := h

/-- regions begin at different pages -/
theorem Regular.length_le (h : m.Regular) : m.regions.length ≤ 2 ^ 52 := by
  have hnodup : (m.regions.map fun r => r.attr.base.toNat / pageSize).Nodup := by
    refine List.pairwise_map.2 (h.ascending.imp_of_mem fun {r s} hr hs hlt heq => ?_)
    rw [UInt64.lt_iff_toNat_lt, ← Nat.div_mul_cancel (h.aligned r hr), ← Nat.div_mul_cancel (h.aligned s hs),
      heq] at hlt
    exact lt_irrefl _ hlt
  have hpages : (m.regions.map fun r => r.attr.base.toNat / pageSize).toFinset ⊆ Finset.range (2 ^ 52) := by
    intro k hk
    obtain ⟨r, -, rfl⟩ := List.mem_map.1 (List.mem_toFinset.1 hk)
    have hlt := r.attr.base.toNat_lt
    rw [Finset.mem_range, pageSize]
    omega
  calc m.regions.length
      = (m.regions.map fun r => r.attr.base.toNat / pageSize).toFinset.card := by
        rw [List.toFinset_card_of_nodup hnodup, List.length_map]
    _ ≤ (Finset.range (2 ^ 52)).card := Finset.card_le_card hpages
    _ = 2 ^ 52 := Finset.card_range _

/-- all entries of the metadata can be counted, and so can one block more -/
theorem Regular.blocks_lt (h : m.Regular) : m.metadataBlocks * regionsPerMetadataBlock + 1 < wordEnd := by
  have hlength := h.length_le
  have hmetered := h.metered
  simp only [Metered, regionsPerMetadataBlock, wordEnd, Nat.reduceShiftLeft] at *
  omega

theorem Regular.withQuota (h : m.Regular) {quota : Quota} (hq : quota.InWords) : Regular { m with quota } :=
  { h with quota := hq }

/-- registering a region keeps all this -/
theorem Regular.place (h : m.Regular) (hplace : m.place ds guest attr = .ok (.fresh m' r mapping)) : m'.Regular := by
  obtain ⟨hselect, hreg⟩ := place_eq_fresh h.toSound hplace
  obtain ⟨-, hguest, -⟩ := select?_eq_some hselect
  refine ⟨hreg.sound h.toSound, fun s hs => ?_, fun s hs => ?_, (place_bills hplace).metered h.metered, ?_⟩
  · rcases hreg.mem.1 hs with rfl | hs
    · rw [RegionAttr.stop, hreg.base, hreg.size, hguest]
      exact select?_fits hselect
    · exact h.fits s hs
  · rcases hreg.mem.1 hs with rfl | hs
    · rw [hreg.base, hguest]
      exact (select?_aligned hselect).1.guest
    · exact h.aligned s hs
  · obtain ⟨-, m1, hmeta, rfl⟩ := place_fresh_books hplace
    rcases reserveMetadata_cases hmeta with ⟨-, rfl⟩ | ⟨-, quota, hw, rfl⟩
    · exact h.quota
    · exact h.quota.withdraw hw

/-- flushing regions keeps all this, as long as the metadata and the quota are right -/
theorem Regular.flushed (h : m.Regular) (hflushed : Flushed m m' fs) (hmetered : m'.Metered)
    (hquota : m'.quota.InWords) : m'.Regular := by
  refine ⟨hflushed.sound h.toSound, fun r hr => ?_, fun r hr => ?_, hmetered, hquota⟩
  · obtain ⟨s, hs, hattr, -⟩ := hflushed.origin r hr
    rw [← hattr]
    exact h.fits s hs
  · obtain ⟨s, hs, hattr, -⟩ := hflushed.origin r hr
    rw [← hattr]
    exact h.aligned s hs

theorem Regular.reserveAndFlush (h : m.Regular) (a : UInt64) : (m.reserveAndFlush a).1.Regular := by
  refine h.flushed (reserveAndFlush_flushed h.toSound a) ((reserveAndFlush_bills m a).metered h.metered) ?_
  unfold GuestMemory.reserveAndFlush
  split <;> exact h.quota

theorem releaseMetadata_inWords (h : m.quota.InWords) : m.releaseMetadata.quota.InWords := by
  unfold releaseMetadata
  split_ifs
  · exact h.replenish _ _
  · exact h

theorem Regular.detachAt (h : m.Regular) (a : UInt64) : (m.detachAt a).1.Regular := by
  refine h.flushed (detachAt_flushed h.toSound a) ((detachAt_bills h.toSound a).metered h.metered) ?_
  cases hreg : m.regionContaining a with
  | none =>
    rw [detachAt_of_none hreg]
    exact h.quota
  | some r =>
    obtain ⟨before, behind, hsplit⟩ := List.append_of_mem ((regionContaining_eq_some_iff h.toSound).1 hreg).1
    rw [detachAt_eq h.toSound hreg hsplit]
    exact releaseMetadata_inWords h.quota

/-! ## Finding regions is in range -/

theorem containsChecked_eq (r : RegionAttr) (a : UInt64) : r.containsChecked a = some (r.contains a) := by
  unfold RegionAttr.containsChecked RegionAttr.contains RegionAttr.stop
  split_ifs with hle
  · rw [UInt64.le_iff_toNat_le] at hle
    rw [checked_bind (sub?_eq hle a.toNat_lt), decide_eq_true hle, Bool.true_and]
    exact congrArg some (decide_eq_decide.2 (by omega))
  · rw [UInt64.le_iff_toNat_le] at hle
    rw [decide_eq_false hle]
    rfl

theorem regionContainingChecked_eq (m : GuestMemory) (a : UInt64) :
    m.regionContainingChecked a = some (m.regionContaining a) := by
  unfold regionContainingChecked regionContaining
  cases m.lastWith fun base => decide (base ≤ a.toNat) with
  | none => rfl
  | some r =>
    dsimp only
    rw [checked_bind (containsChecked_eq r.attr a), Option.filter_some]
    split_ifs <;> rfl

theorem overlapsChecked_eq (h : m.Regular) (start stop : ℕ) :
    m.overlapsChecked start stop = some (m.overlaps start stop) := by
  unfold overlapsChecked overlaps
  cases hlast : m.lastWith fun base => decide (base < stop) with
  | none => rfl
  | some r =>
    dsimp only
    rw [checked_bind (add?_eq (h.fits r (mem_of_lastWith hlast).1))]
    rfl

/-- no end is computed of a region that runs past the last word: it would wrap around, and the region be missed -/
example : overlapsChecked
    ⟨[⟨⟨0xfffffffffffff000, 0x2000, 0, true, true, false⟩, ⟨0, ⟨0x10⟩, 0x2000, 0, false, true⟩, false⟩], .new 0 0, 1⟩
    0xffffffffffffe000 0xffffffffffffffff = none := by decide

/-! ## Metadata is in range -/

theorem reserveMetadataChecked_eq (h : m.Regular) : m.reserveMetadataChecked = some m.reserveMetadata := by
  have hblocks := h.blocks_lt
  rw [reserveMetadataChecked, reserveMetadata, checked_bind (mul?_eq (by omega))]
  split_ifs
  · rfl
  · rw [checked_bind (Quota.withdrawChecked_eq h.quota _ _)]
    cases m.quota.withdraw pageSize 1 with
    | error e => rfl
    | ok quota =>
      dsimp only
      rw [checked_bind (add?_eq (by simp only [regionsPerMetadataBlock] at hblocks; omega))]
      rfl

theorem releaseMetadataChecked_eq (h : m.metadataBlocks * regionsPerMetadataBlock + 1 < wordEnd) :
    m.releaseMetadataChecked = some m.releaseMetadata := by
  unfold releaseMetadataChecked releaseMetadata
  by_cases hpos : 0 < m.metadataBlocks
  · have hothers : sub? m.metadataBlocks 1 = some (m.metadataBlocks - 1) := by
      apply sub?_eq hpos
      simp only [regionsPerMetadataBlock] at h
      omega
    have hroom : mul? (m.metadataBlocks - 1) regionsPerMetadataBlock =
        some ((m.metadataBlocks - 1) * regionsPerMetadataBlock) := by
      apply mul?_eq
      simp only [regionsPerMetadataBlock] at h ⊢
      omega
    rw [if_pos hpos, checked_bind hothers, checked_bind hroom]
    simp only [hpos, true_and]
    split_ifs
    · rw [checked_bind hothers]
      rfl
    · rfl
  · rw [if_neg hpos, if_neg fun hfree => hpos hfree.1]
    rfl

/-! ## Operations are in range -/

/-- the test for a window attached again takes off a base that is not above the end of the window -/
theorem reattachesChecked_eq (hs : m.Sound) {stop : ℕ} (hle : guest.toNat ≤ stop) (hlt : stop < wordEnd) :
    m.reattachesChecked ds guest stop =
      some ((m.regionContaining guest).any fun r => r.dataspace.cap == ds.cap && decide (stop ≤ r.attr.stop)) := by
  rw [reattachesChecked, checked_bind (regionContainingChecked_eq m guest)]
  cases hreg : m.regionContaining guest with
  | none => rfl
  | some r =>
    have hin := RegionAttr.contains_iff.1 ((regionContaining_eq_some_iff hs).1 hreg).2
    dsimp only
    rw [Option.any_some]
    split_ifs with hcap
    · rw [checked_bind (sub?_eq (hin.1.trans hle) hlt), hcap, Bool.true_and]
      refine congrArg some (decide_eq_decide.2 ?_)
      unfold RegionAttr.stop
      omega
    · rw [Bool.eq_false_iff.2 hcap]
      rfl

/-- **Attaching is in range.** -/
theorem placeChecked_eq (h : m.Regular) (ds : Dataspace) (guest : UInt64) (attr : AttachAttr) :
    m.placeChecked ds guest attr = some (m.place ds guest attr) := by
  rw [placeChecked, checked_bind (selectChecked_eq ds guest attr), place]
  cases hselect : select? ds guest attr with
  | none => rfl
  | some selected =>
    obtain ⟨offset, mapping⟩ := selected
    dsimp only
    rw [checked_bind (overlapsChecked_eq h _ _)]
    split_ifs with hoverlaps hagain
    · rw [checked_bind (reattachesChecked_eq h.toSound (Nat.le_add_right _ _) (select?_fits hselect)), if_pos hagain]
      rfl
    · rw [checked_bind (reattachesChecked_eq h.toSound (Nat.le_add_right _ _) (select?_fits hselect)), if_neg hagain]
      rfl
    · rw [checked_bind (reserveMetadataChecked_eq h)]
      cases m.reserveMetadata <;> rfl

/-- **Flushing is in range.** -/
theorem reserveAndFlushChecked_eq (m : GuestMemory) (a : UInt64) :
    m.reserveAndFlushChecked a = some (m.reserveAndFlush a) := by
  rw [reserveAndFlushChecked, checked_bind (regionContainingChecked_eq m a)]
  cases hreg : m.regionContaining a with
  | none =>
    rw [reserveAndFlush_of_none hreg]
    rfl
  | some r =>
    rw [reserveAndFlush_of_region hreg]
    rfl

/-- **Detaching one region is in range.** -/
theorem detachAtChecked_eq (h : m.Regular) (a : UInt64) : m.detachAtChecked a = some (m.detachAt a) := by
  rw [detachAtChecked, checked_bind (regionContainingChecked_eq m a), detachAt]
  cases hreg : m.regionContaining a with
  | none => rfl
  | some r =>
    have hr := ((regionContaining_eq_some_iff h.toSound).1 hreg).1
    have hbase := h.regionContaining_base hr
    dsimp only
    rw [checked_bind (reserveAndFlushChecked_eq m r.attr.base), reserveAndFlush_of_region hbase]
    dsimp only
    rw [checked_bind (releaseMetadataChecked_eq (by exact h.blocks_lt))]
    rfl

/-- a region is the same one, whether it is found by an address in it or by its base -/
theorem detachFoundChecked_eq (h : m.Regular) (a : UInt64) : m.detachFoundChecked a = some (m.detachAt a) := by
  rw [detachFoundChecked, checked_bind (regionContainingChecked_eq m a)]
  cases hreg : m.regionContaining a with
  | none =>
    rw [detachAt_of_none hreg]
    rfl
  | some r =>
    have hr := ((regionContaining_eq_some_iff h.toSound).1 hreg).1
    have hbase := h.regionContaining_base hr
    obtain ⟨before, behind, hsplit⟩ := List.append_of_mem hr
    dsimp only
    rw [detachAtChecked_eq h, detachAt_eq h.toSound hbase hsplit, detachAt_eq h.toSound hreg hsplit]

theorem detachWalkChecked_eq (h : m.Regular) (last a : ℕ) :
    m.detachWalkChecked last a = some (m.detachWalk last a) ∧ (m.detachWalk last a).1.Regular := by
  obtain ⟨left, hleft⟩ : ∃ left, last + 1 - a = left := ⟨_, rfl⟩
  induction left using Nat.strong_induction_on generalizing m a with
  | _ left ih =>
    rw [detachWalkChecked, detachWalk]
    have hfirst := h.detachAt (UInt64.ofNat a)
    by_cases hle : a ≤ last
    · rw [if_pos hle, if_pos hle, checked_bind (detachFoundChecked_eq h _)]
      dsimp only
      split_ifs with hlt
      · obtain ⟨hrest, hregular⟩ := ih (last + 1 - m.nextStop last a) (by omega) hfirst (m.nextStop last a) rfl
        rw [checked_bind hrest]
        exact ⟨rfl, hregular⟩
      · exact ⟨rfl, hfirst⟩
    · rw [if_neg hle, if_neg hle]
      exact ⟨rfl, h⟩

/-- **Detaching a range is in range.** -/
theorem detachChecked_eq (h : m.Regular) (guest size : UInt64) :
    m.detachChecked guest size = some (m.detach? guest size) := by
  unfold detachChecked detach?
  split_ifs
  · rw [checked_bind (detachWalkChecked_eq h _ _).1]
    rfl
  · rfl

theorem Regular.detach? (h : m.Regular) {size : UInt64} (hd : m.detach? guest size = some (m', fs)) : m'.Regular := by
  unfold GuestMemory.detach? at hd
  split_ifs at hd
  have hwalk := (detachWalkChecked_eq h (guest.toNat + (size.toNat - 1)) guest.toNat).2
  rwa [Option.some.inj hd] at hwalk

/-- **Detaching all regions is in range.** -/
theorem detachAllChecked_eq (h : m.Regular) :
    m.detachAllChecked = some m.detachAll ∧ m.detachAll.1.Regular := by
  unfold detachAllChecked detachAll
  obtain ⟨rs, hrs⟩ : ∃ rs, m.regions = rs := ⟨_, rfl⟩
  obtain ⟨fs, hfs⟩ : ∃ fs : List Flush, [] = fs := ⟨_, rfl⟩
  rw [hrs, hfs]
  clear hrs hfs
  induction rs generalizing m fs with
  | nil => exact ⟨rfl, h⟩
  | cons r rs ih =>
    rw [List.foldlM_cons, List.foldl_cons]
    dsimp only
    rw [checked_bind (detachAtChecked_eq h r.attr.base)]
    exact ih (h.detachAt _) _

end GuestMemory
end NestedGuest
