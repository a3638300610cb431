/-
What an attach request comes to, decided without a search.

`GuestMemory.verdict` lists the causes of refusal in their order of precedence. All sums are taken in ℕ, where none is
cut, and every region is asked about, in whatever order they are kept. That a single query for the region below an
address is enough to answer for all of them rests on the order of the regions (`Sound`), and that the number of regions
tells whether a block of metadata is due, on `Metered`.

- `attach_decided`: in every guest memory that can be reached, the reply to an attach request is the one that the
  verdict explains.
-/
import NestedGuest.Proofs.Memory.Granularity
import NestedGuest.Proofs.Memory.Offers

namespace NestedGuest

open GuestMemory

/-! ## The window asked for -/

namespace Offer

/-- bytes of the window: all from the offset on if none are named, and no more than there are -/
def extent (o : Offer) : ℕ :=
  let rest := o.dataspace.size.toNat - o.attr.offset.toNat
  if o.attr.size = 0 then rest else min o.attr.size.toNat rest

/-- the request asks for whole pages of a dataspace that can be mapped, in range on both sides -/
structure Admissible (o : Offer) : Prop where
  unmanaged : o.dataspace.managed = false
  aligned : o.attr.Aligned o.guest
  inside : o.attr.offset.toNat < o.dataspace.size.toNat
  guestEnd : o.guest.toNat + o.extent < wordEnd
  hostStart : o.dataspace.phys.toNat + o.attr.offset.toNat < wordEnd

/-- `w` is the window that the request asks for -/
structure Wants (o : Offer) (w : Mapping) : Prop where
  guest : w.guest = o.guest
  host : w.host.toNat = o.dataspace.phys.toNat + o.attr.offset.toNat
  size : w.size.toNat = o.extent

variable {o : Offer} {w : Mapping}

theorem admissible_iff : o.Admissible ↔ o.dataspace.managed = false ∧
    (pageSize ∣ o.guest.toNat ∧ pageSize ∣ o.attr.offset.toNat ∧ pageSize ∣ o.attr.size.toNat) ∧
    o.attr.offset.toNat < o.dataspace.size.toNat ∧ o.guest.toNat + o.extent < wordEnd ∧
    o.dataspace.phys.toNat + o.attr.offset.toNat < wordEnd :=
  ⟨fun h => ⟨h.unmanaged, ⟨h.aligned.guest, h.aligned.offset, h.aligned.size⟩, h.inside, h.guestEnd, h.hostStart⟩,
    fun ⟨hmanaged, ⟨hguest, hoffset, hsize⟩, hinside, hend, hhost⟩ =>
      ⟨hmanaged, ⟨hguest, hoffset, hsize⟩, hinside, hend, hhost⟩⟩

instance (o : Offer) : Decidable o.Admissible := decidable_of_iff _ admissible_iff.symm

theorem Wants.unique {w' : Mapping} (h : o.Wants w) (h' : o.Wants w') : w = w' := by
  obtain ⟨guest, host, size⟩ := w
  obtain ⟨guest', host', size'⟩ := w'
  obtain rfl : guest = guest' := h.guest.trans h'.guest.symm
  obtain rfl : host = host' := UInt64.toNat_inj.1 (h.host.trans h'.host.symm)
  obtain rfl : size = size' := UInt64.toNat_inj.1 (h.size.trans h'.size.symm)
  rfl

theorem Admissible.exists_wants (h : o.Admissible) : ∃ w, o.Wants w := by
  have hhost := h.hostStart
  have hend := h.guestEnd
  refine ⟨⟨o.guest, o.dataspace.phys + o.attr.offset, UInt64.ofNat o.extent⟩, rfl, ?_, ?_⟩
  · simp only [wordEnd] at hhost
    rw [UInt64.toNat_add]
    omega
  · simp only [wordEnd] at hend
    rw [UInt64.toNat_ofNat']
    omega

/-- A window is selected exactly if the request is admissible, and it is the one asked for. -/
theorem selects_iff : o.Selects w ↔ o.Admissible ∧ o.Wants w := by
  constructor
  · intro h
    obtain ⟨-, hguest, -, hhost⟩ := select?_eq_some h
    obtain ⟨haligned, -⟩ := select?_aligned h
    unfold Selects select? at h
    split_ifs at h with hrefused
    simp only [Bool.or_eq_true, not_or, Bool.not_eq_true] at hrefused
    split at h
    · cases h
    · rename_i offset n hwindow
      obtain ⟨hinside, -, hextent⟩ := window_eq_ok_iff.1 hwindow
      change n.toNat = o.extent at hextent
      split_ifs at h with hfits
      cases h
      exact ⟨⟨hrefused.1, haligned, hinside, hextent ▸ hfits.1, hfits.2⟩, hguest, hhost, hextent⟩
  · intro h
    obtain ⟨⟨hmanaged, ⟨hguest, hoffset, hsize⟩, hinside, hend, hhost⟩, hwants⟩ := h
    have hwindow : window o.dataspace.size o.attr.offset o.attr.size = .ok (o.attr.offset, w.size) :=
      window_eq_ok_iff.2 ⟨hinside, rfl, hwants.size⟩
    have hw : w = ⟨o.guest, o.dataspace.phys + o.attr.offset, w.size⟩ := by
      refine hwants.unique ⟨rfl, ?_, hwants.size⟩
      simp only [wordEnd] at hhost
      rw [UInt64.toNat_add]
      omega
    have hwhole : (isPageAligned o.guest && isPageAligned o.attr.offset && isPageAligned o.attr.size) = true := by
      simp only [Bool.and_eq_true, isPageAligned_iff]
      exact ⟨⟨hguest, hoffset⟩, hsize⟩
    have hfits : o.guest.toNat + w.size.toNat < wordEnd ∧
        o.dataspace.phys.toNat + o.attr.offset.toNat < wordEnd := ⟨hwants.size ▸ hend, hhost⟩
    rw [Selects, select?, hmanaged, hwhole, if_neg (by decide), hwindow]
    simp only
    rw [if_pos hfits, ← hw]

/-- nothing else is selected -/
theorem select?_eq_none (h : ¬ o.Admissible) : select? o.dataspace o.guest o.attr = none := by
  cases hselect : select? o.dataspace o.guest o.attr with
  | none => rfl
  | some selected =>
    obtain ⟨offset, w⟩ := selected
    obtain rfl := (select?_eq_some hselect).1
    exact absurd (selects_iff.1 hselect).1 h

end Offer

/-! ## Regions met -/

namespace GuestMemory

variable {quota : Quota} {turns : List MemoryTurn} {m : GuestMemory} {o : Offer} {stop : ℕ}

/-- some region meets the window that is asked for -/
def Met (m : GuestMemory) (o : Offer) : Prop :=
  ∃ r ∈ m.regions, r.attr.base.toNat < o.guest.toNat + o.extent ∧ o.guest.toNat < r.attr.stop

/-- the window that is asked for lies in a region of the same dataspace -/
def Covered (m : GuestMemory) (o : Offer) : Prop :=
  ∃ r ∈ m.regions, r.dataspace.cap = o.dataspace.cap ∧ r.attr.base.toNat ≤ o.guest.toNat ∧
    o.guest.toNat + o.extent ≤ r.attr.stop

instance (m : GuestMemory) (o : Offer) : Decidable (m.Met o) := inferInstanceAs (Decidable (∃ r ∈ m.regions, _))

instance (m : GuestMemory) (o : Offer) : Decidable (m.Covered o) :=
  inferInstanceAs (Decidable (∃ r ∈ m.regions, _))

/-- the test whether a window lies in a region of its dataspace asks the right region -/
theorem covered_iff (hs : m.Sound) (guest : UInt64) (cap : DataspaceCap) (hpos : guest.toNat < stop) :
    ((m.regionContaining guest).any fun r => r.dataspace.cap == cap && decide (stop ≤ r.attr.stop)) = true ↔
      ∃ r ∈ m.regions, r.dataspace.cap = cap ∧ r.attr.base.toNat ≤ guest.toNat ∧ stop ≤ r.attr.stop := by
  simp only [Option.any_eq_true, regionContaining_eq_some_iff hs, RegionAttr.contains_iff, Bool.and_eq_true, beq_iff_eq,
    decide_eq_true_eq]
  constructor
  · intro h
    obtain ⟨r, ⟨hr, hbase, -⟩, hcap, hstop⟩ := h
    exact ⟨r, hr, hcap, hbase, hstop⟩
  · intro h
    obtain ⟨r, hr, hcap, hbase, hstop⟩ := h
    exact ⟨r, ⟨hr, hbase, hpos.trans_le hstop⟩, hcap, hstop⟩

end GuestMemory

/-! ## Metadata -/

/-- the quota once a further block of metadata is drawn -/
def Quota.withBlock (q : Quota) : Quota where
  ram := { q.ram with used := q.ram.used + pageSize }
  caps := { q.caps with used := q.caps.used + 1 }

/-- a block of metadata costs a capability and a page, and the capability is asked for first -/
theorem Quota.withdraw_block (q : Quota) : q.withdraw pageSize 1 =
    if q.caps.avail < 1 then .error .outOfCaps else if q.ram.avail < pageSize then .error .outOfRam
    else .ok q.withBlock := by
  unfold withdraw QuotaGuard.withdraw?
  by_cases hcaps : q.caps.avail < 1
  · rw [if_pos hcaps, if_neg (Nat.not_le.2 hcaps)]
  rw [if_neg hcaps, if_pos (Nat.le_of_not_lt hcaps)]
  by_cases hram : q.ram.avail < pageSize
  · rw [if_pos hram, if_neg (Nat.not_le.2 hram)]
  rw [if_neg hram, if_pos (Nat.le_of_not_lt hram)]
  rfl

namespace GuestMemory

variable {quota : Quota} {turns : List MemoryTurn} {m : GuestMemory}

/-- the regions fill whole blocks, so a further one needs a further block -/
def Due (m : GuestMemory) : Prop := regionsPerMetadataBlock ∣ m.regions.length

instance (m : GuestMemory) : Decidable m.Due := inferInstanceAs (Decidable (_ ∣ _))

/-- `m` with the metadata for a further region drawn -/
def charged (m : GuestMemory) : GuestMemory where
  regions := m.regions
  quota := if m.Due then m.quota.withBlock else m.quota
  metadataBlocks := m.regions.length / regionsPerMetadataBlock + 1

/-- Metadata is drawn exactly if it is due. -/
theorem reserveMetadata_eq (hm : m.Metered) : m.reserveMetadata =
    if m.Due ∧ m.quota.caps.avail < 1 then .error .outOfCaps
    else if m.Due ∧ m.quota.ram.avail < pageSize then .error .outOfRam else .ok m.charged := by
  have hblocks : m.regions.length < m.metadataBlocks * regionsPerMetadataBlock ↔ ¬ m.Due := by
    simp only [Metered, Due, regionsPerMetadataBlock] at hm ⊢
    omega
  by_cases hdue : m.Due
  · have hcount : m.metadataBlocks = m.regions.length / regionsPerMetadataBlock := by
      simp only [Metered, Due, regionsPerMetadataBlock] at hm hdue ⊢
      omega
    rw [reserveMetadata, if_neg fun h => hblocks.1 h hdue, Quota.withdraw_block, charged, hcount]
    simp only [hdue, true_and, if_true]
    split_ifs <;> rfl
  · have hcount : m.metadataBlocks = m.regions.length / regionsPerMetadataBlock + 1 := by
      simp only [Metered, Due, regionsPerMetadataBlock] at hm hdue ⊢
      omega
    rw [reserveMetadata, if_pos (hblocks.2 hdue), charged, ← hcount]
    simp only [hdue, false_and, if_false]

/-- a turn keeps as much metadata as the regions need -/
theorem perform_metered (hs : m.Sound) (hm : m.Metered) (alive : ℕ → Dataspace → Bool) (request : MemoryRequest) :
    (m.perform alive request).memory.Metered := by
  cases request with
  | attach ds guest attr outcome =>
    cases hplace : m.place ds guest attr with
    | error e => simpa [perform, hplace] using hm
    | ok placement =>
      cases placement with
      | again mapping => simpa [perform, hplace] using hm
      | fresh m' r mapping => simpa [perform, hplace] using (place_bills hplace).metered hm
  | detach guest size =>
    cases hdetach : m.detach? guest size with
    | none => simpa [perform, hdetach] using hm
    | some flushed => simpa [perform, hdetach] using (detach?_bills hs hdetach).metered hm
  | detachAt a => exact (detachAt_bills hs a).metered hm
  | flush a => exact (reserveAndFlush_bills m a).metered hm
  | detachAll =>
    obtain ⟨m', hall, -, hbills⟩ := detachAll_eq hs
    simpa [perform, hall] using hbills.metered hm

theorem Reaches.metered (h : m.Reaches quota turns) : m.Metered := by
  induction h with
  | new => exact metered_new quota
  | serve h alive request ih => exact perform_metered h.sound ih alive request
  | share _ _ ih => exact ih

end GuestMemory

/-! ## The verdict -/

/-- what becomes of an attach request -/
inductive Verdict where
  | refused (error : AttachError)
  /-- the window is mapped once more -/
  | again
  /-- the window becomes a region -/
  | fresh
deriving DecidableEq, Repr

/-- the first that applies -/
def GuestMemory.verdict (m : GuestMemory) (o : Offer) : Verdict :=
  if ¬ o.Admissible then .refused .invalidDataspace
  else if m.Met o then if m.Covered o then .again else .refused .regionConflict
  else if m.Due ∧ m.quota.caps.avail < 1 then .refused .outOfCaps
  else if m.Due ∧ m.quota.ram.avail < pageSize then .refused .outOfRam
  else .fresh

/-- `m'` is `m` with the new region `r`, charged if it needs a further block of metadata -/
structure GuestMemory.Gains (m m' : GuestMemory) (r : Region) : Prop where
  mem : ∀ s, s ∈ m'.regions ↔ s = r ∨ s ∈ m.regions
  ascending : m'.regions.Pairwise fun r s => r.attr.stop ≤ s.attr.base.toNat
  length : m'.regions.length = m.regions.length + 1
  quota : m'.quota = if m.Due then m.quota.withBlock else m.quota
  blocks : m'.metadataBlocks = m.regions.length / regionsPerMetadataBlock + 1

/-- What is done where `v` is the verdict on a request: nothing if it is refused, and else exactly one window is mapped,
whose outcome is the answer. -/
def Verdict.Explains (v : Verdict) (m : GuestMemory) (o : Offer) (outcome : Except TranslationError Unit)
    (reply : MemoryReply) : Prop :=
  match v with
  | .refused e => reply.result = .error e ∧ reply.memory = m ∧ reply.notices = []
  | .again => ∃ w, o.Wants w ∧ reply.result = outcome.mapError (.translation · false) ∧ reply.memory = m ∧
      reply.notices = [.map w]
  | .fresh => ∃ w, o.Wants w ∧ reply.result = outcome.mapError (.translation · true) ∧
      m.Gains reply.memory (o.region w) ∧ reply.notices = [.attached o.dataspace (o.region w).attr, .map w]

namespace GuestMemory

variable {quota : Quota} {turns : List MemoryTurn} {m m' : GuestMemory} {o : Offer} {w : Mapping}

theorem place_of_inadmissible (h : ¬ o.Admissible) :
    m.place o.dataspace o.guest o.attr = .error .invalidDataspace := by
  rw [place, Offer.select?_eq_none h]

/-- a window that meets a region is mapped once more or refused -/
theorem place_of_met (hs : m.Sound) (hw : o.Selects w) (hmet : m.Met o) : m.place o.dataspace o.guest o.attr =
    if m.Covered o then .ok (.again w) else .error .regionConflict := by
  have hextent := (Offer.selects_iff.1 hw).2.size
  have hstop : o.guest.toNat < o.guest.toNat + o.extent := by
    rw [← hextent]
    exact Nat.lt_add_of_pos_right hw.guest.2
  have hcovered := covered_iff hs o.guest o.dataspace.cap hstop
  rw [place, hw]
  simp only [hextent]
  rw [if_pos ((overlaps_iff hs).2 hmet)]
  split_ifs with hany hall hall
  · rfl
  · exact absurd (hcovered.1 hany) hall
  · exact absurd (hcovered.2 hall) hany
  · rfl

/-- a window that meets no region becomes one, if there is metadata -/
theorem place_of_free (hs : m.Sound) (hw : o.Selects w) (hfree : ¬ m.Met o) : m.place o.dataspace o.guest o.attr =
    match m.reserveMetadata with
    | .error e => .error (.ofAlloc e)
    | .ok m' => .ok (.fresh (m'.register (o.region w)) (o.region w) w) := by
  have hextent := (Offer.selects_iff.1 hw).2.size
  rw [place, hw]
  simp only [hextent]
  rw [if_neg fun hoverlaps => hfree ((overlaps_iff hs).1 hoverlaps)]
  cases m.reserveMetadata <;> rfl

/-- registering a region changes nothing else -/
theorem charged_gains (hs : m.Sound) (hw : o.Selects w) (hfree : ¬ m.Met o) :
    m.Gains (m.charged.register (o.region w)) (o.region w) := by
  have hwants := (Offer.selects_iff.1 hw).2
  have hsound : (m.charged.register (o.region w)).Sound := by
    refine Sound.insertRegion ⟨hs.ordered, hs.nonempty⟩ hw.guest.2 (fun r hr => ?_) rfl
    by_contra hmeets
    refine hfree ⟨r, hr, ?_⟩
    rw [← hwants.size]
    simp only [Offer.region, RegionAttr.stop] at hmeets ⊢
    omega
  exact ⟨fun s => mem_register, hsound.pairwise, length_register _ _, rfl, rfl⟩

/-- **Attach decides exactly.** In every guest memory that can be reached, whatever the dataspace, the address, the
attributes and the outcome of mapping, an attach request is refused for the first cause that applies, and with no
effect. Otherwise its window is mapped exactly once, with what that answers as the answer, and becomes a region unless it
lies in one of the same dataspace. -/
theorem attach_decided (hm : m.Reaches quota turns) (alive : ℕ → Dataspace → Bool) (o : Offer)
    (outcome : Except TranslationError Unit) :
    (m.verdict o).Explains m o outcome (m.perform alive (.attach o.dataspace o.guest o.attr outcome)) := by
  unfold verdict
  by_cases hadmissible : o.Admissible
  · rw [if_neg (not_not.2 hadmissible)]
    obtain ⟨w, hwants⟩ := hadmissible.exists_wants
    have hw : o.Selects w := Offer.selects_iff.2 ⟨hadmissible, hwants⟩
    by_cases hmet : m.Met o
    · have hplace := place_of_met hm.sound hw hmet
      rw [if_pos hmet]
      split_ifs with hcovered
      · rw [if_pos hcovered] at hplace
        simp only [perform, hplace]
        exact ⟨w, hwants, rfl, rfl, rfl⟩
      · rw [if_neg hcovered] at hplace
        simp only [perform, hplace]
        exact ⟨rfl, rfl, rfl⟩
    · have hplace := place_of_free hm.sound hw hmet
      rw [reserveMetadata_eq hm.metered] at hplace
      rw [if_neg hmet]
      split_ifs at hplace ⊢ with hcaps hram
      · simp only [perform, hplace]
        exact ⟨rfl, rfl, rfl⟩
      · simp only [perform, hplace]
        exact ⟨rfl, rfl, rfl⟩
      · simp only [perform, hplace]
        exact ⟨w, hwants, rfl, charged_gains hm.sound hw hmet, rfl⟩
  · rw [if_pos hadmissible]
    simp only [perform, place_of_inadmissible hadmissible]
    exact ⟨rfl, rfl, rfl⟩

/-- a window that is cut at the end of the dataspace, and so lies in the region that ends there -/
def offerCut : Offer := ⟨⟨0x10⟩, raggedRegion.dataspace, 0x5000, ⟨0x4000, 0x1000, false, true⟩⟩

/-- a window of the same size that is not cut, and so reaches past that region -/
def offerPast : Offer := ⟨⟨0x10⟩, raggedRegion.dataspace, 0x5000, ⟨0, 0x1000, false, true⟩⟩

theorem attach_decided_ragged : attachRagged.after.Reaches (.new 0x10000 16) [attachRagged] ∧
    attachRagged.after.verdict offerCut = .again ∧ attachRagged.after.verdict offerPast = .refused .regionConflict ∧
    ∀ o ∈ [offerCut, offerPast], ∀ outcome, (attachRagged.after.verdict o).Explains attachRagged.after o outcome
      (attachRagged.after.perform (fun _ _ => true) (.attach o.dataspace o.guest o.attr outcome)) := by
  have hreach := ragged_registered.1
  refine ⟨hreach, by decide +kernel, by decide +kernel, fun o _ outcome => ?_⟩
  exact attach_decided hreach (fun _ _ => true) o outcome

end GuestMemory
end NestedGuest
