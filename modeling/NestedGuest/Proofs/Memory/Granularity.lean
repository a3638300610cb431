/-
Regions and pages.

The guest address, the offset and the size that an attach request asks for have to be page-aligned, and a request that
is refused for that leaves everything as it was (`refused_of_misaligned`, `kept_of_refused`). The size that is recorded
is computed afterwards, though: it is cut at the end of the dataspace, which is not checked.

- `regions_granular`: a region consists of whole pages, unless it is the rest of a dataspace that does not;
- `ragged_region`: such a region can be registered.
-/
import NestedGuest.Proofs.Memory.History

namespace NestedGuest

open GuestMemory

variable {quota : Quota} {turns : List MemoryTurn} {m : GuestMemory} {q r : Region} {x : MemoryTurn} {ds : Dataspace}
  {guest offset : UInt64} {attr : AttachAttr} {mapping : Mapping} {outcome : Except TranslationError Unit}
  {alive : ℕ → Dataspace → Bool}

theorem isPageAligned_iff {a : UInt64} : isPageAligned a = true ↔ pageSize ∣ a.toNat := by
  rw [isPageAligned, beq_iff_eq, Nat.dvd_iff_mod_eq_zero]

/-- the request asks for whole pages -/
structure AttachAttr.Aligned (attr : AttachAttr) (guest : UInt64) : Prop where
  guest : pageSize ∣ guest.toNat
  offset : pageSize ∣ attr.offset.toNat
  size : pageSize ∣ attr.size.toNat

/-- A region consists of whole pages. Its size may do so only as far as that of its dataspace does. -/
structure Region.Granular (q : Region) : Prop where
  base : pageSize ∣ q.attr.base.toNat
  offset : pageSize ∣ q.attr.offset.toNat
  size : pageSize ∣ q.attr.size.toNat ∨ q.attr.offset.toNat + q.attr.size.toNat = q.dataspace.size.toNat

/-- the size selected is the one asked for, or it is all there is -/
theorem window_size {dsSize size o n : UInt64} (h : window dsSize offset size = .ok (o, n)) :
    n = size ∨ offset.toNat + n.toNat = dsSize.toNat := by
  obtain ⟨hlt, -, hn⟩ := window_eq_ok_iff.1 h
  split_ifs at hn
  · right
    omega
  · rcases le_total size.toNat (dsSize.toNat - offset.toNat) with hle | hle
    · rw [Nat.min_eq_left hle] at hn
      exact Or.inl (UInt64.toNat_inj.1 hn)
    · right
      omega

/-- what is known of pages when a window is selected -/
theorem select?_aligned (h : select? ds guest attr = some (offset, mapping)) :
    attr.Aligned guest ∧
      (pageSize ∣ mapping.size.toNat ∨ attr.offset.toNat + mapping.size.toNat = ds.size.toNat) := by
  unfold select? at h
  split_ifs at h with hrefused
  simp only [Bool.or_eq_true, Bool.not_eq_true', Bool.and_eq_false_iff, not_or, Bool.not_eq_false,
    isPageAligned_iff] at hrefused
  obtain ⟨-, ⟨hguest, hoffset⟩, hsize⟩ := hrefused
  refine ⟨⟨hguest, hoffset, hsize⟩, ?_⟩
  split at h
  · cases h
  · rename_i o n hwindow
    split_ifs at h
    cases h
    rcases window_size hwindow with rfl | hrest
    · exact Or.inl hsize
    · exact Or.inr hrest

/-! ## Requests -/

/-- a request for anything but whole pages is refused -/
theorem refused_of_misaligned (h : ¬ attr.Aligned guest) :
    (m.perform alive (.attach ds guest attr outcome)).result = .error .invalidDataspace := by
  have hselect : select? ds guest attr = none := by
    cases hsome : select? ds guest attr with
    | none => rfl
    | some selected =>
      obtain ⟨offset, mapping⟩ := selected
      exact absurd (select?_aligned hsome).1 h
  have hplace : m.place ds guest attr = .error .invalidDataspace := by
    unfold place
    rw [hselect]
  simp [perform, hplace]

/-- a request refused as invalid leaves everything as it was, and no dataspace learns of it -/
theorem kept_of_refused {request : MemoryRequest} (h : (m.perform alive request).result = .error .invalidDataspace) :
    (m.perform alive request).memory = m ∧ (m.perform alive request).notices = [] := by
  cases request with
  | attach ds guest attr outcome =>
    cases hplace : m.place ds guest attr with
    | error e => simp [perform, hplace]
    | ok placement =>
      -- once the window is found good, what can still fail is mapping it
      have hmapped : ∀ b, (outcome.mapError fun e => AttachError.translation e b) ≠ .error .invalidDataspace := by
        intro b heq
        cases outcome <;> cases heq
      cases placement with
      | again mapping =>
        simp only [perform, hplace] at h
        exact absurd h (hmapped _)
      | fresh m' r mapping =>
        simp only [perform, hplace] at h
        exact absurd h (hmapped _)
  | detach guest size =>
    simp only [perform] at h
    split at h <;> cases h
  | detachAt a => cases h
  | flush a => cases h
  | detachAll => cases h

/-! ## Regions -/

theorem MemoryTurn.Registers.granular (h : x.Registers r) (hs : x.before.Sound) : r.Granular := by
  obtain ⟨ds, guest, attr, outcome, mapping, -, hplace, -⟩ := h
  obtain ⟨hselect, hnew⟩ := place_eq_fresh hs hplace
  obtain ⟨haligned, hsize⟩ := select?_aligned hselect
  refine ⟨?_, ?_, ?_⟩
  · rw [hnew.base, (select?_eq_some hselect).2.1]
    exact haligned.guest
  · rw [hnew.offset]
    exact haligned.offset
  · rw [hnew.size, hnew.offset, hnew.dataspace]
    exact hsize

/-- **Regions consist of pages.** In every guest memory reached, a region begins at a page and consists of whole pages,
unless it is the rest of a dataspace that does not. A request for anything but whole pages is refused, and a request
refused as invalid leaves everything as it was. -/
theorem regions_granular (hm : m.Reaches quota turns) :
    (∀ q ∈ m.regions, q.Granular ∧ (pageSize ∣ q.dataspace.size.toNat → pageSize ∣ q.attr.size.toNat)) ∧
      (∀ alive ds guest attr outcome, ¬ attr.Aligned guest →
        (m.perform alive (.attach ds guest attr outcome)).result = .error .invalidDataspace) ∧
      ∀ alive request, (m.perform alive request).result = .error .invalidDataspace →
        (m.perform alive request).memory = m ∧ (m.perform alive request).notices = [] := by
  refine ⟨fun q hq => ?_, fun alive ds guest attr outcome h => refused_of_misaligned h,
    fun alive request h => kept_of_refused h⟩
  obtain ⟨r, x, later, ⟨⟨earlier, rfl⟩, hnew, -⟩, hattr, hds⟩ := hm.exists_life hq
  have hgranular : q.Granular := by
    obtain ⟨hbase, hoffset, hsize⟩ := hnew.granular hm.before.sound
    rw [hattr] at hbase hoffset hsize
    rw [hds] at hsize
    exact ⟨hbase, hoffset, hsize⟩
  refine ⟨hgranular, fun hwhole => ?_⟩
  rcases hgranular.size with hsize | hrest
  · exact hsize
  · rw [← hrest] at hwhole
    exact (Nat.dvd_add_right hgranular.offset).1 hwhole

/-- a dataspace that ends within a page is attached as a whole -/
def attachRagged : MemoryTurn :=
  ⟨.new (.new 0x10000 16), fun _ _ => true, .attach ⟨0, ⟨0x10⟩, 0x4800, 0x100000000, false, true⟩ 0x1000
    ⟨0, 0, true, false⟩ (.ok ())⟩

/-- the region that it becomes -/
def raggedRegion : Region where
  attr := ⟨0x1000, 0x4800, 0, true, false, false⟩
  dataspace := ⟨0, ⟨0x10⟩, 0x4800, 0x100000000, false, true⟩
  reserved := false

theorem ragged_registered :
    attachRagged.after.Reaches (.new 0x10000 16) [attachRagged] ∧ raggedRegion ∈ attachRagged.after.regions :=
  ⟨.serve .new attachRagged.alive attachRagged.request, by decide +kernel⟩

/-- A region need not consist of whole pages. -/
theorem ragged_region :
    ¬ ∀ (quota : Quota) (turns : List MemoryTurn) (m : GuestMemory), m.Reaches quota turns →
        ∀ q ∈ m.regions, pageSize ∣ q.attr.base.toNat ∧ pageSize ∣ q.attr.size.toNat := by
  intro hall
  obtain ⟨hreach, hr⟩ := ragged_registered
  obtain ⟨-, hsize⟩ := hall _ _ _ hreach raggedRegion hr
  exact absurd hsize (by decide)

theorem regions_granular_ragged :
    attachRagged.after.Reaches (.new 0x10000 16) [attachRagged] ∧ raggedRegion ∈ attachRagged.after.regions ∧
      raggedRegion.Granular := by
  obtain ⟨hreach, hr⟩ := ragged_registered
  exact ⟨hreach, hr, ((regions_granular hreach).1 raggedRegion hr).1⟩

end NestedGuest
