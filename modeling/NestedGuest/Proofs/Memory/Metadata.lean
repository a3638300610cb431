/-
The metadata of a guest memory, and what detaching undoes.

There are as many blocks of metadata as the regions need (`Metered`), and each is charged a page of RAM and a capability
(`Charged`). Every operation keeps both (`Bills`).

- `detachAt_of_place`: detaching a region just registered gives back the guest memory as it was, quota included;
- `detachAll_eq`: removing all regions flushes each of them once, in ascending order.
-/
import NestedGuest.Proofs.Memory.Attach
import NestedGuest.Proofs.Memory.Flush
import NestedGuest.Proofs.Quota

namespace NestedGuest

/-- what a region leaves behind when it is taken out of use -/
def Region.flush (r : Region) : Flush := ⟨r.attr, r.dataspace, !r.reserved⟩

namespace GuestMemory

variable {m m' m'' : GuestMemory} {r : Region} {rs before behind : List Region} {a guest : UInt64} {ds : Dataspace}
  {attr : AttachAttr} {mapping : Mapping} {fs : List Flush} {ram caps : ℕ}

/-- there are as many blocks of metadata as the regions need -/
def Metered (m : GuestMemory) : Prop :=
  m.metadataBlocks = (m.regions.length + (regionsPerMetadataBlock - 1)) / regionsPerMetadataBlock

/-- beside the metadata, `ram` bytes and `caps` capabilities are drawn -/
def Charged (m : GuestMemory) (ram caps : ℕ) : Prop :=
  m.quota.Draws (ram + m.metadataBlocks * pageSize) (caps + m.metadataBlocks)

theorem metered_new (quota : Quota) : (new quota).Metered := by
  simp [Metered, new, regionsPerMetadataBlock]

/-- `m'` has the metadata that its regions need, charged beside what was drawn already -/
structure Bills (m m' : GuestMemory) : Prop where
  metered : m.Metered → m'.Metered
  charged : ∀ ram caps, m.Charged ram caps → m'.Charged ram caps

theorem Bills.refl (m : GuestMemory) : Bills m m := ⟨fun h => h, fun _ _ h => h⟩

theorem Bills.trans (h1 : Bills m m') (h2 : Bills m' m'') : Bills m m'' :=
  ⟨fun h => h2.metered (h1.metered h), fun ram caps h => h2.charged ram caps (h1.charged ram caps h)⟩

/-- metadata does not depend on which regions there are -/
theorem Bills.of_length (hregions : m'.regions.length = m.regions.length) (hblocks : m'.metadataBlocks = m.metadataBlocks)
    (hquota : m'.quota = m.quota) : Bills m m' where
  metered h := by
    unfold Metered
    rw [hblocks, hregions]
    exact h
  charged ram caps h := by
    unfold Charged
    rw [hquota, hblocks]
    exact h

/-! ## Blocks -/

/-- a block more is opened exactly if the regions fill those there are -/
theorem reserveMetadata_cases (h : m.reserveMetadata = .ok m') :
    (m.regions.length < m.metadataBlocks * regionsPerMetadataBlock ∧ m' = m) ∨
      (m.metadataBlocks * regionsPerMetadataBlock ≤ m.regions.length ∧
        ∃ quota, m.quota.withdraw pageSize 1 = .ok quota ∧
          m' = { m with quota, metadataBlocks := m.metadataBlocks + 1 }) := by
  unfold reserveMetadata at h
  split_ifs at h with hroom
  · cases h
    exact Or.inl ⟨hroom, rfl⟩
  · split at h
    · cases h
    · rename_i quota hw
      cases h
      exact Or.inr ⟨Nat.le_of_not_lt hroom, quota, hw, rfl⟩

/-- a region more has a block -/
theorem reserveMetadata_bills (h : m.reserveMetadata = .ok m') (hlength : rs.length = m.regions.length + 1) :
    Bills m { m' with regions := rs } := by
  rcases reserveMetadata_cases h with ⟨hroom, rfl⟩ | ⟨hfull, quota, hw, rfl⟩
  · refine ⟨fun hm => ?_, fun ram caps hc => hc⟩
    simp only [Metered, regionsPerMetadataBlock, hlength] at *
    omega
  · refine ⟨fun hm => ?_, fun ram caps hc => ?_⟩
    · simp only [Metered, regionsPerMetadataBlock, hlength] at *
      omega
    · have hdraws := Quota.Draws.withdraw hc hw
      unfold Charged
      rw [add_mul, one_mul, ← add_assoc, ← add_assoc]
      exact hdraws

/-- the last block is given back as soon as the regions fit without it -/
theorem releaseMetadata_bills (hlength : m.regions.length = rs.length + 1) :
    Bills m { m with regions := rs }.releaseMetadata := by
  unfold releaseMetadata
  split_ifs with hfree
  · obtain ⟨hpos, hle⟩ := hfree
    obtain ⟨b, hb⟩ := Nat.exists_eq_succ_of_ne_zero (Nat.pos_iff_ne_zero.1 hpos)
    simp only at hb hle
    refine ⟨fun hm => ?_, fun ram caps hc => ?_⟩
    · simp only [Metered, regionsPerMetadataBlock, hlength] at *
      omega
    · unfold Charged at hc ⊢
      rw [hb, Nat.succ_eq_add_one, add_mul, one_mul, ← add_assoc, ← add_assoc] at hc
      have hblocks : ({ m with regions := rs } : GuestMemory).metadataBlocks - 1 = b := by simp [hb]
      rw [hblocks]
      exact hc.replenish
  · refine ⟨fun hm => ?_, fun ram caps hc => hc⟩
    simp only [Metered, regionsPerMetadataBlock, hlength] at *
    omega

/-! ## One region less -/

theorem Sound.base_ne (h : m.Sound) (hsplit : m.regions = before ++ r :: behind) {s : Region}
    (hs : s ∈ before ++ behind) : s.attr.base ≠ r.attr.base := by
  intro hbase
  have hr : r ∈ m.regions := by simp [hsplit]
  have hsr : s ∈ m.regions := by
    rw [hsplit]
    rcases List.mem_append.1 hs with hs | hs
    · exact List.mem_append_left _ hs
    · exact List.mem_append_right _ (List.mem_cons_of_mem _ hs)
  obtain rfl := h.eq_of_base_eq hsr hr hbase
  have hpair := h.pairwise
  rw [hsplit] at hpair
  have hlt := h.base_lt_stop hr
  obtain ⟨-, htail, hcross⟩ := List.pairwise_append.1 hpair
  rcases List.mem_append.1 hs with hs | hs
  · have hle := hcross s hs s List.mem_cons_self
    omega
  · have hle := (List.pairwise_cons.1 htail).1 s hs
    omega

/-- the region that contains an address is taken out of the list, and a block of metadata may be given back -/
theorem detachAt_eq (hs : m.Sound) (hreg : m.regionContaining a = some r) (hsplit : m.regions = before ++ r :: behind) :
    m.detachAt a = ({ m with regions := before ++ behind }.releaseMetadata, some r.flush) := by
  have hr := ((regionContaining_eq_some_iff hs).1 hreg).1
  have hbase := hs.regionContaining_base hr
  have hothers : ∀ l : List Region, (∀ s ∈ l, s.attr.base ≠ r.attr.base) →
      ((l.map (markAt r.attr.base)).filter fun s => decide (s.attr.base ≠ r.attr.base)) = l := by
    intro l hl
    have hmap : l.map (markAt r.attr.base) = l := by
      refine List.map_congr_left (fun s hs => ?_) |>.trans (List.map_id l)
      rw [markAt, if_neg (hl s hs), id]
    rw [hmap, List.filter_eq_self]
    intro s hs
    exact decide_eq_true (hl s hs)
  have hfilter : ((m.regions.map (markAt r.attr.base)).filter fun s => decide (s.attr.base ≠ r.attr.base)) =
      before ++ behind := by
    have hbefore := hothers before fun s hs' => hs.base_ne hsplit (List.mem_append_left _ hs')
    have hbehind := hothers behind fun s hs' => hs.base_ne hsplit (List.mem_append_right _ hs')
    rw [hsplit, List.map_append, List.map_cons, List.filter_append, List.filter_cons_of_neg, hbefore, hbehind]
    simp [markAt_attr]
  simp only [detachAt, hreg, reserveAndFlush_of_region hbase, hfilter]
  rfl

theorem detachAt_bills (hs : m.Sound) (a : UInt64) : Bills m (m.detachAt a).1 := by
  cases hreg : m.regionContaining a with
  | none =>
    rw [detachAt_of_none hreg]
    exact .refl m
  | some r =>
    obtain ⟨before, behind, hsplit⟩ := List.append_of_mem ((regionContaining_eq_some_iff hs).1 hreg).1
    rw [detachAt_eq hs hreg hsplit]
    refine releaseMetadata_bills ?_
    rw [hsplit]
    simp only [List.length_append, List.length_cons]
    omega

theorem detachWalk_bills (hs : m.Sound) (last a : ℕ) : Bills m (m.detachWalk last a).1 := by
  fun_induction detachWalk m last a with
  | case1 m a hle next m1 flush hdetach hlt m2 flushes hwalk ih =>
    have hbills := detachAt_bills hs (UInt64.ofNat a)
    have hflushed := detachAt_flushed hs (UInt64.ofNat a)
    rw [hdetach] at hbills hflushed
    have hrest := ih (hflushed.sound hs)
    rw [hwalk] at hrest
    exact hbills.trans hrest
  | case2 m a hle next m1 flush hdetach hlt =>
    have hbills := detachAt_bills hs (UInt64.ofNat a)
    rwa [hdetach] at hbills
  | case3 m a hle => exact .refl m

theorem detach?_bills (hs : m.Sound) {size : UInt64} (h : m.detach? guest size = some (m', fs)) : Bills m m' := by
  unfold detach? at h
  split_ifs at h
  have hwalk := detachWalk_bills hs (guest.toNat + (size.toNat - 1)) guest.toNat
  rwa [Option.some.inj h] at hwalk

theorem reserveAndFlush_bills (m : GuestMemory) (a : UInt64) : Bills m (m.reserveAndFlush a).1 := by
  cases hreg : m.regionContaining a with
  | none =>
    rw [reserveAndFlush_of_none hreg]
    exact .refl m
  | some r =>
    rw [reserveAndFlush_of_region hreg]
    exact .of_length (List.length_map _) rfl rfl

/-! ## One region more -/

theorem insertRegion_split (r : Region) (rs : List Region) :
    ∃ before behind, rs = before ++ behind ∧ insertRegion r rs = before ++ r :: behind := by
  induction rs with
  | nil => exact ⟨[], [], rfl, rfl⟩
  | cons s rs ih =>
    unfold insertRegion
    split_ifs
    · exact ⟨[], s :: rs, rfl, rfl⟩
    · obtain ⟨before, behind, hrs, hins⟩ := ih
      exact ⟨s :: before, behind, by rw [hrs, List.cons_append], by rw [hins, List.cons_append]⟩

/-- all that registering a region does to the books -/
theorem place_fresh_books (h : m.place ds guest attr = .ok (.fresh m' r mapping)) :
    r.reserved = false ∧ ∃ m1, m.reserveMetadata = .ok m1 ∧ m' = { m1 with regions := insertRegion r m.regions } := by
  unfold place at h
  split at h
  · cases h
  simp only at h
  split_ifs at h
  · cases h
  · split at h
    · cases h
    · rename_i m1 hmeta
      cases h
      refine ⟨rfl, m1, hmeta, ?_⟩
      rw [reserveMetadata_regions hmeta]

theorem place_bills (h : m.place ds guest attr = .ok (.fresh m' r mapping)) : Bills m m' := by
  obtain ⟨-, m1, hmeta, rfl⟩ := place_fresh_books h
  obtain ⟨before, behind, hrs, hins⟩ := insertRegion_split r m.regions
  refine reserveMetadata_bills hmeta ?_
  rw [hins, hrs]
  simp only [List.length_append, List.length_cons]
  omega

/-- without the region that it was reserved for, the metadata is as before -/
theorem releaseMetadata_of_reserve (hm : m.Metered) (h : m.reserveMetadata = .ok m') :
    { m' with regions := m.regions }.releaseMetadata = m := by
  unfold Metered at hm
  rcases reserveMetadata_cases h with ⟨hroom, rfl⟩ | ⟨hfull, quota, hw, rfl⟩
  · have hneeded : ¬ (0 < m'.metadataBlocks ∧
        m'.regions.length ≤ (m'.metadataBlocks - 1) * regionsPerMetadataBlock) := by
      simp only [regionsPerMetadataBlock] at *
      omega
    exact if_neg hneeded
  · have hfree : 0 < m.metadataBlocks + 1 ∧
        m.regions.length ≤ (m.metadataBlocks + 1 - 1) * regionsPerMetadataBlock := by
      simp only [regionsPerMetadataBlock] at *
      omega
    refine (if_pos hfree).trans ?_
    rw [Quota.replenish_of_withdraw hw, Nat.add_sub_cancel]

/-- Detaching a region that was just registered gives back the guest memory as it was. -/
theorem detachAt_of_place (hs : m.Sound) (hm : m.Metered) (h : m.place ds guest attr = .ok (.fresh m' r mapping)) :
    m'.detachAt guest = (m, some r.flush) := by
  obtain ⟨hselect, hreg⟩ := place_eq_fresh hs h
  have hs' := hreg.sound hs
  have hr : r ∈ m'.regions := hreg.mem.2 (Or.inl rfl)
  have hguest : guest = r.attr.base := by rw [hreg.base, (select?_eq_some hselect).2.1]
  have hcontaining : m'.regionContaining guest = some r := by
    rw [hguest]
    exact hs'.regionContaining_base hr
  obtain ⟨before, behind, hrs, hins⟩ := insertRegion_split r m.regions
  obtain ⟨-, m1, hmeta, rfl⟩ := place_fresh_books h
  have hbooks := releaseMetadata_of_reserve hm hmeta
  rw [detachAt_eq hs' hcontaining hins, ← hrs]
  exact Prod.ext hbooks rfl

/-! ## All regions -/

theorem foldl_detachAt (hs : m.Sound) (fs : List Flush) :
    ∃ m', m.regions.foldl (fun (m, flushes) r =>
        let (m, flush) := m.detachAt r.attr.base
        (m, flushes ++ flush.toList)) (m, fs) = (m', fs ++ m.regions.map Region.flush) ∧
      m'.regions = [] ∧ Bills m m' := by
  obtain ⟨rs, hrs⟩ : ∃ rs, m.regions = rs := ⟨_, rfl⟩
  rw [hrs]
  induction rs generalizing m fs with
  | nil => exact ⟨m, by simp, hrs, .refl m⟩
  | cons r rs ih =>
    have hr : r ∈ m.regions := by simp [hrs]
    have hfirst : m.detachAt r.attr.base = ({ m with regions := rs }.releaseMetadata, some r.flush) :=
      detachAt_eq hs (hs.regionContaining_base hr) (show m.regions = [] ++ r :: rs from hrs)
    have hbills := detachAt_bills hs r.attr.base
    have hsound := (detachAt_flushed hs r.attr.base).sound hs
    rw [hfirst] at hbills hsound
    obtain ⟨m', hfold, hnone, hrest⟩ := ih hsound (fs ++ [r.flush]) (releaseMetadata_regions _)
    refine ⟨m', ?_, hnone, hbills.trans hrest⟩
    rw [List.foldl_cons]
    simp only [hfirst, Option.toList_some, hfold, List.map_cons, List.append_assoc, List.singleton_append]

/-- Removing all regions flushes each of them once, in ascending order. -/
theorem detachAll_eq (hs : m.Sound) :
    ∃ m', m.detachAll = (m', m.regions.map Region.flush) ∧ m'.regions = [] ∧ Bills m m' := by
  obtain ⟨m', hfold, hnone, hbills⟩ := foldl_detachAt hs []
  exact ⟨m', by rw [detachAll, hfold, List.nil_append], hnone, hbills⟩

end GuestMemory
end NestedGuest
