/-
Which tables a request to map a range needs, whatever other ranges are mapped.

A request needs a table for the addresses for which no leaf one level up can do: the block of such a leaf would not lie
in the range, or its target is not aligned (`needs`). An insertion into a range without leaves adds the tables that it
needs and that are not there yet, and no others, and is refused only if there are too few.

- `places_insert`: after an insertion that succeeded, the tables in use are those from before and those it needs;
- `insert_eq_ok_iff`: it succeeds exactly if there are that many tables.
-/
import NestedGuest.Proofs.Paging.Coverage

namespace NestedGuest

/-! ## Counting tables -/

namespace TableArray

variable {a : TableArray}

/-- no more tables are handed out than there are -/
theorem inUse_le (h : a.Sound) : a.inUse ≤ a.capacity := by
  have hsub : a.used.toList ⊆ List.range a.capacity := fun i hi =>
    List.mem_range.2 (h.below i (Bitmap.mem_toList.1 hi))
  have hle := (List.subperm_of_subset a.used.nodup_toList hsub).length_le
  rwa [List.length_range] at hle

/-- if none can be handed out, all of them are -/
theorem inUse_of_alloc?_eq_none (h : a.Sound) (ha : a.alloc? = none) : a.inUse = a.capacity := by
  refine le_antisymm (inUse_le h) ?_
  have hroom : a.capacity ≤ 64 * a.used.blocks.length := by
    rw [h.room, Bitmap.blocksFor]
    omega
  rw [alloc?, Option.map_eq_none_iff, Bitmap.firstClear_eq_none_iff hroom] at ha
  have hsub : List.range a.capacity ⊆ a.used.toList := fun i hi =>
    Bitmap.mem_toList.2 (ha i (List.mem_range.1 hi))
  have hle := (List.subperm_of_subset List.nodup_range hsub).length_le
  rwa [List.length_range] at hle

end TableArray

namespace PageTable

/-! ## Needs -/

/-- One leaf can map block `k` at level `l` for a request: the block lies in the range, and its target is aligned. -/
structure Admits (vm pa size l k : ℕ) : Prop where
  level : l ≤ maxLeafLevel
  first : vm ≤ k * levelSize l
  last : (k + 1) * levelSize l ≤ vm + size
  aligned : (pa + (k * levelSize l - vm)) % levelSize l = 0

/-- the places of the tables that a request needs: they translate an address of it for which one leaf is not enough -/
def needs (vm pa size : ℕ) : Set (ℕ × ℕ) :=
  {x | x.1 < rootLevel ∧ Touches vm (vm + size) x.1 x.2 ∧ ¬ Admits vm pa size (x.1 + 1) x.2}

/-- the places of the tables below the root -/
def places (t : PageTable) : Set (ℕ × ℕ) := {x | x.1 < rootLevel ∧ ∃ p, t.TableFor x.1 x.2 p}

variable {t t' : PageTable} {pos : UInt64 → Option (ℕ × ℕ)} {p : UInt64} {va vm pa size l k m j : ℕ} {e : UInt64}
  {flags : PageFlags}

theorem Placed.mem_places_iff (h : t.Placed pos) {x : ℕ × ℕ} :
    x ∈ t.places ↔ x.1 < rootLevel ∧ ∃ p, pos p = some x := by
  simp only [places, Set.mem_ofPred_eq, h.tableFor_iff]

theorem Placed.encard_places_eq (h : t.Placed pos) : t.places.encard = t.tablesInUse := by
  rw [← h.encard_places]
  exact congrArg Set.encard (Set.ext fun x => h.mem_places_iff)

/-- a leaf that would do can be put at the first address of its block -/
theorem leafFits_of_admits (h : Admits vm pa size (l + 1) (va / levelSize (l + 1)))
    (hfirst : va % levelSize (l + 1) = 0) :
    leafFits (l + 1) va (pa + (va - vm)) (vm + size - va) = true := by
  obtain ⟨hlevel, -, hlast, haligned⟩ := h
  have hblock : va / levelSize (l + 1) * levelSize (l + 1) = va := Nat.div_mul_cancel (Nat.dvd_of_mod_eq_zero hfirst)
  rw [add_mul, one_mul, hblock] at hlast
  rw [hblock] at haligned
  have hsize : levelSize (l + 1) ≤ vm + size - va := by omega
  simp [leafFits, hlevel, hfirst, haligned, hsize]

/-- Where all of a request before `va` is mapped and no leaf can be put for `va`, the table one level down is needed. -/
theorem mem_needs_of_absent (h : t.Placed pos) (hp : pos p = some (l + 1, va / levelSize (l + 2)))
    (he : t.entry? p (slotOf va (l + 1)) = some e) (habsent : t.format.present e = false)
    (hdone : ∀ a, vm ≤ a → a < va → t.leafOf a ≠ none) (hlow : vm ≤ va) (hhigh : va < vm + size)
    (hfits : leafFits (l + 1) va (pa + (va - vm)) (vm + size - va) = false) :
    (l, va / levelSize (l + 1)) ∈ needs vm pa size := by
  refine ⟨h.level_le hp, ⟨va, hlow, hhigh, rfl⟩, fun hadmits => ?_⟩
  by_cases hfirst : va % levelSize (l + 1) = 0
  · rw [leafFits_of_admits hadmits hfirst] at hfits
    cases hfits
  · -- the block begins in the request and before `va`, so it has a leaf already
    have hdecomp := Nat.div_add_mod' va (levelSize (l + 1))
    have hmod := Nat.mod_lt va (levelSize_pos (l + 1))
    have hbefore : (va - 1) / levelSize (l + 1) = va / levelSize (l + 1) := by
      rw [mem_block_iff, add_mul, one_mul]
      omega
    have hbegin : vm ≤ va / levelSize (l + 1) * levelSize (l + 1) := hadmits.first
    refine hdone (va - 1) (by omega) (by omega) (leafOf_of_absent h hp he habsent ?_)
    rw [hbefore]
    exact block_of_slot va (l + 1)

/-! ## One leaf -/

/-- an insertion was refused: it needs a table more, and none is left -/
def Lacks (t : PageTable) (pos : UInt64 → Option (ℕ × ℕ)) (needed : Set (ℕ × ℕ)) : Prop :=
  t.nodes.alloc? = none ∧ ∃ x ∈ needed, ∀ q, pos q ≠ some x

/-- Inserting one leaf where there is none adds needed tables only, and is refused only if one that is needed is not to
be had. -/
theorem insertLeaf_needs (flags : PageFlags) (hlow : vm ≤ va) (hhigh : va < vm + size) (hpa : pa % pageSize = 0)
    (hvm : vm % pageSize = 0) (hva : va % pageSize = 0) (hend : pa + size ≤ physAddressEnd) (h : t.Shaped pos)
    (hp : pos p = some (l, va / levelSize (l + 1))) (hdone : ∀ a, vm ≤ a → a < va → t.leafOf a ≠ none)
    (hfree : t.leafOf va = none) (hlt : va < addressSpaceEnd) :
    ∃ pos', Grows (insertLeaf va (pa + (va - vm)) (vm + size - va) flags l p t).1 pos pos'
        (fun m j => (m, j) ∈ needs vm pa size) ∧
      ((∃ c, (insertLeaf va (pa + (va - vm)) (vm + size - va) flags l p t).2 = .ok c) ∨
        (insertLeaf va (pa + (va - vm)) (vm + size - va) flags l p t).1.Lacks pos' (needs vm pa size)) := by
  have htarget : pa + (va - vm) < physAddressEnd := by omega
  have haligned : (pa + (va - vm)) % pageSize = 0 := by
    simp only [pageSize] at *
    omega
  induction l generalizing p t pos with
  | zero =>
    obtain ⟨e, he⟩ := h.entry hp (slotOf va 0)
    simp only [insertLeaf, he]
    split_ifs with hpresent
    · have hleaf := (leafOf_eq_some_iff h.toPlaced).2 ⟨hlt, p, hp, he, hpresent, Or.inl rfl⟩
      rw [hfree] at hleaf
      cases hleaf
    · obtain ⟨hgrows, -⟩ := putLeaf_grows flags h hp he (by simpa using hpresent) (by decide) haligned htarget
      exact ⟨pos, hgrows, Or.inl ⟨_, rfl⟩⟩
  | succ l ih =>
    obtain ⟨e, he⟩ := h.entry hp (slotOf va (l + 1))
    simp only [insertLeaf, he]
    split_ifs with hpresent hlarge hfits
    · have hleaf := (leafOf_eq_some_iff h.toPlaced).2 ⟨hlt, p, hp, he, hpresent, Or.inr hlarge⟩
      rw [hfree] at hleaf
      cases hleaf
    · have hchild := h.child p l _ _ _ hp ⟨e, he, hpresent, by simpa using hlarge, rfl⟩
      rw [← block_of_slot] at hchild
      exact ih h hchild hdone hfree
    · obtain ⟨hlevel, htarget'⟩ := leafFits_level hfits
      obtain ⟨hgrows, -⟩ := putLeaf_grows flags h hp he (by simpa using hpresent) hlevel htarget' htarget
      rw [decide_eq_true (Nat.succ_pos l)] at hgrows
      exact ⟨pos, hgrows, Or.inl ⟨_, rfl⟩⟩
    · have habsent : t.format.present e = false := by simpa using hpresent
      have hneeded : (l, va / levelSize (l + 1)) ∈ needs vm pa size :=
        mem_needs_of_absent h.toPlaced hp he habsent hdone hlow hhigh (by simpa using hfits)
      split
      · rename_i halloc
        have hmissing : ∀ q, pos q ≠ some (l, va / levelSize (l + 1)) := fun q =>
          h.not_below hp he (EntryFormat.not_isTable_of_absent habsent) (block_of_slot va (l + 1)) (Nat.lt_succ_self l)
        exact ⟨pos, .same h, Or.inr ⟨halloc, _, hneeded, hmissing⟩⟩
      · rename_i child nodes halloc
        obtain ⟨tb, htb⟩ := h.table hp
        have hl := linked_link (s := slotOf va (l + 1)) h.toStored htb halloc
        have h' := hl.shaped h hp he habsent
        have hleaves := hl.leafOf h.toPlaced hp he habsent
        obtain ⟨pos', hgrows, hresult⟩ := ih h' (by rw [if_pos rfl, ← block_of_slot])
          (fun a h1 h2 => by rw [hleaves]; exact hdone a h1 h2) (by rw [hleaves]; exact hfree)
        refine ⟨pos', hgrows.of_link hl h.toPlaced ?_, hresult⟩
        rw [← block_of_slot]
        exact hneeded

/-! ## A whole request -/

/-- what is mapped so far reaches further after an insertion -/
theorem Inserts.mapped_before (hins : Inserts t t' va pa k flags) (hdone : ∀ a, vm ≤ a → a < va → t.leafOf a ≠ none) :
    ∀ a, vm ≤ a → a < va + k → t'.leafOf a ≠ none := by
  intro a hlow hhigh
  by_cases ha : a < va
  · obtain ⟨x, hx⟩ := Option.ne_none_iff_exists'.1 (hdone a hlow ha)
    rw [hins.kept a x hx]
    exact Option.some_ne_none x
  · obtain ⟨m, d, hd, -⟩ := hins.mapped a (Nat.le_of_not_lt ha) hhigh
    rw [hd]
    exact Option.some_ne_none _

/-- what is behind the range of an insertion stays free -/
theorem Inserts.free_behind (hins : Inserts t t' va pa k flags) {stop : ℕ}
    (hfree : ∀ a, va ≤ a → a < stop → t.leafOf a = none) : ∀ a, va + k ≤ a → a < stop → t'.leafOf a = none := by
  intro a hlow hhigh
  rw [Option.eq_none_iff_forall_ne_some]
  intro x hx
  have hin := (hins.inside a x.1 x.2 (hfree a (by omega) hhigh) hx a rfl).2
  omega

/-- A request for a range without leaves adds needed tables only, and is refused only if one that is needed is not to be
had. -/
theorem insertLeaves_needs (flags : PageFlags) (hlow : vm ≤ va) (hpa : pa % pageSize = 0) (hvm : vm % pageSize = 0)
    (hva : va % pageSize = 0) (hsize : size % pageSize = 0) (hlast : vm + size ≤ addressSpaceEnd)
    (hend : pa + size ≤ physAddressEnd) (h : t.Shaped pos) (hdone : ∀ a, vm ≤ a → a < va → t.leafOf a ≠ none)
    (hfree : ∀ a, va ≤ a → a < vm + size → t.leafOf a = none) :
    ∃ pos', Grows (insertLeaves va (pa + (va - vm)) (vm + size - va) flags t).1 pos pos'
        (fun m j => (m, j) ∈ needs vm pa size) ∧
      ((insertLeaves va (pa + (va - vm)) (vm + size - va) flags t).2 = .ok () ∨
        (insertLeaves va (pa + (va - vm)) (vm + size - va) flags t).1.Lacks pos' (needs vm pa size)) := by
  obtain ⟨remaining, hremaining⟩ : ∃ n, vm + size - va = n := ⟨_, rfl⟩
  induction remaining using Nat.strong_induction_on generalizing va t pos with
  | _ remaining ih =>
    rw [insertLeaves]
    split_ifs with hzero
    · exact ⟨pos, .same h, Or.inl rfl⟩
    · have hroot := h.root
      rw [← block_root (show va < addressSpaceEnd by omega)] at hroot
      have htarget : (pa + (va - vm)) % pageSize = 0 := by
        simp only [pageSize] at *
        omega
      have hrest : 0 < vm + size - va := Nat.pos_of_ne_zero hzero
      have hins := insertLeaf_inserts flags (by omega) hva htarget hrest (by omega) h.toPlaced hroot
      have hcover := insertLeaf_covers (pa + (va - vm)) flags hrest (by simp only [pageSize] at *; omega) hva rootLevel
        t.rootPhys t
      obtain ⟨pos1, hgrows, hresult⟩ := insertLeaf_needs flags hlow (by omega) hpa hvm hva hend h hroot hdone
        (hfree va le_rfl (by omega)) (by omega)
      split
      · rename_i u err hleaf
        rw [hleaf] at hgrows hresult
        refine ⟨pos1, hgrows, Or.inr (hresult.resolve_left ?_)⟩
        intro hok
        obtain ⟨c, hc⟩ := hok
        cases hc
      · rename_i u hleaf
        rw [hleaf] at hcover
        exact absurd (hcover 0 rfl).1 (lt_irrefl 0)
      · rename_i u c hleaf
        rw [hleaf] at hcover hgrows hins
        obtain ⟨-, hle, hmod⟩ := hcover _ rfl
        have hdone1 : ∀ a, vm ≤ a → a < va + (c + 1) → u.leafOf a ≠ none := hins.mapped_before hdone
        have hfree1 : ∀ a, va + (c + 1) ≤ a → a < vm + size → u.leafOf a = none := hins.free_behind hfree
        obtain ⟨pos2, hgrows2, hresult2⟩ := ih (vm + size - (va + (c + 1))) (by omega) (by omega)
          (by simp only [pageSize] at *; omega) hgrows.shaped hdone1 hfree1 rfl
        have htarget : pa + (va - vm) + (c + 1) = pa + (va + (c + 1) - vm) := by omega
        have hrest : vm + size - va - (c + 1) = vm + size - (va + (c + 1)) := by omega
        rw [htarget, hrest]
        exact ⟨pos2, hgrows.trans hgrows2, hresult2⟩

/-- the page table accepts such a request, if it has the tables -/
structure Mappable (vm pa size : ℕ) : Prop where
  start : vm % pageSize = 0
  target : pa % pageSize = 0
  pages : size % pageSize = 0
  space : vm + size ≤ addressSpaceEnd
  host : pa + size ≤ physAddressEnd

variable {guest phys bytes : UInt64}

theorem insert_of_mappable (t : PageTable) (h : Mappable guest.toNat phys.toNat bytes.toNat) :
    t.insert guest phys bytes flags = insertLeaves guest.toNat phys.toNat bytes.toNat flags t := by
  obtain ⟨h1, h2, h3, h4, h5⟩ := h
  simp [insert, isPageAligned, h1, h2, h3, h4, h5]

/-- any other request is refused at once -/
theorem insert_of_not_mappable (t : PageTable) (h : ¬ Mappable guest.toNat phys.toNat bytes.toNat) :
    t.insert guest phys bytes flags = (t, .error .invalidMapping) := by
  unfold insert
  split_ifs with hcond
  · simp only [isPageAligned, Bool.and_eq_true, beq_iff_eq, decide_eq_true_eq] at hcond
    obtain ⟨⟨⟨⟨hvm, hphys⟩, hsize⟩, hlast⟩, hend⟩ := hcond
    exact absurd ⟨hvm, hphys, hsize, hlast, hend⟩ h
  · rfl

theorem mappable_of_insert (h : (t.insert guest phys bytes flags).2 = .ok ()) :
    Mappable guest.toNat phys.toNat bytes.toNat := by
  by_contra hnot
  rw [insert_of_not_mappable t hnot] at h
  cases h

/-- what an insertion into a range without leaves does to the tables -/
theorem insert_needs (hmap : Mappable guest.toNat phys.toNat bytes.toNat) (flags : PageFlags) (h : t.Shaped pos)
    (hfree : ∀ a, guest.toNat ≤ a → a < guest.toNat + bytes.toNat → t.leafOf a = none) :
    ∃ pos', Grows (t.insert guest phys bytes flags).1 pos pos'
        (fun m j => (m, j) ∈ needs guest.toNat phys.toNat bytes.toNat) ∧
      ((t.insert guest phys bytes flags).2 = .ok () ∨
        (t.insert guest phys bytes flags).1.Lacks pos' (needs guest.toNat phys.toNat bytes.toNat)) := by
  obtain ⟨h1, h2, h3, h4, h5⟩ := hmap
  have hleaves := insertLeaves_needs flags le_rfl h2 h1 h1 h3 h4 h5 h (fun a hle hlt => by omega) hfree
  rw [Nat.sub_self, add_zero, Nat.add_sub_cancel_left] at hleaves
  rw [insert_of_mappable t ⟨h1, h2, h3, h4, h5⟩]
  exact hleaves

/-! ## Main results -/

/-- A block that lies in one of the new leaves could be mapped by a leaf. -/
theorem admits_of_leaf (h : t'.Shaped pos) (hins : Inserts t t' vm pa size flags) {a : ℕ} (hnone : t.leafOf a = none)
    (hleaf : t'.leafOf a = some (l, e)) (hml : m ≤ l) : Admits vm pa size m (a / levelSize m) := by
  obtain ⟨-, p, hp, he, hisleaf⟩ := (leafOf_eq_some_iff h.toPlaced).1 hleaf
  obtain ⟨hlevel, haligned⟩ := h.tree.leaves l p _ e (h.inTree_iff.2 ⟨_, hp⟩) he hisleaf
  have hin := hins.inside a l e hnone hleaf
  have hdvd : levelSize m ∣ levelSize l := levelSize_dvd hml
  have hpos := levelSize_pos m
  -- the first and the last address of the block
  have hfirst : a / levelSize m * levelSize m / levelSize m = a / levelSize m := Nat.mul_div_cancel _ hpos
  have hfinal : ((a / levelSize m + 1) * levelSize m - 1) / levelSize m = a / levelSize m := by
    rw [mem_block_iff, add_mul, one_mul]
    omega
  obtain ⟨hlow, hlt⟩ := hin _ (block_congr hml hfirst)
  have hhigh := (hin _ (block_congr hml hfinal)).2
  refine ⟨hml.trans (Nat.le_of_lt_succ hlevel), hlow, by omega, ?_⟩
  obtain ⟨l', e', hleaf', haddr, -⟩ := hins.mapped _ hlow hlt
  rw [leafOf_congr h.toPlaced hleaf (block_congr hml hfirst)] at hleaf'
  cases hleaf'
  rw [← haddr]
  refine Nat.mod_eq_zero_of_dvd (dvd_add (hdvd.trans (Nat.dvd_of_mod_eq_zero haligned)) ?_)
  exact (Nat.dvd_mod_iff hdvd).2 (Dvd.intro_left _ rfl)

/-- the tables that a request needs are there once all of it is mapped -/
theorem needs_subset_places (h : t'.Shaped pos) (hins : Inserts t t' vm pa size flags)
    (hfree : ∀ a, vm ≤ a → a < vm + size → t.leafOf a = none) : needs vm pa size ⊆ t'.places := by
  intro x hx
  obtain ⟨hlevel, ⟨a, hlow, hhigh, hblock⟩, hnot⟩ := hx
  obtain ⟨l, e, hleaf, -⟩ := hins.mapped a hlow hhigh
  rw [h.mem_places_iff]
  refine ⟨hlevel, ?_⟩
  have hle : l ≤ x.1 := by
    by_contra hgt
    refine hnot ?_
    rw [← hblock]
    exact admits_of_leaf h hins (hfree a hlow hhigh) hleaf (Nat.lt_of_not_le hgt)
  obtain ⟨-, p, hp, -⟩ := (leafOf_eq_some_iff h.toPlaced).1 hleaf
  rcases hle.lt_or_eq with hlt | rfl
  · obtain ⟨r, -, hr, -⟩ := h.above hp hlt hlevel.le
    rw [hblock] at hr
    exact ⟨r, hr⟩
  · rw [hblock] at hp
    exact ⟨p, hp⟩

theorem places_subset_of_grows {pos' : UInt64 → Option (ℕ × ℕ)} {N : Set (ℕ × ℕ)} (h : t.Shaped pos)
    (hgrows : Grows t' pos pos' fun m j => (m, j) ∈ N) : t.places ⊆ t'.places ∧ t'.places ⊆ t.places ∪ N := by
  refine ⟨fun x hx => ?_, fun x hx => ?_⟩
  · obtain ⟨hlevel, p, hp⟩ := h.mem_places_iff.1 hx
    exact hgrows.shaped.mem_places_iff.2 ⟨hlevel, p, hgrows.keeps p x hp⟩
  · obtain ⟨hlevel, p, hp⟩ := hgrows.shaped.mem_places_iff.1 hx
    rcases hgrows.new p x.1 x.2 hp with hold | hneeded
    · exact Or.inl (h.mem_places_iff.2 ⟨hlevel, p, hold⟩)
    · exact Or.inr hneeded

/-- The tables in use after an insertion into a range without leaves: those before it, and those it needs. -/
theorem places_insert (h : t.Shaped pos)
    (hfree : ∀ a, guest.toNat ≤ a → a < guest.toNat + bytes.toNat → t.leafOf a = none)
    (hok : (t.insert guest phys bytes flags).2 = .ok ()) :
    (t.insert guest phys bytes flags).1.places = t.places ∪ needs guest.toNat phys.toNat bytes.toNat := by
  obtain ⟨pos', hgrows, -⟩ := insert_needs (mappable_of_insert hok) flags h hfree
  obtain ⟨k, -, hall, hins⟩ := insert_inserts ⟨pos, h.toPlaced⟩ guest phys bytes flags
  rw [hall hok] at hins
  obtain ⟨hkeeps, hnew⟩ := places_subset_of_grows h hgrows
  exact Set.Subset.antisymm hnew (Set.union_subset hkeeps (needs_subset_places hgrows.shaped hins hfree))

/-- An insertion into a range without leaves succeeds exactly if the tables it needs are to be had. -/
theorem insert_eq_ok_iff (h : t.Shaped pos)
    (hfree : ∀ a, guest.toNat ≤ a → a < guest.toNat + bytes.toNat → t.leafOf a = none) :
    (t.insert guest phys bytes flags).2 = .ok () ↔ Mappable guest.toNat phys.toNat bytes.toNat ∧
      (t.places ∪ needs guest.toNat phys.toNat bytes.toNat).encard ≤ t.nodes.capacity := by
  obtain ⟨k, -, -, hins⟩ := insert_inserts ⟨pos, h.toPlaced⟩ guest phys bytes flags
  constructor
  · intro hok
    refine ⟨mappable_of_insert hok, ?_⟩
    obtain ⟨pos', hgrows, -⟩ := insert_needs (mappable_of_insert hok) flags h hfree
    rw [← places_insert h hfree hok, hgrows.shaped.encard_places_eq, ← hins.same.capacity]
    exact_mod_cast TableArray.inUse_le hgrows.shaped.nodes
  · intro hx
    obtain ⟨hmap, hroom⟩ := hx
    obtain ⟨pos', hgrows, hok | ⟨hnone, x, hneeded, hmissing⟩⟩ := insert_needs hmap flags h hfree
    · exact hok
    · -- all tables are in use, and yet one that is needed is not there
      exfalso
      have hnotin : x ∉ (t.insert guest phys bytes flags).1.places := by
        intro hin
        obtain ⟨-, q, hq⟩ := hgrows.shaped.mem_places_iff.1 hin
        exact hmissing q hq
      have hsub : Insert.insert x (t.insert guest phys bytes flags).1.places ⊆
          t.places ∪ needs guest.toNat phys.toNat bytes.toNat :=
        Set.insert_subset (Or.inr hneeded) (places_subset_of_grows h hgrows).2
      have hcount := (Set.encard_le_encard hsub).trans hroom
      have hused : (t.insert guest phys bytes flags).1.tablesInUse = t.nodes.capacity := by
        rw [← hins.same.capacity]
        exact TableArray.inUse_of_alloc?_eq_none hgrows.shaped.nodes hnone
      rw [Set.encard_insert_of_notMem hnotin, hgrows.shaped.encard_places_eq, hused] at hcount
      exact absurd hcount (by exact_mod_cast Nat.not_succ_le_self _)

end PageTable
end NestedGuest
