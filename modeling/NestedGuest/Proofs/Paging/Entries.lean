/-
What the tables of a page table hold, beside the picture that a placement gives of them.

An entry is 0, refers to a table, or is a leaf below the level of the root whose target is aligned to its size
(`Admissible`). `Shaped` adds this to `Placed`, and the changes that insertions and removals are made of keep it. Only
with it does an entry that is not 0 lead somewhere: where no table is without entries, there is a leaf below each one
(`Shaped.exists_leaf`).
-/
import NestedGuest.Proofs.Paging.Edits

namespace NestedGuest

/-! ## Entries -/

namespace EntryFormat

/-- an entry that a table at level `l` may hold -/
def Admissible (f : EntryFormat) (l : ℕ) (e : UInt64) : Prop :=
  e = 0 ∨ f.IsTable l e ∨ (f.IsLeaf l e ∧ l < rootLevel ∧ (entryAddress e).toNat % levelSize l = 0)

variable {f : EntryFormat} {l : ℕ} {e : UInt64}

theorem admissible_table (f : EntryFormat) (l : ℕ) (p : UInt64) : f.Admissible (l + 1) (f.table p) :=
  Or.inr (Or.inl ⟨Nat.succ_pos l, present_table f p, large_table f p⟩)

/-- a leaf made for an aligned target -/
theorem admissible_leaf (f : EntryFormat) (flags : PageFlags) (hl : l < rootLevel) {pa : ℕ}
    (hpa : pa % levelSize l = 0) (hend : pa < physAddressEnd) :
    f.IsLeaf l (f.leaf (UInt64.ofNat pa) flags (decide (0 < l))) ∧
      f.Admissible l (f.leaf (UInt64.ofNat pa) flags (decide (0 < l))) := by
  have hleaf := isLeaf_leaf f l (UInt64.ofNat pa) flags
  have hpage : pa % pageSize = 0 :=
    Nat.mod_eq_zero_of_dvd ((pageSize_dvd_levelSize l).trans (Nat.dvd_of_mod_eq_zero hpa))
  refine ⟨hleaf, Or.inr (Or.inr ⟨hleaf, hl, ?_⟩)⟩
  rw [entryAddress_leaf_ofNat f hpage hend]
  exact hpa

theorem ne_zero_of_present (h : f.present e = true) : e ≠ 0 := by
  rintro rfl
  rw [present_zero] at h
  exact absurd h (by decide)

end EntryFormat

namespace PageTable

variable {t t' : PageTable} {pos : UInt64 → Option (ℕ × ℕ)} {p q child : UInt64} {s : Fin entriesPerTable}
  {a l k m n j : ℕ} {e v : UInt64}

/-- some entry of the table at `q` is not 0 -/
def Occupied (t : PageTable) (q : UInt64) : Prop := ∃ x e, t.entry? q x = some e ∧ e ≠ 0

theorem Occupied.congr (h : t.Occupied q) (heq : ∀ x, t'.entry? q x = t.entry? q x) : t'.Occupied q := by
  obtain ⟨x, e, he, hne⟩ := h
  exact ⟨x, e, by rw [heq x, he], hne⟩

theorem occupied_of_refers (h : t.Refers q s p) : t.Occupied q := by
  obtain ⟨e, he, hpresent, -⟩ := h
  exact ⟨s, e, he, EntryFormat.ne_zero_of_present hpresent⟩

/-- a placement, and what the entries of the tables placed are -/
structure Shaped (t : PageTable) (pos : UInt64 → Option (ℕ × ℕ)) : Prop extends Placed t pos where
  admissible : ∀ q l k s e, pos q = some (l, k) → t.entry? q s = some e → t.format.Admissible l e

/-! ## The changes -/

/-- an entry that refers to no table gives way to another one -/
theorem shaped_setEntry (h : t.Shaped pos) (hp : pos p = some (l, k)) (he : t.entry? p s = some e)
    (hold : ¬ t.format.IsTable l e) (hnew : ¬ t.format.IsTable l v) (hv : t.format.Admissible l v) :
    (t.setEntry p s v).Shaped pos := by
  obtain ⟨hplaced, hsame⟩ := placed_setEntry h.toPlaced hp he hold hnew
  refine { hplaced with admissible := ?_ }
  intro q m i x d hq hd
  rw [hsame.format]
  rw [h.entry?_setEntry hp] at hd
  split_ifs at hd with hqx
  · obtain ⟨rfl, rfl⟩ := hqx
    cases hd
    rw [hp] at hq
    cases hq
    exact hv
  · exact h.admissible q m i x d hq hd

theorem Linked.shaped (hl : Linked t t' p s child) (h : t.Shaped pos) (hp : pos p = some (l + 1, k))
    (he : t.entry? p s = some e) (habsent : t.format.present e = false) :
    t'.Shaped fun q => if q = child then some (l, k * entriesPerTable + s) else pos q := by
  refine { hl.placed h.toPlaced hp he habsent with admissible := ?_ }
  intro q m i x d hq hd
  rw [hl.same.format]
  rw [hl.entry?] at hd
  split_ifs at hq hd with hqc hqp
  · cases hd
    exact Or.inl rfl
  · obtain ⟨rfl, rfl⟩ := hqp
    cases hd
    rw [hp] at hq
    cases hq
    exact EntryFormat.admissible_table _ _ _
  · exact h.admissible q m i x d hq hd

theorem Unlinked.shaped (hl : Unlinked t t' p s child) (h : t.Shaped pos) (hp : pos p = some (l + 1, k))
    (hr : t.Refers p s child) : t'.Shaped fun q => if q = child then none else pos q := by
  refine { hl.placed h.toPlaced hp hr with admissible := ?_ }
  intro q m i x d hq hd
  rw [hl.same.format]
  split_ifs at hq with hqc
  rw [hl.entry? q x hqc] at hd
  split_ifs at hd with hqp
  · cases hd
    exact Or.inl rfl
  · exact h.admissible q m i x d hq hd

/-! ## Above and below a table -/

namespace Placed

/-- the table one level up for the same address refers to a table below the root -/
theorem parent_of_place (h : t.Placed pos) (hq : pos q = some (m, a / levelSize (m + 1))) (hm : m < rootLevel) :
    ∃ r, pos r = some (m + 1, a / levelSize (m + 2)) ∧ t.Refers r (slotOf a (m + 1)) q := by
  rcases h.parent q _ _ hq with rfl | ⟨-, r, j, s, hblock, hr, hrefers⟩
  · exact absurd rfl (h.ne_root hq hm)
  · obtain ⟨rfl, rfl⟩ := (block_eq_iff a (m + 1) j s).1 hblock
    exact ⟨r, hr, hrefers⟩

/-- tables for an address of a table lie on every level above it -/
theorem above (h : t.Placed pos) (hq : pos q = some (m, a / levelSize (m + 1))) (hmn : m < n) (hn : n ≤ rootLevel) :
    ∃ r p, pos r = some (n, a / levelSize (n + 1)) ∧ t.Refers r (slotOf a n) p := by
  induction n, hmn using Nat.le_induction with
  | base =>
    obtain ⟨r, hr, hrefers⟩ := h.parent_of_place hq hn
    exact ⟨r, q, hr, hrefers⟩
  | succ n hmn ih =>
    obtain ⟨r, -, hr, -⟩ := ih (Nat.le_of_succ_le hn)
    obtain ⟨u, hu, hrefers⟩ := h.parent_of_place hr hn
    exact ⟨u, r, hu, hrefers⟩

/-- a table translates addresses of the address space only -/
theorem lt_addressSpaceEnd (h : t.Placed pos) (hq : pos q = some (m, a / levelSize (m + 1))) : a < addressSpaceEnd := by
  have hroot : ∃ r, pos r = some (rootLevel, a / levelSize (rootLevel + 1)) := by
    rcases (h.level_le hq).lt_or_eq with hlt | rfl
    · obtain ⟨r, -, hr, -⟩ := h.above hq hlt le_rfl
      exact ⟨r, hr⟩
    · exact ⟨q, hq⟩
  obtain ⟨r, hr⟩ := hroot
  rcases h.parent r _ _ hr with rfl | ⟨hlt, -⟩
  · rw [h.root] at hr
    have hzero : a / levelSize (rootLevel + 1) = 0 := (Prod.mk.inj (Option.some.inj hr)).2.symm
    rw [Nat.div_eq_zero_iff_lt (levelSize_pos _)] at hzero
    exact levelSize_above_root ▸ hzero
  · exact absurd hlt (lt_irrefl _)

/-- no table lies below a slot that refers to none -/
theorem not_below (h : t.Placed pos) (hp : pos p = some (l, k)) (he : t.entry? p s = some e)
    (hnot : ¬ t.format.IsTable l e) (ha : a / levelSize l = k * entriesPerTable + s) (hm : m < l) :
    pos q ≠ some (m, a / levelSize (m + 1)) := by
  intro hq
  obtain ⟨rfl, rfl⟩ := (block_eq_iff a l k s).1 ha
  obtain ⟨r, u, hr, d, hd, hpresent, hlarge, -⟩ := h.above hq hm (h.level_le hp)
  rw [h.inj r p _ hr hp, he] at hd
  cases hd
  exact hnot ⟨Nat.zero_lt_of_lt hm, hpresent, hlarge⟩

end Placed

/-- below a table with an entry there is a leaf or a further table -/
theorem Shaped.descend (h : t.Shaped pos) (hq : pos q = some (m, j)) (hocc : t.Occupied q) :
    (∃ b e, b / levelSize (m + 1) = j ∧ t.leafOf b = some (m, e)) ∨
      ∃ n x r, m = n + 1 ∧ t.Refers q x r ∧ pos r = some (n, j * entriesPerTable + x) := by
  obtain ⟨x, e, he, hne⟩ := hocc
  rcases h.admissible q m j x e hq he with hzero | ⟨hpos, hpresent, hlarge⟩ | ⟨hleaf, -⟩
  · exact absurd hzero hne
  · obtain ⟨n, rfl⟩ := Nat.exists_eq_succ_of_ne_zero (Nat.pos_iff_ne_zero.1 hpos)
    have hrefers : t.Refers q x (entryAddress e) := ⟨e, he, hpresent, hlarge, rfl⟩
    exact Or.inr ⟨n, x, _, rfl, hrefers, h.child q n j x _ hq hrefers⟩
  · -- the first address of the slot
    have hblock : (j * entriesPerTable + x) * levelSize m / levelSize m = j * entriesPerTable + x :=
      Nat.mul_div_cancel _ (levelSize_pos m)
    obtain ⟨hup, hslot⟩ := (block_eq_iff _ m j x).1 hblock
    rw [← hup] at hq
    refine Or.inl ⟨_, e, hup, (leafOf_eq_some_iff h.toPlaced).2 ⟨h.lt_addressSpaceEnd hq, q, hq, ?_, hleaf⟩⟩
    rw [hslot, he]

/-- every table has a leaf below it, if none is without entries -/
theorem Shaped.exists_leaf (h : t.Shaped pos) (hfull : ∀ q m j, pos q = some (m, j) → m < rootLevel → t.Occupied q)
    (hq : pos q = some (m, j)) (hm : m < rootLevel) : ∃ b x, t.leafOf b = some x := by
  induction m generalizing q j with
  | zero =>
    rcases h.descend hq (hfull q 0 j hq hm) with ⟨b, e, -, hleaf⟩ | ⟨n, x, r, hn, -⟩
    · exact ⟨b, _, hleaf⟩
    · exact absurd hn (Nat.succ_ne_zero n).symm
  | succ m ih =>
    rcases h.descend hq (hfull q _ j hq hm) with ⟨b, e, -, hleaf⟩ | ⟨n, x, r, hn, -, hr⟩
    · exact ⟨b, _, hleaf⟩
    · obtain rfl := Nat.succ.inj hn
      exact ih hr (Nat.lt_of_succ_lt hm)

end PageTable
end NestedGuest
