/-
Where the tables of a page table lie in its tree.

A placement gives each table in use its level and the block of addresses that it translates. `Placed` says that this
picture is consistent: no two tables share a place, an entry that refers to a table leads to the place below, and every
table but the root is referred to from the place above. Nothing is said about the order in which tables were handed out.

Main statements:
- `leafOf_eq_leafAt`: a descent from the root may be started at any table on its way;
- `leafOf_eq_some_iff`: an address is translated by a leaf exactly if that leaf is in the slot of the address in the
  table placed for it.
-/
import NestedGuest.Proofs.Paging.Entry
import NestedGuest.Proofs.Paging.Levels
import NestedGuest.Proofs.Paging.TableArray

namespace NestedGuest

namespace EntryFormat

/-- the entry maps a leaf, if it is in a table at level `l` -/
def IsLeaf (f : EntryFormat) (l : ℕ) (e : UInt64) : Prop := f.present e = true ∧ (l = 0 ∨ f.large e = true)

end EntryFormat

namespace PageTable

/-! ## Storage -/

/-- the tables below the root lie right behind it, at addresses that an entry can hold -/
structure Stored (t : PageTable) : Prop where
  nodes : t.nodes.Sound
  base : t.nodes.base.toNat = t.rootPhys.toNat + pageSize
  aligned : t.rootPhys.toNat % pageSize = 0
  fits : t.nodes.base.toNat + t.nodes.capacity * pageSize ≤ physAddressEnd

/-- a change of the contents of tables, not of the format or of the storage -/
structure SameStorage (t t' : PageTable) : Prop where
  format : t'.format = t.format
  rootPhys : t'.rootPhys = t.rootPhys
  base : t'.nodes.base = t.nodes.base
  capacity : t'.nodes.capacity = t.nodes.capacity

theorem SameStorage.refl (t : PageTable) : SameStorage t t := ⟨rfl, rfl, rfl, rfl⟩

theorem SameStorage.trans {t u v : PageTable} (h1 : SameStorage t u) (h2 : SameStorage u v) : SameStorage t v :=
  ⟨h2.format.trans h1.format, h2.rootPhys.trans h1.rootPhys, h2.base.trans h1.base, h2.capacity.trans h1.capacity⟩

/-- `t'` is `t` with `o` as the table at `p` -/
structure Rewrites (t t' : PageTable) (p : UInt64) (o : Option Table) : Prop where
  stored : t'.Stored
  same : SameStorage t t'
  table? : ∀ q, t'.table? q = if q = p then o else t.table? q

variable {t t' : PageTable} {p q : UInt64} {s : Fin entriesPerTable} {tb : Table}

@[simp] theorem setEntry_format (t : PageTable) (p : UInt64) (s : Fin entriesPerTable) (v : UInt64) :
    (t.setEntry p s v).format = t.format := by
  unfold setEntry
  split_ifs <;> rfl

@[simp] theorem setEntry_rootPhys (t : PageTable) (p : UInt64) (s : Fin entriesPerTable) (v : UInt64) :
    (t.setEntry p s v).rootPhys = t.rootPhys := by
  unfold setEntry
  split_ifs <;> rfl

theorem table?_setEntry (t : PageTable) (p q : UInt64) (s : Fin entriesPerTable) (v : UInt64) :
    (t.setEntry p s v).table? q = if q = p then (t.table? p).map fun tb => tb.set s v s.isLt else t.table? q := by
  by_cases hp : p = t.rootPhys
  · simp only [setEntry, hp, table?]
    split_ifs <;> rfl
  · simp only [setEntry, hp, table?, if_false, TableArray.get?_set?]
    split_ifs with hroot hqp
    · exact absurd (hqp ▸ hroot) hp
    all_goals rfl

theorem setEntry_sameStorage (t : PageTable) (p : UInt64) (s : Fin entriesPerTable) (v : UInt64) :
    SameStorage t (t.setEntry p s v) := by
  unfold setEntry
  split_ifs
  · exact ⟨rfl, rfl, rfl, rfl⟩
  · rcases TableArray.set?_cases t.nodes p s v with hsame | ⟨i, tb, -, hput⟩
    · rw [hsame]
      exact ⟨rfl, rfl, rfl, rfl⟩
    · rw [hput]
      exact ⟨rfl, rfl, rfl, rfl⟩

/-- an entry is overwritten if there is a table at `p`, and nothing else changes -/
theorem entry?_overwrite (t : PageTable) (p q : UInt64) (s x : Fin entriesPerTable) (v : UInt64) :
    PageTable.entry? (t.setEntry p s v) q x =
      if q = p ∧ x = s then (t.entry? p s).map fun _ => v else t.entry? q x := by
  unfold PageTable.entry?
  rw [table?_setEntry]
  by_cases hq : q = p
  · subst hq
    cases htb : t.table? q with
    | none => simp
    | some tb => by_cases hx : x = s <;> simp [Table.get_set, hx]
  · simp [hq]

theorem Stored.withNodes (h : t.Stored) {nodes : TableArray} {o : Option Table}
    (hu : t.nodes.Updates nodes p o) : Stored { t with nodes } where
  nodes := hu.sound
  base := by rw [hu.base]; exact h.base
  aligned := h.aligned
  fits := by rw [hu.base, hu.capacity]; exact h.fits

theorem Stored.get?_root (h : t.Stored) : t.nodes.get? t.rootPhys = none := by
  rw [Option.eq_none_iff_forall_ne_some]
  intro tb htb
  obtain ⟨i, -, hp⟩ := TableArray.get?_located h.nodes htb
  have hbase := h.base
  simp only [pageSize] at *
  omega

theorem Stored.rewrites_nodes (h : t.Stored) {nodes : TableArray} {o : Option Table}
    (hu : t.nodes.Updates nodes p o) (hp : p ≠ t.rootPhys) : Rewrites t { t with nodes } p o where
  stored := h.withNodes hu
  same := ⟨rfl, rfl, hu.base, hu.capacity⟩
  table? q := by
    unfold table?
    by_cases hq : q = t.rootPhys
    · simp [hq, hp.symm]
    · simp [hq, hu.get? q]

theorem setEntry_rewrites (h : t.Stored) (hp : t.table? p = some tb) (s : Fin entriesPerTable) (value : UInt64) :
    Rewrites t (t.setEntry p s value) p (some (tb.set s value s.isLt)) := by
  refine ⟨?_, setEntry_sameStorage t p s value, fun q => by rw [table?_setEntry, hp, Option.map_some]⟩
  unfold setEntry
  unfold table? at hp
  split_ifs at hp ⊢ with hroot
  · exact ⟨h.nodes, h.base, h.aligned, h.fits⟩
  · obtain ⟨nodes, hset, hu⟩ := TableArray.set?_updates h.nodes hp s value
    rw [hset, Option.getD_some]
    exact h.withNodes hu

/-- the address of a table survives in an entry -/
theorem entryAddress_of_table (h : t.Stored) (hp : t.table? p = some tb) : entryAddress p = p := by
  have hfits := h.fits
  have hbase := h.base
  have halign := h.aligned
  unfold table? at hp
  split_ifs at hp with hroot
  · subst hroot
    simp only [pageSize, physAddressEnd] at *
    exact entryAddress_of_aligned halign (by simp only [physAddressEnd]; omega)
  · obtain ⟨i, hi, hloc⟩ := TableArray.get?_located h.nodes hp
    have hle : (i + 1) * pageSize ≤ t.nodes.capacity * pageSize := Nat.mul_le_mul_right _ hi
    simp only [pageSize, physAddressEnd] at *
    exact entryAddress_of_aligned (by simp only [pageSize]; omega) (by simp only [physAddressEnd]; omega)

theorem entry?_of_table (hp : t.table? p = some tb) (s : Fin entriesPerTable) : t.entry? p s = some (tb.get s) := by
  unfold entry?
  rw [hp, Option.map_some]

/-! ## Places -/

/-- slot `s` of the table at `q` refers to the table at `p` -/
def Refers (t : PageTable) (q : UInt64) (s : Fin entriesPerTable) (p : UInt64) : Prop :=
  ∃ e, t.entry? q s = some e ∧ t.format.present e = true ∧ t.format.large e = false ∧ entryAddress e = p

/-- `pos` gives the level of each table in use and the block that it translates, counted in blocks of the level above -/
structure Placed (t : PageTable) (pos : UInt64 → Option (ℕ × ℕ)) : Prop extends Stored t where
  known : ∀ p, (pos p).isSome = (t.table? p).isSome
  root : pos t.rootPhys = some (rootLevel, 0)
  inj : ∀ p q x, pos p = some x → pos q = some x → p = q
  child : ∀ q l k s p, pos q = some (l + 1, k) → t.Refers q s p → pos p = some (l, k * entriesPerTable + s)
  parent : ∀ p l k, pos p = some (l, k) → p = t.rootPhys ∨
    l < rootLevel ∧ ∃ q j, ∃ s : Fin entriesPerTable, k = j * entriesPerTable + s ∧ pos q = some (l + 1, j) ∧ t.Refers q s p

/-- the page table can be pictured as a tree -/
def Sound (t : PageTable) : Prop := ∃ pos, t.Placed pos

variable {pos : UInt64 → Option (ℕ × ℕ)} {a l k : ℕ} {e : UInt64}

namespace Placed

theorem table (h : t.Placed pos) {x : ℕ × ℕ} (hp : pos p = some x) : ∃ tb, t.table? p = some tb := by
  have hknown := h.known p
  rw [hp, Option.isSome_some] at hknown
  exact Option.isSome_iff_exists.1 hknown.symm

theorem entry (h : t.Placed pos) {x : ℕ × ℕ} (hp : pos p = some x) (s : Fin entriesPerTable) :
    ∃ e, t.entry? p s = some e := by
  obtain ⟨tb, htb⟩ := h.table hp
  exact ⟨_, entry?_of_table htb s⟩

theorem level_le (h : t.Placed pos) (hp : pos p = some (l, k)) : l ≤ rootLevel := by
  rcases h.parent p l k hp with rfl | ⟨hl, -⟩
  · rw [h.root] at hp
    cases hp
    exact le_rfl
  · exact hl.le

theorem ne_root (h : t.Placed pos) (hp : pos p = some (l, k)) (hl : l < rootLevel) : p ≠ t.rootPhys := by
  intro heq
  subst heq
  rw [h.root] at hp
  cases hp
  exact absurd hl (lt_irrefl _)

/-- a place below another one is taken exactly by the table that the slot refers to -/
theorem refers_of_place (h : t.Placed pos) (hq : pos q = some (l + 1, k))
    (hp : pos p = some (l, k * entriesPerTable + s)) : t.Refers q s p := by
  rcases h.parent p _ _ hp with rfl | ⟨-, q', j, s', hk, hq', hrefers⟩
  · have hl := h.level_le hq
    rw [h.root] at hp
    obtain ⟨rfl, -⟩ := Prod.mk.inj (Option.some.inj hp)
    exact absurd hl (by decide)
  · have hs := s.isLt
    have hs' := s'.isLt
    simp only [entriesPerTable] at *
    have hj : k = j := by omega
    have hss : s = s' := Fin.ext (by omega)
    subst hj hss
    rw [h.inj _ _ _ hq hq']
    exact hrefers

end Placed

/-! ## Descent -/

/-- the leaf that translates `a`: its level and its entry -/
def leafOf (t : PageTable) (a : ℕ) : Option (ℕ × UInt64) :=
  if a < addressSpaceEnd then t.leafAt a rootLevel t.rootPhys else none

theorem lt_addressSpaceEnd_of_leafOf {x : ℕ × UInt64} (h : t.leafOf a = some x) : a < addressSpaceEnd := by
  unfold leafOf at h
  split_ifs at h with ha
  exact ha

theorem leafAt_of_leaf (he : t.entry? p (slotOf a l) = some e) (hleaf : t.format.IsLeaf l e) :
    t.leafAt a l p = some (l, e) := by
  obtain ⟨hpresent, hl⟩ := hleaf
  cases l with
  | zero => simp [leafAt, he, hpresent]
  | succ l =>
    have hlarge : t.format.large e = true := hl.resolve_left (Nat.succ_ne_zero l)
    simp [leafAt, he, hpresent, hlarge]

theorem leafAt_of_absent (he : t.entry? p (slotOf a l) = some e) (habsent : t.format.present e = false) :
    t.leafAt a l p = none := by
  cases l <;> simp [leafAt, he, habsent]

/-- a descent ends where there is no table -/
theorem leafAt_of_none (he : t.entry? p (slotOf a l) = none) : t.leafAt a l p = none := by
  cases l <;> simp [PageTable.leafAt, he]

theorem leafAt_of_refers (h : t.Refers q (slotOf a (l + 1)) p) : t.leafAt a (l + 1) q = t.leafAt a l p := by
  obtain ⟨e, he, hpresent, hlarge, rfl⟩ := h
  simp [leafAt, he, hpresent, hlarge]

/-- a descent from the root may be started at any table on its way -/
theorem leafOf_eq_leafAt (h : t.Placed pos) (ha : a < addressSpaceEnd) (hp : pos p = some (l, a / levelSize (l + 1))) :
    t.leafOf a = t.leafAt a l p := by
  obtain ⟨d, hd⟩ := Nat.exists_eq_add_of_le (h.level_le hp)
  induction d generalizing l p with
  | zero =>
    obtain rfl : rootLevel = l := hd
    rw [block_root ha] at hp
    rw [leafOf, if_pos ha, h.inj p _ _ hp h.root]
  | succ d ih =>
    rcases h.parent p _ _ hp with rfl | ⟨-, q, j, s, hblock, hq, hrefers⟩
    · rw [h.root] at hp
      obtain ⟨rfl, -⟩ := Prod.mk.inj (Option.some.inj hp)
      omega
    · obtain ⟨rfl, rfl⟩ := (block_eq_iff a (l + 1) j s).1 hblock
      rw [ih hq (by omega), leafAt_of_refers hrefers]

/-- a descent that ends at a leaf ends in the table placed for the address -/
theorem exists_place_of_leafAt (h : t.Placed pos) {m : ℕ} (hp : pos p = some (m, a / levelSize (m + 1)))
    (hleaf : t.leafAt a m p = some (l, e)) :
    ∃ q, pos q = some (l, a / levelSize (l + 1)) ∧ t.entry? q (slotOf a l) = some e ∧ t.format.IsLeaf l e := by
  induction m generalizing p with
  | zero =>
    obtain ⟨x, hx⟩ := h.entry hp (slotOf a 0)
    rw [leafAt, hx] at hleaf
    simp only [Option.ite_none_right_eq_some, Option.some.injEq, Prod.mk.injEq] at hleaf
    obtain ⟨hpresent, rfl, rfl⟩ := hleaf
    exact ⟨p, hp, hx, hpresent, Or.inl rfl⟩
  | succ m ih =>
    obtain ⟨x, hx⟩ := h.entry hp (slotOf a (m + 1))
    rw [leafAt, hx] at hleaf
    simp only [Option.ite_none_right_eq_some] at hleaf
    obtain ⟨hpresent, hleaf⟩ := hleaf
    split_ifs at hleaf with hlarge
    · cases hleaf
      exact ⟨p, hp, hx, hpresent, Or.inr hlarge⟩
    · have hplace := h.child p m _ (slotOf a (m + 1)) _ hp ⟨x, hx, hpresent, by simpa using hlarge, rfl⟩
      rw [← block_of_slot] at hplace
      exact ih hplace hleaf

/-- an address is translated by the leaf in its slot of the table placed for it -/
theorem leafOf_eq_some_iff (h : t.Placed pos) :
    t.leafOf a = some (l, e) ↔ a < addressSpaceEnd ∧
      ∃ p, pos p = some (l, a / levelSize (l + 1)) ∧ t.entry? p (slotOf a l) = some e ∧ t.format.IsLeaf l e := by
  constructor
  · intro hleaf
    have ha : a < addressSpaceEnd := by
      by_contra hn
      simp [leafOf, hn] at hleaf
    rw [leafOf, if_pos ha] at hleaf
    have hroot := h.root
    rw [← block_root ha] at hroot
    exact ⟨ha, exists_place_of_leafAt h hroot hleaf⟩
  · intro hx
    rcases hx with ⟨ha, p, hp, he, hleaf⟩
    rw [leafOf_eq_leafAt h ha hp, leafAt_of_leaf he hleaf]

/-- a leaf translates all addresses of its block -/
theorem leafOf_congr (h : t.Placed pos) {b : ℕ} (hleaf : t.leafOf a = some (l, e))
    (hb : b / levelSize l = a / levelSize l) : t.leafOf b = some (l, e) := by
  obtain ⟨ha, p, hp, he, hl⟩ := (leafOf_eq_some_iff h).1 hleaf
  have hab := lt_addressSpaceEnd_of_block (h.level_le hp) hb.symm ha
  have hup : b / levelSize (l + 1) = a / levelSize (l + 1) := block_congr (Nat.le_succ l) hb
  exact (leafOf_eq_some_iff h).2 ⟨hab, p, by rw [hup]; exact hp, by rw [slotOf_congr hb]; exact he, hl⟩

end PageTable
end NestedGuest
