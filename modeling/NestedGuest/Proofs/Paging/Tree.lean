/-
The tables in use are a tree, in every page table that insertions and removals lead to.

A table is in the tree if the root leads to it by entries that refer to tables (`InTree`), which says nothing of the
array that the tables are kept in. A placement knows the tables of the tree and their levels (`Placed.inTree_iff`), and
the array knows them by the numbers that it marks as used (`TableArray.encard_tables`).

- `tables_form_tree`: the tables marked as used are those of the tree, each with one reference to it; clearing the whole
  address space leaves none of them, and unless tables ran out none is ever without entries.
-/
import Mathlib.Data.Set.Card
import NestedGuest.Proofs.Bitmap.Members
import NestedGuest.Proofs.Paging.Tables

namespace NestedGuest

/-! ## Counting -/

/-- as many tables are named as numbers are marked -/
theorem TableArray.encard_tables {a : TableArray} (h : a.Sound) :
    {p | ∃ tb, a.get? p = some tb}.encard = a.inUse := by
  have himage : {p | ∃ tb, a.get? p = some tb} = a.address '' {i | a.used.contains i = true} := by
    ext p
    constructor
    · intro hp
      obtain ⟨tb, htb⟩ := hp
      obtain ⟨i, hi, rfl, -⟩ := (get?_eq_some_iff h).1 htb
      exact ⟨i, hi, rfl⟩
    · intro hp
      obtain ⟨i, hi, rfl⟩ := hp
      obtain ⟨tb, htb⟩ := h.made i hi
      exact ⟨tb, (get?_eq_some_iff h).2 ⟨i, hi, rfl, htb⟩⟩
  have hinj : Set.InjOn a.address {i | a.used.contains i = true} :=
    fun i hi j hj he => address_inj h (h.below i hi) (h.below j hj) he
  have hmembers : {i | a.used.contains i = true} = (a.used.members : Set ℕ) := by
    ext i
    exact Bitmap.mem_members.symm
  calc {p | ∃ tb, a.get? p = some tb}.encard = {i | a.used.contains i = true}.encard := by
        rw [himage, hinj.encard_image]
    _ = a.used.members.card := by rw [hmembers, Set.encard_coe_eq_coe_finsetCard]
    _ = a.inUse := by rw [TableArray.inUse, Bitmap.count_eq]

namespace PageTable

/-! ## The tree -/

/-- the table at `p` is at level `l` of the tree of tables that begins at the root -/
inductive InTree (t : PageTable) : ℕ → UInt64 → Prop
  | root : InTree t rootLevel t.rootPhys
  | child {l : ℕ} {q : UInt64} {s : Fin entriesPerTable} {p : UInt64} (hq : InTree t (l + 1) q)
      (hr : t.Refers q s p) : InTree t l p

/-- slot `s` of the table at `q`, which is in the tree above the last level, refers to the table at `p` -/
def Leads (t : PageTable) (q : UInt64) (s : Fin entriesPerTable) (p : UInt64) : Prop :=
  ∃ l, t.InTree (l + 1) q ∧ t.Refers q s p

/-- The tables of `t` are a tree, in storage for `capacity` tables behind the root at `base`. -/
structure Tree (t : PageTable) (base : UInt64) (capacity : ℕ) : Prop where
  used : ∀ i, t.nodes.used.contains i = true ↔
    ∃ q s p, t.Leads q s p ∧ p.toNat = base.toNat + (i + 1) * pageSize
  once : ∀ q s q' s' p, t.Leads q s p → t.Leads q' s' p → q = q' ∧ s = s'
  pages : ∀ q s p, t.Leads q s p → p ≠ t.rootPhys ∧ p.toNat % pageSize = 0 ∧
    base.toNat + pageSize ≤ p.toNat ∧ p.toNat < base.toNat + (capacity + 1) * pageSize
  last : ∀ q s p, t.InTree 0 q → ¬ t.Leads q s p
  leaves : ∀ l q s e, t.InTree l q → t.entry? q s = some e → t.format.IsLeaf l e →
    l < rootLevel ∧ (entryAddress e).toNat % levelSize l = 0

variable {t t' : PageTable} {pos : UInt64 → Option (ℕ × ℕ)} {p q : UInt64} {s : Fin entriesPerTable} {a l k : ℕ}
  {format : EntryFormat} {base : UInt64} {capacity : ℕ}

namespace Placed

/-- the tables of the tree are those placed, at their levels -/
theorem inTree_iff (h : t.Placed pos) : t.InTree l p ↔ ∃ k, pos p = some (l, k) := by
  constructor
  · intro hp
    induction hp with
    | root => exact ⟨0, h.root⟩
    | @child l q s p _ hr ih =>
      obtain ⟨k, hq⟩ := ih
      exact ⟨_, h.child q l k s p hq hr⟩
  · intro hx
    obtain ⟨k, hp⟩ := hx
    obtain ⟨d, hd⟩ := Nat.exists_eq_add_of_le (h.level_le hp)
    induction d generalizing l p k with
    | zero =>
      obtain rfl : rootLevel = l := hd
      rcases h.parent p _ _ hp with rfl | ⟨hlt, -⟩
      · exact .root
      · exact absurd hlt (lt_irrefl _)
    | succ d ih =>
      rcases h.parent p _ _ hp with rfl | ⟨-, q, j, s, -, hq, hr⟩
      · rw [h.root] at hp
        cases hp
        omega
      · exact .child (ih j hq (by omega)) hr

theorem leads_iff (h : t.Placed pos) : t.Leads q s p ↔ (∃ l k, pos q = some (l + 1, k)) ∧ t.Refers q s p := by
  simp only [Leads, h.inTree_iff, exists_and_right]

/-- a table below the root is one of the array -/
theorem get?_iff (h : t.Placed pos) : (∃ tb, t.nodes.get? p = some tb) ↔ ∃ l k, pos p = some (l, k) ∧ l < rootLevel := by
  constructor
  · intro hx
    obtain ⟨tb, htb⟩ := hx
    have hroot : p ≠ t.rootPhys := by
      rintro rfl
      rw [h.get?_root] at htb
      cases htb
    have hknown := h.known p
    rw [table?, if_neg hroot, htb, Option.isSome_some] at hknown
    obtain ⟨⟨l, k⟩, hp⟩ := Option.isSome_iff_exists.1 hknown
    exact ⟨l, k, hp, ((h.parent p l k hp).resolve_left hroot).1⟩
  · intro hx
    obtain ⟨l, k, hp, hl⟩ := hx
    obtain ⟨tb, htb⟩ := h.table hp
    rw [table?, if_neg (h.ne_root hp hl)] at htb
    exact ⟨tb, htb⟩

/-- references lead to the tables of the array -/
theorem exists_leads_iff (h : t.Placed pos) : (∃ q s, t.Leads q s p) ↔ ∃ tb, t.nodes.get? p = some tb := by
  rw [h.get?_iff]
  constructor
  · intro hx
    obtain ⟨q, s, hleads⟩ := hx
    obtain ⟨⟨l, k, hq⟩, hr⟩ := h.leads_iff.1 hleads
    exact ⟨l, _, h.child q l k s p hq hr, h.level_le hq⟩
  · intro hx
    obtain ⟨l, k, hp, hl⟩ := hx
    obtain ⟨-, q, j, s, -, hq, hr⟩ := (h.parent p l k hp).resolve_left (h.ne_root hp hl)
    exact ⟨q, s, h.leads_iff.2 ⟨⟨l, j, hq⟩, hr⟩⟩

/-- the root is one page below the first table of the array -/
theorem address_eq (h : t.Placed pos) {i : ℕ} (hi : t.nodes.used.contains i = true) :
    (t.nodes.address i).toNat = t.rootPhys.toNat + (i + 1) * pageSize := by
  rw [TableArray.address_toNat h.nodes (h.nodes.below i hi), h.base, add_mul, one_mul]
  omega

theorem exists_leads_of_used (h : t.Placed pos) {i : ℕ} (hi : t.nodes.used.contains i = true) :
    ∃ q s, t.Leads q s (t.nodes.address i) := by
  obtain ⟨tb, htb⟩ := h.nodes.made i hi
  exact h.exists_leads_iff.2 ⟨tb, (TableArray.get?_eq_some_iff h.nodes).2 ⟨i, hi, rfl, htb⟩⟩

theorem used_of_leads (h : t.Placed pos) (hleads : t.Leads q s p) {i : ℕ}
    (hp : p.toNat = t.rootPhys.toNat + (i + 1) * pageSize) : t.nodes.used.contains i = true := by
  obtain ⟨tb, htb⟩ := h.exists_leads_iff.1 ⟨q, s, hleads⟩
  obtain ⟨j, hj, rfl, -⟩ := (TableArray.get?_eq_some_iff h.nodes).1 htb
  rw [h.address_eq hj] at hp
  obtain rfl : j = i := by
    simp only [pageSize] at hp
    omega
  exact hj

/-- no table is referred to twice -/
theorem leads_unique (h : t.Placed pos) {q' : UInt64} {s' : Fin entriesPerTable} (hleads : t.Leads q s p)
    (hleads' : t.Leads q' s' p) : q = q' ∧ s = s' := by
  obtain ⟨⟨l, k, hq⟩, hr⟩ := h.leads_iff.1 hleads
  obtain ⟨⟨l', k', hq'⟩, hr'⟩ := h.leads_iff.1 hleads'
  have hp := h.child q l k s p hq hr
  have hp' := h.child q' l' k' s' p hq' hr'
  rw [hp] at hp'
  obtain ⟨rfl, hblock⟩ := Prod.mk.inj (Option.some.inj hp')
  have hs := s.isLt
  have hs' := s'.isLt
  simp only [entriesPerTable] at hblock hs hs'
  obtain rfl : k = k' := by omega
  exact ⟨h.inj q q' _ hq hq', Fin.ext (by omega)⟩

/-- as many tables are in use as places below the root are taken -/
theorem encard_places (h : t.Placed pos) : {x : ℕ × ℕ | x.1 < rootLevel ∧ ∃ p, pos p = some x}.encard = t.tablesInUse := by
  have himage : some '' {x : ℕ × ℕ | x.1 < rootLevel ∧ ∃ p, pos p = some x} =
      pos '' {p | ∃ tb, t.nodes.get? p = some tb} := by
    ext o
    simp only [Set.mem_image, Set.mem_ofPred_eq, h.get?_iff]
    constructor
    · intro ho
      obtain ⟨⟨l, k⟩, ⟨hl, p, hp⟩, rfl⟩ := ho
      exact ⟨p, ⟨l, k, hp, hl⟩, hp⟩
    · intro ho
      obtain ⟨p, ⟨l, k, hp, hl⟩, rfl⟩ := ho
      exact ⟨(l, k), ⟨hl, p, hp⟩, hp.symm⟩
  have hinj : Set.InjOn pos {p | ∃ tb, t.nodes.get? p = some tb} := by
    intro p hp q _ he
    obtain ⟨l, k, hl, -⟩ := h.get?_iff.1 hp
    exact h.inj p q (l, k) hl (he ▸ hl)
  rw [← (Option.some_injective _).encard_image, himage, hinj.encard_image, TableArray.encard_tables h.nodes]
  rfl

/-- as many tables are in use as the tree has below the root -/
theorem encard_inTree (h : t.Placed pos) : {p | p ≠ t.rootPhys ∧ ∃ l, t.InTree l p}.encard = t.tablesInUse := by
  have hset : {p | p ≠ t.rootPhys ∧ ∃ l, t.InTree l p} = {p | ∃ tb, t.nodes.get? p = some tb} := by
    ext p
    simp only [Set.mem_ofPred_eq, h.get?_iff, h.inTree_iff]
    constructor
    · intro hx
      obtain ⟨hroot, l, k, hp⟩ := hx
      exact ⟨l, k, hp, ((h.parent p l k hp).resolve_left hroot).1⟩
    · intro hx
      obtain ⟨l, k, hp, hl⟩ := hx
      exact ⟨h.ne_root hp hl, l, k, hp⟩
  rw [hset, TableArray.encard_tables h.nodes]
  rfl

end Placed

namespace Shaped

theorem tree (h : t.Shaped pos) : t.Tree t.rootPhys t.nodes.capacity where
  used i := by
    constructor
    · intro hi
      obtain ⟨q, s, hleads⟩ := h.exists_leads_of_used hi
      exact ⟨q, s, _, hleads, h.address_eq hi⟩
    · intro hx
      obtain ⟨q, s, p, hleads, hp⟩ := hx
      exact h.used_of_leads hleads hp
  once q s q' s' p hleads hleads' := h.leads_unique hleads hleads'
  pages q s p hleads := by
    obtain ⟨tb, htb⟩ := h.exists_leads_iff.1 ⟨q, s, hleads⟩
    obtain ⟨l, k, hp, hl⟩ := h.get?_iff.1 ⟨tb, htb⟩
    obtain ⟨i, hi, hloc⟩ := TableArray.get?_located h.nodes htb
    have hbase := h.base
    have halign := h.aligned
    simp only [pageSize] at *
    exact ⟨h.ne_root hp hl, by omega, by omega, by omega⟩
  last q s p hq hleads := by
    obtain ⟨⟨l, k, hq'⟩, -⟩ := h.leads_iff.1 hleads
    obtain ⟨j, hj⟩ := h.inTree_iff.1 hq
    rw [hj] at hq'
    cases hq'
  leaves l q s e hq he hleaf := by
    obtain ⟨k, hk⟩ := h.inTree_iff.1 hq
    rcases h.admissible q l k s e hk he with rfl | htable | hx
    · exact absurd hleaf (EntryFormat.not_isLeaf_of_absent (EntryFormat.present_zero _))
    · exact absurd htable (EntryFormat.not_isTable_of_isLeaf hleaf)
    · exact hx.2

/-- without leaves no table is left, if none is without entries -/
theorem tablesInUse_eq_zero (h : t.Shaped pos) (hfull : t.Full pos) (hnone : ∀ a, t.leafOf a = none) :
    t.tablesInUse = 0 := by
  have hempty : {x : ℕ × ℕ | x.1 < rootLevel ∧ ∃ p, pos p = some x} = ∅ := by
    refine Set.eq_empty_of_forall_notMem ?_
    intro x hx
    obtain ⟨hm, q, hq⟩ := hx
    obtain ⟨b, y, hb⟩ := h.exists_leaf hfull hq hm
    rw [hnone b] at hb
    cases hb
  have hcount := h.encard_places
  rw [hempty, Set.encard_empty] at hcount
  exact_mod_cast hcount.symm

/-- leaves are in tables below the root -/
theorem tablesInUse_ne_zero (h : t.Shaped pos) {x : ℕ × UInt64} (ha : t.leafOf a = some x) : t.tablesInUse ≠ 0 := by
  obtain ⟨-, p, hp, he, hleaf⟩ := (leafOf_eq_some_iff h.toPlaced).1 ha
  have hl := (h.tree.leaves _ p _ _ (h.inTree_iff.2 ⟨_, hp⟩) he hleaf).1
  intro hzero
  have hcount := h.encard_places
  rw [hzero, Nat.cast_zero, Set.encard_eq_zero] at hcount
  have hmem : (x.1, a / levelSize (x.1 + 1)) ∈ {x : ℕ × ℕ | x.1 < rootLevel ∧ ∃ p, pos p = some x} := ⟨hl, p, hp⟩
  rw [hcount] at hmem
  exact hmem

end Shaped

/-! ## Reachable page tables -/

/-- the page tables that insertions and removals lead to, if no insertion runs out of tables -/
inductive Unexhausted (format : EntryFormat) (base : UInt64) (capacity : ℕ) : PageTable → Prop
  | new : Unexhausted format base capacity (withCapacity format base capacity)
  | insert {t : PageTable} (vm phys size : UInt64) (flags : PageFlags) (h : Unexhausted format base capacity t)
      (hok : (t.insert vm phys size flags).2 ≠ .error .outOfTables) :
      Unexhausted format base capacity (t.insert vm phys size flags).1
  | remove {t : PageTable} (vm size : UInt64) (h : Unexhausted format base capacity t) :
      Unexhausted format base capacity (t.remove vm size)

/-- at first the root is the only table, and it has no entries -/
theorem shaped_withCapacity (hs : StorageFits base capacity) :
    ∃ pos, (withCapacity format base capacity).Shaped pos ∧ (withCapacity format base capacity).Full pos := by
  have hsound : (withCapacity format base capacity).Sound := sound_withCapacity hs
  obtain ⟨pos, h⟩ := hsound
  have hnone : ∀ p, (withCapacity format base capacity).nodes.get? p = none := TableArray.get?_new _ _
  refine ⟨pos, { h with admissible := ?_ }, ?_⟩
  · intro q l k s e _ he
    unfold entry? table? at he
    split_ifs at he
    · rw [Option.map_some, Option.some.injEq] at he
      exact Or.inl (he ▸ Table.get_zeroed s)
    · rw [hnone] at he
      cases he
  · intro q m j hq hm
    obtain ⟨tb, htb⟩ := h.get?_iff.2 ⟨m, j, hq, hm⟩
    rw [hnone] at htb
    cases htb

theorem Reachable.shaped (hs : StorageFits base capacity) (h : Reachable format base capacity t) :
    (∃ pos, t.Shaped pos) ∧ SameStorage (withCapacity format base capacity) t := by
  induction h with
  | new =>
    obtain ⟨pos, h, -⟩ := shaped_withCapacity hs
    exact ⟨⟨pos, h⟩, SameStorage.refl _⟩
  | insert vm phys size flags h ih =>
    obtain ⟨⟨pos, hshaped⟩, hsame⟩ := ih
    obtain ⟨pos', hgrows, -⟩ := insert_grows hshaped vm phys size flags
    obtain ⟨k, -, -, hins⟩ := insert_inserts (h.sound hs) vm phys size flags
    exact ⟨⟨pos', hgrows.shaped⟩, hsame.trans hins.same⟩
  | remove vm size h ih =>
    obtain ⟨⟨pos, hshaped⟩, hsame⟩ := ih
    obtain ⟨pos', hprunes⟩ := remove_prunes hshaped vm size
    exact ⟨⟨pos', hprunes.shaped⟩, hsame.trans (remove_removes (h.sound hs) vm size).2.same⟩

theorem Unexhausted.full (hs : StorageFits base capacity) (h : Unexhausted format base capacity t) :
    ∃ pos, t.Shaped pos ∧ t.Full pos := by
  induction h with
  | new => exact shaped_withCapacity hs
  | insert vm phys size flags _ hok ih =>
    obtain ⟨pos, hshaped, hfull⟩ := ih
    obtain ⟨pos', hgrows, hfull'⟩ := insert_grows hshaped vm phys size flags
    exact ⟨pos', hgrows.shaped, hfull' hfull hok⟩
  | remove vm size _ ih =>
    obtain ⟨pos, hshaped, hfull⟩ := ih
    obtain ⟨pos', hprunes⟩ := remove_prunes hshaped vm size
    exact ⟨pos', hprunes.shaped, hprunes.keeps_full hfull⟩

/-- every table translates addresses of the address space, so clearing all of it takes every table back -/
theorem Shaped.tablesInUse_remove (h : t.Shaped pos) :
    (t.remove 0 (UInt64.ofNat addressSpaceEnd)).tablesInUse = 0 := by
  have hstop : min ((0 : UInt64).toNat + (UInt64.ofNat addressSpaceEnd).toNat) addressSpaceEnd = addressSpaceEnd := by
    decide
  obtain ⟨pos', hprunes⟩ := remove_prunes h 0 (UInt64.ofNat addressSpaceEnd)
  have hremoves := (remove_removes ⟨pos, h.toPlaced⟩ 0 (UInt64.ofNat addressSpaceEnd)).2
  rw [hstop] at hprunes hremoves
  refine hprunes.shaped.tablesInUse_eq_zero (fun q m j hq hm => ?_) fun a => ?_
  · have hfirst : j * levelSize (m + 1) / levelSize (m + 1) = j := Nat.mul_div_cancel j (levelSize_pos (m + 1))
    have hq' := hq
    rw [← hfirst] at hq'
    exact hprunes.full q m j hq hm ⟨_, Nat.zero_le _, hprunes.shaped.lt_addressSpaceEnd hq', hfirst⟩
  · rw [hremoves.leafOf, Option.filter_eq_none_iff]
    intro x hx
    have hmeets : meets x.1 a (0 : UInt64).toNat addressSpaceEnd = true :=
      meets_self (Nat.zero_le a) (lt_addressSpaceEnd_of_leafOf hx)
    rw [hmeets]
    decide

/-- no address at all has a leaf if no word does -/
theorem leafOf_eq_none_of_lookup (h : ∀ a, t.lookup a = none) (a : ℕ) : t.leafOf a = none := by
  by_contra hsome
  obtain ⟨x, hx⟩ := Option.ne_none_iff_exists'.1 hsome
  have hlt := lt_addressSpaceEnd_of_leafOf hx
  have hword : (UInt64.ofNat a).toNat = a := by
    rw [UInt64.toNat_ofNat']
    simp only [addressSpaceEnd] at hlt
    omega
  have hlookup := lookup_eq_none_iff.1 (h (UInt64.ofNat a))
  rw [hword, hx] at hlookup
  cases hlookup

/-! ## Main result -/

/-- **The tables are a tree.** The tables marked as used are exactly those of the tree below the root, so that clearing
the whole address space takes all of them back. If no insertion ran out of tables, none of them is without entries, and
there are none exactly if no address translates. -/
theorem tables_form_tree (hs : StorageFits base capacity) (h : Reachable format base capacity t) :
    t.Tree base capacity ∧ {p | p ≠ t.rootPhys ∧ ∃ l, t.InTree l p}.encard = t.tablesInUse ∧
      (t.remove 0 (UInt64.ofNat addressSpaceEnd)).tablesInUse = 0 ∧
      (Unexhausted format base capacity t →
        (∀ p tb, t.nodes.get? p = some tb → ∃ x, tb.get x ≠ 0) ∧
        (t.tablesInUse = 0 ↔ ∀ a, t.lookup a = none)) := by
  obtain ⟨⟨pos, hshaped⟩, hsame⟩ := h.shaped hs
  have htree := hshaped.tree
  rw [hsame.rootPhys, hsame.capacity] at htree
  refine ⟨htree, hshaped.encard_inTree, hshaped.tablesInUse_remove, fun hun => ?_⟩
  obtain ⟨pos', hshaped', hfull⟩ := hun.full hs
  refine ⟨fun p tb htb => ?_, ?_, ?_⟩
  · obtain ⟨m, j, hp, hm⟩ := hshaped'.get?_iff.1 ⟨tb, htb⟩
    obtain ⟨x, e, he, hne⟩ := hfull p m j hp hm
    have htable : t.table? p = some tb := by rw [table?, if_neg (hshaped'.ne_root hp hm), htb]
    rw [entry?_of_table htable, Option.some.injEq] at he
    exact ⟨x, he ▸ hne⟩
  · intro hzero a
    rw [lookup_eq_none_iff]
    by_contra hsome
    obtain ⟨x, hx⟩ := Option.ne_none_iff_exists'.1 hsome
    exact hshaped.tablesInUse_ne_zero hx hzero
  · intro hnone
    exact hshaped'.tablesInUse_eq_zero hfull (leafOf_eq_none_of_lookup hnone)

/-- two tables in use, which a removal of everything takes back -/
theorem tables_form_tree_twoTables :
    StorageFits 0x1000000 2 ∧ Reachable .hpt 0x1000000 2 twoTables ∧ Unexhausted .hpt 0x1000000 2 twoTables ∧
    twoTables.tablesInUse = 2 ∧ (twoTables.remove 0 (UInt64.ofNat addressSpaceEnd)).tablesInUse = 0 ∧
    ¬ ∀ a, twoTables.lookup a = none := by
  have hfits : StorageFits 0x1000000 2 := by decide
  have hun : Unexhausted .hpt 0x1000000 2 twoTables :=
    .insert 0 0x40000000 0x200000 .guestRam .new (by decide +kernel)
  have htwo : twoTables.tablesInUse = 2 := by decide +kernel
  obtain ⟨-, -, hremove, hused⟩ := tables_form_tree hfits reachable_twoTables
  refine ⟨hfits, reachable_twoTables, hun, htwo, hremove, fun hnone => ?_⟩
  have hzero := (hused hun).2.2 hnone
  rw [htwo] at hzero
  exact absurd hzero (by decide)

end PageTable
end NestedGuest
