/-
The four changes that insertion and removal are made of, and what each does to the translations.

- An entry that refers to no table is overwritten by another such entry: leaves are put and cleared that way. Only the
  block of that slot is affected.
- An absent entry is made to refer to a table just handed out, or a table without entries is taken back: no translation
  changes, and the placement gains or loses one table.
-/
import NestedGuest.Proofs.Paging.Placement

namespace NestedGuest

namespace EntryFormat

/-- the entry refers to a table, if it is in a table at level `l` -/
def IsTable (f : EntryFormat) (l : ℕ) (e : UInt64) : Prop := 0 < l ∧ f.present e = true ∧ f.large e = false

/-- a leaf is made for the level of its table -/
theorem isLeaf_leaf (f : EntryFormat) (l : ℕ) (p : UInt64) (flags : PageFlags) :
    f.IsLeaf l (f.leaf p flags (decide (0 < l))) := by
  refine ⟨present_leaf _ _ _ _, ?_⟩
  rw [large_leaf, decide_eq_true_eq]
  omega

theorem not_isTable_of_isLeaf {f : EntryFormat} {l : ℕ} {e : UInt64} (h : f.IsLeaf l e) : ¬ f.IsTable l e := by
  intro hx
  rcases hx with ⟨hpos, -, hlarge⟩
  rcases h.2 with rfl | htrue
  · exact absurd hpos (lt_irrefl 0)
  · rw [hlarge] at htrue
    exact absurd htrue (by decide)

theorem not_isTable_of_absent {f : EntryFormat} {l : ℕ} {e : UInt64} (h : f.present e = false) : ¬ f.IsTable l e := by
  intro hx
  rcases hx with ⟨-, hpresent, -⟩
  rw [h] at hpresent
  exact absurd hpresent (by decide)

theorem not_isLeaf_of_absent {f : EntryFormat} {l : ℕ} {e : UInt64} (h : f.present e = false) : ¬ f.IsLeaf l e := by
  intro hx
  rcases hx with ⟨hpresent, -⟩
  rw [h] at hpresent
  exact absurd hpresent (by decide)

end EntryFormat

namespace PageTable

variable {t t' : PageTable} {pos : UInt64 → Option (ℕ × ℕ)} {p : UInt64} {s : Fin entriesPerTable}
  {a l k : ℕ} {e v : UInt64}

/-! ## Entries after a change -/

theorem Rewrites.entry_ne {o : Option Table} (h : Rewrites t t' p o) {q : UInt64} (hq : q ≠ p) (x : Fin entriesPerTable) :
    t'.entry? q x = t.entry? q x := by
  unfold entry?
  rw [h.table? q, if_neg hq]

theorem Rewrites.entry_self {o : Option Table} (h : Rewrites t t' p o) (x : Fin entriesPerTable) :
    t'.entry? p x = o.map fun tb => tb.get x := by
  unfold entry?
  rw [h.table? p, if_pos rfl]

theorem entry?_setEntry {tb : Table} (htb : t.table? p = some tb) (s : Fin entriesPerTable) (v : UInt64) (q : UInt64)
    (x : Fin entriesPerTable) :
    PageTable.entry? (t.setEntry p s v) q x = if q = p ∧ x = s then some v else t.entry? q x := by
  rw [entry?_overwrite, entry?_of_table htb, Option.map_some]

theorem Placed.entry?_setEntry (h : t.Placed pos) (hp : pos p = some (l, k)) (s : Fin entriesPerTable) (v : UInt64)
    (q : UInt64) (x : Fin entriesPerTable) :
    PageTable.entry? (t.setEntry p s v) q x = if q = p ∧ x = s then some v else t.entry? q x := by
  obtain ⟨tb, htb⟩ := h.table hp
  exact PageTable.entry?_setEntry htb s v q x

theorem Placed.isSome_table?_setEntry (h : t.Placed pos) (hp : pos p = some (l, k)) (s : Fin entriesPerTable)
    (v : UInt64) (q : UInt64) : ((t.setEntry p s v).table? q).isSome = (t.table? q).isSome := by
  obtain ⟨tb, htb⟩ := h.table hp
  rw [(setEntry_rewrites h.toStored htb s v).table? q]
  split_ifs with hq
  · simp [hq, htb]
  · rfl

/-! ## Overwriting an entry that refers to no table -/

/-- an entry that refers to no table gives way to another one -/
theorem placed_setEntry (h : t.Placed pos) (hp : pos p = some (l, k)) (he : t.entry? p s = some e)
    (hold : ¬ t.format.IsTable l e) (hnew : ¬ t.format.IsTable l v) :
    (t.setEntry p s v).Placed pos ∧ SameStorage t (t.setEntry p s v) := by
  obtain ⟨tb, htb⟩ := h.table hp
  have hw := setEntry_rewrites h.toStored htb s v
  refine ⟨{ hw.stored with known := ?_, root := ?_, inj := h.inj, child := ?_, parent := ?_ }, hw.same⟩
  · intro q
    rw [h.isSome_table?_setEntry hp, h.known q]
  · rw [hw.same.rootPhys]
    exact h.root
  · intro q m j x r hq hx
    rcases hx with ⟨y, hy, hpresent, hlarge, hr⟩
    rw [h.entry?_setEntry hp] at hy
    rw [hw.same.format] at hpresent hlarge
    split_ifs at hy with hqx
    · obtain ⟨rfl, rfl⟩ := hqx
      cases hy
      rw [hp] at hq
      cases hq
      exact absurd ⟨Nat.succ_pos m, hpresent, hlarge⟩ hnew
    · exact h.child q m j x r hq ⟨y, hy, hpresent, hlarge, hr⟩
  · intro q m j hq
    rw [hw.same.rootPhys]
    refine (h.parent q m j hq).imp_right ?_
    intro hx
    rcases hx with ⟨hm, r, i, x, hj, hr, y, hy, hpresent, hlarge, hyq⟩
    refine ⟨hm, r, i, x, hj, hr, y, ?_, by rwa [hw.same.format], by rwa [hw.same.format], hyq⟩
    rw [h.entry?_setEntry hp, if_neg]
    · exact hy
    · intro hx
      rcases hx with ⟨rfl, rfl⟩
      rw [hp] at hr
      cases hr
      rw [he] at hy
      cases hy
      exact hold ⟨Nat.succ_pos m, hpresent, hlarge⟩

/-- addresses of other blocks keep their leaf -/
theorem leafOf_setEntry_of_ne (h : t.Placed pos) (h' : (t.setEntry p s v).Placed pos) (hp : pos p = some (l, k))
    (hfmt : (t.setEntry p s v).format = t.format) (ha : a / levelSize l ≠ k * entriesPerTable + s) :
    (t.setEntry p s v).leafOf a = t.leafOf a := by
  refine Option.ext fun ⟨m, y⟩ => ?_
  rw [leafOf_eq_some_iff h', leafOf_eq_some_iff h, hfmt]
  refine and_congr_right fun _ => exists_congr fun q => and_congr_right fun hq => ?_
  rw [h.entry?_setEntry hp, if_neg]
  intro hx
  rcases hx with ⟨rfl, hs⟩
  rw [hp] at hq
  cases hq
  exact ha ((block_eq_iff a l _ s).2 ⟨rfl, hs⟩)

/-- a leaf that is put translates its block -/
theorem leafOf_setEntry_of_leaf (h : t.Placed pos) (h' : (t.setEntry p s v).Placed pos) (hp : pos p = some (l, k))
    (hleaf : (t.setEntry p s v).format.IsLeaf l v) (hlt : a < addressSpaceEnd)
    (ha : a / levelSize l = k * entriesPerTable + s) : (t.setEntry p s v).leafOf a = some (l, v) := by
  obtain ⟨rfl, rfl⟩ := (block_eq_iff a l k s).1 ha
  refine (leafOf_eq_some_iff h').2 ⟨hlt, p, hp, ?_, hleaf⟩
  rw [h.entry?_setEntry hp, if_pos ⟨rfl, rfl⟩]

/-- nothing is translated in the block of an absent entry -/
theorem leafOf_of_absent (h : t.Placed pos) (hp : pos p = some (l, k)) (he : t.entry? p s = some e)
    (habsent : t.format.present e = false) (ha : a / levelSize l = k * entriesPerTable + s) : t.leafOf a = none := by
  by_cases hlt : a < addressSpaceEnd
  · obtain ⟨rfl, rfl⟩ := (block_eq_iff a l k s).1 ha
    rw [leafOf_eq_leafAt h hlt hp, leafAt_of_absent he habsent]
  · rw [leafOf, if_neg hlt]

/-! ## A table more -/

/-- makes slot `s` of the table at `p` refer to `child`, which is among the tables `nodes` -/
def link (t : PageTable) (nodes : TableArray) (p : UInt64) (s : Fin entriesPerTable) (child : UInt64) : PageTable :=
  { t with nodes }.setEntry p s (t.format.table child)

/-- `t'` is `t` with a table `child` without entries, to which slot `s` of the table at `p` refers -/
structure Linked (t t' : PageTable) (p : UInt64) (s : Fin entriesPerTable) (child : UInt64) : Prop where
  stored : t'.Stored
  same : SameStorage t t'
  fresh : t.table? child = none
  address : entryAddress child = child
  table? : ∀ q, (t'.table? q).isSome = (decide (q = child) || (t.table? q).isSome)
  entry? : ∀ q x, t'.entry? q x =
    if q = child then some 0 else if q = p ∧ x = s then some (t.format.table child) else t.entry? q x

theorem linked_link (h : t.Stored) {tb : Table} (htb : t.table? p = some tb) {child : UInt64} {nodes : TableArray}
    (hal : t.nodes.alloc? = some (child, nodes)) : Linked t (t.link nodes p s child) p s child := by
  obtain ⟨hfresh, hu⟩ := TableArray.alloc?_updates h.nodes hal
  have hgiven : nodes.get? child = some Table.zeroed := by rw [hu.get? child, if_pos rfl]
  have hroot : child ≠ t.rootPhys := by
    intro heq
    subst heq
    rw [(h.withNodes hu).get?_root] at hgiven
    exact absurd hgiven (by simp)
  have hnone : t.table? child = none := by rw [PageTable.table?, if_neg hroot, hfresh]
  have hpc : p ≠ child := by
    intro heq
    subst heq
    rw [htb] at hnone
    exact absurd hnone (by simp)
  have hu := h.rewrites_nodes hu hroot
  have htb' : ({ t with nodes } : PageTable).table? p = some tb := by rw [hu.table? p, if_neg hpc, htb]
  have hzero : ({ t with nodes } : PageTable).table? child = some Table.zeroed := by rw [hu.table? child, if_pos rfl]
  have hw := setEntry_rewrites hu.stored htb' s (t.format.table child)
  refine ⟨hw.stored, hu.same.trans hw.same, hnone, entryAddress_of_table hu.stored hzero, fun q => ?_, fun q x => ?_⟩
  · rw [link, hw.table? q, hu.table? q]
    by_cases hq : q = p
    · simp [hq, htb]
    · by_cases hqc : q = child
      · simp [hqc, hpc.symm]
      · simp [hq, hqc]
  · rw [link, entry?_setEntry htb']
    by_cases hq : q = child
    · subst hq
      rw [if_neg (fun hc => hpc hc.1.symm), if_pos rfl, hu.entry_self, Option.map_some, Table.get_zeroed]
    · rw [if_neg hq, hu.entry_ne hq]

namespace Linked

variable {child : UInt64}

/-- no table in use is the new one -/
theorem ne_child (hl : Linked t t' p s child) (h : t.Placed pos) {q : UInt64} {x : ℕ × ℕ} (hq : pos q = some x) :
    q ≠ child := by
  intro heq
  subst heq
  obtain ⟨tb, htb⟩ := h.table hq
  rw [hl.fresh] at htb
  exact absurd htb (by simp)

/-- entries in other slots of tables in use stay -/
theorem entry_of_ne (hl : Linked t t' p s child) (h : t.Placed pos) {q : UInt64} {x : ℕ × ℕ} (hq : pos q = some x)
    {y : Fin entriesPerTable} (hne : ¬ (q = p ∧ y = s)) : t'.entry? q y = t.entry? q y := by
  rw [hl.entry?, if_neg (hl.ne_child h hq), if_neg hne]

/-- references in `t` are still there, since the slot that changed was absent -/
theorem refers (hl : Linked t t' p s child) (h : t.Placed pos) (he : t.entry? p s = some e)
    (habsent : t.format.present e = false) {q r : UInt64} {x : ℕ × ℕ} (hq : pos q = some x) {y : Fin entriesPerTable}
    (hr : t.Refers q y r) : t'.Refers q y r := by
  obtain ⟨d, hd, hpresent, hlarge, hdr⟩ := hr
  refine ⟨d, ?_, by rwa [hl.same.format], by rwa [hl.same.format], hdr⟩
  rw [hl.entry_of_ne h hq]
  · exact hd
  · intro hx
    rcases hx with ⟨rfl, rfl⟩
    rw [he] at hd
    cases hd
    rw [habsent] at hpresent
    exact absurd hpresent (by decide)

/-- a reference is the new one, or was there before -/
theorem refers_cases (hl : Linked t t' p s child) {q r : UInt64} {y : Fin entriesPerTable} (hr : t'.Refers q y r) :
    q ≠ child ∧ (q = p ∧ y = s ∧ r = child ∨ t.Refers q y r) := by
  obtain ⟨d, hd, hpresent, hlarge, hdr⟩ := hr
  rw [hl.same.format] at hpresent hlarge
  rw [hl.entry?] at hd
  split_ifs at hd with hqc hqs
  · cases hd
    rw [EntryFormat.present_zero] at hpresent
    exact absurd hpresent (by decide)
  · cases hd
    rw [EntryFormat.entryAddress_table, hl.address] at hdr
    exact ⟨hqc, Or.inl ⟨hqs.1, hqs.2, hdr.symm⟩⟩
  · exact ⟨hqc, Or.inr ⟨d, hd, hpresent, hlarge, hdr⟩⟩

/-- the placement gains the new table -/
theorem placed (hl : Linked t t' p s child) (h : t.Placed pos) (hp : pos p = some (l + 1, k))
    (he : t.entry? p s = some e) (habsent : t.format.present e = false) :
    t'.Placed fun q => if q = child then some (l, k * entriesPerTable + s) else pos q := by
  have hfree : ∀ q, pos q ≠ some (l, k * entriesPerTable + s) := by
    intro q hq
    obtain ⟨d, hd, hpresent, -⟩ := h.refers_of_place hp hq
    rw [he] at hd
    cases hd
    rw [habsent] at hpresent
    exact absurd hpresent (by decide)
  have hnew : t'.Refers p s child := by
    refine ⟨t.format.table child, ?_, ?_, ?_, ?_⟩
    · rw [hl.entry?, if_neg (hl.ne_child h hp), if_pos ⟨rfl, rfl⟩]
    · rw [hl.same.format, EntryFormat.present_table]
    · rw [hl.same.format, EntryFormat.large_table]
    · rw [EntryFormat.entryAddress_table, hl.address]
  have hlt : l < rootLevel := h.level_le hp
  refine { hl.stored with known := ?_, root := ?_, inj := ?_, child := ?_, parent := ?_ }
  · intro q
    rw [hl.table? q, ← h.known q]
    split_ifs with hq <;> simp [hq]
  · rw [hl.same.rootPhys, if_neg (hl.ne_child h h.root)]
    exact h.root
  · intro q r x hq hr
    split_ifs at hq hr with hqc hrc hrc
    · rw [hqc, hrc]
    · cases hq
      exact absurd hr (hfree r)
    · cases hr
      exact absurd hq (hfree q)
    · exact h.inj q r x hq hr
  · intro q m j y r hq hr
    obtain ⟨hqc, ⟨rfl, rfl, rfl⟩ | hr⟩ := hl.refers_cases hr
    · rw [if_neg hqc, hp] at hq
      cases hq
      rw [if_pos rfl]
    · rw [if_neg hqc] at hq
      have hplace := h.child q m j y r hq hr
      rw [if_neg (hl.ne_child h hplace)]
      exact hplace
  · intro q m j hq
    rw [hl.same.rootPhys]
    split_ifs at hq with hqc
    · cases hq
      refine Or.inr ⟨hlt, p, k, s, rfl, ?_, hqc ▸ hnew⟩
      rw [if_neg (hl.ne_child h hp)]
      exact hp
    · refine (h.parent q m j hq).imp_right ?_
      intro hx
      rcases hx with ⟨hm, r, i, y, hj, hr, hrefers⟩
      refine ⟨hm, r, i, y, hj, ?_, hl.refers h he habsent hr hrefers⟩
      rw [if_neg (hl.ne_child h hr)]
      exact hr

/-- no translation changes -/
theorem leafOf (hl : Linked t t' p s child) (h : t.Placed pos) (hp : pos p = some (l + 1, k))
    (he : t.entry? p s = some e) (habsent : t.format.present e = false) (a : ℕ) : t'.leafOf a = t.leafOf a := by
  refine Option.ext fun ⟨m, d⟩ => ?_
  rw [leafOf_eq_some_iff (hl.placed h hp he habsent), leafOf_eq_some_iff h, hl.same.format]
  refine and_congr_right fun _ => exists_congr fun q => ?_
  by_cases hqc : q = child
  · subst hqc
    have hnot : pos q ≠ some (m, a / levelSize (m + 1)) := fun hq => hl.ne_child h hq rfl
    have hzero : t'.entry? q (slotOf a m) = some 0 := by rw [hl.entry?, if_pos rfl]
    rw [hzero]
    refine iff_of_false ?_ (fun hc => hnot hc.1)
    intro hx
    rcases hx with ⟨-, hd, hleaf⟩
    cases hd
    exact EntryFormat.not_isLeaf_of_absent (EntryFormat.present_zero _) hleaf
  · rw [if_neg hqc]
    refine and_congr_right fun hq => ?_
    by_cases hqs : q = p ∧ slotOf a m = s
    · obtain ⟨rfl, hs⟩ := hqs
      rw [hp] at hq
      cases hq
      rw [hl.entry?, if_neg hqc, if_pos ⟨rfl, hs⟩, hs, he]
      refine iff_of_false ?_ ?_
      · intro hx
        rcases hx with ⟨hd, hleaf⟩
        cases hd
        exact EntryFormat.not_isTable_of_isLeaf hleaf
          ⟨Nat.succ_pos l, EntryFormat.present_table _ _, EntryFormat.large_table _ _⟩
      · intro hx
        rcases hx with ⟨hd, hleaf⟩
        cases hd
        exact EntryFormat.not_isLeaf_of_absent habsent hleaf
    · rw [hl.entry_of_ne h hq hqs]

end Linked

/-! ## A table less -/

/-- takes back the table `child`, to which slot `s` of the table at `p` refers -/
def unlink (t : PageTable) (p : UInt64) (s : Fin entriesPerTable) (child : UInt64) : PageTable :=
  let t := t.setEntry p s 0
  { t with nodes := (t.nodes.free? child).getD t.nodes }

/-- `t'` is `t` without the table `child`, which had no entries, and without the reference to it -/
structure Unlinked (t t' : PageTable) (p : UInt64) (s : Fin entriesPerTable) (child : UInt64) : Prop where
  stored : t'.Stored
  same : SameStorage t t'
  empty : ∀ x, t.entry? child x = some 0
  table? : ∀ q, (t'.table? q).isSome = (!decide (q = child) && (t.table? q).isSome)
  entry? : ∀ q x, q ≠ child → t'.entry? q x = if q = p ∧ x = s then some 0 else t.entry? q x

theorem unlinked_unlink (h : t.Placed pos) (hp : pos p = some (l + 1, k)) {child : UInt64} (hr : t.Refers p s child)
    {tb : Table} (htb : t.nodes.get? child = some tb) (hzero : tb.isZero = true) :
    Unlinked t (t.unlink p s child) p s child := by
  have hplace := h.child p l k s child hp hr
  have hroot : child ≠ t.rootPhys := h.ne_root hplace (h.level_le hp)
  have htable : t.table? child = some tb := by rw [PageTable.table?, if_neg hroot, htb]
  have hcp : child ≠ p := by
    intro heq1
    subst heq1
    rw [hp] at hplace
    cases hplace
  obtain ⟨ptb, hptb⟩ := h.table hp
  have hw := setEntry_rewrites h.toStored hptb s 0
  have hget : (t.setEntry p s 0).nodes.get? child = some tb := by
    have hsame := hw.table? child
    rwa [PageTable.table?, hw.same.rootPhys, if_neg hroot, if_neg hcp, htable] at hsame
  obtain ⟨nodes, hfree, hu⟩ := TableArray.free?_updates hw.stored.nodes hget
  have hroot' : child ≠ (t.setEntry p s 0).rootPhys := by rw [hw.same.rootPhys]; exact hroot
  have hu := hw.stored.rewrites_nodes hu hroot'
  have heq : t.unlink p s child = { t.setEntry p s 0 with nodes } := by simp [unlink, hfree]
  rw [heq]
  refine ⟨hu.stored, hw.same.trans hu.same, fun x => ?_, fun q => ?_, fun q x hq => ?_⟩
  · have hentry := entry?_of_table htable x
    rwa [Table.get_of_isZero hzero] at hentry
  · rw [hu.table? q]
    by_cases hq : q = child
    · simp [hq]
    · rw [if_neg hq, h.isSome_table?_setEntry hp]
      simp [hq]
  · rw [hu.entry_ne hq, h.entry?_setEntry hp]

namespace Unlinked

variable {child : UInt64}

/-- a reference is not the one that was cleared, and was there before -/
theorem refers_before (hl : Unlinked t t' p s child) {q r : UInt64} {y : Fin entriesPerTable} (hq : q ≠ child)
    (hr : t'.Refers q y r) : ¬ (q = p ∧ y = s) ∧ t.Refers q y r := by
  obtain ⟨d, hd, hpresent, hlarge, hdr⟩ := hr
  rw [hl.same.format] at hpresent hlarge
  rw [hl.entry? q y hq] at hd
  split_ifs at hd with hqs
  · cases hd
    rw [EntryFormat.present_zero] at hpresent
    exact absurd hpresent (by decide)
  · exact ⟨hqs, d, hd, hpresent, hlarge, hdr⟩

/-- references to other tables are still there -/
theorem refers (hl : Unlinked t t' p s child) (hr : t.Refers p s child) {q r : UInt64} {y : Fin entriesPerTable}
    (hqr : t.Refers q y r) (hne : r ≠ child) : q ≠ child ∧ t'.Refers q y r := by
  obtain ⟨d, hd, hpresent, hlarge, hdr⟩ := hqr
  have hq : q ≠ child := by
    intro heq
    subst heq
    rw [hl.empty y] at hd
    cases hd
    rw [EntryFormat.present_zero] at hpresent
    exact absurd hpresent (by decide)
  refine ⟨hq, d, ?_, by rwa [hl.same.format], by rwa [hl.same.format], hdr⟩
  rw [hl.entry? q y hq, if_neg]
  · exact hd
  · intro hx
    rcases hx with ⟨rfl, rfl⟩
    obtain ⟨c, hc, -, -, hcc⟩ := hr
    rw [hd] at hc
    cases hc
    exact hne (hdr.symm.trans hcc)

/-- the placement loses the table -/
theorem placed (hl : Unlinked t t' p s child) (h : t.Placed pos) (hp : pos p = some (l + 1, k))
    (hr : t.Refers p s child) : t'.Placed fun q => if q = child then none else pos q := by
  have hplace := h.child p l k s child hp hr
  have hlt : l < rootLevel := h.level_le hp
  refine { hl.stored with known := ?_, root := ?_, inj := ?_, child := ?_, parent := ?_ }
  · intro q
    rw [hl.table? q, ← h.known q]
    split_ifs with hq <;> simp [hq]
  · rw [hl.same.rootPhys, if_neg (h.ne_root hplace hlt).symm]
    exact h.root
  · intro q r x hq hr
    split_ifs at hq hr
    exact h.inj q r x hq hr
  · intro q m j y r hq hqr
    split_ifs at hq with hqc
    obtain ⟨hqs, hqr⟩ := hl.refers_before hqc hqr
    have hr' := h.child q m j y r hq hqr
    rw [if_neg]
    · exact hr'
    · intro heq
      subst heq
      have hsame := hr'.symm.trans hplace
      simp only [Option.some.injEq, Prod.mk.injEq] at hsame
      obtain ⟨rfl, hblock⟩ := hsame
      have hy := y.isLt
      have hs := s.isLt
      simp only [entriesPerTable] at hblock hy hs
      obtain rfl : j = k := by omega
      exact hqs ⟨h.inj _ _ _ hq hp, Fin.ext (by omega)⟩
  · intro q m j hq
    split_ifs at hq with hqc
    rw [hl.same.rootPhys]
    refine (h.parent q m j hq).imp_right ?_
    intro hx
    rcases hx with ⟨hm, r, i, y, hj, hr', hrefers⟩
    obtain ⟨hrc, hrefers⟩ := hl.refers hr hrefers hqc
    exact ⟨hm, r, i, y, hj, by rw [if_neg hrc]; exact hr', hrefers⟩

/-- no translation changes -/
theorem leafOf (hl : Unlinked t t' p s child) (h : t.Placed pos) (hp : pos p = some (l + 1, k))
    (hr : t.Refers p s child) (a : ℕ) : t'.leafOf a = t.leafOf a := by
  refine Option.ext fun ⟨m, d⟩ => ?_
  rw [leafOf_eq_some_iff (hl.placed h hp hr), leafOf_eq_some_iff h, hl.same.format]
  refine and_congr_right fun _ => exists_congr fun q => ?_
  by_cases hqc : q = child
  · subst hqc
    rw [if_pos rfl, hl.empty]
    refine iff_of_false (fun hc => by simp at hc) ?_
    intro hx
    rcases hx with ⟨-, hd, hleaf⟩
    cases hd
    exact EntryFormat.not_isLeaf_of_absent (EntryFormat.present_zero _) hleaf
  · rw [if_neg hqc]
    refine and_congr_right fun hq => ?_
    rw [hl.entry? q _ hqc]
    by_cases hqs : q = p ∧ slotOf a m = s
    · obtain ⟨rfl, hs⟩ := hqs
      rw [hp] at hq
      cases hq
      obtain ⟨c, hc, hpresent, hlarge, -⟩ := hr
      rw [if_pos ⟨rfl, hs⟩, hs, hc]
      refine iff_of_false ?_ ?_
      · intro hx
        rcases hx with ⟨hd, hleaf⟩
        cases hd
        exact EntryFormat.not_isLeaf_of_absent (EntryFormat.present_zero _) hleaf
      · intro hx
        rcases hx with ⟨hd, hleaf⟩
        cases hd
        exact EntryFormat.not_isTable_of_isLeaf hleaf ⟨Nat.succ_pos l, hpresent, hlarge⟩
    · rw [if_neg hqs]

end Unlinked

end PageTable
end NestedGuest
