/-
Where a translation comes from, in storage of any kind.

In a page table that is rooted, a leaf is seen in the block that it was put for and nowhere else. So insertions show
nothing but what they were asked to map (`ShowsOnly`), even if some of it is never seen.

- `lookup_insert`: a translation that is there after an insertion was there before, or it is that of the request.
-/
import NestedGuest.Proofs.Paging.Rooted

namespace NestedGuest.PageTable

variable {t t' u : PageTable} {p q child : UInt64} {s : Fin entriesPerTable} {e v : UInt64} {nodes : TableArray}
  {pos pos' : UInt64 → Option (ℕ × ℕ)} {va pa remaining l k m a i : ℕ} {flags : PageFlags} {tb : Table}

/-! ## What a change shows -/

theorem houses_of_leafAt {x : ℕ × UInt64} (hx : t.leafAt a l p = some x) : t.Houses p := by
  cases htb : t.table? p with
  | none =>
    have hnone : t.entry? p (slotOf a l) = none := by rw [PageTable.entry?, htb, Option.map_none]
    rw [leafAt_of_none hnone] at hx
    cases hx
  | some tb => exact houses_of_table htb

/-- If nothing but one slot changes in the tables that are placed, a leaf that a descent ends at was there before, or the
descent leads through that slot. -/
theorem Rooted.leafAt_cases (h : t.Rooted pos) (hsame : SameStorage t t')
    (hentry : ∀ q x, pos q = some x → ∀ y, ¬ (q = p ∧ y = s) → t'.entry? q y = t.entry? q y) {x : ℕ × UInt64}
    (hq : pos q = some (m, a / levelSize (m + 1))) (hx : t'.leafAt a m q = some x) :
    t.leafAt a m q = some x ∨
      ∃ l, pos p = some (l, a / levelSize (l + 1)) ∧ slotOf a l = s ∧ t'.leafAt a l p = some x := by
  induction m generalizing q with
  | zero =>
    by_cases hps : q = p ∧ slotOf a 0 = s
    · exact Or.inr ⟨0, hps.1 ▸ hq, hps.2, hps.1 ▸ hx⟩
    · left
      rw [leafAt, hentry q _ hq _ hps, hsame.format] at hx
      rwa [leafAt]
  | succ m ih =>
    by_cases hps : q = p ∧ slotOf a (m + 1) = s
    · exact Or.inr ⟨m + 1, hps.1 ▸ hq, hps.2, hps.1 ▸ hx⟩
    · have he := hentry q _ hq _ hps
      rw [leafAt, he, hsame.format] at hx
      rw [leafAt]
      split at hx
      · cases hx
      · rename_i e hd
        split_ifs at hx ⊢ with hpresent hlarge
        · exact Or.inl hx
        · have hhouse := hsame.houses.1 (houses_of_leafAt hx)
          have hplace := h.child q m _ _ _ hq ⟨e, hd, hpresent, by simpa using hlarge, rfl⟩ hhouse
          rw [← block_of_slot] at hplace
          exact ih hplace hx

/-- from `t` to `t'`, no leaf becomes visible from the tables placed but those that map a part of a request -/
def ShowsOnly (t t' : PageTable) (pos : UInt64 → Option (ℕ × ℕ)) (va pa n : ℕ) : Prop :=
  ∀ a m q x, pos q = some (m, a / levelSize (m + 1)) → t'.leafAt a m q = some x →
    t.leafAt a m q = some x ∨ va ≤ a ∧ a < va + n ∧ (entryAddress x.2).toNat + a % levelSize x.1 = pa + (a - va)

theorem ShowsOnly.refl (t : PageTable) (pos : UInt64 → Option (ℕ × ℕ)) (va pa n : ℕ) : ShowsOnly t t pos va pa n :=
  fun _ _ _ _ _ hx => Or.inl hx

theorem ShowsOnly.trans {n : ℕ} (h1 : ShowsOnly t t' pos va pa n) (hext : Enlarges pos pos')
    (h2 : ShowsOnly t' u pos' va pa n) : ShowsOnly t u pos va pa n := by
  intro a m q x hq hx
  rcases h2 a m q x (hext _ _ hq) hx with hx | hnew
  · exact h1 a m q x hq hx
  · exact Or.inr hnew

/-- a new leaf shows the block that it maps -/
theorem Rooted.showsOnly_leaf (h : t.Rooted pos) (hp : pos p = some (l, va / levelSize (l + 1)))
    (he : t.entry? p (slotOf va l) = some e) (hva : va % levelSize l = 0) (hpa : pa % pageSize = 0)
    (hend : pa < physAddressEnd) (hrem : levelSize l ≤ remaining) (flags : PageFlags) :
    ShowsOnly t (t.setEntry p (slotOf va l) (t.format.leaf (UInt64.ofNat pa) flags (decide (0 < l)))) pos va pa
      remaining := by
  intro a m q x hq hx
  set v := t.format.leaf (UInt64.ofNat pa) flags (decide (0 < l)) with hv
  have hsame := setEntry_sameStorage t p (slotOf va l) v
  have hentry : ∀ q x, pos q = some x → ∀ y, ¬ (q = p ∧ y = slotOf va l) →
      PageTable.entry? (t.setEntry p (slotOf va l) v) q y = t.entry? q y := by
    intro q x _ y hqy
    rw [entry?_overwrite, if_neg hqy]
  refine (h.leafAt_cases hsame hentry hq hx).imp_right ?_
  rintro ⟨n, hn, hslot, hleaf⟩
  rw [hp] at hn
  obtain ⟨rfl, hblock⟩ := Prod.mk.inj (Option.some.inj hn)
  have hput : PageTable.entry? (t.setEntry p (slotOf va l) v) p (slotOf a l) = some v := by
    rw [hslot, entry?_overwrite, if_pos ⟨rfl, rfl⟩, he, Option.map_some]
  rw [leafAt_of_leaf hput (hsame.format ▸ EntryFormat.isLeaf_leaf _ _ _ _)] at hleaf
  obtain rfl := Option.some.inj hleaf
  have hin : a / levelSize l = va / levelSize l := by rw [block_of_slot a, block_of_slot va, hblock, hslot]
  obtain ⟨hlow, hhigh⟩ := block_of_aligned hva hin
  have hoffset : a % levelSize l = a - va := by
    have h1 := Nat.div_add_mod a (levelSize l)
    have h2 := Nat.div_add_mod va (levelSize l)
    rw [hin] at h1
    omega
  exact ⟨hlow, by omega, by rw [hv, EntryFormat.entryAddress_leaf_ofNat _ hpa hend, hoffset]⟩

/-! ## Insertions -/

/-- from `t` to `t'`, the tables placed stay as they are -/
structure Unseen (t t' : PageTable) (pos : UInt64 → Option (ℕ × ℕ)) : Prop where
  rooted : t'.Rooted pos
  same : SameStorage t t'
  entries : ∀ q x, pos q = some x → ∀ y, t'.entry? q y = t.entry? q y

theorem Rooted.unseen_refl (h : t.Rooted pos) : Unseen t t pos := ⟨h, .refl t, fun _ _ _ _ => rfl⟩

theorem Unseen.trans (h1 : Unseen t t' pos) (h2 : Unseen t' u pos) : Unseen t u pos where
  rooted := h2.rooted
  same := h1.same.trans h2.same
  entries q x hq y := (h2.entries q x hq y).trans (h1.entries q x hq y)

/-- what is written into a table that is not placed is not seen -/
theorem Rooted.unseen_setEntry (h : t.Rooted pos) (hp : pos p = none) (s : Fin entriesPerTable) (v : UInt64) :
    Unseen t (t.setEntry p s v) pos := by
  refine ⟨h.setEntry fun l k hq => ?_, setEntry_sameStorage .., fun q x hq y => ?_⟩
  · rw [hp] at hq
    cases hq
  · rw [entry?_overwrite, if_neg]
    rintro ⟨rfl, -⟩
    rw [hp] at hq
    cases hq

/-- nor is a table that such a table refers to -/
theorem Rooted.unseen_link (h : t.Rooted pos) (hout : HandsOut t child nodes) (hp : pos p = none)
    (s : Fin entriesPerTable) : Unseen t (t.link nodes p s child) pos := by
  refine ⟨h.link_lost hout (Or.inr hp), hout.link_sameStorage p s, fun q x hq y => ?_⟩
  refine hout.entry?_link (hout.ne_child h hq) ?_
  rintro ⟨rfl, -⟩
  rw [hp] at hq
  cases hq

theorem HandsOut.pos_eq_none (hout : HandsOut t child nodes) (h : t.Rooted pos) : pos child = none := by
  cases hq : pos child with
  | none => rfl
  | some x => exact absurd rfl (hout.ne_child h hq)

/-- An insertion below a table that no reference leads to is not seen. -/
theorem insertLeaf_unseen (va pa remaining : ℕ) (flags : PageFlags) (h : t.Rooted pos) (hp : pos p = none)
    (hempty : ∀ y e, t.entry? p y = some e → e = 0) : Unseen t (insertLeaf va pa remaining flags l p t).1 pos := by
  induction l generalizing p t with
  | zero =>
    unfold insertLeaf
    split
    · exact h.unseen_refl
    · split_ifs
      · exact h.unseen_refl
      · exact h.unseen_setEntry hp _ _
  | succ l ih =>
    unfold insertLeaf
    split
    · exact h.unseen_refl
    · rename_i e he
      rw [hempty _ e he, EntryFormat.present_zero]
      simp only [Bool.false_eq_true, if_false]
      split_ifs
      · exact h.unseen_setEntry hp _ _
      · split
        · exact h.unseen_refl
        · rename_i child nodes halloc
          have hout := h.handsOut halloc
          have hlink := h.unseen_link hout hp (slotOf va (l + 1))
          have hpc : p ≠ child := by
            rintro rfl
            rw [PageTable.entry?, hout.fresh] at he
            cases he
          exact hlink.trans (ih hlink.rooted (hout.pos_eq_none h) fun y e he => hout.entry?_child hpc he)

theorem Unseen.showsOnly (hu : Unseen t t' pos) (h : t.Rooted pos) (hp : pos p = none) (va pa n : ℕ) :
    ShowsOnly t t' pos va pa n := by
  intro a m q x hq hx
  rcases h.leafAt_cases (s := slotOf a m) hu.same (fun q x hq y _ => hu.entries q x hq y) hq hx with hx | ⟨l, hl, -⟩
  · exact Or.inl hx
  · rw [hp] at hl
    cases hl

/-- nothing is seen through a reference to a table that was just handed out -/
theorem Rooted.showsOnly_link (h : t.Rooted pos) (hout : HandsOut t child nodes) (hp : pos p = some (l + 1, k))
    (s : Fin entriesPerTable) (va pa n : ℕ) : ShowsOnly t (t.link nodes p s child) pos va pa n := by
  intro a m q x hq hx
  have hsame := hout.link_sameStorage p s
  refine (h.leafAt_cases hsame (fun q x hq y hqy => hout.entry?_link (hout.ne_child h hq) hqy) hq hx).imp_right ?_
  rintro ⟨n, hn, rfl, hleaf⟩
  rw [hp] at hn
  obtain ⟨rfl, -⟩ := Prod.mk.inj (Option.some.inj hn)
  exfalso
  obtain ⟨tb, htb⟩ := h.known p _ hp
  have hentry : PageTable.entry? (t.link nodes p (slotOf a (l + 1)) child) p (slotOf a (l + 1)) =
      some (t.format.table child) := by
    rw [link, entry?_overwrite, if_pos ⟨rfl, rfl⟩, PageTable.entry?, hout.others p (hout.ne_child h hp), htb]
    rfl
  have hrefers : PageTable.Refers (t.link nodes p (slotOf a (l + 1)) child) p (slotOf a (l + 1))
      (entryAddress child) := by
    refine ⟨_, hentry, ?_, ?_, EntryFormat.entryAddress_table _ _⟩
    · rw [hsame.format, EntryFormat.present_table]
    · rw [hsame.format, EntryFormat.large_table]
  rw [leafAt_of_refers hrefers] at hleaf
  obtain ⟨haddr, -⟩ := hout.housed (hsame.houses.1 (houses_of_leafAt hleaf))
  rw [haddr] at hleaf
  cases he : PageTable.entry? (t.link nodes p (slotOf a (l + 1)) child) child (slotOf a l) with
  | none =>
    rw [leafAt_of_none he] at hleaf
    cases hleaf
  | some e =>
    rw [hout.entry?_child (hout.ne_child h hp) he] at he
    rw [leafAt_of_absent he (EntryFormat.present_zero _)] at hleaf
    cases hleaf

theorem insertLeaf_of_none (he : t.entry? p (slotOf va l) = none) :
    (insertLeaf va pa remaining flags l p t).1 = t := by
  cases l <;> simp only [insertLeaf, he]

/-- Inserting one leaf keeps the page table rooted and shows nothing but what is mapped for the request. -/
theorem insertLeaf_showsOnly (flags : PageFlags) (hva : va % pageSize = 0) (hpa : pa % pageSize = 0)
    (hrem : 0 < remaining) (hpages : remaining % pageSize = 0) (hend : pa + remaining ≤ physAddressEnd)
    (h : t.Rooted pos) (hp : pos p = some (l, va / levelSize (l + 1))) :
    ∃ pos', (insertLeaf va pa remaining flags l p t).1.Rooted pos' ∧ Enlarges pos pos' ∧
      ShowsOnly t (insertLeaf va pa remaining flags l p t).1 pos va pa remaining := by
  induction l generalizing p t pos with
  | zero =>
    unfold insertLeaf
    split
    · exact ⟨pos, h, .refl pos, .refl t pos va pa _⟩
    · rename_i e he
      split_ifs
      · exact ⟨pos, h, .refl pos, .refl t pos va pa _⟩
      · refine ⟨pos, h.setEntry fun m k hm => ?_, .refl pos, ?_⟩
        · exact fun htable => by
            rw [hp] at hm
            cases hm
            exact absurd htable.1 (lt_irrefl 0)
        · exact h.showsOnly_leaf hp he hva hpa (by omega)
            (Nat.le_of_dvd hrem (Nat.dvd_of_mod_eq_zero hpages)) flags
  | succ l ih =>
    unfold insertLeaf
    split
    · exact ⟨pos, h, .refl pos, .refl t pos va pa _⟩
    · rename_i e he
      split_ifs with hpresent hlarge hfits
      · exact ⟨pos, h, .refl pos, .refl t pos va pa _⟩
      · -- the descent goes on, unless the reference is lost
        by_cases hhouse : t.Houses (entryAddress e)
        · have hchild := h.child p l _ _ _ hp ⟨e, he, hpresent, by simpa using hlarge, rfl⟩ hhouse
          rw [← block_of_slot] at hchild
          exact ih h hchild
        · have hnone : t.entry? (entryAddress e) (slotOf va l) = none := by
            cases htb : t.table? (entryAddress e) with
            | none => rw [PageTable.entry?, htb, Option.map_none]
            | some tb => exact absurd (houses_of_table htb) hhouse
          rw [insertLeaf_of_none hnone]
          exact ⟨pos, h, .refl pos, .refl t pos va pa _⟩
      · obtain ⟨hfirst, hsize⟩ := leafFits_succ hfits
        have hleaf := EntryFormat.isLeaf_leaf t.format (l + 1) (UInt64.ofNat pa) flags
        have hshows := h.showsOnly_leaf hp he hfirst hpa (by omega) hsize flags
        rw [decide_eq_true (Nat.succ_pos l)] at hleaf hshows
        refine ⟨pos, h.setEntry fun m k hm => ?_, .refl pos, hshows⟩
        rw [hp] at hm
        cases hm
        exact EntryFormat.not_isTable_of_isLeaf hleaf
      · split
        · exact ⟨pos, h, .refl pos, .refl t pos va pa _⟩
        · rename_i child nodes halloc
          have hout := h.handsOut halloc
          have hshows := h.showsOnly_link hout hp (slotOf va (l + 1)) va pa remaining
          by_cases hhouse : t.Houses (entryAddress child)
          · have hext := hout.enlarges h (l, va / levelSize (l + 1 + 1) * entriesPerTable + slotOf va (l + 1))
            obtain ⟨pos', h', hext', hshows'⟩ := ih (h.link_housed hout hp hhouse) (by rw [if_pos rfl, ← block_of_slot])
            exact ⟨pos', h', hext.trans hext', hshows.trans hext hshows'⟩
          · -- what is mapped behind a reference that is lost is not seen
            have hlink := h.link_lost (p := p) (s := slotOf va (l + 1)) hout (Or.inl hhouse)
            have hchild := hout.pos_eq_none h
            have hunseen := insertLeaf_unseen (l := l) va pa remaining flags hlink hchild
              fun y e he => hout.entry?_child (hout.ne_child h hp) he
            exact ⟨pos, hunseen.rooted, .refl pos,
              hshows.trans (.refl pos) (hunseen.showsOnly hlink hchild va pa remaining)⟩

/-- An insertion keeps the page table rooted and shows nothing but what it was asked to map. -/
theorem insertLeaves_showsOnly (hva : va % pageSize = 0) (hpa : pa % pageSize = 0) (hpages : remaining % pageSize = 0)
    (hend : pa + remaining ≤ physAddressEnd) (hlast : va + remaining ≤ addressSpaceEnd) (h : t.Rooted pos) :
    ∃ pos', (insertLeaves va pa remaining flags t).1.Rooted pos' ∧ Enlarges pos pos' ∧
      ShowsOnly t (insertLeaves va pa remaining flags t).1 pos va pa remaining := by
  induction remaining using Nat.strong_induction_on generalizing va pa t pos with
  | _ remaining ih =>
    rw [insertLeaves]
    split_ifs with hzero
    · exact ⟨pos, h, .refl pos, .refl t pos va pa _⟩
    · have hrem := Nat.pos_of_ne_zero hzero
      have hroot := h.root
      rw [← block_root (show va < addressSpaceEnd by omega)] at hroot
      have hstep := insertLeaf_showsOnly flags hva hpa hrem hpages hend h hroot
      have hcovers := insertLeaf_covers pa flags hrem hpages hva rootLevel t.rootPhys t
      split
      · rename_i u err hleaf
        rwa [hleaf] at hstep
      · rename_i u hleaf
        rwa [hleaf] at hstep
      · rename_i u c hleaf
        rw [hleaf] at hstep hcovers
        obtain ⟨-, hle, hmod⟩ := hcovers _ rfl
        obtain ⟨pos1, h1, hext1, hshows1⟩ := hstep
        obtain ⟨pos2, h2, hext2, hshows2⟩ := @ih (remaining - (c + 1)) (by omega) u pos1 (va + (c + 1))
          (pa + (c + 1)) (by simp only [pageSize] at *; omega) (by simp only [pageSize] at *; omega)
          (by simp only [pageSize] at *; omega) (by omega) (by omega) h1
        refine ⟨pos2, h2, hext1.trans hext2, hshows1.trans hext1 fun a m q x hq hx => ?_⟩
        -- a part of the request behind the first leaf
        refine (hshows2 a m q x hq hx).imp_right fun hnew => ?_
        omega

/-- in storage of any kind, an insertion shows nothing but what it was asked to map -/
theorem Rooted.insert (h : t.Rooted pos) (vm phys size : UInt64) (flags : PageFlags) :
    ∃ pos', (t.insert vm phys size flags).1.Rooted pos' ∧
      ShowsOnly t (t.insert vm phys size flags).1 pos vm.toNat phys.toNat size.toNat := by
  unfold PageTable.insert
  split_ifs with hcond
  · simp only [isPageAligned, Bool.and_eq_true, beq_iff_eq, decide_eq_true_eq] at hcond
    obtain ⟨⟨⟨⟨hvm, hphys⟩, hsize⟩, hlast⟩, hend⟩ := hcond
    obtain ⟨pos', h', -, hshows⟩ := insertLeaves_showsOnly hvm hphys hsize hend hlast h
    exact ⟨pos', h', hshows⟩
  · exact ⟨pos, h, .refl t pos _ _ _⟩

/-! ## Main results -/

variable {format : EntryFormat} {base : UInt64} {capacity : ℕ}

/-- insertions and removals keep a page table rooted -/
theorem Reachable.rooted (hroom : (capacity + 1) * pageSize ≤ physAddressEnd) (h : Reachable format base capacity t) :
    ∃ pos, t.Rooted pos := by
  induction h with
  | new => exact ⟨_, rooted_withCapacity hroom⟩
  | insert vm phys size flags _ ih =>
    obtain ⟨pos, hpos⟩ := ih
    obtain ⟨pos', hpos', -⟩ := hpos.insert vm phys size flags
    exact ⟨pos', hpos'⟩
  | remove vm size _ ih =>
    obtain ⟨pos, hpos⟩ := ih
    exact hpos.remove vm size

/-- **A lookup shows nothing but what was asked for.** A translation that is there after an insertion was there before,
or the address was not translated before and its host address is the one in the window of the request. -/
theorem lookup_insert (hroom : (capacity + 1) * pageSize ≤ physAddressEnd) (h : Reachable format base capacity t)
    {vm phys size a : UInt64} {tr : Translation} (htr : (t.insert vm phys size flags).1.lookup a = some tr) :
    t.lookup a = some tr ∨ t.lookup a = none ∧ vm.toNat ≤ a.toNat ∧ a.toNat < vm.toNat + size.toNat ∧
      tr.phys = phys.toNat + (a.toNat - vm.toNat) := by
  obtain ⟨pos, hpos⟩ := h.rooted hroom
  obtain ⟨-, -, hshows⟩ := hpos.insert vm phys size flags
  have hwithin := insert_within t vm phys size flags
  cases hbefore : t.lookup a with
  | some tr' => exact Or.inl (by rw [← hwithin.lookup hbefore, htr])
  | none =>
    obtain ⟨l, e, hleaf, rfl⟩ := lookup_eq_some_iff.1 htr
    have ha := lt_addressSpaceEnd_of_leafOf hleaf
    have hroot := hpos.root
    rw [← block_root ha] at hroot
    rw [leafOf, if_pos ha, hwithin.rootPhys] at hleaf
    rcases hshows a.toNat rootLevel t.rootPhys _ hroot hleaf with hold | hnew
    · rw [lookup_eq_none_iff, leafOf, if_pos ha, hold] at hbefore
      cases hbefore
    · exact Or.inr ⟨rfl, hnew⟩

end NestedGuest.PageTable
