/-
Which tables insertions and removals leave in use.

An insertion takes no table away, and a table that it adds translates an address of its range (`Grows`). A removal adds
no table, leaves the tables alone that translate no address of its range, and leaves none without entries among those
below the root that do (`Prunes`). So only an insertion that runs out of tables leaves a table without entries behind
(`insert_grows`).
-/
import NestedGuest.Proofs.Paging.Entries
import NestedGuest.Proofs.Paging.Exactness

namespace NestedGuest.PageTable

/-! ## Tables with and without entries -/

/-- the table placed at block `j` of level `m` translates an address of `[start, stop)` -/
def Touches (start stop m j : ℕ) : Prop := ∃ b, start ≤ b ∧ b < stop ∧ b / levelSize (m + 1) = j

/-- every table below the root, `p` apart, has an entry -/
def FullBut (t : PageTable) (pos : UInt64 → Option (ℕ × ℕ)) (p : UInt64) : Prop :=
  ∀ q m j, pos q = some (m, j) → m < rootLevel → q ≠ p → t.Occupied q

/-- every table below the root has an entry -/
def Full (t : PageTable) (pos : UInt64 → Option (ℕ × ℕ)) : Prop :=
  ∀ q m j, pos q = some (m, j) → m < rootLevel → t.Occupied q

variable {t t' u : PageTable} {pos pos' pos'' : UInt64 → Option (ℕ × ℕ)} {p q child : UInt64}
  {s : Fin entriesPerTable} {va pa remaining start stop l k m j : ℕ} {e v : UInt64} {flags : PageFlags}
  {T T' : ℕ → ℕ → Prop} {c : ℕ × ℕ}

theorem FullBut.full (h : t.FullBut pos p) (hp : t.Occupied p) : t.Full pos := by
  intro q m j hq hm
  by_cases heq : q = p
  · rw [heq]
    exact hp
  · exact h q m j hq hm heq

theorem Full.fullBut (h : t.Full pos) (p : UInt64) : t.FullBut pos p := fun q m j hq hm _ => h q m j hq hm

/-- a write to `p` matters to no other table -/
theorem FullBut.setEntry (hfull : t.FullBut pos p) (h : t.Placed pos) (hp : pos p = some (l, k))
    (s : Fin entriesPerTable) (v : UInt64) : (t.setEntry p s v).FullBut pos p := by
  intro q m j hq hm hne
  refine (hfull q m j hq hm hne).congr fun x => ?_
  rw [h.entry?_setEntry hp, if_neg]
  intro hx
  exact hne hx.1

theorem occupied_setEntry (h : t.Placed pos) (hp : pos p = some (l, k)) (hv : v ≠ 0) :
    (t.setEntry p s v).Occupied p := by
  refine ⟨s, v, ?_, hv⟩
  rw [h.entry?_setEntry hp, if_pos ⟨rfl, rfl⟩]

/-! ## Insertion -/

/-- no table is gone, and those that are new are at places marked by `T` -/
structure Grows (t' : PageTable) (pos pos' : UInt64 → Option (ℕ × ℕ)) (T : ℕ → ℕ → Prop) : Prop where
  shaped : t'.Shaped pos'
  keeps : ∀ q x, pos q = some x → pos' q = some x
  new : ∀ q m j, pos' q = some (m, j) → pos q = some (m, j) ∨ T m j

theorem Grows.same (h : t.Shaped pos) : Grows t pos pos T := ⟨h, fun _ _ hq => hq, fun _ _ _ hq => Or.inl hq⟩

theorem Grows.mono (h : Grows t pos pos' T) (hT : ∀ m j, T m j → T' m j) : Grows t pos pos' T' :=
  { h with new := fun q m j hq => (h.new q m j hq).imp_right (hT m j) }

theorem Grows.trans (h1 : Grows t pos pos' T) (h2 : Grows t' pos' pos'' T) : Grows t' pos pos'' T where
  shaped := h2.shaped
  keeps q x hq := h2.keeps q x (h1.keeps q x hq)
  new q m j hq := by
    rcases h2.new q m j hq with hq | hT
    · exact h1.new q m j hq
    · exact Or.inr hT

theorem FullBut.link {t' : PageTable} (hfull : t.FullBut pos p) (hl : Linked t t' p s child) (h : t.Placed pos)
    {x : ℕ × ℕ} : t'.FullBut (fun q => if q = child then some x else pos q) child := by
  intro q m j hq hm hne
  simp only [if_neg hne] at hq
  by_cases hqp : q = p
  · refine ⟨s, t.format.table child, ?_, EntryFormat.ne_zero_of_present (EntryFormat.present_table _ _)⟩
    rw [hl.entry?, if_neg hne, if_pos ⟨hqp, rfl⟩]
  · refine (hfull q m j hq hm hqp).congr fun y => ?_
    exact hl.entry_of_ne h hq fun hy => hqp hy.1

theorem leafFits_level (h : leafFits (l + 1) va pa remaining = true) :
    l + 1 < rootLevel ∧ pa % levelSize (l + 1) = 0 := by
  simp only [leafFits, Nat.add_eq_zero_iff, one_ne_zero, and_false, beq_iff_eq, Bool.or_eq_true, Bool.and_eq_true,
    decide_eq_true_eq, false_or] at h
  exact ⟨Nat.lt_succ_of_le h.1.1.1, h.1.2⟩

/-- a leaf put where there was no entry adds no table -/
theorem putLeaf_grows (flags : PageFlags) (h : t.Shaped pos) (hp : pos p = some (l, k)) (he : t.entry? p s = some e)
    (habsent : t.format.present e = false) (hl : l < rootLevel) (hpa : pa % levelSize l = 0)
    (hend : pa < physAddressEnd) :
    Grows (t.setEntry p s (t.format.leaf (UInt64.ofNat pa) flags (decide (0 < l)))) pos pos T ∧
      (t.FullBut pos p → (t.setEntry p s (t.format.leaf (UInt64.ofNat pa) flags (decide (0 < l)))).Full pos) := by
  obtain ⟨hleaf, hadmissible⟩ := EntryFormat.admissible_leaf t.format flags hl hpa hend
  have h' := shaped_setEntry h hp he (EntryFormat.not_isTable_of_absent habsent)
    (EntryFormat.not_isTable_of_isLeaf hleaf) hadmissible
  have hocc := occupied_setEntry (s := s) h.toPlaced hp (EntryFormat.ne_zero_of_present hleaf.1)
  exact ⟨.same h', fun hfull => (hfull.setEntry h.toPlaced hp _ _).full hocc⟩

/-- what grows from a table with one more grows from the table itself -/
theorem Grows.of_link {x : ℕ × ℕ} (h : Grows u (fun q => if q = child then some x else pos q) pos' T)
    (hl : Linked t t' p s child) (hplaced : t.Placed pos) (hx : T x.1 x.2) : Grows u pos pos' T where
  shaped := h.shaped
  keeps q y hq := by
    refine h.keeps q y ?_
    rw [if_neg (hl.ne_child hplaced hq)]
    exact hq
  new q m j hq := by
    rcases h.new q m j hq with hq | hT
    · split_ifs at hq
      · cases hq
        exact Or.inr hx
      · exact Or.inl hq
    · exact Or.inr hT

/-- Inserting one leaf adds tables for its address only, and none without entries stays unless tables ran out. -/
theorem insertLeaf_grows (remaining : ℕ) (flags : PageFlags) (hpa : pa % pageSize = 0) (hend : pa < physAddressEnd)
    (h : t.Shaped pos) (hp : pos p = some (l, va / levelSize (l + 1))) :
    ∃ pos', Grows (insertLeaf va pa remaining flags l p t).1 pos pos' (fun m j => va / levelSize (m + 1) = j) ∧
      (t.FullBut pos p → (insertLeaf va pa remaining flags l p t).2 ≠ .error .outOfTables →
        (insertLeaf va pa remaining flags l p t).1.Full pos') := by
  induction l generalizing p t pos with
  | zero =>
    obtain ⟨e, he⟩ := h.entry hp (slotOf va 0)
    simp only [insertLeaf, he]
    split_ifs with hpresent
    · have hocc : t.Occupied p := ⟨_, e, he, EntryFormat.ne_zero_of_present hpresent⟩
      exact ⟨pos, .same h, fun hfull _ => hfull.full hocc⟩
    · obtain ⟨hgrows, hfull⟩ := putLeaf_grows flags h hp he (by simpa using hpresent) (by decide) hpa hend
      exact ⟨pos, hgrows, fun hbut _ => hfull hbut⟩
  | succ l ih =>
    obtain ⟨e, he⟩ := h.entry hp (slotOf va (l + 1))
    simp only [insertLeaf, he]
    split_ifs with hpresent hlarge hfits
    · have hocc : t.Occupied p := ⟨_, e, he, EntryFormat.ne_zero_of_present hpresent⟩
      exact ⟨pos, .same h, fun hfull _ => hfull.full hocc⟩
    · have hrefers : t.Refers p (slotOf va (l + 1)) (entryAddress e) := ⟨e, he, hpresent, by simpa using hlarge, rfl⟩
      have hchild := h.child p l _ _ _ hp hrefers
      rw [← block_of_slot] at hchild
      obtain ⟨pos', hgrows, hfull'⟩ := ih h hchild
      exact ⟨pos', hgrows, fun hfull => hfull' ((hfull.full (occupied_of_refers hrefers)).fullBut _)⟩
    · obtain ⟨hlevel, hpa'⟩ := leafFits_level hfits
      obtain ⟨hgrows, hfull⟩ := putLeaf_grows flags h hp he (by simpa using hpresent) hlevel hpa' hend
      rw [decide_eq_true (Nat.succ_pos l)] at hgrows hfull
      exact ⟨pos, hgrows, fun hbut _ => hfull hbut⟩
    · split
      · exact ⟨pos, .same h, fun _ hok => absurd rfl hok⟩
      · rename_i child nodes halloc
        obtain ⟨tb, htb⟩ := h.table hp
        have hl := linked_link (s := slotOf va (l + 1)) h.toStored htb halloc
        have h' := hl.shaped h hp he (by simpa using hpresent)
        obtain ⟨pos', hgrows, hfull'⟩ := ih h' (by rw [if_pos rfl, ← block_of_slot])
        exact ⟨pos', hgrows.of_link hl h.toPlaced (block_of_slot va (l + 1)),
          fun hfull => hfull' (hfull.link hl h.toPlaced)⟩

/-- A request adds tables for its addresses only, and none without entries stays unless tables ran out. -/
theorem insertLeaves_grows (h : t.Shaped pos) (hva : va % pageSize = 0) (hpa : pa % pageSize = 0)
    (hpages : remaining % pageSize = 0) (hlast : va + remaining ≤ addressSpaceEnd)
    (hend : pa + remaining ≤ physAddressEnd) :
    ∃ pos', Grows (insertLeaves va pa remaining flags t).1 pos pos' (Touches va (va + remaining)) ∧
      (t.Full pos → (insertLeaves va pa remaining flags t).2 ≠ .error .outOfTables →
        (insertLeaves va pa remaining flags t).1.Full pos') := by
  induction remaining using Nat.strong_induction_on generalizing va pa t pos with
  | _ remaining ih =>
    rw [insertLeaves]
    split_ifs with hzero
    · exact ⟨pos, .same h, fun hfull _ => hfull⟩
    · have hroot := h.root
      rw [← block_root (show va < addressSpaceEnd by omega)] at hroot
      have hcover := insertLeaf_covers pa flags (Nat.pos_of_ne_zero hzero) hpages hva rootLevel t.rootPhys t
      obtain ⟨pos1, hgrows, hfull1⟩ := insertLeaf_grows remaining flags hpa (by omega) h hroot
      have hgrows : Grows _ pos pos1 (Touches va (va + remaining)) :=
        hgrows.mono fun m j hj => ⟨va, le_rfl, by omega, hj⟩
      split
      · rename_i u err hleaf
        rw [hleaf] at hgrows hfull1
        refine ⟨pos1, hgrows, fun hfull hok => hfull1 (hfull.fullBut _) ?_⟩
        intro hc
        cases hc
        exact hok rfl
      · rename_i u hleaf
        rw [hleaf] at hcover
        exact absurd (hcover 0 rfl).1 (lt_irrefl 0)
      · rename_i u c hleaf
        rw [hleaf] at hcover hgrows hfull1
        obtain ⟨-, hle, hmod⟩ := hcover _ rfl
        obtain ⟨pos2, hgrows2, hfull2⟩ := @ih (remaining - (c + 1)) (by omega) u pos1 (va + (c + 1)) (pa + (c + 1))
          hgrows.shaped (by simp only [pageSize] at *; omega) (by simp only [pageSize] at *; omega)
          (by simp only [pageSize] at *; omega) (by omega) (by omega)
        refine ⟨pos2, hgrows.trans (hgrows2.mono ?_), fun hfull hok => ?_⟩
        · intro m j hj
          obtain ⟨b, h1, h2, hb⟩ := hj
          exact ⟨b, by omega, by omega, hb⟩
        · exact hfull2 (hfull1 (hfull.fullBut _) (by simp)) hok

/-- An insertion adds tables for its addresses only, and none without entries stays unless tables ran out. -/
theorem insert_grows (h : t.Shaped pos) (vm phys size : UInt64) (flags : PageFlags) :
    ∃ pos', Grows (t.insert vm phys size flags).1 pos pos' (Touches vm.toNat (vm.toNat + size.toNat)) ∧
      (t.Full pos → (t.insert vm phys size flags).2 ≠ .error .outOfTables →
        (t.insert vm phys size flags).1.Full pos') := by
  unfold insert
  split_ifs with hcond
  · simp only [isPageAligned, Bool.and_eq_true, beq_iff_eq, decide_eq_true_eq] at hcond
    obtain ⟨⟨⟨⟨hvm, hphys⟩, hsize⟩, hlast⟩, hend⟩ := hcond
    exact insertLeaves_grows h hvm hphys hsize hlast hend
  · exact ⟨pos, .same h, fun hfull _ => hfull⟩

/-! ## Removal -/

/-- a walk below level `l` adds no table and changes none that is not marked by `T`; those marked have entries -/
structure Prunes (l : ℕ) (t t' : PageTable) (pos pos' : UInt64 → Option (ℕ × ℕ)) (T : ℕ → ℕ → Prop) : Prop where
  shaped : t'.Shaped pos'
  keeps : Keeps l pos pos'
  old : ∀ q m j, pos' q = some (m, j) → pos q = some (m, j)
  frame : ∀ q m j, pos' q = some (m, j) → ¬ T m j → ∀ x, t'.entry? q x = t.entry? q x
  full : ∀ q m j, pos' q = some (m, j) → m < l → T m j → t'.Occupied q

theorem Prunes.refl (h : t.Shaped pos) : Prunes l t t pos pos fun _ _ => False where
  shaped := h
  keeps := Keeps.refl l pos
  old _ _ _ hq := hq
  frame _ _ _ _ _ _ := rfl
  full _ _ _ _ _ hT := hT.elim

theorem Prunes.trans (h1 : Prunes l t t' pos pos' T) (h2 : Prunes l t' u pos' pos'' T') :
    Prunes l t u pos pos'' fun m j => T m j ∨ T' m j where
  shaped := h2.shaped
  keeps := h1.keeps.trans h2.keeps
  old q m j hq := h1.old q m j (h2.old q m j hq)
  frame q m j hq hT x := by
    rw [not_or] at hT
    rw [h2.frame q m j hq hT.2 x, h1.frame q m j (h2.old q m j hq) hT.1 x]
  full q m j hq hm hT := by
    by_cases hT' : T' m j
    · exact h2.full q m j hq hm hT'
    · have hocc := h1.full q m j (h2.old q m j hq) hm (hT.resolve_right hT')
      exact hocc.congr (h2.frame q m j hq hT')

theorem Prunes.congr (h : Prunes l t t' pos pos' T) (hT : ∀ m j, T m j ↔ T' m j) : Prunes l t t' pos pos' T' where
  shaped := h.shaped
  keeps := h.keeps
  old := h.old
  frame q m j hq hn := h.frame q m j hq fun hc => hn ((hT m j).1 hc)
  full q m j hq hm hT' := h.full q m j hq hm ((hT m j).2 hT')

/-- tables with entries stay such tables -/
theorem Prunes.keeps_full (h : Prunes rootLevel t t' pos pos' T) (hfull : t.Full pos) : t'.Full pos' := by
  intro q m j hq hm
  by_cases hT : T m j
  · exact h.full q m j hq hm hT
  · exact (hfull q m j (h.old q m j hq) hm).congr (h.frame q m j hq hT)

theorem foldl_prunes {f : PageTable → ℕ × ℕ → PageTable} (cs : List (ℕ × ℕ))
    (hstep : ∀ c ∈ cs, ∀ t pos, t.Shaped pos → pos p = some (l, k) →
      ∃ pos', Prunes l t (f t c) pos pos' (Touches c.1 c.2))
    (h : t.Shaped pos) (hp : pos p = some (l, k)) :
    ∃ pos', Prunes l t (cs.foldl f t) pos pos' fun m j => ∃ c ∈ cs, Touches c.1 c.2 m j := by
  induction cs generalizing t pos with
  | nil => exact ⟨pos, (Prunes.refl h).congr fun m j => by simp⟩
  | cons c cs ih =>
    obtain ⟨pos1, h1⟩ := hstep c List.mem_cons_self t pos h hp
    obtain ⟨pos2, h2⟩ := ih (fun d hd => hstep d (List.mem_cons_of_mem c hd)) h1.shaped (h1.keeps p l k le_rfl hp)
    exact ⟨pos2, (h1.trans h2).congr fun m j => by simp⟩

/-- a range touches what its chunks touch -/
theorem touches_chunks (level start stop m j : ℕ) :
    (∃ c ∈ chunks level start stop, Touches c.1 c.2 m j) ↔ Touches start stop m j := by
  constructor
  · intro hx
    rcases hx with ⟨c, hc, b, h1, h2, hb⟩
    obtain ⟨h3, -, h4, -⟩ := chunk_bounds hc
    exact ⟨b, by omega, by omega, hb⟩
  · intro hx
    rcases hx with ⟨b, h1, h2, hb⟩
    obtain ⟨c, hc, h3, h4⟩ := exists_chunk level h1 h2
    exact ⟨c, hc, b, h3, h4, hb⟩

/-- a walk that takes the chunks of a range one by one -/
theorem foldl_chunks_prunes {f : PageTable → ℕ × ℕ → PageTable} {level : ℕ}
    (hstep : ∀ c ∈ chunks level start stop, ∀ t pos, t.Shaped pos → pos p = some (l, k) →
      ∃ pos', Prunes l t (f t c) pos pos' (Touches c.1 c.2))
    (h : t.Shaped pos) (hp : pos p = some (l, k)) :
    ∃ pos', Prunes l t ((chunks level start stop).foldl f t) pos pos' (Touches start stop) := by
  obtain ⟨pos', hprunes⟩ := foldl_prunes _ hstep h hp
  exact ⟨pos', hprunes.congr fun m j => touches_chunks level start stop m j⟩

/-! ## One slot -/

/-- no table lies below a slot that refers to none, and the write changes only the table itself -/
theorem slot_prunes (h : t.Shaped pos) (hp : pos p = some (l, k)) (he : t.entry? p s = some e)
    (hnot : ¬ t.format.IsTable l e) (hne : c.1 < c.2)
    (hc : ∀ b, c.1 ≤ b → b < c.2 → b / levelSize l = k * entriesPerTable + s) (h' : t'.Shaped pos)
    (hframe : ∀ q, q ≠ p → ∀ x, t'.entry? q x = t.entry? q x) : Prunes l t t' pos pos (Touches c.1 c.2) where
  shaped := h'
  keeps := Keeps.refl l pos
  old _ _ _ hq := hq
  frame q m j hq hT := by
    refine hframe q ?_
    rintro rfl
    rw [hp] at hq
    cases hq
    exact hT ⟨c.1, le_rfl, hne, ((block_eq_iff c.1 l k s).1 (hc c.1 le_rfl hne)).1⟩
  full q m j hq hm hT := by
    obtain ⟨b, h1, h2, rfl⟩ := hT
    exact absurd hq (h.not_below hp he hnot (hc b h1 h2) hm)

/-- an entry that refers to no table can be cleared -/
theorem clear_prunes (h : t.Shaped pos) (hp : pos p = some (l, k)) (he : t.entry? p s = some e)
    (hnot : ¬ t.format.IsTable l e) (hne : c.1 < c.2)
    (hc : ∀ b, c.1 ≤ b → b < c.2 → b / levelSize l = k * entriesPerTable + s) :
    Prunes l t (t.setEntry p s 0) pos pos (Touches c.1 c.2) := by
  have h' := shaped_setEntry h hp he hnot (EntryFormat.not_isTable_of_absent (EntryFormat.present_zero _)) (Or.inl rfl)
  refine slot_prunes h hp he hnot hne hc h' fun q hq x => ?_
  rw [h.entry?_setEntry hp, if_neg fun hx => hq hx.1]

/-- the only table one level down that a chunk of one slot touches is the one that the slot refers to -/
theorem eq_child_of_touches (h : t.Placed pos) (hchild : pos child = some (l, k * entriesPerTable + s))
    (hc : ∀ b, c.1 ≤ b → b < c.2 → b / levelSize (l + 1) = k * entriesPerTable + s) (hq : pos q = some (l, j))
    (hT : Touches c.1 c.2 l j) : q = child := by
  obtain ⟨b, h1, h2, rfl⟩ := hT
  rw [hc b h1 h2] at hq
  exact h.inj q child _ hq hchild

/-- the table without entries that a walk left behind is taken back -/
theorem Prunes.unlink (h : Prunes l t t' pos pos' (Touches c.1 c.2)) (hl : Unlinked t' u p s child)
    (hp : pos' p = some (l + 1, k)) (hr : t'.Refers p s child) (hne : c.1 < c.2)
    (hc : ∀ b, c.1 ≤ b → b < c.2 → b / levelSize (l + 1) = k * entriesPerTable + s) :
    Prunes (l + 1) t u pos (fun q => if q = child then none else pos' q) (Touches c.1 c.2) := by
  have hplaced := h.shaped.toPlaced
  have hchild := hplaced.child p l k s child hp hr
  have hat : Touches c.1 c.2 (l + 1) k :=
    ⟨c.1, le_rfl, hne, ((block_eq_iff c.1 (l + 1) k s).1 (hc c.1 le_rfl hne)).1⟩
  refine ⟨hl.shaped h.shaped hp hr, (h.keeps.mono (Nat.le_succ l)).trans (.without hchild), ?_, ?_, ?_⟩
  · intro q m j hq
    split_ifs at hq
    exact h.old q m j hq
  · intro q m j hq hT x
    split_ifs at hq with hqc
    rw [hl.entry? q x hqc, if_neg, h.frame q m j hq hT x]
    rintro ⟨rfl, -⟩
    rw [hp] at hq
    cases hq
    exact hT hat
  · intro q m j hq hm hT
    split_ifs at hq with hqc
    rcases Nat.lt_succ_iff_lt_or_eq.1 hm with hlt | rfl
    · refine (h.full q m j hq hlt hT).congr fun x => ?_
      rw [hl.entry? q x hqc, if_neg]
      rintro ⟨rfl, -⟩
      rw [hp] at hq
      cases hq
      omega
    · exact absurd (eq_child_of_touches hplaced hchild hc hq hT) hqc

/-- A table is taken back if its last entry went with the walk below it; otherwise it has entries. -/
theorem pruneChild_prunes (h : Prunes l t t' pos pos' (Touches c.1 c.2)) (hp : pos' p = some (l + 1, k))
    (hr : t'.Refers p s child) (hne : c.1 < c.2)
    (hc : ∀ b, c.1 ≤ b → b < c.2 → b / levelSize (l + 1) = k * entriesPerTable + s) :
    ∃ pos'', Prunes (l + 1) t (t'.pruneChild p s child) pos pos'' (Touches c.1 c.2) := by
  have hplaced := h.shaped.toPlaced
  have hchild := hplaced.child p l k s child hp hr
  have hroot : child ≠ t'.rootPhys := hplaced.ne_root hchild (hplaced.level_le hp)
  obtain ⟨tb, htb⟩ := hplaced.table hchild
  have hget : t'.nodes.get? child = some tb := by rwa [table?, if_neg hroot] at htb
  simp only [pruneChild, hget]
  split_ifs with hzero
  · exact ⟨_, h.unlink (unlinked_unlink hplaced hp hr hget hzero) hp hr hne hc⟩
  · refine ⟨pos', h.shaped, h.keeps.mono (Nat.le_succ l), h.old, h.frame, ?_⟩
    intro q m j hq hm hT
    rcases Nat.lt_succ_iff_lt_or_eq.1 hm with hlt | rfl
    · exact h.full q m j hq hlt hT
    · rw [eq_child_of_touches hplaced hchild hc hq hT]
      by_contra hempty
      refine hzero (Table.isZero_of_get fun x => ?_)
      by_contra hx
      exact hempty ⟨x, _, entry?_of_table htb x, hx⟩

/-- every address of a chunk has the slot of its first address -/
theorem block_of_chunk (hc : c ∈ chunks l start stop) (hrange : ∀ b, start ≤ b → b < stop → b / levelSize (l + 1) = k) :
    c.1 < c.2 ∧ ∀ b, c.1 ≤ b → b < c.2 → b / levelSize l = k * entriesPerTable + slotOf c.1 l := by
  obtain ⟨h1, hne, h2, hblock⟩ := chunk_bounds hc
  refine ⟨hne, fun b hb1 hb2 => ?_⟩
  rw [hblock b hb1 hb2, ← hrange c.1 h1 (by omega), ← block_of_slot]

/-- A walk over a range leaves no table without entries behind below its own. -/
theorem removeRange_prunes (h : t.Shaped pos) (hp : pos p = some (l, k))
    (hrange : ∀ b, start ≤ b → b < stop → b / levelSize (l + 1) = k) :
    ∃ pos', Prunes l t (removeRange l p start stop t) pos pos' (Touches start stop) := by
  induction l generalizing p k start stop t pos with
  | zero =>
    rw [removeRange]
    refine foldl_chunks_prunes (fun c hc t pos h hp => ?_) h hp
    obtain ⟨e, he⟩ := h.entry hp (slotOf c.1 0)
    obtain ⟨hne, hblock⟩ := block_of_chunk hc hrange
    have hnot : ¬ t.format.IsTable 0 e := fun hx => absurd hx.1 (lt_irrefl 0)
    simp only [he]
    split_ifs
    · exact ⟨pos, clear_prunes h hp he hnot hne hblock⟩
    · exact ⟨pos, slot_prunes h hp he hnot hne hblock h fun _ _ _ => rfl⟩
  | succ l ih =>
    rw [removeRange]
    refine foldl_chunks_prunes (fun c hc t pos h hp => ?_) h hp
    obtain ⟨e, he⟩ := h.entry hp (slotOf c.1 (l + 1))
    obtain ⟨hne, hblock⟩ := block_of_chunk hc hrange
    simp only [he]
    split_ifs with hpresent hlarge
    · have hnot := EntryFormat.not_isTable_of_isLeaf (l := l + 1) ⟨hpresent, Or.inr hlarge⟩
      exact ⟨pos, clear_prunes h hp he hnot hne hblock⟩
    · have hchild := h.child p l k _ _ hp ⟨e, he, hpresent, by simpa using hlarge, rfl⟩
      obtain ⟨pos1, h1⟩ := ih h hchild hblock
      have hp1 := h1.keeps p (l + 1) k (Nat.le_succ l) hp
      have hr1 := h1.shaped.refers_of_place hp1 (h1.keeps _ l _ le_rfl hchild)
      exact pruneChild_prunes h1 hp1 hr1 hne hblock
    · have hnot := EntryFormat.not_isTable_of_absent (l := l + 1) (by simpa using hpresent)
      exact ⟨pos, slot_prunes h hp he hnot hne hblock h fun _ _ _ => rfl⟩

/-- A removal leaves no table without entries behind among those that translate addresses of its range. -/
theorem remove_prunes (h : t.Shaped pos) (vm size : UInt64) :
    ∃ pos', Prunes rootLevel t (t.remove vm size) pos pos'
      (Touches vm.toNat (min (vm.toNat + size.toNat) addressSpaceEnd)) :=
  removeRange_prunes h h.root fun _ _ hb => block_root (lt_of_lt_of_le hb (min_le_right _ _))

end NestedGuest.PageTable
