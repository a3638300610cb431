/-
What a removal does to the translations.

`Removes t t' cut` says that exactly the leaves marked by `cut` are gone and all others are as they were. A removal walks
the chunks of its range; each chunk clears the leaves that meet it (`clearChunk_removes` for one slot), and the chunks
of a range together clear those that meet the range. Tables that became empty are taken back on the way, which changes
no translation; tables at the level of the walk and above it stay where they are (`Keeps`).
-/
import NestedGuest.Proofs.Paging.Edits

namespace NestedGuest.PageTable

/-- exactly the leaves marked by `cut`, by their level and an address, are gone -/
structure Removes (t t' : PageTable) (cut : ℕ → ℕ → Bool) : Prop where
  same : SameStorage t t'
  leafOf : ∀ a, t'.leafOf a = (t.leafOf a).filter fun x => !cut x.1 a

/-- tables at level `l` and above stay where they are -/
def Keeps (l : ℕ) (pos pos' : UInt64 → Option (ℕ × ℕ)) : Prop :=
  ∀ q m j, l ≤ m → pos q = some (m, j) → pos' q = some (m, j)

variable {t t' u : PageTable} {pos pos' : UInt64 → Option (ℕ × ℕ)} {p : UInt64} {s : Fin entriesPerTable}
  {l k start stop : ℕ} {e : UInt64} {cut cut' : ℕ → ℕ → Bool} {c : ℕ × ℕ}

/-! ## Putting parts together -/

theorem Removes.refl (t : PageTable) : Removes t t fun _ _ => false :=
  ⟨SameStorage.refl t, fun a => by cases t.leafOf a <;> rfl⟩

theorem Removes.trans (h1 : Removes t t' cut) (h2 : Removes t' u cut') :
    Removes t u fun m a => cut m a || cut' m a := by
  refine ⟨h1.same.trans h2.same, fun a => ?_⟩
  rw [h2.leafOf a, h1.leafOf a, Option.filter_filter]
  congr 1
  funext x
  rw [Bool.not_or]

/-- a change that no leaf notices may be counted to a removal -/
theorem Removes.congr (h : Removes t t' cut) (hsame : SameStorage t' u) (hleaf : ∀ a, u.leafOf a = t'.leafOf a) :
    Removes t u cut :=
  ⟨h.same.trans hsame, fun a => by rw [hleaf a, h.leafOf a]⟩

/-- nothing is removed if no leaf is marked -/
theorem Removes.of_unmarked (h : ∀ a m x, t.leafOf a = some (m, x) → cut m a = false) : Removes t t cut := by
  refine ⟨SameStorage.refl t, fun a => ?_⟩
  cases hleaf : t.leafOf a with
  | none => rfl
  | some x => rw [Option.filter_some, h a x.1 x.2 hleaf]; rfl

theorem Keeps.refl (l : ℕ) (pos : UInt64 → Option (ℕ × ℕ)) : Keeps l pos pos := fun _ _ _ _ hq => hq

theorem Keeps.trans {pos'' : UInt64 → Option (ℕ × ℕ)} (h1 : Keeps l pos pos') (h2 : Keeps l pos' pos'') :
    Keeps l pos pos'' :=
  fun q m j hm hq => h2 q m j hm (h1 q m j hm hq)

theorem Keeps.mono {m : ℕ} (h : Keeps l pos pos') (hm : l ≤ m) : Keeps m pos pos' :=
  fun q n j hn hq => h q n j (hm.trans hn) hq

/-- a table at level `l` goes, and those above it stay -/
theorem Keeps.without {child : UInt64} (hchild : pos child = some (l, k)) :
    Keeps (l + 1) pos fun q => if q = child then none else pos q := by
  intro q m j hm hq
  beta_reduce
  rw [if_neg]
  · exact hq
  · intro heq
    subst heq
    rw [hchild] at hq
    cases hq
    omega

/-- Walking over chunks clears the leaves that meet one of them, if each single chunk clears those that meet it. -/
theorem foldl_removes {f : PageTable → ℕ × ℕ → PageTable} (cs : List (ℕ × ℕ))
    (hstep : ∀ c ∈ cs, ∀ t pos, t.Placed pos → pos p = some (l, k) →
      ∃ pos', (f t c).Placed pos' ∧ Keeps l pos pos' ∧ Removes t (f t c) fun m a => meets m a c.1 c.2)
    (h : t.Placed pos) (hp : pos p = some (l, k)) :
    ∃ pos', (cs.foldl f t).Placed pos' ∧ Keeps l pos pos' ∧
      Removes t (cs.foldl f t) fun m a => cs.any fun c => meets m a c.1 c.2 := by
  induction cs generalizing t pos with
  | nil => exact ⟨pos, h, Keeps.refl l pos, Removes.refl t⟩
  | cons c cs ih =>
    obtain ⟨pos1, h1, hkeep1, hrem1⟩ := hstep c List.mem_cons_self t pos h hp
    obtain ⟨pos2, h2, hkeep2, hrem2⟩ :=
      ih (fun d hd => hstep d (List.mem_cons_of_mem c hd)) h1 (hkeep1 p l k le_rfl hp)
    exact ⟨pos2, h2, hkeep1.trans hkeep2, hrem1.trans hrem2⟩

/-! ## One slot -/

/-- a leaf that meets a chunk of some block translates an address of that block -/
theorem leaf_in_block_of_meets (h : t.Placed pos) {a m : ℕ} {x : UInt64} (hleaf : t.leafOf a = some (m, x))
    (hc : ∀ b, c.1 ≤ b → b < c.2 → b / levelSize l = k * entriesPerTable + s) (hm : meets m a c.1 c.2 = true) :
    ∃ b, b / levelSize l = k * entriesPerTable + s ∧ b / levelSize m = a / levelSize m ∧ t.leafOf b = some (m, x) := by
  obtain ⟨b, h1, h2, hb⟩ := meets_iff.1 hm
  exact ⟨b, hc b h1 h2, hb, leafOf_congr h hleaf hb⟩

/-- there is nothing to clear below an absent entry -/
theorem absent_removes (h : t.Placed pos) (hp : pos p = some (l, k)) (he : t.entry? p s = some e)
    (habsent : t.format.present e = false)
    (hc : ∀ b, c.1 ≤ b → b < c.2 → b / levelSize l = k * entriesPerTable + s) :
    Removes t t fun m a => meets m a c.1 c.2 := by
  refine .of_unmarked fun a m x hleaf => ?_
  rw [Bool.eq_false_iff]
  intro hm
  obtain ⟨b, hb, -, hleafb⟩ := leaf_in_block_of_meets h hleaf hc hm
  rw [leafOf_of_absent h hp he habsent hb] at hleafb
  cases hleafb

/-- a leaf goes as a whole with any chunk of its block -/
theorem clearLeaf_removes (h : t.Placed pos) (hp : pos p = some (l, k)) (he : t.entry? p s = some e)
    (hleaf : t.format.IsLeaf l e) (hne : c.1 < c.2) (hlt : c.2 ≤ addressSpaceEnd)
    (hc : ∀ b, c.1 ≤ b → b < c.2 → b / levelSize l = k * entriesPerTable + s) :
    (t.setEntry p s 0).Placed pos ∧ Removes t (t.setEntry p s 0) fun m a => meets m a c.1 c.2 := by
  have hzero := EntryFormat.present_zero t.format
  obtain ⟨h', hsame⟩ := placed_setEntry h hp he (EntryFormat.not_isTable_of_isLeaf hleaf)
    (EntryFormat.not_isTable_of_absent hzero)
  have hfirst : c.1 / levelSize l = k * entriesPerTable + s := hc c.1 le_rfl hne
  have hat : ∀ b, b / levelSize l = k * entriesPerTable + s → t.leafOf b = some (l, e) := by
    intro b hb
    have hblt := lt_addressSpaceEnd_of_block (h.level_le hp) (hfirst.trans hb.symm) (by omega)
    obtain ⟨rfl, rfl⟩ := (block_eq_iff b l k s).1 hb
    exact (leafOf_eq_some_iff h).2 ⟨hblt, p, hp, he, hleaf⟩
  refine ⟨h', hsame, fun a => ?_⟩
  by_cases ha : a / levelSize l = k * entriesPerTable + s
  · have hgone : (t.setEntry p s 0).leafOf a = none := by
      refine leafOf_of_absent h' hp ?_ (by rw [hsame.format]; exact hzero) ha
      rw [h.entry?_setEntry hp, if_pos ⟨rfl, rfl⟩]
    have hm : meets l a c.1 c.2 = true := meets_iff.2 ⟨c.1, le_rfl, hne, hfirst.trans ha.symm⟩
    rw [hgone, hat a ha, Option.filter_some, hm]
    rfl
  · rw [leafOf_setEntry_of_ne h h' hp hsame.format ha]
    cases hx : t.leafOf a with
    | none => rfl
    | some x =>
      rw [Option.filter_some, if_pos]
      rw [Bool.not_eq_true', Bool.eq_false_iff]
      intro hm
      obtain ⟨b, hb, hba, hleafb⟩ := leaf_in_block_of_meets h hx hc hm
      rw [hat b hb] at hleafb
      obtain ⟨rfl, -⟩ := Prod.mk.inj (Option.some.inj hleafb)
      exact ha (hba.symm.trans hb)

/-- taking back an empty table changes no translation -/
theorem placed_pruneChild (h : t.Placed pos) (hp : pos p = some (l + 1, k)) {child : UInt64}
    (hr : t.Refers p s child) :
    ∃ pos', (t.pruneChild p s child).Placed pos' ∧ Keeps (l + 1) pos pos' ∧
      SameStorage t (t.pruneChild p s child) ∧ ∀ a, (t.pruneChild p s child).leafOf a = t.leafOf a := by
  have hplace := h.child p l k s child hp hr
  unfold pruneChild
  split
  · exact ⟨pos, h, Keeps.refl _ pos, SameStorage.refl t, fun _ => rfl⟩
  · rename_i tb htb
    split_ifs with hzero
    · have hl := unlinked_unlink h hp hr htb hzero
      exact ⟨_, hl.placed h hp hr, .without hplace, hl.same, hl.leafOf h hp hr⟩
    · exact ⟨pos, h, Keeps.refl _ pos, SameStorage.refl t, fun _ => rfl⟩

/-! ## A whole range -/

/-- A walk over a range below one table clears exactly the leaves that meet the range. -/
theorem removeRange_removes (h : t.Placed pos) (hp : pos p = some (l, k)) (hlt : stop ≤ addressSpaceEnd)
    (hrange : ∀ b, start ≤ b → b < stop → b / levelSize (l + 1) = k) :
    ∃ pos', (removeRange l p start stop t).Placed pos' ∧ Keeps l pos pos' ∧
      Removes t (removeRange l p start stop t) fun m a => meets m a start stop := by
  induction l generalizing p k start stop t pos with
  | zero =>
    rw [removeRange]
    simp only [← any_chunks_meets 0 _ _ start stop]
    refine foldl_removes _ (fun c hc t pos h hp => ?_) h hp
    obtain ⟨h1, hne, h2, hblock⟩ := chunk_bounds hc
    obtain ⟨e, he⟩ := h.entry hp (slotOf c.1 0)
    have hc' : ∀ b, c.1 ≤ b → b < c.2 → b / levelSize 0 = k * entriesPerTable + slotOf c.1 0 := by
      intro b hb1 hb2
      rw [hblock b hb1 hb2, ← hrange c.1 h1 (by omega), ← block_of_slot]
    simp only [he]
    split_ifs with hpresent
    · obtain ⟨h', hrem⟩ := clearLeaf_removes h hp he ⟨hpresent, Or.inl rfl⟩ hne (by omega) hc'
      exact ⟨pos, h', Keeps.refl 0 pos, hrem⟩
    · exact ⟨pos, h, Keeps.refl 0 pos, absent_removes h hp he (by simpa using hpresent) hc'⟩
  | succ l ih =>
    rw [removeRange]
    simp only [← any_chunks_meets (l + 1) _ _ start stop]
    refine foldl_removes _ (fun c hc t pos h hp => ?_) h hp
    obtain ⟨h1, hne, h2, hblock⟩ := chunk_bounds hc
    obtain ⟨e, he⟩ := h.entry hp (slotOf c.1 (l + 1))
    have hc' : ∀ b, c.1 ≤ b → b < c.2 →
        b / levelSize (l + 1) = k * entriesPerTable + slotOf c.1 (l + 1) := by
      intro b hb1 hb2
      rw [hblock b hb1 hb2, ← hrange c.1 h1 (by omega), ← block_of_slot]
    simp only [he]
    split_ifs with hpresent hlarge
    · obtain ⟨h', hrem⟩ := clearLeaf_removes h hp he ⟨hpresent, Or.inr hlarge⟩ hne (by omega) hc'
      exact ⟨pos, h', Keeps.refl _ pos, hrem⟩
    · have hchild := h.child p l k _ _ hp ⟨e, he, hpresent, by simpa using hlarge, rfl⟩
      obtain ⟨pos1, h1, hkeep1, hrem1⟩ := ih h hchild (by omega) hc'
      have hp1 := hkeep1 p (l + 1) k (Nat.le_succ l) hp
      have hr1 := h1.refers_of_place hp1 (hkeep1 _ l _ le_rfl hchild)
      obtain ⟨pos2, h2, hkeep2, hsame2, hleaf2⟩ := placed_pruneChild h1 hp1 hr1
      exact ⟨pos2, h2, (hkeep1.mono (Nat.le_succ l)).trans hkeep2, hrem1.congr hsame2 hleaf2⟩
    · exact ⟨pos, h, Keeps.refl _ pos, absent_removes h hp he (by simpa using hpresent) hc'⟩

/-- A removal clears exactly the leaves that meet its range, as far as that lies in the address space. -/
theorem remove_removes (h : t.Sound) (vm size : UInt64) :
    (t.remove vm size).Sound ∧ Removes t (t.remove vm size) fun m a =>
      meets m a vm.toNat (min (vm.toNat + size.toNat) addressSpaceEnd) := by
  obtain ⟨pos, hplaced⟩ := h
  have hrange : ∀ b, vm.toNat ≤ b → b < min (vm.toNat + size.toNat) addressSpaceEnd →
      b / levelSize (rootLevel + 1) = 0 := fun b _ hb => block_root (lt_of_lt_of_le hb (min_le_right _ _))
  obtain ⟨pos', h', -, hrem⟩ := removeRange_removes hplaced hplaced.root (min_le_right _ _) hrange
  exact ⟨⟨pos', h'⟩, hrem⟩

end NestedGuest.PageTable
