/-
Insertions only add entries and removals only take entries away, wherever the storage of a page table lies.

`Within t t'` says that each entry in use of `t` is there in `t'` as well, so that `t'` translates what `t` translates,
in the same way (`Within.lookup`). Nothing is asked of the storage: an entry may refer to a table that is not there.

- `insert_within`, `remove_within`: an insertion adds to a page table, a removal takes away from it;
- `lookup_remove`: what a removal is asked to clear is cleared.
-/
import NestedGuest.Proofs.Paging.Exactness

namespace NestedGuest

namespace PageTable

/-- each entry in use of `t` is there in `t'` -/
structure Within (t t' : PageTable) : Prop where
  format : t'.format = t.format
  rootPhys : t'.rootPhys = t.rootPhys
  entries : ∀ q s e, t.entry? q s = some e → t.format.present e = true → t'.entry? q s = some e

variable {t t' u : PageTable} {p child : UInt64} {s : Fin entriesPerTable} {e v : UInt64} {nodes : TableArray}
  {va pa remaining l a : ℕ} {flags : PageFlags} {c : ℕ × ℕ}

theorem Within.refl (t : PageTable) : Within t t := ⟨rfl, rfl, fun _ _ _ he _ => he⟩

theorem Within.trans (h1 : Within t t') (h2 : Within t' u) : Within t u where
  format := h2.format.trans h1.format
  rootPhys := h2.rootPhys.trans h1.rootPhys
  entries q s e he hpresent := h2.entries q s e (h1.entries q s e he hpresent) (h1.format ▸ hpresent)

/-- a descent takes the same way -/
theorem Within.leafAt (h : Within t t') {x : ℕ × UInt64} (hx : t.leafAt a l p = some x) : t'.leafAt a l p = some x := by
  induction l generalizing p with
  | zero =>
    unfold PageTable.leafAt at hx ⊢
    split at hx
    · cases hx
    · rename_i e he
      split_ifs at hx with hpresent
      rw [h.entries _ _ _ he hpresent]
      simp only [h.format, hpresent, if_true, hx]
  | succ l ih =>
    unfold PageTable.leafAt at hx ⊢
    split at hx
    · cases hx
    · rename_i e he
      split_ifs at hx with hpresent hlarge
      · rw [h.entries _ _ _ he hpresent]
        simp only [h.format, hpresent, hlarge, if_true, hx]
      · rw [h.entries _ _ _ he hpresent]
        simp only [h.format, hpresent, hlarge, if_true, if_false, Bool.false_eq_true, ih hx]

theorem Within.refers (h : Within t t') {q : UInt64} (hr : t.Refers q s p) : t'.Refers q s p := by
  obtain ⟨e, he, hpresent, hlarge, hp⟩ := hr
  exact ⟨e, h.entries q s e he hpresent, by rwa [h.format], by rwa [h.format], hp⟩

theorem Within.leafAt_eq_none (h : Within t t') (hnone : t'.leafAt a l p = none) : t.leafAt a l p = none := by
  cases hx : t.leafAt a l p with
  | none => rfl
  | some x =>
    rw [h.leafAt hx] at hnone
    cases hnone

/-- what is translated stays translated, in the same way -/
theorem Within.lookup (h : Within t t') {vm : UInt64} {tr : Translation} (htr : t.lookup vm = some tr) :
    t'.lookup vm = some tr := by
  obtain ⟨l, e, hleaf, rfl⟩ := lookup_eq_some_iff.1 htr
  refine lookup_eq_some_iff.2 ⟨l, e, ?_, translationOf_congr h.format _ _⟩
  unfold leafOf at hleaf ⊢
  split_ifs at hleaf ⊢
  rw [h.rootPhys]
  exact h.leafAt hleaf

/-! ## The changes -/

/-- writing where nothing is in use takes nothing away -/
theorem within_setEntry (habsent : ∀ e, t.entry? p s = some e → t.format.present e = false) :
    Within t (t.setEntry p s v) := by
  refine ⟨setEntry_format .., setEntry_rootPhys .., fun q x e he hpresent => ?_⟩
  rw [entry?_overwrite, if_neg, he]
  rintro ⟨rfl, rfl⟩
  rw [habsent e he] at hpresent
  cases hpresent

/-- clearing an entry adds none -/
theorem setEntry_zero_within (t : PageTable) (p : UInt64) (s : Fin entriesPerTable) : Within (t.setEntry p s 0) t := by
  refine ⟨(setEntry_format ..).symm, (setEntry_rootPhys ..).symm, fun q x e he hpresent => ?_⟩
  rw [entry?_overwrite] at he
  split_ifs at he
  · obtain ⟨-, -, rfl⟩ := Option.map_eq_some_iff.1 he
    rw [EntryFormat.present_zero] at hpresent
    cases hpresent
  · exact he

theorem table?_of_alloc? (h : t.nodes.alloc? = some (child, nodes)) {tb : Table} (hp : t.table? p = some tb) :
    PageTable.table? { t with nodes } p = some tb := by
  unfold table? at hp ⊢
  split_ifs at hp ⊢
  · exact hp
  · exact TableArray.get?_of_alloc? h hp

theorem table?_of_free? {tb : Table}
    (hp : PageTable.table? { t with nodes := (t.nodes.free? child).getD t.nodes } p = some tb) :
    t.table? p = some tb := by
  unfold table? at hp ⊢
  split_ifs at hp ⊢
  · exact hp
  · exact TableArray.get?_of_free? hp

theorem table?_free?_of_ne {q : UInt64} (hq : q ≠ child) {tb : Table} (htb : t.table? q = some tb) :
    PageTable.table? { t with nodes := (t.nodes.free? child).getD t.nodes } q = some tb := by
  unfold table? at htb ⊢
  split_ifs at htb ⊢
  · exact htb
  · exact TableArray.get?_free?_of_ne hq htb

theorem within_alloc (h : t.nodes.alloc? = some (child, nodes)) : Within t { t with nodes } := by
  refine ⟨rfl, rfl, fun q x e he _ => ?_⟩
  obtain ⟨tb, htb, rfl⟩ := Option.map_eq_some_iff.1 he
  exact entry?_of_table (table?_of_alloc? h htb) x

/-- a slot without an entry in use is made to refer to a table that is handed out -/
theorem within_link (h : t.nodes.alloc? = some (child, nodes)) (he : t.entry? p s = some e)
    (habsent : t.format.present e = false) : Within t (t.link nodes p s child) := by
  refine (within_alloc h).trans (within_setEntry fun d hd => ?_)
  obtain ⟨tb, htb, rfl⟩ := Option.map_eq_some_iff.1 he
  rw [entry?_of_table (table?_of_alloc? h htb) s] at hd
  cases hd
  exact habsent

theorem free_within (t : PageTable) (child : UInt64) :
    Within { t with nodes := (t.nodes.free? child).getD t.nodes } t := by
  refine ⟨rfl, rfl, fun q x e he _ => ?_⟩
  obtain ⟨tb, htb, rfl⟩ := Option.map_eq_some_iff.1 he
  exact entry?_of_table (table?_of_free? htb) x

theorem unlink_within (t : PageTable) (p : UInt64) (s : Fin entriesPerTable) (child : UInt64) :
    Within (t.unlink p s child) t :=
  (free_within _ child).trans (setEntry_zero_within t p s)

/-- a table below the root is taken back, or nothing changes -/
theorem pruneChild_cases (t : PageTable) (p : UInt64) (s : Fin entriesPerTable) (child : UInt64) :
    t.pruneChild p s child = t ∨ (t.nodes.get? child).isSome ∧ t.pruneChild p s child = t.unlink p s child := by
  unfold pruneChild
  split
  · exact Or.inl rfl
  · rename_i tb htb
    split_ifs
    · exact Or.inr ⟨by rw [htb]; rfl, rfl⟩
    · exact Or.inl rfl

theorem pruneChild_within (t : PageTable) (p : UInt64) (s : Fin entriesPerTable) (child : UInt64) :
    Within (t.pruneChild p s child) t := by
  rcases pruneChild_cases t p s child with heq | ⟨-, heq⟩
  · rw [heq]
    exact .refl t
  · rw [heq]
    exact unlink_within t p s child

/-! ## Insertions -/

theorem insertLeaf_within (va pa remaining : ℕ) (flags : PageFlags) (l : ℕ) (p : UInt64) (t : PageTable) :
    Within t (insertLeaf va pa remaining flags l p t).1 := by
  have hput {l : ℕ} {e v : UInt64} {t : PageTable} {p : UInt64} (he : t.entry? p (slotOf va l) = some e)
      (hpresent : ¬ t.format.present e = true) : Within t (t.setEntry p (slotOf va l) v) := by
    refine within_setEntry fun d hd => ?_
    obtain rfl := Option.some.inj (he.symm.trans hd)
    simpa using hpresent
  induction l generalizing p t with
  | zero =>
    unfold insertLeaf
    split
    · exact .refl t
    · rename_i e he
      split_ifs with hpresent
      · exact .refl t
      · exact hput he hpresent
  | succ l ih =>
    unfold insertLeaf
    split
    · exact .refl t
    · rename_i e he
      split_ifs with hpresent
      · exact .refl t
      · exact ih _ t
      · exact hput he hpresent
      · split
        · exact .refl t
        · rename_i child nodes halloc
          exact (within_link halloc he (by simpa using hpresent)).trans (ih child _)

theorem insertLeaves_within (va pa remaining : ℕ) (flags : PageFlags) (t : PageTable) :
    Within t (insertLeaves va pa remaining flags t).1 := by
  induction remaining using Nat.strong_induction_on generalizing va pa t with
  | _ remaining ih =>
    have hone := insertLeaf_within va pa remaining flags rootLevel t.rootPhys t
    rw [insertLeaves]
    split_ifs with hzero
    · exact .refl t
    · split
      · rename_i u err hleaf
        rwa [hleaf] at hone
      · rename_i u hleaf
        rwa [hleaf] at hone
      · rename_i u c hleaf
        rw [hleaf] at hone
        exact hone.trans (ih (remaining - (c + 1)) (by omega) _ _ u)

theorem insert_within (t : PageTable) (vm phys size : UInt64) (flags : PageFlags) :
    Within t (t.insert vm phys size flags).1 := by
  unfold insert
  split_ifs
  · exact insertLeaves_within _ _ _ _ t
  · exact .refl t

/-! ## Removals -/

/-- a walk that takes entries away at each step takes entries away -/
theorem foldl_within {ι : Type} {f : PageTable → ι → PageTable} (hstep : ∀ t c, Within (f t c) t) (cs : List ι)
    (t : PageTable) : Within (cs.foldl f t) t :=
  List.foldlRecOn (motive := fun u : PageTable => Within u t) cs f (.refl t) fun u hu c _ => (hstep u c).trans hu

/-- what a removal does to the slot that a chunk of its range lies in -/
def removeChunk : (level : ℕ) → (node : UInt64) → PageTable → ℕ × ℕ → PageTable
  | 0, p, t, c =>
    match t.entry? p (slotOf c.1 0) with
    | none => t
    | some entry => if t.format.present entry then t.setEntry p (slotOf c.1 0) 0 else t
  | l + 1, p, t, c =>
    match t.entry? p (slotOf c.1 (l + 1)) with
    | none => t
    | some entry =>
      if t.format.present entry then
        if t.format.large entry then t.setEntry p (slotOf c.1 (l + 1)) 0
        else (removeRange l (entryAddress entry) c.1 c.2 t).pruneChild p (slotOf c.1 (l + 1)) (entryAddress entry)
      else t

theorem removeRange_eq (l : ℕ) (p : UInt64) (start stop : ℕ) (t : PageTable) :
    removeRange l p start stop t = (chunks l start stop).foldl (removeChunk l p) t := by
  cases l <;> rfl

/-- a step of a walk takes entries away if the walks below it do -/
theorem removeChunk_within_of (hbelow : ∀ m < l, ∀ p start stop t, Within (removeRange m p start stop t) t) (p : UInt64)
    (t : PageTable) (c : ℕ × ℕ) : Within (removeChunk l p t c) t := by
  cases l with
  | zero =>
    rw [removeChunk]
    split
    · exact .refl t
    · split_ifs
      · exact setEntry_zero_within t _ _
      · exact .refl t
  | succ l =>
    rw [removeChunk]
    split
    · exact .refl t
    · split_ifs
      · exact setEntry_zero_within t _ _
      · exact (pruneChild_within _ _ _ _).trans (hbelow l (Nat.lt_succ_self l) _ _ _ t)
      · exact .refl t

theorem removeRange_within (l : ℕ) (p : UInt64) (start stop : ℕ) (t : PageTable) :
    Within (removeRange l p start stop t) t := by
  induction l using Nat.strong_induction_on generalizing p start stop t with
  | _ l ih =>
    rw [removeRange_eq]
    exact foldl_within (removeChunk_within_of ih p) _ t

theorem removeChunk_within (l : ℕ) (p : UInt64) (t : PageTable) (c : ℕ × ℕ) : Within (removeChunk l p t c) t :=
  removeChunk_within_of (fun m _ => removeRange_within m) p t c

theorem remove_within (t : PageTable) (vm size : UInt64) : Within (t.remove vm size) t :=
  removeRange_within _ _ _ _ t

/-- no leaf is left in a slot that is cleared -/
theorem leafAt_setEntry_zero (t : PageTable) (p : UInt64) (a l : ℕ) :
    (t.setEntry p (slotOf a l) 0).leafAt a l p = none := by
  have hentry := entry?_overwrite t p p (slotOf a l) (slotOf a l) 0
  rw [if_pos ⟨rfl, rfl⟩] at hentry
  cases he : t.entry? p (slotOf a l) with
  | none =>
    rw [he, Option.map_none] at hentry
    exact leafAt_of_none hentry
  | some e =>
    rw [he, Option.map_some] at hentry
    exact leafAt_of_absent hentry (EntryFormat.present_zero _)

/-- the chunk of an address clears it, and no later one brings it back -/
theorem leafAt_foldl {f : PageTable → ℕ × ℕ → PageTable} (hwithin : ∀ t c, Within (f t c) t) {cs : List (ℕ × ℕ)}
    (hc : c ∈ cs) (hclear : ∀ t, (f t c).leafAt a l p = none) (t : PageTable) : (cs.foldl f t).leafAt a l p = none := by
  obtain ⟨before, behind, rfl⟩ := List.append_of_mem hc
  rw [List.foldl_append, List.foldl_cons]
  exact (foldl_within hwithin behind _).leafAt_eq_none (hclear _)

/-- a walk leaves no leaf for an address of its range below the table where it starts -/
theorem leafAt_removeRange (l : ℕ) (p : UInt64) {start stop : ℕ} (h1 : start ≤ a) (h2 : a < stop) (t : PageTable) :
    (removeRange l p start stop t).leafAt a l p = none := by
  induction l generalizing p start stop t with
  | zero =>
    obtain ⟨c, hc, hc1, hc2⟩ := exists_chunk 0 h1 h2
    have hslot : slotOf c.1 0 = slotOf a 0 := slotOf_congr ((chunk_bounds hc).2.2.2 a hc1 hc2).symm
    rw [removeRange_eq]
    refine leafAt_foldl (removeChunk_within 0 p) hc (fun t => ?_) t
    rw [removeChunk, hslot]
    split
    · rename_i he
      exact leafAt_of_none he
    · rename_i e he
      split_ifs with hpresent
      · exact leafAt_setEntry_zero t p a 0
      · exact leafAt_of_absent he (by simpa using hpresent)
  | succ l ih =>
    obtain ⟨c, hc, hc1, hc2⟩ := exists_chunk (l + 1) h1 h2
    have hslot : slotOf c.1 (l + 1) = slotOf a (l + 1) := slotOf_congr ((chunk_bounds hc).2.2.2 a hc1 hc2).symm
    rw [removeRange_eq]
    refine leafAt_foldl (removeChunk_within (l + 1) p) hc (fun t => ?_) t
    rw [removeChunk, hslot]
    split
    · rename_i he
      exact leafAt_of_none he
    · rename_i e he
      split_ifs with hpresent hlarge
      · exact leafAt_setEntry_zero t p a (l + 1)
      · -- what is left of the entry refers to the table that was cleared
        have hprune := pruneChild_within (removeRange l (entryAddress e) c.1 c.2 t) p (slotOf a (l + 1)) (entryAddress e)
        refine hprune.leafAt_eq_none ?_
        have hbelow := removeRange_within l (entryAddress e) c.1 c.2 t
        cases hd : PageTable.entry? (removeRange l (entryAddress e) c.1 c.2 t) p (slotOf a (l + 1)) with
        | none => exact leafAt_of_none hd
        | some d =>
          by_cases hin : (removeRange l (entryAddress e) c.1 c.2 t).format.present d = true
          · obtain rfl := Option.some.inj ((hbelow.entries _ _ _ hd hin).symm.trans he)
            rw [leafAt_of_refers ⟨d, hd, hin, by rw [← hbelow.format]; simpa using hlarge, rfl⟩]
            exact ih _ hc1 hc2 t
          · exact leafAt_of_absent hd (by simpa using hin)
      · exact leafAt_of_absent he (by simpa using hpresent)

/-- Nothing is translated in the range of a removal, as far as it lies in the address space. -/
theorem lookup_remove (t : PageTable) {vm size a : UInt64} (hlow : vm.toNat ≤ a.toNat)
    (hhigh : a.toNat < vm.toNat + size.toNat) : (t.remove vm size).lookup a = none := by
  rw [lookup_eq_none_iff, leafOf]
  split_ifs with ha
  · rw [← (remove_within t vm size).rootPhys]
    exact leafAt_removeRange rootLevel t.rootPhys hlow (lt_min hhigh ha) t
  · rfl

end PageTable
end NestedGuest
