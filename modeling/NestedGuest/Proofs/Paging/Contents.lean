/-
What a page table ever holds.

`Stores t f Q` says that `t` has the format `f` and that every entry of every table that was made satisfies `Q`,
whether it is in use or not. Insertions write references and leaves, removals write 0, and a table handed out is
zeroed, so a property of these (`Writes`) is one of all entries. Nothing is asked of the storage: where a reference
leads does not matter.

- `Stores.insert`, `Stores.remove`: insertions and removals keep it;
- `Stores.lookup`: a translation is read from such an entry.
-/
import NestedGuest.Proofs.Paging.Exactness

namespace NestedGuest.PageTable

/-- what is written into tables of the format `f` for requests with these attributes satisfies `Q` -/
structure Writes (f : EntryFormat) (flags : PageFlags) (Q : UInt64 → Prop) : Prop where
  zero : Q 0
  table : ∀ p, Q (f.table p)
  leaf : ∀ p isLarge, Q (f.leaf p flags isLarge)

/-- every entry of every table satisfies `Q` -/
structure Stores (t : PageTable) (f : EntryFormat) (Q : UInt64 → Prop) : Prop where
  format : t.format = f
  root : ∀ s, Q (t.root.get s)
  nodes : ∀ (i : ℕ) tb, t.nodes.contents? i = some tb → ∀ s, Q (tb.get s)

variable {t : PageTable} {f : EntryFormat} {Q : UInt64 → Prop} {flags : PageFlags} {p child : UInt64}
  {s : Fin entriesPerTable} {e v : UInt64} {nodes : TableArray} {va pa remaining l a : ℕ}

theorem Stores.entry (h : t.Stores f Q) (he : t.entry? p s = some e) : Q e := by
  obtain ⟨tb, htb, rfl⟩ := Option.map_eq_some_iff.1 he
  unfold table? at htb
  split_ifs at htb
  · cases htb
    exact h.root s
  · obtain ⟨i, -, hi⟩ := Option.bind_eq_some_iff.1 htb
    exact h.nodes i tb hi s

/-- new tables hold nothing but zeros -/
theorem stores_withCapacity (hzero : Q 0) (base : UInt64) (capacity : ℕ) :
    (withCapacity f base capacity).Stores f Q where
  format := rfl
  root s := by
    rw [withCapacity, Table.get_zeroed]
    exact hzero
  nodes i tb htb s := by
    simp only [withCapacity, TableArray.new, TableArray.contents?, Array.getElem?_replicate] at htb
    split_ifs at htb <;> cases htb

/-! ## The changes -/

theorem Stores.setEntry (h : t.Stores f Q) (hv : Q v) : (t.setEntry p s v).Stores f Q := by
  have hset : ∀ tb : Table, (∀ x, Q (tb.get x)) → ∀ x, Q ((tb.set s v s.isLt).get x) := by
    intro tb htb x
    rw [Table.get_set]
    split_ifs
    · exact hv
    · exact htb x
  unfold PageTable.setEntry
  split_ifs
  · exact ⟨h.format, hset _ h.root, h.nodes⟩
  · refine ⟨h.format, h.root, fun i tb htb => ?_⟩
    rcases TableArray.set?_cases t.nodes p s v with hsame | ⟨j, old, hold, hput⟩
    · rw [hsame] at htb
      exact h.nodes i tb htb
    · rw [hput] at htb
      by_cases hji : j = i
      · subst hji
        rw [TableArray.contents?_put_self (TableArray.lt_of_contents? hold)] at htb
        cases htb
        exact hset old (h.nodes j old hold)
      · rw [TableArray.contents?_put_of_ne hji] at htb
        exact h.nodes i tb htb

/-- a table handed out is zeroed -/
theorem Stores.alloc (h : t.Stores f Q) (hzero : Q 0) (halloc : t.nodes.alloc? = some (child, nodes)) :
    Stores { t with nodes } f Q := by
  refine ⟨h.format, h.root, fun i tb htb => ?_⟩
  obtain ⟨j, -, -, -, rfl, -⟩ := TableArray.alloc?_eq_some halloc
  by_cases hji : j = i
  · subst hji
    have hlt : j < t.nodes.tables.size := by
      rw [← TableArray.size_take t.nodes j]
      exact TableArray.lt_of_contents? htb
    rw [TableArray.contents?_take_self hlt] at htb
    cases htb
    intro s
    rw [Table.get_zeroed]
    exact hzero
  · rw [TableArray.contents?_take_of_ne hji] at htb
    exact h.nodes i tb htb

/-- a table taken back keeps its contents -/
theorem Stores.free (h : t.Stores f Q) (child : UInt64) :
    Stores { t with nodes := (t.nodes.free? child).getD t.nodes } f Q := by
  refine ⟨h.format, h.root, fun i tb htb => h.nodes i tb ?_⟩
  cases hfree : t.nodes.free? child with
  | none => simpa [hfree] using htb
  | some nodes =>
    obtain ⟨j, -, hj⟩ := Option.bind_eq_some_iff.1 hfree
    obtain ⟨used, -, rfl⟩ := Option.map_eq_some_iff.1 hj
    rw [hfree] at htb
    exact htb

/-! ## Requests -/

theorem Stores.insertLeaf (h : t.Stores f Q) (hw : Writes f flags Q) :
    (insertLeaf va pa remaining flags l p t).1.Stores f Q := by
  induction l generalizing p t with
  | zero =>
    unfold PageTable.insertLeaf
    split
    · exact h
    · split_ifs
      · exact h
      · rw [h.format]
        exact h.setEntry (hw.leaf _ _)
  | succ l ih =>
    unfold PageTable.insertLeaf
    split
    · exact h
    · split_ifs
      · exact h
      · exact ih h
      · rw [h.format]
        exact h.setEntry (hw.leaf _ _)
      · split
        · exact h
        · rename_i child nodes halloc
          have htable : Q (t.format.table child) := by
            rw [h.format]
            exact hw.table child
          exact ih ((h.alloc hw.zero halloc).setEntry htable)

theorem Stores.insertLeaves (h : t.Stores f Q) (hw : Writes f flags Q) :
    (insertLeaves va pa remaining flags t).1.Stores f Q := by
  induction remaining using Nat.strong_induction_on generalizing va pa t with
  | _ remaining ih =>
    have hone : (PageTable.insertLeaf va pa remaining flags rootLevel t.rootPhys t).1.Stores f Q := h.insertLeaf hw
    rw [PageTable.insertLeaves]
    split_ifs with hzero
    · exact h
    · split
      · rename_i u err hleaf
        rwa [hleaf] at hone
      · rename_i u hleaf
        rwa [hleaf] at hone
      · rename_i u c hleaf
        rw [hleaf] at hone
        exact ih (remaining - (c + 1)) (by omega) hone

theorem Stores.insert (h : t.Stores f Q) (hw : Writes f flags Q) (vm phys size : UInt64) :
    (t.insert vm phys size flags).1.Stores f Q := by
  unfold PageTable.insert
  split_ifs
  · exact h.insertLeaves hw
  · exact h

theorem Stores.pruneChild (h : t.Stores f Q) (hzero : Q 0) : (t.pruneChild p s child).Stores f Q := by
  unfold PageTable.pruneChild
  split
  · exact h
  · split_ifs
    · exact (h.setEntry hzero).free child
    · exact h

theorem Stores.removeRange (h : t.Stores f Q) (hzero : Q 0) (start stop : ℕ) :
    (removeRange l p start stop t).Stores f Q := by
  induction l generalizing p start stop t with
  | zero =>
    rw [PageTable.removeRange]
    refine List.foldlRecOn (motive := fun t : PageTable => t.Stores f Q) _ _ h fun t h c _ => ?_
    split
    · exact h
    · split_ifs
      · exact h.setEntry hzero
      · exact h
  | succ l ih =>
    rw [PageTable.removeRange]
    refine List.foldlRecOn (motive := fun t : PageTable => t.Stores f Q) _ _ h fun t h c _ => ?_
    split
    · exact h
    · split_ifs
      · exact h.setEntry hzero
      · exact (ih h c.1 c.2).pruneChild hzero
      · exact h

theorem Stores.remove (h : t.Stores f Q) (hzero : Q 0) (vm size : UInt64) : (t.remove vm size).Stores f Q :=
  h.removeRange hzero _ _

/-! ## Lookups -/

/-- a descent ends at an entry that is present -/
theorem Stores.leafAt (h : t.Stores f Q) {x : ℕ × UInt64} (hx : t.leafAt a l p = some x) :
    Q x.2 ∧ f.present x.2 = true := by
  induction l generalizing p with
  | zero =>
    unfold PageTable.leafAt at hx
    split at hx
    · cases hx
    · rename_i e he
      split_ifs at hx with hpresent
      cases hx
      exact ⟨h.entry he, h.format ▸ hpresent⟩
  | succ l ih =>
    unfold PageTable.leafAt at hx
    split at hx
    · cases hx
    · rename_i e he
      split_ifs at hx with hpresent hlarge
      · cases hx
        exact ⟨h.entry he, h.format ▸ hpresent⟩
      · exact ih hx

/-- what a lookup shows is read from an entry that is present -/
theorem Stores.lookup (h : t.Stores f Q) {vm : UInt64} {tr : Translation} (htr : t.lookup vm = some tr) :
    ∃ e, Q e ∧ f.present e = true ∧ tr.flags = f.flags e := by
  obtain ⟨l, e, hleaf, rfl⟩ := lookup_eq_some_iff.1 htr
  unfold leafOf at hleaf
  split_ifs at hleaf
  obtain ⟨he, hpresent⟩ := h.leafAt hleaf
  exact ⟨e, he, hpresent, by rw [translationOf, h.format]⟩

end NestedGuest.PageTable
