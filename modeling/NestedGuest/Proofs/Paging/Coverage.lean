/-
Which addresses the tables of a page table are in use for.

`TableFor t l k p` says that the root leads to the table at `p`, at level `l`, for block `k` of the level above it. It
reads the tree only, and a placement says the same of the tables that it places (`Placed.tableFor_iff`).

`Covers t A` says that each table below the root is there for some address of `A`, and that no other address has a
leaf. An insertion adds its range to `A` (`Covers.insert`), whether it succeeds or not. A removal takes its range away
from `A` (`Covers.remove`): a table that covered no address outside it has no entries any more and was taken back.
-/
import NestedGuest.Proofs.Paging.Tree

namespace NestedGuest.PageTable

/-- the root leads to the table at `p`, at level `l`, for block `k` of the level above -/
inductive TableFor (t : PageTable) : ℕ → ℕ → UInt64 → Prop
  | root : TableFor t rootLevel 0 t.rootPhys
  | child {l k : ℕ} {q : UInt64} {s : Fin entriesPerTable} {p : UInt64} (hq : TableFor t (l + 1) k q)
      (hr : t.Refers q s p) : TableFor t l (k * entriesPerTable + s) p

/-- the tables below the root are there for addresses of `A`, and only such addresses have a leaf -/
structure Covers (t : PageTable) (A : ℕ → Prop) : Prop where
  shaped : ∃ pos, t.Shaped pos
  tables : ∀ l k p, t.TableFor l k p → l < rootLevel → ∃ a, A a ∧ a / levelSize (l + 1) = k
  leaves : ∀ a x, t.leafOf a = some x → A a

variable {t : PageTable} {pos : UInt64 → Option (ℕ × ℕ)} {p : UInt64} {l k : ℕ} {A B : ℕ → Prop}
  {format : EntryFormat} {base : UInt64} {capacity : ℕ}

theorem InTree.exists_block (h : t.InTree l p) : ∃ k, t.TableFor l k p := by
  induction h with
  | root => exact ⟨0, .root⟩
  | child _ hr ih =>
    obtain ⟨k, hq⟩ := ih
    exact ⟨_, .child hq hr⟩

/-- the tables that the root leads to are those placed -/
theorem Placed.tableFor_iff (h : t.Placed pos) : t.TableFor l k p ↔ pos p = some (l, k) := by
  have hplace : ∀ {j}, t.TableFor l j p → pos p = some (l, j) := by
    intro j hp
    induction hp with
    | root => exact h.root
    | @child l k q s p _ hr ih => exact h.child q l k s p ih hr
  refine ⟨hplace, fun hp => ?_⟩
  obtain ⟨j, hj⟩ := (h.inTree_iff.2 ⟨k, hp⟩).exists_block
  have hsame := hplace hj
  rw [hp] at hsame
  cases hsame
  exact hj

/-- every table of the array is one that the root leads to -/
theorem Placed.exists_tableFor (h : t.Placed pos) {tb : Table} (hp : t.nodes.get? p = some tb) :
    ∃ l k, l < rootLevel ∧ t.TableFor l k p := by
  obtain ⟨l, k, hpos, hl⟩ := h.get?_iff.1 ⟨tb, hp⟩
  exact ⟨l, k, hl, h.tableFor_iff.2 hpos⟩

namespace Covers

theorem mono (h : t.Covers A) (hAB : ∀ a, A a → B a) : t.Covers B where
  shaped := h.shaped
  tables l k p hp hl := by
    obtain ⟨a, ha, hk⟩ := h.tables l k p hp hl
    exact ⟨a, hAB a ha, hk⟩
  leaves a x hx := hAB a (h.leaves a x hx)

/-- only the root is there at first -/
theorem withCapacity (hs : StorageFits base capacity) (A : ℕ → Prop) :
    (PageTable.withCapacity format base capacity).Covers A where
  shaped := by
    obtain ⟨pos, h, -⟩ := shaped_withCapacity hs
    exact ⟨pos, h⟩
  tables l k p hp hl := by
    rw [(placed_withCapacity hs).tableFor_iff] at hp
    split_ifs at hp
    cases hp
    exact absurd hl (lt_irrefl _)
  leaves a x hx := by
    rw [leafOf_withCapacity] at hx
    cases hx

/-- what an insertion adds, it adds for addresses of its range -/
theorem insert (h : t.Covers A) (vm phys size : UInt64) (flags : PageFlags) :
    (t.insert vm phys size flags).1.Covers fun a => A a ∨ vm.toNat ≤ a ∧ a < vm.toNat + size.toNat := by
  obtain ⟨pos, hshaped⟩ := h.shaped
  obtain ⟨pos', hgrows, -⟩ := insert_grows hshaped vm phys size flags
  obtain ⟨k, hk, -, hins⟩ := insert_inserts ⟨pos, hshaped.toPlaced⟩ vm phys size flags
  refine ⟨⟨pos', hgrows.shaped⟩, fun l j p hp hl => ?_, fun a x hx => ?_⟩
  · rw [hgrows.shaped.tableFor_iff] at hp
    rcases hgrows.new p l j hp with hold | ⟨b, hlow, hhigh, hb⟩
    · obtain ⟨a, ha, hj⟩ := h.tables l j p (hshaped.tableFor_iff.2 hold) hl
      exact ⟨a, Or.inl ha, hj⟩
    · exact ⟨b, Or.inr ⟨hlow, hhigh⟩, hb⟩
  · rcases hins.leaf_cases hx with hold | ⟨hblock, -⟩
    · exact Or.inl (h.leaves a x hold)
    · have ha := hblock a rfl
      exact Or.inr ⟨ha.1, by omega⟩

/-- After a removal nothing is left for addresses of its range only. -/
theorem remove (h : t.Covers A) (vm size : UInt64) :
    (t.remove vm size).Covers fun a => A a ∧ ¬ (vm.toNat ≤ a ∧ a < vm.toNat + size.toNat) := by
  obtain ⟨pos, hshaped⟩ := h.shaped
  obtain ⟨pos', hprunes⟩ := remove_prunes hshaped vm size
  have hremoves := (remove_removes ⟨pos, hshaped.toPlaced⟩ vm size).2
  have hplaced := hprunes.shaped.toPlaced
  have hleaves : ∀ a x, (t.remove vm size).leafOf a = some x →
      A a ∧ ¬ (vm.toNat ≤ a ∧ a < vm.toNat + size.toNat) := by
    intro a x hx
    have hlt := lt_addressSpaceEnd_of_leafOf hx
    rw [hremoves.leafOf, Option.filter_eq_some_iff] at hx
    obtain ⟨hx, hcut⟩ := hx
    refine ⟨h.leaves a x hx, fun hin => ?_⟩
    rw [meets_self hin.1 (lt_min hin.2 hlt)] at hcut
    cases hcut
  have hframe : ∀ l k p, pos' p = some (l, k) → l < rootLevel →
      Touches vm.toNat (min (vm.toNat + size.toNat) addressSpaceEnd) l k ∨
        ∃ a, (A a ∧ ¬ (vm.toNat ≤ a ∧ a < vm.toNat + size.toNat)) ∧ a / levelSize (l + 1) = k := by
    intro l k p hp hl
    obtain ⟨a, ha, rfl⟩ := h.tables l k p (hshaped.tableFor_iff.2 (hprunes.old p l k hp)) hl
    by_cases hin : vm.toNat ≤ a ∧ a < vm.toNat + size.toNat
    · exact Or.inl ⟨a, hin.1, lt_min hin.2 (hplaced.lt_addressSpaceEnd hp), rfl⟩
    · exact Or.inr ⟨a, ⟨ha, hin⟩, rfl⟩
  refine ⟨⟨pos', hprunes.shaped⟩, fun l k p hp hl => ?_, hleaves⟩
  rw [hplaced.tableFor_iff] at hp
  -- a table of the range has an entry: a leaf, or a reference to a table one level down
  induction l generalizing k p with
  | zero =>
    rcases hframe 0 k p hp hl with hT | hother
    · rcases hprunes.shaped.descend hp (hprunes.full p 0 k hp hl hT) with ⟨b, e, hb, hleaf⟩ | ⟨n, x, r, hn, -⟩
      · exact ⟨b, hleaves b _ hleaf, hb⟩
      · exact absurd hn (Nat.succ_ne_zero n).symm
    · exact hother
  | succ l ih =>
    rcases hframe (l + 1) k p hp hl with hT | hother
    · rcases hprunes.shaped.descend hp (hprunes.full p (l + 1) k hp hl hT) with ⟨b, e, hb, hleaf⟩ | ⟨n, x, r, hn, -, hr⟩
      · exact ⟨b, hleaves b _ hleaf, hb⟩
      · obtain rfl := Nat.succ.inj hn
        obtain ⟨a, ha, hblock⟩ := ih _ r hr (Nat.lt_of_succ_lt hl)
        exact ⟨a, ha, ((block_eq_iff a (l + 1) k x).1 hblock).1⟩
    · exact hother

/-- nothing is in use if there are no addresses to be in use for -/
theorem tablesInUse_eq_zero (h : t.Covers fun _ => False) : t.tablesInUse = 0 := by
  obtain ⟨pos, hshaped⟩ := h.shaped
  have hempty : {x : ℕ × ℕ | x.1 < rootLevel ∧ ∃ p, pos p = some x} = ∅ := by
    refine Set.eq_empty_of_forall_notMem fun x hx => ?_
    obtain ⟨hl, p, hp⟩ := hx
    obtain ⟨-, hfalse, -⟩ := h.tables x.1 x.2 p (hshaped.tableFor_iff.2 hp) hl
    exact hfalse
  have hcount := hshaped.encard_places
  rw [hempty, Set.encard_empty] at hcount
  exact_mod_cast hcount.symm

end Covers
end NestedGuest.PageTable
