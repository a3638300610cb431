/-
What the answer to an insertion tells.

An insertion is refused because an address of its range is translated in another way, or because no table is left, and
it says which. Which of the two comes first on the way through the range decides if both would apply. Leaves of other
sizes, and tables where a large leaf was asked for, are no reason to refuse it: the descent goes on to the leaf that is
there (`insertLeaf_of_leaf`).

- `insert_outcome`: success, a conflict and exhaustion each tell what was the case, in every page table that can be
  reached.
-/
import NestedGuest.Proofs.Paging.Needs

namespace NestedGuest.PageTable

variable {format : EntryFormat} {base : UInt64} {capacity : ℕ} {t t' : PageTable} {pos : UInt64 → Option (ℕ × ℕ)}
  {p c vm phys size : UInt64} {va pa remaining k l m : ℕ} {e : UInt64} {flags : PageFlags}

/-! ## Conflicts -/

/-- what a request that maps `[vm, …)` to `[phys, …)` asks of the translation `tr` of `p` -/
structure AsAsked (t : PageTable) (vm phys : UInt64) (flags : PageFlags) (p : UInt64) (tr : Translation) : Prop where
  phys : tr.phys = phys.toNat + (p.toNat - vm.toNat)
  flags : tr.flags = t.format.flags (t.format.leaf 0 flags false)

/-- `p` is an address of the range of a request -/
def InRange (vm size p : UInt64) : Prop := vm.toNat ≤ p.toNat ∧ p.toNat < vm.toNat + size.toNat

/-- the address `p` of the range is translated, but not as asked -/
def Conflicts (t : PageTable) (vm phys size : UInt64) (flags : PageFlags) (p : UInt64) : Prop :=
  InRange vm size p ∧ ∃ tr, t.lookup p = some tr ∧ ¬ t.AsAsked vm phys flags p tr

/-- a leaf maps an address as asked exactly if the lookup shows it -/
theorem mapsTo_iff : t.MapsTo p.toNat (phys.toNat + (p.toNat - vm.toNat)) flags ↔
    ∃ tr, t.lookup p = some tr ∧ t.AsAsked vm phys flags p tr := by
  constructor
  · intro h
    obtain ⟨l, e, hleaf, hphys, hflags⟩ := h
    exact ⟨_, lookup_eq_some_iff.2 ⟨l, e, hleaf, rfl⟩, hphys, hflags⟩
  · intro h
    obtain ⟨tr, htr, hphys, hflags⟩ := h
    obtain ⟨l, e, hleaf, rfl⟩ := lookup_eq_some_iff.1 htr
    exact ⟨l, e, hleaf, hphys, hflags⟩

theorem conflicts_iff : t.Conflicts vm phys size flags p ↔ InRange vm size p ∧ t.leafOf p.toNat ≠ none ∧
    ¬ t.MapsTo p.toNat (phys.toNat + (p.toNat - vm.toNat)) flags := by
  rw [mapsTo_iff, ne_eq, ← lookup_eq_none_iff]
  refine and_congr_right fun _ => ?_
  cases t.lookup p with
  | none => simp
  | some tr => simp

/-- what is mapped as asked was so before, or was not translated -/
theorem Inserts.not_conflicts (hins : Inserts t t' vm.toNat phys.toNat k flags) (hp : p.toNat < vm.toNat + k) :
    ¬ t.Conflicts vm phys size flags p := by
  rw [conflicts_iff]
  intro h
  obtain ⟨⟨hlow, -⟩, hsome, hnot⟩ := h
  obtain ⟨x, hx⟩ := Option.ne_none_iff_exists'.1 hsome
  obtain ⟨l, e, hleaf, hphys, hflags⟩ := hins.mapped p.toNat hlow hp
  rw [hins.kept _ x hx] at hleaf
  cases hleaf
  rw [hins.same.format] at hflags
  exact hnot ⟨l, e, hx, hphys, hflags⟩

/-! ## What is mapped already -/

/-- a descent to a leaf meets no absent entry -/
theorem present_of_leaf {x : UInt64} (h : t.Placed pos) (hp : pos p = some (l, va / levelSize (l + 1)))
    (hleaf : t.leafOf va = some (m, e)) (hx : t.entry? p (slotOf va l) = some x) : t.format.present x = true := by
  by_contra habsent
  rw [leafOf_of_absent h hp hx (by simpa using habsent) (block_of_slot va l)] at hleaf
  cases hleaf

/-- the descent comes to the leaf that is there, whatever leaf the request could have -/
theorem insertLeaf_of_leaf (h : t.Placed pos) (hp : pos p = some (l, va / levelSize (l + 1)))
    (hleaf : t.leafOf va = some (m, e)) :
    insertLeaf va pa remaining flags l p t = (t, acceptLeaf t.format m e va pa remaining flags) := by
  have hlt := lt_addressSpaceEnd_of_leafOf hleaf
  induction l generalizing p with
  | zero =>
    obtain ⟨x, hx⟩ := h.entry hp (slotOf va 0)
    have hpresent := present_of_leaf h hp hleaf hx
    have hhere := (leafOf_eq_some_iff h).2 ⟨hlt, p, hp, hx, hpresent, Or.inl rfl⟩
    rw [hleaf] at hhere
    cases hhere
    simp only [insertLeaf, hx, hpresent, if_true]
  | succ l ih =>
    obtain ⟨x, hx⟩ := h.entry hp (slotOf va (l + 1))
    have hpresent := present_of_leaf h hp hleaf hx
    by_cases hlarge : t.format.large x = true
    · have hhere := (leafOf_eq_some_iff h).2 ⟨hlt, p, hp, hx, hpresent, Or.inr hlarge⟩
      rw [hleaf] at hhere
      cases hhere
      simp only [insertLeaf, hx, hpresent, hlarge, if_true]
    · have hchild := h.child p l _ _ _ hp ⟨x, hx, hpresent, by simpa using hlarge, rfl⟩
      rw [← block_of_slot] at hchild
      simp only [insertLeaf, hx, hpresent, if_true, if_neg hlarge]
      exact ih hchild

/-- a leaf that maps the address as asked is accepted -/
theorem insertLeaf_of_mapped (h : t.Placed pos) (hp : pos p = some (l, va / levelSize (l + 1)))
    (hmaps : t.MapsTo va pa flags) : ∃ c, insertLeaf va pa remaining flags l p t = (t, .ok c) := by
  obtain ⟨m, e, hleaf, haddr, hflags⟩ := hmaps
  rw [← EntryFormat.flags_leaf _ 0 flags (decide (m > 0))] at hflags
  refine ⟨min (levelSize m - va % levelSize m) remaining, ?_⟩
  rw [insertLeaf_of_leaf h hp hleaf]
  simp only [acceptLeaf]
  rw [if_pos ⟨haddr, hflags⟩]

/-- A request whose every page is mapped as asked changes no bit. -/
theorem insertLeaves_of_mapped (h : t.Placed pos) (hva : va % pageSize = 0) (hpages : remaining % pageSize = 0)
    (hlast : va + remaining ≤ addressSpaceEnd)
    (hmaps : ∀ a, a % pageSize = 0 → va ≤ a → a < va + remaining → t.MapsTo a (pa + (a - va)) flags) :
    insertLeaves va pa remaining flags t = (t, .ok ()) := by
  induction remaining using Nat.strong_induction_on generalizing va pa with
  | _ remaining ih =>
    rw [insertLeaves]
    split_ifs with hzero
    · rfl
    · have hpos := Nat.pos_of_ne_zero hzero
      have hfirst := hmaps va hva le_rfl (by omega)
      rw [Nat.sub_self, add_zero] at hfirst
      have hroot := h.root
      rw [← block_root (show va < addressSpaceEnd by omega)] at hroot
      have hcovers := insertLeaf_covers pa flags hpos hpages hva rootLevel t.rootPhys t
      obtain ⟨c, hstep⟩ := insertLeaf_of_mapped h hroot hfirst
      rw [hstep] at hcovers ⊢
      obtain ⟨hc, hle, hmod⟩ := hcovers _ rfl
      obtain ⟨c, rfl⟩ := Nat.exists_eq_succ_of_ne_zero (Nat.pos_iff_ne_zero.1 hc)
      refine ih (remaining - (c + 1)) (by omega) ?_ ?_ (by omega) fun a ha hlow hhigh => ?_
      · simp only [pageSize, Nat.succ_eq_add_one] at *
        omega
      · simp only [pageSize, Nat.succ_eq_add_one] at *
        omega
      · have hmap := hmaps a ha (by omega) (by omega)
        have htarget : pa + (c + 1) + (a - (va + (c + 1))) = pa + (a - va) := by omega
        rwa [htarget]

/-! ## The answer -/

theorem insert_explains (h : t.Sound) (hmap : Mappable vm.toNat phys.toNat size.toNat) (flags : PageFlags) :
    ∃ k ≤ size.toNat, ((t.insert vm phys size flags).2 = .ok () → k = size.toNat) ∧
      (∀ err, (t.insert vm phys size flags).2 = .error err → k < size.toNat ∧
        Explains t (t.insert vm phys size flags).1 (vm.toNat + k) (phys.toNat + k) flags err) ∧
      Inserts t (t.insert vm phys size flags).1 vm.toNat phys.toNat k flags := by
  rw [insert_of_mappable t hmap]
  exact insertLeaves_explains h hmap.start hmap.target hmap.pages hmap.space hmap.host

/-- `c` is the first address of the range that conflicts -/
structure FirstConflict (t : PageTable) (vm phys size : UInt64) (flags : PageFlags) (c : UInt64) : Prop where
  conflicts : t.Conflicts vm phys size flags c
  first : ∀ p, t.Conflicts vm phys size flags p → c.toNat ≤ p.toNat

/-- What the answer `result` to an insertion that turns `t` into `t'` tells. -/
structure Outcome (t : PageTable) (vm phys size : UInt64) (flags : PageFlags) (t' : PageTable)
    (result : Except TranslationError Unit) : Prop where
  /-- a request that is misaligned or out of range is refused and changes nothing -/
  malformed : ¬ Mappable vm.toNat phys.toNat size.toNat → result = .error .invalidMapping ∧ t' = t
  ok : result = .ok () → ∀ p, ¬ t.Conflicts vm phys size flags p
  /-- nothing became mapped from the first conflict on -/
  conflict : Mappable vm.toNat phys.toNat size.toNat → result = .error .invalidMapping →
    ∃ c, t.FirstConflict vm phys size flags c ∧ ∀ p, c.toNat ≤ p.toNat → t.lookup p = none → t'.lookup p = none
  exhausted : result = .error .outOfTables → t'.tablesInUse = t.nodes.capacity
  /-- without a conflict only the lack of tables is a reason to refuse -/
  free : Mappable vm.toNat phys.toNat size.toNat → (∀ p, ¬ t.Conflicts vm phys size flags p) →
    result = .ok () ∨ result = .error .outOfTables
  /-- nothing changes if every page is mapped as asked -/
  again : Mappable vm.toNat phys.toNat size.toNat → (∀ p, p.toNat % pageSize = 0 → InRange vm size p →
    ∃ tr, t.lookup p = some tr ∧ t.AsAsked vm phys flags p tr) → result = .ok () ∧ t' = t

/-- an address of a range that can be mapped is a word -/
theorem Mappable.word {a : ℕ} (h : Mappable va pa m) (ha : a < va + m) : (UInt64.ofNat a).toNat = a :=
  UInt64.toNat_ofNat_of_lt' ((ha.trans_le h.space).trans (by decide))

theorem outcome_of_mappable (h : t.Sound) (hmap : Mappable vm.toNat phys.toNat size.toNat) :
    t.Outcome vm phys size flags (t.insert vm phys size flags).1 (t.insert vm phys size flags).2 := by
  obtain ⟨k, hk, hok, herr, hins⟩ := insert_explains h hmap flags
  -- a conflict that ends the insertion is the first one
  have hconflict : (t.insert vm phys size flags).2 = .error .invalidMapping →
      ∃ c, t.FirstConflict vm phys size flags c ∧ c.toNat = vm.toNat + k := by
    intro hinvalid
    obtain ⟨hlt, hsome, hnot⟩ := herr _ hinvalid
    have hword := hmap.word (Nat.add_lt_add_left hlt vm.toNat)
    refine ⟨UInt64.ofNat (vm.toNat + k), ⟨?_, fun p hp => ?_⟩, hword⟩
    · rw [conflicts_iff, InRange, hword, Nat.add_sub_cancel_left]
      exact ⟨⟨Nat.le_add_right _ _, by omega⟩, hsome, hnot⟩
    · rw [hword]
      by_contra hbefore
      exact hins.not_conflicts (Nat.lt_of_not_le hbefore) hp
  refine ⟨fun hnot => absurd hmap hnot, fun hyes p hp => ?_, fun _ hinvalid => ?_, fun hnone => ?_, fun _ hfree => ?_,
    fun _ hall => ?_⟩
  · rw [hok hyes] at hins
    exact hins.not_conflicts hp.1.2 hp
  · obtain ⟨c, hfirst, hc⟩ := hconflict hinvalid
    refine ⟨c, hfirst, fun p hp hbefore => ?_⟩
    by_contra hafter
    have hin := (hins.mapsExactly.only p hbefore hafter).2
    omega
  · obtain ⟨-, hfull⟩ := herr _ hnone
    obtain ⟨pos, hplaced⟩ := hins.sound
    rw [tablesInUse, TableArray.inUse_of_alloc?_eq_none hplaced.nodes hfull, hins.same.capacity]
  · cases hresult : (t.insert vm phys size flags).2 with
    | ok => exact Or.inl rfl
    | error err =>
      cases err with
      | outOfTables => exact Or.inr rfl
      | invalidMapping =>
        obtain ⟨c, hfirst, -⟩ := hconflict hresult
        exact absurd hfirst.conflicts (hfree c)
  · obtain ⟨pos, hplaced⟩ := h
    have hmaps : ∀ a, a % pageSize = 0 → vm.toNat ≤ a → a < vm.toNat + size.toNat →
        t.MapsTo a (phys.toNat + (a - vm.toNat)) flags := by
      intro a ha hlow hhigh
      have hword := hmap.word hhigh
      rw [← hword] at ha hlow hhigh ⊢
      exact mapsTo_iff.2 (hall _ ha ⟨hlow, hhigh⟩)
    rw [insert_of_mappable t hmap, insertLeaves_of_mapped hplaced hmap.start hmap.pages hmap.space hmaps]
    exact ⟨rfl, rfl⟩

/-- **The answer to an insertion tells what was the case.** In every page table that can be reached, whatever the
request: success means that no address of its range conflicts, an invalid mapping that one does and that nothing was
mapped from the first such one on, and exhaustion that every table is in use. So a request without a conflict fails for
lack of tables only, and one that asks for what is mapped already succeeds and changes nothing. -/
theorem insert_outcome (hs : StorageFits base capacity) (h : Reachable format base capacity t) (vm phys size : UInt64)
    (flags : PageFlags) :
    t.format = format ∧ t.nodes.capacity = capacity ∧
      t.Outcome vm phys size flags (t.insert vm phys size flags).1 (t.insert vm phys size flags).2 := by
  obtain ⟨-, hsame⟩ := h.shaped hs
  refine ⟨hsame.format, hsame.capacity, ?_⟩
  by_cases hmap : Mappable vm.toNat phys.toNat size.toNat
  · exact outcome_of_mappable (h.sound hs) hmap
  · rw [insert_of_not_mappable t hmap]
    exact ⟨fun _ => ⟨rfl, rfl⟩, fun hok => (by cases hok), fun hyes => absurd hyes hmap, fun herr => (by cases herr),
      fun hyes => absurd hyes hmap, fun hyes => absurd hyes hmap⟩

/-- with both tables in use, a request for the rest of the large leaf and two pages behind it runs out of tables, and one
for another target conflicts at its first address -/
theorem insert_outcome_twoTables :
    StorageFits 0x1000000 2 ∧ Reachable .hpt 0x1000000 2 twoTables ∧
      (twoTables.insert 0x1ff000 0x401ff000 0x3000 .guestRam).2 = .error .outOfTables ∧
      (twoTables.insert 0x1ff000 0x401ff000 0x3000 .guestRam).1.tablesInUse = twoTables.nodes.capacity ∧
      (twoTables.insert 0x1ff000 0x501ff000 0x3000 .guestRam).2 = .error .invalidMapping ∧
      (∃ c, twoTables.FirstConflict 0x1ff000 0x501ff000 0x3000 .guestRam c) ∧
      (twoTables.insert 0x3000 0x40003000 0x2000 .guestRam).2 = .ok () ∧
      ¬ twoTables.Conflicts 0x3000 0x40003000 0x2000 .guestRam 0x4fff := by
  have hfits : StorageFits 0x1000000 2 := by decide
  have hnone : (twoTables.insert 0x1ff000 0x401ff000 0x3000 .guestRam).2 = .error .outOfTables := by decide +kernel
  have hinvalid : (twoTables.insert 0x1ff000 0x501ff000 0x3000 .guestRam).2 = .error .invalidMapping := by
    decide +kernel
  have hok : (twoTables.insert 0x3000 0x40003000 0x2000 .guestRam).2 = .ok () := by decide +kernel
  have hexhausted := insert_outcome hfits reachable_twoTables 0x1ff000 0x401ff000 0x3000 .guestRam
  have hconflict := insert_outcome hfits reachable_twoTables 0x1ff000 0x501ff000 0x3000 .guestRam
  have haccepted := insert_outcome hfits reachable_twoTables 0x3000 0x40003000 0x2000 .guestRam
  obtain ⟨c, hfirst, -⟩ := hconflict.2.2.conflict ⟨by decide, by decide, by decide, by decide, by decide⟩ hinvalid
  exact ⟨hfits, reachable_twoTables, hnone, hexhausted.2.2.exhausted hnone, hinvalid, ⟨c, hfirst⟩, hok,
    haccepted.2.2.ok hok 0x4fff⟩

end NestedGuest.PageTable
