/-
Page tables of different formats that were changed alike.

Entries are `Alike` if insertion, removal and lookup read the same from both. Two page tables are twins (`TwinsAt`) if
they have the same tables in use at the same places, and alike entries in them. Whether an entry refers to a table or
maps a leaf depends on the level of its table, so twins are compared place by place and not word by word: under `hpt` the
word of a leaf at level 0 may be that of a reference one level up.

Twins stay twins under each of the four changes that insertion and removal are made of. Main statements:

- `insert_twins`: insertions with the attributes of all leaves so far succeed in both, or fail in both for one reason;
- `remove_twins`: removals take back the same tables in both;
- `lookup_twins`: lookups lead to the same host addresses, by leaves of the same size.
-/
import NestedGuest.Proofs.Paging.Entries
import NestedGuest.Proofs.Paging.Exactness

namespace NestedGuest

/-- where a translation leads and how large its leaf is, apart from its attributes -/
def Translation.place (tr : Translation) : ℕ × ℕ := (tr.phys, tr.leafSize)

/-! ## Entries -/

namespace EntryFormat

/-- In tables at level `l`, the entry `e` says in format `f` what `d` says in format `g`: that it is absent, refers to a
table, or is a leaf made with the attributes `flags`. -/
structure Alike (flags : PageFlags) (f g : EntryFormat) (l : ℕ) (e d : UInt64) : Prop where
  present : g.present d = f.present e
  large : 0 < l → g.large d = f.large e
  address : entryAddress d = entryAddress e
  zero : d = 0 ↔ e = 0
  /-- attributes that a format cannot express are missing from all its leaves -/
  made : f.IsLeaf l e → f.flags e = f.flags (f.leaf 0 flags false) ∧ g.flags d = g.flags (g.leaf 0 flags false)

variable {flags : PageFlags} {f g : EntryFormat} {l : ℕ} {e d : UInt64}

theorem large_zero (f : EntryFormat) : f.large 0 = false := by cases f <;> decide

theorem alike_zero (flags : PageFlags) (f g : EntryFormat) (l : ℕ) : Alike flags f g l 0 0 where
  present := by rw [present_zero, present_zero]
  large _ := by rw [large_zero, large_zero]
  address := rfl
  zero := Iff.rfl
  made h := absurd h (not_isLeaf_of_absent (present_zero f))

theorem alike_table (flags : PageFlags) (f g : EntryFormat) (l : ℕ) (p : UInt64) :
    Alike flags f g (l + 1) (f.table p) (g.table p) where
  present := by rw [present_table, present_table]
  large _ := by rw [large_table, large_table]
  address := by rw [entryAddress_table, entryAddress_table]
  zero := iff_of_false (ne_zero_of_present (present_table g p)) (ne_zero_of_present (present_table f p))
  made h := absurd ⟨Nat.succ_pos l, present_table f p, large_table f p⟩ (not_isTable_of_isLeaf h)

theorem alike_leaf (flags : PageFlags) (f g : EntryFormat) (l : ℕ) (p : UInt64) (isLarge : Bool) :
    Alike flags f g l (f.leaf p flags isLarge) (g.leaf p flags isLarge) where
  present := by rw [present_leaf, present_leaf]
  large _ := by rw [large_leaf, large_leaf]
  address := by rw [entryAddress_leaf, entryAddress_leaf]
  zero := iff_of_false (ne_zero_of_present (present_leaf g _ _ _)) (ne_zero_of_present (present_leaf f _ _ _))
  made _ := ⟨flags_leaf f p flags isLarge, flags_leaf g p flags isLarge⟩

theorem Alike.isTable_iff (h : Alike flags f g l e d) : g.IsTable l d ↔ f.IsTable l e := by
  refine and_congr_right fun hl => ?_
  rw [h.present, h.large hl]

end EntryFormat

open EntryFormat

namespace TableArray

/-- the same tables are handed out, at the same addresses -/
structure SameUse (a b : TableArray) : Prop where
  base : b.base = a.base
  capacity : b.capacity = a.capacity
  used : b.used = a.used

namespace SameUse

variable {a b c : TableArray}

theorem refl (a : TableArray) : SameUse a a := ⟨rfl, rfl, rfl⟩

theorem symm (h : SameUse a b) : SameUse b a := ⟨h.base.symm, h.capacity.symm, h.used.symm⟩

theorem trans (h : SameUse a b) (h' : SameUse b c) : SameUse a c :=
  ⟨h'.base.trans h.base, h'.capacity.trans h.capacity, h'.used.trans h.used⟩

theorem index? (h : SameUse a b) (p : UInt64) : b.index? p = a.index? p := by
  simp only [TableArray.index?, h.base, h.capacity, h.used]

theorem alloc?_eq_none (h : SameUse a b) (ha : a.alloc? = none) : b.alloc? = none := by
  simp only [alloc?, Option.map_eq_none_iff] at ha ⊢
  rw [h.used, h.capacity, ha]

/-- the next table handed out is the same -/
theorem alloc?_eq_some (h : SameUse a b) {p : UInt64} {a' : TableArray} (ha : a.alloc? = some (p, a')) :
    ∃ b', b.alloc? = some (p, b') ∧ SameUse a' b' := by
  obtain ⟨i, hi, hx⟩ := Option.map_eq_some_iff.1 ha
  cases hx
  have hb : b.alloc? = some (a.address i, b.take i) := by
    rw [alloc?, h.used, h.capacity, hi, Option.map_some, address, h.base, address]
  exact ⟨_, hb, h.base, h.capacity, by rw [take, take, h.used]⟩

/-- a table taken back is taken back in both -/
theorem free? (h : SameUse a b) (p : UInt64) : SameUse ((a.free? p).getD a) ((b.free? p).getD b) := by
  unfold TableArray.free?
  rw [h.index?, h.used]
  cases a.index? p with
  | none => exact h
  | some i =>
    rw [Option.bind_some, Option.bind_some]
    cases a.used.erase? i with
    | none => exact h
    | some used => exact ⟨h.base, h.capacity, rfl⟩

theorem set? (a : TableArray) (p : UInt64) (s : Fin entriesPerTable) (v : UInt64) :
    SameUse a ((a.set? p s v).getD a) := by
  rcases set?_cases a p s v with hsame | ⟨i, tb, -, hput⟩
  · rw [hsame]
    exact .refl a
  · rw [hput]
    exact ⟨rfl, rfl, rfl⟩

end SameUse
end TableArray

namespace PageTable

variable {flags : PageFlags} {t u : PageTable} {pos : UInt64 → Option (ℕ × ℕ)} {p q child : UInt64}
  {s : Fin entriesPerTable} {l k : ℕ} {e d v w : UInt64}

/-! ## Twins -/

theorem setEntry_sameUse (t : PageTable) (p : UInt64) (s : Fin entriesPerTable) (v : UInt64) :
    t.nodes.SameUse (t.setEntry p s v).nodes := by
  unfold setEntry
  split_ifs
  · exact .refl _
  · exact .set? _ p s v

/-- the same tables lie at the same places, with alike entries -/
structure TwinsAt (flags : PageFlags) (t u : PageTable) (pos : UInt64 → Option (ℕ × ℕ)) : Prop where
  placed : t.Placed pos
  placed' : u.Placed pos
  rootPhys : u.rootPhys = t.rootPhys
  nodes : t.nodes.SameUse u.nodes
  alike : ∀ q l k s e d, pos q = some (l, k) → t.entry? q s = some e → u.entry? q s = some d →
    Alike flags t.format u.format l e d

/-- the page tables were changed alike: all leaves of both were made with the attributes `flags` -/
def Twins (flags : PageFlags) (t u : PageTable) : Prop := ∃ pos, t.TwinsAt flags u pos

namespace TwinsAt

/-- alike entries stand in each slot of a table in use -/
theorem entries (h : TwinsAt flags t u pos) (hp : pos p = some (l, k)) (s : Fin entriesPerTable) :
    ∃ e d, t.entry? p s = some e ∧ u.entry? p s = some d ∧ Alike flags t.format u.format l e d := by
  obtain ⟨e, he⟩ := h.placed.entry hp s
  obtain ⟨d, hd⟩ := h.placed'.entry hp s
  exact ⟨e, d, he, hd, h.alike p l k s e d hp he hd⟩

theorem refers (h : TwinsAt flags t u pos) (hp : pos p = some (l + 1, k)) (hr : t.Refers p s child) :
    u.Refers p s child := by
  obtain ⟨e, d, he, hd, halike⟩ := h.entries hp s
  obtain ⟨x, hx, hpresent, hlarge, rfl⟩ := hr
  rw [he] at hx
  cases hx
  exact ⟨d, hd, halike.present.trans hpresent, (halike.large (Nat.succ_pos l)).trans hlarge, halike.address⟩

/-- a table has no entries in both or in neither -/
theorem isZero (h : TwinsAt flags t u pos) (hp : pos p = some (l, k)) {tb tb' : Table} (htb : t.table? p = some tb)
    (htb' : u.table? p = some tb') : tb'.isZero = tb.isZero := by
  have hzero : ∀ x, tb'.get x = 0 ↔ tb.get x = 0 := by
    intro x
    have he := entry?_of_table htb x
    have hd := entry?_of_table htb' x
    exact (h.alike p l k x _ _ hp he hd).zero
  rw [Bool.eq_iff_iff]
  constructor
  · intro h0
    exact Table.isZero_of_get fun x => (hzero x).1 (Table.get_of_isZero h0 x)
  · intro h0
    exact Table.isZero_of_get fun x => (hzero x).2 (Table.get_of_isZero h0 x)

theorem tablesInUse (h : TwinsAt flags t u pos) : u.tablesInUse = t.tablesInUse := by
  unfold PageTable.tablesInUse TableArray.inUse
  rw [h.nodes.used]

/-! ## The changes -/

/-- entries that refer to no table give way to alike ones -/
theorem setEntry (h : TwinsAt flags t u pos) (hp : pos p = some (l, k)) (he : t.entry? p s = some e)
    (hold : ¬ t.format.IsTable l e) (hnew : ¬ t.format.IsTable l v) (hvw : Alike flags t.format u.format l v w) :
    TwinsAt flags (t.setEntry p s v) (u.setEntry p s w) pos := by
  obtain ⟨d, hd⟩ := h.placed'.entry hp s
  have halike := h.alike p l k s e d hp he hd
  obtain ⟨hplaced, hsame⟩ := placed_setEntry h.placed hp he hold hnew
  obtain ⟨hplaced', hsame'⟩ := placed_setEntry (v := w) h.placed' hp hd (mt halike.isTable_iff.1 hold)
    (mt hvw.isTable_iff.1 hnew)
  refine ⟨hplaced, hplaced', ?_, ?_, fun q m j x e' d' hq he' hd' => ?_⟩
  · rw [hsame.rootPhys, hsame'.rootPhys, h.rootPhys]
  · exact ((setEntry_sameUse t p s v).symm.trans h.nodes).trans (setEntry_sameUse u p s w)
  · rw [hsame.format, hsame'.format]
    rw [h.placed.entry?_setEntry hp] at he'
    rw [h.placed'.entry?_setEntry hp] at hd'
    split_ifs at he' hd' with hqx
    · obtain ⟨rfl, rfl⟩ := hqx
      cases he'
      cases hd'
      rw [hp] at hq
      cases hq
      exact hvw
    · exact h.alike q m j x e' d' hq he' hd'

/-- absent entries are made to refer to the table handed out next, which is the same for both -/
theorem link (h : TwinsAt flags t u pos) (hp : pos p = some (l + 1, k)) (he : t.entry? p s = some e)
    (habsent : t.format.present e = false) {nodes : TableArray} (hal : t.nodes.alloc? = some (child, nodes)) :
    ∃ nodes', u.nodes.alloc? = some (child, nodes') ∧
      TwinsAt flags (t.link nodes p s child) (u.link nodes' p s child)
        fun q => if q = child then some (l, k * entriesPerTable + s) else pos q := by
  obtain ⟨nodes', hal', huse⟩ := h.nodes.alloc?_eq_some hal
  obtain ⟨d, hd⟩ := h.placed'.entry hp s
  have halike := h.alike p _ k s e d hp he hd
  obtain ⟨tb, htb⟩ := h.placed.table hp
  obtain ⟨tb', htb'⟩ := h.placed'.table hp
  have hl := linked_link (s := s) h.placed.toStored htb hal
  have hl' := linked_link (s := s) h.placed'.toStored htb' hal'
  refine ⟨nodes', hal', hl.placed h.placed hp he habsent,
    hl'.placed h.placed' hp hd (halike.present.trans habsent), ?_, ?_, fun q m j x e' d' hq he' hd' => ?_⟩
  · rw [hl.same.rootPhys, hl'.same.rootPhys, h.rootPhys]
  · exact ((setEntry_sameUse _ p s _).symm.trans huse).trans (setEntry_sameUse _ p s _)
  · rw [hl.same.format, hl'.same.format]
    rw [hl.entry?] at he'
    rw [hl'.entry?] at hd'
    split_ifs at hq he' hd' with hqc hqx
    · cases he'
      cases hd'
      exact alike_zero _ _ _ _
    · obtain ⟨rfl, rfl⟩ := hqx
      cases he'
      cases hd'
      rw [hp] at hq
      cases hq
      exact alike_table _ _ _ _ _
    · exact h.alike q m j x e' d' hq he' hd'

/-- a table without entries is taken back in both -/
theorem unlink (h : TwinsAt flags t u pos) (hp : pos p = some (l + 1, k)) (hr : t.Refers p s child) {tb tb' : Table}
    (htb : t.nodes.get? child = some tb) (htb' : u.nodes.get? child = some tb') (hzero : tb.isZero = true)
    (hzero' : tb'.isZero = true) :
    TwinsAt flags (t.unlink p s child) (u.unlink p s child) fun q => if q = child then none else pos q := by
  have hr' := h.refers hp hr
  have hl := unlinked_unlink h.placed hp hr htb hzero
  have hl' := unlinked_unlink h.placed' hp hr' htb' hzero'
  refine ⟨hl.placed h.placed hp hr, hl'.placed h.placed' hp hr', ?_, ?_, fun q m j x e' d' hq he' hd' => ?_⟩
  · rw [hl.same.rootPhys, hl'.same.rootPhys, h.rootPhys]
  · exact (((setEntry_sameUse t p s 0).symm.trans h.nodes).trans (setEntry_sameUse u p s 0)).free? child
  · rw [hl.same.format, hl'.same.format]
    split_ifs at hq with hqc
    rw [hl.entry? q x hqc] at he'
    rw [hl'.entry? q x hqc] at hd'
    split_ifs at he' hd'
    · cases he'
      cases hd'
      exact alike_zero _ _ _ _
    · exact h.alike q m j x e' d' hq he' hd'

theorem pruneChild (h : TwinsAt flags t u pos) (hp : pos p = some (l + 1, k)) (hr : t.Refers p s child) :
    ∃ pos', Keeps (l + 1) pos pos' ∧ TwinsAt flags (t.pruneChild p s child) (u.pruneChild p s child) pos' := by
  have hplace := h.placed.child p l k s child hp hr
  have hlt : l < rootLevel := h.placed.level_le hp
  obtain ⟨tb, htb⟩ := h.placed.table hplace
  obtain ⟨tb', htb'⟩ := h.placed'.table hplace
  have hzero := h.isZero hplace htb htb'
  rw [table?, if_neg (h.placed.ne_root hplace hlt)] at htb
  rw [table?, if_neg (h.placed'.ne_root hplace hlt)] at htb'
  simp only [PageTable.pruneChild, htb, htb', hzero]
  split_ifs with h0
  · exact ⟨_, .without hplace, h.unlink hp hr htb htb' h0 (hzero.trans h0)⟩
  · exact ⟨pos, Keeps.refl _ pos, h⟩

end TwinsAt

/-! ## Insertion -/

/-- the answers are the same, and the page tables are twins -/
def AnswerAlike {α : Type} (flags : PageFlags) (x y : PageTable × α) : Prop := y.2 = x.2 ∧ Twins flags x.1 y.1

/-- a leaf made with the attributes `flags` is accepted in both formats, if its address is as asked -/
theorem acceptLeaf_alike {f g : EntryFormat} (h : Alike flags f g l e d) (he : f.IsLeaf l e) (va pa remaining : ℕ) :
    acceptLeaf g l d va pa remaining flags = acceptLeaf f l e va pa remaining flags := by
  obtain ⟨hf, hg⟩ := h.made he
  have hleaf := flags_leaf f 0 flags (decide (l > 0))
  have hleaf' := flags_leaf g 0 flags (decide (l > 0))
  simp only [acceptLeaf, h.address, hleaf, hleaf', hf, hg]

/-- a new leaf goes to the same slot -/
theorem TwinsAt.putLeaf (h : TwinsAt flags t u pos) (hp : pos p = some (l, k)) (he : t.entry? p s = some e)
    (habsent : t.format.present e = false) (pa : UInt64) :
    TwinsAt flags (t.setEntry p s (t.format.leaf pa flags (decide (0 < l))))
      (u.setEntry p s (u.format.leaf pa flags (decide (0 < l)))) pos :=
  h.setEntry hp he (not_isTable_of_absent habsent) (not_isTable_of_isLeaf (isLeaf_leaf _ l pa flags))
    (alike_leaf _ _ _ _ _ _)

theorem insertLeaf_twins (h : TwinsAt flags t u pos) (hp : pos p = some (l, k)) (va pa remaining : ℕ) :
    AnswerAlike flags (insertLeaf va pa remaining flags l p t) (insertLeaf va pa remaining flags l p u) := by
  induction l generalizing p k t u pos with
  | zero =>
    obtain ⟨e, d, he, hd, halike⟩ := h.entries hp (slotOf va 0)
    simp only [insertLeaf, he, hd, halike.present]
    split_ifs with hpresent
    · exact ⟨acceptLeaf_alike halike ⟨hpresent, Or.inl rfl⟩ va pa remaining, pos, h⟩
    · exact ⟨rfl, pos, h.putLeaf hp he (by simpa using hpresent) _⟩
  | succ l ih =>
    obtain ⟨e, d, he, hd, halike⟩ := h.entries hp (slotOf va (l + 1))
    simp only [insertLeaf, he, hd, halike.present, halike.large (Nat.succ_pos l), halike.address]
    split_ifs with hpresent hlarge hfits
    · exact ⟨acceptLeaf_alike halike ⟨hpresent, Or.inr hlarge⟩ va pa remaining, pos, h⟩
    · exact ih h (h.placed.child p l k _ _ hp ⟨e, he, hpresent, by simpa using hlarge, rfl⟩)
    · have hput := h.putLeaf hp he (by simpa using hpresent) (UInt64.ofNat pa)
      rw [decide_eq_true (Nat.succ_pos l)] at hput
      exact ⟨rfl, pos, hput⟩
    · cases hal : t.nodes.alloc? with
      | none =>
        rw [h.nodes.alloc?_eq_none hal]
        exact ⟨rfl, pos, h⟩
      | some x =>
        obtain ⟨child, nodes⟩ := x
        obtain ⟨nodes', hal', hlink⟩ := h.link hp he (by simpa using hpresent) hal
        rw [hal']
        exact ih hlink (if_pos rfl)

theorem insertLeaves_twins (h : Twins flags t u) (va pa remaining : ℕ) :
    AnswerAlike flags (insertLeaves va pa remaining flags t) (insertLeaves va pa remaining flags u) := by
  induction remaining using Nat.strong_induction_on generalizing va pa t u with
  | _ remaining ih =>
    rw [insertLeaves, insertLeaves]
    split_ifs with hzero
    · exact ⟨rfl, h⟩
    · obtain ⟨pos, h⟩ := h
      obtain ⟨hanswer, htwins⟩ := insertLeaf_twins h h.placed.root va pa remaining
      rw [h.rootPhys]
      generalize insertLeaf va pa remaining flags rootLevel t.rootPhys t = x at hanswer htwins ⊢
      generalize insertLeaf va pa remaining flags rootLevel t.rootPhys u = y at hanswer htwins ⊢
      obtain ⟨t', r⟩ := x
      obtain ⟨u', r'⟩ := y
      obtain rfl : r' = r := hanswer
      rcases r' with err | _ | c
      · exact ⟨rfl, htwins⟩
      · exact ⟨rfl, htwins⟩
      · exact ih _ (by omega) htwins _ _

/-- An insertion with the attributes of all leaves so far answers the same for twins, and leaves twins behind. -/
theorem insert_twins (h : Twins flags t u) (vm phys size : UInt64) :
    AnswerAlike flags (t.insert vm phys size flags) (u.insert vm phys size flags) := by
  unfold insert
  split_ifs
  · exact insertLeaves_twins h _ _ _
  · exact ⟨rfl, h⟩

/-! ## Removal -/

/-- walking over chunks keeps twins twins, if each single chunk does -/
theorem foldl_twins {f : PageTable → ℕ × ℕ → PageTable} (cs : List (ℕ × ℕ))
    (hstep : ∀ c t u pos, TwinsAt flags t u pos → pos p = some (l, k) →
      ∃ pos', Keeps l pos pos' ∧ TwinsAt flags (f t c) (f u c) pos')
    (h : TwinsAt flags t u pos) (hp : pos p = some (l, k)) :
    ∃ pos', Keeps l pos pos' ∧ TwinsAt flags (cs.foldl f t) (cs.foldl f u) pos' := by
  induction cs generalizing t u pos with
  | nil => exact ⟨pos, Keeps.refl l pos, h⟩
  | cons c cs ih =>
    obtain ⟨pos1, hkeep1, h1⟩ := hstep c t u pos h hp
    obtain ⟨pos2, hkeep2, h2⟩ := ih h1 (hkeep1 p l k le_rfl hp)
    exact ⟨pos2, hkeep1.trans hkeep2, h2⟩

/-- a leaf is cleared in both -/
theorem TwinsAt.clearLeaf (h : TwinsAt flags t u pos) (hp : pos p = some (l, k)) (he : t.entry? p s = some e)
    (hleaf : t.format.IsLeaf l e) : TwinsAt flags (t.setEntry p s 0) (u.setEntry p s 0) pos :=
  h.setEntry hp he (not_isTable_of_isLeaf hleaf) (not_isTable_of_absent (present_zero _)) (alike_zero _ _ _ _)

theorem removeRange_twins (h : TwinsAt flags t u pos) (hp : pos p = some (l, k)) (start stop : ℕ) :
    ∃ pos', Keeps l pos pos' ∧ TwinsAt flags (removeRange l p start stop t) (removeRange l p start stop u) pos' := by
  induction l generalizing p k start stop t u pos with
  | zero =>
    rw [removeRange, removeRange]
    refine foldl_twins _ (fun c t u pos h hp => ?_) h hp
    obtain ⟨e, d, he, hd, halike⟩ := h.entries hp (slotOf c.1 0)
    simp only [he, hd, halike.present]
    split_ifs with hpresent
    · exact ⟨pos, Keeps.refl 0 pos, h.clearLeaf hp he ⟨hpresent, Or.inl rfl⟩⟩
    · exact ⟨pos, Keeps.refl 0 pos, h⟩
  | succ l ih =>
    rw [removeRange, removeRange]
    refine foldl_twins _ (fun c t u pos h hp => ?_) h hp
    obtain ⟨e, d, he, hd, halike⟩ := h.entries hp (slotOf c.1 (l + 1))
    simp only [he, hd, halike.present, halike.large (Nat.succ_pos l), halike.address]
    split_ifs with hpresent hlarge
    · exact ⟨pos, Keeps.refl _ pos, h.clearLeaf hp he ⟨hpresent, Or.inr hlarge⟩⟩
    · have hchild := h.placed.child p l k _ _ hp ⟨e, he, hpresent, by simpa using hlarge, rfl⟩
      obtain ⟨pos1, hkeep1, h1⟩ := ih h hchild c.1 c.2
      have hp1 := hkeep1 p (l + 1) k (Nat.le_succ l) hp
      have hr1 := h1.placed.refers_of_place hp1 (hkeep1 _ l _ le_rfl hchild)
      obtain ⟨pos2, hkeep2, h2⟩ := h1.pruneChild hp1 hr1
      exact ⟨pos2, (hkeep1.mono (Nat.le_succ l)).trans hkeep2, h2⟩
    · exact ⟨pos, Keeps.refl _ pos, h⟩

/-- A removal leaves twins behind. -/
theorem remove_twins (h : Twins flags t u) (vm size : UInt64) : Twins flags (t.remove vm size) (u.remove vm size) := by
  obtain ⟨pos, h⟩ := h
  unfold remove
  rw [h.rootPhys]
  obtain ⟨pos', -, h'⟩ := removeRange_twins h h.placed.root vm.toNat (min (vm.toNat + size.toNat) addressSpaceEnd)
  exact ⟨pos', h'⟩

/-! ## Lookup -/

/-- a descent ends at leaves of the same level and address -/
theorem TwinsAt.leafAt (h : TwinsAt flags t u pos) (hp : pos p = some (l, k)) (a : ℕ) :
    (u.leafAt a l p).map (fun x => (x.1, entryAddress x.2)) =
      (t.leafAt a l p).map fun x => (x.1, entryAddress x.2) := by
  induction l generalizing p k with
  | zero =>
    obtain ⟨e, d, he, hd, halike⟩ := h.entries hp (slotOf a 0)
    simp only [PageTable.leafAt, he, hd, halike.present]
    split_ifs <;> simp [halike.address]
  | succ l ih =>
    obtain ⟨e, d, he, hd, halike⟩ := h.entries hp (slotOf a (l + 1))
    simp only [PageTable.leafAt, he, hd, halike.present, halike.large (Nat.succ_pos l), halike.address]
    split_ifs with hpresent hlarge
    · simp [halike.address]
    · exact ih (h.placed.child p l k _ _ hp ⟨e, he, hpresent, by simpa using hlarge, rfl⟩)
    · rfl

/-- Twins translate the same addresses, to the same host addresses and by leaves of the same size. -/
theorem lookup_twins (h : Twins flags t u) (a : UInt64) :
    (u.lookup a).map Translation.place = (t.lookup a).map Translation.place := by
  obtain ⟨pos, h⟩ := h
  have hplace : ∀ x : PageTable, (x.lookup a).map Translation.place =
      ((x.leafOf a.toNat).map fun y => (y.1, entryAddress y.2)).map fun y =>
        (y.2.toNat + a.toNat % levelSize y.1, levelSize y.1) := by
    intro x
    rw [lookup_eq, Option.map_map, Option.map_map]
    rfl
  rw [hplace, hplace, leafOf, leafOf]
  split_ifs
  · rw [h.rootPhys, h.leafAt h.placed.root]
  · rfl

/-! ## New page tables -/

theorem twins_withCapacity (flags : PageFlags) (f g : EntryFormat) {base : UInt64} {capacity : ℕ}
    (h : StorageFits base capacity) : Twins flags (withCapacity f base capacity) (withCapacity g base capacity) := by
  refine ⟨_, placed_withCapacity h, placed_withCapacity h, rfl, .refl _, fun q l k s e d hq he hd => ?_⟩
  split_ifs at hq with hroot
  subst hroot
  rw [rootEntry_withCapacity] at he hd
  cases he
  cases hd
  exact alike_zero _ _ _ _

end PageTable
end NestedGuest
