/-
Page tables in storage of any kind.

An entry holds the address of a table without its lowest and its highest bits. In storage that is not page-aligned, or
that reaches beyond `2 ^ 52`, a reference may therefore lead to no table, and what is mapped behind it is never
translated. It does not lead to another table: `Rooted` says that each reference leads to the place below its own, or to
no table of the array, and that no two lead to the same one.

Here are the changes that insertions are made of (`Rooted.setEntry`, `Rooted.link_lost`, `Rooted.link_housed`), and whole
removals (`Rooted.remove`).

Premise: the array of tables is not larger than what an entry can address (`Shelved.room`).
-/
import NestedGuest.Proofs.Paging.Monotone

namespace NestedGuest

/-! ## Addresses -/

/-- an entry keeps bits 12 to 51 of an address -/
theorem entryAddress_toNat (p : UInt64) : (entryAddress p).toNat = p.toNat % physAddressEnd / pageSize * pageSize := by
  have hmask : addressMask.toNat = (2 ^ 40 - 1) <<< 12 := by decide
  have hparts : p.toNat % physAddressEnd / pageSize * pageSize = (p.toNat % 2 ^ 52) >>> 12 <<< 12 := by
    rw [Nat.shiftRight_eq_div_pow, Nat.shiftLeft_eq]
    rfl
  rw [hparts, entryAddress, UInt64.toNat_and, hmask]
  refine Nat.eq_of_testBit_eq fun i => ?_
  simp only [Nat.testBit_and, Nat.testBit_shiftLeft, Nat.testBit_shiftRight, Nat.testBit_mod_two_pow,
    Nat.testBit_two_pow_sub_one]
  by_cases hi : 12 ≤ i
  · have hlow : 12 + (i - 12) = i := by omega
    have hhigh : i - 12 < 40 ↔ i < 52 := by omega
    simp [hi, hlow, hhigh, Bool.and_comm]
  · simp [hi]

namespace PageTable

/-- `p` is the address of the root or of a table in the array, whether it was handed out or not -/
def Houses (t : PageTable) (p : UInt64) : Prop :=
  p = t.rootPhys ∨ ∃ i < t.nodes.capacity, p.toNat = t.nodes.base.toNat + i * pageSize

/-- the array of tables begins behind the root and is not larger than what an entry can address -/
structure Shelved (t : PageTable) : Prop where
  size : t.nodes.tables.size = t.nodes.capacity
  base : t.nodes.base = t.rootPhys + UInt64.ofNat pageSize
  room : (t.nodes.capacity + 1) * pageSize ≤ physAddressEnd

variable {t t' u : PageTable} {p q child : UInt64} {s : Fin entriesPerTable} {e v : UInt64} {nodes : TableArray}
  {pos pos' : UInt64 → Option (ℕ × ℕ)} {va pa remaining l k m a i : ℕ} {flags : PageFlags} {tb : Table}

theorem SameStorage.houses (h : SameStorage t t') : t'.Houses p ↔ t.Houses p := by
  rw [Houses, Houses, h.rootPhys, h.base, h.capacity]

theorem Shelved.congr (h : t.Shelved) (hsame : SameStorage t t')
    (hsize : t'.nodes.tables.size = t.nodes.tables.size) : t'.Shelved where
  size := by rw [hsize, h.size, hsame.capacity]
  base := by rw [hsame.base, h.base, hsame.rootPhys]
  room := by rw [hsame.capacity]; exact h.room

theorem houses_of_table (h : t.table? p = some tb) : t.Houses p := by
  unfold table? at h
  split_ifs at h with hroot
  · exact Or.inl hroot
  · obtain ⟨i, hi, -⟩ := Option.bind_eq_some_iff.1 h
    obtain ⟨haddr, hlt, -⟩ := TableArray.index?_eq_some_iff_toNat.1 hi
    exact Or.inr ⟨i, hlt, haddr⟩

theorem Shelved.base_toNat (h : t.Shelved) : t.nodes.base.toNat = (t.rootPhys.toNat + pageSize) % wordEnd := by
  rw [h.base, UInt64.toNat_add]
  rfl

/-- a reference to a table of the array leads to that table, or to none -/
theorem Shelved.entryAddress_address (h : t.Shelved) (hi : i < t.nodes.capacity)
    (hhouse : t.Houses (entryAddress (t.nodes.address i))) :
    entryAddress (t.nodes.address i) = t.nodes.address i ∧
      (t.nodes.address i).toNat = t.nodes.base.toNat + i * pageSize := by
  have hroom := h.room
  have hle : (i + 1) * pageSize ≤ t.nodes.capacity * pageSize := Nat.mul_le_mul_right _ hi
  have haddr := t.nodes.toNat_address i
  have hentry := entryAddress_toNat (t.nodes.address i)
  have hbase := h.base_toNat
  have hlt := t.rootPhys.toNat_lt
  rw [← UInt64.toNat_inj]
  rcases hhouse with hroot | ⟨j, hj, hhouse⟩
  · rw [hroot] at hentry ⊢
    simp only [pageSize, physAddressEnd, wordEnd, Nat.reduceShiftLeft] at *
    omega
  · have hle' : (j + 1) * pageSize ≤ t.nodes.capacity * pageSize := Nat.mul_le_mul_right _ hj
    rw [hhouse] at hentry ⊢
    simp only [pageSize, physAddressEnd, wordEnd, Nat.reduceShiftLeft] at *
    omega

/-- the address of the root is not that of a table in the array -/
theorem Shelved.address_ne_root (h : t.Shelved) (hi : i < t.nodes.capacity) : t.nodes.address i ≠ t.rootPhys := by
  have hroom := h.room
  have hle : (i + 1) * pageSize ≤ t.nodes.capacity * pageSize := Nat.mul_le_mul_right _ hi
  have haddr := t.nodes.toNat_address i
  have hbase := h.base_toNat
  have hlt := t.rootPhys.toNat_lt
  rw [Ne, ← UInt64.toNat_inj]
  simp only [pageSize, physAddressEnd, wordEnd, Nat.reduceShiftLeft] at *
  omega

theorem Shelved.get?_rootPhys (h : t.Shelved) : t.nodes.get? t.rootPhys = none := by
  rw [Option.eq_none_iff_forall_ne_some]
  intro tb htb
  obtain ⟨i, hi, -⟩ := Option.bind_eq_some_iff.1 htb
  have hroom := h.room
  have hbase := h.base_toNat
  have hlt := t.rootPhys.toNat_lt
  obtain ⟨haddr, hcap, -⟩ := TableArray.index?_eq_some_iff_toNat.1 hi
  have hle : (i + 1) * pageSize ≤ t.nodes.capacity * pageSize := Nat.mul_le_mul_right _ hcap
  simp only [pageSize, physAddressEnd, wordEnd, Nat.reduceShiftLeft] at *
  omega

/-! ## A table handed out -/

/-- what the array says at the address of a table that is handed out, before and after -/
structure HandsOut (t : PageTable) (child : UInt64) (nodes : TableArray) : Prop where
  same : SameStorage t { t with nodes }
  shelved : PageTable.Shelved { t with nodes }
  fresh : t.table? child = none
  others : ∀ q, q ≠ child → PageTable.table? { t with nodes } q = t.table? q
  zeroed : ∀ tb, PageTable.table? { t with nodes } child = some tb → tb = Table.zeroed
  /-- it can be referred to, or a reference to it leads to no table -/
  housed : t.Houses (entryAddress child) →
    entryAddress child = child ∧ ∃ tb, PageTable.table? { t with nodes } child = some tb

theorem Shelved.handsOut (h : t.Shelved) (halloc : t.nodes.alloc? = some (child, nodes)) :
    HandsOut t child nodes := by
  obtain ⟨i, hi, -, hchild, htake, hused⟩ := TableArray.alloc?_eq_some halloc
  have hsame : SameStorage t { t with nodes } := htake ▸ ⟨rfl, rfl, rfl, rfl⟩
  have hroot : child ≠ t.rootPhys := hchild ▸ h.address_ne_root hi
  have hroom : t.nodes.capacity * pageSize ≤ wordEnd :=
    calc t.nodes.capacity * pageSize ≤ (t.nodes.capacity + 1) * pageSize := Nat.mul_le_mul_right _ (Nat.le_succ _)
      _ ≤ physAddressEnd := h.room
      _ ≤ wordEnd := by decide
  refine ⟨hsame, h.congr hsame ?_, ?_, fun q hq => ?_, fun tb htb => ?_, fun hhouse => ?_⟩
  · exact htake ▸ TableArray.size_take _ _
  · rw [table?, if_neg hroot, TableArray.get?_alloc?_fresh hroom halloc]
  · rw [table?, table?, TableArray.get?_alloc?_of_ne halloc hq]
  · rw [table?, if_neg hroot] at htb
    exact TableArray.eq_zeroed_of_alloc? hroom h.size halloc htb
  · rw [hchild] at hhouse hroot ⊢
    obtain ⟨heq, haddr⟩ := h.entryAddress_address hi hhouse
    have hindex : (t.nodes.take i).index? (t.nodes.address i) = some i :=
      TableArray.index?_eq_some_iff_toNat.2 ⟨haddr, hi, by rw [hused]; simp⟩
    refine ⟨heq, Table.zeroed, ?_⟩
    rw [table?, if_neg hroot, TableArray.get?, htake, hindex, Option.bind_some]
    exact TableArray.contents?_take_self (h.size.symm ▸ hi)

/-! ## References -/

/-- `pos` gives the level of each table that references lead to and the block that it translates. A reference leads to
the place below its own or to no table of the array, and no two lead to the same one. -/
structure Rooted (t : PageTable) (pos : UInt64 → Option (ℕ × ℕ)) : Prop extends Shelved t where
  known : ∀ p x, pos p = some x → ∃ tb, t.table? p = some tb
  root : pos t.rootPhys = some (rootLevel, 0)
  child : ∀ q l k s p, pos q = some (l + 1, k) → t.Refers q s p → t.Houses p → pos p = some (l, k * entriesPerTable + s)
  unique : ∀ q l k s q' l' k' s' p, pos q = some (l + 1, k) → pos q' = some (l' + 1, k') → t.Refers q s p →
    t.Refers q' s' p → t.Houses p → q = q' ∧ s = s'

/-- a placement gains tables -/
def Enlarges (pos pos' : UInt64 → Option (ℕ × ℕ)) : Prop := ∀ q x, pos q = some x → pos' q = some x

theorem Enlarges.refl (pos : UInt64 → Option (ℕ × ℕ)) : Enlarges pos pos := fun _ _ hq => hq

theorem Enlarges.trans {pos'' : UInt64 → Option (ℕ × ℕ)} (h1 : Enlarges pos pos') (h2 : Enlarges pos' pos'') :
    Enlarges pos pos'' :=
  fun q x hq => h2 q x (h1 q x hq)

/-- what refers to less than a rooted page table is rooted, if the tables referred to are still there -/
theorem Rooted.of_refers (h : t.Rooted pos) (hshelved : t'.Shelved) (hsame : SameStorage t t')
    (hroot : pos' t.rootPhys = pos t.rootPhys) (hold : Enlarges pos' pos)
    (hknown : ∀ p x, pos' p = some x → ∃ tb, t'.table? p = some tb)
    (hrefers : ∀ q l k s p, pos' q = some (l + 1, k) → t'.Refers q s p → t.Houses p →
      t.Refers q s p ∧ pos' p = pos p) : t'.Rooted pos' where
  toShelved := hshelved
  known := hknown
  root := by rw [hsame.rootPhys, hroot, h.root]
  child q l k s p hq hr hp := by
    rw [hsame.houses] at hp
    obtain ⟨hr, hpos⟩ := hrefers q l k s p hq hr hp
    rw [hpos]
    exact h.child q l k s p (hold _ _ hq) hr hp
  unique q l k s q' l' k' s' p hq hq' hr hr' hp := by
    rw [hsame.houses] at hp
    exact h.unique q l k s q' l' k' s' p (hold _ _ hq) (hold _ _ hq') (hrefers q l k s p hq hr hp).1
      (hrefers q' l' k' s' p hq' hr' hp).1 hp

theorem Shelved.setEntry (h : t.Shelved) (p : UInt64) (s : Fin entriesPerTable) (v : UInt64) :
    PageTable.Shelved (t.setEntry p s v) := by
  refine h.congr (setEntry_sameStorage ..) ?_
  unfold PageTable.setEntry
  split_ifs
  · rfl
  · exact TableArray.size_set? ..

/-- an entry that refers to no table may be written anywhere -/
theorem Rooted.setEntry (h : t.Rooted pos) (hv : ∀ l k, pos p = some (l, k) → ¬ t.format.IsTable l v) :
    (t.setEntry p s v).Rooted pos := by
  have hsame := setEntry_sameStorage t p s v
  refine h.of_refers (h.toShelved.setEntry p s v) hsame rfl (fun q x hq => hq) (fun q x hq => ?_) ?_
  · obtain ⟨tb, htb⟩ := h.known q x hq
    rw [table?_setEntry]
    split_ifs with hqp
    · rw [← hqp, htb]
      exact ⟨_, rfl⟩
    · exact ⟨tb, htb⟩
  · intro q l k y r hq hr _
    obtain ⟨d, hd, hpresent, hlarge, hdr⟩ := hr
    rw [hsame.format] at hpresent hlarge
    rw [entry?_overwrite] at hd
    split_ifs at hd with hqy
    · obtain ⟨-, -, rfl⟩ := Option.map_eq_some_iff.1 hd
      exact absurd ⟨Nat.succ_pos l, hpresent, hlarge⟩ (hv _ _ (hqy.1 ▸ hq))
    · exact ⟨⟨d, hd, hpresent, hlarge, hdr⟩, rfl⟩

/-! ## A reference more -/

/-- entries other than the reference are as they were -/
theorem HandsOut.entry?_link (hout : HandsOut t child nodes) (hq : q ≠ child) {y : Fin entriesPerTable}
    (hqy : ¬ (q = p ∧ y = s)) : PageTable.entry? (t.link nodes p s child) q y = t.entry? q y := by
  rw [link, entry?_overwrite, if_neg hqy, PageTable.entry?, PageTable.entry?, hout.others q hq]

/-- the table handed out has no entries -/
theorem HandsOut.entry?_child (hout : HandsOut t child nodes) (hp : p ≠ child) {y : Fin entriesPerTable}
    (he : PageTable.entry? (t.link nodes p s child) child y = some e) : e = 0 := by
  rw [link, entry?_overwrite, if_neg fun hc => hp hc.1.symm] at he
  obtain ⟨tb, htb, rfl⟩ := Option.map_eq_some_iff.1 he
  rw [hout.zeroed tb htb, Table.get_zeroed]

/-- tables that are placed are not the one handed out -/
theorem HandsOut.ne_child (hout : HandsOut t child nodes) (h : t.Rooted pos) {x : ℕ × ℕ} (hq : pos q = some x) :
    q ≠ child := by
  rintro rfl
  obtain ⟨tb, htb⟩ := h.known q x hq
  rw [hout.fresh] at htb
  cases htb

theorem HandsOut.enlarges (hout : HandsOut t child nodes) (h : t.Rooted pos) (y : ℕ × ℕ) :
    Enlarges pos fun q => if q = child then some y else pos q := by
  intro q x hq
  beta_reduce
  rw [if_neg (hout.ne_child h hq), hq]

theorem HandsOut.link_sameStorage (hout : HandsOut t child nodes) (p : UInt64) (s : Fin entriesPerTable) :
    SameStorage t (t.link nodes p s child) :=
  hout.same.trans (setEntry_sameStorage ..)

/-- a reference is the new one, or was there before -/
theorem HandsOut.refers_cases (hout : HandsOut t child nodes) (hq : q ≠ child) {r : UInt64} {y : Fin entriesPerTable}
    (hr : PageTable.Refers (t.link nodes p s child) q y r) :
    q = p ∧ y = s ∧ r = entryAddress child ∨ t.Refers q y r := by
  obtain ⟨d, hd, hpresent, hlarge, hdr⟩ := hr
  rw [(hout.link_sameStorage p s).format] at hpresent hlarge
  by_cases hqy : q = p ∧ y = s
  · rw [link, entry?_overwrite, if_pos hqy] at hd
    obtain ⟨-, -, rfl⟩ := Option.map_eq_some_iff.1 hd
    rw [EntryFormat.entryAddress_table] at hdr
    exact Or.inl ⟨hqy.1, hqy.2, hdr.symm⟩
  · rw [hout.entry?_link hq hqy] at hd
    exact Or.inr ⟨d, hd, hpresent, hlarge, hdr⟩

/-- placed tables are still there -/
theorem HandsOut.known (hout : HandsOut t child nodes) (h : t.Rooted pos) {x : ℕ × ℕ} (hq : pos q = some x) :
    ∃ tb, PageTable.table? (t.link nodes p s child) q = some tb := by
  obtain ⟨tb, htb⟩ := h.known q x hq
  rw [link, table?_setEntry]
  split_ifs with hqp
  · rw [hqp] at htb hq
    rw [hout.others p (hout.ne_child h hq), htb]
    exact ⟨_, rfl⟩
  · rw [hout.others q (hout.ne_child h hq)]
    exact ⟨tb, htb⟩

/-- A reference that leads to no table, or from a table that nothing refers to, changes no placement. -/
theorem Rooted.link_lost (h : t.Rooted pos) (hout : HandsOut t child nodes)
    (hlost : ¬ t.Houses (entryAddress child) ∨ pos p = none) : PageTable.Rooted (t.link nodes p s child) pos := by
  refine h.of_refers (hout.shelved.setEntry p s _) (hout.link_sameStorage p s) rfl (fun q x hq => hq)
    (fun q x hq => hout.known h hq) fun q l k y r hq hr hhouse => ⟨?_, rfl⟩
  rcases hout.refers_cases (hout.ne_child h hq) hr with ⟨rfl, -, rfl⟩ | hr
  · rcases hlost with hlost | hlost
    · exact absurd hhouse hlost
    · rw [hlost] at hq
      cases hq
  · exact hr

/-- Otherwise the placement gains the table. -/
theorem Rooted.link_housed (h : t.Rooted pos) (hout : HandsOut t child nodes) (hp : pos p = some (l + 1, k))
    (hhouse : t.Houses (entryAddress child)) : PageTable.Rooted (t.link nodes p s child)
      fun q => if q = child then some (l, k * entriesPerTable + s) else pos q := by
  obtain ⟨haddr, tb, htb⟩ := hout.housed hhouse
  have hsame := hout.link_sameStorage p s
  have hpc := hout.ne_child h hp
  -- nothing refers to the table before
  have hunused : ∀ q l k y, pos q = some (l + 1, k) → ¬ t.Refers q y child := by
    intro q l k y hq hr
    exact hout.ne_child h (h.child q l k y child hq hr (haddr ▸ hhouse)) rfl
  -- nor does it refer to any
  have hempty : ∀ y r, ¬ PageTable.Refers (t.link nodes p s child) child y r := by
    rintro y r ⟨d, hd, hpresent, -⟩
    rw [hout.entry?_child hpc hd, EntryFormat.present_zero] at hpresent
    cases hpresent
  refine { hout.shelved.setEntry p s _ with known := ?_, root := ?_, child := ?_, unique := ?_ }
  · intro q x hq
    split_ifs at hq with hqc
    · rw [hqc, link, table?_setEntry, if_neg fun hc => hpc hc.symm]
      exact ⟨tb, htb⟩
    · exact hout.known h hq
  · rw [hsame.rootPhys, if_neg (hout.ne_child h h.root)]
    exact h.root
  · intro q l' k' y r hq hr hr'
    rw [hsame.houses] at hr'
    split_ifs at hq with hqc
    · exact absurd (hqc ▸ hr) (hempty y r)
    · rcases hout.refers_cases hqc hr with ⟨rfl, rfl, rfl⟩ | hold
      · rw [hp] at hq
        cases hq
        rw [if_pos haddr]
      · have hplace := h.child q l' k' y r hq hold hr'
        rw [if_neg (hout.ne_child h hplace)]
        exact hplace
  · intro q l1 k1 y q' l2 k2 y' r hq hq' hr hr' hhouse'
    rw [hsame.houses] at hhouse'
    split_ifs at hq hq' with hqc hqc' hqc'
    · exact absurd (hqc ▸ hr) (hempty y r)
    · exact absurd (hqc ▸ hr) (hempty y r)
    · exact absurd (hqc' ▸ hr') (hempty y' r)
    · rcases hout.refers_cases hqc hr with ⟨rfl, rfl, rfl⟩ | hold <;>
        rcases hout.refers_cases hqc' hr' with ⟨rfl, rfl, hrc⟩ | hold'
      · exact ⟨rfl, rfl⟩
      · rw [haddr] at hold'
        exact absurd hold' (hunused q' l2 k2 y' hq')
      · rw [hrc, haddr] at hold
        exact absurd hold (hunused q l1 k1 y hq)
      · exact h.unique q l1 k1 y q' l2 k2 y' r hq hq' hold hold' hhouse'

/-- a new page table is rooted -/
theorem rooted_withCapacity {format : EntryFormat} {base : UInt64} {capacity : ℕ}
    (hroom : (capacity + 1) * pageSize ≤ physAddressEnd) :
    (withCapacity format base capacity).Rooted fun p => if p = base then some (rootLevel, 0) else none := by
  have hno : ∀ s p, ¬ (withCapacity format base capacity).Refers base s p := by
    rintro s p ⟨e, he, hpresent, -⟩
    rw [rootEntry_withCapacity] at he
    cases he
    rw [EntryFormat.present_zero] at hpresent
    cases hpresent
  refine { size := by simp [withCapacity, TableArray.new], base := rfl, room := hroom, known := ?_, root := if_pos rfl,
           child := ?_, unique := ?_ }
  · intro p x hp
    split_ifs at hp with hpb
    exact ⟨Table.zeroed, if_pos hpb⟩
  · intro q l k s p hq hr
    split_ifs at hq with hqb
    exact absurd (hqb ▸ hr) (hno s p)
  · intro q l k s q' l' k' s' p hq _ hr
    split_ifs at hq with hqb
    exact absurd (hqb ▸ hr) (hno s p)

/-! ## Removals -/

theorem free_sameStorage (t : PageTable) (child : UInt64) :
    SameStorage t { t with nodes := (t.nodes.free? child).getD t.nodes } ∧
      ((t.nodes.free? child).getD t.nodes).tables = t.nodes.tables := by
  cases hfree : t.nodes.free? child with
  | none => exact ⟨.refl t, rfl⟩
  | some nodes =>
    obtain ⟨i, -, herase⟩ := Option.bind_eq_some_iff.1 hfree
    obtain ⟨used, -, rfl⟩ := Option.map_eq_some_iff.1 herase
    exact ⟨⟨rfl, rfl, rfl, rfl⟩, rfl⟩

theorem unlink_sameStorage (t : PageTable) (p : UInt64) (s : Fin entriesPerTable) (child : UInt64) :
    SameStorage t (t.unlink p s child) :=
  (setEntry_sameStorage t p s 0).trans (free_sameStorage _ child).1

/-- `t'` takes entries and tables away from `t`, none of them at level `l` or above -/
structure Withdraws (t t' : PageTable) (pos pos' : UInt64 → Option (ℕ × ℕ)) (l : ℕ) : Prop where
  rooted : t'.Rooted pos'
  same : SameStorage t t'
  within : Within t' t
  old : Enlarges pos' pos
  keeps : Keeps l pos pos'

theorem Rooted.withdraws_refl (h : t.Rooted pos) (l : ℕ) : Withdraws t t pos pos l :=
  ⟨h, .refl t, .refl t, .refl pos, .refl l pos⟩

theorem Withdraws.trans {pos'' : UInt64 → Option (ℕ × ℕ)} (h1 : Withdraws t t' pos pos' l)
    (h2 : Withdraws t' u pos' pos'' l) : Withdraws t u pos pos'' l where
  rooted := h2.rooted
  same := h1.same.trans h2.same
  within := h2.within.trans h1.within
  old := h2.old.trans h1.old
  keeps := h1.keeps.trans h2.keeps

theorem Withdraws.mono (h : Withdraws t t' pos pos' l) (hm : l ≤ m) : Withdraws t t' pos pos' m :=
  { h with keeps := h.keeps.mono hm }

theorem Rooted.withdraws_clear (h : t.Rooted pos) (p : UInt64) (s : Fin entriesPerTable) (l : ℕ) :
    Withdraws t (t.setEntry p s 0) pos pos l where
  rooted := h.setEntry fun _ _ _ => EntryFormat.not_isTable_of_absent (EntryFormat.present_zero _)
  same := setEntry_sameStorage t p s 0
  within := setEntry_zero_within t p s
  old := .refl pos
  keeps := .refl l pos

/-- A table is taken back together with the reference that led to it, the only one. -/
theorem Withdraws.unlink (hw : Withdraws t t' pos pos' l) (h : t.Rooted pos) (hp : pos p = some (l + 1, k))
    (hr : t.Refers p s child) (hhouse : t.Houses child) (hroot : child ≠ t.rootPhys) :
    Withdraws t (t'.unlink p s child) pos (fun q => if q = child then none else pos' q) (l + 1) := by
  have hplace := h.child p l k s child hp hr hhouse
  have hunlink := unlink_within t' p s child
  have hsame := unlink_sameStorage t' p s child
  have hold : Enlarges (fun q => if q = child then none else pos' q) pos' := by
    intro q x hq
    beta_reduce at hq
    split_ifs at hq
    exact hq
  refine ⟨hw.rooted.of_refers ?_ hsame ?_ hold ?_ ?_, hw.same.trans hsame, hunlink.trans hw.within,
    hold.trans hw.old, ?_⟩
  · exact (hw.rooted.toShelved.setEntry p s 0).congr (free_sameStorage _ child).1
      (congrArg Array.size (free_sameStorage _ child).2)
  · rw [if_neg (hw.same.rootPhys ▸ hroot.symm)]
  · intro q x hq
    beta_reduce at hq
    split_ifs at hq with hqc
    obtain ⟨tb, htb⟩ := (hw.rooted.withdraws_clear p s l).rooted.known q x hq
    exact ⟨tb, table?_free?_of_ne hqc htb⟩
  · intro q l' k' y r hq hqr _
    refine ⟨hunlink.refers hqr, if_neg ?_⟩
    rintro rfl
    -- the reference would be the one that was cleared
    obtain ⟨rfl, rfl⟩ := h.unique q l' k' y p l k s r (hw.old _ _ (hold _ _ hq)) hp
      (hw.within.refers (hunlink.refers hqr)) hr hhouse
    obtain ⟨d, hd, hpresent, -⟩ := (free_within (t'.setEntry q y 0) r).refers hqr
    rw [entry?_overwrite, if_pos ⟨rfl, rfl⟩] at hd
    obtain ⟨-, -, rfl⟩ := Option.map_eq_some_iff.1 hd
    rw [EntryFormat.present_zero] at hpresent
    cases hpresent
  · intro q m j hm hq
    beta_reduce
    rw [if_neg]
    · exact hw.keeps q m j (Nat.le_of_succ_le hm) hq
    · rintro rfl
      rw [hplace] at hq
      cases hq
      omega

theorem Withdraws.pruneChild (hw : Withdraws t t' pos pos' l) (h : t.Rooted pos) (hp : pos p = some (l + 1, k))
    (hr : t.Refers p s child) :
    ∃ pos'', Withdraws t (t'.pruneChild p s child) pos pos'' (l + 1) := by
  rcases pruneChild_cases t' p s child with heq | ⟨hsome, heq⟩
  · rw [heq]
    exact ⟨pos', hw.mono (Nat.le_succ l)⟩
  · rw [heq]
    have hroot : child ≠ t'.rootPhys := by
      rintro rfl
      rw [hw.rooted.get?_rootPhys] at hsome
      cases hsome
    have hhouse : t'.Houses child := by
      obtain ⟨tb, htb⟩ := Option.isSome_iff_exists.1 hsome
      have htable : t'.table? child = some tb := by rw [PageTable.table?, if_neg hroot, htb]
      exact houses_of_table htable
    exact ⟨_, hw.unlink h hp hr (hw.same.houses.1 hhouse) (hw.same.rootPhys ▸ hroot)⟩

/-- a walk withdraws what each of its steps withdraws -/
theorem foldl_withdraws {f : PageTable → ℕ × ℕ → PageTable} (cs : List (ℕ × ℕ))
    (hstep : ∀ c t pos, t.Rooted pos → pos p = some (l, k) → ∃ pos', Withdraws t (f t c) pos pos' l)
    (h : t.Rooted pos) (hp : pos p = some (l, k)) : ∃ pos', Withdraws t (cs.foldl f t) pos pos' l := by
  induction cs generalizing t pos with
  | nil => exact ⟨pos, h.withdraws_refl l⟩
  | cons c cs ih =>
    obtain ⟨pos1, h1⟩ := hstep c t pos h hp
    obtain ⟨pos2, h2⟩ := ih h1.rooted (h1.keeps p l k le_rfl hp)
    exact ⟨pos2, h1.trans h2⟩

theorem removeRange_of_none (hnone : t.table? p = none) (l start stop : ℕ) : removeRange l p start stop t = t := by
  have hentry : ∀ s, t.entry? p s = none := fun s => by rw [PageTable.entry?, hnone, Option.map_none]
  rw [removeRange_eq]
  refine List.foldlRecOn (motive := fun u : PageTable => u = t) _ _ rfl fun u hu c _ => ?_
  rw [hu]
  cases l <;> simp only [removeChunk, hentry]

/-- A walk over a range keeps the page table rooted. -/
theorem removeRange_withdraws (h : t.Rooted pos) (hp : pos p = some (l, k)) (start stop : ℕ) :
    ∃ pos', Withdraws t (removeRange l p start stop t) pos pos' l := by
  induction l generalizing p k start stop t pos with
  | zero =>
    rw [removeRange_eq]
    refine foldl_withdraws _ (fun c t pos h hp => ?_) h hp
    rw [removeChunk]
    split
    · exact ⟨pos, h.withdraws_refl 0⟩
    · split_ifs
      · exact ⟨pos, h.withdraws_clear p _ 0⟩
      · exact ⟨pos, h.withdraws_refl 0⟩
  | succ l ih =>
    rw [removeRange_eq]
    refine foldl_withdraws _ (fun c t pos h hp => ?_) h hp
    rw [removeChunk]
    split
    · exact ⟨pos, h.withdraws_refl _⟩
    · rename_i e he
      split_ifs with hpresent hlarge
      · exact ⟨pos, h.withdraws_clear p _ _⟩
      · have hr : t.Refers p (slotOf c.1 (l + 1)) (entryAddress e) := ⟨e, he, hpresent, by simpa using hlarge, rfl⟩
        cases htb : t.table? (entryAddress e) with
        | some tb =>
          obtain ⟨pos1, h1⟩ := ih h (h.child p l k _ _ hp hr (houses_of_table htb)) c.1 c.2
          exact h1.pruneChild h hp hr
        | none =>
          -- a reference that is lost leads to nothing that could be removed
          rw [removeRange_of_none htb]
          exact (h.withdraws_refl l).pruneChild h hp hr
      · exact ⟨pos, h.withdraws_refl _⟩

theorem Rooted.remove (h : t.Rooted pos) (vm size : UInt64) : ∃ pos', (t.remove vm size).Rooted pos' := by
  obtain ⟨pos', hw⟩ := removeRange_withdraws h h.root vm.toNat (min (vm.toNat + size.toNat) addressSpaceEnd)
  exact ⟨pos', hw.rooted⟩

end PageTable
end NestedGuest
