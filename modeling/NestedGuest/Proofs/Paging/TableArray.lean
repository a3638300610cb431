/-
The array of tables as a partial map from addresses to tables. `get?` is the view: handing out a table adds one zeroed
table at an address that named none, a write changes one table, taking a table back removes it, and every other address
keeps what it named.
-/
import Mathlib.Tactic
import NestedGuest.Paging.TableArray
import NestedGuest.Proofs.Bitmap

namespace NestedGuest

/-! ## One table -/

namespace Table

theorem get_zeroed (x : Fin entriesPerTable) : Table.zeroed.get x = 0 := Vector.getElem_replicate x.isLt

theorem get_set (tb : Table) (s x : Fin entriesPerTable) (v : UInt64) :
    (tb.set s v s.isLt).get x = if x = s then v else tb.get x := by
  split_ifs with hx
  · rw [hx]
    exact Vector.getElem_set_self s.isLt
  · exact Vector.getElem_set_ne s.isLt x.isLt fun he => hx (Fin.ext he.symm)

theorem cleared_eq (o : Option Table) : cleared o = zeroed := by
  cases o with
  | none => rfl
  | some tb => exact Vector.map_const' ..

theorem get_of_isZero {tb : Table} (h : tb.isZero = true) (x : Fin entriesPerTable) : tb.get x = 0 := by
  have hall := Vector.all_eq_true.1 h x.val x.isLt
  exact beq_iff_eq.1 hall

theorem isZero_of_get {tb : Table} (h : ∀ x, tb.get x = 0) : tb.isZero = true := by
  refine Vector.all_eq_true.2 fun i hi => ?_
  exact beq_iff_eq.2 (h ⟨i, hi⟩)

end Table

namespace TableArray

/-! ## Tables by number -/

section

variable {a : TableArray} {i j : ℕ} {tb : Table}

theorem lt_of_contents? (h : a.contents? i = some tb) : i < a.tables.size := by
  obtain ⟨hlt, -⟩ := Array.getElem?_eq_some_iff.1 (Option.join_eq_some_iff.1 h)
  exact hlt

theorem contents?_take_self (h : i < a.tables.size) : (a.take i).contents? i = some Table.zeroed := by
  rw [contents?, take, Array.getElem?_modify, if_pos rfl, Array.getElem?_eq_getElem h, Option.map_some,
    Option.join_some, Table.cleared_eq]

theorem contents?_take_of_ne (h : i ≠ j) : (a.take i).contents? j = a.contents? j := by
  rw [contents?, take, Array.getElem?_modify, if_neg h, contents?]

theorem contents?_put_self (h : i < a.tables.size) : (a.put i tb).contents? i = some tb := by
  rw [contents?, put, Array.getElem?_setIfInBounds_self_of_lt h, Option.join_some]

theorem contents?_put_of_ne (h : i ≠ j) : (a.put i tb).contents? j = a.contents? j := by
  rw [contents?, put, Array.getElem?_setIfInBounds_ne h, contents?]

theorem contains_take (hroom : i / 64 < a.used.blocks.length) (hfree : a.used.contains i = false) (j : ℕ) :
    (a.take i).used.contains j = (a.used.contains j || decide (i = j)) := by
  obtain ⟨used, hused, -⟩ := Bitmap.insert?_eq_some hroom hfree
  rw [take, hused, Option.getD_some]
  exact Bitmap.contains_insert? hused j

theorem size_take (a : TableArray) (i : ℕ) : (a.take i).tables.size = a.tables.size := Array.size_modify

theorem size_put (a : TableArray) (i : ℕ) (tb : Table) : (a.put i tb).tables.size = a.tables.size :=
  Array.size_setIfInBounds

end

/-! ## Any array -/

section

variable {a a' : TableArray} {p q : UInt64} {i : ℕ} {tb : Table}

theorem toNat_address (a : TableArray) (i : ℕ) : (a.address i).toNat = (a.base.toNat + i * pageSize) % wordEnd := by
  rw [address, UInt64.toNat_add, UInt64.toNat_ofNat']
  simp only [wordEnd, Nat.reduceShiftLeft]
  omega

/-- a table is found by its address if it is handed out -/
theorem index?_eq_some_iff_toNat : a.index? p = some i ↔
    p.toNat = a.base.toNat + i * pageSize ∧ i < a.capacity ∧ a.used.contains i = true := by
  unfold index?
  simp only [Option.ite_none_right_eq_some, Option.some.injEq, UInt64.le_iff_toNat_le]
  simp only [pageSize]
  constructor
  · rintro ⟨hle, ⟨hmod, hlt, hin⟩, rfl⟩
    exact ⟨by omega, hlt, hin⟩
  · rintro ⟨hp, hlt, hin⟩
    obtain rfl : i = (p.toNat - a.base.toNat) / 4096 := by omega
    exact ⟨by omega, ⟨by omega, hlt, hin⟩, rfl⟩

theorem index?_inj (hp : a.index? p = some i) (hq : a.index? q = some i) : p = q :=
  UInt64.toNat_inj.mp ((index?_eq_some_iff_toNat.1 hp).1.trans (index?_eq_some_iff_toNat.1 hq).1.symm)

/-- a write overwrites a table that was made, or does nothing -/
theorem set?_cases (a : TableArray) (p : UInt64) (s : Fin entriesPerTable) (v : UInt64) :
    (a.set? p s v).getD a = a ∨
      ∃ i tb, a.contents? i = some tb ∧ (a.set? p s v).getD a = a.put i (tb.set s v s.isLt) := by
  unfold set?
  cases a.index? p with
  | none => exact Or.inl rfl
  | some i =>
    rw [Option.bind_some]
    cases htb : a.contents? i with
    | none => exact Or.inl rfl
    | some tb => exact Or.inr ⟨i, tb, htb, rfl⟩

theorem size_set? (a : TableArray) (p : UInt64) (s : Fin entriesPerTable) (v : UInt64) :
    ((a.set? p s v).getD a).tables.size = a.tables.size := by
  rcases set?_cases a p s v with hsame | ⟨i, tb, -, hput⟩
  · rw [hsame]
  · rw [hput, size_put]

/-- a write changes the table at one address at most -/
theorem get?_set? (a : TableArray) (p q : UInt64) (s : Fin entriesPerTable) (v : UInt64) :
    ((a.set? p s v).getD a).get? q = if q = p then (a.get? p).map fun tb => tb.set s v s.isLt else a.get? q := by
  unfold set?
  cases hp : a.index? p with
  | none =>
    rw [Option.bind_none, Option.getD_none]
    split_ifs with hq
    · rw [hq, get?, hp]
      rfl
    · rfl
  | some i =>
    rw [Option.bind_some]
    cases htb : a.contents? i with
    | none =>
      rw [Option.map_none, Option.getD_none]
      split_ifs with hq
      · rw [hq, get?, hp, Option.bind_some, htb]
        rfl
      · rfl
    | some tb =>
      rw [Option.map_some, Option.getD_some]
      have hindex : (a.put i (tb.set s v s.isLt)).index? q = a.index? q := rfl
      rw [get?, get?, get?, hindex]
      split_ifs with hq
      · rw [hq, hp, Option.bind_some, Option.bind_some, htb, contents?_put_self (lt_of_contents? htb)]
        rfl
      · cases hj : a.index? q with
        | none => rfl
        | some j =>
          have hij : i ≠ j := fun hij => hq (index?_inj hj (hij ▸ hp))
          exact contents?_put_of_ne hij

/-- what `alloc?` hands out is the lowest free table -/
theorem alloc?_eq_some (h : a.alloc? = some (p, a')) : ∃ i < a.capacity, a.used.contains i = false ∧ p = a.address i ∧
    a' = a.take i ∧ ∀ j, (a.take i).used.contains j = (a.used.contains j || decide (i = j)) := by
  obtain ⟨i, hi, he⟩ := Option.map_eq_some_iff.1 h
  obtain ⟨hlt, hroom, hfree⟩ := Bitmap.firstClear_missing hi
  cases he
  exact ⟨i, hlt, hfree, rfl, rfl, contains_take hroom hfree⟩

/-- a table in use keeps its number and its contents when another one is handed out -/
theorem get?_of_alloc? (h : a.alloc? = some (p, a')) (hq : a.get? q = some tb) : a'.get? q = some tb := by
  obtain ⟨i, -, hfree, -, rfl, hused⟩ := alloc?_eq_some h
  obtain ⟨j, hj, htb⟩ := Option.bind_eq_some_iff.1 hq
  obtain ⟨haddr, hlt, hin⟩ := index?_eq_some_iff_toNat.1 hj
  have hij : i ≠ j := by
    rintro rfl
    rw [hfree] at hin
    cases hin
  have hindex : (a.take i).index? q = some j :=
    index?_eq_some_iff_toNat.2 ⟨haddr, hlt, by rw [hused, hin, Bool.true_or]⟩
  rw [get?, hindex, Option.bind_some, contents?_take_of_ne hij, htb]

/-- nor does any other address come to name a table -/
theorem get?_alloc?_of_ne (h : a.alloc? = some (p, a')) (hq : q ≠ p) : a'.get? q = a.get? q := by
  refine Option.ext fun tb => ⟨fun htb => ?_, get?_of_alloc? h⟩
  obtain ⟨i, -, -, rfl, rfl, hused⟩ := alloc?_eq_some h
  obtain ⟨j, hj, hget⟩ := Option.bind_eq_some_iff.1 htb
  obtain ⟨haddr, hlt, hin⟩ := index?_eq_some_iff_toNat.1 hj
  have hij : i ≠ j := by
    rintro rfl
    refine hq (UInt64.toNat_inj.mp ?_)
    rw [toNat_address, ← show q.toNat = a.base.toNat + i * pageSize from haddr]
    exact (Nat.mod_eq_of_lt q.toNat_lt).symm
  rw [hused, Bool.or_eq_true, decide_eq_true_eq, or_iff_left hij] at hin
  rw [contents?_take_of_ne hij] at hget
  have hindex : a.index? q = some j := index?_eq_some_iff_toNat.2 ⟨haddr, hlt, hin⟩
  rw [get?, hindex, Option.bind_some, hget]

/-- in an array that is not larger than the words, the address of a table gives its number -/
theorem number_unique (hroom : a.capacity * pageSize ≤ wordEnd) {j : ℕ} (hi : i < a.capacity) (hj : j < a.capacity)
    (haddr : (a.address i).toNat = a.base.toNat + j * pageSize) : j = i := by
  have hile : (i + 1) * pageSize ≤ a.capacity * pageSize := Nat.mul_le_mul_right _ hi
  have hjle : (j + 1) * pageSize ≤ a.capacity * pageSize := Nat.mul_le_mul_right _ hj
  have hnat := a.toNat_address i
  have hlt := (a.address i).toNat_lt
  simp only [pageSize, wordEnd, Nat.reduceShiftLeft] at *
  omega

/-- a table is handed out at an address that named none -/
theorem get?_alloc?_fresh (hroom : a.capacity * pageSize ≤ wordEnd) (h : a.alloc? = some (p, a')) : a.get? p = none := by
  obtain ⟨i, hi, hfree, rfl, -⟩ := alloc?_eq_some h
  rw [Option.eq_none_iff_forall_ne_some]
  intro tb htb
  obtain ⟨j, hj, -⟩ := Option.bind_eq_some_iff.1 htb
  obtain ⟨haddr, hlt, hin⟩ := index?_eq_some_iff_toNat.1 hj
  rw [number_unique hroom hi hlt haddr, hfree] at hin
  cases hin

/-- what it names then, if anything, is a table without entries -/
theorem eq_zeroed_of_alloc? (hroom : a.capacity * pageSize ≤ wordEnd) (hsize : a.tables.size = a.capacity)
    (h : a.alloc? = some (p, a')) (htb : a'.get? p = some tb) : tb = Table.zeroed := by
  obtain ⟨i, hi, -, rfl, rfl, -⟩ := alloc?_eq_some h
  obtain ⟨j, hj, hget⟩ := Option.bind_eq_some_iff.1 htb
  obtain ⟨haddr, hlt, -⟩ := index?_eq_some_iff_toNat.1 hj
  obtain rfl := number_unique hroom hi hlt haddr
  rw [contents?_take_self (hsize ▸ hi)] at hget
  exact (Option.some.inj hget).symm

/-- no table appears when one is taken back -/
theorem get?_of_free? (hq : ((a.free? p).getD a).get? q = some tb) : a.get? q = some tb := by
  cases hfree : a.free? p with
  | none => rwa [hfree, Option.getD_none] at hq
  | some a' =>
    rw [hfree, Option.getD_some] at hq
    obtain ⟨i, -, herase⟩ := Option.bind_eq_some_iff.1 hfree
    obtain ⟨used, hused, rfl⟩ := Option.map_eq_some_iff.1 herase
    obtain ⟨j, hj, htb⟩ := Option.bind_eq_some_iff.1 hq
    obtain ⟨haddr, hlt, hin⟩ := index?_eq_some_iff_toNat.1 hj
    rw [Bitmap.contains_erase? hused, Bool.and_eq_true] at hin
    have hindex : a.index? q = some j := index?_eq_some_iff_toNat.2 ⟨haddr, hlt, hin.1⟩
    rw [get?, hindex]
    exact htb

/-- the other tables stay when one is taken back -/
theorem get?_free?_of_ne (hne : q ≠ p) (hq : a.get? q = some tb) : ((a.free? p).getD a).get? q = some tb := by
  cases hfree : a.free? p with
  | none => rwa [Option.getD_none]
  | some a' =>
    rw [Option.getD_some]
    obtain ⟨i, hi, herase⟩ := Option.bind_eq_some_iff.1 hfree
    obtain ⟨used, hused, rfl⟩ := Option.map_eq_some_iff.1 herase
    obtain ⟨j, hj, htb⟩ := Option.bind_eq_some_iff.1 hq
    obtain ⟨haddr, hlt, hin⟩ := index?_eq_some_iff_toNat.1 hj
    have hij : i ≠ j := fun hij => hne (index?_inj hj (hij ▸ hi))
    have hindex : index? { a with used } q = some j :=
      index?_eq_some_iff_toNat.2 ⟨haddr, hlt, by simp [Bitmap.contains_erase? hused, hin, hij]⟩
    rw [get?, hindex]
    exact htb

end

/-! ## The array -/

/-- the array has a place for every table that may be handed out, at an address that is a word, and has made those that
are -/
structure Sound (a : TableArray) : Prop where
  size : a.tables.size = a.capacity
  made : ∀ i, a.used.contains i = true → ∃ tb, a.contents? i = some tb
  room : a.used.blocks.length = Bitmap.blocksFor a.capacity
  below : ∀ i, a.used.contains i = true → i < a.capacity
  fits : a.base.toNat + a.capacity * pageSize ≤ wordEnd

/-- `a'` is `a` with `o` at the address `p` -/
structure Updates (a a' : TableArray) (p : UInt64) (o : Option Table) : Prop where
  sound : a'.Sound
  base : a'.base = a.base
  capacity : a'.capacity = a.capacity
  get? : ∀ q, a'.get? q = if q = p then o else a.get? q

theorem sound_new {base : UInt64} {capacity : ℕ} (h : base.toNat + capacity * pageSize ≤ wordEnd) :
    (new base capacity).Sound where
  size := by simp [new]
  made i hi := by simp [new, Bitmap.contains_empty] at hi
  room := by simp [new, Bitmap.empty]
  below i hi := by simp [new, Bitmap.contains_empty] at hi
  fits := h

/-! ## Addresses -/

variable {a a' : TableArray} {p : UInt64} {tb : Table}

theorem address_toNat (h : a.Sound) {i : ℕ} (hi : i < a.capacity) :
    (a.address i).toNat = a.base.toNat + i * pageSize := by
  have hfits := h.fits
  have hle : (i + 1) * pageSize ≤ a.capacity * pageSize := Nat.mul_le_mul_right _ hi
  rw [toNat_address, Nat.mod_eq_of_lt]
  simp only [pageSize] at *
  omega

theorem address_inj (h : a.Sound) {i j : ℕ} (hi : i < a.capacity) (hj : j < a.capacity)
    (he : a.address i = a.address j) : i = j := by
  have hnat := congrArg UInt64.toNat he
  rw [address_toNat h hi, address_toNat h hj] at hnat
  simp only [pageSize] at hnat
  omega

theorem index?_eq_some_iff (h : a.Sound) {i : ℕ} :
    a.index? p = some i ↔ a.used.contains i = true ∧ p = a.address i := by
  rw [index?_eq_some_iff_toNat]
  constructor
  · intro hx
    rcases hx with ⟨hp, hlt, hused⟩
    exact ⟨hused, UInt64.toNat_inj.mp (hp.trans (address_toNat h hlt).symm)⟩
  · intro hx
    rcases hx with ⟨hused, rfl⟩
    have hlt := h.below i hused
    exact ⟨address_toNat h hlt, hlt, hused⟩

theorem get?_eq_some_iff (h : a.Sound) :
    a.get? p = some tb ↔ ∃ i, a.used.contains i = true ∧ p = a.address i ∧ a.contents? i = some tb := by
  unfold get?
  rw [Option.bind_eq_some_iff]
  constructor
  · intro hx
    rcases hx with ⟨i, hi, htb⟩
    obtain ⟨hused, hp⟩ := (index?_eq_some_iff h).1 hi
    exact ⟨i, hused, hp, htb⟩
  · intro hx
    rcases hx with ⟨i, hused, hp, htb⟩
    exact ⟨i, (index?_eq_some_iff h).2 ⟨hused, hp⟩, htb⟩

/-- tables lie at consecutive pages from the base on -/
theorem get?_located (h : a.Sound) (hp : a.get? p = some tb) :
    ∃ i < a.capacity, p.toNat = a.base.toNat + i * pageSize := by
  obtain ⟨i, hused, rfl, -⟩ := (get?_eq_some_iff h).1 hp
  exact ⟨i, h.below i hused, address_toNat h (h.below i hused)⟩

theorem get?_new (base : UInt64) (capacity : ℕ) (p : UInt64) : (new base capacity).get? p = none := by
  simp [get?, index?, new, Bitmap.contains_empty]

/-! ## Operations -/

/-- a change at the number `i` is a change at its address -/
theorem updates_of_slot (h : a.Sound) (h' : a'.Sound) (hbase : a'.base = a.base) (hcapacity : a'.capacity = a.capacity)
    {i : ℕ} (hi : i < a.capacity) {o : Option Table}
    (hself : ∀ tb, a'.used.contains i = true ∧ a'.contents? i = some tb ↔ o = some tb)
    (hother : ∀ j, i ≠ j → a'.used.contains j = a.used.contains j ∧ a'.contents? j = a.contents? j) :
    a.Updates a' (a.address i) o := by
  have haddr : ∀ j, a'.address j = a.address j := fun j => by rw [address, address, hbase]
  refine ⟨h', hbase, hcapacity, fun q => Option.ext fun tb => ?_⟩
  rw [get?_eq_some_iff h']
  split_ifs with hq
  · rw [← hself]
    constructor
    · intro hx
      rcases hx with ⟨j, hj, he, htb⟩
      rw [hq, haddr] at he
      obtain rfl := address_inj h hi (hcapacity ▸ h'.below j hj) he
      exact ⟨hj, htb⟩
    · intro hx
      exact ⟨i, hx.1, hq.trans (haddr i).symm, hx.2⟩
  · have hne : ∀ j, q = a.address j → i ≠ j := fun j he hij => hq (hij ▸ he)
    rw [get?_eq_some_iff h]
    constructor
    · intro hx
      rcases hx with ⟨j, hj, he, htb⟩
      rw [haddr] at he
      obtain ⟨hused, htable⟩ := hother j (hne j he)
      exact ⟨j, hused ▸ hj, he, htable ▸ htb⟩
    · intro hx
      rcases hx with ⟨j, hj, he, htb⟩
      obtain ⟨hused, htable⟩ := hother j (hne j he)
      exact ⟨j, hused.trans hj, he.trans (haddr j).symm, htable.trans htb⟩

theorem Sound.take (h : a.Sound) {i : ℕ} (hi : i < a.capacity) (hroom : i / 64 < a.used.blocks.length)
    (hfree : a.used.contains i = false) : (a.take i).Sound where
  size := (a.size_take i).trans h.size
  made j hj := by
    by_cases hij : i = j
    · subst hij
      exact ⟨_, contents?_take_self (h.size.symm ▸ hi)⟩
    · rw [contains_take hroom hfree, decide_eq_false hij, Bool.or_false] at hj
      rw [contents?_take_of_ne hij]
      exact h.made j hj
  room := by
    obtain ⟨used, hused, hlen⟩ := Bitmap.insert?_eq_some hroom hfree
    rw [TableArray.take, hused]
    exact hlen.trans h.room
  below j hj := by
    rw [contains_take hroom hfree, Bool.or_eq_true, decide_eq_true_eq] at hj
    rcases hj with hj | rfl
    · exact h.below j hj
    · exact hi
  fits := h.fits

theorem Sound.put (h : a.Sound) (i : ℕ) (tb : Table) : (a.put i tb).Sound where
  size := (a.size_put i tb).trans h.size
  made j hj := by
    by_cases hij : i = j
    · subst hij
      exact ⟨tb, contents?_put_self (h.size.symm ▸ h.below i hj)⟩
    · rw [contents?_put_of_ne hij]
      exact h.made j hj
  room := h.room
  below := h.below
  fits := h.fits

theorem Sound.set? (h : a.Sound) (p : UInt64) (s : Fin entriesPerTable) (v : UInt64) :
    ((a.set? p s v).getD a).Sound := by
  rcases set?_cases a p s v with hsame | ⟨i, tb, -, hput⟩
  · rw [hsame]
    exact h
  · rw [hput]
    exact h.put i _

/-- a table handed out is zeroed and lies at an address that named none -/
theorem alloc?_updates (h : a.Sound) (ha : a.alloc? = some (p, a')) :
    a.get? p = none ∧ a.Updates a' p (some Table.zeroed) := by
  obtain ⟨i, hi, he⟩ := Option.map_eq_some_iff.1 ha
  obtain ⟨hlt, hroom, hfree⟩ := Bitmap.firstClear_missing hi
  cases he
  constructor
  · rw [Option.eq_none_iff_forall_ne_some]
    intro tb htb
    obtain ⟨j, hj, he, -⟩ := (get?_eq_some_iff h).1 htb
    rw [← address_inj h hlt (h.below j hj) he, hfree] at hj
    exact absurd hj (by decide)
  · refine updates_of_slot h (h.take hlt hroom hfree) rfl rfl hlt (fun tb => ?_) fun j hij => ?_
    · simp [contains_take hroom hfree, contents?_take_self (h.size.symm ▸ hlt)]
    · simp [contains_take hroom hfree, contents?_take_of_ne hij, hij]

/-- a write changes one table -/
theorem set?_updates (h : a.Sound) (hp : a.get? p = some tb) (slot : Fin entriesPerTable) (value : UInt64) :
    ∃ a', a.set? p slot value = some a' ∧ a.Updates a' p (some (tb.set slot value slot.isLt)) := by
  obtain ⟨i, hused, rfl, htb⟩ := (get?_eq_some_iff h).1 hp
  have hindex := (index?_eq_some_iff h).2 ⟨hused, rfl⟩
  refine ⟨_, by rw [set?, hindex, Option.bind_some, htb, Option.map_some], ?_⟩
  refine updates_of_slot h (h.put i _) rfl rfl (h.below i hused) (fun tb' => ?_) fun j hij => ?_
  · rw [contents?_put_self (lt_of_contents? htb)]
    exact and_iff_right hused
  · exact ⟨rfl, contents?_put_of_ne hij⟩

/-- a table taken back is no longer named -/
theorem free?_updates (h : a.Sound) (hp : a.get? p = some tb) : ∃ a', a.free? p = some a' ∧ a.Updates a' p none := by
  obtain ⟨i, hcontains, rfl, -⟩ := (get?_eq_some_iff h).1 hp
  have hindex := (index?_eq_some_iff h).2 ⟨hcontains, rfl⟩
  obtain ⟨used, hused, hlen⟩ := Bitmap.erase?_eq_some hcontains
  have hkept : ∀ j, used.contains j = true → a.used.contains j = true := by
    intro j hj
    rw [Bitmap.contains_erase? hused, Bool.and_eq_true] at hj
    exact hj.1
  have hsound : TableArray.Sound { a with used } :=
    { h with
      made := fun j hj => h.made j (hkept j hj)
      room := hlen.trans h.room
      below := fun j hj => h.below j (hkept j hj) }
  refine ⟨_, by rw [free?, hindex, Option.bind_some, hused, Option.map_some], ?_⟩
  refine updates_of_slot h hsound rfl rfl (h.below i hcontains) (fun tb' => ?_) fun j hij => ?_
  · simp [Bitmap.contains_erase? hused]
  · exact ⟨by simp [Bitmap.contains_erase? hused, hij], rfl⟩

end TableArray
end NestedGuest
