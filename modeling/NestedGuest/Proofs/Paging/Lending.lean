/-
The array of tables over time: tables on loan.

`TableArray.Reaches base capacity turns a` says that `turns`, newest first, lead from a new array to `a`. Which address
names a table then, and what is in it, follows from the turns alone (`lent`): a loan begins with zeros, only a write to
its address changes a table, and a loan ends when the table is taken back. The array marks its loans in a bitmap and
keeps the contents of tables apart from that, stale ones among them; `Carries` is how the two stay together.

- `loans_exact`: the array names the tables on loan and no others, hands out the lowest that is free and counts them.
  Premise: the storage ends where addresses do.
-/
import NestedGuest.Proofs.Bitmap.Members
import NestedGuest.Proofs.Paging.TableArray

namespace NestedGuest

/-- what is asked of an array of tables -/
inductive TableRequest where
  | alloc
  | free (phys : UInt64)
  | write (phys : UInt64) (slot : Fin entriesPerTable) (value : UInt64)
deriving DecidableEq, Repr

/-- a request that was served; `phys` is where a table was handed out, if there was one -/
inductive TableTurn where
  | alloc (phys : Option UInt64)
  | free (phys : UInt64)
  | write (phys : UInt64) (slot : Fin entriesPerTable) (value : UInt64)
deriving DecidableEq, Repr

/-- a request that fails leaves the array as it is -/
def TableRequest.serve (a : TableArray) : TableRequest → TableTurn × TableArray
  | .alloc =>
    match a.alloc? with
    | some (phys, a') => (.alloc (some phys), a')
    | none => (.alloc none, a)
  | .free phys => (.free phys, (a.free? phys).getD a)
  | .write phys slot value => (.write phys slot value, (a.set? phys slot value).getD a)

/-- the tables on loan by their addresses -/
abbrev Loans := UInt64 → Option Table

/-- the loans after a turn, from those before it -/
def TableTurn.lend (m : Loans) : TableTurn → Loans
  | alloc (some phys) => Function.update m phys (some Table.zeroed)
  | alloc none => m
  | free phys => Function.update m phys none
  | write phys slot value => Function.update m phys ((m phys).map fun tb => tb.set slot value slot.isLt)

namespace TableArray

variable {base : UInt64} {capacity : ℕ} {turns : List TableTurn} {m : Loans} {a a' : TableArray} {p : UInt64} {i : ℕ}

/-- the loans after `turns`, newest first -/
def lent (turns : List TableTurn) : Loans := turns.foldr (fun turn m => turn.lend m) fun _ => none

/-- the address of table `i` -/
def tableAt (base : UInt64) (i : ℕ) : UInt64 := UInt64.ofNat (base.toNat + i * pageSize)

/-- the numbers of the tables on loan -/
def lentNumbers (base : UInt64) (capacity : ℕ) (m : Loans) : Finset ℕ :=
  (Finset.range capacity).filter fun i => (m (tableAt base i)).isSome = true

theorem mem_lentNumbers : i ∈ lentNumbers base capacity m ↔ i < capacity ∧ (m (tableAt base i)).isSome = true := by
  rw [lentNumbers, Finset.mem_filter, Finset.mem_range]

/-! ## One array -/

theorem address_eq_tableAt (a : TableArray) (i : ℕ) : a.address i = tableAt a.base i := by
  rw [← UInt64.toNat_inj, toNat_address, tableAt, UInt64.toNat_ofNat']
  rfl

theorem Sound.contains_iff (h : a.Sound) : a.used.contains i = true ↔ i ∈ lentNumbers a.base a.capacity a.get? := by
  rw [mem_lentNumbers, ← address_eq_tableAt, Option.isSome_iff_exists]
  constructor
  · intro hused
    obtain ⟨tb, htb⟩ := h.made i hused
    exact ⟨h.below i hused, tb, (get?_eq_some_iff h).2 ⟨i, hused, rfl, htb⟩⟩
  · rintro ⟨hi, tb, htb⟩
    obtain ⟨j, hused, haddr, -⟩ := (get?_eq_some_iff h).1 htb
    rw [address_inj h hi (h.below j hused) haddr]
    exact hused

theorem Sound.inUse_eq (h : a.Sound) : a.inUse = (lentNumbers a.base a.capacity a.get?).card := by
  have hmembers : a.used.members = lentNumbers a.base a.capacity a.get? := by
    ext i
    rw [Bitmap.mem_members, h.contains_iff]
  rw [inUse, Bitmap.count_eq, hmembers]

/-- the lowest free table is handed out -/
theorem Sound.isLeast_alloc? (h : a.Sound) (halloc : a.alloc? = some (p, a')) :
    ∃ i, IsLeast {j | j < a.capacity ∧ j ∉ lentNumbers a.base a.capacity a.get?} i ∧ p = a.address i := by
  obtain ⟨i, hfound, he⟩ := Option.map_eq_some_iff.1 halloc
  obtain ⟨hi, -, hfree⟩ := Bitmap.firstClear_missing hfound
  cases he
  refine ⟨i, ⟨⟨hi, ?_⟩, ?_⟩, rfl⟩
  · rw [← h.contains_iff, hfree]
    exact Bool.false_ne_true
  · rintro j ⟨-, hj⟩
    by_contra hlt
    exact hj (h.contains_iff.1 (Bitmap.firstClear_least hfound (Nat.lt_of_not_le hlt)))

/-- there is none exactly if all tables are on loan -/
theorem Sound.alloc?_eq_none_iff (h : a.Sound) :
    a.alloc? = none ↔ ∀ j < a.capacity, j ∈ lentNumbers a.base a.capacity a.get? := by
  have hroom : a.capacity ≤ 64 * a.used.blocks.length := by
    rw [h.room, Bitmap.blocksFor]
    omega
  rw [alloc?, Option.map_eq_none_iff, Bitmap.firstClear_eq_none_iff hroom]
  exact forall₂_congr fun j _ => h.contains_iff

/-- a table can be taken back exactly if its address names one -/
theorem Sound.free?_isSome_iff (h : a.Sound) : (a.free? p).isSome = true ↔ (a.get? p).isSome = true := by
  rw [Option.isSome_iff_exists, Option.isSome_iff_exists]
  constructor
  · rintro ⟨a', hfree⟩
    obtain ⟨i, hindex, -⟩ := Option.bind_eq_some_iff.1 hfree
    obtain ⟨hused, hp⟩ := (index?_eq_some_iff h).1 hindex
    obtain ⟨tb, htb⟩ := h.made i hused
    exact ⟨tb, (get?_eq_some_iff h).2 ⟨i, hused, hp, htb⟩⟩
  · rintro ⟨tb, htb⟩
    obtain ⟨a', hfree, -⟩ := free?_updates h htb
    exact ⟨a', hfree⟩

/-- a table can be written exactly if it can be read -/
theorem set?_isSome_iff (s : Fin entriesPerTable) (v : UInt64) :
    (a.set? p s v).isSome = true ↔ (a.get? p).isSome = true := by
  unfold set? get?
  cases a.index? p with
  | none => exact Iff.rfl
  | some i => rw [Option.bind_some, Option.bind_some, Option.isSome_map]

/-! ## One turn -/

/-- `a` is an array of `capacity` tables from `base` on, and the loans are `m` -/
structure Carries (base : UInt64) (capacity : ℕ) (m : Loans) (a : TableArray) : Prop where
  sound : a.Sound
  base_eq : a.base = base
  capacity_eq : a.capacity = capacity
  get?_eq : a.get? = m

namespace Carries

theorem new (hfits : base.toNat + capacity * pageSize ≤ wordEnd) :
    Carries base capacity (fun _ => none) (TableArray.new base capacity) where
  sound := sound_new hfits
  base_eq := rfl
  capacity_eq := rfl
  get?_eq := funext fun p => get?_new base capacity p

theorem update (h : Carries base capacity m a) {o : Option Table} (hu : a.Updates a' p o) :
    Carries base capacity (Function.update m p o) a' where
  sound := hu.sound
  base_eq := hu.base.trans h.base_eq
  capacity_eq := hu.capacity.trans h.capacity_eq
  get?_eq := by
    funext q
    rw [hu.get?, h.get?_eq, Function.update_apply]

theorem alloc (h : Carries base capacity m a) :
    Carries base capacity ((TableRequest.alloc.serve a).1.lend m) (TableRequest.alloc.serve a).2 := by
  unfold TableRequest.serve
  cases halloc : a.alloc? with
  | none => exact h
  | some x =>
    obtain ⟨p, a'⟩ := x
    exact h.update (alloc?_updates h.sound halloc).2

theorem free (h : Carries base capacity m a) (p : UInt64) :
    Carries base capacity (Function.update m p none) ((a.free? p).getD a) := by
  cases hp : a.get? p with
  | none =>
    have hnone : a.free? p = none := by
      rw [← Option.not_isSome_iff_eq_none, h.sound.free?_isSome_iff, hp]
      exact Bool.false_ne_true
    rw [hnone, ← hp, h.get?_eq, Function.update_eq_self]
    exact h
  | some tb =>
    obtain ⟨a', hfree, hu⟩ := free?_updates h.sound hp
    rw [hfree]
    exact h.update hu

theorem write (h : Carries base capacity m a) (p : UInt64) (s : Fin entriesPerTable) (v : UInt64) :
    Carries base capacity (Function.update m p ((m p).map fun tb => tb.set s v s.isLt)) ((a.set? p s v).getD a) := by
  rw [← h.get?_eq]
  cases hp : a.get? p with
  | none =>
    have hnone : a.set? p s v = none := by
      rw [← Option.not_isSome_iff_eq_none, set?_isSome_iff, hp]
      exact Bool.false_ne_true
    rw [hnone, Option.map_none, ← hp, Function.update_eq_self, h.get?_eq]
    exact h
  | some tb =>
    obtain ⟨a', hset, hu⟩ := set?_updates h.sound hp s v
    rw [hset, Option.map_some, h.get?_eq]
    exact h.update hu

/-- a request does to the array what its turn does to the loans -/
theorem serve (h : Carries base capacity m a) (request : TableRequest) :
    Carries base capacity ((request.serve a).1.lend m) (request.serve a).2 := by
  cases request with
  | alloc => exact h.alloc
  | free p => exact h.free p
  | write p s v => exact h.write p s v

end Carries

/-! ## All turns -/

/-- `turns`, newest first, lead from a new array to `a` -/
inductive Reaches (base : UInt64) (capacity : ℕ) : List TableTurn → TableArray → Prop
  | new : Reaches base capacity [] (.new base capacity)
  | serve {turns : List TableTurn} {a : TableArray} (h : Reaches base capacity turns a) (request : TableRequest) :
      Reaches base capacity ((request.serve a).1 :: turns) (request.serve a).2

theorem Reaches.carries (hfits : base.toNat + capacity * pageSize ≤ wordEnd) (h : Reaches base capacity turns a) :
    Carries base capacity (lent turns) a := by
  induction h with
  | new => exact .new hfits
  | serve _ request ih => exact ih.serve request

/-! ## Main result -/

/-- how an array of `capacity` tables from `base` on stands for the loans `m` -/
structure Lends (base : UInt64) (capacity : ℕ) (m : Loans) (a : TableArray) : Prop where
  /-- a table on loan is one of the array; there is none at any other address -/
  located : ∀ p, (m p).isSome = true → ∃ i < capacity, p.toNat = base.toNat + i * pageSize
  get? : ∀ p, a.get? p = m p
  set?_iff : ∀ p s v, (a.set? p s v).isSome = true ↔ (m p).isSome = true
  free?_iff : ∀ p, (a.free? p).isSome = true ↔ (m p).isSome = true
  /-- the lowest table that is free -/
  alloc?_eq_some_iff : ∀ p, (∃ a', a.alloc? = some (p, a')) ↔
    ∃ i, IsLeast {j | j < capacity ∧ j ∉ lentNumbers base capacity m} i ∧ p.toNat = base.toNat + i * pageSize
  alloc?_eq_none_iff : a.alloc? = none ↔ lentNumbers base capacity m = Finset.range capacity
  inUse : a.inUse = (lentNumbers base capacity m).card

theorem Sound.lends (h : a.Sound) : Lends a.base a.capacity a.get? a where
  located p hp := by
    obtain ⟨tb, htb⟩ := Option.isSome_iff_exists.1 hp
    exact get?_located h htb
  get? p := rfl
  set?_iff p s v := set?_isSome_iff s v
  free?_iff p := h.free?_isSome_iff
  alloc?_eq_some_iff p := by
    constructor
    · rintro ⟨a', halloc⟩
      obtain ⟨i, hleast, rfl⟩ := h.isLeast_alloc? halloc
      exact ⟨i, hleast, address_toNat h hleast.1.1⟩
    · rintro ⟨i, hleast, hp⟩
      cases halloc : a.alloc? with
      | none => exact absurd (h.alloc?_eq_none_iff.1 halloc i hleast.1.1) hleast.1.2
      | some x =>
        obtain ⟨q, a'⟩ := x
        obtain ⟨j, hleast', rfl⟩ := h.isLeast_alloc? halloc
        obtain rfl := hleast.unique hleast'
        rw [← address_toNat h hleast.1.1] at hp
        exact ⟨a', by rw [UInt64.toNat_inj.1 hp]⟩
  alloc?_eq_none_iff := by
    rw [h.alloc?_eq_none_iff]
    constructor
    · intro hall
      exact Finset.filter_true_of_mem fun i hi => (mem_lentNumbers.1 (hall i (Finset.mem_range.1 hi))).2
    · intro hall j hj
      rw [hall]
      exact Finset.mem_range.2 hj
  inUse := h.inUse_eq

/-- **Tables are lent exactly.** Whatever was asked of an array, addresses that name no table among it, an address names
a table exactly if it was handed out there and not taken back since. The table holds zeros but for what was written to
it in between, so tables on loan share nothing, and nothing is left of an earlier loan. -/
theorem loans_exact (hfits : base.toNat + capacity * pageSize ≤ wordEnd) (h : Reaches base capacity turns a) :
    Lends base capacity (lent turns) a := by
  obtain ⟨hsound, rfl, rfl, hget⟩ := h.carries hfits
  rw [← hget]
  exact hsound.lends

/-- serves one more request -/
def serveNext (run : List TableTurn × TableArray) (request : TableRequest) : List TableTurn × TableArray :=
  ((request.serve run.2).1 :: run.1, (request.serve run.2).2)

theorem Reaches.serveAll (requests : List TableRequest) {run : List TableTurn × TableArray}
    (h : Reaches base capacity run.1 run.2) :
    Reaches base capacity (requests.foldl serveNext run).1 (requests.foldl serveNext run).2 :=
  List.foldlRecOn requests serveNext (motive := fun run => Reaches base capacity run.1 run.2) h
    fun _ hrun request _ => hrun.serve request

/-- all three tables are handed out, and a fourth is asked for; the second one is written, taken back twice and handed
out again -/
def relendingRequests : List TableRequest :=
  [.alloc, .alloc, .alloc, .alloc, .write 0x101000 ⟨7, by decide⟩ 0xdead, .free 0x101000, .free 0x101000, .alloc]

/-- three new tables after these requests -/
def relendingRun : List TableTurn × TableArray := relendingRequests.foldl serveNext ([], .new 0x100000 3)

/-- the second table is the one handed out again, and the array holds nothing of what was written there -/
theorem loans_exact_relending :
    Reaches 0x100000 3 relendingRun.1 relendingRun.2 ∧ Lends 0x100000 3 (lent relendingRun.1) relendingRun.2 ∧
      relendingRun.1 =
        [.alloc (some 0x101000), .free 0x101000, .free 0x101000, .write 0x101000 ⟨7, by decide⟩ 0xdead, .alloc none,
          .alloc (some 0x102000), .alloc (some 0x101000), .alloc (some 0x100000)] ∧
      relendingRun.2.get? 0x101000 = some Table.zeroed := by
  have hreach : Reaches 0x100000 3 relendingRun.1 relendingRun.2 := Reaches.serveAll _ .new
  have hturns : relendingRun.1 =
      [.alloc (some 0x101000), .free 0x101000, .free 0x101000, .write 0x101000 ⟨7, by decide⟩ 0xdead, .alloc none,
        .alloc (some 0x102000), .alloc (some 0x101000), .alloc (some 0x100000)] := by decide +kernel
  have hlends := loans_exact (by decide) hreach
  refine ⟨hreach, hlends, hturns, ?_⟩
  rw [hlends.get?, hturns, lent, List.foldr_cons, TableTurn.lend, Function.update_self]

end TableArray
end NestedGuest
