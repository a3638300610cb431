/-
What can be read from an entry of what it was made from.

A leaf gives back its target, whether it is large, and the attributes that its format has (`EntryFormat.normal`): that
the guest may write and execute, that device memory and uncached memory are not cached, and under `hpt` alone that the
translation is one of user mode and global. Nothing else of the attributes is needed to make the leaf.

Attributes are sets of bits. Two of them are alike to a leaf if they share what the format keeps and agree on whether
the memory may be cached (`leaf_congr`); what is read from a leaf is an intersection, one attribute after the other
(`flags_leaf_eq_normal`).

- `leaf_eq_iff`: leaves are the same word exactly if nothing that the format expresses differs.
- `codec_lossless`: what is read from leaves and references, for every page, all attributes and both formats.
-/
import Mathlib.Data.Nat.Bitwise
import Mathlib.Tactic
import NestedGuest.Proofs.Paging.Entries

namespace NestedGuest

/-! ## Sets of attributes -/

namespace PageFlags

/-- the attributes of both -/
def inter (f g : PageFlags) : PageFlags := ⟨f.bits &&& g.bits⟩

instance : Std.Commutative union := ⟨fun f g => congrArg mk (UInt32.or_comm f.bits g.bits)⟩

instance : Std.Associative union := ⟨fun f g h => congrArg mk (UInt32.or_assoc f.bits g.bits h.bits)⟩

variable {f f' g : PageFlags}

theorem inter_comm (f g : PageFlags) : f.inter g = g.inter f := congrArg mk (UInt32.and_comm f.bits g.bits)

theorem inter_assoc (f g h : PageFlags) : (f.inter g).inter h = f.inter (g.inter h) :=
  congrArg mk (UInt32.and_assoc f.bits g.bits h.bits)

@[simp] theorem inter_empty (f : PageFlags) : f.inter empty = empty := congrArg mk UInt32.and_zero

@[simp] theorem empty_inter (f : PageFlags) : empty.inter f = empty := congrArg mk UInt32.zero_and

@[simp] theorem union_empty (f : PageFlags) : f.union empty = f := congrArg mk UInt32.or_zero

@[simp] theorem empty_union (f : PageFlags) : empty.union f = f := congrArg mk UInt32.zero_or

theorem inter_union (f g h : PageFlags) : f.inter (g.union h) = (f.inter g).union (f.inter h) := by
  apply congrArg mk
  apply UInt32.toNat_inj.mp
  simp only [union, inter, UInt32.toNat_and, UInt32.toNat_or, Nat.and_or_distrib_left]

theorem union_inter (f g h : PageFlags) : (f.union g).inter h = (f.inter h).union (g.inter h) := by
  rw [inter_comm, inter_union, inter_comm h, inter_comm h]

theorem onlyIf_inter (b : Bool) (f g : PageFlags) : (onlyIf b f).inter g = onlyIf b (f.inter g) := by
  cases b
  · exact empty_inter g
  · rfl

theorem contains_congr (hinter : f.inter g = f'.inter g) : f.contains g = f'.contains g := by
  have hbits : f.bits &&& g.bits = f'.bits &&& g.bits := congrArg bits hinter
  simp only [contains, hbits]

theorem intersects_congr (hinter : f.inter g = f'.inter g) : f.intersects g = f'.intersects g := by
  have hbits : f.bits &&& g.bits = f'.bits &&& g.bits := congrArg bits hinter
  simp only [intersects, hbits]

/-- a single attribute is there, or nothing of it is -/
theorem onlyIf_contains {k : ℕ} (hg : g.bits.toNat = 2 ^ k) (f : PageFlags) : onlyIf (f.contains g) g = f.inter g := by
  have hand : (f.bits &&& g.bits).toNat = (f.bits.toNat.testBit k).toNat * 2 ^ k := by
    rw [UInt32.toNat_and, hg, Nat.and_two_pow]
  cases hbit : f.bits.toNat.testBit k with
  | true =>
    have hinter : f.bits &&& g.bits = g.bits := by
      apply UInt32.toNat_inj.mp
      rw [hand, hbit, hg, Bool.toNat_true, one_mul]
    simp [contains, inter, hinter, onlyIf]
  | false =>
    have hinter : f.bits &&& g.bits = 0 := by
      apply UInt32.toNat_inj.mp
      rw [hand, hbit, Bool.toNat_false, zero_mul]
      rfl
    have hne : ¬0 = g.bits := by
      rintro hzero
      rw [← hzero] at hg
      exact (Nat.two_pow_pos k).ne hg
    simp [contains, inter, hinter, onlyIf, hne, empty]

end PageFlags

namespace EntryFormat

open PageFlags

variable {f : EntryFormat} {flags flags' : PageFlags} {phys phys' : UInt64} {isLarge isLarge' : Bool}

/-! ## What a format keeps -/

/-- the attributes that an entry shows as they are -/
def kept : EntryFormat → PageFlags
  | .hpt => ((PageFlags.write.union .execute).union .user).union .global
  | .ept => PageFlags.write.union .execute

/-- memory that is not to be cached -/
def uncacheable : PageFlags := .union .uncached .device

/-- what is left of `flags` in a leaf: the attributes kept, and that the memory is uncached -/
def normal (f : EntryFormat) (flags : PageFlags) : PageFlags :=
  (flags.inter f.kept).union (.onlyIf (flags.intersects uncacheable) .uncached)

/-- a leaf depends on no other attribute -/
theorem leaf_congr (hkept : flags.inter f.kept = flags'.inter f.kept)
    (huncacheable : flags.intersects uncacheable = flags'.intersects uncacheable) (phys : UInt64) (isLarge : Bool) :
    f.leaf phys flags isLarge = f.leaf phys flags' isLarge := by
  have hcontains : ∀ g, f.kept.inter g = g → flags.contains g = flags'.contains g := by
    intro g hg
    apply contains_congr
    rw [← hg, ← inter_assoc, hkept, inter_assoc]
  rw [uncacheable] at huncacheable
  cases f with
  | hpt =>
    rw [leaf, leaf, huncacheable, hcontains .write (by decide), hcontains .user (by decide),
      hcontains .global (by decide), hcontains .execute (by decide)]
  | ept => rw [leaf, leaf, huncacheable, hcontains .write (by decide), hcontains .execute (by decide)]

theorem normal_inter_kept (f : EntryFormat) (flags : PageFlags) :
    (f.normal flags).inter f.kept = flags.inter f.kept := by
  have hkept : f.kept.inter f.kept = f.kept := by cases f <;> decide
  have hrest : PageFlags.uncached.inter f.kept = .empty := by cases f <;> decide
  rw [normal, union_inter, inter_assoc, hkept, onlyIf_inter, hrest]
  cases flags.intersects uncacheable <;> exact union_empty _

theorem normal_intersects (f : EntryFormat) (flags : PageFlags) :
    (f.normal flags).intersects uncacheable = flags.intersects uncacheable := by
  have hkept : f.kept.inter uncacheable = .empty := by cases f <;> decide
  have hsame : (f.normal flags).inter uncacheable =
      (PageFlags.onlyIf (flags.intersects uncacheable) .uncached).inter uncacheable := by
    rw [normal, union_inter, inter_assoc, hkept, inter_empty, empty_union]
  rw [intersects_congr hsame]
  cases flags.intersects uncacheable <;> decide

/-- what an entry does not express can as well be left out -/
theorem leaf_normal (f : EntryFormat) (phys : UInt64) (flags : PageFlags) (isLarge : Bool) :
    f.leaf phys (f.normal flags) isLarge = f.leaf phys flags isLarge :=
  leaf_congr (normal_inter_kept f flags) (normal_intersects f flags) phys isLarge

/-! ## Reading attributes -/

/-- what a leaf is made of, apart from its target and its size -/
def attributes : EntryFormat → List UInt64
  | .hpt => [LongMode.present, LongMode.readWrite, LongMode.user, LongMode.global, LongMode.writeThrough,
      LongMode.cacheDisable, LongMode.noExecute]
  | .ept => [Extended.read, Extended.write, Extended.execute, Extended.writeBack]

/-- they are apart -/
theorem hasBits_attributes {a b : UInt64} (ha : a ∈ f.attributes) (hb : b ∈ f.attributes) :
    hasBits a b = decide (a = b) := by
  have hall : (f.attributes.all fun a => f.attributes.all fun b => hasBits a b == decide (a = b)) = true := by
    cases f <;> decide
  exact beq_iff_eq.1 (List.all_eq_true.1 (List.all_eq_true.1 hall a ha) b hb)

/-- of those of an extended leaf, only the memory type of cached memory is a memory type -/
theorem hasBits_memoryType {a : UInt64} (ha : a ∈ EntryFormat.ept.attributes) :
    hasBits a Extended.memoryType = decide (a = Extended.writeBack) := by
  have hall : (EntryFormat.ept.attributes.all fun a =>
      hasBits a Extended.memoryType == decide (a = Extended.writeBack)) = true := by decide
  exact beq_iff_eq.1 (List.all_eq_true.1 hall a ha)

/-- what is read from a leaf is what its format keeps of the attributes -/
theorem flags_leaf_eq_normal (f : EntryFormat) (phys : UInt64) (flags : PageFlags) (isLarge : Bool) :
    f.flags (f.leaf phys flags isLarge) = f.normal flags := by
  have hwrite : PageFlags.onlyIf (flags.contains .write) .write = flags.inter .write :=
    onlyIf_contains (k := 0) rfl flags
  have hexecute : PageFlags.onlyIf (flags.contains .execute) .execute = flags.inter .execute :=
    onlyIf_contains (k := 1) rfl flags
  rw [flags_leaf, normal, uncacheable]
  cases f with
  | hpt =>
    have huser : PageFlags.onlyIf (flags.contains .user) .user = flags.inter .user :=
      onlyIf_contains (k := 2) rfl flags
    have hglobal : PageFlags.onlyIf (flags.contains .global) .global = flags.inter .global :=
      onlyIf_contains (k := 3) rfl flags
    simp +decide [EntryFormat.flags, leaf, hasBits_attributes (f := .hpt), hwrite, hexecute, huser, hglobal, kept,
      inter_union]
    ac_rfl
  | ept =>
    simp +decide [EntryFormat.flags, leaf, hasBits_attributes (f := .ept), hasBits_memoryType, hwrite, hexecute, kept,
      inter_union]

/-! ## Main results -/

/-- Leaves of pages are the same word exactly if they agree in all that the format expresses. -/
theorem leaf_eq_iff (hphys : phys.toNat % pageSize = 0 ∧ phys.toNat < physAddressEnd)
    (hphys' : phys'.toNat % pageSize = 0 ∧ phys'.toNat < physAddressEnd) :
    f.leaf phys flags isLarge = f.leaf phys' flags' isLarge' ↔
      phys = phys' ∧ f.normal flags = f.normal flags' ∧ isLarge = isLarge' := by
  constructor
  · intro heq
    refine ⟨?_, ?_, ?_⟩
    · rw [← entryAddress_of_aligned hphys.1 hphys.2, ← entryAddress_leaf f phys flags isLarge, heq, entryAddress_leaf,
        entryAddress_of_aligned hphys'.1 hphys'.2]
    · rw [← flags_leaf_eq_normal f phys flags isLarge, heq, flags_leaf_eq_normal]
    · rw [← large_leaf f phys flags isLarge, heq, large_leaf]
  · rintro ⟨rfl, hnormal, rfl⟩
    rw [← leaf_normal, hnormal, leaf_normal]

/-- What is read from `e`, a leaf that maps `phys`. -/
structure ReadsLeaf (f : EntryFormat) (e phys : UInt64) (flags : PageFlags) (isLarge : Bool) : Prop where
  present : f.present e = true
  address : entryAddress e = phys
  large : f.large e = isLarge
  flags : f.flags e = f.normal flags
  /-- the leaf can be made again from what is read -/
  again : f.leaf phys (f.flags e) isLarge = e
  ne_zero : e ≠ 0

/-- What is read from `e`, a reference to the table at `phys`. -/
structure ReadsTable (f : EntryFormat) (e phys : UInt64) : Prop where
  present : f.present e = true
  address : entryAddress e = phys
  large : f.large e = false
  /-- what the guest may do is left to the leaves -/
  write : (f.flags e).contains .write = true
  execute : (f.flags e).contains .execute = true
  ne_zero : e ≠ 0

/-- **Entries lose nothing that their format can express.** For both formats, every page that an entry can hold and all
attributes, also bits without a name: a leaf is present, gives back its target, whether it is large and its attributes
in their normal form, from which the same leaf is made again. A reference is present, not large, gives back the address
of the table and grants the right to write and to execute. Neither is ever 0, which is absent. -/
theorem codec_lossless (f : EntryFormat) (haligned : phys.toNat % pageSize = 0) (hend : phys.toNat < physAddressEnd)
    (flags : PageFlags) (isLarge : Bool) :
    f.ReadsLeaf (f.leaf phys flags isLarge) phys flags isLarge ∧ f.ReadsTable (f.table phys) phys ∧
      f.present 0 = false := by
  have haddress := entryAddress_of_aligned haligned hend
  have hleaf := present_leaf f phys flags isLarge
  have htable := present_table f phys
  refine ⟨?_, ?_, present_zero f⟩
  · have hflags := flags_leaf_eq_normal f phys flags isLarge
    exact {
      present := hleaf
      address := by rw [entryAddress_leaf, haddress]
      large := large_leaf f phys flags isLarge
      flags := hflags
      again := by rw [hflags, leaf_normal]
      ne_zero := ne_zero_of_present hleaf }
  · have hgrants : (f.flags (f.table 0)).contains .write = true ∧ (f.flags (f.table 0)).contains .execute = true := by
      cases f <;> decide
    rw [← flags_table f phys] at hgrants
    exact {
      present := htable
      address := by rw [entryAddress_table, haddress]
      large := large_table f phys
      write := hgrants.1
      execute := hgrants.2
      ne_zero := ne_zero_of_present htable }

/-- the last page that an entry can hold, as device memory that may be executed and is global, among bits without a
name -/
theorem codec_lossless_device :
    (0xffffffffff000 : UInt64).toNat % pageSize = 0 ∧ (0xffffffffff000 : UInt64).toNat < physAddressEnd ∧
      (∀ f : EntryFormat, f.ReadsLeaf (f.leaf 0xffffffffff000 ⟨0xdeadbe1a⟩ true) 0xffffffffff000 ⟨0xdeadbe1a⟩ true ∧
        f.ReadsTable (f.table 0xffffffffff000) 0xffffffffff000 ∧ f.present 0 = false) ∧
      EntryFormat.hpt.leaf 0xffffffffff000 ⟨0xdeadbe1a⟩ true = 0xffffffffff199 ∧
      EntryFormat.hpt.normal ⟨0xdeadbe1a⟩ = (PageFlags.execute.union .global).union .uncached ∧
      EntryFormat.ept.leaf 0xffffffffff000 ⟨0xdeadbe1a⟩ true = 0xffffffffff085 ∧
      EntryFormat.ept.normal ⟨0xdeadbe1a⟩ = PageFlags.execute.union .uncached := by
  have haligned : (0xffffffffff000 : UInt64).toNat % pageSize = 0 := by decide
  have hend : (0xffffffffff000 : UInt64).toNat < physAddressEnd := by decide
  exact ⟨haligned, hend, fun f => codec_lossless f haligned hend _ _, by decide, by decide, by decide, by decide⟩

end EntryFormat
end NestedGuest
