/-
What the codecs of both entry formats agree on: an entry that refers to a table is present, not large and gives back the
address of the table; a leaf is present, large as asked and gives back its address; the attributes read from a leaf
depend on the attributes written alone.
-/
import Mathlib.Tactic
import NestedGuest.Paging.Entry

namespace NestedGuest

/-! ## Bits of a word -/

theorem and_or_distrib (a b m : UInt64) : (a ||| b) &&& m = a &&& m ||| b &&& m := by
  apply UInt64.toNat_inj.mp
  simp only [UInt64.toNat_and, UInt64.toNat_or, Nat.and_or_distrib_right]

@[simp] theorem hasBits_or (a b m : UInt64) : hasBits (a ||| b) m = (hasBits a m || hasBits b m) := by
  rw [Bool.eq_iff_iff]
  simp only [hasBits, and_or_distrib, bne_iff_ne, ne_eq, UInt64.or_eq_zero_iff, Bool.or_eq_true]
  tauto

@[simp] theorem hasBits_bitsIf (c : Bool) (bits m : UInt64) : hasBits (bitsIf c bits) m = (c && hasBits bits m) := by
  cases c <;> simp [bitsIf, hasBits]

/-- bits outside the address are not those of an address -/
theorem hasBits_entryAddress {p m : UInt64} (hm : addressMask &&& m = 0) : hasBits (entryAddress p) m = false := by
  simp [hasBits, entryAddress, UInt64.and_assoc, hm]

theorem entryAddress_or (a b : UInt64) : entryAddress (a ||| b) = entryAddress a ||| entryAddress b :=
  and_or_distrib a b addressMask

theorem entryAddress_bitsIf {bits : UInt64} (h : entryAddress bits = 0) (c : Bool) : entryAddress (bitsIf c bits) = 0 := by
  cases c
  · simp [bitsIf, entryAddress]
  · exact h

@[simp] theorem entryAddress_idem (p : UInt64) : entryAddress (entryAddress p) = entryAddress p := by
  simp [entryAddress, UInt64.and_assoc]

/-- a page-aligned address that an entry can hold is kept as it is -/
theorem entryAddress_of_aligned {p : UInt64} (ha : p.toNat % pageSize = 0) (hp : p.toNat < physAddressEnd) :
    entryAddress p = p := by
  have hmask : addressMask.toNat = (2 ^ 40 - 1) <<< 12 := by decide
  have hshift : p.toNat = (p.toNat / 2 ^ 12) <<< 12 := by
    rw [Nat.shiftLeft_eq]
    simp only [pageSize] at ha
    omega
  have hlt : p.toNat / 2 ^ 12 < 2 ^ 40 := by
    simp only [physAddressEnd] at hp
    omega
  apply UInt64.toNat_inj.mp
  calc (entryAddress p).toNat = p.toNat &&& addressMask.toNat := UInt64.toNat_and _ _
    _ = (p.toNat / 2 ^ 12 &&& 2 ^ 40 - 1) <<< 12 := by rw [Nat.shiftLeft_and_distrib, ← hshift, hmask]
    _ = (p.toNat / 2 ^ 12) <<< 12 := by rw [Nat.and_two_pow_sub_one_of_lt_two_pow hlt]
    _ = p.toNat := hshift.symm

/-- no attribute lies among the bits of the address -/
theorem entryAddress_attribute : ∀ bits ∈ [LongMode.present, LongMode.readWrite, LongMode.user, LongMode.writeThrough,
    LongMode.cacheDisable, LongMode.large, LongMode.global, LongMode.noExecute, Extended.read, Extended.write,
    Extended.execute, Extended.writeBack, Extended.large], entryAddress bits = 0 := by
  refine List.forall_iff_forall_mem.1 ?_
  decide

/-- no other attribute marks a leaf as large -/
theorem hasBits_large_longMode : ∀ bits ∈ [LongMode.present, LongMode.readWrite, LongMode.user, LongMode.writeThrough,
    LongMode.cacheDisable, LongMode.global, LongMode.noExecute], hasBits bits LongMode.large = false := by
  refine List.forall_iff_forall_mem.1 ?_
  decide

theorem hasBits_large_extended : ∀ bits ∈ [Extended.read, Extended.write, Extended.execute, Extended.writeBack],
    hasBits bits Extended.large = false := by
  refine List.forall_iff_forall_mem.1 ?_
  decide

/-! ## The codecs -/

namespace EntryFormat

theorem present_zero (f : EntryFormat) : f.present 0 = false := by cases f <;> decide

theorem present_table (f : EntryFormat) (p : UInt64) : f.present (f.table p) = true := by
  cases f <;> simp +decide [present, table]

theorem large_table (f : EntryFormat) (p : UInt64) : f.large (f.table p) = false := by
  cases f <;> simp +decide [large, table, hasBits_entryAddress]

theorem entryAddress_table (f : EntryFormat) (p : UInt64) : entryAddress (f.table p) = entryAddress p := by
  cases f <;> simp [table, entryAddress_or, entryAddress_attribute]

theorem present_leaf (f : EntryFormat) (p : UInt64) (flags : PageFlags) (isLarge : Bool) :
    f.present (f.leaf p flags isLarge) = true := by
  cases f <;> simp +decide [present, leaf]

theorem entryAddress_leaf (f : EntryFormat) (p : UInt64) (flags : PageFlags) (isLarge : Bool) :
    entryAddress (f.leaf p flags isLarge) = entryAddress p := by
  cases f <;> simp [leaf, entryAddress_or, entryAddress_bitsIf, entryAddress_attribute]

theorem entryAddress_leaf_ofNat (f : EntryFormat) {p : ℕ} (hp : p % pageSize = 0) (hend : p < physAddressEnd)
    (flags : PageFlags) (isLarge : Bool) : (entryAddress (f.leaf (UInt64.ofNat p) flags isLarge)).toNat = p := by
  have hnat : (UInt64.ofNat p).toNat = p := by
    rw [UInt64.toNat_ofNat']
    simp only [physAddressEnd] at hend
    omega
  rw [entryAddress_leaf, entryAddress_of_aligned, hnat]
  · rw [hnat]; exact hp
  · rw [hnat]; exact hend

theorem large_leaf (f : EntryFormat) (p : UInt64) (flags : PageFlags) (isLarge : Bool) :
    f.large (f.leaf p flags isLarge) = isLarge := by
  cases f
  · have haddr : addressMask &&& LongMode.large = 0 := by decide
    have hlarge : hasBits LongMode.large LongMode.large = true := by decide
    simp [large, leaf, hasBits_entryAddress haddr, hlarge, hasBits_large_longMode]
  · have haddr : addressMask &&& Extended.large = 0 := by decide
    have hlarge : hasBits Extended.large Extended.large = true := by decide
    simp [large, leaf, hasBits_entryAddress haddr, hlarge, hasBits_large_extended]

/-- outside the address and the mark of large leaves, a leaf is determined by its attributes -/
theorem hasBits_leaf (f : EntryFormat) (p : UInt64) (flags : PageFlags) (isLarge : Bool) {m : UInt64}
    (haddr : addressMask &&& m = 0) (hlong : hasBits LongMode.large m = false)
    (hext : hasBits Extended.large m = false) :
    hasBits (f.leaf p flags isLarge) m = hasBits (f.leaf 0 flags false) m := by
  cases f <;> simp [leaf, hasBits_entryAddress haddr, hlong, hext]

theorem flags_leaf (f : EntryFormat) (p : UInt64) (flags : PageFlags) (isLarge : Bool) :
    f.flags (f.leaf p flags isLarge) = f.flags (f.leaf 0 flags false) := by
  have hsame : ∀ m ∈ [LongMode.readWrite, LongMode.user, LongMode.global, LongMode.cacheDisable, LongMode.noExecute,
      Extended.write, Extended.execute, Extended.memoryType],
      hasBits (f.leaf p flags isLarge) m = hasBits (f.leaf 0 flags false) m := by
    intro m hm
    have hbits : ∀ m ∈ [LongMode.readWrite, LongMode.user, LongMode.global, LongMode.cacheDisable, LongMode.noExecute,
        Extended.write, Extended.execute, Extended.memoryType],
        addressMask &&& m = 0 ∧ hasBits LongMode.large m = false ∧ hasBits Extended.large m = false := by
      refine List.forall_iff_forall_mem.1 ?_
      decide
    obtain ⟨haddr, hlong, hext⟩ := hbits m hm
    exact hasBits_leaf f p flags isLarge haddr hlong hext
  cases f <;> simp [EntryFormat.flags, hsame]

/-- a reference has the same attributes wherever it leads -/
theorem flags_table (f : EntryFormat) (p : UInt64) : f.flags (f.table p) = f.flags (f.table 0) := by
  cases f <;> simp +decide [EntryFormat.flags, table, hasBits_entryAddress]

end EntryFormat
end NestedGuest
