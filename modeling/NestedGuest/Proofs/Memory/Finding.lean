/-
Regions are found.

A lookup asks only the last region that begins at or below an address. That is enough as long as regions are disjoint
and in ascending order, which every turn keeps (`Sound`). That no region runs past the last word is not needed for it:
it holds because a window that does so is never selected, and the end of a region does not move afterwards.

- `regions_found`: in every guest memory that can be reached, regions are disjoint, ascending, neither empty nor cut at
  the last word, and an address is found in the one region that contains it.
-/
import NestedGuest.Proofs.Memory.Granularity

namespace NestedGuest

open GuestMemory

variable {quota : Quota} {turns : List MemoryTurn} {m : GuestMemory} {q r : Region} {x : MemoryTurn} {ds : Dataspace}
  {guest offset a : UInt64} {attr : AttachAttr} {mapping : Mapping}

/-- `a` is an address of the region -/
def RegionAttr.Has (r : RegionAttr) (a : ℕ) : Prop := r.base.toNat ≤ a ∧ a < r.base.toNat + r.size.toNat

theorem RegionAttr.contains_iff_has {r : RegionAttr} : r.contains a = true ↔ r.Has a.toNat := contains_iff

/-! ## Ends -/

/-- the window selected ends with a word -/
theorem select?_fits (h : select? ds guest attr = some (offset, mapping)) :
    guest.toNat + mapping.size.toNat < wordEnd := by
  unfold select? at h
  split_ifs at h
  split at h
  · cases h
  · split_ifs at h with hfits
    cases h
    exact hfits.1

theorem MemoryTurn.Registers.fits (h : x.Registers r) (hs : x.before.Sound) :
    r.attr.base.toNat + r.attr.size.toNat < wordEnd := by
  obtain ⟨ds, guest, attr, outcome, mapping, -, hplace, -⟩ := h
  obtain ⟨hselect, hnew⟩ := place_eq_fresh hs hplace
  rw [hnew.base, hnew.size, (select?_eq_some hselect).2.1]
  exact select?_fits hselect

/-- a region ends where it did when it was registered -/
theorem GuestMemory.Reaches.fits (hm : m.Reaches quota turns) (hq : q ∈ m.regions) :
    q.attr.base.toNat + q.attr.size.toNat < wordEnd := by
  obtain ⟨r, x, later, ⟨⟨earlier, rfl⟩, hnew, -⟩, hattr, -⟩ := hm.exists_life hq
  rw [← hattr]
  exact hnew.fits hm.before.sound

namespace GuestMemory

/-! ## Lookups -/

/-- What a lookup of `a` comes to: it reports the one region that has `a`, or nothing if none has. -/
inductive Answers (m : GuestMemory) (a : UInt64) : Prop
  | hit (r : Region) (mem : r ∈ m.regions) (has : ∀ s ∈ m.regions, s.attr.Has a.toNat ↔ s = r)
      (region : m.regionAt a = some r.attr) (reserved : m.isReserved a = some r.reserved)
  | miss (free : ∀ s ∈ m.regions, ¬ s.attr.Has a.toNat) (region : m.regionAt a = none)
      (reserved : m.isReserved a = none)

/-- The regions are in order, and lookups find them. -/
structure Found (m : GuestMemory) : Prop where
  /-- a region is kept under its own base, and no other is -/
  keyed : ∀ r ∈ m.regions, m.regions.filter (fun s => s.attr.base == r.attr.base) = [r]
  nonempty : ∀ r ∈ m.regions, 0 < r.attr.size.toNat
  /-- a region ends at an address that is a word -/
  fits : ∀ r ∈ m.regions, r.attr.base.toNat + r.attr.size.toNat < wordEnd
  disjoint : m.regions.Pairwise fun r s => ∀ a, ¬ (r.attr.Has a ∧ s.attr.Has a)
  ascending : m.attrs.Pairwise fun r s => r.base < s.base
  answers : ∀ a, m.Answers a

theorem Sound.answers (h : m.Sound) (a : UInt64) : m.Answers a := by
  cases hfound : m.regionContaining a with
  | none =>
    refine .miss (fun s hs hhas => ?_) ?_ ?_
    · have hcontains := regionContaining_eq_none h hfound hs
      rw [RegionAttr.contains_iff_has.2 hhas] at hcontains
      cases hcontains
    · rw [regionAt, hfound, Option.map_none]
    · rw [isReserved, hfound, Option.map_none]
  | some r =>
    obtain ⟨hr, hcontains⟩ := (regionContaining_eq_some_iff h).1 hfound
    have hhas := RegionAttr.contains_iff_has.1 hcontains
    refine .hit r hr (fun s hs => ⟨fun hhas' => ?_, fun heq => heq ▸ hhas⟩) ?_ ?_
    · exact h.eq_of_mem hs hr hhas'.1 hhas'.2 hhas.1 hhas.2
    · rw [regionAt, hfound, Option.map_some]
    · rw [isReserved, hfound, Option.map_some]

/-- the base tells a region from all others -/
theorem Sound.keyed (h : m.Sound) (hr : r ∈ m.regions) :
    m.regions.filter (fun s => s.attr.base == r.attr.base) = [r] := by
  obtain ⟨before, behind, hsplit⟩ := List.append_of_mem hr
  have hothers : ∀ l : List Region, (∀ s ∈ l, s ∈ before ++ behind) →
      l.filter (fun s => s.attr.base == r.attr.base) = [] := by
    intro l hl
    refine List.filter_eq_nil_iff.2 fun s hs => ?_
    rw [beq_iff_eq]
    exact h.base_ne hsplit (hl s hs)
  rw [hsplit, List.filter_append, List.filter_cons_of_pos (by simp),
    hothers before fun s hs => List.mem_append_left _ hs, hothers behind fun s hs => List.mem_append_right _ hs,
    List.nil_append]

/-- **Regions are disjoint and found.** In every guest memory that can be reached, each region is kept under its own
base, is not empty and ends with a word, no two have an address in common, they are listed in ascending order, and
looking up an address reports the one region that has it, and nothing exactly where none has. -/
theorem regions_found (hm : m.Reaches quota turns) : m.Found where
  keyed _ hr := hm.sound.keyed hr
  nonempty _ hr := hm.sound.nonempty _ (mem_attrs hr)
  fits _ hr := hm.fits hr
  disjoint := hm.sound.pairwise.imp fun {r s} hstop a hboth => by
    have hbehind : r.attr.base.toNat + r.attr.size.toNat ≤ s.attr.base.toNat := hstop
    obtain ⟨hr, hs⟩ := hboth
    exact Nat.not_lt.2 (hbehind.trans hs.1) hr.2
  ascending := List.pairwise_map.2 hm.sound.ascending
  answers a := hm.sound.answers a

/-- with a region that ends within a page there, one is attached that ends with the last page but one -/
def attachTop : MemoryTurn :=
  ⟨attachRagged.after, fun _ _ => true, .attach ⟨1, ⟨0x11⟩, 0x3000, 0x200000000, false, true⟩ 0xffffffffffffc000
    ⟨0, 0, true, false⟩ (.ok ())⟩

/-- and then flushed -/
def flushTop : MemoryTurn := ⟨attachTop.after, fun _ _ => true, .flush 0xffffffffffffefff⟩

theorem reaches_flushTop : flushTop.after.Reaches (.new 0x10000 16) [flushTop, attachTop, attachRagged] :=
  .serve (.serve ragged_registered.1 attachTop.alive attachTop.request) flushTop.alive flushTop.request

theorem regions_found_top :
    flushTop.after.Reaches (.new 0x10000 16) [flushTop, attachTop, attachRagged] ∧ flushTop.after.Found ∧
      [0x57ff, 0x5800, 0xffffffffffffefff, 0xfffffffffffff000].map flushTop.after.isReserved =
        [some false, none, some true, none] :=
  ⟨reaches_flushTop, regions_found reaches_flushTop, by decide +kernel⟩

end GuestMemory
end NestedGuest
