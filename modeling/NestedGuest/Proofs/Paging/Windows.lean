/-
A page table after several windows were mapped, in whatever order.

`Extends t u W` says what has become of `t`: the windows `W` are mapped, the tables that they need are there, and
nothing else changed. How a leaf came to be is not said, and need not be: which tables there are decides the size of
every leaf (`level_eq_of_places`). So `W` determines what lookups show and how many tables are in use (`Extends.agree`).
-/
import NestedGuest.Memory.GuestMemory
import NestedGuest.Proofs.Paging.Needs

namespace NestedGuest

namespace Mapping

/-- `a` is an address of the window -/
def Has (w : Mapping) (a : ℕ) : Prop := w.guest.toNat ≤ a ∧ a < w.guest.toNat + w.size.toNat

/-- the places of the tables that the window needs -/
def needs (w : Mapping) : Set (ℕ × ℕ) := PageTable.needs w.guest.toNat w.host.toNat w.size.toNat

/-- the page table accepts the window, if it has the tables -/
def Mappable (w : Mapping) : Prop := PageTable.Mappable w.guest.toNat w.host.toNat w.size.toNat

end Mapping

namespace PageTable

/-- maps the window as guest RAM -/
def insertWindow (t : PageTable) (w : Mapping) : PageTable × Except TranslationError Unit :=
  t.insert w.guest w.host w.size .guestRam

/-- `u` is `t` with the windows `W` mapped -/
structure Extends (t u : PageTable) (W : Set Mapping) : Prop where
  shaped : ∃ pos, u.Shaped pos
  same : SameStorage t u
  places : u.places = t.places ∪ ⋃ w ∈ W, w.needs
  mapped : ∀ w ∈ W, ∀ a, w.Has a → u.MapsTo a (w.host.toNat + (a - w.guest.toNat)) .guestRam
  kept : ∀ a x, t.leafOf a = some x → u.leafOf a = some x
  only : ∀ a x, u.leafOf a = some x → t.leafOf a = some x ∨ ∃ w ∈ W, w.Has a

variable {t u v : PageTable} {pos pos' : UInt64 → Option (ℕ × ℕ)} {W V : Set Mapping} {w : Mapping} {a l m : ℕ}
  {d e : UInt64}

/-- a leaf lies where no table is further down -/
theorem level_le_of_places (h : t.Placed pos) (h' : u.Placed pos') (hplaces : u.places ⊆ t.places)
    (hleaf : t.leafOf a = some (l, e)) (hleaf' : u.leafOf a = some (m, d)) : l ≤ m := by
  by_contra hlt
  rw [not_le] at hlt
  obtain ⟨-, p, hp, he, hisleaf⟩ := (leafOf_eq_some_iff h).1 hleaf
  obtain ⟨-, q, hq, -⟩ := (leafOf_eq_some_iff h').1 hleaf'
  have hbelow : (m, a / levelSize (m + 1)) ∈ u.places :=
    h'.mem_places_iff.2 ⟨lt_of_lt_of_le hlt (h.level_le hp), q, hq⟩
  obtain ⟨-, r, hr⟩ := h.mem_places_iff.1 (hplaces hbelow)
  exact h.not_below hp he (EntryFormat.not_isTable_of_isLeaf hisleaf) (block_of_slot a l) hlt hr

/-- which tables there are decides how large a leaf is -/
theorem level_eq_of_places (h : t.Placed pos) (h' : u.Placed pos') (hplaces : u.places = t.places)
    (hleaf : t.leafOf a = some (l, e)) (hleaf' : u.leafOf a = some (m, d)) : l = m :=
  le_antisymm (level_le_of_places h h' hplaces.subset hleaf hleaf')
    (level_le_of_places h' h hplaces.symm.subset hleaf' hleaf)

namespace Extends

theorem refl (h : t.Shaped pos) : t.Extends t ∅ where
  shaped := ⟨pos, h⟩
  same := SameStorage.refl t
  places := by simp
  mapped w hw := absurd hw (Set.notMem_empty w)
  kept a x hx := hx
  only a x hx := Or.inl hx

theorem trans (h : t.Extends u W) (h' : u.Extends v V) : t.Extends v (W ∪ V) where
  shaped := h'.shaped
  same := h.same.trans h'.same
  places := by rw [h'.places, h.places, Set.biUnion_union, Set.union_assoc]
  mapped w hw a ha := by
    rcases hw with hw | hw
    · exact (h.mapped w hw a ha).kept h'.same.format (h'.kept a)
    · exact h'.mapped w hw a ha
  kept a x hx := h'.kept a x (h.kept a x hx)
  only a x hx := by
    rcases h'.only a x hx with hold | ⟨w, hw, ha⟩
    · rcases h.only a x hold with hold | ⟨w, hw, ha⟩
      · exact Or.inl hold
      · exact Or.inr ⟨w, Or.inl hw, ha⟩
    · exact Or.inr ⟨w, Or.inr hw, ha⟩

/-- one window is mapped where no leaf is -/
theorem of_insert (h : t.Shaped pos) (hfree : ∀ a, w.Has a → t.leafOf a = none)
    (hok : (t.insertWindow w).2 = .ok ()) : t.Extends (t.insertWindow w).1 {w} := by
  obtain ⟨k, -, hall, hins⟩ := insert_inserts ⟨pos, h.toPlaced⟩ w.guest w.host w.size .guestRam
  rw [hall hok] at hins
  obtain ⟨pos', hgrows, -⟩ := insert_grows h w.guest w.host w.size .guestRam
  refine ⟨⟨pos', hgrows.shaped⟩, hins.same, ?_, ?_, hins.kept, ?_⟩
  · rw [Set.biUnion_singleton]
    exact places_insert h (fun a hlow hhigh => hfree a ⟨hlow, hhigh⟩) hok
  · rintro _ rfl a ha
    exact hins.mapped a ha.1 ha.2
  · intro a x hx
    rcases hins.leaf_cases hx with hold | ⟨hblock, -⟩
    · exact Or.inl hold
    · exact Or.inr ⟨w, rfl, hblock a rfl⟩

/-- outside the windows, leaves are those that were there -/
theorem leafOf_eq (h : t.Extends u W) (hout : ¬ ∃ w ∈ W, w.Has a) : u.leafOf a = t.leafOf a := by
  cases hleaf : u.leafOf a with
  | none =>
    cases hbefore : t.leafOf a with
    | none => rfl
    | some x =>
      rw [h.kept a x hbefore] at hleaf
      cases hleaf
  | some x => exact ((h.only a x hleaf).resolve_right hout).symm

/-- **The windows decide.** What lookups show, and how many tables are in use, depends on which windows were mapped, not
on how. -/
theorem agree (h : t.Extends u W) (h' : t.Extends v W) :
    v.tablesInUse = u.tablesInUse ∧ ∀ a, v.lookup a = u.lookup a := by
  obtain ⟨pos, hu⟩ := h.shaped
  obtain ⟨pos', hv⟩ := h'.shaped
  have hplaces : v.places = u.places := h'.places.trans h.places.symm
  have hformat : v.format = u.format := h'.same.format.trans h.same.format.symm
  refine ⟨?_, fun a => ?_⟩
  · have hcount := congrArg Set.encard hplaces
    rw [hv.encard_places_eq, hu.encard_places_eq] at hcount
    exact_mod_cast hcount
  · by_cases hin : ∃ w ∈ W, w.Has a.toNat
    · obtain ⟨w, hw, ha⟩ := hin
      obtain ⟨l, e, hleaf, hphys, hflags⟩ := h.mapped w hw _ ha
      obtain ⟨m, d, hleaf', hphys', hflags'⟩ := h'.mapped w hw _ ha
      obtain rfl := level_eq_of_places hu.toPlaced hv.toPlaced hplaces hleaf hleaf'
      rw [hformat] at hflags'
      rw [lookup_eq, lookup_eq, hleaf, hleaf', Option.map_some, Option.map_some]
      simp only [translationOf, hphys, hphys', hflags, hflags', hformat]
    · rw [lookup_eq, lookup_eq, h.leafOf_eq hin, h'.leafOf_eq hin]
      exact congrArg (fun f => (t.leafOf a.toNat).map f) (funext fun x => translationOf_congr hformat _ x)

end Extends
end PageTable
end NestedGuest
