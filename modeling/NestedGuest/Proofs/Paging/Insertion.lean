/-
What an insertion does to the translations.

`Inserts t t' va pa k flags` says it for the first `k` bytes of a request: they are mapped as asked, every address that
was translated keeps its leaf, and a leaf that is new lies in those `k` bytes as a whole. One leaf inserts a part of a
request (`insertLeaf_inserts`), parts that follow each other make a longer one (`Inserts.trans`), and a request is served
leaf by leaf until one is refused, for a reason that the page table from before the request shows already
(`insertLeaves_explains`).
-/
import NestedGuest.Proofs.Paging.Edits

namespace NestedGuest.PageTable

/-- `a` is translated to `pa` with the attributes that a leaf made for `flags` has -/
def MapsTo (t : PageTable) (a pa : ℕ) (flags : PageFlags) : Prop :=
  ∃ l e, t.leafOf a = some (l, e) ∧ (entryAddress e).toNat + a % levelSize l = pa ∧
    t.format.flags e = t.format.flags (t.format.leaf 0 flags false)

/-- `t'` maps the first `k` bytes of a request and is `t` otherwise -/
structure Inserts (t t' : PageTable) (va pa k : ℕ) (flags : PageFlags) : Prop where
  sound : t'.Sound
  same : SameStorage t t'
  mapped : ∀ a, va ≤ a → a < va + k → t'.MapsTo a (pa + (a - va)) flags
  kept : ∀ a x, t.leafOf a = some x → t'.leafOf a = some x
  inside : ∀ a l e, t.leafOf a = none → t'.leafOf a = some (l, e) →
    ∀ b, b / levelSize l = a / levelSize l → va ≤ b ∧ b < va + k

/-- why no leaf maps `va`, where `t` has become `t'`: it is translated in another way, or no table is left -/
def Explains (t t' : PageTable) (va pa : ℕ) (flags : PageFlags) : TranslationError → Prop
  | .invalidMapping => t.leafOf va ≠ none ∧ ¬ t.MapsTo va pa flags
  | .outOfTables => t'.nodes.alloc? = none

variable {t t' u : PageTable} {pos : UInt64 → Option (ℕ × ℕ)} {p : UInt64} {s : Fin entriesPerTable}
  {va pa k m remaining l : ℕ} {e : UInt64} {flags : PageFlags} {err : TranslationError}

/-! ## Putting parts together -/

/-- nothing needs to change for bytes that are mapped as asked -/
theorem Inserts.of_mapped (hs : t.Sound) (h : ∀ a, va ≤ a → a < va + k → t.MapsTo a (pa + (a - va)) flags) :
    Inserts t t va pa k flags where
  sound := hs
  same := SameStorage.refl t
  mapped := h
  kept _ _ hx := hx
  inside a l e hnone hsome := by
    rw [hnone] at hsome
    cases hsome

theorem Inserts.of_leafOf_eq (hs : t'.Sound) (hsame : SameStorage t t') (h : ∀ a, t'.leafOf a = t.leafOf a) :
    Inserts t t' va pa 0 flags where
  sound := hs
  same := hsame
  mapped a h1 h2 := by omega
  kept a x hx := by rw [h a, hx]
  inside a l e hnone hsome := by
    rw [h a, hnone] at hsome
    cases hsome

theorem Inserts.refl (hs : t.Sound) : Inserts t t va pa 0 flags :=
  .of_leafOf_eq hs (SameStorage.refl t) fun _ => rfl

theorem MapsTo.kept {a : ℕ} (h : t.MapsTo a pa flags) (hfmt : t'.format = t.format)
    (hkept : ∀ x, t.leafOf a = some x → t'.leafOf a = some x) : t'.MapsTo a pa flags := by
  obtain ⟨l, e, he, haddr, hflags⟩ := h
  exact ⟨l, e, hkept _ he, haddr, by rw [hfmt]; exact hflags⟩

/-- a leaf was there before, or it is new and maps its address as asked -/
theorem Inserts.leaf_cases (h : Inserts t t' va pa k flags) {a : ℕ} (hleaf : t'.leafOf a = some (l, e)) :
    t.leafOf a = some (l, e) ∨
      (∀ b, b / levelSize l = a / levelSize l → va ≤ b ∧ b < va + k) ∧
        (entryAddress e).toNat + a % levelSize l = pa + (a - va) := by
  cases hbefore : t.leafOf a with
  | some x =>
    rw [h.kept a x hbefore] at hleaf
    exact Or.inl hleaf
  | none =>
    have hin := h.inside a l e hbefore hleaf
    obtain ⟨m, d, hd, haddr, -⟩ := h.mapped a (hin a rfl).1 (hin a rfl).2
    rw [hleaf] at hd
    cases hd
    exact Or.inr ⟨hin, haddr⟩

theorem Inserts.trans (h1 : Inserts t t' va pa k flags) (h2 : Inserts t' u (va + k) (pa + k) m flags) :
    Inserts t u va pa (k + m) flags where
  sound := h2.sound
  same := h1.same.trans h2.same
  mapped a hlow hhigh := by
    by_cases ha : a < va + k
    · exact (h1.mapped a hlow ha).kept h2.same.format (h2.kept a)
    · have hmap := h2.mapped a (by omega) (by omega)
      have hpa : pa + k + (a - (va + k)) = pa + (a - va) := by omega
      rwa [hpa] at hmap
  kept a x hx := h2.kept a x (h1.kept a x hx)
  inside a l e hnone hsome b hb := by
    cases hmid : t'.leafOf a with
    | none =>
      have hin := h2.inside a l e hmid hsome b hb
      omega
    | some x =>
      rw [h2.kept a x hmid] at hsome
      cases hsome
      have hin := h1.inside a l e hnone hmid b hb
      omega

/-- what was inserted before does not reach as far as `a`, so the reason was there from the start -/
theorem Explains.before {a b : ℕ} (h : Explains t' u a b flags err) (hins : Inserts t t' va pa k flags)
    (ha : va + k ≤ a) : Explains t u a b flags err := by
  cases err with
  | outOfTables => exact h
  | invalidMapping =>
    obtain ⟨hsome, hnot⟩ := h
    refine ⟨fun hnone => ?_, fun hmaps => hnot (hmaps.kept hins.same.format (hins.kept a))⟩
    obtain ⟨x, hx⟩ := Option.ne_none_iff_exists'.1 hsome
    have hin := (hins.inside a x.1 x.2 hnone hx a rfl).2
    omega

/-! ## One leaf -/

/-- how many bytes of a request an outcome covers -/
def covered : Except TranslationError ℕ → ℕ
  | .ok c => c
  | .error _ => 0

/-- what is covered is a positive number of pages of the request -/
def CoversPages (remaining : ℕ) (r : Except TranslationError ℕ) : Prop :=
  ∀ c, r = .ok c → 0 < c ∧ c ≤ remaining ∧ c % pageSize = 0

/-- an address of a leaf's block is mapped as far from the leaf's target as it lies from the start of the block -/
theorem mapsTo_of_block (h : t.Placed pos) (hleaf : t.leafOf va = some (l, e))
    (haddr : (entryAddress e).toNat + va % levelSize l = pa)
    (hflags : t.format.flags e = t.format.flags (t.format.leaf 0 flags false)) {a : ℕ} (hle : va ≤ a)
    (ha : a < va + (levelSize l - va % levelSize l)) : t.MapsTo a (pa + (a - va)) flags := by
  have hlt := Nat.mod_lt va (levelSize_pos l)
  have hdecomp := Nat.div_add_mod va (levelSize l)
  have hsplit : a = va % levelSize l + (a - va) + levelSize l * (va / levelSize l) := by omega
  have hblock : a / levelSize l = va / levelSize l := by
    rw [hsplit, Nat.add_mul_div_left _ _ (levelSize_pos l), Nat.div_eq_of_lt (by omega), zero_add]
  have hoffset : a % levelSize l = va % levelSize l + (a - va) := by
    rw [hsplit, Nat.add_mul_mod_self_left, Nat.mod_eq_of_lt (by omega)]
    omega
  exact ⟨l, e, leafOf_congr h hleaf hblock, by omega, hflags⟩

/-- A leaf that is there is accepted for the part of the request in its block, if it maps that part as asked. -/
theorem acceptLeaf_inserts (h : t.Placed pos) (hleaf : t.leafOf va = some (l, e)) :
    Inserts t t va pa (covered (acceptLeaf t.format l e va pa remaining flags)) flags := by
  simp only [acceptLeaf]
  split_ifs with hsame
  · obtain ⟨haddr, hflags⟩ := hsame
    rw [EntryFormat.flags_leaf] at hflags
    refine .of_mapped ⟨pos, h⟩ fun a hle ha => ?_
    simp only [covered] at ha
    exact mapsTo_of_block h hleaf haddr hflags hle (by omega)
  · exact .refl ⟨pos, h⟩

theorem acceptLeaf_explains (hleaf : t.leafOf va = some (l, e))
    (herr : acceptLeaf t.format l e va pa remaining flags = .error err) : Explains t t va pa flags err := by
  simp only [acceptLeaf] at herr
  split_ifs at herr with hsame
  cases herr
  refine ⟨by rw [hleaf]; exact Option.some_ne_none _, fun hmaps => hsame ?_⟩
  obtain ⟨m, d, hd, haddr, hflags⟩ := hmaps
  rw [hleaf] at hd
  cases hd
  exact ⟨haddr, hflags.trans (EntryFormat.flags_leaf _ _ _ _).symm⟩

theorem acceptLeaf_covers (f : EntryFormat) (l : ℕ) (e : UInt64) (pa : ℕ) (flags : PageFlags) (hrem : 0 < remaining)
    (hpages : remaining % pageSize = 0) (hva : va % pageSize = 0) :
    CoversPages remaining (acceptLeaf f l e va pa remaining flags) := by
  intro c hc
  simp only [acceptLeaf] at hc
  split_ifs at hc
  cases hc
  have hlt := Nat.mod_lt va (levelSize_pos l)
  have hoffset : va % levelSize l % pageSize = 0 := by
    rw [Nat.mod_mod_of_dvd _ (pageSize_dvd_levelSize l), hva]
  have hsize : levelSize l % pageSize = 0 := Nat.mod_eq_zero_of_dvd (pageSize_dvd_levelSize l)
  simp only [pageSize] at *
  omega

/-- A new leaf maps its whole block. -/
theorem putLeaf_inserts (flags : PageFlags) (h : t.Placed pos) (hp : pos p = some (l, va / levelSize (l + 1)))
    (he : t.entry? p (slotOf va l) = some e) (habsent : t.format.present e = false) (hlt : va < addressSpaceEnd)
    (hva : va % levelSize l = 0) (hpa : pa % pageSize = 0) (hend : pa < physAddressEnd) :
    Inserts t (t.setEntry p (slotOf va l) (t.format.leaf (UInt64.ofNat pa) flags (decide (0 < l)))) va pa (levelSize l)
      flags := by
  set v := t.format.leaf (UInt64.ofNat pa) flags (decide (0 < l)) with hv
  have hleaf : t.format.IsLeaf l v := EntryFormat.isLeaf_leaf _ l _ flags
  obtain ⟨h', hsame⟩ := placed_setEntry h hp he (EntryFormat.not_isTable_of_absent habsent)
    (EntryFormat.not_isTable_of_isLeaf hleaf)
  have haddr : (entryAddress v).toNat = pa := EntryFormat.entryAddress_leaf_ofNat _ hpa hend _ _
  have hself : (t.setEntry p (slotOf va l) v).leafOf va = some (l, v) :=
    leafOf_setEntry_of_leaf h h' hp (by rw [hsame.format]; exact hleaf) hlt (block_of_slot va l)
  have hother : ∀ a, a / levelSize l ≠ va / levelSize l → (t.setEntry p (slotOf va l) v).leafOf a = t.leafOf a := by
    intro a ha
    refine leafOf_setEntry_of_ne h h' hp hsame.format ?_
    rw [← block_of_slot]
    exact ha
  have hnone : ∀ a, a / levelSize l = va / levelSize l → t.leafOf a = none := by
    intro a ha
    refine leafOf_of_absent h hp he habsent ?_
    rw [ha]
    exact block_of_slot va l
  refine ⟨⟨pos, h'⟩, hsame, ?_, ?_, ?_⟩
  · intro a hle ha
    refine mapsTo_of_block h' hself (by omega) ?_ hle (by omega)
    rw [hsame.format, hv, EntryFormat.flags_leaf]
  · intro a x hx
    by_cases ha : a / levelSize l = va / levelSize l
    · rw [hnone a ha] at hx
      cases hx
    · rw [hother a ha]
      exact hx
  · intro a m x hna hsome b hb
    by_cases ha : a / levelSize l = va / levelSize l
    · rw [leafOf_congr h' hself ha] at hsome
      cases hsome
      exact block_of_aligned hva (hb.trans ha)
    · rw [hother a ha, hna] at hsome
      cases hsome

theorem leafFits_succ (h : leafFits (l + 1) va pa remaining = true) :
    va % levelSize (l + 1) = 0 ∧ levelSize (l + 1) ≤ remaining := by
  simp only [leafFits, Nat.add_eq_zero_iff, one_ne_zero, and_false, beq_iff_eq, Bool.or_eq_true, Bool.and_eq_true,
    decide_eq_true_eq, false_or] at h
  exact ⟨h.1.1.2, h.2⟩

/-- Whatever the page table is like, a leaf that is inserted or accepted covers pages of the request. -/
theorem insertLeaf_covers (pa : ℕ) (flags : PageFlags) (hrem : 0 < remaining) (hpages : remaining % pageSize = 0)
    (hva : va % pageSize = 0) (l : ℕ) (p : UInt64) (t : PageTable) :
    CoversPages remaining (insertLeaf va pa remaining flags l p t).2 := by
  induction l generalizing p t with
  | zero =>
    unfold insertLeaf
    split
    · exact fun c hc => by cases hc
    · split_ifs
      · exact acceptLeaf_covers _ _ _ _ _ hrem hpages hva
      · intro c hc
        cases hc
        rw [levelSize_zero]
        exact ⟨by decide, Nat.le_of_dvd hrem (Nat.dvd_of_mod_eq_zero hpages), Nat.mod_self _⟩
  | succ l ih =>
    unfold insertLeaf
    split
    · exact fun c hc => by cases hc
    · split_ifs with hpresent hlarge hfits
      · exact acceptLeaf_covers _ _ _ _ _ hrem hpages hva
      · exact ih _ t
      · intro c hc
        cases hc
        exact ⟨levelSize_pos _, (leafFits_succ hfits).2, Nat.mod_eq_zero_of_dvd (pageSize_dvd_levelSize _)⟩
      · split
        · exact fun c hc => by cases hc
        · exact ih _ _

/-- Inserting one leaf maps what it says it covers, or changes no translation when it is refused. -/
theorem insertLeaf_inserts (flags : PageFlags) (hlt : va < addressSpaceEnd) (hva : va % pageSize = 0)
    (hpa : pa % pageSize = 0) (hrem : 0 < remaining) (hend : pa + remaining ≤ physAddressEnd) (h : t.Placed pos)
    (hp : pos p = some (l, va / levelSize (l + 1))) :
    Inserts t (insertLeaf va pa remaining flags l p t).1 va pa (covered (insertLeaf va pa remaining flags l p t).2)
      flags := by
  induction l generalizing p t pos with
  | zero =>
    obtain ⟨e, he⟩ := h.entry hp (slotOf va 0)
    simp only [insertLeaf, he]
    split_ifs with hpresent
    · exact acceptLeaf_inserts h ((leafOf_eq_some_iff h).2 ⟨hlt, p, hp, he, hpresent, Or.inl rfl⟩)
    · exact putLeaf_inserts flags h hp he (by simpa using hpresent) hlt hva hpa (by omega)
  | succ l ih =>
    obtain ⟨e, he⟩ := h.entry hp (slotOf va (l + 1))
    simp only [insertLeaf, he]
    split_ifs with hpresent hlarge hfits
    · exact acceptLeaf_inserts h ((leafOf_eq_some_iff h).2 ⟨hlt, p, hp, he, hpresent, Or.inr hlarge⟩)
    · have hchild := h.child p l _ _ _ hp ⟨e, he, hpresent, by simpa using hlarge, rfl⟩
      rw [← block_of_slot] at hchild
      exact ih h hchild
    · have hput := putLeaf_inserts flags h hp he (by simpa using hpresent) hlt (leafFits_succ hfits).1 hpa (by omega)
      rw [decide_eq_true (Nat.succ_pos l)] at hput
      exact hput
    · split
      · exact .refl ⟨pos, h⟩
      · rename_i child nodes halloc
        obtain ⟨tb, htb⟩ := h.table hp
        have habsent : t.format.present e = false := by simpa using hpresent
        have hl := linked_link (s := slotOf va (l + 1)) h.toStored htb halloc
        have h' := hl.placed h hp he habsent
        have hlink : Inserts t (t.link nodes p (slotOf va (l + 1)) child) va pa 0 flags :=
          .of_leafOf_eq ⟨_, h'⟩ hl.same (hl.leafOf h hp he habsent)
        have htrans := hlink.trans (ih h' (by rw [if_pos rfl, ← block_of_slot]))
        rw [zero_add] at htrans
        exact htrans

/-- a leaf is refused for one of two reasons: no slot is missing on the way, and a page always has room at level 0 -/
theorem insertLeaf_explains (hlt : va < addressSpaceEnd) (h : t.Placed pos)
    (hp : pos p = some (l, va / levelSize (l + 1))) (herr : (insertLeaf va pa remaining flags l p t).2 = .error err) :
    Explains t (insertLeaf va pa remaining flags l p t).1 va pa flags err := by
  induction l generalizing p t pos with
  | zero =>
    obtain ⟨e, he⟩ := h.entry hp (slotOf va 0)
    simp only [insertLeaf, he] at herr ⊢
    split_ifs at herr ⊢ with hpresent
    exact acceptLeaf_explains ((leafOf_eq_some_iff h).2 ⟨hlt, p, hp, he, hpresent, Or.inl rfl⟩) herr
  | succ l ih =>
    obtain ⟨e, he⟩ := h.entry hp (slotOf va (l + 1))
    simp only [insertLeaf, he] at herr ⊢
    split_ifs at herr ⊢ with hpresent hlarge hfits
    · exact acceptLeaf_explains ((leafOf_eq_some_iff h).2 ⟨hlt, p, hp, he, hpresent, Or.inr hlarge⟩) herr
    · have hchild := h.child p l _ _ _ hp ⟨e, he, hpresent, by simpa using hlarge, rfl⟩
      rw [← block_of_slot] at hchild
      exact ih h hchild herr
    · cases halloc : t.nodes.alloc? with
      | none =>
        simp only [halloc] at herr ⊢
        cases herr
        exact halloc
      | some given =>
        obtain ⟨child, nodes⟩ := given
        simp only [halloc] at herr ⊢
        obtain ⟨tb, htb⟩ := h.table hp
        have habsent : t.format.present e = false := by simpa using hpresent
        have hl := linked_link (s := slotOf va (l + 1)) h.toStored htb halloc
        have h' := hl.placed h hp he habsent
        have hlink : Inserts t (t.link nodes p (slotOf va (l + 1)) child) va pa 0 flags :=
          .of_leafOf_eq ⟨_, h'⟩ hl.same (hl.leafOf h hp he habsent)
        exact (ih h' (by rw [if_pos rfl, ← block_of_slot]) herr).before hlink le_rfl

/-! ## A whole request -/

/-- A request is served leaf by leaf: some first part of it is mapped, all of it if none was refused, and else up to an
address for which there is a reason. -/
theorem insertLeaves_explains (h : t.Sound) (hva : va % pageSize = 0) (hpa : pa % pageSize = 0)
    (hpages : remaining % pageSize = 0) (hlast : va + remaining ≤ addressSpaceEnd)
    (hend : pa + remaining ≤ physAddressEnd) :
    ∃ k ≤ remaining, ((insertLeaves va pa remaining flags t).2 = .ok () → k = remaining) ∧
      (∀ err, (insertLeaves va pa remaining flags t).2 = .error err →
        k < remaining ∧ Explains t (insertLeaves va pa remaining flags t).1 (va + k) (pa + k) flags err) ∧
      Inserts t (insertLeaves va pa remaining flags t).1 va pa k flags := by
  induction remaining using Nat.strong_induction_on generalizing va pa t with
  | _ remaining ih =>
    rw [insertLeaves]
    split_ifs with hzero
    · exact ⟨0, by omega, fun _ => hzero.symm, fun err herr => (by cases herr), .refl h⟩
    · obtain ⟨pos, hplaced⟩ := h
      have hroot := hplaced.root
      rw [← block_root (show va < addressSpaceEnd by omega)] at hroot
      have hstep := insertLeaf_inserts flags (by omega) hva hpa (Nat.pos_of_ne_zero hzero) hend hplaced hroot
      have hcovers := insertLeaf_covers pa flags (Nat.pos_of_ne_zero hzero) hpages hva rootLevel t.rootPhys t
      split
      · rename_i u err hleaf
        have hreason := insertLeaf_explains (by omega) hplaced hroot (congrArg Prod.snd hleaf)
        rw [hleaf] at hstep hreason
        refine ⟨0, by omega, fun hc => (by cases hc), fun err' herr => ?_, hstep⟩
        cases herr
        exact ⟨Nat.pos_of_ne_zero hzero, hreason⟩
      · rename_i u hleaf
        rw [hleaf] at hcovers
        have hpos := (hcovers 0 rfl).1
        omega
      · rename_i u c hleaf
        rw [hleaf] at hstep hcovers
        obtain ⟨-, hle, hmod⟩ := hcovers _ rfl
        obtain ⟨k, hk, hok, herr, hrest⟩ := @ih (remaining - (c + 1)) (by omega) u (va + (c + 1)) (pa + (c + 1))
          hstep.sound (by simp only [pageSize] at *; omega) (by simp only [pageSize] at *; omega)
          (by simp only [pageSize] at *; omega) (by omega) (by omega)
        refine ⟨c + 1 + k, by omega, fun hc => ?_, fun err hc => ?_, hstep.trans hrest⟩
        · have hall := hok hc
          omega
        · obtain ⟨hlt, hreason⟩ := herr err hc
          refine ⟨by omega, ?_⟩
          rw [← add_assoc va (c + 1) k, ← add_assoc pa (c + 1) k]
          exact hreason.before hstep (Nat.le_add_right _ _)

theorem insertLeaves_inserts (h : t.Sound) (hva : va % pageSize = 0) (hpa : pa % pageSize = 0)
    (hpages : remaining % pageSize = 0) (hlast : va + remaining ≤ addressSpaceEnd)
    (hend : pa + remaining ≤ physAddressEnd) :
    ∃ k ≤ remaining, ((insertLeaves va pa remaining flags t).2 = .ok () → k = remaining) ∧
      Inserts t (insertLeaves va pa remaining flags t).1 va pa k flags := by
  obtain ⟨k, hk, hok, -, hins⟩ := insertLeaves_explains h hva hpa hpages hlast hend
  exact ⟨k, hk, hok, hins⟩

end NestedGuest.PageTable
