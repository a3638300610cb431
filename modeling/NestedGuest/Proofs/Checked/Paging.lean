/-
The page table with its arithmetic checked.

Each operation is computed once more, with every sum, difference and product checked, and with the loops of a machine:
an insertion counts the bytes that are done, and a removal goes from the end of one block to the end of the next. None
of them goes out of range, and each comes to what the page table does.

- `insertChecked_eq`: the request is checked before it is served, so that no sum with a part of it is out of range;
- `removeChecked_eq`: no block reaches past the end of the address space by more than its size;
- `lookupChecked_eq`: an entry holds an address so small that an offset can be added.

Premise of the first: the tables lie at addresses that are words, which is so in every page table that is `Sound`.
-/
import NestedGuest.Proofs.Checked.Words
import NestedGuest.Proofs.Paging.Exactness

namespace NestedGuest.PageTable

/-! ## Insertion -/

/-- what an existing leaf at `level`, of `size` bytes, contributes to mapping `va` to `pa` -/
def acceptLeafChecked (f : EntryFormat) (level size : ℕ) (entry : UInt64) (va pa remaining : ℕ) (flags : PageFlags) :
    Checked (Except TranslationError ℕ) := do
  let offset ← blockOffset? va size
  let target ← add? (entryAddress entry).toNat offset
  if target = pa ∧ f.flags entry = f.flags (f.leaf 0 flags (level > 0)) then
    let rest ← sub? size offset
    return .ok (min rest remaining)
  else return .error .invalidMapping

/-- maps `va` to `pa` by one leaf, walking down from the table at `node` -/
def insertLeafChecked (va pa remaining : ℕ) (flags : PageFlags) :
    (level : ℕ) → (node : UInt64) → PageTable → Checked (PageTable × Except TranslationError ℕ)
  | 0, node, t => do
    let size ← levelSize? 0
    let slot ← tableIndex? va 0
    match t.entry? node slot with
    | none => return (t, .error .invalidMapping)
    | some entry =>
      if t.format.present entry then return (t, ← acceptLeafChecked t.format 0 size entry va pa remaining flags)
      else return (t.setEntry node slot (t.format.leaf (UInt64.ofNat pa) flags false), .ok size)
  | level + 1, node, t => do
    let size ← levelSize? (level + 1)
    let slot ← tableIndex? va (level + 1)
    match t.entry? node slot with
    | none => return (t, .error .invalidMapping)
    | some entry =>
      if t.format.present entry then
        if t.format.large entry then
          return (t, ← acceptLeafChecked t.format (level + 1) size entry va pa remaining flags)
        else insertLeafChecked va pa remaining flags level (entryAddress entry) t
      else if leafFits (level + 1) va pa remaining then
        return (t.setEntry node slot (t.format.leaf (UInt64.ofNat pa) flags true), .ok size)
      else
        match ← t.nodes.allocChecked with
        | none => return (t, .error .outOfTables)
        | some (child, nodes) =>
          insertLeafChecked va pa remaining flags level child
            ({ t with nodes }.setEntry node slot (t.format.table child))

/-- maps what is left of `[vm, vm + size)` when the first `done` bytes are -/
def insertLeavesChecked (vm phys size : ℕ) (flags : PageFlags) (done : ℕ) (t : PageTable) :
    Checked (PageTable × Except TranslationError Unit) :=
  if done < size then do
    let va ← add? vm done
    let pa ← add? phys done
    let remaining ← sub? size done
    match ← insertLeafChecked va pa remaining flags rootLevel t.rootPhys t with
    | (t, .error e) => return (t, .error e)
    | (t, .ok covered) =>
      let next ← add? done covered
      -- a leaf that covers nothing would be tried forever
      if done < next then insertLeavesChecked vm phys size flags next t else return (t, .ok ())
  else return (t, .ok ())
termination_by size - done

def insertChecked (t : PageTable) (vm phys size : UInt64) (flags : PageFlags) :
    Checked (PageTable × Except TranslationError Unit) :=
  if isPageAligned vm && isPageAligned phys && isPageAligned size
      && decide (vm.toNat + size.toNat ≤ addressSpaceEnd) && decide (phys.toNat + size.toNat ≤ physAddressEnd) then
    insertLeavesChecked vm.toNat phys.toNat size.toNat flags 0 t
  else return (t, .error .invalidMapping)

/-! ## Removal -/

/-- goes from block to block through `[va, stop)` and changes the page table at the slot of each -/
def sweep (level size stop : ℕ) (visit : Fin entriesPerTable → ℕ → ℕ → PageTable → Checked PageTable) (va : ℕ)
    (t : PageTable) : Checked PageTable :=
  if va < stop then do
    let slot ← tableIndex? va level
    let blockEnd ← blockEnd? va size
    let next := min blockEnd stop
    let t ← visit slot va next t
    -- a block that ends where it begins would be visited forever
    if va < next then sweep level size stop visit next t else return t
  else return t
termination_by stop - va

/-- clears every leaf that meets `[start, stop)` below the table at `node`, which is at `level` -/
def removeRangeChecked : (level : ℕ) → (node : UInt64) → (start stop : ℕ) → PageTable → Checked PageTable
  | 0, node, start, stop, t => do
    let size ← levelSize? 0
    sweep 0 size stop (fun slot _ _ t =>
      match t.entry? node slot with
      | none => return t
      | some entry => if t.format.present entry then return t.setEntry node slot 0 else return t) start t
  | level + 1, node, start, stop, t => do
    let size ← levelSize? (level + 1)
    sweep (level + 1) size stop (fun slot va next t =>
      match t.entry? node slot with
      | none => return t
      | some entry =>
        if t.format.present entry then
          if t.format.large entry then return t.setEntry node slot 0
          else do
            -- the level below, at which the recursion goes on
            let _ ← sub? (level + 1) 1
            let t ← removeRangeChecked level (entryAddress entry) va next t
            return t.pruneChild node slot (entryAddress entry)
        else return t) start t

/-- the end of the range stays at the last word if it would wrap around -/
def removeChecked (t : PageTable) (vm size : UInt64) : Checked PageTable :=
  let stop := min (min (vm.toNat + size.toNat) (wordEnd - 1)) addressSpaceEnd
  if vm.toNat < stop then removeRangeChecked rootLevel t.rootPhys vm.toNat stop t else return t

/-! ## Lookup -/

/-- what the leaf `entry` at `level` says of `va` -/
def translationChecked (f : EntryFormat) (level : ℕ) (entry : UInt64) (va : ℕ) : Checked (Option Translation) := do
  let size ← levelSize? level
  let offset ← blockOffset? va size
  let phys ← add? (entryAddress entry).toNat offset
  return some { phys, leafSize := size, flags := f.flags entry }

/-- resolves `va` below the table at `node` -/
def descendChecked (t : PageTable) (va : ℕ) : (level : ℕ) → (node : UInt64) → Checked (Option Translation)
  | 0, node => do
    let slot ← tableIndex? va 0
    match t.entry? node slot with
    | none => return none
    | some entry => if t.format.present entry then translationChecked t.format 0 entry va else return none
  | level + 1, node => do
    let slot ← tableIndex? va (level + 1)
    match t.entry? node slot with
    | none => return none
    | some entry =>
      if t.format.present entry then
        if t.format.large entry then translationChecked t.format (level + 1) entry va
        else descendChecked t va level (entryAddress entry)
      else return none

def lookupChecked (t : PageTable) (vm : UInt64) : Checked (Option Translation) :=
  if vm.toNat < addressSpaceEnd then t.descendChecked vm.toNat rootLevel t.rootPhys else return none

/-! ## Insertions are in range -/

variable {t : PageTable} {level va vm phys size done start stop : ℕ} {flags : PageFlags}

/-- an entry holds an address below the end of the physical ones -/
theorem entryAddress_lt (e : UInt64) : (entryAddress e).toNat < physAddressEnd := by
  rw [entryAddress, UInt64.toNat_and]
  apply Nat.lt_of_le_of_lt Nat.and_le_right
  decide

/-- an offset in a block can be added to any address that an entry holds -/
theorem add?_entryAddress (h : level ≤ rootLevel) (e : UInt64) (va : ℕ) :
    add? (entryAddress e).toNat (va % levelSize level) = some ((entryAddress e).toNat + va % levelSize level) := by
  have haddr := entryAddress_lt e
  have hoffset := Nat.mod_lt va (levelSize_pos level)
  have hsize := levelSize_le_two_pow h
  apply add?_eq
  simp only [physAddressEnd, wordEnd, Nat.reduceShiftLeft] at *
  omega

theorem acceptLeafChecked_eq (h : level ≤ rootLevel) (f : EntryFormat) (e : UInt64) (va pa remaining : ℕ)
    (flags : PageFlags) :
    acceptLeafChecked f level (levelSize level) e va pa remaining flags =
      some (acceptLeaf f level e va pa remaining flags) := by
  have hsize := levelSize_le_two_pow h
  have hrest : sub? (levelSize level) (va % levelSize level) = some (levelSize level - va % levelSize level) := by
    apply sub?_eq (Nat.mod_lt va (levelSize_pos level)).le
    simp only [wordEnd, Nat.reduceShiftLeft]
    omega
  rw [acceptLeafChecked, checked_bind (blockOffset?_eq h va), checked_bind (add?_entryAddress h e va), acceptLeaf]
  split_ifs
  · rw [checked_bind hrest]
    rfl
  · rfl

/-- writing an entry leaves the array of tables as it is, but for the entry -/
theorem sound_setEntry (h : t.nodes.Sound) (p : UInt64) (s : Fin entriesPerTable) (v : UInt64) :
    (t.setEntry p s v).nodes.Sound := by
  unfold setEntry
  split_ifs
  · exact h
  · exact h.set? p s v

/-- One leaf is inserted in range, whatever the request: what is added to is read from entries, or is the address of a
table. -/
theorem insertLeafChecked_eq (hl : level ≤ rootLevel) (h : t.nodes.Sound) (va pa remaining : ℕ) (flags : PageFlags)
    (node : UInt64) :
    insertLeafChecked va pa remaining flags level node t = some (insertLeaf va pa remaining flags level node t) := by
  induction level generalizing node t with
  | zero =>
    rw [insertLeafChecked, checked_bind (levelSize?_eq hl), checked_bind (tableIndex?_eq hl va), insertLeaf]
    cases t.entry? node (slotOf va 0) with
    | none => rfl
    | some e =>
      dsimp only
      split_ifs
      · rw [checked_bind (acceptLeafChecked_eq hl t.format e va pa remaining flags)]
        rfl
      · rfl
  | succ l ih =>
    rw [insertLeafChecked, checked_bind (levelSize?_eq hl), checked_bind (tableIndex?_eq hl va), insertLeaf]
    cases t.entry? node (slotOf va (l + 1)) with
    | none => rfl
    | some e =>
      dsimp only
      split_ifs
      · rw [checked_bind (acceptLeafChecked_eq hl t.format e va pa remaining flags)]
        rfl
      · exact ih (Nat.le_of_succ_le hl) h _
      · rfl
      · rw [checked_bind (TableArray.allocChecked_eq h)]
        cases halloc : t.nodes.alloc? with
        | none => rfl
        | some given =>
          obtain ⟨child, nodes⟩ := given
          have hnodes := (TableArray.alloc?_updates h halloc).2.sound
          exact ih (Nat.le_of_succ_le hl) (sound_setEntry (t := { t with nodes }) hnodes _ _ _) _

/-- the rest of a request is served in range if the whole of it lies in the address spaces -/
theorem insertLeavesChecked_eq (h : t.Sound) (hvm : vm % pageSize = 0) (hphys : phys % pageSize = 0)
    (hsize : size % pageSize = 0) (hlast : vm + size ≤ addressSpaceEnd) (hend : phys + size ≤ physAddressEnd)
    (hdone : done ≤ size) (hpages : done % pageSize = 0) :
    insertLeavesChecked vm phys size flags done t =
      some (insertLeaves (vm + done) (phys + done) (size - done) flags t) := by
  have hwords : physAddressEnd < wordEnd ∧ addressSpaceEnd < wordEnd := by decide
  obtain ⟨left, hleft⟩ : ∃ left, size - done = left := ⟨_, rfl⟩
  induction left using Nat.strong_induction_on generalizing done t with
  | _ left ih =>
    rw [insertLeavesChecked, insertLeaves]
    by_cases hlt : done < size
    · obtain ⟨pos, hplaced⟩ := h
      have hroot := hplaced.root
      rw [← block_root (show vm + done < addressSpaceEnd by omega)] at hroot
      have hstep := insertLeaf_inserts flags (by omega) (by simp only [pageSize] at *; omega)
        (by simp only [pageSize] at *; omega) (Nat.sub_pos_of_lt hlt) (show phys + done + (size - done) ≤ _ by omega)
        hplaced hroot
      have hcovers := insertLeaf_covers (phys + done) flags (Nat.sub_pos_of_lt hlt)
        (show (size - done) % pageSize = 0 by simp only [pageSize] at *; omega)
        (show (vm + done) % pageSize = 0 by simp only [pageSize] at *; omega) rootLevel t.rootPhys t
      rw [if_pos hlt, if_neg (Nat.sub_ne_zero_of_lt hlt), checked_bind (add?_eq (by omega)),
        checked_bind (add?_eq (by omega)), checked_bind (sub?_eq hdone (by omega)),
        checked_bind (insertLeafChecked_eq le_rfl hplaced.nodes _ _ _ _ _)]
      generalize insertLeaf (vm + done) (phys + done) (size - done) flags rootLevel t.rootPhys t = o at hstep hcovers
      obtain ⟨u, e | c⟩ := o
      · rfl
      · obtain ⟨hpos, hle, hmod⟩ := hcovers c rfl
        obtain ⟨n, rfl⟩ := Nat.exists_eq_succ_of_ne_zero (Nat.pos_iff_ne_zero.1 hpos)
        dsimp only
        rw [checked_bind (add?_eq (by omega)), if_pos (by omega), Nat.succ_eq_add_one, add_assoc vm, add_assoc phys,
          Nat.sub_sub]
        exact ih _ (by omega) hstep.sound (by omega) (by simp only [pageSize] at *; omega) rfl
    · rw [if_neg hlt, if_pos (by omega)]
      rfl

/-- **Insertions are in range.** -/
theorem insertChecked_eq (h : t.Sound) (vm phys size : UInt64) (flags : PageFlags) :
    t.insertChecked vm phys size flags = some (t.insert vm phys size flags) := by
  unfold insertChecked insert
  split_ifs with hok
  · simp only [isPageAligned, Bool.and_eq_true, beq_iff_eq, decide_eq_true_eq] at hok
    obtain ⟨⟨⟨⟨hvm, hphys⟩, hsize⟩, hlast⟩, hend⟩ := hok
    exact insertLeavesChecked_eq h hvm hphys hsize hlast hend (Nat.zero_le _) (Nat.zero_mod _)
  · rfl

/-! ## Removals are in range -/

/-- the first part of a range ends with its block, and the others are those of what is left -/
theorem chunks_cons (level : ℕ) {start stop next : ℕ} (h : start < stop)
    (hnext : next = min ((start / levelSize level + 1) * levelSize level) stop) :
    chunks level start stop = (start, next) :: chunks level next stop := by
  have hpos := levelSize_pos level
  have hfirst := (mem_block_iff start level _).1 rfl
  have hlast := (mem_block_iff (stop - 1) level _).1 rfl
  have hle : start / levelSize level ≤ (stop - 1) / levelSize level := Nat.div_le_div_right (by omega)
  set k := start / levelSize level with hk
  set n := (stop - 1) / levelSize level with hn
  have hrange : List.range' k (n + 1 - k) = k :: List.range' (k + 1) (n - k) := by
    rw [show n + 1 - k = n - k + 1 by omega, List.range'_succ]
  rw [chunks, if_pos h, ← hk, ← hn, hrange, List.map_cons, max_eq_left hfirst.1, min_comm stop, ← hnext]
  congr 1
  by_cases hend : (k + 1) * levelSize level < stop
  · have hmore : k + 1 ≤ n := (Nat.le_div_iff_mul_le hpos).2 (by omega)
    rw [hnext, min_eq_left hend.le, chunks, if_pos hend, Nat.mul_div_cancel _ hpos, ← hn,
      show n + 1 - (k + 1) = n - k by omega]
    refine List.map_congr_left fun j hj => ?_
    have hjk : (k + 1) * levelSize level ≤ j * levelSize level :=
      Nat.mul_le_mul_right _ (List.mem_range'_1.1 hj).1
    rw [max_eq_right hjk, max_eq_right (by omega)]
  · have hone : n < k + 1 := (Nat.div_lt_iff_lt_mul hpos).2 (by omega)
    rw [hnext, min_eq_right (by omega), chunks, if_neg (lt_irrefl stop), show n - k = 0 by omega]
    rfl

/-- Going from block to block, one visits the parts of the range in order. What a visit does is left open. -/
theorem sweep_eq (hl : level ≤ rootLevel) (hstop : stop ≤ addressSpaceEnd)
    {visit : Fin entriesPerTable → ℕ → ℕ → PageTable → Checked PageTable} {f : PageTable → ℕ × ℕ → PageTable}
    (hvisit : ∀ va next t, next ≤ stop → visit (slotOf va level) va next t = some (f t (va, next))) :
    sweep level (levelSize level) stop visit va t = some ((chunks level va stop).foldl f t) := by
  obtain ⟨left, hleft⟩ : ∃ left, stop - va = left := ⟨_, rfl⟩
  induction left using Nat.strong_induction_on generalizing va t with
  | _ left ih =>
    rw [sweep]
    by_cases hlt : va < stop
    · have hblock := (mem_block_iff va level _).1 rfl
      rw [if_pos hlt, checked_bind (tableIndex?_eq hl va), checked_bind (blockEnd?_eq hl (by omega)),
        chunks_cons level hlt rfl, List.foldl_cons]
      dsimp only
      rw [checked_bind (hvisit va _ t (min_le_right _ _)), if_pos (lt_min hblock.2 hlt)]
      exact ih _ (by omega) rfl
    · rw [if_neg hlt, chunks, if_neg hlt]
      rfl

theorem removeRangeChecked_eq (hl : level ≤ rootLevel) (hstop : stop ≤ addressSpaceEnd) (node : UInt64) (start : ℕ)
    (t : PageTable) :
    removeRangeChecked level node start stop t = some (removeRange level node start stop t) := by
  induction level generalizing node start stop t with
  | zero =>
    rw [removeRangeChecked, checked_bind (levelSize?_eq hl), removeRange]
    refine sweep_eq hl hstop fun va next t _ => ?_
    cases t.entry? node (slotOf va 0) with
    | none => rfl
    | some e =>
      dsimp only
      split_ifs <;> rfl
  | succ l ih =>
    rw [removeRangeChecked, checked_bind (levelSize?_eq hl), removeRange]
    refine sweep_eq hl hstop fun va next t hnext => ?_
    cases t.entry? node (slotOf va (l + 1)) with
    | none => rfl
    | some e =>
      have hbelow : sub? (l + 1) 1 = some l := by
        apply sub?_eq (Nat.le_add_left 1 l)
        simp only [rootLevel, wordEnd, Nat.reduceShiftLeft] at *
        omega
      dsimp only
      split_ifs
      · rfl
      · rw [checked_bind hbelow, checked_bind (ih (Nat.le_of_succ_le hl) (hnext.trans hstop) _ _ _)]
        rfl
      · rfl

/-- **Removals are in range**, whatever the page table is like. -/
theorem removeChecked_eq (t : PageTable) (vm size : UInt64) : t.removeChecked vm size = some (t.remove vm size) := by
  have hwords : addressSpaceEnd < wordEnd := by decide
  have hstop : min (min (vm.toNat + size.toNat) (wordEnd - 1)) addressSpaceEnd =
      min (vm.toNat + size.toNat) addressSpaceEnd := by omega
  rw [removeChecked, hstop, remove]
  split_ifs with hlt
  · exact removeRangeChecked_eq le_rfl (min_le_right _ _) _ _ t
  · rw [rootLevel, removeRange, chunks, if_neg hlt]
    rfl

/-! ## Lookups are in range -/

theorem translationChecked_eq (h : level ≤ rootLevel) (f : EntryFormat) (e : UInt64) (va : ℕ) :
    translationChecked f level e va = some (some
      { phys := (entryAddress e).toNat + va % levelSize level, leafSize := levelSize level, flags := f.flags e }) := by
  rw [translationChecked, checked_bind (levelSize?_eq h), checked_bind (blockOffset?_eq h va),
    checked_bind (add?_entryAddress h e va)]
  rfl

theorem descendChecked_eq (hl : level ≤ rootLevel) (t : PageTable) (va : ℕ) (node : UInt64) :
    t.descendChecked va level node = some ((t.leafAt va level node).map (t.translationOf va)) := by
  induction level generalizing node with
  | zero =>
    rw [descendChecked, checked_bind (tableIndex?_eq hl va), leafAt]
    cases t.entry? node (slotOf va 0) with
    | none => rfl
    | some e =>
      dsimp only
      split_ifs
      · exact translationChecked_eq hl _ e va
      · rfl
  | succ l ih =>
    rw [descendChecked, checked_bind (tableIndex?_eq hl va), leafAt]
    cases t.entry? node (slotOf va (l + 1)) with
    | none => rfl
    | some e =>
      dsimp only
      split_ifs
      · exact translationChecked_eq hl _ e va
      · exact ih (Nat.le_of_succ_le hl) _
      · rfl

/-- **Lookups are in range**, whatever the page table is like. -/
theorem lookupChecked_eq (t : PageTable) (vm : UInt64) : t.lookupChecked vm = some (t.lookup vm) := by
  unfold lookupChecked lookup
  split_ifs
  · exact descendChecked_eq le_rfl t _ _
  · rfl

end NestedGuest.PageTable
