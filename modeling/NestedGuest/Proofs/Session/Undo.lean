/-
An attach request that is undone leaves nothing behind.

Mapping a window that no leaf meets, and clearing it again, changes no translation and leaves no table more in use
(`PageTable.remove_insert`): a table that the insertion added has entries after the removal only if some leaf below it
was there before. Guest memory gives back its metadata (`GuestMemory.detachAt_of_place`).

- `Session.Reaches.table_reachable`: the page table of a session is one that insertions and removals lead to;
- `attach_undone`: detaching restores the session, whether all of the window was mapped, a part or nothing, and a
  configured rollback does so by itself.
-/
import NestedGuest.Proofs.Paging.Tree
import NestedGuest.Proofs.Session.Accounting

namespace NestedGuest

open Bench (Host)

/-! ## The page table -/

namespace PageTable

variable {t t' : PageTable} {pos pos' : UInt64 → Option (ℕ × ℕ)} {q r : UInt64} {s : Fin entriesPerTable} {m n j : ℕ}

/-- the place above a place that is taken is taken as well -/
theorem Placed.exists_above (h : t.Placed pos) (hr : pos r = some (n, j * entriesPerTable + s)) (hn : n < rootLevel) :
    ∃ p, pos p = some (n + 1, j) := by
  obtain ⟨-, p, i, x, hblock, hp, -⟩ := (h.parent r _ _ hr).resolve_left (h.ne_root hr hn)
  have hs := s.isLt
  have hx := x.isLt
  simp only [entriesPerTable] at hblock hs hx
  obtain rfl : j = i := by omega
  exact ⟨p, hp⟩

/-- A table that is new is not without entries and below it no leaf is new, so its place was taken before. -/
theorem place_taken (h : t.Placed pos) (h' : t'.Shaped pos') (hleaf : ∀ a, t'.leafOf a = t.leafOf a)
    (hnew : ∀ q m j, pos' q = some (m, j) → m < rootLevel → pos q = some (m, j) ∨ t'.Occupied q)
    (hq : pos' q = some (m, j)) (hm : m < rootLevel) : ∃ p, pos p = some (m, j) := by
  induction m generalizing q j with
  | zero =>
    rcases hnew q 0 j hq hm with hold | hocc
    · exact ⟨q, hold⟩
    rcases h'.descend hq hocc with ⟨b, e, rfl, hb⟩ | ⟨n, x, r, hn, -⟩
    · rw [hleaf, leafOf_eq_some_iff h] at hb
      obtain ⟨-, p, hp, -⟩ := hb
      exact ⟨p, hp⟩
    · exact absurd hn (Nat.succ_ne_zero n).symm
  | succ m ih =>
    rcases hnew q _ j hq hm with hold | hocc
    · exact ⟨q, hold⟩
    rcases h'.descend hq hocc with ⟨b, e, rfl, hb⟩ | ⟨n, x, r, hn, -, hr⟩
    · rw [hleaf, leafOf_eq_some_iff h] at hb
      obtain ⟨-, p, hp, -⟩ := hb
      exact ⟨p, hp⟩
    · obtain rfl := Nat.succ.inj hn
      obtain ⟨p, hp⟩ := ih hr (Nat.lt_of_succ_lt hm)
      exact h.exists_above hp (Nat.lt_of_succ_lt hm)

/-- mapping a window that meets no leaf and clearing it again changes no leaf -/
theorem leafOf_remove_insert (h : t.Sound) (vm phys size : UInt64) (flags : PageFlags)
    (hfree : ∀ a l e, t.leafOf a = some (l, e) → meets l a vm.toNat (vm.toNat + size.toNat) = false) (a : ℕ) :
    ((t.insert vm phys size flags).1.remove vm size).leafOf a = t.leafOf a := by
  obtain ⟨k, hk, -, hins⟩ := insert_inserts h vm phys size flags
  rw [(remove_removes hins.sound vm size).2.leafOf]
  cases hbefore : t.leafOf a with
  | some x =>
    rw [hins.kept a x hbefore, Option.filter_some, if_pos]
    rw [Bool.not_eq_true', Bool.eq_false_iff]
    intro hmeets
    obtain ⟨b, h1, h2, hb⟩ := meets_iff.1 hmeets
    have hno := hfree a x.1 x.2 hbefore
    rw [meets_iff.2 ⟨b, h1, lt_of_lt_of_le h2 (min_le_left _ _), hb⟩] at hno
    exact absurd hno (by decide)
  | none =>
    rw [Option.filter_eq_none_iff]
    intro x hx
    have hin := hins.inside a x.1 x.2 hbefore hx a rfl
    have hlt := lt_addressSpaceEnd_of_leafOf hx
    have hmeets : meets x.1 a vm.toNat (min (vm.toNat + size.toNat) addressSpaceEnd) = true :=
      meets_self hin.1 (by omega)
    rw [hmeets]
    decide

/-- an insertion and a removal of the same window leave no table more in use if they change no leaf -/
theorem tablesInUse_remove_insert (h : t.Shaped pos) (vm phys size : UInt64) (flags : PageFlags)
    (hleaf : ∀ a, ((t.insert vm phys size flags).1.remove vm size).leafOf a = t.leafOf a) :
    ((t.insert vm phys size flags).1.remove vm size).tablesInUse ≤ t.tablesInUse := by
  obtain ⟨pos1, hgrows, -⟩ := insert_grows h vm phys size flags
  obtain ⟨pos2, hprunes⟩ := remove_prunes hgrows.shaped vm size
  have hplaces : ∀ x : ℕ × ℕ, x.1 < rootLevel ∧ (∃ q, pos2 q = some x) → x.1 < rootLevel ∧ ∃ p, pos p = some x := by
    intro x hx
    obtain ⟨hm, q, hq⟩ := hx
    refine ⟨hm, place_taken h.toPlaced hprunes.shaped hleaf (fun q m j hq hm => ?_) hq hm⟩
    refine (hgrows.new q m j (hprunes.old q m j hq)).imp_right ?_
    intro hT
    obtain ⟨b, h1, h2, rfl⟩ := hT
    have hlt := hprunes.shaped.lt_addressSpaceEnd hq
    exact hprunes.full q m _ hq hm ⟨b, h1, lt_min h2 hlt, rfl⟩
  have hcount := Set.encard_le_encard (show {x : ℕ × ℕ | x.1 < rootLevel ∧ ∃ q, pos2 q = some x} ⊆
    {x : ℕ × ℕ | x.1 < rootLevel ∧ ∃ p, pos p = some x} from hplaces)
  rw [hprunes.shaped.encard_places, h.encard_places] at hcount
  exact_mod_cast hcount

/-- Mapping a window that meets no leaf and clearing it again changes no translation and leaves no table more in use. -/
theorem remove_insert (h : t.Shaped pos) (vm phys size : UInt64) (flags : PageFlags)
    (hfree : ∀ a l e, t.leafOf a = some (l, e) → meets l a vm.toNat (vm.toNat + size.toNat) = false) :
    ((t.insert vm phys size flags).1.remove vm size).format = t.format ∧
      (∀ a, ((t.insert vm phys size flags).1.remove vm size).leafOf a = t.leafOf a) ∧
      ((t.insert vm phys size flags).1.remove vm size).tablesInUse ≤ t.tablesInUse := by
  have hsound : t.Sound := ⟨pos, h.toPlaced⟩
  obtain ⟨k, -, -, hins⟩ := insert_inserts hsound vm phys size flags
  have hleaf := leafOf_remove_insert hsound vm phys size flags hfree
  exact ⟨(remove_removes hins.sound vm size).2.same.format.trans hins.same.format, hleaf,
    tablesInUse_remove_insert h vm phys size flags hleaf⟩

theorem Reachable.removeAll {format : EntryFormat} {base : UInt64} {capacity : ℕ}
    (h : Reachable format base capacity t) (fs : List Flush) : Reachable format base capacity (t.removeAll fs) := by
  induction fs generalizing t with
  | nil => exact h
  | cons f fs ih => exact ih (.remove f.region.base f.region.size h)

end PageTable

/-! ## The session -/

namespace Session

variable {σ : Type} {P : Platform σ} {virt : Virt} {config : Config} {steps : List (Served σ)} {s s' : Session}
  {w : World σ} {ds : Dataspace} {guest : UInt64} {attr : AttachAttr} {memory : GuestMemory} {region : Region}
  {mapping : Mapping}

/-- the page table of a session is one that insertions and removals lead to -/
theorem Reaches.table_reachable (h : s.Reaches P virt config steps) :
    PageTable.Reachable virt.format s.store.phys tableMax s.table := by
  induction h with
  | new h =>
    rw [(new_eq_ok h).2]
    exact .new
  | @serve steps s hreach w request ih =>
    obtain ⟨s1, fs, hmaps, hunmaps⟩ := Served.effect P ⟨s, w, request⟩ hreach.memory_sound
    rw [hunmaps.store, hmaps.store, hunmaps.table]
    refine .removeAll ?_ fs
    cases hmaps with
    | nothing => exact ih
    | again => exact .insert _ _ _ _ ih
    | fresh => exact .insert _ _ _ _ ih

/-- `s'` is `s` again: its memory with all marks, metadata and charges, its translations, and no table more in use -/
structure Restores (s s' : Session) : Prop where
  memory : s'.memory = s.memory
  lookup : ∀ a, s'.lookup a = s.lookup a
  tables : s'.table.tablesInUse ≤ s.table.tablesInUse
  /-- nothing else is touched -/
  others : s' = { s with memory := s'.memory, table := s'.table }

/-- the session with `memory`, and with the window mapped as far as the page table takes it -/
def withWindow (s : Session) (memory : GuestMemory) (mapping : Mapping) : Session :=
  { s with memory, table := (s.table.insert mapping.guest mapping.host mapping.size .guestRam).1 }

/-- the window of a new region meets no leaf -/
theorem meets_of_place (h : s.Reaches P virt config steps) (hfits : StorageFits s.store.phys tableMax)
    (hplace : s.memory.place ds guest attr = .ok (.fresh memory region mapping)) {a l : ℕ} {e : UInt64}
    (hleaf : s.table.leafOf a = some (l, e)) :
    meets l a mapping.guest.toNat (mapping.guest.toNat + mapping.size.toNat) = false := by
  obtain ⟨r, hr, hin, -⟩ := (h.mirrors hfits).inside a l e hleaf
  have hreg := (GuestMemory.place_eq_fresh h.memory_sound hplace).2
  rw [Bool.eq_false_iff]
  intro hmeets
  obtain ⟨b, h1, h2, hb⟩ := meets_iff.1 hmeets
  have hfree := hreg.free r hr
  have hblock := hin b hb
  rw [← hreg.base, ← hreg.size] at h2
  rw [← hreg.base] at h1
  unfold RegionAttr.stop at hfree hblock
  omega

/-- detaching a region just registered undoes what was mapped of its window -/
theorem removeRegionAt_restores (h : s.Reaches P virt config steps) (hfits : StorageFits s.store.phys tableMax)
    (hplace : s.memory.place ds guest attr = .ok (.fresh memory region mapping)) (w : World σ) :
    s.Restores ((s.withWindow memory mapping).removeRegionAt P guest w).1 := by
  obtain ⟨⟨pos, hshaped⟩, -⟩ := h.table_reachable.shaped hfits
  have hreg := (GuestMemory.place_eq_fresh h.memory_sound hplace).2
  have hdetach : (s.withWindow memory mapping).memory.detachAt guest = (s.memory, some region.flush) :=
    GuestMemory.detachAt_of_place h.memory_sound h.metered hplace
  have htable : (s.withWindow memory mapping).table.removeAll [region.flush] =
      (s.table.insert mapping.guest mapping.host mapping.size .guestRam).1.remove mapping.guest mapping.size := by
    calc (s.withWindow memory mapping).table.removeAll [region.flush]
        = (s.withWindow memory mapping).table.remove region.attr.base region.attr.size := rfl
      _ = (s.withWindow memory mapping).table.remove mapping.guest mapping.size := by rw [hreg.base, hreg.size]
  have hundo := PageTable.remove_insert hshaped mapping.guest mapping.host mapping.size .guestRam
    fun a l e hleaf => meets_of_place h hfits hplace hleaf
  rw [← htable] at hundo
  obtain ⟨hformat, hleaf, htables⟩ := hundo
  simp only [removeRegionAt, hdetach, Option.toList_some, settle_fst]
  refine ⟨rfl, fun a => ?_, htables, rfl⟩
  rw [Session.lookup, Session.lookup, PageTable.lookup_eq, PageTable.lookup_eq, hleaf]
  congr 1
  funext x
  exact PageTable.translationOf_congr hformat _ x

/-- nothing is detached where no region is -/
theorem Restores.removeRegionAt (hr : s.Restores s') (hs : s.memory.Sound)
    (hplace : s.memory.place ds guest attr = .ok (.fresh memory region mapping)) (w : World σ) :
    s.Restores (s'.removeRegionAt P guest w).1 := by
  obtain ⟨hselect, hreg⟩ := GuestMemory.place_eq_fresh hs hplace
  have hnone : s'.memory.regionContaining guest = none := by
    rw [hr.memory, Option.eq_none_iff_forall_ne_some]
    intro r hcontains
    obtain ⟨hmem, hin⟩ := (GuestMemory.regionContaining_eq_some_iff hs).1 hcontains
    have hfree := hreg.free r hmem
    have hnonempty := hreg.nonempty
    rw [RegionAttr.contains_iff] at hin
    rw [hreg.base, (select?_eq_some hselect).2.1] at hfree
    unfold RegionAttr.stop at hfree hin
    rw [hreg.base, (select?_eq_some hselect).2.1] at hfree
    omega
  simp only [Session.removeRegionAt, GuestMemory.detachAt_of_none hnone, Option.toList_none, settle_fst]
  exact hr

/-- a new region stays with what was mapped of it, or is detached again where the configuration wants that -/
theorem attachDataspace_of_fresh (hplace : s.memory.place ds guest attr = .ok (.fresh memory region mapping)) :
    ∃ o, ((s.attachDataspace P ds guest attr w).1 = (o, s.withWindow memory mapping) ∧
        (s.config.rollback = true → o = .ok ())) ∨
      ∃ w', (s.attachDataspace P ds guest attr w).1 = (o, ((s.withWindow memory mapping).removeRegionAt P guest w').1) := by
  rw [attachDataspace, bind_apply, attachWindow_of_fresh hplace]
  cases hins : s.table.insert mapping.guest mapping.host mapping.size .guestRam with
  | mk table o =>
    have hsession : s.withWindow memory mapping = { s with memory, table } := by rw [withWindow, hins]
    cases o with
    | ok u =>
      refine ⟨.ok (), Or.inl ⟨?_, fun _ => rfl⟩⟩
      simp only [mapWindow, hins, hsession]
      rfl
    | error e =>
      refine ⟨.error (.ofAttach (.translation e true)), ?_⟩
      simp only [mapWindow, hins, hsession, Except.mapError, wantsRollback, Bool.true_and]
      split_ifs with hrollback
      · exact Or.inr ⟨_, rfl⟩
      · exact Or.inl ⟨rfl, fun hc => absurd hc hrollback⟩

/-- a window of a region that is there never changes guest memory -/
theorem attachDataspace_of_again (hplace : s.memory.place ds guest attr = .ok (.again mapping)) :
    (s.attachDataspace P ds guest attr w).1.2.memory = s.memory := by
  rw [attachDataspace, bind_apply, attachWindow_of_again hplace]
  cases hins : s.table.insert mapping.guest mapping.host mapping.size .guestRam with
  | mk table o =>
    cases o with
    | ok u => simp [mapWindow, hins, Except.mapError, pure_apply]
    | error e => simp [mapWindow, hins, Except.mapError, wantsRollback, pure_apply]

end Session

/-! ## Main result -/

variable {σ : Type} {P : Platform σ} {virt : Virt} {config : Config} {steps : List (Served σ)} {s : Session}

/-- **Undoing an attach request restores the session.** If a request registers a region, detaching at its first address
gives back the session as it was, whatever the request answered. With rollback configured, a request that fails then has
restored the session by itself. A request for a window of a region that is there leaves guest memory alone. -/
theorem attach_undone (h : s.Reaches P virt config steps) (hfits : StorageFits s.store.phys tableMax) {w : World σ}
    {cap : DataspaceCap} {ds : Dataspace} (hds : (P.answer (.lookupDataspace cap) w.host).1 = some ds) (guest : UInt64)
    (attr : AttachAttr) :
    (∀ memory region mapping, s.memory.place ds guest attr = .ok (.fresh memory region mapping) →
      (∀ w', s.Restores ((s.attach P cap guest attr w).1.2.detachAt P guest w').1) ∧
      (s.config.rollback = true → (s.attach P cap guest attr w).1.1 ≠ .ok () →
        s.Restores (s.attach P cap guest attr w).1.2)) ∧
    ∀ mapping, s.memory.place ds guest attr = .ok (.again mapping) →
      (s.attach P cap guest attr w).1.2.memory = s.memory := by
  obtain ⟨w1, hattach⟩ := Session.attach_of_some s guest attr hds
  rw [hattach]
  refine ⟨fun memory region mapping hplace => ?_, fun mapping hplace => Session.attachDataspace_of_again hplace⟩
  have hundo := Session.removeRegionAt_restores h hfits hplace
  obtain ⟨o, ⟨hresult, hok⟩ | ⟨w2, hresult⟩⟩ := Session.attachDataspace_of_fresh (P := P) (w := w1) hplace
  · rw [hresult]
    exact ⟨fun w' => hundo _, fun hrollback hne => absurd (hok hrollback) hne⟩
  · rw [hresult]
    exact ⟨fun w' => (hundo w2).removeRegionAt h.memory_sound hplace _, fun _ _ => hundo w2⟩

/-- a session that detaches regions whose mapping failed -/
def strictSession : Session := { emptySession with config := { Config.default with rollback := true } }

/-- a host whose one dataspace ends in the middle of a page -/
def raggedDataspace : World Host :=
  ⟨(Host.new 0x40000000 0x80000000).addDataspace ⟨0x10⟩ 0x4800 0x100000000 false true, .new, []⟩

/-- the whole dataspace is mapped and detached again; the one that ends in the middle of a page is registered, refused by
the page table and detached by the request itself -/
theorem attach_undone_whole_and_ragged :
    StorageFits strictSession.store.phys tableMax ∧
    (strictSession.attach Host.platform ⟨0x10⟩ 0x1000 ⟨0, 0, true, false⟩ oneDataspace).1.2.lookup 0x1234 =
      some ⟨0x100000234, 0x1000, .guestRam⟩ ∧
    strictSession.Restores ((strictSession.attach Host.platform ⟨0x10⟩ 0x1000 ⟨0, 0, true, false⟩ oneDataspace).1.2.detachAt
      Host.platform 0x1000 oneDataspace).1 ∧
    (strictSession.attach Host.platform ⟨0x10⟩ 0x1000 ⟨0, 0, true, false⟩ raggedDataspace).1.1 ≠ .ok () ∧
    strictSession.Restores
      (strictSession.attach Host.platform ⟨0x10⟩ 0x1000 ⟨0, 0, true, false⟩ raggedDataspace).1.2 := by
  have hreach : strictSession.Reaches Host.platform .svm { Config.default with rollback := true } [] :=
    .new (w := oneDataspace) rfl
  have hfits : StorageFits strictSession.store.phys tableMax := by decide
  have hne : (strictSession.attach Host.platform ⟨0x10⟩ 0x1000 ⟨0, 0, true, false⟩ raggedDataspace).1.1 ≠ .ok () := by
    decide +kernel
  have hwhole : (Host.platform.answer (.lookupDataspace ⟨0x10⟩) oneDataspace.host).1 = some wholeRegion.dataspace := rfl
  have hragged : (Host.platform.answer (.lookupDataspace ⟨0x10⟩) raggedDataspace.host).1 =
      some ⟨0, ⟨0x10⟩, 0x4800, 0x100000000, false, true⟩ := rfl
  have hundone := (attach_undone hreach hfits hwhole 0x1000 ⟨0, 0, true, false⟩).1 _ _ _ rfl
  have hrolled := (attach_undone hreach hfits hragged 0x1000 ⟨0, 0, true, false⟩).1 _ _ _ rfl
  exact ⟨hfits, by decide +kernel, hundone.1 oneDataspace, hne, hrolled.2 rfl hne⟩

end NestedGuest
