/-
Attach requests in whatever order.

If the windows of several requests are disjoint and meet no region, serving one leaves the others as they were: their
windows are still free (`Ready.step`). What all of them lead to is then said without their order (`Opened`), and so is
what they need, which is metadata for as many regions and the tables of their windows (`exists_attachAll`).

- `attach_order_irrelevant`: requests that all succeed in one order do so in every order, with the same regions, the
  same quota, as many tables in use and the same translations.

Premise: core RAM gives the page table page-aligned storage that ends at or below `2 ^ 52` (`StorageFits`).
-/
import NestedGuest.Proofs.Memory.Offers
import NestedGuest.Proofs.Session.Occupancy
import NestedGuest.Proofs.Session.Undo

namespace NestedGuest

open Bench (Host)
open GuestMemory (SameBooks)

namespace Offer

variable {σ : Type} {o : Offer} {os os' : List Offer}

/-- the capability names the dataspace of the request -/
def Resolves (P : Platform σ) (o : Offer) (w : World σ) : Prop :=
  (P.answer (.lookupDataspace o.cap) w.host).1 = some o.dataspace

/-- the windows that the requests come to -/
def windows (os : List Offer) : Set Mapping := {w | ∃ o ∈ os, o.Selects w}

theorem windows_cons : windows (o :: os) = windows [o] ∪ windows os := by
  ext w
  simp [windows]

theorem windows_singleton {w : Mapping} (h : o.Selects w) : windows [o] = {w} := by
  ext v
  simp only [windows, List.mem_singleton, exists_eq_left, Set.mem_ofPred_eq, Set.mem_singleton_iff]
  constructor
  · exact fun hv => hv.unique h
  · rintro rfl
    exact h

theorem windows_perm (h : os.Perm os') : windows os' = windows os := by
  ext w
  simp only [windows, h.mem_iff]

end Offer

namespace Session

variable {σ : Type} {P : Platform σ} {s s' u v : Session} {w : World σ} {o : Offer} {os os' : List Offer}
  {xs xs' : List (Offer × World σ)}

/-! ## One request -/

/-- `s'` is `s` with the window of the request registered and mapped -/
def Opens (s : Session) (o : Offer) (s' : Session) : Prop :=
  ∃ w m, o.Selects w ∧ s.memory.reserveMetadata = .ok m ∧ (s.table.insertWindow w).2 = .ok () ∧
    s' = s.withWindow (m.register (o.region w)) w

theorem mapWindow_eq_ok_iff {mapping : Mapping} {newRegion : Bool} :
    s.mapWindow mapping newRegion = (.ok (), s') ↔
      (s.table.insertWindow mapping).2 = .ok () ∧ s' = { s with table := (s.table.insertWindow mapping).1 } := by
  unfold mapWindow PageTable.insertWindow
  cases s.table.insert mapping.guest mapping.host mapping.size .guestRam with
  | mk table r =>
    cases r with
    | ok u => simp [Except.mapError, eq_comm]
    | error e => simp [Except.mapError]

/-- a request that failed is answered with an error, whether it is rolled back or not -/
theorem attachDataspace_eq_ok_iff {ds : Dataspace} {guest : UInt64} {attr : AttachAttr} :
    (s.attachDataspace P ds guest attr w).1 = (.ok (), s') ↔ (s.attachWindow P ds guest attr w).1 = (.ok (), s') := by
  rw [attachDataspace, bind_apply]
  cases (s.attachWindow P ds guest attr w).1 with
  | mk r s1 =>
    cases r with
    | ok _ => simp [pure_apply]
    | error e =>
      simp only
      split_ifs <;> simp [bind_apply, pure_apply]

/-- A request for a free window succeeds exactly if there is metadata for a region more and the page table takes all of
the window. -/
theorem attach_eq_ok_iff (hs : s.memory.Sound) (hfree : o.FreeOf s.memory) (hds : o.Resolves P w) :
    (s.attach P o.cap o.guest o.attr w).1 = (.ok (), s') ↔ s.Opens o s' := by
  obtain ⟨w1, hattach⟩ := attach_of_some s o.guest o.attr hds
  rw [hattach, attachDataspace_eq_ok_iff]
  have hplace := @GuestMemory.place_eq_ok_iff o s.memory hs hfree
  cases hp : s.memory.place o.dataspace o.guest o.attr with
  | error e =>
    rw [attachWindow_of_error hp]
    refine ⟨fun h => (by cases h), fun hopens => ?_⟩
    obtain ⟨w, m, hw, hm, -⟩ := hopens
    have hok := hplace.2 ⟨w, m, hw, hm, rfl⟩
    rw [hp] at hok
    cases hok
  | ok placement =>
    obtain ⟨w, m, hw, hm, rfl⟩ := hplace.1 hp
    rw [attachWindow_of_fresh hp, mapWindow_eq_ok_iff]
    constructor
    · intro h
      exact ⟨w, m, hw, hm, h⟩
    · intro hopens
      obtain ⟨w', m', hw', hm', h⟩ := hopens
      obtain rfl := hw.unique hw'
      obtain rfl := Except.ok.inj (hm.symm.trans hm')
      exact h

/-! ## Several requests -/

/-- serves one attach request after the other, as long as none fails -/
def attachAll (P : Platform σ) (s : Session) : List (Offer × World σ) → Except SessionError Session
  | [] => .ok s
  | (o, w) :: xs =>
    match (s.attach P o.cap o.guest o.attr w).1 with
    | (.error e, _) => .error e
    | (.ok (), s') => s'.attachAll P xs

/-- the windows of the requests are disjoint and free, in guest memory and in the page table -/
structure Ready (s : Session) (os : List Offer) : Prop where
  sound : s.memory.Sound
  shaped : ∃ pos, s.table.Shaped pos
  leaves : ∀ a x, s.table.leafOf a = some x → s.memory.Holds a
  free : ∀ o ∈ os, o.FreeOf s.memory
  apart : os.Pairwise Offer.Apart

/-- `s'` is `s` with the windows of the requests registered and mapped, in whatever order -/
structure Opened (s : Session) (os : List Offer) (s' : Session) : Prop where
  sound : s'.memory.Sound
  regions : ∀ r, r ∈ s'.memory.regions ↔ r ∈ s.memory.regions ∨ ∃ o ∈ os, ∃ w, o.Selects w ∧ r = o.region w
  table : s.table.Extends s'.table (Offer.windows os)
  mappable : ∀ o ∈ os, ∃ w, o.Selects w ∧ w.Mappable

theorem Opened.cons (h : s.Opened [o] u) (h' : u.Opened os s') : s.Opened (o :: os) s' where
  sound := h'.sound
  regions r := by
    rw [h'.regions, h.regions]
    simp [or_assoc]
  table := by
    rw [Offer.windows_cons]
    exact h.table.trans h'.table
  mappable := by
    refine List.forall_mem_cons.2 ⟨?_, h'.mappable⟩
    exact h.mappable o List.mem_cons_self

namespace Ready

theorem perm (h : s.Ready os) (hperm : os.Perm os') : s.Ready os' where
  sound := h.sound
  shaped := h.shaped
  leaves := h.leaves
  free o ho := h.free o (hperm.mem_iff.2 ho)
  apart := (hperm.pairwise_iff Offer.Apart.symm).1 h.apart

/-- no leaf is in a free window -/
theorem leafOf_eq_none (h : s.Ready (o :: os)) {w : Mapping} (hw : o.Selects w) {a : ℕ} (ha : w.Has a) :
    s.table.leafOf a = none := by
  rw [Option.eq_none_iff_forall_ne_some]
  intro x hx
  obtain ⟨r, hr, hin⟩ := h.leaves a x hx
  exact h.free o List.mem_cons_self w hw r hr a ha hin

/-- one request is served -/
theorem opened (h : s.Ready (o :: os)) (hopens : s.Opens o u) : s.Opened [o] u := by
  obtain ⟨w, m, hw, hm, hins, rfl⟩ := hopens
  obtain ⟨pos, hshaped⟩ := h.shaped
  have hplace := (GuestMemory.place_eq_ok_iff h.sound (h.free o List.mem_cons_self)).2 ⟨w, m, hw, hm, rfl⟩
  refine ⟨(GuestMemory.place_eq_fresh h.sound hplace).2.sound h.sound, fun r => ?_, ?_, ?_⟩
  · have hmem : r ∈ (m.register (o.region w)).regions ↔ r = o.region w ∨ r ∈ s.memory.regions := by
      rw [GuestMemory.mem_register, GuestMemory.reserveMetadata_regions hm]
    refine hmem.trans ⟨fun hr => ?_, fun hr => ?_⟩
    · exact hr.symm.imp_right fun heq => ⟨o, List.mem_singleton_self o, w, hw, heq⟩
    · refine hr.symm.imp_left fun hnew => ?_
      obtain ⟨o', ho', w', hw', rfl⟩ := hnew
      obtain rfl := List.mem_singleton.1 ho'
      rw [hw'.unique hw]
  · rw [Offer.windows_singleton hw]
    exact .of_insert hshaped (fun a ha => h.leafOf_eq_none hw ha) hins
  · intro o' ho'
    obtain rfl := List.mem_singleton.1 ho'
    exact ⟨w, hw, PageTable.mappable_of_insert hins⟩

/-- the windows of the other requests are still free -/
theorem step (h : s.Ready (o :: os)) (hopened : s.Opened [o] u) : u.Ready os where
  sound := hopened.sound
  shaped := hopened.table.shaped
  leaves a x hx := by
    rcases hopened.table.only a x hx with hold | ⟨w, ⟨o', ho', hw⟩, ha⟩
    · obtain ⟨r, hr, hin⟩ := h.leaves a x hold
      exact ⟨r, (hopened.regions r).2 (Or.inl hr), hin⟩
    · exact ⟨o'.region w, (hopened.regions _).2 (Or.inr ⟨o', ho', w, hw, rfl⟩), hw.has_iff.1 ha⟩
  free p hp w hw r hr a ha := by
    rcases (hopened.regions r).1 hr with hold | ⟨o', ho', w', hw', rfl⟩
    · exact h.free p (List.mem_cons_of_mem o hp) w hw r hold a ha
    · obtain rfl := List.mem_singleton.1 ho'
      rw [← hw'.has_iff]
      exact fun ha' => (List.pairwise_cons.1 h.apart).1 p hp w' w hw' hw a ha' ha
  apart := (List.pairwise_cons.1 h.apart).2

theorem attachAll_cons_iff (h : s.Ready (o :: os)) (hds : o.Resolves P w) :
    s.attachAll P ((o, w) :: xs) = .ok s' ↔ ∃ u, s.Opens o u ∧ u.attachAll P xs = .ok s' := by
  have hattach : ∀ u, (s.attach P o.cap o.guest o.attr w).1 = (.ok (), u) ↔ s.Opens o u := fun u =>
    attach_eq_ok_iff h.sound (h.free o List.mem_cons_self) hds
  rw [attachAll]
  cases hr : (s.attach P o.cap o.guest o.attr w).1 with
  | mk r u =>
    cases r with
    | ok _ =>
      refine ⟨fun hrest => ⟨u, (hattach u).1 hr, hrest⟩, fun hx => ?_⟩
      obtain ⟨u', hopens, hrest⟩ := hx
      have hsame := (hattach u').2 hopens
      rw [hr] at hsame
      cases hsame
      exact hrest
    | error e =>
      refine ⟨fun herror => (by cases herror), fun hx => ?_⟩
      obtain ⟨u', hopens, -⟩ := hx
      have hsame := (hattach u').2 hopens
      rw [hr] at hsame
      cases hsame

/-- all requests are served -/
theorem opened_of_attachAll (h : s.Ready (xs.map Prod.fst)) (hds : ∀ x ∈ xs, x.1.Resolves P x.2)
    (hok : s.attachAll P xs = .ok s') : s.Opened (xs.map Prod.fst) s' := by
  induction xs generalizing s with
  | nil =>
    cases hok
    obtain ⟨pos, hshaped⟩ := h.shaped
    refine ⟨h.sound, by simp, ?_, by simp⟩
    rw [show Offer.windows (List.map Prod.fst []) = ∅ by simp [Offer.windows]]
    exact .refl hshaped
  | cons x xs ih =>
    obtain ⟨hx, hxs⟩ := List.forall_mem_cons.1 hds
    obtain ⟨u, hopens, hrest⟩ := (h.attachAll_cons_iff hx).1 hok
    have hopened := h.opened hopens
    exact hopened.cons (ih (h.step hopened) hxs hrest)

end Ready

/-! ## As many requests in another session -/

/-- the page table has the tables that the windows of the requests need -/
def HasRoom (s : Session) (os : List Offer) : Prop :=
  (s.table.places ∪ ⋃ w ∈ Offer.windows os, w.needs).encard ≤ s.table.nodes.capacity

theorem Opened.hasRoom (h : s.Opened os s') : s.HasRoom os := by
  obtain ⟨pos, hshaped⟩ := h.table.shaped
  rw [HasRoom, ← h.table.places, hshaped.encard_places_eq, ← h.table.same.capacity]
  exact_mod_cast TableArray.inUse_le hshaped.nodes

theorem HasRoom.step (h : s.HasRoom (o :: os)) (hopened : s.Opened [o] u) : u.HasRoom os := by
  rw [HasRoom, hopened.table.places, hopened.table.same.capacity, Set.union_assoc, ← Set.biUnion_union,
    ← Offer.windows_cons]
  exact h

/-- with metadata and tables, a request succeeds -/
theorem HasRoom.exists_opens (h : s.HasRoom (o :: os)) (hready : s.Ready (o :: os)) {w : Mapping} (hw : o.Selects w)
    (hmap : w.Mappable) {m : GuestMemory} (hm : s.memory.reserveMetadata = .ok m) :
    s.Opens o (s.withWindow (m.register (o.region w)) w) := by
  obtain ⟨pos, hshaped⟩ := hready.shaped
  have hsub : w.needs ⊆ ⋃ v ∈ Offer.windows (o :: os), v.needs :=
    Set.subset_biUnion_of_mem (u := Mapping.needs) ⟨o, List.mem_cons_self, hw⟩
  refine ⟨w, m, hw, hm, ?_, rfl⟩
  refine (PageTable.insert_eq_ok_iff hshaped fun a hlow hhigh => hready.leafOf_eq_none hw ⟨hlow, hhigh⟩).2 ⟨hmap, ?_⟩
  exact (Set.encard_le_encard (Set.union_subset_union_right _ hsub)).trans h

/-- Where as many requests have succeeded with the same metadata, further ones succeed if there are the tables that they
need. -/
theorem exists_attachAll (h : s.Ready (xs.map Prod.fst)) (hds : ∀ x ∈ xs, x.1.Resolves P x.2)
    (hok : s.attachAll P xs = .ok s') (hbooks : SameBooks s.memory v.memory) (hlength : xs'.length = xs.length)
    (h' : v.Ready (xs'.map Prod.fst)) (hds' : ∀ x ∈ xs', x.1.Resolves P x.2)
    (hmap : ∀ o ∈ xs'.map Prod.fst, ∃ w, o.Selects w ∧ w.Mappable) (hroom : v.HasRoom (xs'.map Prod.fst)) :
    ∃ v', v.attachAll P xs' = .ok v' ∧ SameBooks s'.memory v'.memory := by
  induction xs generalizing s v xs' with
  | nil =>
    obtain rfl := List.eq_nil_of_length_eq_zero hlength
    cases hok
    exact ⟨v, rfl, hbooks⟩
  | cons x xs ih =>
    obtain ⟨y, ys, rfl⟩ := List.exists_cons_of_length_eq_add_one hlength
    obtain ⟨hx, hxs⟩ := List.forall_mem_cons.1 hds
    obtain ⟨hy, hys⟩ := List.forall_mem_cons.1 hds'
    obtain ⟨⟨w, hw, hwmap⟩, hmaps⟩ := List.forall_mem_cons.1 hmap
    -- the next request of each run
    obtain ⟨u, hopens, hrest⟩ := (h.attachAll_cons_iff hx).1 hok
    have hready := h.step (h.opened hopens)
    obtain ⟨w', m, -, hm, -, rfl⟩ := hopens
    obtain ⟨n, hn, hmn⟩ := hbooks.reserve hm
    have hopens' := hroom.exists_opens h' hw hwmap hn
    have hopened' := h'.opened hopens'
    -- and the others
    obtain ⟨v', hrest', hbooks'⟩ := ih (v := v.withWindow (n.register (y.1.region w)) w) hready hxs hrest
      (hmn.register _ _) (Nat.succ.inj hlength) (h'.step hopened') hys hmaps (hroom.step hopened')
    exact ⟨v', (h'.attachAll_cons_iff hy).2 ⟨_, hopens', hrest'⟩, hbooks'⟩

end Session

/-! ## Main result -/

variable {σ : Type} {P : Platform σ} {virt : Virt} {config : Config} {steps : List (Served σ)} {s s' : Session}
  {xs xs' : List (Offer × World σ)}

/-- **The order of attach requests does not matter.** If the windows of the requests are disjoint and meet no region,
and all of them succeed in one order, then they succeed in every order, with the same regions, the same metadata and
quota, as many tables in use and the same translations. The worlds may differ, as long as the capabilities name the same
dataspaces. -/
theorem attach_order_irrelevant (h : s.Reaches P virt config steps) (hfits : StorageFits s.store.phys tableMax)
    (hapart : (xs.map Prod.fst).Pairwise Offer.Apart) (hfree : ∀ x ∈ xs, x.1.FreeOf s.memory)
    (hds : ∀ x ∈ xs, x.1.Resolves P x.2) (hok : s.attachAll P xs = .ok s')
    (hperm : (xs.map Prod.fst).Perm (xs'.map Prod.fst)) (hds' : ∀ x ∈ xs', x.1.Resolves P x.2) :
    ∃ s'', s.attachAll P xs' = .ok s'' ∧ s''.memory = s'.memory ∧
      s''.table.tablesInUse = s'.table.tablesInUse ∧ ∀ a, s''.lookup a = s'.lookup a := by
  have hcovers := h.covers hfits
  have hready : s.Ready (xs.map Prod.fst) :=
    { sound := h.memory_sound, shaped := hcovers.shaped, leaves := hcovers.leaves
      free := List.forall_mem_map.2 hfree, apart := hapart }
  have hready' := hready.perm hperm
  have hopened := hready.opened_of_attachAll hds hok
  have hwindows : Offer.windows (xs'.map Prod.fst) = Offer.windows (xs.map Prod.fst) := Offer.windows_perm hperm
  have hroom : s.HasRoom (xs'.map Prod.fst) := by
    rw [Session.HasRoom, hwindows]
    exact hopened.hasRoom
  have hlength : xs'.length = xs.length := by
    rw [← List.length_map (f := Prod.fst), ← hperm.length_eq, List.length_map]
  obtain ⟨s'', hok', hbooks⟩ := Session.exists_attachAll hready hds hok (SameBooks.refl s.memory) hlength hready' hds'
    (fun o ho => hopened.mappable o (hperm.mem_iff.2 ho)) hroom
  have hopened' := hready'.opened_of_attachAll hds' hok'
  have htable' := hopened'.table
  rw [hwindows] at htable'
  obtain ⟨htables, hlookup⟩ := hopened.table.agree htable'
  refine ⟨s'', hok', ?_, htables, hlookup⟩
  refine GuestMemory.eq_of_books hopened.sound hopened'.sound hbooks fun r => ?_
  simp only [hopened.regions, hopened'.regions, hperm.mem_iff]

/-- a host whose one dataspace is as large as two leaves of `0x200000` bytes -/
def largeDataspace : World Host :=
  ⟨(Host.new 0x40000000 0x80000000).addDataspace ⟨0x10⟩ 0x400000 0x100000000 false true, .new, []⟩

/-- the first half of that dataspace, for which one leaf will do -/
def largeOffer : Offer where
  cap := ⟨0x10⟩
  dataspace := ⟨0, ⟨0x10⟩, 0x400000, 0x100000000, false, true⟩
  guest := 0x200000
  attr := ⟨0, 0x200000, true, false⟩

/-- the page behind it -/
def smallOffer : Offer := { largeOffer with guest := 0x400000, attr := ⟨0x200000, 0x1000, true, false⟩ }

def largeFirst : List (Offer × World Host) := [(largeOffer, largeDataspace), (smallOffer, largeDataspace)]

def smallFirst : List (Offer × World Host) := [(smallOffer, largeDataspace), (largeOffer, largeDataspace)]

theorem attach_order_irrelevant_large_small :
    StorageFits emptySession.store.phys tableMax ∧
    ∃ s' s'', emptySession.attachAll Host.platform largeFirst = .ok s' ∧
      emptySession.attachAll Host.platform smallFirst = .ok s'' ∧
      s'.lookup 0x212345 = some ⟨0x100012345, 0x200000, .guestRam⟩ ∧ s''.memory = s'.memory ∧
      s''.table.tablesInUse = s'.table.tablesInUse ∧ ∀ a, s''.lookup a = s'.lookup a := by
  have hfits : StorageFits emptySession.store.phys tableMax := by decide
  have hlarge : largeOffer.Selects ⟨0x200000, 0x100000000, 0x200000⟩ := rfl
  have hsmall : smallOffer.Selects ⟨0x400000, 0x100200000, 0x1000⟩ := rfl
  have hapart : (largeFirst.map Prod.fst).Pairwise Offer.Apart := by
    refine List.pairwise_pair.2 fun w w' hw hw' a ha => ?_
    obtain rfl := hw.unique hlarge
    obtain rfl := hw'.unique hsmall
    have hstop : a < 0x400000 := ha.2
    exact fun ha' => absurd ha'.1 (Nat.not_le.2 hstop)
  have hds : ∀ x ∈ largeFirst, x.1.Resolves Host.platform x.2 := by
    simp only [largeFirst, List.forall_mem_cons]
    exact ⟨rfl, rfl, by simp⟩
  have hperm : (largeFirst.map Prod.fst).Perm (smallFirst.map Prod.fst) := .swap _ _ _
  have hds' : ∀ x ∈ smallFirst, x.1.Resolves Host.platform x.2 :=
    fun x hx => hds x ((List.Perm.swap _ _ _).mem_iff.1 hx)
  have hlookup : ((emptySession.attachAll Host.platform largeFirst).toOption.bind fun s => s.lookup 0x212345) =
      some ⟨0x100012345, 0x200000, .guestRam⟩ := by
    decide +kernel
  cases hok : emptySession.attachAll Host.platform largeFirst with
  | error e =>
    rw [hok] at hlookup
    cases hlookup
  | ok s' =>
    rw [hok] at hlookup
    obtain ⟨s'', hok', hsame⟩ := attach_order_irrelevant reaches_emptySession hfits hapart
      (fun x _ w _ r hr => (by cases hr)) hds hok hperm hds'
    exact ⟨hfits, s', s'', rfl, hok', hlookup, hsame⟩

end NestedGuest
