/-
What serving a request does to guest memory and to the page table.

Every request first maps a window or nothing (`Served.Maps`), and then unmaps the regions that were flushed, in guest
memory (`GuestMemory.Flushed`) and in the page table (`PageTable.removeAll`) alike. A failed attach request that is
rolled back does both, all others do one of the two at most.

- `Served.effect`: this holds of every request, in every world.
-/
import NestedGuest.Proofs.Memory.Attach
import NestedGuest.Proofs.Memory.Flush
import NestedGuest.Proofs.Paging.Exactness
import NestedGuest.Proofs.Session.Run
import NestedGuest.Session.Request

namespace NestedGuest

open GuestMemory (Flushed)

variable {σ : Type} {P : Platform σ} {s : Session} {w : World σ}

/-! ## Unmapping -/

namespace PageTable

/-- removes flushed regions one after the other -/
def removeAll (t : PageTable) (fs : List Flush) : PageTable :=
  fs.foldl (fun t f => t.remove f.region.base f.region.size) t

/-- the leaves that meet a flushed region are gone -/
theorem removeAll_removes {t : PageTable} (h : t.Sound) (fs : List Flush) :
    (t.removeAll fs).Sound ∧ Removes t (t.removeAll fs) fun m a =>
      fs.any fun f => meets m a f.region.base.toNat (min f.region.stop addressSpaceEnd) := by
  induction fs generalizing t with
  | nil => exact ⟨h, Removes.refl t⟩
  | cons f fs ih =>
    obtain ⟨hsound, hfirst⟩ := remove_removes h f.region.base f.region.size
    obtain ⟨hsound', hrest⟩ := ih hsound
    exact ⟨hsound', hfirst.trans hrest⟩

end PageTable

namespace Session

theorem carryOut_fst (P : Platform σ) (table : PageTable) (f : Flush) (w : World σ) :
    (carryOut P table f w).1 = table.remove f.region.base f.region.size := by
  unfold carryOut
  split_ifs
  · simp only [bind_apply]
    split_ifs <;> rfl
  · rfl

theorem foldlM_carryOut_fst (P : Platform σ) (t : PageTable) (fs : List Flush) (w : World σ) :
    (fs.foldlM (carryOut P) t w).1 = t.removeAll fs := by
  induction fs generalizing t w with
  | nil => rfl
  | cons f fs ih =>
    rw [List.foldlM_cons, bind_apply, ih, carryOut_fst]
    rfl

theorem settle_fst (P : Platform σ) (s : Session) (memory : GuestMemory) (fs : List Flush) (w : World σ) :
    (s.settle P memory fs w).1 = { s with memory, table := s.table.removeAll fs } := by
  simp only [settle, bind_apply, foldlM_carryOut_fst, pure_apply]

/-- `s'` is `s` without the regions that `fs` flush -/
structure Unmaps (s s' : Session) (fs : List Flush) : Prop where
  memory : Flushed s.memory s'.memory fs
  table : s'.table = s.table.removeAll fs
  store : s'.store = s.store

/-- settling brings the page table in line -/
theorem Unmaps.of_settle (P : Platform σ) {memory : GuestMemory} {fs : List Flush} (h : Flushed s.memory memory fs)
    (w : World σ) : Unmaps s (s.settle P memory fs w).1 fs := by
  rw [settle_fst]
  exact ⟨h, rfl, rfl⟩

theorem removeRegionAt_unmaps (P : Platform σ) (hs : s.memory.Sound) (a : UInt64) (w : World σ) :
    Unmaps s (s.removeRegionAt P a w).1 (s.memory.detachAt a).2.toList :=
  .of_settle P (GuestMemory.detachAt_flushed hs a) w

theorem detach_unmaps (P : Platform σ) (hs : s.memory.Sound) (guest size : UInt64) (w : World σ) :
    ∃ fs, Unmaps s (s.detach P guest size w).1 fs := by
  rw [detach, spanned_fst, spanned_fst]
  cases hd : s.memory.detach? guest size with
  | none => exact ⟨[], .refl s.memory, rfl, rfl⟩
  | some x => exact ⟨x.2, .of_settle P (GuestMemory.detach?_flushed hs hd) _⟩

/-! ## Attaching -/

variable {ds : Dataspace} {guest : UInt64} {attr : AttachAttr}

/-- what the page table took of the window stays mapped -/
theorem mapWindow_eq {mapping : Mapping} {newRegion : Bool} {r : Except AttachError Unit} {s' : Session}
    (h : s.mapWindow mapping newRegion = (r, s')) :
    s' = { s with table := (s.table.insert mapping.guest mapping.host mapping.size .guestRam).1 } ∧
      (r = .ok () → (s.table.insert mapping.guest mapping.host mapping.size .guestRam).2 = .ok ()) := by
  simp only [mapWindow, Prod.mk.injEq] at h
  obtain ⟨hr, hs'⟩ := h
  refine ⟨hs'.symm, fun hok => ?_⟩
  rw [hok] at hr
  cases ho : (s.table.insert mapping.guest mapping.host mapping.size .guestRam).2 with
  | ok u => rfl
  | error e => rw [ho] at hr; cases hr

theorem attachWindow_of_error {e : AttachError} (h : s.memory.place ds guest attr = .error e) :
    (s.attachWindow P ds guest attr w).1 = (.error e, s) := by
  rw [attachWindow, traced_fst, h]
  cases ds.managed <;> rfl

theorem attachWindow_of_again {mapping : Mapping} (h : s.memory.place ds guest attr = .ok (.again mapping)) :
    (s.attachWindow P ds guest attr w).1 = s.mapWindow mapping false := by
  rw [attachWindow, traced_fst, h]
  rfl

theorem attachWindow_of_fresh {memory : GuestMemory} {region : Region} {mapping : Mapping}
    (h : s.memory.place ds guest attr = .ok (.fresh memory region mapping)) :
    (s.attachWindow P ds guest attr w).1 = { s with memory }.mapWindow mapping true := by
  rw [attachWindow, traced_fst, h]
  rfl

/-- a window that was mapped stays, or the region at its first address is detached again -/
theorem attachDataspace_cases {r : Except AttachError Unit} {s1 : Session}
    (h : (s.attachWindow P ds guest attr w).1 = (r, s1)) {o : Except SessionError Unit} {s' : Session}
    (h' : (s.attachDataspace P ds guest attr w).1 = (o, s')) :
    (o = .ok () → r = .ok ()) ∧ (s' = s1 ∨ ∃ w', s' = (s1.removeRegionAt P guest w').1) := by
  rw [attachDataspace, bind_apply, h] at h'
  cases r with
  | ok u =>
    cases h'
    exact ⟨fun _ => rfl, Or.inl rfl⟩
  | error e =>
    simp only at h'
    split_ifs at h'
    · rw [bind_apply, pure_apply] at h'
      obtain ⟨rfl, rfl⟩ := Prod.mk.inj h'
      exact ⟨by simp, Or.inr ⟨_, rfl⟩⟩
    · cases h'
      exact ⟨by simp, Or.inl rfl⟩

theorem attach_of_none {cap : DataspaceCap} (h : (P.answer (.lookupDataspace cap) w.host).1 = none) :
    (s.attach P cap guest attr w).1 = (.error .invalidDataspace, s) := by
  have hask : (ask P (.lookupDataspace cap) { w with journal := .span "attach" :: w.journal }).1 = none := h
  rw [attach, traced_fst, bind_apply, hask]
  rfl

theorem attach_of_some {cap : DataspaceCap} (s : Session) (guest : UInt64) (attr : AttachAttr)
    (h : (P.answer (.lookupDataspace cap) w.host).1 = some ds) :
    ∃ w', (s.attach P cap guest attr w).1 = (s.attachDataspace P ds guest attr w').1 := by
  have hask : (ask P (.lookupDataspace cap) { w with journal := .span "attach" :: w.journal }).1 = some ds := h
  rw [attach, traced_fst, bind_apply, hask]
  refine ⟨(ask P (.lookupDataspace cap) { w with journal := .span "attach" :: w.journal }).2, ?_⟩
  simp only [bind_apply]
  generalize s.attachDataspace P ds guest attr _ = o
  obtain ⟨⟨r, s'⟩, w'⟩ := o
  cases r <;> rfl

/-! ## Requests that do not concern memory -/

/-- regions, the page table and its storage are those of `s` -/
structure SameMemory (s s' : Session) : Prop where
  regions : s'.memory.regions = s.memory.regions
  table : s'.table = s.table
  store : s'.store = s.store

theorem Unmaps.of_sameMemory {s s' : Session} (h : SameMemory s s') : Unmaps s s' [] :=
  ⟨.of_regions_eq h.regions, h.table, h.store⟩

theorem SameMemory.refl (s : Session) : SameMemory s s := ⟨rfl, rfl, rfl⟩

theorem sameMemory_withQuota (s : Session) (q : Quota) : SameMemory s (s.withQuota q) := ⟨rfl, rfl, rfl⟩

theorem tryCreateVcpu_sameMemory (P : Platform σ) (s : Session) (thread : ThreadCap) :
    Ensures (s.tryCreateVcpu P thread) fun r => SameMemory s r.2 := by
  unfold tryCreateVcpu
  split_ifs
  · exact .pure (.refl s)
  split
  · exact .pure (.refl s)
  refine .step fun location => .step fun state => ?_
  split
  · exact .pure (sameMemory_withQuota s _)
  refine .step fun addr => ?_
  split
  · exact .step fun q => .pure (sameMemory_withQuota s _)
  refine .step fun cap => ?_
  split_ifs
  · exact .pure ⟨rfl, rfl, rfl⟩
  · exact .step fun _ => .step fun q => .pure (sameMemory_withQuota s _)

theorem createVcpu_sameMemory (P : Platform σ) (s : Session) (thread : ThreadCap) :
    Ensures (s.createVcpu P thread) fun r => SameMemory s r.2 := by
  refine .spanned _ ((tryCreateVcpu_sameMemory P s thread).bind fun r hr => ?_)
  obtain ⟨o, s'⟩ := r
  cases o with
  | ok cap => exact .step fun _ => .pure hr
  | error e => exact .step fun _ => .pure hr

/-- the vCPU that a capability names is the first that has it, and the one that is replaced -/
theorem setVcpu_split {v v' : Vcpu} {vs : List Vcpu} {cap : VcpuCap} (h : vs.find? (fun v => v.cap == cap) = some v)
    (hcap : v'.cap = v.cap) : ∃ before behind, vs = before ++ v :: behind ∧ setVcpu v' vs = before ++ v' :: behind := by
  have hv : v.cap = cap := by simpa using List.find?_some h
  induction vs with
  | nil => simp at h
  | cons x vs ih =>
    by_cases hx : x.cap = cap
    · rw [List.find?_cons_of_pos (by simpa using hx)] at h
      cases h
      exact ⟨[], vs, rfl, by rw [setVcpu, if_pos hcap.symm, List.nil_append]⟩
    · rw [List.find?_cons_of_neg (by simpa using hx)] at h
      obtain ⟨before, behind, hvs, hset⟩ := ih h
      refine ⟨x :: before, behind, by rw [hvs, List.cons_append], ?_⟩
      rw [setVcpu, if_neg (by rw [hcap, hv]; exact hx), hset, List.cons_append]

/-- a handler that is registered changes the kernel object of a vCPU at most -/
theorem exceptionHandler_ensures (P : Platform σ) (v : Vcpu) (signal : SignalCap) :
    Ensures (v.exceptionHandler P signal) fun v' => ∃ k, v' = { v with kernelObject := k } := by
  refine .spanned _ ?_
  split_ifs
  · exact .step fun _ => .pure ⟨_, rfl⟩
  · exact .step fun _ => .pure ⟨_, rfl⟩
  · refine .step fun o => ?_
    cases o with
    | some k => exact .pure ⟨_, rfl⟩
    | none => exact .step fun _ => .pure ⟨_, rfl⟩

/-- nothing changes, or the kernel object of one vCPU does -/
theorem exceptionHandler_cases (P : Platform σ) (s : Session) (cap : VcpuCap) (signal : SignalCap) :
    Ensures (s.exceptionHandler P cap signal) fun r => r.2 = s ∨ ∃ before v behind k,
      s.vcpus = before ++ v :: behind ∧
        r.2 = { s with vcpus := before ++ { v with kernelObject := k } :: behind } := by
  unfold exceptionHandler
  cases hv : s.vcpu? cap with
  | none => exact .pure (Or.inl rfl)
  | some v =>
    refine (exceptionHandler_ensures P v signal).bind fun v' hv' => .pure (Or.inr ?_)
    obtain ⟨k, rfl⟩ := hv'
    obtain ⟨before, behind, hvs, hset⟩ : ∃ before behind, s.vcpus = before ++ v :: behind ∧
        setVcpu { v with kernelObject := k } s.vcpus = before ++ { v with kernelObject := k } :: behind :=
      setVcpu_split hv rfl
    exact ⟨before, v, behind, k, hvs, by rw [hset]⟩

theorem exceptionHandler_sameMemory (P : Platform σ) (s : Session) (cap : VcpuCap) (signal : SignalCap) :
    Ensures (s.exceptionHandler P cap signal) fun r => SameMemory s r.2 := by
  intro w
  rcases exceptionHandler_cases P s cap signal w with hafter | ⟨before, v, behind, k, -, hafter⟩
  · rw [hafter]
    exact .refl s
  · rw [hafter]
    exact ⟨rfl, rfl, rfl⟩

/-- nothing changes, or the limits do -/
theorem upgrade_cases (s : Session) (args : String) :
    Ensures (s.upgrade args : Run σ _) fun r =>
      r.2 = s ∨ ∃ ram caps : UInt64, r.2 = s.withQuota (s.quota.upgrade ram.toNat caps.toNat) := by
  refine .traced _ _ ?_
  split
  · exact .pure (Or.inl rfl)
  split
  · exact .pure (Or.inl rfl)
  · rename_i ram _ _ caps _
    exact .bind (Q := fun s' => s' = s.withQuota (s.quota.upgrade ram.toNat caps.toNat)) (.spanned _ (.pure rfl))
      fun s' hs' => .pure (Or.inr ⟨ram, caps, hs'⟩)

theorem upgrade_sameMemory (s : Session) (args : String) :
    Ensures (s.upgrade args : Run σ _) fun r => SameMemory s r.2 := by
  intro w
  rcases upgrade_cases s args w with hafter | ⟨ram, caps, hafter⟩
  · rw [hafter]
    exact .refl s
  · rw [hafter]
    exact sameMemory_withQuota s _

end Session

/-! ## One request -/

/-- requests that may change regions or the page table -/
def Request.ConcernsMemory : Request → Prop
  | .attach _ _ _ | .detach _ _ | .detachAt _ | .flush _ => True
  | _ => False

/-- a request, the session that serves it and the world in which it is served -/
structure Served (σ : Type) where
  before : Session
  world : World σ
  request : Request

namespace Served

variable {st : Served σ}

def reply (P : Platform σ) (st : Served σ) : Reply := (st.before.perform P st.request st.world).1.1

def after (P : Platform σ) (st : Served σ) : Session := (st.before.perform P st.request st.world).1.2

theorem after_exceptionHandler (P : Platform σ) (s : Session) (w : World σ) (cap : VcpuCap) (signal : SignalCap) :
    after P ⟨s, w, .exceptionHandler cap signal⟩ = (s.exceptionHandler P cap signal w).1.2 := by
  simp only [after, Session.perform, bind_apply]
  generalize s.exceptionHandler P cap signal w = o
  obtain ⟨⟨r, s'⟩, w'⟩ := o
  cases r <;> rfl

/-- the request is to attach the dataspace `ds`, named by `cap`, and `mapping` is the window that it selects -/
structure Asks (P : Platform σ) (st : Served σ) (cap : DataspaceCap) (ds : Dataspace) (attr : AttachAttr)
    (mapping : Mapping) : Prop where
  request : st.request = .attach cap mapping.guest attr
  resolved : (P.answer (.lookupDataspace cap) st.world.host).1 = some ds
  window : select? ds mapping.guest attr = some (attr.offset, mapping)

/-- `s` is the session with the window mapped that the request selects, or the session unchanged -/
inductive Maps (P : Platform σ) (st : Served σ) : Session → Prop
  | nothing : Maps P st st.before
  | again {cap : DataspaceCap} {ds : Dataspace} {attr : AttachAttr} {mapping : Mapping}
      (hask : st.Asks P cap ds attr mapping)
      (hplace : st.before.memory.place ds mapping.guest attr = .ok (.again mapping)) :
      Maps P st
        { st.before with
          table := (st.before.table.insert mapping.guest mapping.host mapping.size .guestRam).1 }
  | fresh {cap : DataspaceCap} {ds : Dataspace} {attr : AttachAttr} {mapping : Mapping} {memory : GuestMemory}
      {region : Region} (hask : st.Asks P cap ds attr mapping)
      (hplace : st.before.memory.place ds mapping.guest attr = .ok (.fresh memory region mapping))
      (hreply : st.reply P = .done (.ok ()) →
        (st.before.table.insert mapping.guest mapping.host mapping.size .guestRam).2 = .ok ()) :
      Maps P st
        { st.before with
          memory
          table := (st.before.table.insert mapping.guest mapping.host mapping.size .guestRam).1 }

/-- mapping a window leaves the regions disjoint -/
theorem Maps.sound {s : Session} (h : st.Maps P s) (hs : st.before.memory.Sound) : s.memory.Sound := by
  cases h with
  | nothing => exact hs
  | again => exact hs
  | fresh hask hplace => exact (GuestMemory.place_eq_fresh hs hplace).2.sound hs

theorem Maps.store {s : Session} (h : st.Maps P s) : s.store = st.before.store := by
  cases h <;> rfl

/-- a window accepted is mapped, whether the page table takes all of it or not -/
theorem maps_of_attachWindow (hs : st.before.memory.Sound) {cap : DataspaceCap} {ds : Dataspace} {guest : UInt64}
    {attr : AttachAttr} (hreq : st.request = .attach cap guest attr)
    (hds : (P.answer (.lookupDataspace cap) st.world.host).1 = some ds) {r : Except AttachError Unit} {s : Session}
    (h : (st.before.attachWindow P ds guest attr w).1 = (r, s)) (hreply : st.reply P = .done (.ok ()) → r = .ok ()) :
    st.Maps P s := by
  cases hplace : st.before.memory.place ds guest attr with
  | error e =>
    rw [Session.attachWindow_of_error hplace] at h
    cases h
    exact .nothing
  | ok pl =>
    cases pl with
    | again mapping =>
      rw [Session.attachWindow_of_again hplace] at h
      obtain ⟨rfl, -⟩ := Session.mapWindow_eq h
      have hselect := (GuestMemory.place_eq_again hs hplace).1
      obtain rfl := (select?_eq_some hselect).2.1
      exact .again ⟨hreq, hds, hselect⟩ hplace
    | fresh memory region mapping =>
      rw [Session.attachWindow_of_fresh hplace] at h
      obtain ⟨rfl, hmapped⟩ := Session.mapWindow_eq h
      have hselect := (GuestMemory.place_eq_fresh hs hplace).1
      obtain rfl := (select?_eq_some hselect).2.1
      exact .fresh ⟨hreq, hds, hselect⟩ hplace fun hok => hmapped (hreply hok)

/-- An attach request maps the window that it selects, or nothing. The region at its first address may be removed after
that. -/
theorem attach_maps (P : Platform σ) (hs : st.before.memory.Sound) {cap : DataspaceCap} {guest : UInt64}
    {attr : AttachAttr} (hreq : st.request = .attach cap guest attr) :
    ∃ s, st.Maps P s ∧ (st.after P = s ∨ ∃ w, st.after P = (s.removeRegionAt P guest w).1) := by
  have hserve : (st.before.perform P st.request st.world).1 =
      (.done (st.before.attach P cap guest attr st.world).1.1, (st.before.attach P cap guest attr st.world).1.2) := by
    rw [hreq]
    rfl
  cases hds : (P.answer (.lookupDataspace cap) st.world.host).1 with
  | none =>
    refine ⟨st.before, .nothing, Or.inl ?_⟩
    rw [after, hserve, Session.attach_of_none hds]
  | some ds =>
    obtain ⟨w, hw⟩ := Session.attach_of_some st.before guest attr hds
    obtain ⟨⟨o, s'⟩, ho⟩ : ∃ x, (st.before.attachDataspace P ds guest attr w).1 = x := ⟨_, rfl⟩
    obtain ⟨⟨r, s⟩, hr⟩ : ∃ x, (st.before.attachWindow P ds guest attr w).1 = x := ⟨_, rfl⟩
    rw [hw, ho] at hserve
    obtain ⟨hok, hs'⟩ := Session.attachDataspace_cases hr ho
    have hreply : st.reply P = .done (.ok ()) → r = .ok () := fun h => by
      rw [reply, hserve] at h
      exact hok (Reply.done.inj h)
    have hafter : st.after P = s' := by rw [after, hserve]
    rw [hafter]
    exact ⟨s, maps_of_attachWindow hs hreq hds hr hreply, hs'⟩

theorem attach_effect (P : Platform σ) (hs : st.before.memory.Sound) {cap : DataspaceCap} {guest : UInt64}
    {attr : AttachAttr} (hreq : st.request = .attach cap guest attr) :
    ∃ s fs, st.Maps P s ∧ s.Unmaps (st.after P) fs := by
  obtain ⟨s, hmaps, hafter | ⟨w, hafter⟩⟩ := attach_maps P hs hreq
  · exact ⟨s, [], hmaps, .of_sameMemory (hafter ▸ .refl s)⟩
  · exact ⟨s, _, hmaps, hafter ▸ Session.removeRegionAt_unmaps P (hmaps.sound hs) guest w⟩

/-- requests that do not concern memory change neither regions nor the page table -/
theorem sameMemory (P : Platform σ) (st : Served σ) (h : ¬ st.request.ConcernsMemory) :
    st.before.SameMemory (st.after P) := by
  obtain ⟨s, w, request⟩ := st
  cases request with
  | attach | detach | detachAt | flush => exact absurd trivial h
  | unmapRegion | attachPic => exact .refl s
  | createVcpu thread => exact Session.createVcpu_sameMemory P s thread w
  | exceptionHandler cap signal =>
    rw [after_exceptionHandler]
    exact Session.exceptionHandler_sameMemory P s cap signal w
  | raise ram caps => exact Session.sameMemory_withQuota s _
  | upgrade args => exact Session.upgrade_sameMemory s args w

/-- **What a request does.** It maps the window that it selects, or nothing, and then unmaps the regions it flushed. -/
theorem effect (P : Platform σ) (st : Served σ) (hs : st.before.memory.Sound) :
    ∃ s fs, st.Maps P s ∧ s.Unmaps (st.after P) fs := by
  by_cases hmemory : st.request.ConcernsMemory
  · obtain ⟨s, w, request⟩ := st
    cases request with
    | attach cap guest attr => exact attach_effect P hs rfl
    | detach guest size =>
      obtain ⟨fs, h⟩ := Session.detach_unmaps P hs guest size w
      exact ⟨s, fs, .nothing, h⟩
    | detachAt a => exact ⟨s, _, .nothing, Session.removeRegionAt_unmaps P hs a _⟩
    | flush a => exact ⟨s, _, .nothing, .of_settle P (GuestMemory.reserveAndFlush_flushed hs a) _⟩
    | _ => exact hmemory.elim
  · exact ⟨st.before, [], .nothing, .of_sameMemory (sameMemory P st hmemory)⟩

end Served
end NestedGuest
