/-
How a session ends. Closing it tells every dataspace whose region is still mapped, then closes the vCPUs in the order of
their creation, and frees the storage of the page table last; its identity is free only after that.

`Session.Runs P virt config es s w` says that a session was created, has made the calls `es` since, newest first, and is
`s` in the world `w` now. Between two requests anything may happen to the surroundings, and other identities are taken
and given back.

- `torn_down`: closing a session makes exactly the calls that it should, in order, and leaves nothing behind.
-/
import NestedGuest.Proofs.Session.Journal
import NestedGuest.Proofs.Session.Translations
import NestedGuest.Proofs.Memory.Metadata
import NestedGuest.Proofs.Vmid

namespace NestedGuest

open VmidAllocator (Others)
open Bench (Host)

variable {σ α β : Type} {P : Platform σ} {w w' : World σ} {virt : Virt} {config : Config} {s : Session}
  {es : List Exchange}

/-! ## Calls in their order -/

/-- in the world `w`, `act` makes the calls `cs` one after the other -/
def Calls (act : Run σ α) (w : World σ) (cs : List Call) : Prop :=
  ∃ es, Makes act w es ∧ es.reverse.map Exchange.call = cs

namespace Calls

variable {act : Run σ α} {f : α → Run σ β} {cs cs' : List Call}

theorem pure (a : α) (w : World σ) : Calls (Pure.pure a) w [] := ⟨[], .pure a w, rfl⟩

theorem bind (h : Calls act w cs) (hf : Calls (f (act w).1) (act w).2 cs') : Calls (act >>= f) w (cs ++ cs') := by
  obtain ⟨es, hmakes, rfl⟩ := h
  obtain ⟨es', hmakes', rfl⟩ := hf
  exact ⟨es' ++ es, hmakes.bind hmakes', by rw [List.reverse_append, List.map_append]⟩

/-- the last step makes no calls -/
theorem map (h : Calls act w cs) (g : α → β) : Calls (act >>= fun a => Pure.pure (g a)) w cs := by
  have hall : Calls (act >>= fun a => Pure.pure (g a)) w (cs ++ []) := h.bind (.pure _ _)
  rwa [List.append_nil] at hall

theorem ask (P : Platform σ) (c : Call) (w : World σ) : Calls (NestedGuest.ask P c) w [c] := ⟨_, .ask P c w, rfl⟩

theorem spanned (name : String) (h : Calls act { w with journal := .span name :: w.journal } cs) :
    Calls (NestedGuest.spanned name act) w cs := by
  obtain ⟨es, hmakes, hcalls⟩ := h
  exact ⟨es, hmakes.spanned name, hcalls⟩

theorem stillAlive (P : Platform σ) (ds : Dataspace) (w : World σ) : Calls (NestedGuest.stillAlive P ds) w [] :=
  ⟨_, .stillAlive P ds w, rfl⟩

end Calls

/-! ## The calls of the end -/

/-- what dataspaces are told when their regions are detached: each that is mapped and whose dataspace is still there when
its turn comes -/
def notices (P : Platform σ) : List Region → σ → List Call
  | [], _ => []
  | r :: rs, host =>
    if !r.reserved && P.alive r.dataspace host then
      .detachedFrom r.dataspace r.attr :: notices P rs (P.answer (.detachedFrom r.dataspace r.attr) host).2
    else notices P rs host

/-- what a vCPU gives back when it is closed -/
def Vcpu.releases (v : Vcpu) : List Call :=
  (v.kernelObject.map Call.destroyKernelVcpu).toList ++
    [.dissolveVcpu v.cap, .detachLocal v.stateAddr, .freeRam .session v.state]

/-- the dataspace of a region is told of it if the region is mapped and the dataspace still there -/
theorem carryOut_calls (P : Platform σ) (r : Region) (t : PageTable) (w : World σ) :
    ∃ cs, Calls (Session.carryOut P t r.flush) w cs ∧
      ∀ rs, notices P (r :: rs) w.host = cs ++ notices P rs (Session.carryOut P t r.flush w).2.host := by
  cases hreserved : r.reserved with
  | true =>
    have hrun : Session.carryOut P t r.flush = pure (t.remove r.attr.base r.attr.size) := by
      simp only [Session.carryOut, Region.flush, hreserved, Bool.not_true, Bool.false_eq_true, if_false]
    rw [hrun]
    exact ⟨[], .pure _ w, fun rs => by simp [notices, hreserved, pure_apply]⟩
  | false =>
    have hrun : Session.carryOut P t r.flush = (stillAlive P r.dataspace >>= fun alive =>
        if alive then do
          ask P (.detachedFrom r.dataspace r.attr)
          return t.remove r.attr.base r.attr.size
        else pure (t.remove r.attr.base r.attr.size)) := by
      simp only [Session.carryOut, Region.flush, hreserved, Bool.not_false, if_true]
    rw [hrun]
    cases halive : P.alive r.dataspace w.host with
    | true =>
      refine ⟨[] ++ [.detachedFrom r.dataspace r.attr], .bind (.stillAlive P _ w) ?_, fun rs => ?_⟩
      · simp only [stillAlive, halive, if_true]
        exact (Calls.ask P _ w).map _
      · rw [notices, if_pos (by simp [hreserved, halive])]
        simp only [bind_apply, stillAlive, halive, if_true]
        rfl
    | false =>
      refine ⟨[] ++ [], .bind (.stillAlive P _ w) ?_, fun rs => ?_⟩
      · simp only [stillAlive, halive, Bool.false_eq_true, if_false]
        exact .pure _ w
      · simp [notices, hreserved, halive, bind_apply, stillAlive, pure_apply]

theorem carryOut_flushes_calls (P : Platform σ) (rs : List Region) (t : PageTable) (w : World σ) :
    Calls ((rs.map Region.flush).foldlM (Session.carryOut P) t) w (notices P rs w.host) := by
  induction rs generalizing t w with
  | nil => exact .pure t w
  | cons r rs ih =>
    obtain ⟨cs, hcalls, hnotices⟩ := carryOut_calls P r t w
    rw [List.map_cons, List.foldlM_cons, hnotices]
    exact hcalls.bind (ih _ _)

theorem close_vcpu_calls (P : Platform σ) (q : Quota) (v : Vcpu) (w : World σ) :
    Calls (Vcpu.close P q v) w v.releases := by
  have hrest (w : World σ) : Calls (do
      ask P (.dissolveVcpu v.cap)
      ask P (.detachLocal v.stateAddr)
      let q ← q.freeRam P .session v.state
      return q.replenish vcpuDataSize 0) w [.dissolveVcpu v.cap, .detachLocal v.stateAddr, .freeRam .session v.state] :=
    (Calls.ask P _ w).bind ((Calls.ask P _ _).bind (((Calls.ask P _ _).map _).map _))
  unfold Vcpu.close Vcpu.releases
  cases v.kernelObject with
  | none => exact hrest w
  | some k => exact (Calls.ask P _ w).bind (hrest _)

theorem close_vcpus_calls (P : Platform σ) (q : Quota) (vs : List Vcpu) (w : World σ) :
    Calls (vs.foldlM (Vcpu.close P) q) w (vs.flatMap Vcpu.releases) := by
  induction vs generalizing q w with
  | nil => exact .pure q w
  | cons v vs ih =>
    rw [List.foldlM_cons, List.flatMap_cons]
    exact (close_vcpu_calls P q v w).bind (ih _ _)

theorem release_settles (P : Platform σ) (q : Quota) (store : RamStore) (caps : List VcpuCap) :
    Settles (store.release P q) ⟨(store.ds.map (Resource.ram store.pool)).toList, caps⟩ fun _ l => l = ⟨0, caps⟩ := by
  unfold RamStore.release
  cases store.ds with
  | none => exact .pure rfl
  | some ds =>
    have hfree : Settles (q.freeRam P store.pool ds) ⟨.ram store.pool ds ::ₘ 0, caps⟩ fun _ l => l = ⟨0, caps⟩ :=
      freeRam_settles P store.pool q ds
    exact hfree.bind fun _ _ hl => .pure hl

namespace Session

/-- the end of a session up to its identity -/
def giveBack (P : Platform σ) (s : Session) : Run σ (RamStore × Quota) := do
  let (memory, flushes) := s.memory.detachAll
  let _ ← flushes.foldlM (carryOut P) s.table
  let quota ← s.vcpus.foldlM (Vcpu.close P) memory.quota
  s.store.release P quota

theorem close_snd (P : Platform σ) (s : Session) (w : World σ) :
    (s.close P w).2 = (freeVmid s.identity.id (s.giveBack P w).2).2 := rfl

theorem giveBack_calls (hs : s.memory.Sound) {ds : RamDataspace} (hds : s.store.ds = some ds) (w : World σ) :
    Calls (s.giveBack P) w
      (notices P s.memory.regions w.host ++ s.vcpus.flatMap Vcpu.releases ++ [.freeRam s.store.pool ds]) := by
  obtain ⟨m, hall, -, -⟩ := GuestMemory.detachAll_eq hs
  have hrelease (q : Quota) (w : World σ) : Calls (s.store.release P q) w [.freeRam s.store.pool ds] := by
    unfold RamStore.release
    rw [hds]
    exact ((Calls.ask P _ w).map _).map _
  unfold giveBack
  rw [hall, List.append_assoc]
  exact (carryOut_flushes_calls P _ _ w).bind ((close_vcpus_calls P _ _ _).bind (hrelease _ _))

theorem giveBack_settles (P : Platform σ) (s : Session) :
    Settles (s.giveBack P) s.ledger fun _ l => l = ⟨0, s.vcpus.map Vcpu.cap⟩ := by
  unfold giveBack
  refine .step (foldlM_carryOut_idle P _ _) fun _ => ?_
  rw [ledger, holdings, add_comm]
  refine (close_vcpus_settles P _ s.vcpus).bind fun q l hl => ?_
  rw [hl]
  exact release_settles P q s.store _

end Session

/-! ## Creation -/

theorem alloc_store_settles (P : Platform σ) (pool : RamPool) (q : Quota) (size : UInt64) (l : Ledger) :
    Settles (RamStore.alloc P pool q size) l fun r l' =>
      match r.1 with
      | .ok store => ∃ ds, store = ⟨pool, some ds⟩ ∧ l' = l.add (.ram pool ds)
      | .error _ => l' = l := by
  refine (allocRam_settles P pool q size .cached).bind fun r l' hl' => .pure ?_
  obtain ⟨o, q'⟩ := r
  cases o with
  | ok ds => exact ⟨ds, rfl, hl'⟩
  | error e => exact hl'

/-- an identity is taken without a call, if there is a free one -/
theorem allocVmid_world (w : World σ) :
    exchanges (allocVmid w).2.journal = exchanges w.journal ∧
      match (allocVmid w).1 with
      | .ok id => w.vmids.alloc? = some (id, (allocVmid w).2.vmids)
      | .error e => w.vmids.alloc? = none ∧ e = .outOfVmIds ∧ (allocVmid w).2.vmids = w.vmids := by
  unfold allocVmid
  rw [traced_fst, (traced_snd _ _ _ w).1, (traced_snd _ _ _ w).2]
  cases halloc : w.vmids.alloc? with
  | none => exact ⟨rfl, rfl, rfl, rfl⟩
  | some x =>
    refine ⟨rfl, ?_⟩
    simp only [VmidAllocator.alloc?_isByte halloc, if_true]

/-- an identity is given back without a call -/
theorem freeVmid_world (id : ℕ) (w : World σ) :
    exchanges (freeVmid id w).2.journal = exchanges w.journal ∧ (freeVmid id w).2.vmids = (w.vmids.free id).1 := by
  have hget : ∀ v : World σ, (get : Run σ (World σ)) v = (v, v) := fun _ => rfl
  simp only [freeVmid, spanned, bind_apply, observe, hget]
  cases (w.vmids.free id).2 <;> exact ⟨rfl, rfl⟩

namespace Session

/-- a session that is created holds the storage of its page table and has an identity that was free; if it is refused,
nothing is held and no identity taken -/
theorem new_enters (P : Platform σ) (virt : Virt) (config : Config) (w : World σ) :
    ∃ es l, exchanges (Session.new P virt config w).2.journal = es ++ exchanges w.journal ∧
      Ledger.empty.enterAll es = some l ∧
      match (Session.new P virt config w).1 with
      | .ok s => l = s.ledger ∧ (∃ ds, s.store = ⟨.core, some ds⟩) ∧
          w.vmids.alloc? = some (s.identity.id, (Session.new P virt config w).2.vmids)
      | .error _ => l = .empty ∧ (Session.new P virt config w).2.vmids = w.vmids := by
  unfold Session.new
  rw [traced_fst, (traced_snd _ _ _ w).1, (traced_snd _ _ _ w).2]
  obtain ⟨es, l, ⟨hjournal, hvmids, -⟩, henter, hl⟩ := alloc_store_settles P .core
    (Quota.new config.ramQuota.toNat config.capQuota.toNat) (UInt64.ofNat tableStorageSize) .empty
    { w with journal := .span "new" :: w.journal }
  simp only [bind_apply]
  generalize RamStore.alloc P .core _ _ _ = o at hjournal hvmids hl ⊢
  obtain ⟨⟨r, q⟩, w1⟩ := o
  cases r with
  | error e => exact ⟨es, l, hjournal, henter, hl, hvmids⟩
  | ok store =>
    obtain ⟨ds, rfl, rfl⟩ := hl
    obtain ⟨htaken, hid⟩ := allocVmid_world w1
    simp only [bind_apply]
    generalize (allocVmid w1 : _ × World σ) = o at htaken hid ⊢
    obtain ⟨r, w2⟩ := o
    cases r with
    | error e =>
      obtain ⟨es', l', hmakes, henter', rfl⟩ := release_settles P q ⟨.core, some ds⟩ [] w2
      refine ⟨es' ++ es, .empty, ?_, ?_, rfl, hmakes.vmids.trans (hid.2.2.trans hvmids)⟩
      · exact hmakes.journal.trans (by rw [htaken, hjournal, List.append_assoc]; rfl)
      · rw [Ledger.enterAll_append, henter]
        exact henter'
    | ok id => exact ⟨es, _, htaken.trans hjournal, henter, rfl, ⟨ds, rfl⟩, hvmids ▸ hid⟩

/-! ## Whole runs -/

/-- `s` was created, has made the calls `es` since, newest first, and lives in the world `w` -/
inductive Runs (P : Platform σ) (virt : Virt) (config : Config) : List Exchange → Session → World σ → Prop
  | new {es : List Exchange} {s : Session} {w : World σ} (hids : Others 0 .new w.vmids)
      (hnew : (Session.new P virt config w).1 = .ok s)
      (hes : exchanges (Session.new P virt config w).2.journal = es ++ exchanges w.journal) :
      Runs P virt config es s (Session.new P virt config w).2
  | serve {es es' : List Exchange} {s : Session} {w : World σ} (h : Runs P virt config es s w) (request : Request)
      (hes : exchanges (s.perform P request w).2.journal = es' ++ exchanges w.journal) :
      Runs P virt config (es' ++ es) (s.perform P request w).1.2 (s.perform P request w).2
  /-- the surroundings do as they like, and other identities are taken and given back -/
  | elapse {es : List Exchange} {s : Session} {w w' : World σ} (h : Runs P virt config es s w)
      (hids : Others s.identity.id w.vmids w'.vmids) : Runs P virt config es s w'

/-- the ledger of the calls so far is that of the session, and the session has an identity -/
structure Kept (es : List Exchange) (s : Session) (w : World σ) : Prop where
  ledger : Ledger.empty.enterAll es = some s.ledger
  taken : w.vmids.isAllocated s.identity.id = true
  ne_zero : s.identity.id ≠ 0
  store : ∃ ds, s.store = ⟨.core, some ds⟩

theorem Kept.new (hids : Others 0 .new w.vmids) (hnew : (Session.new P virt config w).1 = .ok s)
    (hes : exchanges (Session.new P virt config w).2.journal = es ++ exchanges w.journal) :
    Kept es s (Session.new P virt config w).2 := by
  obtain ⟨es', l, hjournal, henter, h⟩ := new_enters P virt config w
  rw [hnew] at h
  obtain ⟨rfl, hstore, halloc⟩ := h
  obtain rfl : es = es' := List.append_cancel_right (hes.symm.trans hjournal)
  obtain ⟨hfree, htaken⟩ := VmidAllocator.alloc?_eq_some halloc
  refine ⟨henter, by simp [htaken], fun hzero => ?_, hstore⟩
  rw [hzero, hids.isAllocated VmidAllocator.isAllocated_new] at hfree
  cases hfree

theorem Kept.serve {es' : List Exchange} {request : Request} (h : Kept es s w)
    (hes : exchanges (s.perform P request w).2.journal = es' ++ exchanges w.journal) :
    Kept (es' ++ es) (s.perform P request w).1.2 (s.perform P request w).2 := by
  obtain ⟨es1, l, hmakes, henter, hl⟩ := perform_settles P s request w
  obtain rfl : es' = es1 := List.append_cancel_right (hes.symm.trans hmakes.journal)
  refine ⟨?_, ?_, ?_, ?_⟩
  · rw [Ledger.enterAll_append, h.ledger, ← hl.ledger]
    exact henter
  · rw [hmakes.vmids, hl.identity]
    exact h.taken
  · rw [hl.identity]
    exact h.ne_zero
  · rw [hl.store]
    exact h.store

theorem Runs.kept (h : s.Runs P virt config es w) : Kept es s w := by
  induction h with
  | new hids hnew hes => exact .new hids hnew hes
  | serve _ request hes ih => exact ih.serve hes
  | elapse _ hids ih => exact ⟨ih.ledger, hids.isAllocated ih.taken, ih.ne_zero, ih.store⟩

theorem Runs.reaches (h : s.Runs P virt config es w) : ∃ steps, s.Reaches P virt config steps := by
  induction h with
  | new hids hnew hes => exact ⟨[], .new hnew⟩
  | serve _ request hes ih =>
    obtain ⟨steps, hreach⟩ := ih
    exact ⟨_, hreach.serve _ request⟩
  | elapse _ _ ih => exact ih

/-- whatever is asked next, the run goes on -/
theorem Runs.performAll (h : s.Runs P virt config es w) (requests : List Request) :
    ∃ es', (s.performAll P requests w).1.2.Runs P virt config (es' ++ es) (s.performAll P requests w).2 := by
  induction requests generalizing s es w with
  | nil => exact ⟨[], h⟩
  | cons request rest ih =>
    obtain ⟨es1, l, hmakes, -, -⟩ := perform_settles P s request w
    obtain ⟨es2, hrest⟩ := ih (h.serve request hmakes.journal)
    rw [← List.append_assoc] at hrest
    exact ⟨es2 ++ es1, hrest⟩

end Session

/-! ## Main result -/

/-- closing `s`, which made the calls `es` before, makes the calls `drop`, newest first -/
structure TornDown (P : Platform σ) (es : List Exchange) (s : Session) (w : World σ) (drop : List Exchange) : Prop where
  journal : exchanges (s.close P w).2.journal = drop ++ exchanges w.journal
  order : ∃ ds, s.store = ⟨.core, some ds⟩ ∧ drop.reverse.map Exchange.call =
    notices P s.memory.regions w.host ++ s.vcpus.flatMap Vcpu.releases ++ [.freeRam .core ds]
  ascending : s.memory.regions.Pairwise fun r r' => r.attr.base < r'.attr.base
  /-- nothing was ever given back that was not held, and nothing is held any more; the vCPUs are all those that there
  ever were, in the order of their creation -/
  settled : Ledger.empty.enterAll (drop ++ es) = some ⟨0, s.vcpus.map Vcpu.cap⟩
  once : ∀ x, (drop ++ es).countP (fun e => e.call.obtained e.answer = some x) =
    (drop ++ es).countP fun e => e.call.returned = some x
  /-- no other session can have the identity yet -/
  taken : ∀ e ∈ drop, e.vmids.isAllocated s.identity.id = true
  free : (s.close P w).2.vmids.isAllocated s.identity.id = false

/-- **Closing a session releases everything, once and in order.** Whatever was asked of the session and whatever was
refused to it, it closes with exactly the calls of `TornDown`, and over the whole run each resource was given back as
often as it was obtained. -/
theorem torn_down (h : s.Runs P virt config es w) : ∃ drop, TornDown P es s w drop := by
  obtain ⟨steps, hreach⟩ := h.reaches
  have hkept := h.kept
  obtain ⟨ds, hstore⟩ := hkept.store
  -- what the calls do to the ledger and what their order is are two facts about the same calls
  obtain ⟨drop, l, hmakes, henter, rfl⟩ := Session.giveBack_settles P s w
  obtain ⟨drop', hmakes', hcalls⟩ := Session.giveBack_calls (P := P) hreach.memory_sound (congrArg RamStore.ds hstore) w
  obtain rfl : drop = drop' := hmakes.unique hmakes'
  obtain ⟨hjournal, hvmids⟩ := freeVmid_world s.identity.id (s.giveBack P w).2
  have hall : Ledger.empty.enterAll (drop ++ es) = some ⟨0, s.vcpus.map Vcpu.cap⟩ := by
    rw [Ledger.enterAll_append, hkept.ledger]
    exact henter
  refine ⟨drop, ?_, ⟨ds, hstore, ?_⟩, hreach.memory_sound.ascending, hall, fun x => ?_, ?_, ?_⟩
  · rw [Session.close_snd, hjournal, hmakes.journal]
  · rw [hcalls, hstore]
  · simpa [Ledger.empty] using (Ledger.enterAll_count hall x).symm
  · intro e he
    rw [hmakes.during e he]
    exact hkept.taken
  · rw [Session.close_snd, hvmids, hmakes.vmids]
    simp [VmidAllocator.isAllocated_free, hkept.ne_zero]

/-- two regions, one of them flushed, and two vCPUs, one of them with a kernel object -/
def busyRequests : List Request :=
  [.attach ⟨0x10⟩ 0x1000 ⟨0, 0, true, false⟩, .attach ⟨0x10⟩ 0x8000 ⟨0, 0, true, false⟩, .flush 0x8000,
    .createVcpu ⟨0x20⟩, .exceptionHandler ⟨0x1002⟩ ⟨0x30⟩, .createVcpu ⟨0x20⟩]

/-- a new session that served these requests, and its world -/
def busyRun : (List Reply × Session) × World Host :=
  emptySession.performAll Host.platform busyRequests (Session.new Host.platform .svm .default oneDataspace).2

theorem torn_down_busy :
    ∃ es drop, busyRun.1.2.Runs Host.platform .svm .default es busyRun.2 ∧
      TornDown Host.platform es busyRun.1.2 busyRun.2 drop ∧
      drop.reverse.map Exchange.call =
        [.detachedFrom wholeRegion.dataspace wholeRegion.attr,
          .destroyKernelVcpu ⟨0x1003⟩, .dissolveVcpu ⟨0x1002⟩, .detachLocal 0xa0000000,
          .freeRam .session ⟨⟨0x1001⟩, 0x1000, 0x40000000⟩,
          .dissolveVcpu ⟨0x1005⟩, .detachLocal 0xa0001000, .freeRam .session ⟨⟨0x1004⟩, 0x1000, 0x40001000⟩,
          .freeRam .core ⟨⟨0x1000⟩, 0x81000, 0x80000000⟩] := by
  obtain ⟨es, l, hjournal, -, -⟩ := Session.new_enters Host.platform .svm .default oneDataspace
  have hnew : emptySession.Runs Host.platform .svm .default es
      (Session.new Host.platform .svm .default oneDataspace).2 := .new .refl rfl hjournal
  obtain ⟨es', hruns⟩ := hnew.performAll busyRequests
  rw [← busyRun] at hruns
  obtain ⟨drop, htorn⟩ := torn_down hruns
  obtain ⟨ds, hstore, hcalls⟩ := htorn.order
  refine ⟨es' ++ es, drop, hruns, htorn, hcalls.trans ?_⟩
  have hds : busyRun.1.2.store = ⟨.core, some ⟨⟨0x1000⟩, 0x81000, 0x80000000⟩⟩ := by decide +kernel
  obtain rfl : ds = ⟨⟨0x1000⟩, 0x81000, 0x80000000⟩ := by
    simpa using (congrArg RamStore.ds hstore).symm.trans (congrArg RamStore.ds hds)
  decide +kernel

end NestedGuest
