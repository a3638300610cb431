/-
No arithmetic of a session goes out of range.

The requests to a session are run once more with their arithmetic checked: the books of its memory, its quota and its
page table are computed by the operations that give up where a result is no word. `InRange` says that such a run gives
up in no world, that it comes to the same as the run without checks, and what is known of its outcome. It follows the
steps of a run, so that a step may rely on what the steps before it left: an attach request that is rolled back
detaches a region it has registered itself.

- `Session.performChecked_inRange`, `Session.closeChecked_inRange`: a session whose memory and page table are regular
  serves every request in range, is regular afterwards, and ends in range;
- `arithmetic_in_range`: this is so of every session that can be reached, in every world.

Premise: core RAM gives the page table page-aligned storage that ends at or below `2 ^ 52` (`StorageFits`).
-/
import NestedGuest.Proofs.Checked.Memory
import NestedGuest.Proofs.Checked.Paging
import NestedGuest.Proofs.Session.Undo

namespace NestedGuest

open Bench (Host)

variable {σ α β ι : Type} {P : Platform σ}

/-! ## Checked runs -/

/-- an operation in a world that has no outcome if some arithmetic on the way goes out of range -/
abbrev CheckedRun (σ : Type) := StateT (World σ) Checked

/-- an operation without arithmetic -/
instance : MonadLift (Run σ) (CheckedRun σ) := ⟨fun act w => some (act w)⟩

def spannedChecked (name : String) (act : CheckedRun σ α) : CheckedRun σ α := do
  observe (σ := σ) (.span name)
  act

def tracedChecked (name : String) (error : α → Option String) (act : CheckedRun σ α) : CheckedRun σ α := do
  observe (σ := σ) (.span name)
  let a ← act
  match error a with
  | some text => observe (σ := σ) (.failure text)
  | none => pure ()
  return a

/-- in every world `act'` has the outcome that `act` has, and it satisfies `Q` -/
def InRange (act' : CheckedRun σ α) (act : Run σ α) (Q : α → Prop) : Prop := ∀ w, act' w = some (act w) ∧ Q (act w).1

namespace InRange

variable {act' : CheckedRun σ α} {act : Run σ α} {f' : α → CheckedRun σ β} {f : α → Run σ β} {Q : α → Prop}
  {R : β → Prop} {a : α}

theorem pure (h : Q a) : InRange (Pure.pure a : CheckedRun σ α) (Pure.pure a) Q := fun _ => ⟨rfl, h⟩

theorem bind (h : InRange act' act Q) (hf : ∀ a, Q a → InRange (f' a) (f a) R) :
    InRange (act' >>= f') (act >>= f) R := by
  intro w
  obtain ⟨hw, hQ⟩ := h w
  have hbind : (act' >>= f') w = (act' w).bind fun x => f' x.1 x.2 := rfl
  rw [hbind, hw, bind_apply]
  exact hf _ hQ _

/-- an operation without arithmetic -/
theorem run (h : Ensures act Q) : InRange (liftM act : CheckedRun σ α) act Q := fun w => ⟨rfl, h w⟩

/-- a step without arithmetic, of whose outcome nothing is known -/
theorem step (hf : ∀ a, InRange (f' a) (f a) R) : InRange ((liftM act : CheckedRun σ α) >>= f') (act >>= f) R :=
  bind (Q := fun _ => True) (run fun _ => trivial) fun a _ => hf a

/-- a step that only computes -/
theorem word {x : Checked α} {act : Run σ β} (h : x = some a) (hf : InRange (f' a) act R) :
    InRange ((liftM x : CheckedRun σ α) >>= f') act R := by
  rw [h]
  exact hf

theorem last {x : Checked α} (h : x = some a) (ha : Q a) : InRange (liftM x : CheckedRun σ α) (Pure.pure a) Q := by
  rw [h]
  exact pure ha

theorem ensures (h : InRange act' act Q) : Ensures act Q := fun w => (h w).2

theorem spanned (name : String) (h : InRange act' act Q) :
    InRange (spannedChecked name act') (NestedGuest.spanned name act) Q :=
  step fun _ => h

theorem traced (name : String) (error : α → Option String) (h : InRange act' act Q) :
    InRange (tracedChecked name error act') (NestedGuest.traced name error act) Q := by
  refine step fun _ => h.bind fun a ha => ?_
  cases error a with
  | some text => exact step fun _ => pure ha
  | none => exact pure ha

theorem foldlM {f' : α → ι → CheckedRun σ α} {f : α → ι → Run σ α} (hf : ∀ a x, Q a → InRange (f' a x) (f a x) Q)
    (ha : Q a) (xs : List ι) : InRange (xs.foldlM f' a) (xs.foldlM f a) Q := by
  induction xs generalizing a with
  | nil => exact pure ha
  | cons x xs ih =>
    rw [List.foldlM_cons, List.foldlM_cons]
    exact (hf a x ha).bind fun b hb => ih hb

end InRange

/-! ## RAM charged to a quota -/

/-- rounding up is refused where it goes out of range, and nothing else is computed but what is drawn -/
def Quota.allocRamChecked (P : Platform σ) (pool : RamPool) (q : Quota) (size : UInt64) (cache : Cache) :
    CheckedRun σ (Except AllocError RamDataspace × Quota) :=
  tracedChecked "alloc" (fun r => failureText AllocError.name r.1) do
    match alignPageUp size with
    | none => return (.error .outOfRam, q)
    | some size =>
      match ← q.withdrawChecked size.toNat 1 with
      | .error e => return (.error e, q)
      | .ok charged =>
        match ← ask P (.allocRam pool size cache) with
        | .ok ds => return (.ok ds, charged)
        | .error e => return (.error e, charged.replenish size.toNat 1)

theorem Quota.allocRamChecked_inRange {q : Quota} (hq : q.InWords) (pool : RamPool) (size : UInt64) (cache : Cache) :
    InRange (q.allocRamChecked P pool size cache) (q.allocRam P pool size cache) fun r => r.2.InWords := by
  refine .traced _ _ ?_
  cases alignPageUp size with
  | none => exact .pure hq
  | some size =>
    dsimp only
    refine .word (withdrawChecked_eq hq size.toNat 1) ?_
    cases hw : q.withdraw size.toNat 1 with
    | error e => exact .pure hq
    | ok charged =>
      have hcharged := hq.withdraw hw
      refine .step fun r => ?_
      cases r with
      | ok ds => exact .pure hcharged
      | error e => exact .pure (hcharged.replenish _ _)

theorem Quota.freeRam_inWords {q : Quota} (hq : q.InWords) (pool : RamPool) (ds : RamDataspace) :
    Ensures (q.freeRam P pool ds) InWords :=
  .step fun _ => .pure (hq.replenish _ _)

namespace Session

/-! ## The operations -/

def carryOutChecked (P : Platform σ) (table : PageTable) (f : Flush) : CheckedRun σ PageTable := do
  if f.first then
    if ← stillAlive P f.dataspace then
      ask P (.detachedFrom f.dataspace f.region)
  table.removeChecked f.region.base f.region.size

def settleChecked (P : Platform σ) (s : Session) (memory : GuestMemory) (flushes : List Flush) :
    CheckedRun σ Session := do
  let table ← flushes.foldlM (carryOutChecked P) s.table
  return { s with memory, table }

def removeRegionAtChecked (P : Platform σ) (s : Session) (a : UInt64) : CheckedRun σ Session := do
  let (memory, flush) ← s.memory.detachAtChecked a
  s.settleChecked P memory flush.toList

def mapWindowChecked (s : Session) (mapping : Mapping) (newRegion : Bool) :
    Checked (Except AttachError Unit × Session) := do
  let (table, r) ← s.table.insertChecked mapping.guest mapping.host mapping.size .guestRam
  return (r.mapError fun e => .translation e newRegion, { s with table })

def attachWindowChecked (P : Platform σ) (s : Session) (ds : Dataspace) (guest : UInt64) (attr : AttachAttr) :
    CheckedRun σ (Except AttachError Unit × Session) :=
  tracedChecked "attach" (fun r => failureText AttachError.describe r.1) do
    match ← s.memory.placeChecked ds guest attr with
    | .error e =>
      if ds.managed then log (σ := σ) .error managedAttachText
      return (.error e, s)
    | .ok (.again mapping) => s.mapWindowChecked mapping false
    | .ok (.fresh memory region mapping) =>
      ask P (.attachedTo ds region.attr)
      { s with memory }.mapWindowChecked mapping true

def attachDataspaceChecked (P : Platform σ) (s : Session) (ds : Dataspace) (guest : UInt64) (attr : AttachAttr) :
    CheckedRun σ (Except SessionError Unit × Session) := do
  match ← s.attachWindowChecked P ds guest attr with
  | (.ok (), s) => return (.ok (), s)
  | (.error e, s) =>
    if s.wantsRollback e then
      let s ← s.removeRegionAtChecked P guest
      return (.error (.ofAttach e), s)
    else return (.error (.ofAttach e), s)

def attachChecked (P : Platform σ) (s : Session) (cap : DataspaceCap) (guest : UInt64) (attr : AttachAttr) :
    CheckedRun σ (Except SessionError Unit × Session) :=
  tracedChecked "attach" (fun r => failureText SessionError.describe r.1) do
    let (r, s) ← match ← ask P (.lookupDataspace cap) with
      | none => pure (.error .invalidDataspace, s)
      | some ds => s.attachDataspaceChecked P ds guest attr
    match r with
    | .error e => count (σ := σ) ("guest_memory_attach_failures_total reason=" ++ e.kind)
    | .ok () => pure ()
    return (r, s)

def detachChecked (P : Platform σ) (s : Session) (guest size : UInt64) : CheckedRun σ Session :=
  spannedChecked "detach" <| spannedChecked "detach" do
    match ← s.memory.detachChecked guest size with
    | none =>
      log (σ := σ) .warn (malformedDetachText guest size)
      return s
    | some (memory, flushes) => s.settleChecked P memory flushes

def detachAtChecked (P : Platform σ) (s : Session) (a : UInt64) : CheckedRun σ Session :=
  spannedChecked "detach_at" (s.removeRegionAtChecked P a)

def reserveAndFlushChecked (P : Platform σ) (s : Session) (a : UInt64) : CheckedRun σ Session :=
  spannedChecked "reserve_and_flush" do
    let (memory, flush) ← s.memory.reserveAndFlushChecked a
    s.settleChecked P memory flush.toList

def tryCreateVcpuChecked (P : Platform σ) (s : Session) (thread : ThreadCap) :
    CheckedRun σ (Except SessionError VcpuCap × Session) := do
  if vcpuMax ≤ s.vcpus.length then
    return (.error (.other ("limit of " ++ toString vcpuMax ++ " vCPUs reached")), s)
  match ← s.quota.withdrawChecked vcpuDataSize 0 with
  | .error e => return (.error (.ofAlloc e), s)
  | .ok charged =>
    let location := (← ask P (.threadAffinity thread)).getD {}
    match ← charged.allocRamChecked P .session (UInt64.ofNat vcpuStateSize) .uncached with
    | (.error e, q) => return (.error (.ofAlloc e), s.withQuota (q.replenish vcpuDataSize 0))
    | (.ok state, q) =>
      match ← ask P (.attachLocal state.cap (stateAttr state)) with
      | .error e =>
        let q ← q.freeRam P .session state
        return (.error (.ofRegionMap e), s.withQuota (q.replenish vcpuDataSize 0))
      | .ok stateAddr =>
        let cap ← ask P .manageVcpu
        if cap.isValid then
          let v : Vcpu := ⟨s.identity, cap, state, stateAddr, location, none⟩
          return (.ok cap, { s.withQuota q with vcpus := s.vcpus ++ [v] })
        else
          ask P (.detachLocal stateAddr)
          let q ← q.freeRam P .session state
          return (.error .outOfCaps, s.withQuota (q.replenish vcpuDataSize 0))

def createVcpuChecked (P : Platform σ) (s : Session) (thread : ThreadCap) : CheckedRun σ (VcpuCap × Session) :=
  spannedChecked "create_vcpu" do
    match ← s.tryCreateVcpuChecked P thread with
    | (.ok cap, s) =>
      count (σ := σ) "vcpus_created_total"
      return (cap, s)
    | (.error e, s) =>
      log (σ := σ) .warn ("cannot create vCPU for VM " ++ toString s.identity.id ++ ": " ++ e.message)
      return (.invalid, s)

/-- serves one request; raising the limits stops at the last word by itself -/
def performChecked (P : Platform σ) (s : Session) : Request → CheckedRun σ (Reply × Session)
  | .attach cap guest attr => do
    let (r, s) ← s.attachChecked P cap guest attr
    return (.done r, s)
  | .detach guest size => return (.done (.ok ()), ← s.detachChecked P guest size)
  | .detachAt a => return (.done (.ok ()), ← s.detachAtChecked P a)
  | .flush a => return (.done (.ok ()), ← s.reserveAndFlushChecked P a)
  | .createVcpu thread => do
    let (cap, s) ← s.createVcpuChecked P thread
    return (.vcpu cap, s)
  | request => s.perform P request

def lookupChecked (s : Session) (guest : UInt64) : Checked (Option Translation) := s.table.lookupChecked guest

/-- ends the session; what vCPUs and the page table cost is given back, which stops at 0 by itself -/
def closeChecked (P : Platform σ) (s : Session) : CheckedRun σ Session := do
  let (memory, flushes) ← s.memory.detachAllChecked
  let s ← s.settleChecked P memory flushes
  let quota ← (s.vcpus.foldlM (Vcpu.close P) s.quota : Run σ Quota)
  let (store, quota) ← s.store.release P quota
  freeVmid (σ := σ) s.identity.id
  return { s.withQuota quota with vcpus := [], store }

/-! ## Regular sessions -/

/-- the books of the memory are regular, and the page table can be pictured as a tree -/
structure Regular (s : Session) : Prop where
  memory : s.memory.Regular
  table : s.table.Sound

variable {s : Session} {memory : GuestMemory}

theorem Regular.withQuota (h : s.Regular) {q : Quota} (hq : q.InWords) : (s.withQuota q).Regular :=
  ⟨h.memory.withQuota hq, h.table⟩

theorem carryOutChecked_inRange {t : PageTable} (h : t.Sound) (f : Flush) :
    InRange (carryOutChecked P t f) (carryOut P t f) PageTable.Sound := by
  have hremove : InRange (liftM (t.removeChecked f.region.base f.region.size) : CheckedRun σ PageTable)
      (Pure.pure (t.remove f.region.base f.region.size)) PageTable.Sound :=
    .last (PageTable.removeChecked_eq t _ _) (PageTable.remove_removes h _ _).1
  unfold carryOutChecked carryOut
  split_ifs
  · refine .step fun alive => ?_
    split_ifs
    · exact .step fun _ => hremove
    · exact hremove
  · exact hremove

theorem settleChecked_inRange (h : s.table.Sound) (hm : memory.Regular) (fs : List Flush) :
    InRange (s.settleChecked P memory fs) (s.settle P memory fs) Regular :=
  (InRange.foldlM (fun _ f ht => carryOutChecked_inRange ht f) h fs).bind fun _ ht => .pure ⟨hm, ht⟩

theorem removeRegionAtChecked_inRange (h : s.Regular) (a : UInt64) :
    InRange (s.removeRegionAtChecked P a) (s.removeRegionAt P a) Regular :=
  .word (GuestMemory.detachAtChecked_eq h.memory a) (settleChecked_inRange h.table (h.memory.detachAt a) _)

theorem mapWindowChecked_eq (h : s.Regular) (mapping : Mapping) (newRegion : Bool) :
    s.mapWindowChecked mapping newRegion = some (s.mapWindow mapping newRegion) ∧
      (s.mapWindow mapping newRegion).2.Regular := by
  rw [mapWindowChecked, checked_bind (PageTable.insertChecked_eq h.table _ _ _ _)]
  obtain ⟨k, -, -, hins⟩ := PageTable.insert_inserts h.table mapping.guest mapping.host mapping.size .guestRam
  exact ⟨rfl, h.memory, hins.sound⟩

theorem attachWindowChecked_inRange (h : s.Regular) (ds : Dataspace) (guest : UInt64) (attr : AttachAttr) :
    InRange (s.attachWindowChecked P ds guest attr) (s.attachWindow P ds guest attr) fun r => r.2.Regular := by
  refine .traced _ _ (.word (GuestMemory.placeChecked_eq h.memory ds guest attr) ?_)
  cases hplace : s.memory.place ds guest attr with
  | error e =>
    dsimp only
    split_ifs
    · exact .step fun _ => .pure h
    · exact .pure h
  | ok placement =>
    cases placement with
    | again mapping =>
      obtain ⟨hmap, hregular⟩ := mapWindowChecked_eq h mapping false
      exact .last hmap hregular
    | fresh memory region mapping =>
      have hfresh : ({ s with memory } : Session).Regular := ⟨h.memory.place hplace, h.table⟩
      obtain ⟨hmap, hregular⟩ := mapWindowChecked_eq hfresh mapping true
      exact .step fun _ => .last hmap hregular

theorem attachDataspaceChecked_inRange (h : s.Regular) (ds : Dataspace) (guest : UInt64) (attr : AttachAttr) :
    InRange (s.attachDataspaceChecked P ds guest attr) (s.attachDataspace P ds guest attr) fun r => r.2.Regular := by
  refine (attachWindowChecked_inRange h ds guest attr).bind fun r hr => ?_
  obtain ⟨o, s1⟩ := r
  cases o with
  | ok u => exact .pure hr
  | error e =>
    dsimp only
    split_ifs
    · exact (removeRegionAtChecked_inRange hr guest).bind fun s2 hs2 => .pure hs2
    · exact .pure hr

theorem attachChecked_inRange (h : s.Regular) (cap : DataspaceCap) (guest : UInt64) (attr : AttachAttr) :
    InRange (s.attachChecked P cap guest attr) (s.attach P cap guest attr) fun r => r.2.Regular := by
  have hcount : ∀ r : Except SessionError Unit × Session, r.2.Regular → InRange (σ := σ)
      (do
        match r.1 with
        | .error e => count (σ := σ) ("guest_memory_attach_failures_total reason=" ++ e.kind)
        | .ok () => Pure.pure ()
        return r)
      (do
        match r.1 with
        | .error e => count (σ := σ) ("guest_memory_attach_failures_total reason=" ++ e.kind)
        | .ok () => Pure.pure ()
        return r) fun r => r.2.Regular := by
    intro r hr
    obtain ⟨o, s1⟩ := r
    cases o with
    | ok u => exact .pure hr
    | error e => exact .step fun _ => .pure hr
  refine .traced _ _ (.step fun o => ?_)
  cases o with
  | none => exact hcount (.error .invalidDataspace, s) h
  | some ds => exact (attachDataspaceChecked_inRange h ds guest attr).bind hcount

theorem detachChecked_inRange (h : s.Regular) (guest size : UInt64) :
    InRange (s.detachChecked P guest size) (s.detach P guest size) Regular := by
  refine .spanned _ (.spanned _ (.word (GuestMemory.detachChecked_eq h.memory guest size) ?_))
  cases hd : s.memory.detach? guest size with
  | none => exact .step fun _ => .pure h
  | some x => exact settleChecked_inRange h.table (h.memory.detach? hd) _

theorem reserveAndFlushChecked_inRange (h : s.Regular) (a : UInt64) :
    InRange (s.reserveAndFlushChecked P a) (s.reserveAndFlush P a) Regular :=
  .spanned _ (.word (GuestMemory.reserveAndFlushChecked_eq s.memory a)
    (settleChecked_inRange h.table (h.memory.reserveAndFlush a) _))

theorem tryCreateVcpuChecked_inRange (h : s.Regular) (thread : ThreadCap) :
    InRange (s.tryCreateVcpuChecked P thread) (s.tryCreateVcpu P thread) fun r => r.2.Regular := by
  unfold tryCreateVcpuChecked tryCreateVcpu
  split_ifs
  · exact .pure h
  have hquota : s.quota.InWords := h.memory.quota
  refine .word (Quota.withdrawChecked_eq hquota vcpuDataSize 0) ?_
  cases hw : s.quota.withdraw vcpuDataSize 0 with
  | error e => exact .pure h
  | ok charged =>
    have hcharged := hquota.withdraw hw
    refine .step fun location => (Quota.allocRamChecked_inRange hcharged _ _ _).bind fun r hq => ?_
    obtain ⟨o, q⟩ := r
    cases o with
    | error e => exact .pure (h.withQuota (hq.replenish _ _))
    | ok state =>
      have hfree := InRange.run (Quota.freeRam_inWords (P := P) hq .session state)
      refine .step fun addr => ?_
      cases addr with
      | error e => exact hfree.bind fun _ hq' => .pure (h.withQuota (hq'.replenish _ _))
      | ok stateAddr =>
        refine .step fun cap => ?_
        split_ifs
        · exact .pure ⟨h.memory.withQuota hq, h.table⟩
        · exact .step fun _ => hfree.bind fun _ hq' => .pure (h.withQuota (hq'.replenish _ _))

theorem createVcpuChecked_inRange (h : s.Regular) (thread : ThreadCap) :
    InRange (s.createVcpuChecked P thread) (s.createVcpu P thread) fun r => r.2.Regular := by
  refine .spanned _ ((tryCreateVcpuChecked_inRange h thread).bind fun r hr => ?_)
  obtain ⟨o, s'⟩ := r
  cases o with
  | ok cap => exact .step fun _ => .pure hr
  | error e => exact .step fun _ => .pure hr

theorem exceptionHandler_regular (h : s.Regular) (cap : VcpuCap) (signal : SignalCap) :
    Ensures (s.exceptionHandler P cap signal) fun r => r.2.Regular := by
  intro w
  rcases exceptionHandler_cases P s cap signal w with hafter | ⟨before, v, behind, k, -, hafter⟩
  · rw [hafter]
    exact h
  · rw [hafter]
    exact ⟨h.memory, h.table⟩

theorem upgrade_regular (h : s.Regular) (args : String) :
    Ensures (s.upgrade args : Run σ _) fun r => r.2.Regular := by
  intro w
  rcases upgrade_cases s args w with hafter | ⟨ram, caps, hafter⟩
  · rw [hafter]
    exact h
  · rw [hafter]
    exact h.withQuota (h.memory.quota.upgrade _ _)

/-- **One request.** A regular session serves it in range and is regular afterwards. -/
theorem performChecked_inRange (h : s.Regular) (request : Request) :
    InRange (s.performChecked P request) (s.perform P request) fun r => r.2.Regular := by
  cases request with
  | attach cap guest attr => exact (attachChecked_inRange h cap guest attr).bind fun _ hr => .pure hr
  | detach guest size => exact (detachChecked_inRange h guest size).bind fun _ hs => .pure hs
  | detachAt a => exact (InRange.spanned _ (removeRegionAtChecked_inRange h a)).bind fun _ hs => .pure hs
  | flush a => exact (reserveAndFlushChecked_inRange h a).bind fun _ hs => .pure hs
  | createVcpu thread => exact (createVcpuChecked_inRange h thread).bind fun _ hr => .pure hr
  | unmapRegion a size =>
    have hrefused : Ensures (s.unmapRegion a size : Run σ _) fun r => r.2.Regular := .step fun _ => .pure h
    exact .run (hrefused.bind fun _ hr => .pure hr)
  | attachPic a => exact .run (.pure h)
  | exceptionHandler cap signal =>
    refine .run ((exceptionHandler_regular h cap signal).bind fun r hr => ?_)
    obtain ⟨o, s'⟩ := r
    cases o <;> exact .pure hr
  | raise ram caps =>
    have hraised : (s.withQuota (s.quota.upgrade ram.toNat caps.toNat)).Regular :=
      h.withQuota (h.memory.quota.upgrade _ _)
    exact .run (.bind (.spanned _ (.pure hraised)) fun _ hs => .pure hs)
  | upgrade args => exact .run ((upgrade_regular h args).bind fun _ hr => .pure hr)

/-- **The end** of a regular session is in range. -/
theorem closeChecked_inRange (h : s.Regular) : InRange (s.closeChecked P) (s.close P) fun _ => True := by
  obtain ⟨hall, hregular⟩ := GuestMemory.detachAllChecked_eq h.memory
  refine .word hall ((settleChecked_inRange h.table hregular _).bind fun s' _ => ?_)
  exact .step fun quota => .step fun released => .step fun _ => .pure trivial

/-! ## Sessions reached -/

variable {virt : Virt} {config : Config} {steps : List (Served σ)} {w : World σ}

/-- the quota that a configuration donates is one of words, and so is what its page table leaves of it -/
theorem new_quota_inWords (h : (Session.new P virt config w).1 = .ok s) : s.quota.InWords := by
  have hquota := Quota.inWords_new config.ramQuota.toNat_lt config.capQuota.toNat_lt
  have hnew : Ensures (Session.new P virt config) fun r => ∀ s, r = .ok s → s.quota.InWords := by
    refine .traced _ _ (Ensures.bind (Q := fun r => r.2.InWords) ?_ fun r hr => ?_)
    · exact (Quota.allocRamChecked_inRange hquota _ _ _).ensures.bind fun _ hr => .pure hr
    · obtain ⟨o, q⟩ := r
      cases o with
      | error e => exact .pure fun s hs => by cases hs
      | ok store =>
        refine .step fun r => ?_
        cases r with
        | error e => exact .step fun _ => .pure fun s hs => by cases hs
        | ok id =>
          refine .pure fun s hs => ?_
          cases hs
          exact hr
  exact hnew w s h

/-- Every session that can be reached is regular, if its page table has the storage that core RAM gives. -/
theorem Reaches.regular (h : s.Reaches P virt config steps) (hfits : StorageFits s.store.phys tableMax) : s.Regular := by
  induction h with
  | new hnew =>
    have hquota := new_quota_inWords hnew
    obtain ⟨identity, quota, store, rfl⟩ := exists_of_new hnew
    exact ⟨GuestMemory.regular_new hquota, PageTable.sound_withCapacity hfits⟩
  | @serve steps s hreach w request ih =>
    obtain ⟨s1, fs, hmaps, hunmaps⟩ := Served.effect P ⟨s, w, request⟩ hreach.memory_sound
    rw [hunmaps.store, hmaps.store] at hfits
    exact (performChecked_inRange (ih hfits) request w).2

end Session

/-! ## Main result -/

variable {virt : Virt} {config : Config} {steps : List (Served σ)} {s : Session}

/-- **No arithmetic goes out of range.** Computed with checks, every request to a session, every lookup and its end have
the outcomes that they have without: no sum, difference or product on the way is beyond the words, and no slot is beyond
its table. -/
theorem arithmetic_in_range (h : s.Reaches P virt config steps) (hfits : StorageFits s.store.phys tableMax) :
    (∀ request w, s.performChecked P request w = some (s.perform P request w)) ∧
    (∀ a, s.lookupChecked a = some (s.lookup a)) ∧
    ∀ w, s.closeChecked P w = some (s.close P w) := by
  have hregular := h.regular hfits
  exact ⟨fun request w => (Session.performChecked_inRange hregular request w).1,
    fun a => PageTable.lookupChecked_eq s.table a, fun w => (Session.closeChecked_inRange hregular w).1⟩

/-- one region is attached, looked up, and detached at the end -/
theorem arithmetic_in_range_whole :
    (attachWhole.after Host.platform).Reaches Host.platform .svm .default [attachWhole] ∧
    StorageFits (attachWhole.after Host.platform).store.phys tableMax ∧
    (attachWhole.after Host.platform).lookupChecked 0x1234 = some (some ⟨0x100000234, 0x1000, .guestRam⟩) ∧
    (((attachWhole.after Host.platform).closeChecked Host.platform oneDataspace).map fun x => x.1.quota.ram.used) =
      some 0 := by
  have hreach : (attachWhole.after Host.platform).Reaches Host.platform .svm .default [attachWhole] :=
    .serve reaches_emptySession oneDataspace attachWhole.request
  have hfits : StorageFits (attachWhole.after Host.platform).store.phys tableMax := by decide +kernel
  obtain ⟨-, hlookup, hclose⟩ := arithmetic_in_range hreach hfits
  rw [hlookup, hclose]
  exact ⟨hreach, hfits, by decide +kernel, by decide +kernel⟩

end NestedGuest
