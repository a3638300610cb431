/-
The calls that operations make, and what is held after them.

A call obtains a resource or gives one back, or does neither. A ledger enters the calls of a journal one by one and keeps
what is held; it has no entry for giving back what is not held (`Ledger.enter`). `Settles act l Q` says that the calls of
`act` can be entered into `l`, and that `Q` relates the outcome to the ledger then. It follows the steps of an operation
as `Ensures` does.

- `Session.perform_settles`: after every request the ledger holds the storage of the page table and what the vCPUs hold,
  whatever step of the request was refused.
-/
import Mathlib.Data.Multiset.Basic
import Mathlib.Tactic
import NestedGuest.Proofs.Session.Effects

namespace NestedGuest

variable {σ α β : Type} {P : Platform σ} {w : World σ}

/-! ## The calls made -/

/-- tracing adds no calls -/
theorem traced_snd (name : String) (error : α → Option String) (act : Run σ α) (w : World σ) :
    exchanges (traced name error act w).2.journal =
        exchanges (act { w with journal := .span name :: w.journal }).2.journal ∧
      (traced name error act w).2.vmids = (act { w with journal := .span name :: w.journal }).2.vmids := by
  simp only [traced, bind_apply, observe]
  cases error (act { w with journal := .span name :: w.journal }).1 <;> exact ⟨rfl, rfl⟩

/-- in the world `w`, `act` makes the calls `es`, newest first, while the identities taken stay the same -/
structure Makes (act : Run σ α) (w : World σ) (es : List Exchange) : Prop where
  journal : exchanges (act w).2.journal = es ++ exchanges w.journal
  vmids : (act w).2.vmids = w.vmids
  during : ∀ e ∈ es, e.vmids = w.vmids

namespace Makes

variable {act : Run σ α} {f : α → Run σ β} {es es' : List Exchange}

theorem pure (a : α) (w : World σ) : Makes (Pure.pure a) w [] := ⟨rfl, rfl, by simp⟩

theorem bind (h : Makes act w es) (hf : Makes (f (act w).1) (act w).2 es') : Makes (act >>= f) w (es' ++ es) where
  journal := by rw [bind_apply, hf.journal, h.journal, List.append_assoc]
  vmids := by rw [bind_apply, hf.vmids, h.vmids]
  during e he := by
    rcases List.mem_append.1 he with he | he
    · rw [hf.during e he, h.vmids]
    · exact h.during e he

theorem log (level : Level) (text : String) (w : World σ) : Makes (NestedGuest.log level text) w [] :=
  ⟨rfl, rfl, by simp⟩

theorem count (counter : String) (w : World σ) : Makes (NestedGuest.count counter) w [] := ⟨rfl, rfl, by simp⟩

theorem spanned (name : String) (h : Makes act { w with journal := .span name :: w.journal } es) :
    Makes (NestedGuest.spanned name act) w es := ⟨h.journal, h.vmids, h.during⟩

theorem traced (name : String) (error : α → Option String)
    (h : Makes act { w with journal := .span name :: w.journal } es) :
    Makes (NestedGuest.traced name error act) w es := by
  obtain ⟨hjournal, hvmids⟩ := traced_snd name error act w
  exact ⟨by rw [hjournal, h.journal]; rfl, hvmids.trans h.vmids, h.during⟩

theorem ask (P : Platform σ) (c : Call) (w : World σ) :
    Makes (NestedGuest.ask P c) w [⟨c, (P.answer c w.host).1, w.vmids⟩] := ⟨rfl, rfl, by simp⟩

theorem stillAlive (P : Platform σ) (ds : Dataspace) (w : World σ) : Makes (NestedGuest.stillAlive P ds) w [] :=
  ⟨rfl, rfl, by simp⟩

/-- there is but one list of the calls made -/
theorem unique (h : Makes act w es) (h' : Makes act w es') : es = es' :=
  List.append_cancel_right (h.journal.symm.trans h'.journal)

end Makes

/-! ## Resources -/

/-- what a session holds of its surroundings and has to give back -/
inductive Resource where
  | ram (pool : RamPool) (ds : RamDataspace)
  /-- an attachment to the local address space -/
  | place (addr : UInt64)
  | vcpu (cap : VcpuCap)
  | kernelVcpu (k : KernelVcpuCap)
deriving DecidableEq

/-- what the caller holds from the answer on -/
def Call.obtained : (c : Call) → c.Answer → Option Resource
  | .allocRam pool _ _, .ok ds => some (.ram pool ds)
  | .attachLocal _ _, .ok addr => some (.place addr)
  | .manageVcpu, cap => if cap.isValid then some (.vcpu cap) else none
  | .createKernelVcpu _ _ _ _, some k => some (.kernelVcpu k)
  | _, _ => none

/-- what the caller gives back -/
def Call.returned : Call → Option Resource
  | .freeRam pool ds => some (.ram pool ds)
  | .detachLocal addr => some (.place addr)
  | .dissolveVcpu cap => some (.vcpu cap)
  | .destroyKernelVcpu k => some (.kernelVcpu k)
  | _ => none

/-- no call both obtains something and gives something back -/
theorem Call.obtained_of_returned {c : Call} {x : Resource} (h : c.returned = some x) (a : c.Answer) :
    c.obtained a = none := by
  cases c <;> simp [returned, obtained] at h ⊢

/-- what is held, and the capabilities of all vCPUs so far in the order in which they were obtained -/
structure Ledger where
  held : Multiset Resource
  vcpus : List VcpuCap

namespace Ledger

def empty : Ledger := ⟨0, []⟩

/-- `x` is held from now on -/
def add (l : Ledger) (x : Resource) : Ledger where
  held := x ::ₘ l.held
  vcpus := match x with
    | .vcpu cap => l.vcpus ++ [cap]
    | _ => l.vcpus

/-- the ledger after a call; nothing can be given back that is not held -/
def enter (l : Ledger) (e : Exchange) : Option Ledger :=
  match e.call.returned with
  | some x => if x ∈ l.held then some { l with held := l.held.erase x } else none
  | none => some ((e.call.obtained e.answer).elim l l.add)

/-- the ledger after several calls, newest first -/
def enterAll (l : Ledger) : List Exchange → Option Ledger
  | [] => some l
  | e :: es => (l.enterAll es).bind fun l' => l'.enter e

variable {l l' : Ledger} {es es' : List Exchange} {c : Call} {x : Resource} {held : Multiset Resource}
  {vcpus : List VcpuCap}

theorem enterAll_append (l : Ledger) (es es' : List Exchange) :
    l.enterAll (es' ++ es) = (l.enterAll es).bind fun l' => l'.enterAll es' := by
  induction es' with
  | nil => simp [enterAll]
  | cons e es' ih =>
    rw [List.cons_append, enterAll, ih, Option.bind_assoc]
    rfl

theorem enter_obtained {a : c.Answer} {vmids : VmidAllocator} (hreturned : c.returned = none) :
    l.enter ⟨c, a, vmids⟩ = some ((c.obtained a).elim l l.add) := by
  simp only [enter, hreturned]

theorem enter_returned {a : c.Answer} {vmids : VmidAllocator} (hreturned : c.returned = some x) :
    Ledger.enter ⟨x ::ₘ held, vcpus⟩ ⟨c, a, vmids⟩ = some ⟨held, vcpus⟩ := by
  simp only [enter, hreturned, Multiset.mem_cons_self, if_true, Multiset.erase_cons_head]

/-- one call moves one resource at most -/
theorem enter_count {e : Exchange} (h : l.enter e = some l') (x : Resource) :
    l'.held.count x + (if e.call.returned = some x then 1 else 0) =
      l.held.count x + (if e.call.obtained e.answer = some x then 1 else 0) := by
  unfold enter at h
  split at h
  case h_1 y hreturned =>
    rw [Call.obtained_of_returned hreturned, hreturned]
    split_ifs at h with hmem
    cases h
    by_cases hxy : y = x
    · subst hxy
      have hpos := Multiset.count_pos.2 hmem
      simp only [Multiset.count_erase_self, if_true, reduceCtorEq, if_false]
      omega
    · simp [Multiset.count_erase_of_ne (Ne.symm hxy), hxy]
  case h_2 hreturned =>
    cases h
    rw [hreturned]
    cases e.call.obtained e.answer with
    | none => simp
    | some y =>
      by_cases hxy : x = y
      · simp [add, hxy]
      · simp [add, Multiset.count_cons_of_ne hxy, Ne.symm hxy]

/-- what was obtained and is not held any more was given back as often -/
theorem enterAll_count (h : l.enterAll es = some l') (x : Resource) :
    l'.held.count x + es.countP (fun e => e.call.returned = some x) =
      l.held.count x + es.countP (fun e => e.call.obtained e.answer = some x) := by
  induction es generalizing l' with
  | nil =>
    cases h
    rfl
  | cons e es ih =>
    obtain ⟨l1, hes, he⟩ := Option.bind_eq_some_iff.1 h
    have hrest := ih hes
    have hfirst := enter_count he x
    simp only [List.countP_cons, decide_eq_true_eq]
    omega

end Ledger

/-! ## Operations on a ledger -/

/-- the calls of `act` can be entered into `l`, which becomes one that `Q` relates to the outcome -/
def Settles (act : Run σ α) (l : Ledger) (Q : α → Ledger → Prop) : Prop :=
  ∀ w, ∃ es l', Makes act w es ∧ l.enterAll es = some l' ∧ Q (act w).1 l'

/-- the calls of `act` neither obtain nor give back anything -/
def Idle (act : Run σ α) : Prop := ∀ l, Settles act l fun _ l' => l' = l

namespace Settles

variable {act : Run σ α} {f : α → Run σ β} {l : Ledger} {Q : α → Ledger → Prop} {R : β → Ledger → Prop} {c : Call}

theorem pure {a : α} (h : Q a l) : Settles (Pure.pure a : Run σ α) l Q := fun w => ⟨[], l, .pure a w, rfl, h⟩

theorem bind (h : Settles act l Q) (hf : ∀ a l', Q a l' → Settles (f a) l' R) : Settles (act >>= f) l R := by
  intro w
  obtain ⟨es, l', hmakes, henter, hQ⟩ := h w
  obtain ⟨es', l'', hmakes', henter', hR⟩ := hf _ l' hQ (act w).2
  refine ⟨es' ++ es, l'', hmakes.bind hmakes', ?_, hR⟩
  rw [Ledger.enterAll_append, henter, Option.bind_some, henter']

/-- a step that obtains and gives back nothing -/
theorem step (h : Idle act) (hf : ∀ a, Settles (f a) l R) : Settles (act >>= f) l R := by
  refine (h l).bind fun a l' hl' => ?_
  subst hl'
  exact hf a

theorem spanned (name : String) (h : Settles act l Q) : Settles (NestedGuest.spanned name act) l Q := by
  intro w
  obtain ⟨es, l', hmakes, henter, hQ⟩ := h { w with journal := .span name :: w.journal }
  exact ⟨es, l', hmakes.spanned name, henter, hQ⟩

theorem traced (name : String) (error : α → Option String) (h : Settles act l Q) :
    Settles (NestedGuest.traced name error act) l Q := by
  intro w
  obtain ⟨es, l', hmakes, henter, hQ⟩ := h { w with journal := .span name :: w.journal }
  refine ⟨es, l', hmakes.traced name error, henter, ?_⟩
  rw [traced_fst]
  exact hQ

theorem ask (P : Platform σ) {Q : c.Answer → Ledger → Prop}
    (h : ∀ a vmids, ∃ l', l.enter ⟨c, a, vmids⟩ = some l' ∧ Q a l') : Settles (NestedGuest.ask P c) l Q := by
  intro w
  obtain ⟨l', henter, hQ⟩ := h (P.answer c w.host).1 w.vmids
  refine ⟨_, l', .ask P c w, ?_, hQ⟩
  simp only [Ledger.enterAll, Option.bind_some, henter]

/-- what a call obtains is held from then on -/
theorem ask_obtained (P : Platform σ) (hreturned : c.returned = none) :
    Settles (NestedGuest.ask P c) l fun a l' => l' = (c.obtained a).elim l l.add :=
  .ask P fun _ _ => ⟨_, Ledger.enter_obtained hreturned, rfl⟩

/-- what is held is given back -/
theorem ask_returned (P : Platform σ) {x : Resource} {held : Multiset Resource} {vcpus : List VcpuCap}
    (hreturned : c.returned = some x) :
    Settles (NestedGuest.ask P c) ⟨x ::ₘ held, vcpus⟩ fun _ l' => l' = ⟨held, vcpus⟩ :=
  .ask P fun _ _ => ⟨_, Ledger.enter_returned hreturned, rfl⟩

end Settles

namespace Idle

variable {act : Run σ α} {f : α → Run σ β} {c : Call}

theorem pure (a : α) : Idle (Pure.pure a : Run σ α) := fun _ => .pure rfl

theorem bind (h : Idle act) (hf : ∀ a, Idle (f a)) : Idle (act >>= f) := fun l => .step h fun a => hf a l

theorem log (level : Level) (text : String) : Idle (NestedGuest.log level text : Run σ Unit) :=
  fun l w => ⟨[], l, .log level text w, rfl, rfl⟩

theorem count (counter : String) : Idle (NestedGuest.count counter : Run σ Unit) :=
  fun l w => ⟨[], l, .count counter w, rfl, rfl⟩

theorem stillAlive (P : Platform σ) (ds : Dataspace) : Idle (NestedGuest.stillAlive P ds) :=
  fun l w => ⟨[], l, .stillAlive P ds w, rfl, rfl⟩

theorem ask (P : Platform σ) (hreturned : c.returned = none) (hobtained : ∀ a, c.obtained a = none) :
    Idle (NestedGuest.ask P c) := by
  intro l w
  obtain ⟨es, l', hmakes, henter, hl'⟩ := Settles.ask_obtained (l := l) P hreturned w
  exact ⟨es, l', hmakes, henter, by rw [hl', hobtained, Option.elim_none]⟩

end Idle

/-! ## RAM and processors -/

variable {l : Ledger} {held : Multiset Resource} {caps : List VcpuCap}

theorem allocRam_settles (P : Platform σ) (pool : RamPool) (q : Quota) (size : UInt64) (cache : Cache) :
    Settles (q.allocRam P pool size cache) l fun r l' =>
      l' = match r.1 with
        | .ok ds => l.add (.ram pool ds)
        | .error _ => l := by
  refine .traced _ _ ?_
  split
  · exact .pure rfl
  split
  · exact .pure rfl
  rename_i size _ _ charged _
  refine (Settles.ask_obtained P rfl).bind fun r l' hl' => ?_
  cases r with
  | ok ds => exact .pure hl'
  | error e => exact .pure hl'

theorem freeRam_settles (P : Platform σ) (pool : RamPool) (q : Quota) (ds : RamDataspace) :
    Settles (q.freeRam P pool ds) ⟨.ram pool ds ::ₘ held, caps⟩ fun _ l' => l' = ⟨held, caps⟩ :=
  (Settles.ask_returned P rfl).bind fun _ _ hl' => .pure hl'

/-- what a vCPU holds -/
def Vcpu.holdings (v : Vcpu) : Multiset Resource :=
  match v.kernelObject with
  | some k => .kernelVcpu k ::ₘ .vcpu v.cap ::ₘ .place v.stateAddr ::ₘ {.ram .session v.state}
  | none => .vcpu v.cap ::ₘ .place v.stateAddr ::ₘ {.ram .session v.state}

/-- a vCPU that is closed gives back all that it holds -/
theorem close_vcpu_settles (P : Platform σ) (q : Quota) (v : Vcpu) :
    Settles (Vcpu.close P q v) ⟨v.holdings + held, caps⟩ fun _ l' => l' = ⟨held, caps⟩ := by
  have hrest : Settles (do
      ask P (.dissolveVcpu v.cap)
      ask P (.detachLocal v.stateAddr)
      let q ← q.freeRam P .session v.state
      return q.replenish vcpuDataSize 0) ⟨.vcpu v.cap ::ₘ .place v.stateAddr ::ₘ .ram .session v.state ::ₘ held, caps⟩
      fun _ l' => l' = ⟨held, caps⟩ := by
    refine (Settles.ask_returned P rfl).bind fun _ l1 h1 => ?_
    subst h1
    refine (Settles.ask_returned P rfl).bind fun _ l2 h2 => ?_
    subst h2
    exact (freeRam_settles P .session q v.state).bind fun _ l3 h3 => .pure h3
  unfold Vcpu.close Vcpu.holdings
  cases v.kernelObject with
  | none =>
    simp only [Multiset.cons_add, Multiset.singleton_add]
    exact hrest
  | some k =>
    simp only [Multiset.cons_add, Multiset.singleton_add]
    refine (Settles.ask_returned P (c := .destroyKernelVcpu k) rfl).bind fun _ l1 h1 => ?_
    subst h1
    exact hrest

theorem close_vcpus_settles (P : Platform σ) (q : Quota) (vs : List Vcpu) :
    Settles (vs.foldlM (Vcpu.close P) q) ⟨(vs.map Vcpu.holdings).sum + held, caps⟩ fun _ l' => l' = ⟨held, caps⟩ := by
  induction vs generalizing q with
  | nil =>
    refine .pure ?_
    simp
  | cons v vs ih =>
    rw [List.foldlM_cons, List.map_cons, List.sum_cons, add_assoc]
    refine (close_vcpu_settles P q v).bind fun q' l1 h1 => ?_
    subst h1
    exact ih q'

/-- a handler that is registered obtains a kernel object, unless there is one already -/
theorem exceptionHandler_settles (P : Platform σ) (v : Vcpu) (signal : SignalCap) :
    Settles (v.exceptionHandler P signal) l fun v' l' =>
      v' = v ∧ l' = l ∨
        ∃ k, v.kernelObject = none ∧ v' = { v with kernelObject := some k } ∧ l' = l.add (.kernelVcpu k) := by
  refine .spanned _ ?_
  split_ifs with hvalid hsome
  · exact .step (.log _ _) fun _ => .pure (Or.inl ⟨rfl, rfl⟩)
  · exact .step (.log _ _) fun _ => .pure (Or.inl ⟨rfl, rfl⟩)
  · have hnone : v.kernelObject = none := by simpa using hsome
    refine (Settles.ask_obtained P rfl).bind fun r l' hl' => ?_
    cases r with
    | some k => exact .pure (Or.inr ⟨k, hnone, rfl, hl'⟩)
    | none => exact .step (.log _ _) fun _ => .pure (Or.inl ⟨rfl, hl'⟩)

/-! ## Sessions -/

namespace Session

variable {s s' s'' : Session}

/-- what a session holds: the storage of its page table, and what its vCPUs hold -/
def holdings (s : Session) : Multiset Resource :=
  ((s.store.ds.map (Resource.ram s.store.pool)).toList : Multiset Resource) + (s.vcpus.map Vcpu.holdings).sum

/-- the ledger that a session should have -/
def ledger (s : Session) : Ledger := ⟨s.holdings, s.vcpus.map Vcpu.cap⟩

/-- `l` is the ledger of `s'`, which has the identity and the store of `s` -/
structure Holds (s s' : Session) (l : Ledger) : Prop where
  ledger : l = s'.ledger
  identity : s'.identity = s.identity
  store : s'.store = s.store

theorem Holds.trans {l l' : Ledger} (h1 : s.Holds s' l) (h2 : s'.Holds s'' l') : s.Holds s'' l' :=
  ⟨h2.ledger, h2.identity.trans h1.identity, h2.store.trans h1.store⟩

/-! ### Memory -/

theorem carryOut_idle (P : Platform σ) (table : PageTable) (f : Flush) : Idle (carryOut P table f) := by
  unfold carryOut
  split_ifs
  · refine .bind (.stillAlive P _) fun alive => ?_
    split_ifs
    · exact .bind (.ask P rfl fun _ => rfl) fun _ => .pure _
    · exact .pure _
  · exact .pure _

theorem foldlM_carryOut_idle (P : Platform σ) (fs : List Flush) (table : PageTable) :
    Idle (fs.foldlM (carryOut P) table) := by
  induction fs generalizing table with
  | nil => exact .pure table
  | cons f fs ih =>
    rw [List.foldlM_cons]
    exact .bind (carryOut_idle P table f) fun table' => ih table'

theorem settle_settles (P : Platform σ) (s : Session) (memory : GuestMemory) (fs : List Flush) :
    Settles (s.settle P memory fs) s.ledger fun s' l => s.Holds s' l :=
  .step (foldlM_carryOut_idle P fs s.table) fun _ => .pure ⟨rfl, rfl, rfl⟩

theorem removeRegionAt_settles (P : Platform σ) (s : Session) (a : UInt64) :
    Settles (s.removeRegionAt P a) s.ledger fun s' l => s.Holds s' l :=
  settle_settles P s _ _

theorem attachWindow_settles (P : Platform σ) (s : Session) (ds : Dataspace) (guest : UInt64) (attr : AttachAttr) :
    Settles (s.attachWindow P ds guest attr) s.ledger fun r l => s.Holds r.2 l := by
  refine .traced _ _ ?_
  split
  · split_ifs
    · exact .step (.log _ _) fun _ => .pure ⟨rfl, rfl, rfl⟩
    · exact .pure ⟨rfl, rfl, rfl⟩
  · exact .pure ⟨rfl, rfl, rfl⟩
  · exact .step (.ask P rfl fun _ => rfl) fun _ => .pure ⟨rfl, rfl, rfl⟩

theorem attachDataspace_settles (P : Platform σ) (s : Session) (ds : Dataspace) (guest : UInt64) (attr : AttachAttr) :
    Settles (s.attachDataspace P ds guest attr) s.ledger fun r l => s.Holds r.2 l := by
  refine (attachWindow_settles P s ds guest attr).bind fun r l hl => ?_
  obtain ⟨o, s1⟩ := r
  cases o with
  | ok u => exact .pure hl
  | error e =>
    simp only
    split_ifs
    · rw [hl.ledger]
      exact (removeRegionAt_settles P s1 guest).bind fun s2 l2 h2 => .pure (hl.trans h2)
    · exact .pure hl

theorem attach_settles (P : Platform σ) (s : Session) (cap : DataspaceCap) (guest : UInt64) (attr : AttachAttr) :
    Settles (s.attach P cap guest attr) s.ledger fun r l => s.Holds r.2 l := by
  refine .traced _ _ (.step (.ask P rfl fun _ => rfl) fun found => ?_)
  cases found with
  | none =>
    simp only [pure_bind]
    exact .step (.count _) fun _ => .pure ⟨rfl, rfl, rfl⟩
  | some ds =>
    refine (attachDataspace_settles P s ds guest attr).bind fun r l hl => ?_
    obtain ⟨o, s1⟩ := r
    cases o with
    | ok u => exact .pure hl
    | error e => exact .step (.count _) fun _ => .pure hl

theorem detach_settles (P : Platform σ) (s : Session) (guest size : UInt64) :
    Settles (s.detach P guest size) s.ledger fun s' l => s.Holds s' l := by
  refine .spanned _ (.spanned _ ?_)
  split
  · exact .step (.log _ _) fun _ => .pure ⟨rfl, rfl, rfl⟩
  · exact settle_settles P s _ _

/-! ### Processors -/

/-- a vCPU that joins brings what it holds -/
theorem ledger_addVcpu (s : Session) (q : Quota) (v : Vcpu) (hnone : v.kernelObject = none) :
    ({ s.withQuota q with vcpus := s.vcpus ++ [v] } : Session).ledger =
      ((s.ledger.add (.ram .session v.state)).add (.place v.stateAddr)).add (.vcpu v.cap) := by
  simp only [ledger, Ledger.add, Ledger.mk.injEq, holdings, withQuota, Vcpu.holdings, hnone, List.map_append,
    List.map_cons, List.map_nil, List.sum_append, List.sum_cons, List.sum_nil, and_true, ← Multiset.singleton_add]
  abel

/-- a kernel object is held by the vCPU that it was created for -/
theorem ledger_setVcpu {v : Vcpu} {cap : VcpuCap} (h : s.vcpu? cap = some v) (hnone : v.kernelObject = none)
    (k : KernelVcpuCap) :
    ({ s with vcpus := setVcpu { v with kernelObject := some k } s.vcpus } : Session).ledger =
      s.ledger.add (.kernelVcpu k) := by
  obtain ⟨before, behind, hvs, hset⟩ : ∃ before behind, s.vcpus = before ++ v :: behind ∧
      setVcpu { v with kernelObject := some k } s.vcpus = before ++ { v with kernelObject := some k } :: behind :=
    setVcpu_split h rfl
  rw [hset]
  simp only [ledger, Ledger.add, Ledger.mk.injEq, holdings, hvs, Vcpu.holdings, hnone, List.map_append,
    List.map_cons, List.sum_append, List.sum_cons, and_true, ← Multiset.singleton_add]
  abel

theorem tryCreateVcpu_settles (P : Platform σ) (s : Session) (thread : ThreadCap) :
    Settles (s.tryCreateVcpu P thread) s.ledger fun r l => s.Holds r.2 l := by
  unfold tryCreateVcpu
  split_ifs
  · exact .pure ⟨rfl, rfl, rfl⟩
  split
  · exact .pure ⟨rfl, rfl, rfl⟩
  rename_i charged _
  -- from here on each step that is refused gives back what the steps before it obtained
  refine .step (.ask P rfl fun _ => rfl) fun location => ?_
  refine (allocRam_settles P .session charged _ .uncached).bind fun r l hl => ?_
  subst hl
  obtain ⟨o, q⟩ := r
  cases o with
  | error e => exact .pure ⟨rfl, rfl, rfl⟩
  | ok state =>
    refine (Settles.ask_obtained P rfl).bind fun r l hl => ?_
    subst hl
    cases r with
    | error e => exact (freeRam_settles P .session q state).bind fun q' l hl => .pure ⟨hl, rfl, rfl⟩
    | ok addr =>
      refine (Settles.ask_obtained P rfl).bind fun cap l hl => ?_
      subst hl
      simp only [Call.obtained]
      split_ifs
      · exact .pure ⟨(ledger_addVcpu s q ⟨s.identity, cap, state, addr, _, none⟩ rfl).symm, rfl, rfl⟩
      · refine (Settles.ask_returned P rfl).bind fun _ l1 h1 => ?_
        subst h1
        exact (freeRam_settles P .session q state).bind fun q' l hl => .pure ⟨hl, rfl, rfl⟩

theorem createVcpu_settles (P : Platform σ) (s : Session) (thread : ThreadCap) :
    Settles (s.createVcpu P thread) s.ledger fun r l => s.Holds r.2 l := by
  refine .spanned _ ((tryCreateVcpu_settles P s thread).bind fun r l hl => ?_)
  obtain ⟨o, s'⟩ := r
  cases o with
  | ok cap => exact .step (.count _) fun _ => .pure hl
  | error e => exact .step (.log _ _) fun _ => .pure hl

theorem exceptionHandler_session_settles (P : Platform σ) (s : Session) (cap : VcpuCap) (signal : SignalCap) :
    Settles (s.exceptionHandler P cap signal) s.ledger fun r l => s.Holds r.2 l := by
  unfold exceptionHandler
  cases hv : s.vcpu? cap with
  | none => exact .pure ⟨rfl, rfl, rfl⟩
  | some v =>
    refine (exceptionHandler_settles P v signal).bind fun v' l hl => .pure ⟨?_, rfl, rfl⟩
    rcases hl with ⟨rfl, rfl⟩ | ⟨k, hnone, rfl, rfl⟩
    · obtain ⟨before, behind, hvs, hset⟩ := setVcpu_split hv rfl
      rw [hset, ← hvs]
    · exact (ledger_setVcpu hv hnone k).symm

/-! ### Every request -/

theorem raise_settles (s : Session) (ram caps : UInt64) :
    Settles (s.raise ram caps : Run σ Session) s.ledger fun s' l => s.Holds s' l :=
  .spanned _ (.pure ⟨rfl, rfl, rfl⟩)

theorem upgrade_settles (s : Session) (args : String) :
    Settles (s.upgrade args : Run σ _) s.ledger fun r l => s.Holds r.2 l := by
  refine .traced _ _ ?_
  split
  · exact .pure ⟨rfl, rfl, rfl⟩
  split
  · exact .pure ⟨rfl, rfl, rfl⟩
  · exact (raise_settles s _ _).bind fun s' l hl => .pure hl

/-- After every request the ledger holds what the session holds, and nothing else. -/
theorem perform_settles (P : Platform σ) (s : Session) (request : Request) :
    Settles (s.perform P request) s.ledger fun r l => s.Holds r.2 l := by
  cases request with
  | attach cap guest attr => exact (attach_settles P s cap guest attr).bind fun _ _ hl => .pure hl
  | detach guest size => exact (detach_settles P s guest size).bind fun _ _ hl => .pure hl
  | detachAt a => exact ((removeRegionAt_settles P s a).spanned _).bind fun _ _ hl => .pure hl
  | flush a => exact ((settle_settles P s _ _).spanned _).bind fun _ _ hl => .pure hl
  | unmapRegion a size => exact .bind (.step (.log _ _) fun _ => .pure ⟨rfl, rfl, rfl⟩) fun _ _ hl => .pure hl
  | attachPic a => exact .pure ⟨rfl, rfl, rfl⟩
  | createVcpu thread => exact (createVcpu_settles P s thread).bind fun _ _ hl => .pure hl
  | exceptionHandler cap signal =>
    refine (exceptionHandler_session_settles P s cap signal).bind fun r l hl => ?_
    obtain ⟨o, s'⟩ := r
    cases o <;> exact .pure hl
  | raise ram caps => exact (raise_settles s ram caps).bind fun _ _ hl => .pure hl
  | upgrade args => exact (upgrade_settles s args).bind fun _ _ hl => .pure hl

end Session
end NestedGuest
