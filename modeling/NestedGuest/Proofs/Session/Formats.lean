/-
Whatever format its page table has, a session does the same.

Two sessions are twins if they differ in their page tables alone, and these are twins (`PageTable.Twins`). Every request
is answered alike by twins, with the same calls, lines and spans, and leaves twins behind: what a session does depends on
the page table only through the answers to insertions. All that a session maps is guest RAM, so an attribute that one of
the formats cannot express makes no difference to an insertion.

- `formats_interchangeable`: sessions created alike for two extensions agree in all that can be observed of them, through
  any turns of requests and events outside, up to their end.

Premise: core RAM gives the page table page-aligned storage that ends at or below `2 ^ 52` (`StorageFits`).
-/
import NestedGuest.Proofs.Paging.Twins
import NestedGuest.Proofs.Session.Translations

namespace NestedGuest

open Bench (Host)

variable {σ α : Type} {P : Platform σ} {s s' : Session} {t u : PageTable}

namespace Session

/-! ## Twins -/

/-- the sessions differ in their page tables alone, and these are twins -/
inductive Twins (s : Session) : Session → Prop
  | intro (u : PageTable) (h : PageTable.Twins .guestRam s.table u) : Twins s { s with table := u }

/-- the answers are the same, and the sessions are twins -/
inductive AnswerTwins : α × Session → α × Session → Prop
  | intro (a : α) (s : Session) {u : PageTable} (h : PageTable.Twins .guestRam s.table u) :
      AnswerTwins (a, s) (a, { s with table := u })

theorem Twins.answer (h : s.Twins s') (a : α) : AnswerTwins (a, s) (a, s') := by
  obtain ⟨u, h⟩ := h
  exact .intro a s h

theorem AnswerTwins.fst {x y : α × Session} (h : AnswerTwins x y) : y.1 = x.1 := by
  cases h
  rfl

theorem AnswerTwins.snd {x y : α × Session} (h : AnswerTwins x y) : x.2.Twins y.2 := by
  obtain ⟨a, s, h⟩ := h
  exact .intro _ h

/-! ## Memory -/

theorem carryOut_agree (P : Platform σ) (h : PageTable.Twins .guestRam t u) (f : Flush) :
    Agree (carryOut P t f) (carryOut P u f) (PageTable.Twins .guestRam) := by
  have hremove := PageTable.remove_twins h f.region.base f.region.size
  unfold carryOut
  split_ifs
  · refine .step fun alive => ?_
    split_ifs
    · exact .step fun _ => .pure hremove
    · exact .pure hremove
  · exact .pure hremove

theorem settle_agree (P : Platform σ) (h : PageTable.Twins .guestRam s.table u) (memory : GuestMemory)
    (fs : List Flush) : Agree (s.settle P memory fs) (Session.settle P { s with table := u } memory fs) Twins :=
  (Agree.foldlM (R := PageTable.Twins .guestRam) (fun _ _ f h => carryOut_agree P h f) h fs).bind fun t _ h' =>
    .pure (Twins.intro (s := { s with memory, table := t }) _ h')

theorem mapWindow_twins (h : PageTable.Twins .guestRam s.table u) (mapping : Mapping) (newRegion : Bool) :
    AnswerTwins (s.mapWindow mapping newRegion) (Session.mapWindow { s with table := u } mapping newRegion) := by
  obtain ⟨hanswer, htable⟩ := PageTable.insert_twins h mapping.guest mapping.host mapping.size
  simp only [mapWindow, hanswer]
  exact .intro _ _ htable

theorem attachWindow_agree (P : Platform σ) (h : PageTable.Twins .guestRam s.table u) (ds : Dataspace) (guest : UInt64)
    (attr : AttachAttr) :
    Agree (s.attachWindow P ds guest attr) (Session.attachWindow P { s with table := u } ds guest attr) AnswerTwins := by
  refine .traced _ (fun x y hxy => by rw [hxy.fst]) ?_
  dsimp only
  split
  · split_ifs
    · exact .step fun _ => .pure (.intro _ s h)
    · exact .pure (.intro _ s h)
  · exact .pure (mapWindow_twins h _ false)
  · rename_i memory _ _ _
    exact .step fun _ => .pure (mapWindow_twins (s := { s with memory }) h _ true)

theorem removeRegionAt_agree (P : Platform σ) (h : PageTable.Twins .guestRam s.table u) (a : UInt64) :
    Agree (s.removeRegionAt P a) (Session.removeRegionAt P { s with table := u } a) Twins :=
  settle_agree P h _ _

theorem attachDataspace_agree (P : Platform σ) (h : PageTable.Twins .guestRam s.table u) (ds : Dataspace)
    (guest : UInt64) (attr : AttachAttr) :
    Agree (s.attachDataspace P ds guest attr) (Session.attachDataspace P { s with table := u } ds guest attr)
      AnswerTwins := by
  refine (attachWindow_agree P h ds guest attr).bind fun x y hxy => ?_
  obtain @⟨r, s, u, h⟩ := hxy
  cases r with
  | ok _ => exact .pure (.intro _ s h)
  | error e =>
    have hwants : Session.wantsRollback { s with table := u } e = s.wantsRollback e := rfl
    dsimp only
    rw [hwants]
    split_ifs
    · exact (removeRegionAt_agree P h guest).bind fun _ _ htwins => .pure (htwins.answer _)
    · exact .pure (.intro _ s h)

theorem attach_agree (P : Platform σ) (h : PageTable.Twins .guestRam s.table u) (cap : DataspaceCap) (guest : UInt64)
    (attr : AttachAttr) :
    Agree (s.attach P cap guest attr) (Session.attach P { s with table := u } cap guest attr) AnswerTwins := by
  refine .traced _ (fun x y hxy => by rw [hxy.fst]) (.step fun found => ?_)
  cases found with
  | none =>
    simp only [pure_bind]
    exact .step fun _ => .pure (.intro _ s h)
  | some ds =>
    refine (attachDataspace_agree P h ds guest attr).bind fun x y hxy => ?_
    obtain ⟨r, s, h⟩ := hxy
    cases r with
    | ok _ => exact .pure (.intro _ s h)
    | error e => exact .step fun _ => .pure (.intro _ s h)

theorem detach_agree (P : Platform σ) (h : PageTable.Twins .guestRam s.table u) (guest size : UInt64) :
    Agree (s.detach P guest size) (Session.detach P { s with table := u } guest size) Twins := by
  refine .spanned _ (.spanned _ ?_)
  dsimp only
  split
  · exact .step fun _ => .pure (.intro u h)
  · exact settle_agree P h _ _

/-! ## vCPUs -/

theorem tryCreateVcpu_agree (P : Platform σ) (h : PageTable.Twins .guestRam s.table u) (thread : ThreadCap) :
    Agree (s.tryCreateVcpu P thread) (Session.tryCreateVcpu P { s with table := u } thread) AnswerTwins := by
  have hquota (r : Except SessionError VcpuCap) (q : Quota) :
      AnswerTwins (r, s.withQuota q) (r, Session.withQuota { s with table := u } q) := .intro r (s.withQuota q) h
  unfold tryCreateVcpu
  dsimp only [quota]
  split_ifs
  · exact .pure (.intro _ s h)
  split
  · exact .pure (.intro _ s h)
  refine .step fun location => .step fun state => ?_
  split
  · exact .pure (hquota _ _)
  refine .step fun addr => ?_
  split
  · exact .step fun q => .pure (hquota _ _)
  refine .step fun cap => ?_
  split_ifs
  · exact .pure (.intro _ { s.withQuota _ with vcpus := _ } h)
  · exact .step fun _ => .step fun q => .pure (hquota _ _)

theorem createVcpu_agree (P : Platform σ) (h : PageTable.Twins .guestRam s.table u) (thread : ThreadCap) :
    Agree (s.createVcpu P thread) (Session.createVcpu P { s with table := u } thread) AnswerTwins := by
  refine .spanned _ ((tryCreateVcpu_agree P h thread).bind fun x y hxy => ?_)
  obtain ⟨r, s, h⟩ := hxy
  cases r with
  | ok cap => exact .step fun _ => .pure (.intro _ s h)
  | error e => exact .step fun _ => .pure (.intro _ s h)

theorem exceptionHandler_agree (P : Platform σ) (h : PageTable.Twins .guestRam s.table u) (cap : VcpuCap)
    (signal : SignalCap) :
    Agree (s.exceptionHandler P cap signal) (Session.exceptionHandler P { s with table := u } cap signal)
      AnswerTwins := by
  have hvcpu : Session.vcpu? { s with table := u } cap = s.vcpu? cap := rfl
  unfold exceptionHandler
  rw [hvcpu]
  cases s.vcpu? cap with
  | none => exact .pure (.intro _ s h)
  | some v => exact .step fun v => .pure (.intro _ { s with vcpus := setVcpu v s.vcpus } h)

/-! ## Requests -/

theorem raise_agree (h : PageTable.Twins .guestRam s.table u) (ram caps : UInt64) :
    Agree (s.raise ram caps : Run σ Session) (Session.raise { s with table := u } ram caps) Twins :=
  .spanned _ (.pure (Twins.intro (s := s.withQuota _) u h))

theorem upgrade_agree (h : PageTable.Twins .guestRam s.table u) (args : String) :
    Agree (s.upgrade args : Run σ _) (Session.upgrade { s with table := u } args) AnswerTwins := by
  refine .traced _ (fun x y hxy => by rw [hxy.fst]) ?_
  split
  · exact .pure (.intro _ s h)
  split
  · exact .pure (.intro _ s h)
  · exact (raise_agree h _ _).bind fun _ _ htwins => .pure (htwins.answer _)

/-- Twins answer every request alike and stay twins. -/
theorem perform_agree (P : Platform σ) (h : s.Twins s') (request : Request) :
    Agree (s.perform P request) (s'.perform P request) AnswerTwins := by
  obtain ⟨u, h⟩ := h
  have hdone : ∀ x y : Except SessionError Unit × Session, AnswerTwins x y →
      Agree (pure (Reply.done x.1, x.2) : Run σ _) (pure (Reply.done y.1, y.2)) AnswerTwins :=
    fun x y hxy => .pure (hxy.fst ▸ hxy.snd.answer _)
  have hafter : ∀ s s', s.Twins s' →
      Agree (pure (Reply.done (.ok ()), s) : Run σ _) (pure (Reply.done (.ok ()), s')) AnswerTwins :=
    fun s s' htwins => .pure (htwins.answer _)
  cases request with
  | attach cap guest attr => exact (attach_agree P h cap guest attr).bind hdone
  | detach guest size => exact (detach_agree P h guest size).bind hafter
  | detachAt a => exact (Agree.spanned _ (removeRegionAt_agree P h a)).bind hafter
  | flush a => exact (Agree.spanned _ (settle_agree P h _ _)).bind hafter
  | unmapRegion a size =>
    have hrefuse : Agree (s.unmapRegion a size : Run σ _) (Session.unmapRegion { s with table := u } a size)
        AnswerTwins := .step fun _ => .pure (.intro _ s h)
    exact hrefuse.bind hdone
  | attachPic a => exact .pure (.intro _ s h)
  | createVcpu thread =>
    exact (createVcpu_agree P h thread).bind fun x y hxy => .pure (hxy.fst ▸ hxy.snd.answer _)
  | exceptionHandler cap signal =>
    refine (exceptionHandler_agree P h cap signal).bind fun x y hxy => ?_
    obtain ⟨r, s, h⟩ := hxy
    cases r with
    | none => exact .pure (.intro _ s h)
    | some kernelObject => exact .pure (.intro _ s h)
  | raise ram caps => exact (raise_agree h ram caps).bind hafter
  | upgrade args => exact (upgrade_agree h args).bind hdone

/-! ## Beginning and end -/

/-- Twins give back the same. -/
theorem close_agree (P : Platform σ) (h : s.Twins s') : Agree (s.close P) (s'.close P) Twins := by
  obtain ⟨u, h⟩ := h
  refine (settle_agree P h _ _).bind fun s1 s2 h12 => ?_
  obtain ⟨u, h⟩ := h12
  refine .step fun quota => .step fun r => .step fun _ => .pure ?_
  exact Twins.intro (s := { s1.withQuota r.2 with vcpus := [], store := r.1 }) u h

/-- A session created for another extension has another page table, empty as well, in the same storage. -/
theorem new_agree (P : Platform σ) (virt virt' : Virt) (config : Config) :
    Agree (Session.new P virt config) (Session.new P virt' config) fun r r' =>
      r' = r.map fun s => { s with table := .new virt'.format s.store.phys } := by
  refine .traced _ (fun r r' hr => ?_) (.step fun x => ?_)
  · rw [hr]
    cases r <;> rfl
  · obtain ⟨r, quota⟩ := x
    cases r with
    | error e => exact .pure rfl
    | ok store =>
      refine .step fun r => ?_
      cases r with
      | error e => exact .step fun _ => .pure rfl
      | ok id => exact .pure rfl

end Session

/-! ## Whole runs -/

/-- A request and what happens before it: dataspaces come and go, other identities are taken and given back, calls are
answered differently from now on. -/
structure Turn (σ : Type) where
  meanwhile : World σ → World σ
  request : Request

namespace Session

/-- serves turns one after the other -/
def serve (P : Platform σ) (s : Session) : List (Turn σ) → Run σ (List Reply × Session)
  | [] => return ([], s)
  | turn :: rest => do
    modify turn.meanwhile
    let (reply, s) ← s.perform P turn.request
    let (replies, s) ← s.serve P rest
    return (reply :: replies, s)

/-- with nothing in between, requests are served one after the other -/
theorem serve_id (P : Platform σ) (s : Session) (requests : List Request) :
    s.serve P (requests.map fun request => ⟨id, request⟩) = s.performAll P requests := by
  induction requests generalizing s with
  | nil => rfl
  | cons request rest ih =>
    funext w
    simp only [List.map_cons, serve, performAll, ih]
    rfl

theorem serve_agree (P : Platform σ) (h : s.Twins s') (turns : List (Turn σ)) :
    Agree (s.serve P turns) (s'.serve P turns) AnswerTwins := by
  induction turns generalizing s s' with
  | nil => exact .pure (h.answer _)
  | cons turn rest ih =>
    refine .step fun _ => (perform_agree P h turn.request).bind fun x y hxy => ?_
    obtain ⟨reply, s, h⟩ := hxy
    refine (ih (.intro _ h)).bind fun x y hxy => ?_
    obtain ⟨replies, s, h⟩ := hxy
    exact .pure (.intro _ s h)

/-- Nothing that can be seen of the sessions differs but attributes of translations: regions with their marks, the quota
and all else that is kept beside the page table are the same, and so are the tables in use and where addresses lead. -/
structure LooksLike (s s' : Session) : Prop where
  config : s'.config = s.config
  identity : s'.identity = s.identity
  memory : s'.memory = s.memory
  store : s'.store = s.store
  vcpus : s'.vcpus = s.vcpus
  tablesInUse : s'.table.tablesInUse = s.table.tablesInUse
  lookup : ∀ a, (s'.lookup a).map Translation.place = (s.lookup a).map Translation.place

theorem Twins.looksLike (h : s.Twins s') : s.LooksLike s' := by
  obtain ⟨u, pos, h⟩ := h
  exact ⟨rfl, rfl, rfl, rfl, rfl, h.tablesInUse, fun a => PageTable.lookup_twins ⟨pos, h⟩ a⟩

/-- The same turns, begun in the world `w`, go the same way for both sessions, and so does the end after them. The
journals of the worlds hold all calls with their answers. -/
structure ServesLike (P : Platform σ) (s s' : Session) (w : World σ) (turns : List (Turn σ)) : Prop where
  replies : (s'.serve P turns w).1.1 = (s.serve P turns w).1.1
  world : (s'.serve P turns w).2 = (s.serve P turns w).2
  state : (s.serve P turns w).1.2.LooksLike (s'.serve P turns w).1.2
  closed : ((s'.serve P turns w).1.2.close P (s'.serve P turns w).2).2 =
    ((s.serve P turns w).1.2.close P (s.serve P turns w).2).2

theorem Twins.servesLike (h : s.Twins s') (P : Platform σ) (w : World σ) (turns : List (Turn σ)) :
    s.ServesLike P s' w turns := by
  obtain ⟨hworld, hanswer⟩ := serve_agree P h turns w
  obtain ⟨hclosed, -⟩ := close_agree P hanswer.snd (s.serve P turns w).2
  exact ⟨hanswer.fst, hworld, hanswer.snd.looksLike, by rw [hworld, hclosed]⟩

end Session

/-! ## Main result -/

/-- **The formats are interchangeable.** Sessions created in the same world for two extensions are both refused, for the
same reason, or both created; then whatever turns follow go the same way for both. -/
theorem formats_interchangeable (P : Platform σ) (virt virt' : Virt) (config : Config) (w : World σ)
    (hfits : ∀ s, (Session.new P virt config w).1 = .ok s → StorageFits s.store.phys tableMax) :
    (Session.new P virt' config w).2 = (Session.new P virt config w).2 ∧
    match (Session.new P virt config w).1, (Session.new P virt' config w).1 with
    | .ok s, .ok s' => ∀ turns, s.ServesLike P s' (Session.new P virt config w).2 turns
    | .error e, .error e' => e' = e
    | _, _ => False := by
  obtain ⟨hworld, hnew⟩ := Session.new_agree P virt virt' config w
  refine ⟨hworld, ?_⟩
  rw [hnew]
  cases hs : (Session.new P virt config w).1 with
  | error e => rfl
  | ok s =>
    intro turns
    have htable := (Session.new_eq_ok hs).2
    have htwins := PageTable.twins_withCapacity .guestRam virt.format virt'.format (hfits s hs)
    rw [PageTable.new] at htable
    rw [← htable] at htwins
    exact (Session.Twins.intro _ htwins).servesLike P _ turns

/-- a window is attached, its second page again, and once more when the capability names another dataspace -/
def attachThrice : List (Turn Host) :=
  [⟨id, .attach ⟨0x10⟩ 0x1000 ⟨0, 0, true, false⟩⟩,
    ⟨id, .attach ⟨0x10⟩ 0x2000 ⟨0x1000, 0x1000, true, false⟩⟩,
    ⟨fun w => { w with host := w.host.addDataspace ⟨0x10⟩ 0x4000 0x200000000 false true },
      .attach ⟨0x10⟩ 0x2000 ⟨0x1000, 0x1000, true, false⟩⟩]

/-- `emptySession` with an extended page table -/
def extendedSession : Session := { emptySession with table := .new .ept 0x80000000 }

/-- the world in which both sessions begin -/
def twinWorld : World Host := (Session.new Host.platform .svm .default oneDataspace).2

/-- the attributes differ, and nothing else -/
theorem formats_interchangeable_thrice :
    (∀ s, (Session.new Host.platform .svm .default oneDataspace).1 = .ok s → StorageFits s.store.phys tableMax) ∧
    (Session.new Host.platform .svm .default oneDataspace).1 = .ok emptySession ∧
    (Session.new Host.platform .vmx .default oneDataspace).1 = .ok extendedSession ∧
    emptySession.ServesLike Host.platform extendedSession twinWorld attachThrice ∧
    (emptySession.serve Host.platform attachThrice twinWorld).1.2.lookup 0x2345 =
      some ⟨0x100001345, 0x1000, .guestRam⟩ ∧
    (extendedSession.serve Host.platform attachThrice twinWorld).1.2.lookup 0x2345 =
      some ⟨0x100001345, 0x1000, .union .write .execute⟩ := by
  have hfits : ∀ s, (Session.new Host.platform .svm .default oneDataspace).1 = .ok s →
      StorageFits s.store.phys tableMax := by
    intro s hs
    cases hs
    decide
  have hsame := (formats_interchangeable Host.platform .svm .vmx .default oneDataspace hfits).2
  exact ⟨hfits, rfl, rfl, hsame attachThrice, by decide +kernel, by decide +kernel⟩

end NestedGuest
