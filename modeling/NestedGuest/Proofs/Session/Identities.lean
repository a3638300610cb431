/-
The identities of all sessions of one world.

`Fleet.Runs f w` says that `f` are the sessions that were created in the world `w`, each possibly ended since, and that
nobody else takes identities or gives them back. Each request may be served by other surroundings, as the sessions of
several roots are, and anything else may happen between two requests.

- `Fleet.identities_exact`: the identities taken are those of the sessions that live, each has one of its own, a new
  session gets the least that is free, and a session that is refused leaves nothing behind.
-/
import NestedGuest.Proofs.Session.Teardown
import NestedGuest.Session.Fleet

namespace NestedGuest

open Bench (Host)

variable {σ α β : Type} {P : Platform σ} {w w' : World σ} {virt : Virt} {config : Config} {s : Session} {f : Fleet}
  {i : ℕ}

/-! ## Operations that are only traced -/

/-- nothing but tracing happens -/
structure Quiet (act : Run σ α) : Prop where
  host : ∀ w, (act w).2.host = w.host
  makes : ∀ w, Makes act w []

namespace Quiet

variable {act : Run σ α} {g : α → Run σ β}

theorem pure (a : α) : Quiet (Pure.pure a : Run σ α) := ⟨fun _ => rfl, fun w => .pure a w⟩

theorem span (name : String) : Quiet (observe (.span name) : Run σ Unit) :=
  ⟨fun _ => rfl, fun _ => ⟨rfl, rfl, by simp⟩⟩

theorem log (level : Level) (text : String) : Quiet (NestedGuest.log level text : Run σ Unit) :=
  ⟨fun _ => rfl, fun w => .log level text w⟩

theorem bind (h : Quiet act) (hg : ∀ a, Quiet (g a)) : Quiet (act >>= g) where
  host w := by rw [bind_apply, (hg _).host, h.host]
  makes w := (h.makes w).bind ((hg _).makes _)

theorem traced (name : String) (error : α → Option String) (h : Quiet act) :
    Quiet (NestedGuest.traced name error act) where
  host w := by
    simp only [NestedGuest.traced, bind_apply, observe]
    cases error (act { w with journal := .span name :: w.journal }).1 <;> exact h.host _
  makes w := (h.makes _).traced name error

theorem spans (names : List String) : Quiet (names.forM fun name => observe (.span name) : Run σ Unit) := by
  induction names with
  | nil => exact .pure ()
  | cons name names ih => exact (Quiet.span name).bind fun _ => ih

end Quiet

/-- reading a configuration is traced, and has the outcome that reading has -/
theorem Config.ofArgsTraced_quiet (args : String) : Quiet (Config.ofArgsTraced args : Run σ _) :=
  .traced _ _ (.bind (.span _) fun _ => .bind (.spans _) fun _ => .pure _)

theorem Config.ofArgsTraced_fst (args : String) (w : World σ) :
    (Config.ofArgsTraced args w).1 = Config.ofArgs args := by
  rw [Config.ofArgsTraced, traced_fst]
  rfl

/-! ## Creating a session -/

namespace Session

/-- What `act` does to the identities when it creates a session, and that it leaves nothing behind if it is refused. -/
structure Creates (act : Run σ (Except SessionError Session)) (w : World σ) : Prop where
  ok : ∀ s, (act w).1 = .ok s → w.vmids.alloc? = some (s.identity.id, (act w).2.vmids)
  error : ∀ e, (act w).1 = .error e → (act w).2.vmids = w.vmids ∧
    ∃ es, exchanges (act w).2.journal = es ++ exchanges w.journal ∧ Ledger.empty.enterAll es = some .empty

namespace Creates

variable {act : Run σ (Except SessionError Session)}

theorem traced (name : String) (error : Except SessionError Session → Option String)
    (h : Creates act { w with journal := .span name :: w.journal }) : Creates (NestedGuest.traced name error act) w := by
  obtain ⟨hjournal, hvmids⟩ := traced_snd name error act w
  constructor
  · intro s hs
    rw [traced_fst] at hs
    rw [hvmids]
    exact h.ok s hs
  · intro e he
    rw [traced_fst] at he
    rw [hvmids, hjournal]
    exact h.error e he

theorem refuse (e : SessionError) (w : World σ) : Creates (pure (.error e)) w where
  ok s hs := by cases hs
  error e' _ := ⟨rfl, [], rfl, rfl⟩

/-- steps before it that are only traced -/
theorem quiet {act : Run σ α} {g : α → Run σ (Except SessionError Session)} (h : Quiet act)
    (hg : Creates (g (act w).1) (act w).2) : Creates (act >>= g) w := by
  have hmakes := h.makes w
  obtain ⟨hok, herror⟩ := hg
  rw [hmakes.vmids] at hok
  rw [hmakes.vmids, hmakes.journal] at herror
  exact ⟨hok, herror⟩

/-- a session that is created is counted -/
theorem counted (h : Creates act w) (counter : String) : Creates (do
    match ← act with
    | .error e => return .error e
    | .ok s =>
      count counter
      return .ok s) w := by
  obtain ⟨hok, herror⟩ := h
  constructor
  · intro s hs
    rw [bind_apply] at hs ⊢
    generalize act w = o at *
    obtain ⟨r, w'⟩ := o
    cases r with
    | ok s' =>
      cases hs
      exact hok s rfl
    | error e => cases hs
  · intro e he
    rw [bind_apply] at he ⊢
    generalize act w = o at *
    obtain ⟨r, w'⟩ := o
    cases r with
    | ok s' => cases he
    | error e' => exact herror e' rfl

end Creates

theorem new_creates (P : Platform σ) (virt : Virt) (config : Config) (w : World σ) :
    Creates (Session.new P virt config) w := by
  obtain ⟨es, l, hjournal, henter, h⟩ := new_enters P virt config w
  constructor
  · intro s hs
    rw [hs] at h
    exact h.2.2
  · intro e he
    rw [he] at h
    obtain ⟨rfl, hvmids⟩ := h
    exact ⟨hvmids, es, hjournal, henter⟩

theorem createWith_creates (P : Platform σ) (virt : Option Virt) (config : Config) (w : World σ) :
    Creates (createWith P virt config) w := by
  refine .traced _ _ ?_
  cases virt with
  | none => exact .quiet (.log _ _) (.refuse _ _)
  | some v => exact (new_creates P v config _).counted _

theorem create_creates (P : Platform σ) (virt : Option Virt) (args : String) (w : World σ) :
    Creates (create P virt args) w := by
  refine .traced _ _ (.quiet (Config.ofArgsTraced_quiet args) ?_)
  cases (Config.ofArgsTraced args { w with journal := .span "create_session" :: w.journal }).1 with
  | error e => exact .refuse e _
  | ok config => exact createWith_creates P virt config _

/-- core RAM and the quota that `config` donates allow for the storage of a page table -/
def StoreGranted (P : Platform σ) (config : Config) (w : World σ) : Prop :=
  ∃ store, (RamStore.alloc P .core (Quota.new config.ramQuota.toNat config.capQuota.toNat)
    (UInt64.ofNat tableStorageSize) w).1.1 = .ok store

/-- what is allocated depends on the surroundings only -/
theorem alloc_store_congr (pool : RamPool) (q : Quota) (size : UInt64) (h : w'.host = w.host) :
    (RamStore.alloc P pool q size w').1 = (RamStore.alloc P pool q size w).1 := by
  have hram : (q.allocRam P pool size .cached w').1 = (q.allocRam P pool size .cached w).1 := by
    rw [Quota.allocRam, traced_fst, traced_fst]
    cases alignPageUp size with
    | none => rfl
    | some size =>
      cases hcharge : q.withdraw size.toNat 1 with
      | error e => simp only [hcharge, pure_apply]
      | ok charged =>
        simp only [hcharge, bind_apply, ask, h]
        cases (P.answer (.allocRam pool size .cached) w.host).1 <;> rfl
  simp only [RamStore.alloc, bind_apply, pure_apply, hram]

theorem StoreGranted.congr (h : StoreGranted P config w) (hhost : w'.host = w.host) : StoreGranted P config w' := by
  obtain ⟨store, hstore⟩ := h
  exact ⟨store, by rw [alloc_store_congr _ _ _ hhost, hstore]⟩

/-- with storage granted, only identities can run out -/
theorem new_outOfVmIds (virt : Virt) (h : StoreGranted P config w) :
    (Session.new P virt config w).1 = .error .outOfVmIds ↔ w.vmids.alloc? = none := by
  have hstart : StoreGranted P config { w with journal := .span "new" :: w.journal } := h.congr rfl
  obtain ⟨store, hstore⟩ := hstart
  obtain ⟨es, l, hmakes, -, -⟩ := alloc_store_settles P .core (Quota.new config.ramQuota.toNat config.capQuota.toNat)
    (UInt64.ofNat tableStorageSize) .empty { w with journal := .span "new" :: w.journal }
  have hvmids := hmakes.vmids
  rw [Session.new, traced_fst, bind_apply]
  generalize RamStore.alloc P .core _ _ _ = o at hstore hvmids ⊢
  obtain ⟨⟨r, q⟩, w1⟩ := o
  obtain rfl : r = .ok store := hstore
  obtain ⟨-, hid⟩ := allocVmid_world w1
  simp only [bind_apply]
  generalize (allocVmid w1 : _ × World σ) = o at hid ⊢
  obtain ⟨r, w2⟩ := o
  rw [← show w1.vmids = w.vmids from hvmids]
  cases r with
  | ok id =>
    simp only at hid
    simp [pure_apply, hid]
  | error e =>
    obtain ⟨hnone, rfl, -⟩ := hid
    exact iff_of_true rfl hnone

theorem createWith_outOfVmIds (virt : Virt) (h : StoreGranted P config w) :
    (createWith P (some virt) config w).1 = .error .outOfVmIds ↔ w.vmids.alloc? = none := by
  have hstart : StoreGranted P config { w with journal := .span "create_session_with_config" :: w.journal } :=
    h.congr rfl
  rw [createWith, traced_fst, bind_apply, ← new_outOfVmIds virt hstart]
  generalize Session.new P virt config _ = o
  obtain ⟨r, w'⟩ := o
  cases r with
  | ok s => exact iff_of_false (fun h => by cases h) (fun h => by cases h)
  | error e => exact Iff.rfl

theorem create_outOfVmIds {args : String} (hargs : Config.ofArgs args = .ok config) (h : StoreGranted P config w) :
    (create P (some virt) args w).1 = .error .outOfVmIds ↔ w.vmids.alloc? = none := by
  have hquiet : Quiet (Config.ofArgsTraced args : Run σ _) := Config.ofArgsTraced_quiet args
  rw [create, traced_fst, bind_apply, Config.ofArgsTraced_fst, hargs]
  have hmakes := hquiet.makes { w with journal := .span "create_session" :: w.journal }
  have hhost := hquiet.host { w with journal := .span "create_session" :: w.journal }
  have hall := createWith_outOfVmIds virt (h.congr hhost)
  rw [hmakes.vmids] at hall
  exact hall

end Session

/-! ## All sessions -/

namespace Fleet

/-- the identities of the sessions that live -/
def ids (f : Fleet) : List ℕ := f.live.map fun s => s.identity.id

/-- the identities taken are those of the sessions that live -/
structure Holds (f : Fleet) (a : VmidAllocator) : Prop where
  sound : a.Sound
  distinct : f.ids.Nodup
  positive : 0 ∉ f.ids
  taken : ∀ id, a.isAllocated id = true ↔ id = 0 ∨ id ∈ f.ids

variable {a b : VmidAllocator} {before behind : List (Option Session)}

theorem Holds.new : Holds .new .new := by
  refine ⟨VmidAllocator.sound_new, List.nodup_nil, List.not_mem_nil, fun id => ?_⟩
  rw [VmidAllocator.isAllocated_new_iff]
  exact ⟨Or.inl, fun h => h.resolve_right List.not_mem_nil⟩

/-- a live session stands somewhere in the list -/
theorem session?_eq_some (h : f.session? i = some s) : ∃ before behind, f.sessions = before ++ some s :: behind ∧
    ∀ x, f.sessions.set i x = before ++ x :: behind := by
  have hget : f.sessions[i]? = some (some s) := Option.join_eq_some_iff.1 h
  obtain ⟨hlt, hs⟩ := List.getElem?_eq_some_iff.1 hget
  refine ⟨f.sessions.take i, f.sessions.drop (i + 1), ?_, fun x => ?_⟩
  · rw [← hs, List.getElem_cons_drop, List.take_append_drop]
  · rw [List.set_eq_take_append_cons_drop, if_pos hlt]

theorem ids_of_live (before behind : List (Option Session)) (s : Session) :
    (Fleet.mk (before ++ some s :: behind)).ids = (Fleet.mk before).ids ++ s.identity.id :: (Fleet.mk behind).ids := by
  simp [ids, live]

theorem ids_of_ended (before behind : List (Option Session)) :
    (Fleet.mk (before ++ none :: behind)).ids = (Fleet.mk before).ids ++ (Fleet.mk behind).ids := by
  simp [ids, live]

/-- a new session has the least identity that is free -/
theorem Holds.create (h : f.Holds a) (halloc : a.alloc? = some (s.identity.id, b)) :
    Holds ⟨f.sessions ++ [some s]⟩ b ∧ IsLeast {id | 1 ≤ id ∧ id ∉ f.ids} s.identity.id := by
  obtain ⟨hfree, htaken⟩ := VmidAllocator.alloc?_eq_some halloc
  have hids : (Fleet.mk (f.sessions ++ [some s])).ids = f.ids ++ [s.identity.id] := ids_of_live f.sessions [] s
  have hnew : s.identity.id ≠ 0 ∧ s.identity.id ∉ f.ids := by
    rw [← not_or, ← h.taken, hfree]
    exact Bool.false_ne_true
  refine ⟨⟨h.sound.alloc? halloc, ?_, ?_, fun id => ?_⟩, ⟨Nat.one_le_iff_ne_zero.2 hnew.1, hnew.2⟩, fun id hid => ?_⟩
  · rw [hids, ← List.concat_eq_append]
    exact h.distinct.concat hnew.2
  · rw [hids, List.mem_append, List.mem_singleton]
    exact not_or.2 ⟨h.positive, Ne.symm hnew.1⟩
  · rw [htaken, Bool.or_eq_true, h.taken, decide_eq_true_iff, hids, List.mem_append, List.mem_singleton, or_assoc,
      eq_comm (a := id) (b := s.identity.id)]
  · -- a smaller identity is taken, and so not free
    by_contra hlt
    rcases (h.taken id).1 (VmidAllocator.alloc?_least halloc (Nat.lt_of_not_le hlt)) with rfl | hmem
    · exact absurd hid.1 (by decide)
    · exact hid.2 hmem

/-- the identity of a session that ends is free, and no other -/
theorem Holds.close (h : Holds ⟨before ++ some s :: behind⟩ a) :
    Holds ⟨before ++ none :: behind⟩ (a.free s.identity.id).1 := by
  obtain ⟨hsound, hdistinct, hpositive, htaken⟩ := h
  rw [ids_of_live] at hdistinct hpositive
  simp only [ids_of_live, List.mem_append, List.mem_cons] at htaken
  obtain ⟨hfirst, hrest, hcross⟩ := List.nodup_append.1 hdistinct
  obtain ⟨hbehind, hrest⟩ := List.nodup_cons.1 hrest
  refine ⟨hsound.free _, ?_, ?_, fun id => ?_⟩
  · rw [ids_of_ended]
    exact List.nodup_append.2 ⟨hfirst, hrest, fun x hx y hy => hcross x hx y (List.mem_cons_of_mem _ hy)⟩
  · rw [ids_of_ended]
    simp only [List.mem_append, List.mem_cons] at hpositive ⊢
    tauto
  · have hne : s.identity.id ≠ 0 := by
      simp only [List.mem_append, List.mem_cons] at hpositive
      tauto
    have hbefore : s.identity.id ∉ (Fleet.mk before).ids := fun hmem => hcross _ hmem _ List.mem_cons_self rfl
    rw [VmidAllocator.isAllocated_free, ids_of_ended, List.mem_append]
    simp only [Bool.and_eq_true, htaken, decide_eq_false hne, Bool.false_or, Bool.not_eq_true', decide_eq_false_iff_not]
    constructor
    · intro hx
      tauto
    · intro hx
      refine ⟨by tauto, fun heq => ?_⟩
      subst heq
      tauto

theorem Holds.given_eq (h : f.Holds a) : a.given = f.ids.toFinset := by
  ext id
  rw [VmidAllocator.mem_given, h.taken, List.mem_toFinset]
  constructor
  · rintro ⟨hid, hne⟩
    exact hid.resolve_left hne
  · intro hid
    exact ⟨Or.inr hid, fun hzero => h.positive (hzero ▸ hid)⟩

theorem Holds.ids_subset (h : f.Holds a) : f.ids.toFinset ⊆ VmidAllocator.guestIds := by
  rw [← h.given_eq]
  exact h.sound.given_subset

/-- an identity that a live session has is one of 255 -/
theorem Holds.range (h : f.Holds a) {id : ℕ} (hid : id ∈ f.ids) : 1 ≤ id ∧ id ≤ 255 :=
  Finset.mem_Icc.1 (h.ids_subset (List.mem_toFinset.2 hid))

/-- identities run out exactly when 255 sessions live -/
theorem Holds.alloc?_eq_none_iff (h : f.Holds a) : a.alloc? = none ↔ f.live.length = 255 := by
  have hcard : f.ids.toFinset.card = f.live.length := by
    rw [List.toFinset_card_of_nodup h.distinct, ids, List.length_map]
  have hall : VmidAllocator.guestIds.card = 255 := Nat.card_Icc 1 255
  rw [h.sound.alloc?_eq_none_iff_given, h.given_eq, ← hcard]
  constructor
  · intro hfull
    rw [hfull, hall]
  · intro hcount
    exact Finset.eq_of_subset_of_card_le h.ids_subset (hall.trans hcount.symm).le

end Fleet

/-! ## Requests -/

/-- the request to create a session passes everything that comes before the identity -/
inductive FleetRequest.Passes (P : Platform σ) (w : World σ) : FleetRequest → Prop
  | create {virt : Virt} {config : Config} {args : String} (hargs : Config.ofArgs args = .ok config)
      (hstore : Session.StoreGranted P config w) : Passes P w (.create (some virt) args)
  | createWith {virt : Virt} {config : Config} (hstore : Session.StoreGranted P config w) :
      Passes P w (.createWith (some virt) config)

namespace Fleet

/-- What a request to create a session comes to: a session with the least identity that no other has, or a refusal, after
which the fleet and the identities are as before and all that was obtained for it has been given back. -/
structure CreatesLeast (P : Platform σ) (f : Fleet) (w : World σ) (request : FleetRequest) : Prop where
  created : ∀ i, (f.perform P request w).1.1 = .created i → i = f.sessions.length ∧
    ∃ s, (f.perform P request w).1.2 = ⟨f.sessions ++ [some s]⟩ ∧ IsLeast {id | 1 ≤ id ∧ id ∉ f.ids} s.identity.id
  exhausted : request.Passes P w → ((f.perform P request w).1.1 = .refused .outOfVmIds ↔ f.live.length = 255)
  refused : ∀ e, (f.perform P request w).1.1 = .refused e → (f.perform P request w).1.2 = f ∧
    (f.perform P request w).2.vmids = w.vmids ∧
    ∃ es, exchanges (f.perform P request w).2.journal = es ++ exchanges w.journal ∧
      Ledger.empty.enterAll es = some .empty ∧
      ∀ x, es.countP (fun e => e.call.obtained e.answer = some x) = es.countP fun e => e.call.returned = some x

/-- a request that creates a session by `act` -/
theorem Holds.createsLeast {request : FleetRequest} {act : Run σ (Except SessionError Session)} (h : f.Holds w.vmids)
    (hact : f.perform P request w = ((f.join (act w).1), (act w).2)) (hc : Session.Creates act w)
    (hids : request.Passes P w → ((act w).1 = .error .outOfVmIds ↔ w.vmids.alloc? = none)) :
    f.CreatesLeast P w request := by
  rw [h.alloc?_eq_none_iff] at hids
  obtain ⟨hok, herror⟩ := hc
  refine ⟨fun i hi => ?_, fun hpasses => ?_, fun e he => ?_⟩
  · rw [hact] at hi ⊢
    cases hr : (act w).1 with
    | error e =>
      rw [hr] at hi
      cases hi
    | ok s =>
      rw [hr] at hi
      cases hi
      exact ⟨rfl, s, rfl, (h.create (hok s hr)).2⟩
  · rw [hact, ← hids hpasses]
    cases (act w).1 with
    | error e => exact ⟨fun he => congrArg _ (FleetReply.refused.inj he), fun he => congrArg _ (Except.error.inj he)⟩
    | ok s => exact iff_of_false (fun h => by cases h) (fun h => by cases h)
  · rw [hact] at he ⊢
    cases hr : (act w).1 with
    | ok s =>
      rw [hr] at he
      cases he
    | error e' =>
      obtain ⟨hvmids, es, hjournal, henter⟩ := herror e' hr
      exact ⟨rfl, hvmids, es, hjournal, henter, fun x => by simpa using (Ledger.enterAll_count henter x).symm⟩

/-! ### What a request runs -/

theorem perform_create (P : Platform σ) (f : Fleet) (virt : Option Virt) (args : String) (w : World σ) :
    f.perform P (.create virt args) w = (f.join (Session.create P virt args w).1, (Session.create P virt args w).2) := by
  rw [perform, bind_apply, pure_apply]

theorem perform_createWith (P : Platform σ) (f : Fleet) (virt : Option Virt) (config : Config) (w : World σ) :
    f.perform P (.createWith virt config) w =
      (f.join (Session.createWith P virt config w).1, (Session.createWith P virt config w).2) := by
  rw [perform, bind_apply, pure_apply]

theorem perform_serve (P : Platform σ) (hs : f.session? i = some s) (request : Request) (w : World σ) :
    f.perform P (.serve i request) w =
      ((.served (s.perform P request w).1.1, ⟨f.sessions.set i (some (s.perform P request w).1.2)⟩),
        (s.perform P request w).2) := by
  simp only [perform, hs, bind_apply, pure_apply]

theorem perform_close (P : Platform σ) (hs : f.session? i = some s) (w : World σ) :
    f.perform P (.close i) w = ((.closed, ⟨f.sessions.set i none⟩), (s.close P w).2) := by
  simp only [perform, hs, bind_apply, pure_apply]

/-- there is no such session -/
theorem perform_none (P : Platform σ) (hs : f.session? i = none) (w : World σ) :
    (∀ request, f.perform P (.serve i request) w = ((.noSession, f), w)) ∧
      f.perform P (.close i) w = ((.noSession, f), w) := by
  simp only [perform, hs, pure_apply, implies_true, and_self]

/-! ### What it does to the identities -/

/-- a session that is created joins, and one that is refused leaves no trace -/
theorem Holds.join {act : Run σ (Except SessionError Session)} (h : f.Holds w.vmids) (hc : Session.Creates act w) :
    (f.join (act w).1).2.Holds (act w).2.vmids := by
  cases hr : (act w).1 with
  | ok s => exact (h.create (hc.ok s hr)).1
  | error e =>
    rw [(hc.error e hr).1]
    exact h

/-- a session that is served keeps its identity -/
theorem Holds.serve (h : f.Holds w.vmids) (hs : f.session? i = some s) (request : Request) :
    Holds ⟨f.sessions.set i (some (s.perform P request w).1.2)⟩ (s.perform P request w).2.vmids := by
  obtain ⟨before, behind, hsplit, hset⟩ := session?_eq_some hs
  obtain ⟨es, l, hmakes, -, hl⟩ := Session.perform_settles P s request w
  have hids : (Fleet.mk (before ++ some (s.perform P request w).1.2 :: behind)).ids = f.ids := by
    rw [show f = ⟨before ++ some s :: behind⟩ from congrArg Fleet.mk hsplit, ids_of_live, ids_of_live, hl.identity]
  rw [hset, hmakes.vmids]
  exact ⟨h.sound, hids ▸ h.distinct, hids ▸ h.positive, hids ▸ h.taken⟩

/-- a session that ends gives its identity back -/
theorem Holds.closed (h : f.Holds w.vmids) (hs : f.session? i = some s) :
    Holds ⟨f.sessions.set i none⟩ (s.close P w).2.vmids := by
  obtain ⟨before, behind, hsplit, hset⟩ := session?_eq_some hs
  obtain ⟨es, l, hmakes, -, -⟩ := Session.giveBack_settles P s w
  rw [show f = ⟨before ++ some s :: behind⟩ from congrArg Fleet.mk hsplit] at h
  rw [hset, Session.close_snd, (freeVmid_world _ _).2, hmakes.vmids]
  exact h.close

/-- every request keeps the identities taken to those of the sessions that live -/
theorem Holds.perform (h : f.Holds w.vmids) (P : Platform σ) (request : FleetRequest) :
    (f.perform P request w).1.2.Holds (f.perform P request w).2.vmids := by
  cases request with
  | create virt args =>
    rw [perform_create]
    dsimp only
    exact h.join (Session.create_creates P virt args w)
  | createWith virt config =>
    rw [perform_createWith]
    dsimp only
    exact h.join (Session.createWith_creates P virt config w)
  | serve i request =>
    cases hs : f.session? i with
    | none =>
      rw [(perform_none P hs w).1]
      exact h
    | some s =>
      rw [perform_serve P hs]
      exact h.serve hs request
  | close i =>
    cases hs : f.session? i with
    | none =>
      rw [(perform_none P hs w).2]
      exact h
    | some s =>
      rw [perform_close P hs]
      exact h.closed hs

/-- a request that creates no session neither reports one nor is refused -/
theorem createsLeast_of_reply {request : FleetRequest} {reply : FleetReply} {o : Fleet} {w' : World σ}
    (hrun : f.perform P request w = ((reply, o), w')) (hcreated : ∀ i, reply ≠ .created i)
    (hrefused : ∀ e, reply ≠ .refused e) (hpasses : ¬ request.Passes P w) : f.CreatesLeast P w request where
  created i hi := by
    rw [hrun] at hi
    exact absurd hi (hcreated i)
  exhausted h := absurd h hpasses
  refused e he := by
    rw [hrun] at he
    exact absurd he (hrefused e)

theorem Holds.creates (h : f.Holds w.vmids) (P : Platform σ) (request : FleetRequest) : f.CreatesLeast P w request := by
  cases request with
  | create virt args =>
    refine h.createsLeast (perform_create P f virt args w) (Session.create_creates P virt args w) fun hpasses => ?_
    cases hpasses with
    | create hargs hstore => exact Session.create_outOfVmIds hargs hstore
  | createWith virt config =>
    refine h.createsLeast (perform_createWith P f virt config w) (Session.createWith_creates P virt config w)
      fun hpasses => ?_
    cases hpasses with
    | createWith hstore => exact Session.createWith_outOfVmIds _ hstore
  | serve i request =>
    cases hs : f.session? i with
    | none => exact createsLeast_of_reply ((perform_none P hs w).1 request) (by simp) (by simp) fun h => by cases h
    | some s => exact createsLeast_of_reply (perform_serve P hs request w) (by simp) (by simp) fun h => by cases h
  | close i =>
    cases hs : f.session? i with
    | none => exact createsLeast_of_reply (perform_none P hs w).2 (by simp) (by simp) fun h => by cases h
    | some s => exact createsLeast_of_reply (perform_close P hs w) (by simp) (by simp) fun h => by cases h

/-! ## Main result -/

/-- `f` are the sessions that were created in the world `w`, each possibly ended since; nobody else takes identities or
gives them back -/
inductive Runs : Fleet → World σ → Prop
  | start {w : World σ} (h : w.vmids = .new) : Runs .new w
  /-- each request may be served by surroundings of its own -/
  | serve {f : Fleet} {w : World σ} (h : Runs f w) (P : Platform σ) (request : FleetRequest) :
      Runs (f.perform P request w).1.2 (f.perform P request w).2
  /-- the surroundings do as they like -/
  | elapse {f : Fleet} {w w' : World σ} (h : Runs f w) (hids : w'.vmids = w.vmids) : Runs f w'

/-- each live session has an identity of its own, and no other identity is taken -/
structure Identified (f : Fleet) (w : World σ) : Prop where
  distinct : f.ids.Nodup
  range : ∀ id ∈ f.ids, 1 ≤ id ∧ id ≤ 255
  exact : f.ids.Perm w.vmids.allocated

theorem Runs.holds (h : f.Runs w) : f.Holds w.vmids := by
  induction h with
  | start h =>
    rw [h]
    exact .new
  | serve _ P request ih => exact ih.perform P request
  | elapse _ hids ih =>
    rw [hids]
    exact ih

/-- serves requests one after the other -/
def performAll (P : Platform σ) (f : Fleet) (w : World σ) : List FleetRequest → Fleet × World σ
  | [] => (f, w)
  | request :: rest => performAll P (f.perform P request w).1.2 (f.perform P request w).2 rest

theorem Runs.performAll (h : f.Runs w) (P : Platform σ) (requests : List FleetRequest) :
    (f.performAll P w requests).1.Runs (f.performAll P w requests).2 := by
  induction requests generalizing f w with
  | nil => exact h
  | cons request rest ih => exact ih (h.serve P request)

/-- **Identities of live sessions.** Whatever is asked of any number of sessions and however their creation is refused,
the identities of those that live are distinct, lie between 1 and 255 and are all that are taken. A new session has the
least one that no other has, identities run out exactly when 255 sessions live, and a creation that is refused changes
nothing and gives back all that it obtained. -/
theorem identities_exact (h : f.Runs w) :
    f.Identified w ∧ ∀ (P : Platform σ) (request : FleetRequest), f.CreatesLeast P w request := by
  have hholds := h.holds
  refine ⟨⟨hholds.distinct, fun id hid => hholds.range hid, ?_⟩, fun P request => hholds.creates P request⟩
  rw [hholds.sound.allocated_eq]
  refine (List.perm_ext_iff_of_nodup hholds.distinct (Finset.sort_nodup _ _)).2 fun id => ?_
  rw [Finset.mem_sort, hholds.given_eq, List.mem_toFinset]

/-- two sessions of different processors, and a refusal between them; the first one has ended -/
def firstEnded : Fleet × World Host :=
  Fleet.new.performAll Host.platform oneDataspace
    [.createWith (some .svm) .default, .createWith none .default, .createWith (some .vmx) .default, .close 0]

/-- the identity of the session that ended is the next one to be had -/
theorem identities_exact_reused :
    firstEnded.1.Runs firstEnded.2 ∧ firstEnded.1.Identified firstEnded.2 ∧ firstEnded.1.ids = [2] ∧
    ∃ s, (firstEnded.1.perform Host.platform (.createWith (some .svm) .default) firstEnded.2).1.2 =
      ⟨firstEnded.1.sessions ++ [some s]⟩ ∧ s.identity.id = 1 := by
  have hruns : firstEnded.1.Runs firstEnded.2 := (Runs.start rfl).performAll Host.platform _
  have hids : firstEnded.1.ids = [2] := by decide +kernel
  have hreply : (firstEnded.1.perform Host.platform (.createWith (some .svm) .default) firstEnded.2).1.1 =
      .created 2 := rfl
  obtain ⟨hidentified, hcreates⟩ := identities_exact hruns
  obtain ⟨-, s, hs, hleast⟩ := (hcreates Host.platform (.createWith (some .svm) .default)).created 2 hreply
  rw [hids] at hleast
  have hone : s.identity.id = 1 := le_antisymm (hleast.2 ⟨le_rfl, by decide⟩) hleast.1.1
  exact ⟨hruns, hidentified, hids, s, hs, hone⟩

end Fleet
end NestedGuest
