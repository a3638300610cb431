/-
RAM that many holders charge to one quota.

`RamHolders.Reaches ram caps turns hs` says that serving `turns`, newest first, leads from a fresh quota to the holders
`hs`. Each turn is served in a world of its own and by an allocator with surroundings of its own behind it, so there are
any number of allocators, any of them may refuse at any time, and their requests are interleaved in any way. What one
turn can do is said once (`RamTurn.Serves`). From it follow a balance for the quota and one for each store: a store
holds its dataspace, or has given it back by one call.

- `ram_conserved`: what is charged is what is held; what is refused changes nothing; a store gives back exactly once.
  Premise: RAM is handed out in the size that was asked for (`Platform.Exact`).
-/
import Mathlib.Data.List.Perm.Basic
import NestedGuest.Proofs.Session.Creation
import NestedGuest.Proofs.Session.Teardown
import NestedGuest.RamHolders

namespace NestedGuest

open Bench (Host)

variable {σ α β : Type} {P : Platform σ} {w : World σ} {q q' : Quota} {host : σ} {pool : RamPool} {size : UInt64}
  {cache : Cache} {ds : RamDataspace} {e : AllocError} {i k : ℕ}

/-! ## One allocation -/

/-- why an allocation is refused -/
inductive Refuses (P : Platform σ) (q : Quota) (host : σ) (pool : RamPool) (size : UInt64) (cache : Cache) :
    AllocError → Prop
  /-- the size cannot be rounded up to whole pages -/
  | unrounded (hpages : alignPageUp size = none) : Refuses P q host pool size cache .outOfRam
  | caps {pages : UInt64} (hpages : alignPageUp size = some pages) (hcaps : q.caps.avail < 1) :
      Refuses P q host pool size cache .outOfCaps
  | ram {pages : UInt64} (hpages : alignPageUp size = some pages) (hcaps : 1 ≤ q.caps.avail)
      (hram : q.ram.avail < pages.toNat) : Refuses P q host pool size cache .outOfRam
  /-- both guards cover it, and what is behind the allocator refuses -/
  | backing {pages : UInt64} {e : AllocError} (hpages : alignPageUp size = some pages) (hcaps : 1 ≤ q.caps.avail)
      (hram : pages.toNat ≤ q.ram.avail) (hanswer : (P.answer (.allocRam pool pages cache) host).1 = .error e) :
      Refuses P q host pool size cache e

/-- the allocation succeeds with `ds`, and `charged` is the quota after it -/
def Grants (P : Platform σ) (q : Quota) (host : σ) (pool : RamPool) (size : UInt64) (cache : Cache) (ds : RamDataspace)
    (charged : Quota) : Prop :=
  ∃ pages, alignPageUp size = some pages ∧ q.withdraw pages.toNat 1 = .ok charged ∧
    (P.answer (.allocRam pool pages cache) host).1 = .ok ds

/-- a withdrawal succeeds exactly if both guards cover it -/
theorem Quota.withdraw_of_avail {ram caps : ℕ} (hcaps : caps ≤ q.caps.avail) (hram : ram ≤ q.ram.avail) :
    q.withdraw ram caps = .ok (q.drawn ram caps) := by
  simp only [withdraw, QuotaGuard.withdraw?, if_pos hcaps, if_pos hram, drawn]

theorem refuses_or_grants (P : Platform σ) (q : Quota) (host : σ) (pool : RamPool) (size : UInt64) (cache : Cache) :
    (∃ e, Refuses P q host pool size cache e) ∨ ∃ ds charged, Grants P q host pool size cache ds charged := by
  cases hpages : alignPageUp size with
  | none => exact Or.inl ⟨_, .unrounded hpages⟩
  | some pages =>
    rcases Nat.lt_or_ge q.caps.avail 1 with hcaps | hcaps
    · exact Or.inl ⟨_, .caps hpages hcaps⟩
    · rcases Nat.lt_or_ge q.ram.avail pages.toNat with hram | hram
      · exact Or.inl ⟨_, .ram hpages hcaps hram⟩
      · cases hanswer : (P.answer (.allocRam pool pages cache) host).1 with
        | error e => exact Or.inl ⟨e, .backing hpages hcaps hram hanswer⟩
        | ok ds => exact Or.inr ⟨ds, _, pages, hpages, Quota.withdraw_of_avail hcaps hram, hanswer⟩

/-- a refused allocation leaves both guards as they were -/
theorem allocRam_of_refuses (h : Refuses P q w.host pool size cache e) :
    (q.allocRam P pool size cache w).1 = (.error e, q) := by
  rw [Quota.allocRam, traced_fst]
  cases h with
  | unrounded hpages => simp only [hpages, pure_apply]
  | caps hpages hcaps =>
    have hw : q.caps.withdraw? 1 = none := if_neg (Nat.not_le.2 hcaps)
    simp only [hpages, Quota.withdraw, hw, pure_apply]
  | ram hpages hcaps hram =>
    have hw : q.ram.withdraw? _ = none := if_neg (Nat.not_le.2 hram)
    have hw' : q.caps.withdraw? 1 = some { q.caps with used := q.caps.used + 1 } := if_pos hcaps
    simp only [hpages, Quota.withdraw, hw', hw, pure_apply]
  | @backing pages _ hpages hcaps hram hanswer =>
    have hw := Quota.withdraw_of_avail hcaps hram
    simp only [hpages, hw, bind_apply, ask, hanswer, pure_apply]
    rw [Quota.replenish_of_withdraw hw]

theorem allocRam_of_grants (h : Grants P q w.host pool size cache ds q') :
    (q.allocRam P pool size cache w).1 = (.ok ds, q') := by
  obtain ⟨pages, hpages, hw, hanswer⟩ := h
  rw [Quota.allocRam, traced_fst]
  simp only [hpages, hw, bind_apply, ask, hanswer, pure_apply]

/-- what a store holds, if the store is still there -/
def heldBy (o : Option RamStore) : Option RamDataspace := o.bind RamStore.ds

/-- the calls that give back what a store holds -/
def gives (o : Option RamStore) : List Call := (o.bind fun s => s.ds.map (Call.freeRam s.pool)).toList

theorem gives_of_empty {o : Option RamStore} (h : heldBy o = none) : gives o = [] := by
  cases o with
  | none => rfl
  | some s =>
    have hs : s.ds = none := h
    simp only [gives, Option.bind_some, hs, Option.map_none, Option.toList_none]

/-- a store is given back by one call, unless it was before -/
theorem release_calls (P : Platform σ) (q : Quota) (s : RamStore) (w : World σ) :
    Calls (s.release P q) w (gives (some s)) := by
  obtain ⟨pool, ds⟩ := s
  cases ds with
  | none => exact .pure _ w
  | some ds => exact ((Calls.ask P _ w).map _).map _

/-! ## One turn -/

/-- the pool, size and caching of a request for RAM -/
def RamRequest.asked? : RamRequest → Option (RamPool × UInt64 × Cache)
  | .alloc pool size cache => some (pool, size, cache)
  | .store pool size => some (pool, size, .cached)
  | _ => none

/-- the request gives back what store `k` still holds -/
def RamRequest.GivesBack (k : ℕ) (r : RamRequest) : Prop := r = .release k ∨ r = .drop k

instance (k : ℕ) (r : RamRequest) : Decidable (r.GivesBack k) := instDecidableOr

theorem RamRequest.GivesBack.unique {r : RamRequest} (hi : r.GivesBack i) (hk : r.GivesBack k) : i = k := by
  rcases hi with rfl | rfl
  · rcases hk with hk | hk <;> cases hk
    rfl
  · rcases hk with hk | hk <;> cases hk
    rfl

/-- what gives back asks for nothing -/
theorem RamRequest.GivesBack.asked?_eq_none {r : RamRequest} (hk : r.GivesBack k) : r.asked? = none := by
  rcases hk with rfl | rfl <;> rfl

/-- a request served for the holders `before`, by an allocator with `backing` behind it -/
structure RamTurn (σ : Type) where
  before : RamHolders
  backing : Platform σ
  world : World σ
  request : RamRequest

namespace RamTurn

def reply (st : RamTurn σ) : RamReply := (st.before.perform st.backing st.request st.world).1.1

def after (st : RamTurn σ) : RamHolders := (st.before.perform st.backing st.request st.world).1.2

/-- the calls that the turn makes -/
def calls (st : RamTurn σ) : List Call :=
  let es := exchanges (st.before.perform st.backing st.request st.world).2.journal
  (es.take (es.length - (exchanges st.world.journal).length)).reverse.map Exchange.call

theorem calls_eq {st : RamTurn σ} {cs : List Call}
    (h : Calls (st.before.perform st.backing st.request) st.world cs) : st.calls = cs := by
  obtain ⟨es, hmakes, rfl⟩ := h
  rw [calls, hmakes.journal]
  simp only [List.length_append, Nat.add_sub_cancel, List.take_left']

/-- What serving a turn can do: its reply, and the holders after it. -/
inductive Serves (st : RamTurn σ) : RamReply → RamHolders → Prop
  | refused {pool : RamPool} {size : UInt64} {cache : Cache} {e : AllocError}
      (hasked : st.request.asked? = some (pool, size, cache))
      (h : Refuses st.backing st.before.quota st.world.host pool size cache e) : Serves st (.refused e) st.before
  | dataspace {pool : RamPool} {size : UInt64} {cache : Cache} {ds : RamDataspace} {charged : Quota}
      (hrequest : st.request = .alloc pool size cache)
      (h : Grants st.backing st.before.quota st.world.host pool size cache ds charged) :
      Serves st (.dataspace ds)
        { st.before with quota := charged, dataspaces := st.before.dataspaces ++ [some (pool, ds)] }
  | store {pool : RamPool} {size : UInt64} {ds : RamDataspace} {charged : Quota}
      (hrequest : st.request = .store pool size)
      (h : Grants st.backing st.before.quota st.world.host pool size .cached ds charged) :
      Serves st (.store ⟨pool, some ds⟩)
        { st.before with quota := charged, stores := st.before.stores ++ [some ⟨pool, some ds⟩] }
  | freed {i : ℕ} {pool : RamPool} {ds : RamDataspace} (hrequest : st.request = .free i)
      (hi : st.before.dataspaces[i]? = some (some (pool, ds))) :
      Serves st .done
        { st.before with
          quota := st.before.quota.replenish ds.size.toNat 1
          dataspaces := st.before.dataspaces.set i none }
  /-- a store gives back what it holds, and stays as an empty one or is forgotten -/
  | givenBack {k : ℕ} {pool : RamPool} {ds : RamDataspace} {left : Option RamStore} {reply : RamReply}
      (hrequest : st.request.GivesBack k) (hk : st.before.stores[k]? = some (some ⟨pool, some ds⟩))
      (hreply : reply = .store ⟨pool, none⟩ ∨ reply = .done) (hleft : heldBy left = none)
      (hcalls : st.calls = [.freeRam pool ds]) :
      Serves st reply
        { st.before with
          quota := st.before.quota.replenish ds.size.toNat 1
          stores := st.before.stores.set k left }
  /-- a store that holds nothing gives nothing back -/
  | empty {k : ℕ} {pool : RamPool} {left : Option RamStore} {reply : RamReply} (hrequest : st.request.GivesBack k)
      (hk : st.before.stores[k]? = some (some ⟨pool, none⟩)) (hreply : reply = .store ⟨pool, none⟩ ∨ reply = .done)
      (hleft : heldBy left = none) (hcalls : st.calls = []) :
      Serves st reply { st.before with stores := st.before.stores.set k left }
  /-- there is nothing of that number -/
  | nothing (hasked : st.request.asked? = none) (hcalls : st.calls = [])
      (hmissing : ∀ k, st.request.GivesBack k → st.before.stores[k]?.join = none) : Serves st .nothing st.before
  | upgraded {ram caps : ℕ} (hrequest : st.request = .upgrade ram caps) :
      Serves st .done { st.before with quota := st.before.quota.upgrade ram caps }

/-- a release and a drop differ in their reply and in what they leave only -/
theorem perform_of_givesBack (P : Platform σ) (h : RamHolders) {r : RamRequest} (hr : r.GivesBack k) :
    ∃ (reply : RamStore → RamReply) (left : RamStore → Option RamStore),
      (∀ s, reply s = .store s ∨ reply s = .done) ∧ (∀ s, s.ds = none → heldBy (left s) = none) ∧
      h.perform P r = match h.stores[k]?.join with
        | none => pure (.nothing, h)
        | some s => do
          let (s, quota) ← s.release P h.quota
          return (reply s, { h with quota, stores := h.stores.set k (left s) }) := by
  rcases hr with rfl | rfl
  · exact ⟨.store, some, fun _ => Or.inl rfl, fun s hs => hs, rfl⟩
  · exact ⟨fun _ => .done, fun _ => none, fun _ => Or.inr rfl, fun _ _ => rfl, rfl⟩

theorem serves_of_givesBack {st : RamTurn σ} (hr : st.request.GivesBack k) : st.Serves st.reply st.after := by
  obtain ⟨h, P, w, request⟩ := st
  obtain ⟨reply', left, hreply, hleft, hrun⟩ := perform_of_givesBack P h hr
  cases hk : h.stores[k]?.join with
  | none =>
    rw [hk] at hrun
    simp only [reply, after, hrun, pure_apply]
    exact .nothing hr.asked?_eq_none (calls_eq (by rw [hrun]; exact .pure _ w)) fun j hj => hr.unique hj ▸ hk
  | some store =>
    rw [hk] at hrun
    obtain ⟨pool, ds?⟩ := store
    have hstore := Option.join_eq_some_iff.1 hk
    have hcalls : calls ⟨h, P, w, request⟩ = gives (some ⟨pool, ds?⟩) :=
      calls_eq (by rw [hrun]; exact (release_calls P h.quota ⟨pool, ds?⟩ w).map _)
    simp only [reply, after, hrun]
    cases ds? with
    | none => exact .empty hr hstore (hreply _) (hleft _ rfl) hcalls
    | some ds => exact .givenBack hr hstore (hreply _) (hleft _ rfl) hcalls

/-- a refused request leaves everything as it was -/
theorem eq_of_refuses (st : RamTurn σ) (hasked : st.request.asked? = some (pool, size, cache))
    (h : Refuses st.backing st.before.quota st.world.host pool size cache e) :
    st.reply = .refused e ∧ st.after = st.before := by
  obtain ⟨before, P, w, request⟩ := st
  have hrun := allocRam_of_refuses h
  cases request with
  | alloc =>
    cases hasked
    simp only [reply, after, RamHolders.perform, bind_apply, hrun, pure_apply, and_self]
  | store =>
    cases hasked
    simp only [reply, after, RamHolders.perform, RamStore.alloc, bind_apply, hrun, pure_apply, Except.map, and_self]
  | free | release | drop | upgrade => cases hasked

theorem serves (st : RamTurn σ) : st.Serves st.reply st.after := by
  obtain ⟨h, P, w, request⟩ := st
  cases request with
  | alloc pool size cache =>
    rcases refuses_or_grants P h.quota w.host pool size cache with ⟨e, hr⟩ | ⟨ds, charged, hg⟩
    · obtain ⟨hreply, hafter⟩ := eq_of_refuses ⟨h, P, w, .alloc pool size cache⟩ rfl hr
      rw [hreply, hafter]
      exact .refused rfl hr
    · have hrun := allocRam_of_grants hg
      simp only [reply, after, RamHolders.perform, bind_apply, hrun, pure_apply]
      exact .dataspace rfl hg
  | store pool size =>
    rcases refuses_or_grants P h.quota w.host pool size .cached with ⟨e, hr⟩ | ⟨ds, charged, hg⟩
    · obtain ⟨hreply, hafter⟩ := eq_of_refuses ⟨h, P, w, .store pool size⟩ rfl hr
      rw [hreply, hafter]
      exact .refused rfl hr
    · have hrun := allocRam_of_grants hg
      simp only [reply, after, RamHolders.perform, RamStore.alloc, bind_apply, hrun, pure_apply]
      exact .store rfl hg
  | free i =>
    cases hi : h.dataspaces[i]?.join with
    | none =>
      have hrun : h.perform P (.free i) = pure (.nothing, h) := by
        simp only [RamHolders.perform, hi]
      rw [reply, after, hrun]
      exact .nothing rfl (calls_eq (by rw [hrun]; exact .pure _ w)) fun k hk => (by rcases hk with hk | hk <;> cases hk)
    | some x =>
      obtain ⟨pool, ds⟩ := x
      simp only [reply, after, RamHolders.perform, hi]
      exact .freed rfl (Option.join_eq_some_iff.1 hi)
  | release k => exact serves_of_givesBack (Or.inl rfl)
  | drop k => exact serves_of_givesBack (Or.inr rfl)
  | upgrade ram caps => exact .upgraded rfl

end RamTurn

/-! ## The balance of the quota -/

namespace RamHolders

/-- what is charged: the dataspaces that were not freed, and those that stores hold -/
def held (h : RamHolders) : List RamDataspace :=
  h.dataspaces.filterMap (Option.map Prod.snd) ++ h.stores.filterMap heldBy

/-- the quota is charged with the sizes of what is held and a capability for each -/
def Charged (h : RamHolders) : Prop := h.quota.Draws (h.held.map fun ds => ds.size.toNat).sum h.held.length

variable {h h' : RamHolders}

theorem Charged.congr (hc : h.Charged) (hq : h'.quota = h.quota) (hheld : h.held.Perm h'.held) : h'.Charged := by
  rw [Charged, (hheld.map _).sum_eq, hheld.length_eq] at hc
  rw [Charged, hq]
  exact hc

theorem Charged.add (hc : h.Charged) (hw : h.quota.withdraw ds.size.toNat 1 = .ok h'.quota)
    (hheld : h'.held.Perm (ds :: h.held)) : h'.Charged := by
  have hdraws := Quota.Draws.withdraw hc hw
  rw [Charged, (hheld.map _).sum_eq, hheld.length_eq, List.map_cons, List.sum_cons, List.length_cons, Nat.add_comm]
  exact hdraws

theorem Charged.remove (hc : h.Charged) (hq : h'.quota = h.quota.replenish ds.size.toNat 1)
    (hheld : h.held.Perm (ds :: h'.held)) : h'.Charged := by
  rw [Charged, (hheld.map _).sum_eq, hheld.length_eq, List.map_cons, List.sum_cons, List.length_cons,
    Nat.add_comm] at hc
  rw [Charged, hq]
  exact hc.replenish

/-- one item of a list replaced -/
theorem filterMap_set_perm {f : α → Option β} {xs : List α} {a b : α} (ha : xs[i]? = some a) :
    ((f b).toList ++ xs.filterMap f).Perm ((f a).toList ++ (xs.set i b).filterMap f) := by
  obtain ⟨hi, rfl⟩ := List.getElem?_eq_some_iff.1 ha
  have hold := (List.getElem_cons_eraseIdx_perm hi).filterMap f
  have hnew := (List.set_perm_cons_eraseIdx hi b).filterMap f
  have hcons : ∀ x, (x :: xs.eraseIdx i).filterMap f = (f x).toList ++ (xs.eraseIdx i).filterMap f := by
    intro x
    cases hx : f x with
    | none => rw [List.filterMap_cons_none hx]; rfl
    | some y => rw [List.filterMap_cons_some hx]; rfl
  rw [hcons] at hold hnew
  calc ((f b).toList ++ xs.filterMap f).Perm ((f b).toList ++ ((f xs[i]).toList ++ (xs.eraseIdx i).filterMap f)) :=
        hold.symm.append_left _
    _ |>.Perm ((f xs[i]).toList ++ ((f b).toList ++ (xs.eraseIdx i).filterMap f)) := List.perm_append_comm_assoc _ _ _
    _ |>.Perm ((f xs[i]).toList ++ (xs.set i b).filterMap f) := hnew.symm.append_left _

end RamHolders

namespace RamTurn

open RamHolders

variable {st : RamTurn σ}

/-- a dataspace that is handed out costs its own size -/
theorem withdraw_of_grants (hP : P.Exact) (h : Grants P q host pool size cache ds q') :
    q.withdraw ds.size.toNat 1 = .ok q' := by
  obtain ⟨pages, -, hw, hanswer⟩ := h
  rw [hP pool pages cache host ds hanswer]
  exact hw

/-- **One turn keeps the balance.** -/
theorem charged_after (hexact : st.backing.Exact) (h : st.before.Charged) : st.after.Charged := by
  have hserves := st.serves
  generalize st.reply = reply, st.after = after at hserves
  cases hserves with
  | refused => exact h
  | dataspace hrequest hg =>
    refine h.add (withdraw_of_grants hexact hg) ?_
    simp only [held, List.filterMap_append, List.append_assoc]
    exact List.perm_middle
  | store hrequest hg =>
    refine h.add (withdraw_of_grants hexact hg) ?_
    simp only [held, List.filterMap_append, ← List.append_assoc]
    exact List.perm_append_singleton _ _
  | freed hrequest hi =>
    refine h.remove rfl ?_
    exact (filterMap_set_perm (f := Option.map Prod.snd) (b := none) hi).append_right _
  | @givenBack k pool ds left _ hrequest hk hreply hleft hcalls =>
    refine h.remove rfl ?_
    have hperm := filterMap_set_perm (f := heldBy) (b := left) hk
    rw [hleft] at hperm
    exact (hperm.append_left _).trans List.perm_middle
  | @empty k pool left _ hrequest hk hreply hleft hcalls =>
    have hperm := filterMap_set_perm (f := heldBy) (b := left) hk
    rw [hleft] at hperm
    exact h.congr rfl (hperm.append_left _)
  | nothing => exact h
  | upgraded => exact h.upgrade _ _

end RamTurn

/-! ## The balance of a store -/

/-- store `k` holds `ds` -/
def RamHolders.Holds (h : RamHolders) (k : ℕ) (pool : RamPool) (ds : RamDataspace) : Prop :=
  h.stores[k]? = some (some ⟨pool, some ds⟩)

/-- store `k` is there, and empty or forgotten -/
def RamHolders.Spent (h : RamHolders) (k : ℕ) : Prop :=
  ∃ left, h.stores[k]? = some left ∧ heldBy left = none

namespace RamTurn

variable {st : RamTurn σ}

/-- other turns leave a store alone -/
theorem stores_after {o : Option RamStore} (h : ¬ st.request.GivesBack k) (hk : st.before.stores[k]? = some o) :
    st.after.stores[k]? = some o := by
  have hserves := st.serves
  have hlt := (List.getElem?_eq_some_iff.1 hk).1
  have hset : ∀ {j left}, st.request.GivesBack j → (st.before.stores.set j left)[k]? = some o := by
    intro j left hj
    rw [List.getElem?_set_ne, hk]
    rintro rfl
    exact h hj
  generalize st.reply = reply, st.after = after at hserves
  cases hserves with
  | refused => exact hk
  | dataspace => exact hk
  | store =>
    rw [List.getElem?_append_left hlt]
    exact hk
  | freed => exact hk
  | givenBack hrequest => exact hset hrequest
  | empty hrequest => exact hset hrequest
  | nothing => exact hk
  | upgraded => exact hk

/-- What a turn that gives back store `k` does, if there is such a store: one call if the store holds something, and
none otherwise; the store is spent after it. -/
theorem spent_after (st : RamTurn σ) (hr : st.request.GivesBack k) {o : Option RamStore}
    (hk : st.before.stores[k]? = some o) : st.calls = gives o ∧ st.after.Spent k := by
  have hserves := st.serves
  have hlt := (List.getElem?_eq_some_iff.1 hk).1
  generalize st.reply = reply, st.after = after at hserves
  cases hserves with
  | refused hasked =>
    rw [hr.asked?_eq_none] at hasked
    cases hasked
  | dataspace hrequest | store hrequest | freed hrequest | upgraded hrequest =>
    rw [hrequest] at hr
    rcases hr with hr | hr <;> cases hr
  | givenBack hrequest hj hreply hleft hcalls =>
    obtain rfl := hrequest.unique hr
    rw [hk] at hj
    cases hj
    exact ⟨hcalls, _, List.getElem?_set_self hlt, hleft⟩
  | empty hrequest hj hreply hleft hcalls =>
    obtain rfl := hrequest.unique hr
    rw [hk] at hj
    cases hj
    exact ⟨hcalls, _, List.getElem?_set_self hlt, hleft⟩
  | nothing hasked hcalls hmissing =>
    have hnone := hmissing k hr
    rw [hk] at hnone
    obtain rfl : o = none := hnone
    exact ⟨hcalls, none, hk, rfl⟩

/-- a new store holds what was handed out -/
theorem holds_after (hreply : st.reply = .store ⟨pool, some ds⟩) : st.after.Holds st.before.stores.length pool ds := by
  have hserves := st.serves
  generalize st.after = after at hserves
  rw [hreply] at hserves
  cases hserves with
  | store => exact List.getElem?_concat_length
  | givenBack _ _ hreply | empty _ _ hreply => rcases hreply with hreply | hreply <;> cases hreply

/-- a request is refused exactly if there is a reason -/
theorem reply_eq_refused_iff : st.reply = .refused e ↔ ∃ pool size cache,
    st.request.asked? = some (pool, size, cache) ∧
      Refuses st.backing st.before.quota st.world.host pool size cache e := by
  constructor
  · intro hreply
    have hserves := st.serves
    generalize st.after = after at hserves
    rw [hreply] at hserves
    cases hserves with
    | refused hasked h => exact ⟨_, _, _, hasked, h⟩
    | givenBack _ _ hreply | empty _ _ hreply => rcases hreply with hreply | hreply <;> cases hreply
  · intro hx
    obtain ⟨pool, size, cache, hasked, h⟩ := hx
    exact (st.eq_of_refuses hasked h).1

end RamTurn

/-! ## Runs -/

namespace RamHolders

variable {ram caps : UInt64} {turns earlier later : List (RamTurn σ)} {h hs : RamHolders} {st : RamTurn σ}

/-- serving `turns`, newest first, leads from a fresh quota of `ram` bytes and `caps` capabilities to the holders -/
inductive Reaches (ram caps : UInt64) : List (RamTurn σ) → RamHolders → Prop
  | new : Reaches ram caps [] (.new (.new ram.toNat caps.toNat))
  | serve {turns : List (RamTurn σ)} {hs : RamHolders} (h : Reaches ram caps turns hs) (P : Platform σ) (w : World σ)
      (request : RamRequest) : Reaches ram caps (⟨hs, P, w, request⟩ :: turns) (RamTurn.after ⟨hs, P, w, request⟩)

theorem Reaches.charged (h : hs.Reaches ram caps turns) (hexact : ∀ st ∈ turns, st.backing.Exact) : hs.Charged := by
  induction h with
  | new => exact Quota.draws_new ram.toNat_lt caps.toNat_lt
  | serve h P w request ih =>
    obtain ⟨hP, hexact⟩ := List.forall_mem_cons.1 hexact
    exact RamTurn.charged_after hP (ih hexact)

/-- the turns that give back store `k` -/
def givingBack (k : ℕ) (turns : List (RamTurn σ)) : List (RamTurn σ) :=
  turns.filter fun st => st.request.GivesBack k

/-- A store that was handed out `ds` holds it if no turn since then gave it back, and otherwise is spent, and all these
turns together made one call. -/
theorem Reaches.store_balance (h : hs.Reaches ram caps (later ++ st :: earlier))
    (hreply : st.reply = .store ⟨pool, some ds⟩) :
    (givingBack st.before.stores.length later = [] ∧ hs.Holds st.before.stores.length pool ds) ∨
      ((givingBack st.before.stores.length later).flatMap RamTurn.calls = [.freeRam pool ds] ∧
        hs.Spent st.before.stores.length) := by
  have hfirst := RamTurn.holds_after hreply
  obtain ⟨k, hk⟩ : ∃ k, st.before.stores.length = k := ⟨_, rfl⟩
  rw [hk] at hfirst ⊢
  induction later generalizing hs with
  | nil =>
    cases h with
    | serve => exact Or.inl ⟨rfl, hfirst⟩
  | cons x later ih =>
    cases h with
    | @serve _ before h P w request =>
      by_cases hr : request.GivesBack k
      · have hturns : givingBack k (⟨before, P, w, request⟩ :: later) = ⟨before, P, w, request⟩ :: givingBack k later :=
          List.filter_cons_of_pos (decide_eq_true hr)
        rw [hturns, List.flatMap_cons]
        rcases ih h with ⟨hnone, hholds⟩ | ⟨hcalls, left, hleft, hempty⟩
        · obtain ⟨hcalls, hspent⟩ := RamTurn.spent_after ⟨before, P, w, request⟩ hr hholds
          rw [hnone, hcalls]
          exact Or.inr ⟨rfl, hspent⟩
        · obtain ⟨hcalls', hspent⟩ := RamTurn.spent_after ⟨before, P, w, request⟩ hr hleft
          rw [hcalls', gives_of_empty hempty]
          exact Or.inr ⟨hcalls, hspent⟩
      · have hturns : givingBack k (⟨before, P, w, request⟩ :: later) = givingBack k later :=
          List.filter_cons_of_neg (by simpa using hr)
        rw [hturns]
        rcases ih h with ⟨hnone, hholds⟩ | ⟨hcalls, left, hleft, hempty⟩
        · exact Or.inl ⟨hnone, RamTurn.stores_after hr hholds⟩
        · exact Or.inr ⟨hcalls, left, RamTurn.stores_after hr hleft, hempty⟩

/-! ## The end -/

/-- releases a store and forgets it -/
def dropOne (P : Platform σ) (q : Quota) : Option RamStore → Run σ Quota
  | none => pure q
  | some s => do
    let (_, q) ← s.release P q
    return q

theorem dropAll_eq (P : Platform σ) (h : RamHolders) : h.dropAll P = do
    let quota ← h.stores.foldlM (dropOne P) h.quota
    return { h with quota, stores := h.stores.map fun _ => none } := rfl

theorem dropOne_gives (P : Platform σ) (q : Quota) (o : Option RamStore) (w : World σ) :
    Calls (dropOne P q o) w (gives o) ∧
      (dropOne P q o w).1 = (heldBy o).elim q fun ds => q.replenish ds.size.toNat 1 := by
  cases o with
  | none => exact ⟨.pure q w, rfl⟩
  | some s =>
    refine ⟨(release_calls P q s w).map _, ?_⟩
    obtain ⟨pool, ds⟩ := s
    cases ds <;> rfl

/-- dropping stores one after the other gives back what they hold, and takes its charge off -/
theorem foldlM_dropOne (P : Platform σ) (os : List (Option RamStore)) {ram caps : ℕ} (w : World σ)
    (hq : q.Draws (ram + ((os.filterMap heldBy).map fun ds => ds.size.toNat).sum)
      (caps + (os.filterMap heldBy).length)) :
    Calls (os.foldlM (dropOne P) q) w (os.flatMap gives) ∧ (os.foldlM (dropOne P) q w).1.Draws ram caps := by
  induction os generalizing q w with
  | nil => exact ⟨.pure q w, hq⟩
  | cons o os ih =>
    obtain ⟨hcalls, hquota⟩ := dropOne_gives P q o w
    rw [List.foldlM_cons, List.flatMap_cons, bind_apply]
    have hrest : (dropOne P q o w).1.Draws
        (ram + ((os.filterMap heldBy).map fun ds => ds.size.toNat).sum)
        (caps + (os.filterMap heldBy).length) := by
      rw [hquota]
      cases hds : heldBy o with
      | none =>
        rw [List.filterMap_cons_none hds] at hq
        exact hq
      | some ds =>
        rw [List.filterMap_cons_some hds, List.map_cons, List.sum_cons, List.length_cons, Nat.add_comm ds.size.toNat,
          ← Nat.add_assoc, ← Nat.add_assoc] at hq
        exact hq.replenish
    obtain ⟨hcalls', hdraws⟩ := ih (dropOne P q o w).2 hrest
    exact ⟨hcalls.bind hcalls', hdraws⟩

/-- dropping all stores leaves the charge of the dataspaces -/
theorem Charged.dropAll (h : hs.Charged) (P : Platform σ) (w : World σ) :
    Calls (hs.dropAll P) w (hs.stores.flatMap gives) ∧ (hs.dropAll P w).1.Charged := by
  rw [Charged, held, List.map_append, List.sum_append, List.length_append] at h
  obtain ⟨hcalls, hdraws⟩ := foldlM_dropOne P hs.stores w h
  rw [dropAll_eq]
  refine ⟨hcalls.map _, ?_⟩
  have hnone : (hs.stores.map fun _ => (none : Option RamStore)).filterMap heldBy = [] := by
    simp [heldBy]
  rw [bind_apply, pure_apply, Charged, held, hnone, List.append_nil]
  exact hdraws

/-! ## Main result -/

/-- What holds of the holders `hs` that the run `turns` leads to. -/
structure Conserved (turns : List (RamTurn σ)) (hs : RamHolders) : Prop where
  /-- exactly the sizes of what is held are drawn, and a capability for each, within the limits -/
  charged : hs.Charged
  /-- these are the reasons to refuse a request, and there is no other -/
  refused_iff : ∀ st ∈ turns, ∀ e, st.reply = .refused e ↔ ∃ pool size cache,
    st.request.asked? = some (pool, size, cache) ∧
      Refuses st.backing st.before.quota st.world.host pool size cache e
  /-- what is refused changes neither guard, and nothing else -/
  unchanged : ∀ st ∈ turns, ∀ e, st.reply = .refused e → st.after = st.before
  /-- a store holds what was handed out to it, or gave it back by one call -/
  once : ∀ later st earlier pool ds, turns = later ++ st :: earlier → st.reply = .store ⟨pool, some ds⟩ →
    (givingBack st.before.stores.length later = [] ∧ hs.Holds st.before.stores.length pool ds) ∨
      ((givingBack st.before.stores.length later).flatMap RamTurn.calls = [.freeRam pool ds] ∧
        hs.Spent st.before.stores.length)
  /-- dropping all stores gives back what they still hold -/
  dropped : ∀ (P : Platform σ) (w : World σ),
    Calls (hs.dropAll P) w (hs.stores.flatMap gives) ∧ (hs.dropAll P w).1.Charged

/-- **RAM that is charged to one quota is conserved.** Whatever dataspaces and stores are allocated, freed, released,
dropped and upgraded, by whatever allocators, in whatever order and with whatever refusals: RAM and capabilities drawn
are the sizes and the number of the dataspaces held and stay within the limits; a request is refused for want of a whole
number of pages, of capabilities, of RAM or by what is behind the allocator, and then changes nothing; and each store
gives its dataspace back exactly once, however often it is released and dropped. -/
theorem ram_conserved (h : hs.Reaches ram caps turns) (hexact : ∀ st ∈ turns, st.backing.Exact) :
    hs.Conserved turns where
  charged := h.charged hexact
  refused_iff _ _ _ := RamTurn.reply_eq_refused_iff
  unchanged st _ e hreply := by
    obtain ⟨pool, size, cache, hasked, hr⟩ := RamTurn.reply_eq_refused_iff.1 hreply
    exact (st.eq_of_refuses hasked hr).2
  once later st earlier pool ds hturns hreply := by
    subst hturns
    exact h.store_balance hreply
  dropped P w := (h.charged hexact).dropAll P w

/-- a turn follows the last one, with a host behind its allocator -/
def serveNext (run : List (RamTurn Host) × RamHolders) (turn : World Host × RamRequest) :
    List (RamTurn Host) × RamHolders :=
  (⟨run.2, Host.platform, turn.1, turn.2⟩ :: run.1, RamTurn.after ⟨run.2, Host.platform, turn.1, turn.2⟩)

/-- any turns may follow -/
theorem Reaches.serveNext (requests : List (World Host × RamRequest)) (run : List (RamTurn Host) × RamHolders)
    (h : run.2.Reaches ram caps run.1) (hexact : ∀ st ∈ run.1, st.backing.Exact) :
    (requests.foldl RamHolders.serveNext run).2.Reaches ram caps (requests.foldl RamHolders.serveNext run).1 ∧
      ∀ st ∈ (requests.foldl RamHolders.serveNext run).1, st.backing.Exact := by
  induction requests generalizing run with
  | nil => exact ⟨h, hexact⟩
  | cons turn requests ih =>
    refine ih _ (.serve h Host.platform turn.1 turn.2) fun st hst => ?_
    rcases List.mem_cons.1 hst with rfl | hst
    · exact Host.platform_exact
    · exact hexact st hst

/-- two hosts that differ in where their RAM lies -/
def twoHosts : World Host × World Host :=
  (⟨.new 0x40000000 0x80000000, .new, []⟩, ⟨.new 0x50000000 0x90000000, .new, []⟩)

/-- with three pages and two capabilities: a store of two pages, an allocation for which RAM is missing, one of the last
page, and one for which capabilities are missing; then the store is released twice and dropped -/
def sharedRun : List (RamTurn Host) × RamHolders :=
  [(twoHosts.1, .store .core 0x1001), (twoHosts.2, .alloc .session 0x2000 .cached),
    (twoHosts.2, .alloc .session 0x1000 .uncached), (twoHosts.1, .alloc .session 1 .cached),
    (twoHosts.1, .release 0), (twoHosts.1, .release 0), (twoHosts.1, .drop 0)].foldl serveNext
    ([], .new (.new 0x3000 2))

theorem ram_conserved_shared :
    sharedRun.2.Reaches 0x3000 2 sharedRun.1 ∧ (∀ st ∈ sharedRun.1, st.backing.Exact) ∧
      sharedRun.2.Conserved sharedRun.1 ∧
      sharedRun.1.reverse.map RamTurn.reply =
        [.store ⟨.core, some ⟨⟨0x1000⟩, 0x2000, 0x80000000⟩⟩, .refused .outOfRam,
          .dataspace ⟨⟨0x1000⟩, 0x1000, 0x50000000⟩, .refused .outOfCaps, .store ⟨.core, none⟩, .store ⟨.core, none⟩,
          .done] ∧
      sharedRun.1.reverse.map RamTurn.calls =
        [[.allocRam .core 0x2000 .cached], [], [.allocRam .session 0x1000 .uncached], [],
          [.freeRam .core ⟨⟨0x1000⟩, 0x2000, 0x80000000⟩], [], []] ∧
      sharedRun.2.held = [⟨⟨0x1000⟩, 0x1000, 0x50000000⟩] := by
  have hnew : (new (.new 0x3000 2)).Reaches (σ := Host) 0x3000 2 [] := .new
  obtain ⟨hreach, hexact⟩ : sharedRun.2.Reaches 0x3000 2 sharedRun.1 ∧ ∀ st ∈ sharedRun.1, st.backing.Exact :=
    Reaches.serveNext _ ([], _) hnew (List.forall_mem_nil _)
  exact ⟨hreach, hexact, ram_conserved hreach hexact, by decide +kernel, by decide +kernel, by decide +kernel⟩

end RamHolders
end NestedGuest
