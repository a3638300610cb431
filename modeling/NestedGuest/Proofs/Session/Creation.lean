/-
The creation of a vCPU: all of it or nothing.

Each step of a creation may be refused, by the quota, by the surroundings or for want of a capability. `Trades act w Q`
says that `Q` relates what `act` returns to the resources that it took and gave back, in their order. It follows the
steps of an operation as `Makes` does.

- `Session.createVcpu_trades`: a vCPU joins with all that it needs, or what was taken is given back in reverse order;
- `Session.Reaches.vcpus_le`: there are 16 vCPUs at most in every state reached;
- `vcpu_all_or_nothing`: both outcomes exactly, and when nothing is even asked for.

Premise, for what is given back to the quota: RAM is handed out in the size that was asked for (`Platform.Exact`).
-/
import Mathlib.Tactic
import NestedGuest.Proofs.Session.Accounting
import NestedGuest.Proofs.Session.Journal

namespace NestedGuest

open Bench (Host)

variable {σ α β : Type} {P : Platform σ} {virt : Virt} {config : Config} {steps : List (Served σ)} {s s' : Session}
  {w : World σ}

/-! ## Quota -/

/-- `q` with `ram` bytes and `caps` capabilities more drawn -/
def Quota.drawn (q : Quota) (ram caps : ℕ) : Quota where
  ram := { q.ram with used := q.ram.used + ram }
  caps := { q.caps with used := q.caps.used + caps }

theorem Quota.eq_drawn_of_withdraw {q q' : Quota} {ram caps : ℕ} (h : q.withdraw ram caps = .ok q') :
    q' = q.drawn ram caps := by
  obtain ⟨hram, hcaps⟩ := withdraw_eq_ok h
  obtain ⟨-, hram⟩ := QuotaGuard.withdraw?_eq_some hram
  obtain ⟨-, hcaps⟩ := QuotaGuard.withdraw?_eq_some hcaps
  rw [drawn, ← hram, ← hcaps]

theorem Quota.drawn_drawn (q : Quota) (ram ram' caps caps' : ℕ) :
    (q.drawn ram caps).drawn ram' caps' = q.drawn (ram + ram') (caps + caps') := by
  simp only [drawn, add_assoc]

/-- more RAM than is left cannot be drawn -/
theorem Quota.withdraw_of_avail_lt {q : Quota} {ram : ℕ} (h : q.ram.avail < ram) :
    q.withdraw ram 0 = .error .outOfRam := by
  have hram : q.ram.withdraw? ram = none := if_neg (Nat.not_le.2 h)
  simp only [withdraw, QuotaGuard.withdraw?, Nat.zero_le, if_true] at hram ⊢
  rw [hram]

/-! ## Resources in the order in which they move -/

/-- a resource changes hands -/
inductive Move where
  | takes (x : Resource)
  | returns (x : Resource)
deriving DecidableEq

/-- how a call moves a resource, if it moves one -/
def Exchange.move? (e : Exchange) : Option Move :=
  match e.call.returned with
  | some x => some (.returns x)
  | none => (e.call.obtained e.answer).map .takes

/-- how resources move during the calls `es`, which are newest first; the oldest move is the first -/
def moves (es : List Exchange) : List Move := es.reverse.filterMap Exchange.move?

theorem moves_append (es es' : List Exchange) : moves (es' ++ es) = moves es ++ moves es' := by
  rw [moves, List.reverse_append, List.filterMap_append, moves, moves]

theorem moves_singleton (e : Exchange) : moves [e] = e.move?.toList := by
  rw [moves, List.reverse_singleton, List.filterMap_cons, List.filterMap_nil]
  cases e.move? <;> rfl

/-- all that was taken was given back, what was taken last first -/
def Undone (ms : List Move) : Prop := ∃ xs : List Resource, ms = xs.map .takes ++ xs.reverse.map .returns

/-- in the world `w`, `act` makes calls whose moves `Q` relates to what it returns -/
def Trades (act : Run σ α) (w : World σ) (Q : α → List Move → Prop) : Prop :=
  ∃ es, Makes act w es ∧ Q (act w).1 (moves es)

namespace Trades

variable {act : Run σ α} {f : α → Run σ β} {Q : α → List Move → Prop} {R : β → List Move → Prop}

theorem pure {a : α} (h : Q a []) : Trades (Pure.pure a) w Q := ⟨[], .pure a w, h⟩

theorem bind (h : Trades act w Q) (hf : ∀ a ms w', Q a ms → Trades (f a) w' fun b ms' => R b (ms ++ ms')) :
    Trades (act >>= f) w R := by
  obtain ⟨es, hmakes, hQ⟩ := h
  obtain ⟨es', hmakes', hR⟩ := hf _ _ (act w).2 hQ
  rw [← moves_append] at hR
  exact ⟨es' ++ es, hmakes.bind hmakes', hR⟩

theorem ask (P : Platform σ) (c : Call) (w : World σ) :
    Trades (NestedGuest.ask P c) w fun a ms =>
      a = (P.answer c w.host).1 ∧ ms = (Exchange.move? ⟨c, a, w.vmids⟩).toList :=
  ⟨_, .ask P c w, rfl, moves_singleton _⟩

/-- a step that makes no calls -/
theorem step (h : Makes act w []) (hf : ∀ w', Trades (f (act w).1) w' R) : Trades (act >>= f) w R := by
  obtain ⟨es, hmakes, hR⟩ := hf (act w).2
  refine ⟨es ++ [], h.bind hmakes, ?_⟩
  rw [List.append_nil]
  exact hR

theorem spanned (name : String) (h : Trades act { w with journal := .span name :: w.journal } Q) :
    Trades (NestedGuest.spanned name act) w Q := by
  obtain ⟨es, hmakes, hQ⟩ := h
  exact ⟨es, hmakes.spanned name, hQ⟩

theorem traced (name : String) (error : α → Option String)
    (h : Trades act { w with journal := .span name :: w.journal } Q) :
    Trades (NestedGuest.traced name error act) w Q := by
  obtain ⟨es, hmakes, hQ⟩ := h
  refine ⟨es, hmakes.traced name error, ?_⟩
  rw [traced_fst]
  exact hQ

/-- what else is known of the outcome -/
theorem and {T : α → Prop} (h : Trades act w Q) (hT : Ensures act T) : Trades act w fun a ms => Q a ms ∧ T a := by
  obtain ⟨es, hmakes, hQ⟩ := h
  exact ⟨es, hmakes, hQ, hT w⟩

end Trades

/-! ## RAM -/

theorem allocRam_trades (P : Platform σ) (pool : RamPool) (q : Quota) (size : UInt64) (cache : Cache) (w : World σ) :
    Trades (q.allocRam P pool size cache) w fun r ms =>
      ms = match r.1 with
        | .ok ds => [.takes (.ram pool ds)]
        | .error _ => [] := by
  refine .traced _ _ ?_
  split
  · exact .pure rfl
  split
  · exact .pure rfl
  rename_i size _ _ charged _
  refine (Trades.ask P _ _).bind fun r ms w' h => ?_
  obtain ⟨-, rfl⟩ := h
  cases r with
  | ok ds => exact .pure rfl
  | error e => exact .pure rfl

theorem freeRam_trades (P : Platform σ) (pool : RamPool) (q : Quota) (ds : RamDataspace) (w : World σ) :
    Trades (q.freeRam P pool ds) w fun q' ms =>
      q' = q.replenish ds.size.toNat 1 ∧ ms = [.returns (.ram pool ds)] := by
  refine (Trades.ask P _ _).bind fun _ ms w' h => ?_
  obtain ⟨-, rfl⟩ := h
  exact .pure ⟨rfl, rfl⟩

namespace Session

/-! ## One creation -/

/-- `s'` is `s` with the vCPU `v` at `location`, which took what it needs in the moves `ms` and is charged for two pages
of data and one of state -/
structure Joins (s s' : Session) (v : Vcpu) (location : Affinity) (ms : List Move) : Prop where
  cap : v.cap.isValid = true
  identity : v.identity = s.identity
  location : v.location = location
  kernelObject : v.kernelObject = none
  after : s' = { s.withQuota (s.quota.drawn 12288 1) with vcpus := s.vcpus ++ [v] }
  moves : ms = [.takes (.ram .session v.state), .takes (.place v.stateAddr), .takes (.vcpu v.cap)]

/-- `s'` is `s`, but for what the quota did not get back, and all that was taken in the moves `ms` was given back -/
structure Backs (P : Platform σ) (s s' : Session) (ms : List Move) : Prop where
  after : ∃ q, s' = s.withQuota q ∧ (P.Exact → q = s.quota)
  undone : Undone ms

theorem tryCreateVcpu_trades (P : Platform σ) (s : Session) (thread : ThreadCap) (w : World σ) :
    Trades (s.tryCreateVcpu P thread) w fun r ms => match r.1 with
      | .ok cap => s.vcpus.length < 16 ∧
          ∃ v, v.cap = cap ∧ Joins s r.2 v ((P.answer (.threadAffinity thread) w.host).1.getD {}) ms
      | .error _ => Backs P s r.2 ms := by
  have hnothing : Undone [] := ⟨[], rfl⟩
  unfold tryCreateVcpu
  split_ifs with hfull
  · exact .pure ⟨⟨_, rfl, fun _ => rfl⟩, hnothing⟩
  split
  · exact .pure ⟨⟨_, rfl, fun _ => rfl⟩, hnothing⟩
  rename_i charged hdata
  refine (Trades.ask P _ w).bind fun found ms w1 h => ?_
  obtain ⟨rfl, rfl⟩ := h
  refine ((allocRam_trades P .session charged _ .uncached w1).and
    (allocRam_charges P alignPageUp_vcpuStateSize charged .session .uncached)).bind fun r ms w2 h => ?_
  obtain ⟨o, q⟩ := r
  obtain ⟨rfl, hcharged⟩ := h
  cases o with
  | error e =>
    obtain rfl : q = charged := hcharged
    exact .pure ⟨⟨_, rfl, fun _ => Quota.replenish_of_withdraw hdata⟩, hnothing⟩
  | ok state =>
    obtain ⟨hstate, hsize⟩ := hcharged
    -- from here on a refusal gives the state back, and both charges with it
    have hundo : P.Exact → (q.replenish state.size.toNat 1).replenish vcpuDataSize 0 = s.quota := by
      intro hP
      rw [hsize hP, Quota.replenish_of_withdraw hstate, Quota.replenish_of_withdraw hdata]
    refine (Trades.ask P _ w2).bind fun r ms w3 h => ?_
    obtain ⟨-, rfl⟩ := h
    cases r with
    | error e =>
      refine (freeRam_trades P .session q state w3).bind fun q' ms w4 h => ?_
      obtain ⟨rfl, rfl⟩ := h
      exact .pure ⟨⟨_, rfl, hundo⟩, [.ram .session state], rfl⟩
    | ok addr =>
      refine (Trades.ask P _ w3).bind fun cap ms w4 h => ?_
      obtain ⟨-, rfl⟩ := h
      cases hvalid : cap.isValid with
      | true =>
        have hdrawn : q = s.quota.drawn 12288 1 := by
          rw [Quota.eq_drawn_of_withdraw hstate, Quota.eq_drawn_of_withdraw hdata, Quota.drawn_drawn]
          rfl
        simp only [if_true]
        refine .pure ⟨Nat.not_le.1 hfull, ⟨s.identity, cap, state, addr, _, none⟩, rfl, hvalid, rfl, rfl, rfl, ?_, ?_⟩
        · rw [hdrawn]
          rfl
        · simp [Exchange.move?, Call.returned, Call.obtained, hvalid]
      | false =>
        simp only [Bool.false_eq_true, if_false]
        refine (Trades.ask P _ w4).bind fun _ ms w5 h => ?_
        obtain ⟨-, rfl⟩ := h
        refine (freeRam_trades P .session q state w5).bind fun q' ms w6 h => ?_
        obtain ⟨rfl, rfl⟩ := h
        refine .pure ⟨⟨_, rfl, hundo⟩, [.ram .session state, .place addr], ?_⟩
        simp [Exchange.move?, Call.returned, Call.obtained, hvalid]

theorem createVcpu_trades (P : Platform σ) (s : Session) (thread : ThreadCap) (w : World σ) :
    Trades (s.createVcpu P thread) w fun r ms =>
      (s.vcpus.length < 16 ∧
        ∃ v, v.cap = r.1 ∧ Joins s r.2 v ((P.answer (.threadAffinity thread) w.host).1.getD {}) ms) ∨
      r.1 = .invalid ∧ Backs P s r.2 ms := by
  refine .spanned _ ((tryCreateVcpu_trades P s thread _).bind fun r ms w' h => ?_)
  obtain ⟨o, s'⟩ := r
  cases o with
  | ok cap =>
    refine .step (.count _ w') fun _ => .pure (Or.inl ?_)
    rw [List.append_nil]
    exact h
  | error e =>
    refine .step (.log _ _ w') fun _ => .pure (Or.inr ⟨rfl, ?_⟩)
    rw [List.append_nil]
    exact h

/-- without room for a vCPU more nothing is asked for -/
theorem createVcpu_of_full (P : Platform σ) (thread : ThreadCap) (w : World σ)
    (h : 16 ≤ s.vcpus.length ∨ s.quota.ram.avail < 8192) :
    Makes (s.createVcpu P thread) w [] ∧ (s.createVcpu P thread w).1 = (.invalid, s) := by
  have hrefused : ∃ e, s.tryCreateVcpu P thread = pure (.error e, s) := by
    unfold tryCreateVcpu
    split_ifs with hfull
    · exact ⟨_, rfl⟩
    · have hdata : s.quota.withdraw vcpuDataSize 0 = .error .outOfRam :=
        Quota.withdraw_of_avail_lt (h.resolve_left hfull)
      rw [hdata]
      exact ⟨_, rfl⟩
  obtain ⟨e, he⟩ := hrefused
  simp only [createVcpu, he, pure_bind]
  exact ⟨.spanned _ ⟨rfl, rfl, by simp⟩, rfl⟩

/-- a vCPU that joined is the one that its capability names, if no other has it -/
theorem Joins.vcpu? {v : Vcpu} {location : Affinity} {ms : List Move} (h : Joins s s' v location ms)
    (hfresh : ∀ x ∈ s.vcpus, x.cap ≠ v.cap) : s'.vcpu? v.cap = some v := by
  have hnone : s.vcpus.find? (fun x => x.cap == v.cap) = none := by simpa using hfresh
  rw [h.after, Session.vcpu?, List.find?_append, hnone]
  simp

/-! ## The limit -/

theorem settle_vcpus (P : Platform σ) (s : Session) (memory : GuestMemory) (fs : List Flush) :
    Ensures (s.settle P memory fs) fun s' => s'.vcpus = s.vcpus := by
  intro w
  rw [settle_fst]

theorem detach_vcpus (P : Platform σ) (s : Session) (guest size : UInt64) :
    Ensures (s.detach P guest size) fun s' => s'.vcpus = s.vcpus := by
  refine .spanned _ (.spanned _ ?_)
  split
  · exact .step fun _ => .pure rfl
  · exact settle_vcpus P s _ _

theorem exceptionHandler_vcpus_length (P : Platform σ) (s : Session) (cap : VcpuCap) (signal : SignalCap) :
    Ensures (s.exceptionHandler P cap signal) fun r => r.2.vcpus.length = s.vcpus.length := by
  intro w
  rcases exceptionHandler_cases P s cap signal w with hafter | ⟨before, v, behind, k, hvs, hafter⟩
  · rw [hafter]
  · rw [hafter, hvs, List.length_append, List.length_append, List.length_cons, List.length_cons]

theorem upgrade_vcpus (s : Session) (args : String) :
    Ensures (s.upgrade args : Run σ _) fun r => r.2.vcpus = s.vcpus := by
  intro w
  rcases upgrade_cases s args w with hafter | ⟨ram, caps, hafter⟩
  · rw [hafter]
  · rw [hafter]
    rfl

/-- a creation below the limit adds one vCPU at most -/
theorem createVcpu_vcpus_length (P : Platform σ) (s : Session) (thread : ThreadCap) :
    Ensures (s.createVcpu P thread) fun r => r.2.vcpus.length = s.vcpus.length ∨
      s.vcpus.length < 16 ∧ r.2.vcpus.length = s.vcpus.length + 1 := by
  intro w
  obtain ⟨es, -, h⟩ := createVcpu_trades P s thread w
  rcases h with ⟨hroom, v, -, hjoins⟩ | ⟨-, ⟨q, hafter, -⟩, -⟩
  · rw [hjoins.after, List.length_append, List.length_singleton]
    exact Or.inr ⟨hroom, rfl⟩
  · rw [hafter]
    exact Or.inl rfl

end Session

theorem Served.Maps.vcpus {st : Served σ} (h : st.Maps P s) : s.vcpus = st.before.vcpus := by
  cases h <;> rfl

/-- a request leaves as many vCPUs as there were, or one more below the limit -/
theorem Served.vcpus_length (P : Platform σ) (st : Served σ) (hs : st.before.memory.Sound) :
    (st.after P).vcpus.length = st.before.vcpus.length ∨
      st.before.vcpus.length < 16 ∧ (st.after P).vcpus.length = st.before.vcpus.length + 1 := by
  obtain ⟨s, w, request⟩ := st
  have hsame {s' : Session} (h : s'.vcpus = s.vcpus) : s'.vcpus.length = s.vcpus.length ∨
      s.vcpus.length < 16 ∧ s'.vcpus.length = s.vcpus.length + 1 := Or.inl (congrArg List.length h)
  cases request with
  | attach cap guest attr =>
    obtain ⟨s1, hmaps, hafter⟩ := Served.attach_maps P hs rfl
    rcases hafter with hafter | ⟨w1, hafter⟩
    · rw [hafter]
      exact hsame hmaps.vcpus
    · rw [hafter]
      exact hsame ((Session.settle_vcpus P s1 _ _ w1).trans hmaps.vcpus)
  | detach guest size => exact hsame (Session.detach_vcpus P s guest size w)
  | detachAt a => exact hsame (Session.settle_vcpus P s _ _ _)
  | flush a => exact hsame (Session.settle_vcpus P s _ _ _)
  | unmapRegion a size => exact hsame rfl
  | attachPic a => exact hsame rfl
  | createVcpu thread => exact Session.createVcpu_vcpus_length P s thread w
  | exceptionHandler cap signal =>
    rw [after_exceptionHandler]
    exact Or.inl (Session.exceptionHandler_vcpus_length P s cap signal w)
  | raise ram caps => exact hsame rfl
  | upgrade args => exact hsame (Session.upgrade_vcpus s args w)

theorem Session.Reaches.vcpus_le (h : s.Reaches P virt config steps) : s.vcpus.length ≤ 16 := by
  induction h with
  | new h =>
    obtain ⟨identity, quota, store, rfl⟩ := exists_of_new h
    exact Nat.zero_le 16
  | serve h w request ih =>
    rcases Served.vcpus_length P ⟨_, w, request⟩ h.memory_sound with hsame | ⟨hroom, hmore⟩
    · rw [hsame]
      exact ih
    · rw [hmore]
      exact hroom

/-! ## Main result -/

/-- **A vCPU is created as a whole or not at all.** There are 16 vCPUs at most in every state reached. Whatever is
answered to the calls of a creation, the vCPU joins with all that it needs and is charged for, or the session stays as
it was and all that was taken is given back, what was taken last first. Without room or quota nothing is even asked
for. -/
theorem vcpu_all_or_nothing (hP : P.Exact) (h : s.Reaches P virt config steps) (thread : ThreadCap) (w : World σ) :
    s.vcpus.length ≤ 16 ∧ ∃ es cap s',
      Makes (s.createVcpu P thread) w es ∧ (s.createVcpu P thread w).1 = (cap, s') ∧
      ((∃ v, v.cap = cap ∧ s.Joins s' v ((P.answer (.threadAffinity thread) w.host).1.getD {}) (moves es) ∧
          ((∀ x ∈ s.vcpus, x.cap ≠ cap) → s'.vcpu? cap = some v)) ∨
        cap = .invalid ∧ s' = s ∧ Undone (moves es)) ∧
      (16 ≤ s.vcpus.length ∨ s.quota.ram.avail < 8192 → cap = .invalid ∧ s' = s ∧ es = []) := by
  obtain ⟨es, hmakes, houtcome⟩ := Session.createVcpu_trades P s thread w
  refine ⟨h.vcpus_le, es, _, _, hmakes, rfl, ?_, fun hfull => ?_⟩
  · rcases houtcome with ⟨-, v, hcap, hjoins⟩ | ⟨hinvalid, ⟨q, hafter, hq⟩, hundone⟩
    · refine Or.inl ⟨v, hcap, hjoins, ?_⟩
      rw [← hcap]
      exact hjoins.vcpu?
    · rw [hq hP] at hafter
      exact Or.inr ⟨hinvalid, hafter, hundone⟩
  · obtain ⟨hidle, hrefused⟩ := Session.createVcpu_of_full P thread w hfull
    exact ⟨congrArg Prod.fst hrefused, congrArg Prod.snd hrefused, hmakes.unique hidle⟩

/-- the host of `oneDataspace`, without a place for the state of a vCPU -/
def noPlace : World Host :=
  { oneDataspace with host := { oneDataspace.host with localRefusal := some .regionConflict } }

theorem vcpu_all_or_nothing_noPlace :
    Host.platform.Exact ∧ emptySession.Reaches Host.platform .svm .default [] ∧
    (∃ v, (emptySession.createVcpu Host.platform ⟨0x20⟩ oneDataspace).1.2.vcpu? ⟨0x1001⟩ = some v ∧ v.location = {}) ∧
    (emptySession.createVcpu Host.platform ⟨0x20⟩ noPlace).1 = (.invalid, emptySession) ∧
    ∃ es, Makes (emptySession.createVcpu Host.platform ⟨0x20⟩) noPlace es ∧
      moves es = [.takes (.ram .session ⟨⟨0x1000⟩, 0x1000, 0x40000000⟩),
        .returns (.ram .session ⟨⟨0x1000⟩, 0x1000, 0x40000000⟩)] := by
  refine ⟨Host.platform_exact, reaches_emptySession, ?_, ?_⟩
  · obtain ⟨-, es, cap, s', -, hrun, houtcome, -⟩ :=
      vcpu_all_or_nothing Host.platform_exact reaches_emptySession ⟨0x20⟩ oneDataspace
    have hcap : (emptySession.createVcpu Host.platform ⟨0x20⟩ oneDataspace).1.1 = ⟨0x1001⟩ := by decide +kernel
    rw [hrun] at hcap ⊢
    obtain rfl : cap = ⟨0x1001⟩ := hcap
    rcases houtcome with ⟨v, -, hjoins, hnamed⟩ | ⟨hinvalid, -⟩
    · exact ⟨v, hnamed (by simp [emptySession]), hjoins.location⟩
    · exact absurd hinvalid (by decide)
  · obtain ⟨-, es, cap, s', hmakes, hrun, houtcome, -⟩ :=
      vcpu_all_or_nothing Host.platform_exact reaches_emptySession ⟨0x20⟩ noPlace
    have hcap : (emptySession.createVcpu Host.platform ⟨0x20⟩ noPlace).1.1 = .invalid := by decide +kernel
    have hes : es = exchanges (emptySession.createVcpu Host.platform ⟨0x20⟩ noPlace).2.journal := by
      simpa [noPlace, oneDataspace, exchanges] using hmakes.journal.symm
    rw [hrun] at hcap ⊢
    obtain rfl : cap = .invalid := hcap
    rcases houtcome with ⟨v, hv, hjoins, -⟩ | ⟨-, rfl, -⟩
    · have hvalid := hjoins.cap
      rw [hv] at hvalid
      exact absurd hvalid (by decide)
    · refine ⟨rfl, es, hmakes, ?_⟩
      rw [hes]
      decide +kernel

end NestedGuest
