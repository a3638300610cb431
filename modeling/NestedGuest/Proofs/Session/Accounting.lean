/-
The books of a session: what its quota was drawn for.

Everything drawn is the storage of the page table, the metadata that the regions need, and what each vCPU costs
(`Session.Accounted`). Each request keeps the books (`Session.Follows`), whatever step of it is refused, and closing the
session returns all that is left.

- `Session.Reaches.metered`: there are as many blocks of metadata as the regions need, in every state reached;
- `quota_accounted`: the amounts drawn in every state reached, and after the session was closed.

Premise of the amounts, not of the number of blocks: RAM is handed out in the size that was asked for
(`Platform.Exact`).
-/
import NestedGuest.Proofs.Memory.Metadata
import NestedGuest.Proofs.Session.Translations

namespace NestedGuest

open Bench (Host)
open GuestMemory (Bills)

variable {σ : Type} {P : Platform σ} {virt : Virt} {config : Config} {steps : List (Served σ)} {s s' : Session}
  {w : World σ}

namespace Session

/-- beside the metadata of its regions, the session has drawn what its page table and its vCPUs cost -/
structure Accounted (s : Session) : Prop where
  charged : s.memory.Charged (tableStorageSize + s.vcpus.length * (vcpuDataSize + vcpuStateSize)) (1 + s.vcpus.length)
  store : ∃ ds, s.store.ds = some ds ∧ ds.size.toNat = tableStorageSize
  states : ∀ v ∈ s.vcpus, v.state.size.toNat = vcpuStateSize

/-- the books of `s'` are kept if those of `s` were -/
structure Follows (P : Platform σ) (s s' : Session) : Prop where
  metered : s.memory.Metered → s'.memory.Metered
  accounted : P.Exact → s.Accounted → s'.Accounted

theorem Follows.refl (s : Session) : Follows P s s := ⟨fun h => h, fun _ h => h⟩

/-- guest memory charges for its own metadata -/
theorem Follows.of_bills (h : Bills s.memory s'.memory) (hvcpus : s'.vcpus = s.vcpus) (hstore : s'.store = s.store) :
    Follows P s s' where
  metered := h.metered
  accounted _ ha := by
    have hcharged := h.charged _ _ ha.charged
    refine ⟨?_, ?_, ?_⟩
    · rw [hvcpus]
      exact hcharged
    · rw [hstore]
      exact ha.store
    · rw [hvcpus]
      exact ha.states

theorem Follows.trans {s'' : Session} (h1 : Follows P s s') (h2 : Follows P s' s'') : Follows P s s'' :=
  ⟨fun h => h2.metered (h1.metered h), fun hP h => h2.accounted hP (h1.accounted hP h)⟩

/-! ## Memory -/

theorem settle_follows {memory : GuestMemory} (h : Bills s.memory memory) (fs : List Flush) :
    Ensures (s.settle P memory fs) fun s' => Follows P s s' := by
  intro w
  rw [settle_fst]
  exact .of_bills h rfl rfl

theorem removeRegionAt_follows (hs : s.memory.Sound) (a : UInt64) :
    Ensures (s.removeRegionAt P a) fun s' => Follows P s s' :=
  settle_follows (GuestMemory.detachAt_bills hs a) _

theorem detach_follows (hs : s.memory.Sound) (guest size : UInt64) :
    Ensures (s.detach P guest size) fun s' => Follows P s s' := by
  refine .spanned _ (.spanned _ ?_)
  cases hd : s.memory.detach? guest size with
  | none => exact .step fun _ => .pure (.refl s)
  | some x => exact settle_follows (GuestMemory.detach?_bills hs hd) _

theorem attachWindow_follows (hs : s.memory.Sound) (ds : Dataspace) (guest : UInt64) (attr : AttachAttr) :
    Ensures (s.attachWindow P ds guest attr) fun r => Follows P s r.2 ∧ r.2.memory.Sound := by
  intro w
  cases hplace : s.memory.place ds guest attr with
  | error e =>
    rw [attachWindow_of_error hplace]
    exact ⟨.refl s, hs⟩
  | ok placement =>
    cases placement with
    | again mapping =>
      rw [attachWindow_of_again hplace]
      exact ⟨.of_bills (.refl _) rfl rfl, hs⟩
    | fresh memory region mapping =>
      rw [attachWindow_of_fresh hplace]
      exact ⟨.of_bills (GuestMemory.place_bills hplace) rfl rfl, (GuestMemory.place_eq_fresh hs hplace).2.sound hs⟩

theorem attachDataspace_follows (hs : s.memory.Sound) (ds : Dataspace) (guest : UInt64) (attr : AttachAttr) :
    Ensures (s.attachDataspace P ds guest attr) fun r => Follows P s r.2 := by
  refine (attachWindow_follows hs ds guest attr).bind fun r hr => ?_
  obtain ⟨o, s1⟩ := r
  obtain ⟨hfollows, hsound⟩ := hr
  cases o with
  | ok u => exact .pure hfollows
  | error e =>
    simp only
    split_ifs
    · exact (removeRegionAt_follows hsound guest).bind fun s2 hs2 => .pure (hfollows.trans hs2)
    · exact .pure hfollows

theorem attach_follows (hs : s.memory.Sound) (cap : DataspaceCap) (guest : UInt64) (attr : AttachAttr) :
    Ensures (s.attach P cap guest attr) fun r => Follows P s r.2 := by
  intro w
  cases hds : (P.answer (.lookupDataspace cap) w.host).1 with
  | none =>
    rw [attach_of_none hds]
    exact .refl s
  | some ds =>
    obtain ⟨w', hw'⟩ := attach_of_some s guest attr hds
    rw [hw']
    exact attachDataspace_follows hs ds guest attr w'

/-! ## Processors -/

theorem alignPageUp_vcpuStateSize : alignPageUp (UInt64.ofNat vcpuStateSize) = some (UInt64.ofNat vcpuStateSize) := by
  decide

/-- a change of the quota leaves the metadata as it is -/
theorem follows_withQuota {q : Quota} (h : P.Exact → s.Accounted → (s.withQuota q).Accounted) :
    Follows P s (s.withQuota q) := ⟨fun hm => hm, h⟩

/-- a vCPU more is charged for its data and its state -/
theorem Accounted.addVcpu (ha : s.Accounted) {charged q : Quota} {v : Vcpu}
    (hdata : s.quota.withdraw vcpuDataSize 0 = .ok charged)
    (hstate : charged.withdraw (UInt64.ofNat vcpuStateSize).toNat 1 = .ok q)
    (hv : v.state.size = UInt64.ofNat vcpuStateSize) :
    ({ s.withQuota q with vcpus := s.vcpus ++ [v] } : Session).Accounted := by
  have hnat : (UInt64.ofNat vcpuStateSize).toNat = vcpuStateSize := by decide
  rw [hnat] at hstate
  refine ⟨?_, ha.store, fun x hx => ?_⟩
  · have hdraws := Quota.Draws.withdraw (Quota.Draws.withdraw ha.charged hdata) hstate
    unfold GuestMemory.Charged
    simp only [List.length_append, List.length_singleton, add_mul, one_mul, withQuota] at *
    convert hdraws using 1
    · ring
    · ring
  · rcases List.mem_append.1 hx with hx | hx
    · exact ha.states x hx
    · obtain rfl := List.mem_singleton.1 hx
      rw [hv, hnat]

/-- a vCPU that is refused at any step is charged for nothing -/
theorem tryCreateVcpu_follows (P : Platform σ) (s : Session) (thread : ThreadCap) :
    Ensures (s.tryCreateVcpu P thread) fun r => Follows P s r.2 := by
  unfold tryCreateVcpu
  split_ifs
  · exact .pure (.refl s)
  split
  · exact .pure (.refl s)
  rename_i charged hdata
  refine .step fun location => ?_
  refine (allocRam_charges P alignPageUp_vcpuStateSize charged .session .uncached).bind fun r hr => ?_
  obtain ⟨o, q⟩ := r
  cases o with
  | error e =>
    obtain rfl : q = charged := hr
    refine .pure (follows_withQuota fun _ ha => ?_)
    rw [Quota.replenish_of_withdraw hdata]
    exact ha
  | ok state =>
    obtain ⟨hstate, hsize⟩ := hr
    have hundo : P.Exact → (q.replenish state.size.toNat 1).replenish vcpuDataSize 0 = s.quota := by
      intro hP
      rw [hsize hP, Quota.replenish_of_withdraw hstate, Quota.replenish_of_withdraw hdata]
    have hrefund : ∀ q' : Quota, q' = q.replenish state.size.toNat 1 →
        Follows P s (s.withQuota (q'.replenish vcpuDataSize 0)) := by
      intro q' hq'
      refine follows_withQuota fun hP ha => ?_
      rw [hq', hundo hP]
      exact ha
    refine .step fun addr => ?_
    split
    · exact (freeRam_charges P q .session state).bind fun q' hq' => .pure (hrefund q' hq')
    refine .step fun cap => ?_
    split_ifs
    · exact .pure ⟨fun hm => hm, fun hP ha => ha.addVcpu hdata hstate (hsize hP)⟩
    · exact .step fun _ => (freeRam_charges P q .session state).bind fun q' hq' => .pure (hrefund q' hq')

theorem createVcpu_follows (P : Platform σ) (s : Session) (thread : ThreadCap) :
    Ensures (s.createVcpu P thread) fun r => Follows P s r.2 := by
  refine .spanned _ ((tryCreateVcpu_follows P s thread).bind fun r hr => ?_)
  obtain ⟨o, s'⟩ := r
  cases o with
  | ok cap => exact .step fun _ => .pure hr
  | error e => exact .step fun _ => .pure hr

theorem exceptionHandler_follows (P : Platform σ) (s : Session) (cap : VcpuCap) (signal : SignalCap) :
    Ensures (s.exceptionHandler P cap signal) fun r => Follows P s r.2 := by
  intro w
  rcases exceptionHandler_cases P s cap signal w with hafter | ⟨before, v, behind, k, hvs, hafter⟩
  · rw [hafter]
    exact .refl s
  · rw [hafter]
    refine ⟨fun hm => hm, fun _ ha => ⟨?_, ha.store, ?_⟩⟩
    · have hcharged := ha.charged
      simp only [hvs, List.length_append, List.length_cons] at hcharged ⊢
      exact hcharged
    · have hstates := ha.states
      rw [hvs, List.forall_mem_append, List.forall_mem_cons] at hstates
      rw [List.forall_mem_append, List.forall_mem_cons]
      exact hstates

/-! ## Quota -/

theorem raise_follows (s : Session) (ram caps : UInt64) :
    Follows P s (s.withQuota (s.quota.upgrade ram.toNat caps.toNat)) := by
  refine follows_withQuota fun _ ha => ⟨?_, ha.store, ha.states⟩
  exact Quota.Draws.upgrade ha.charged _ _

theorem upgrade_follows (s : Session) (args : String) :
    Ensures (s.upgrade args : Run σ _) fun r => Follows P s r.2 := by
  intro w
  rcases upgrade_cases s args w with hafter | ⟨ram, caps, hafter⟩
  · rw [hafter]
    exact .refl s
  · rw [hafter]
    exact raise_follows s ram caps

end Session

/-! ## Every state reached -/

/-- **The books are kept.** Whatever a request does and wherever it is refused, the books are right after it if they were
before. -/
theorem Served.follows (P : Platform σ) (st : Served σ) (hs : st.before.memory.Sound) :
    Session.Follows P st.before (st.after P) := by
  obtain ⟨s, w, request⟩ := st
  cases request with
  | attach cap guest attr => exact Session.attach_follows hs cap guest attr w
  | detach guest size => exact Session.detach_follows hs guest size w
  | detachAt a => exact Session.removeRegionAt_follows hs a _
  | flush a => exact Session.settle_follows (GuestMemory.reserveAndFlush_bills _ a) _ _
  | unmapRegion a size => exact .refl s
  | attachPic a => exact .refl s
  | createVcpu thread => exact Session.createVcpu_follows P s thread w
  | exceptionHandler cap signal =>
    rw [after_exceptionHandler]
    exact Session.exceptionHandler_follows P s cap signal w
  | raise ram caps => exact Session.raise_follows s ram caps
  | upgrade args => exact Session.upgrade_follows s args w

namespace Session

/-- a new session has no regions and has paid for the storage of its page table -/
theorem new_books (h : (Session.new P virt config w).1 = .ok s) : s.memory.Metered ∧ (P.Exact → s.Accounted) := by
  have hsize : alignPageUp (UInt64.ofNat tableStorageSize) = some (UInt64.ofNat tableStorageSize) := by decide
  have hnat : (UInt64.ofNat tableStorageSize).toNat = tableStorageSize := by decide
  have hquota := Quota.draws_new config.ramQuota.toNat_lt config.capQuota.toNat_lt
  have hnew : Ensures (Session.new P virt config) fun r =>
      ∀ s, r = .ok s → s.memory.Metered ∧ (P.Exact → s.Accounted) := by
    refine .traced _ _ (Ensures.bind (Q := fun r => ∀ store, r.1 = .ok store →
      r.2.Draws tableStorageSize 1 ∧ ∃ ds, store.ds = some ds ∧ (P.Exact → ds.size.toNat = tableStorageSize)) ?_ ?_)
    · refine (allocRam_charges P hsize _ .core .cached).bind fun r hr => .pure fun store hstore => ?_
      obtain ⟨o, q⟩ := r
      cases o with
      | error e => cases hstore
      | ok ds =>
        obtain ⟨hw, hds⟩ := hr
        cases hstore
        have hdraws := hquota.withdraw hw
        rw [hnat, zero_add, zero_add] at hdraws
        exact ⟨hdraws, ds, rfl, fun hP => by rw [hds hP, hnat]⟩
    · intro r hr
      obtain ⟨o, q⟩ := r
      cases o with
      | error e => exact .pure fun s hs => by cases hs
      | ok store =>
        obtain ⟨hdraws, ds, hds, hexact⟩ := hr store rfl
        refine .step fun r => ?_
        cases r with
        | error e => exact .step fun _ => .pure fun s hs => by cases hs
        | ok id =>
          refine .pure fun s hs => ?_
          cases hs
          refine ⟨GuestMemory.metered_new q, fun hP => ⟨?_, ⟨ds, hds, hexact hP⟩, by simp⟩⟩
          simpa [GuestMemory.Charged, GuestMemory.new] using hdraws
  exact hnew w s h

/-- there are as many blocks of metadata as the regions need, in every state reached -/
theorem Reaches.metered (h : s.Reaches P virt config steps) : s.memory.Metered := by
  induction h with
  | new h => exact (new_books h).1
  | serve h w request ih => exact (Served.follows P ⟨_, w, request⟩ h.memory_sound).metered ih

theorem Reaches.accounted (hP : P.Exact) (h : s.Reaches P virt config steps) : s.Accounted := by
  induction h with
  | new h => exact (new_books h).2 hP
  | serve h w request ih => exact (Served.follows P ⟨_, w, request⟩ h.memory_sound).accounted hP ih

/-! ## The end -/

/-- a vCPU gives back what it cost -/
theorem close_vcpu_draws {v : Vcpu} (hv : v.state.size.toNat = vcpuStateSize) {q : Quota} {ram caps : ℕ}
    (h : q.Draws (ram + (vcpuDataSize + vcpuStateSize)) (caps + 1)) :
    Ensures (Vcpu.close P q v) fun q' => q'.Draws ram caps := by
  have hrest : Ensures (do
      ask P (.dissolveVcpu v.cap)
      ask P (.detachLocal v.stateAddr)
      let q ← q.freeRam P .session v.state
      return q.replenish vcpuDataSize 0) fun q' => q'.Draws ram caps := by
    refine .step fun _ => .step fun _ => (freeRam_charges P q .session v.state).bind fun q' hq' => .pure ?_
    rw [← add_assoc] at h
    rw [hq', hv]
    exact h.replenish.replenish
  unfold Vcpu.close
  cases v.kernelObject with
  | some k => exact .step fun _ => hrest
  | none => exact .step fun _ => hrest

theorem close_vcpus_draws {vs : List Vcpu} (hvs : ∀ v ∈ vs, v.state.size.toNat = vcpuStateSize) {q : Quota}
    {ram caps : ℕ} (h : q.Draws (ram + vs.length * (vcpuDataSize + vcpuStateSize)) (caps + vs.length)) :
    Ensures (vs.foldlM (Vcpu.close P) q) fun q' => q'.Draws ram caps := by
  induction vs generalizing q with
  | nil =>
    refine .pure ?_
    simpa using h
  | cons v vs ih =>
    rw [List.foldlM_cons]
    rw [List.length_cons, add_mul, one_mul, ← add_assoc, ← add_assoc] at h
    refine (close_vcpu_draws (hvs v List.mem_cons_self) h).bind fun q' hq' => ?_
    exact ih (fun x hx => hvs x (List.mem_cons_of_mem v hx)) hq'

/-- closing a session returns everything that was drawn -/
theorem close_draws (hs : s.memory.Sound) (hm : s.memory.Metered) (ha : s.Accounted) :
    Ensures (s.close P) fun s' => s'.quota.Draws 0 0 := by
  obtain ⟨m, hall, hnone, hbills⟩ := GuestMemory.detachAll_eq hs
  have hblocks : m.metadataBlocks = 0 := by
    have hmetered := hbills.metered hm
    rw [GuestMemory.Metered, hnone] at hmetered
    exact hmetered
  have hcharged := hbills.charged _ _ ha.charged
  rw [GuestMemory.Charged, hblocks, zero_mul, add_zero, add_zero] at hcharged
  unfold close
  simp only [hall]
  have hsettle : Ensures (s.settle P m (s.memory.regions.map Region.flush)) fun s' =>
      s'.vcpus = s.vcpus ∧ s'.store = s.store ∧ s'.memory = m := by
    intro w
    rw [settle_fst]
    exact ⟨rfl, rfl, rfl⟩
  refine hsettle.bind fun s1 hs1 => ?_
  obtain ⟨hvcpus, hstore, hmemory⟩ := hs1
  obtain ⟨ds, hds, hsize⟩ := ha.store
  rw [hvcpus, hstore, quota, hmemory]
  refine (close_vcpus_draws ha.states hcharged).bind fun q hq => ?_
  have hrelease : Ensures (s.store.release P q) fun r => r.2.Draws 0 0 := by
    unfold RamStore.release
    rw [hds]
    refine (freeRam_charges P q s.store.pool ds).bind fun q' hq' => .pure ?_
    rw [hq', hsize]
    rw [← zero_add tableStorageSize, ← zero_add 1] at hq
    exact hq.replenish
  refine hrelease.bind fun r hr => ?_
  exact .step fun _ => .pure hr

end Session

/-! ## Main result -/

/-- **Exact quota accounting.** In every state reached the quota was drawn for exactly the storage of the page table, a
block of metadata for every started 32 regions, and the data and the state of each vCPU. Nothing is left of it after the
session was closed. -/
theorem quota_accounted (hP : P.Exact) (h : s.Reaches P virt config steps) :
    s.memory.metadataBlocks = (s.memory.regions.length + 31) / 32 ∧
      s.quota.Draws
        (tableStorageSize + s.vcpus.length * (vcpuDataSize + vcpuStateSize) + s.memory.metadataBlocks * pageSize)
        (1 + s.vcpus.length + s.memory.metadataBlocks) ∧
      ∀ w, (s.close P w).1.quota.Draws 0 0 :=
  ⟨h.metered, (h.accounted hP).charged, Session.close_draws h.memory_sound h.metered (h.accounted hP)⟩

theorem Host.platform_exact : Host.platform.Exact := by
  intro pool size cache host ds h
  simp only [Host.platform, Host.answer, Host.allocRam] at h
  split at h
  · cases h
  · cases h
    rfl

/-- a vCPU beside the region of the whole dataspace -/
def addVcpu : Served Host := ⟨attachWhole.after Host.platform, oneDataspace, .createVcpu ⟨0x20⟩⟩

theorem quota_accounted_vcpu :
    Host.platform.Exact ∧ (addVcpu.after Host.platform).Reaches Host.platform .svm .default [addVcpu, attachWhole] ∧
    (addVcpu.after Host.platform).memory.metadataBlocks = 1 ∧
    (addVcpu.after Host.platform).quota.Draws 0x85000 3 ∧
    ((addVcpu.after Host.platform).close Host.platform oneDataspace).1.quota.Draws 0 0 := by
  have hreach : (addVcpu.after Host.platform).Reaches Host.platform .svm .default [addVcpu, attachWhole] :=
    .serve (.serve reaches_emptySession oneDataspace attachWhole.request) oneDataspace addVcpu.request
  have hlength : (addVcpu.after Host.platform).vcpus.length = 1 := by decide +kernel
  have hblocks : (addVcpu.after Host.platform).memory.metadataBlocks = 1 := by decide +kernel
  obtain ⟨-, hdraws, hclose⟩ := quota_accounted Host.platform_exact hreach
  rw [hlength, hblocks] at hdraws
  exact ⟨Host.platform_exact, hreach, hblocks, hdraws, hclose oneDataspace⟩

end NestedGuest
