/-
How a session came to be in its state.

`Session.Reaches P virt config steps s` says that serving `steps`, newest first, leads from a new session to `s`. Each
request is served in a world of its own, so anything may happen between two requests. `RegisteredBy` finds in such a
history the request that registered a region which has been there since.

- `Session.Reaches.memory_sound`: regions are disjoint and not empty in every state reached;
- `Session.Reaches.registered`: every region was registered by a request, and has been there since.
-/
import NestedGuest.Proofs.Session.Effects

namespace NestedGuest

variable {σ : Type} {P : Platform σ} {virt : Virt} {config : Config} {steps : List (Served σ)} {s : Session}

/-! ## States reached -/

/-- serving `steps`, newest first, leads from a new session to `s` -/
inductive Session.Reaches (P : Platform σ) (virt : Virt) (config : Config) : List (Served σ) → Session → Prop
  | new {w : World σ} {s : Session} (h : (Session.new P virt config w).1 = .ok s) : Reaches P virt config [] s
  | serve {steps : List (Served σ)} {s : Session} (h : Reaches P virt config steps s) (w : World σ)
      (request : Request) : Reaches P virt config (⟨s, w, request⟩ :: steps) (Served.after P ⟨s, w, request⟩)

/-- what a new session is -/
theorem Session.exists_of_new {w : World σ} (h : (Session.new P virt config w).1 = .ok s) :
    ∃ identity quota store, s =
      { config, identity, memory := .new quota, table := .new virt.format store.phys, store, vcpus := [] } := by
  simp only [Session.new, traced_fst, bind_apply] at h
  generalize RamStore.alloc P .core _ _ _ = o at h
  obtain ⟨⟨r, quota⟩, w'⟩ := o
  cases r with
  | error e => cases h
  | ok store =>
    simp only [bind_apply] at h
    generalize (allocVmid w' : _ × World σ) = o at h
    obtain ⟨r, w''⟩ := o
    cases r with
    | error e => cases h
    | ok id =>
      cases h
      exact ⟨_, quota, store, rfl⟩

/-- a new session has no regions, and an empty page table in its store -/
theorem Session.new_eq_ok {w : World σ} (h : (Session.new P virt config w).1 = .ok s) :
    s.memory.regions = [] ∧ s.table = .new virt.format s.store.phys := by
  obtain ⟨identity, quota, store, rfl⟩ := exists_of_new h
  exact ⟨rfl, rfl⟩

theorem Session.Reaches.memory_sound (h : s.Reaches P virt config steps) : s.memory.Sound := by
  induction h with
  | new h =>
    have hregions := (Session.new_eq_ok h).1
    exact ⟨by simp [GuestMemory.attrs, hregions], by simp [GuestMemory.attrs, hregions]⟩
  | serve _ w request ih =>
    obtain ⟨s1, fs, hmaps, hunmaps⟩ := Served.effect P ⟨_, w, request⟩ ih
    exact hunmaps.memory.sound (hmaps.sound ih)

/-! ## Registrations -/

/-- the request registered a region with the attributes `attr` for `ds` -/
def Served.Registers (P : Platform σ) (st : Served σ) (attr : RegionAttr) (ds : Dataspace) : Prop :=
  ∃ cap window mapping memory region, st.Asks P cap ds window mapping ∧
    st.before.memory.place ds mapping.guest window = .ok (.fresh memory region mapping) ∧ region.attr = attr

/-- `st` registered the region with the attributes `attr` for `ds`, and it was there whenever one of the `later`
requests was served -/
structure RegisteredBy (P : Platform σ) (steps : List (Served σ)) (attr : RegionAttr) (ds : Dataspace) (st : Served σ)
    (later : List (Served σ)) : Prop where
  split : ∃ earlier, steps = later ++ st :: earlier
  registers : st.Registers P attr ds
  stays : ∀ x ∈ later, ∃ r ∈ x.before.memory.regions, r.attr = attr ∧ r.dataspace = ds

variable {attr : RegionAttr} {ds : Dataspace} {st x : Served σ} {later : List (Served σ)} {r : Region}

/-- no region is registered twice -/
theorem Served.Registers.attr_ne (h : st.Registers P attr ds) (hs : st.before.memory.Sound)
    (hr : r ∈ st.before.memory.regions) : r.attr ≠ attr := by
  obtain ⟨cap, window, mapping, memory, region, -, hplace, rfl⟩ := h
  exact (GuestMemory.place_eq_fresh hs hplace).2.attr_ne hs hr

namespace RegisteredBy

theorem now (h : x.Registers P attr ds) : RegisteredBy P (x :: steps) attr ds x [] where
  split := ⟨steps, rfl⟩
  registers := h
  stays := by simp

/-- a region that is there when a further request is served was registered before it -/
theorem push (h : RegisteredBy P steps r.attr r.dataspace st later) (hr : r ∈ x.before.memory.regions) :
    RegisteredBy P (x :: steps) r.attr r.dataspace st (x :: later) where
  split := by
    obtain ⟨earlier, hsplit⟩ := h.split
    exact ⟨earlier, by rw [hsplit, List.cons_append]⟩
  registers := h.registers
  stays y hy := by
    rcases List.mem_cons.1 hy with rfl | hy
    · exact ⟨r, hr, rfl, rfl⟩
    · exact h.stays y hy

/-- the last request registered the region, or it was there before -/
theorem cases_last (h : RegisteredBy P (x :: steps) attr ds st later) :
    (later = [] ∧ st = x) ∨ ∃ rest, later = x :: rest ∧ RegisteredBy P steps attr ds st rest := by
  obtain ⟨earlier, hsplit⟩ := h.split
  cases later with
  | nil => exact Or.inl ⟨rfl, (List.cons.inj hsplit).1.symm⟩
  | cons y rest =>
    obtain ⟨rfl, hrest⟩ := List.cons.inj hsplit
    exact Or.inr ⟨rest, rfl, ⟨earlier, hrest⟩, h.registers, fun z hz => h.stays z (List.mem_cons_of_mem _ hz)⟩

/-- a region that was there when the last request was served was registered before it -/
theorem pop (h : RegisteredBy P (x :: steps) r.attr ds st later) (hs : x.before.memory.Sound)
    (hr : r ∈ x.before.memory.regions) :
    ∃ rest, later = x :: rest ∧ RegisteredBy P steps r.attr ds st rest := by
  rcases h.cases_last with ⟨-, rfl⟩ | hrest
  · exact absurd rfl (h.registers.attr_ne hs hr)
  · exact hrest

end RegisteredBy

/-- a window that is mapped is registered, or lies in a region that was registered before -/
theorem Served.Maps.registered (h : x.Maps P s) (hs : x.before.memory.Sound)
    (hold : ∀ r ∈ x.before.memory.regions, ∃ st later, RegisteredBy P steps r.attr r.dataspace st later) :
    ∀ r ∈ s.memory.regions, ∃ st later, RegisteredBy P (x :: steps) r.attr r.dataspace st later := by
  have hpush : ∀ r ∈ x.before.memory.regions, ∃ st later, RegisteredBy P (x :: steps) r.attr r.dataspace st later := by
    intro r hr
    obtain ⟨st, later, hreg⟩ := hold r hr
    exact ⟨st, x :: later, hreg.push hr⟩
  cases h with
  | nothing => exact hpush
  | again => exact hpush
  | fresh hask hplace =>
    obtain ⟨-, hnew⟩ := GuestMemory.place_eq_fresh hs hplace
    intro r hr
    rcases hnew.mem.1 hr with rfl | hr
    · refine ⟨x, [], .now ?_⟩
      rw [hnew.dataspace]
      exact ⟨_, _, _, _, _, hask, hplace, rfl⟩
    · exact hpush r hr

/-- every region was registered by some request, and has been there since -/
theorem Session.Reaches.registered (h : s.Reaches P virt config steps) :
    ∀ r ∈ s.memory.regions, ∃ st later, RegisteredBy P steps r.attr r.dataspace st later := by
  induction h with
  | new hnew =>
    intro r hr
    rw [(Session.new_eq_ok hnew).1] at hr
    cases hr
  | @serve steps s hreach w request ih =>
    have hs := hreach.memory_sound
    obtain ⟨s1, fs, hmaps, hunmaps⟩ := Served.effect P ⟨s, w, request⟩ hs
    intro r hr
    obtain ⟨q, hq, hattr, hds, -⟩ := hunmaps.memory.origin r hr
    rw [← hattr, ← hds]
    exact Served.Maps.registered (x := ⟨s, w, request⟩) hmaps hs ih q hq

end NestedGuest
