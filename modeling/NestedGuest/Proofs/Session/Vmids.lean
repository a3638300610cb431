/-
What an allocator of identities hands out over time.

`VmidAllocator.Reaches turns w` says that `turns`, newest first, have been served by the allocator of the world `w`,
which was new before them. Which identities are held follows from the turns alone (`held`), and what the allocator does
next follows from which are held (`LowestFirst`).

- `lowest_free_first`: an identity is handed out if it is the least that is not held, and whatever is given back, only
  an identity that is held can be lost.
-/
import NestedGuest.Proofs.Session.Teardown

namespace NestedGuest

variable {σ : Type} {w w' : World σ}

/-- what is asked of an allocator -/
inductive VmidRequest where
  | alloc
  | free (id : UInt8)
deriving DecidableEq, Repr

/-- a request that was served; giving back always succeeds -/
inductive VmidTurn where
  | alloc (outcome : Except SessionError ℕ)
  | free (id : UInt8)

def VmidRequest.serve : VmidRequest → Run σ VmidTurn
  | .alloc => do return .alloc (← allocVmid)
  | .free id => do
    freeVmid id.toNat
    return .free id

namespace VmidTurn

/-- the identities held after a turn, of which `H` were held before it -/
def hold : VmidTurn → Finset ℕ → Finset ℕ
  | alloc (.ok id), H => insert id H
  | alloc (.error _), H => H
  | free id, H => H.erase id.toNat

end VmidTurn

namespace VmidAllocator

variable {turns : List VmidTurn} {H : Finset ℕ} {id : ℕ} {e : SessionError}

/-- the identities handed out and not given back since; turns newest first -/
def held (turns : List VmidTurn) : Finset ℕ := turns.foldr VmidTurn.hold ∅

/-! ## One request -/

/-- an identity is handed out exactly if it is the least that no guest has -/
theorem Sound.allocVmid_eq_ok_iff (h : w.vmids.Sound) :
    (allocVmid w).1 = .ok id ↔ IsLeast {i | i ∈ guestIds ∧ i ∉ w.vmids.given} id := by
  obtain ⟨-, hworld⟩ := allocVmid_world w
  cases houtcome : (allocVmid w).1 with
  | ok found =>
    rw [houtcome] at hworld
    have hleast := h.isLeast_alloc? hworld
    constructor
    · intro hid
      cases hid
      exact hleast
    · intro hid
      rw [hid.unique hleast]
  | error e =>
    rw [houtcome] at hworld
    have hfull := h.alloc?_eq_none_iff_given.1 hworld.1
    constructor
    · intro hid
      cases hid
    · intro hid
      exact absurd (hfull ▸ hid.1.1) hid.1.2

/-- no identity is handed out exactly if guests have them all -/
theorem Sound.allocVmid_eq_error_iff (h : w.vmids.Sound) :
    (allocVmid w).1 = .error e ↔ e = .outOfVmIds ∧ w.vmids.given = guestIds := by
  obtain ⟨-, hworld⟩ := allocVmid_world w
  cases houtcome : (allocVmid w).1 with
  | ok found =>
    rw [houtcome] at hworld
    constructor
    · intro he
      cases he
    · rintro ⟨-, hfull⟩
      rw [← h.alloc?_eq_none_iff_given] at hfull
      rw [hfull] at hworld
      cases hworld
  | error e' =>
    rw [houtcome] at hworld
    obtain ⟨hnone, rfl, -⟩ := hworld
    constructor
    · intro he
      cases he
      exact ⟨rfl, h.alloc?_eq_none_iff_given.1 hnone⟩
    · rintro ⟨rfl, -⟩
      rfl

theorem allocVmid_vmids_of_error (h : (allocVmid w).1 = .error e) : (allocVmid w).2.vmids = w.vmids := by
  obtain ⟨-, hworld⟩ := allocVmid_world w
  rw [h] at hworld
  exact hworld.2.2

/-- a request does to the allocator what its turn does to the set -/
theorem Sound.serve (h : w.vmids.Sound) (request : VmidRequest) :
    (request.serve w).2.vmids.Sound ∧ (request.serve w).2.vmids.given = (request.serve w).1.hold w.vmids.given := by
  cases request with
  | alloc =>
    obtain ⟨-, hworld⟩ := allocVmid_world w
    simp only [VmidRequest.serve, bind_apply, pure_apply]
    cases houtcome : (allocVmid w).1 with
    | ok id =>
      rw [houtcome] at hworld
      exact ⟨h.alloc? hworld, h.given_alloc? hworld⟩
    | error e =>
      rw [allocVmid_vmids_of_error houtcome]
      exact ⟨h, rfl⟩
  | free id =>
    obtain ⟨-, hvmids⟩ := freeVmid_world id.toNat w
    simp only [VmidRequest.serve, bind_apply, pure_apply]
    rw [hvmids]
    exact ⟨h.free id.toNat, given_free w.vmids id.toNat⟩

/-! ## All requests -/

/-- the requests of `turns`, newest first, were made to the allocator of `w`, and no others -/
inductive Reaches : List VmidTurn → World σ → Prop
  | new {w : World σ} (h : w.vmids = .new) : Reaches [] w
  | serve {turns : List VmidTurn} {w : World σ} (h : Reaches turns w) (request : VmidRequest) :
      Reaches ((request.serve w).1 :: turns) (request.serve w).2
  /-- what leaves the allocator alone -/
  | elapse {turns : List VmidTurn} {w w' : World σ} (h : Reaches turns w) (hvmids : w'.vmids = w.vmids) :
      Reaches turns w'

/-- guests have the identities that are held -/
theorem Reaches.sound (h : Reaches turns w) : w.vmids.Sound ∧ w.vmids.given = held turns := by
  induction h with
  | new h =>
    rw [h]
    exact ⟨sound_new, given_new⟩
  | serve _ request ih =>
    obtain ⟨hsound, hgiven⟩ := ih
    have hserve := hsound.serve request
    rw [hgiven] at hserve
    exact hserve
  | elapse _ hvmids ih =>
    rw [hvmids]
    exact ih

/-! ## Main result -/

/-- how the allocator of `w` stands for the set `H` of the identities that are held -/
structure LowestFirst (H : Finset ℕ) (w : World σ) : Prop where
  range : H ⊆ guestIds
  isAllocated_iff : ∀ id, w.vmids.isAllocated id = true ↔ id = 0 ∨ id ∈ H
  /-- in ascending order, each once -/
  allocated : w.vmids.allocated = H.sort
  alloc_ok_iff : ∀ id, (allocVmid w).1 = .ok id ↔ IsLeast {i | i ∈ guestIds ∧ i ∉ H} id
  alloc_error_iff : ∀ e, (allocVmid w).1 = .error e ↔ e = .outOfVmIds ∧ H = guestIds
  exhausted : H = guestIds → (allocVmid w).2.vmids = w.vmids
  free_other : ∀ id : UInt8, id.toNat ∉ H → (freeVmid id.toNat w).2.vmids = w.vmids

/-- **Lowest-free-first identities.** Whatever was asked of an allocator, identities that nobody held and 0 given back
among it, what it does next depends on the set of the identities that are held. -/
theorem lowest_free_first (h : Reaches turns w) : LowestFirst (held turns) w := by
  obtain ⟨hsound, hgiven⟩ := h.sound
  rw [← hgiven]
  exact {
    range := hsound.given_subset
    isAllocated_iff := fun id => hsound.isAllocated_iff
    allocated := hsound.allocated_eq
    alloc_ok_iff := fun id => hsound.allocVmid_eq_ok_iff
    alloc_error_iff := fun e => hsound.allocVmid_eq_error_iff
    exhausted := fun hfull => allocVmid_vmids_of_error (hsound.allocVmid_eq_error_iff.2 ⟨rfl, hfull⟩)
    free_other := fun id hid => by rw [(freeVmid_world id.toNat w).2, free_of_notMem_given hid] }

/-- serves one more request -/
def serveNext (run : List VmidTurn × World σ) (request : VmidRequest) : List VmidTurn × World σ :=
  ((request.serve run.2).1 :: run.1, (request.serve run.2).2)

theorem Reaches.serveAll (requests : List VmidRequest) {run : List VmidTurn × World σ} (h : Reaches run.1 run.2) :
    Reaches (requests.foldl serveNext run).1 (requests.foldl serveNext run).2 :=
  List.foldlRecOn requests serveNext (motive := fun run => Reaches run.1 run.2) h
    fun _ hrun request _ => hrun.serve request

/-- seventy identities are taken, more than one block has; then the last of the first block is given back, 0, and one
that nobody holds -/
def crossingRequests : List VmidRequest := List.replicate 70 .alloc ++ [.free 63, .free 0, .free 200]

/-- a new allocator after these requests -/
def crossingRun : List VmidTurn × World Unit := crossingRequests.foldl serveNext ([], ⟨(), .new, []⟩)

/-- the identity that was given back is the next one to be had -/
theorem lowest_free_first_crossing :
    Reaches crossingRun.1 crossingRun.2 ∧ held crossingRun.1 = (Finset.Icc 1 70).erase 63 ∧
      LowestFirst (held crossingRun.1) crossingRun.2 ∧ (allocVmid crossingRun.2).1 = .ok 63 := by
  have hreach : Reaches crossingRun.1 crossingRun.2 := Reaches.serveAll _ (.new rfl)
  have hheld : held crossingRun.1 = (Finset.Icc 1 70).erase 63 :=
    Finset.Subset.antisymm (by decide +kernel) (by decide +kernel)
  have hlaw := lowest_free_first hreach
  refine ⟨hreach, hheld, hlaw, (hlaw.alloc_ok_iff 63).2 ?_⟩
  rw [hheld]
  refine ⟨by decide, ?_⟩
  rintro i ⟨hi, hfree⟩
  have hlow := (Finset.mem_Icc.1 hi).1
  by_contra hlt
  exact hfree (Finset.mem_erase.2 ⟨by omega, Finset.mem_Icc.2 (by omega)⟩)

end VmidAllocator
end NestedGuest
