/-
What is drawn from a quota, amount by amount.

`Quota.Draws q ram caps` says that exactly these amounts are drawn, that they are within the limits, and that no more was
ever given back than had been drawn. A withdrawal adds to the amounts and a return takes off them, whatever the limits
are raised to in between, and a withdrawal that is given back at once leaves no trace (`replenish_of_withdraw`).
-/
import Mathlib.Tactic
import NestedGuest.Proofs.Session.Run
import NestedGuest.Ram

namespace NestedGuest

/-! ## One guard -/

namespace QuotaGuard

/-- exactly `n` is drawn, within a limit that is a word, and all that was given back had been drawn -/
structure Draws (g : QuotaGuard) (n : ℕ) : Prop where
  used : g.used = n
  within : n ≤ g.limit
  word : g.limit < wordEnd
  covered : g.covered = true

variable {g g' : QuotaGuard} {n amount : ℕ}

theorem draws_new {limit : ℕ} (h : limit < wordEnd) : (new limit).Draws 0 := ⟨rfl, Nat.zero_le _, h, rfl⟩

theorem withdraw?_eq_some (h : g.withdraw? amount = some g') :
    g.used + amount ≤ max g.limit g.used ∧ g' = { g with used := g.used + amount } := by
  unfold withdraw? avail at h
  split_ifs at h with hle
  cases h
  exact ⟨by omega, rfl⟩

theorem Draws.withdraw (h : g.Draws n) (hw : g.withdraw? amount = some g') : g'.Draws (n + amount) := by
  obtain ⟨hle, rfl⟩ := withdraw?_eq_some hw
  have hused := h.used
  have hwithin := h.within
  refine { h with used := ?_, within := ?_ }
  · simp only [hused]
  · simp only
    omega

theorem Draws.replenish (h : g.Draws (n + amount)) : (g.replenish amount).Draws n := by
  have hused := h.used
  have hwithin := h.within
  refine { h with used := ?_, within := ?_, covered := ?_ }
  · simp only [QuotaGuard.replenish]
    omega
  · simp only [QuotaGuard.replenish]
    omega
  · simp [QuotaGuard.replenish, h.covered, hused]

theorem Draws.upgrade (h : g.Draws n) (amount : ℕ) : (g.upgrade amount).Draws n := by
  have hwithin := h.within
  have hword := h.word
  refine { h with within := ?_, word := ?_ }
  · simp only [QuotaGuard.upgrade]
    omega
  · simp only [QuotaGuard.upgrade]
    omega

theorem replenish_of_withdraw (h : g.withdraw? amount = some g') : g'.replenish amount = g := by
  obtain ⟨-, rfl⟩ := withdraw?_eq_some h
  simp [replenish]

end QuotaGuard

/-! ## Both guards -/

namespace Quota

/-- exactly `ram` bytes and `caps` capabilities are drawn -/
structure Draws (q : Quota) (ram caps : ℕ) : Prop where
  ram : q.ram.Draws ram
  caps : q.caps.Draws caps

variable {q q' : Quota} {ram caps r c : ℕ}

theorem draws_new (hram : ram < wordEnd) (hcaps : caps < wordEnd) : (new ram caps).Draws 0 0 :=
  ⟨QuotaGuard.draws_new hram, QuotaGuard.draws_new hcaps⟩

/-- a withdrawal takes from both guards -/
theorem withdraw_eq_ok (h : q.withdraw r c = .ok q') :
    q.ram.withdraw? r = some q'.ram ∧ q.caps.withdraw? c = some q'.caps := by
  unfold withdraw at h
  split at h
  · cases h
  · rename_i capsLeft hcaps
    split at h
    · cases h
    · rename_i ramLeft hram
      cases h
      exact ⟨hram, hcaps⟩

theorem Draws.withdraw (h : q.Draws ram caps) (hw : q.withdraw r c = .ok q') : q'.Draws (ram + r) (caps + c) := by
  obtain ⟨hram, hcaps⟩ := withdraw_eq_ok hw
  exact ⟨h.ram.withdraw hram, h.caps.withdraw hcaps⟩

theorem Draws.replenish (h : q.Draws (ram + r) (caps + c)) : (q.replenish r c).Draws ram caps :=
  ⟨h.ram.replenish, h.caps.replenish⟩

theorem Draws.upgrade (h : q.Draws ram caps) (r c : ℕ) : (q.upgrade r c).Draws ram caps :=
  ⟨h.ram.upgrade r, h.caps.upgrade c⟩

/-- what is given back at once was never drawn -/
theorem replenish_of_withdraw (h : q.withdraw r c = .ok q') : q'.replenish r c = q := by
  obtain ⟨hram, hcaps⟩ := withdraw_eq_ok h
  rw [replenish, QuotaGuard.replenish_of_withdraw hram, QuotaGuard.replenish_of_withdraw hcaps]

end Quota

/-! ## RAM -/

variable {σ : Type}

/-- allocators return dataspaces of the size that was asked for -/
def Platform.Exact (P : Platform σ) : Prop :=
  ∀ pool size cache host ds, (P.answer (.allocRam pool size cache) host).1 = .ok ds → ds.size = size

/-- whole pages are charged as they are, and a refused allocation costs nothing -/
theorem allocRam_charges (P : Platform σ) {size : UInt64} (hsize : alignPageUp size = some size) (q : Quota)
    (pool : RamPool) (cache : Cache) :
    Ensures (q.allocRam P pool size cache) fun r => match r with
      | (.ok ds, q') => q.withdraw size.toNat 1 = .ok q' ∧ (P.Exact → ds.size = size)
      | (.error _, q') => q' = q := by
  unfold Quota.allocRam
  refine .traced _ _ ?_
  simp only [hsize]
  split
  · exact .pure rfl
  · rename_i charged hw
    intro w
    rw [bind_apply]
    cases ha : (P.answer (.allocRam pool size cache) w.host).1 with
    | ok ds =>
      have hask : (ask P (.allocRam pool size cache) w).1 = .ok ds := ha
      rw [hask]
      exact ⟨hw, fun hP => hP pool size cache w.host ds ha⟩
    | error e =>
      have hask : (ask P (.allocRam pool size cache) w).1 = .error e := ha
      rw [hask]
      exact Quota.replenish_of_withdraw hw

theorem freeRam_charges (P : Platform σ) (q : Quota) (pool : RamPool) (ds : RamDataspace) :
    Ensures (q.freeRam P pool ds) fun q' => q' = q.replenish ds.size.toNat 1 :=
  .step fun _ => .pure rfl

end NestedGuest
