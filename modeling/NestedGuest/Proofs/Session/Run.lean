/-
What an operation returns, whatever the journal holds, and operations that cannot be told apart.

`Ensures act Q` says that the outcome of `act` satisfies `Q` in every world. `Agree act act' R` says that `act` and `act'`
leave the same world behind, the journal included, and that `R` relates their outcomes. Both follow the steps of an
operation, and tracing adds nothing to them.
-/
import NestedGuest.World

namespace NestedGuest

variable {σ α β : Type}

/-- the outcome satisfies `Q`, whatever the world is -/
def Ensures (act : Run σ α) (Q : α → Prop) : Prop := ∀ w, Q (act w).1

theorem bind_apply (act : Run σ α) (f : α → Run σ β) (w : World σ) : (act >>= f) w = f (act w).1 (act w).2 := rfl

theorem pure_apply (a : α) (w : World σ) : (pure a : Run σ α) w = (a, w) := rfl

/-- a traced operation returns what it returns with its span in the journal -/
theorem traced_fst (name : String) (error : α → Option String) (act : Run σ α) (w : World σ) :
    (traced name error act w).1 = (act { w with journal := .span name :: w.journal }).1 := by
  simp only [traced, bind_apply, observe]
  cases error (act { w with journal := .span name :: w.journal }).1 <;> rfl

theorem spanned_fst (name : String) (act : Run σ α) (w : World σ) :
    (spanned name act w).1 = (act { w with journal := .span name :: w.journal }).1 := rfl

namespace Ensures

variable {act : Run σ α} {f : α → Run σ β} {Q : α → Prop} {R : β → Prop} {a : α}

theorem pure (h : Q a) : Ensures (Pure.pure a : Run σ α) Q := fun _ => h

theorem bind (h : Ensures act Q) (hf : ∀ a, Q a → Ensures (f a) R) : Ensures (act >>= f) R :=
  fun w => hf _ (h w) _

/-- nothing is known of the outcome of a step -/
theorem step (hf : ∀ a, Ensures (f a) R) : Ensures (act >>= f) R := fun _ => hf _ _

theorem traced (name : String) (error : α → Option String) (h : Ensures act Q) :
    Ensures (NestedGuest.traced name error act) Q := fun w => by
  rw [traced_fst]
  exact h _

theorem spanned (name : String) (h : Ensures act Q) : Ensures (NestedGuest.spanned name act) Q := fun w => by
  rw [spanned_fst]
  exact h _

end Ensures

/-! ## Two operations -/

/-- both leave the same world behind, and `R` relates their outcomes -/
def Agree {α' : Type} (act : Run σ α) (act' : Run σ α') (R : α → α' → Prop) : Prop :=
  ∀ w, (act' w).2 = (act w).2 ∧ R (act w).1 (act' w).1

namespace Agree

variable {ι α' β' : Type} {act : Run σ α} {act' : Run σ α'} {R : α → α' → Prop} {S : β → β' → Prop} {a : α} {a' : α'}

theorem pure (h : R a a') : Agree (Pure.pure a : Run σ α) (Pure.pure a') R := fun _ => ⟨rfl, h⟩

theorem bind {f : α → Run σ β} {f' : α' → Run σ β'} (h : Agree act act' R)
    (hf : ∀ a a', R a a' → Agree (f a) (f' a') S) : Agree (act >>= f) (act' >>= f') S := fun w => by
  obtain ⟨hw, hR⟩ := h w
  rw [bind_apply, bind_apply, hw]
  exact hf _ _ hR _

/-- a step that both make -/
theorem step {f : α → Run σ β} {f' : α → Run σ β'} (hf : ∀ a, Agree (f a) (f' a) S) :
    Agree (act >>= f) (act >>= f') S :=
  .bind (R := fun a a' => a' = a) (fun _ => ⟨rfl, rfl⟩) fun a _ ha => ha ▸ hf a

theorem spanned (name : String) (h : Agree act act' R) :
    Agree (NestedGuest.spanned name act) (NestedGuest.spanned name act') R :=
  .step fun _ => h

/-- related outcomes have to fail with the same text -/
theorem traced (name : String) {error : α → Option String} {error' : α' → Option String}
    (herror : ∀ a a', R a a' → error' a' = error a) (h : Agree act act' R) :
    Agree (NestedGuest.traced name error act) (NestedGuest.traced name error' act') R := by
  refine .step fun _ => h.bind fun a a' hR => ?_
  rw [herror a a' hR]
  cases error a with
  | none => exact .pure hR
  | some text => exact .step fun _ => .pure hR

theorem foldlM {f : α → ι → Run σ α} {f' : α' → ι → Run σ α'} (hf : ∀ a a' x, R a a' → Agree (f a x) (f' a' x) R)
    (h : R a a') (xs : List ι) : Agree (xs.foldlM f a) (xs.foldlM f' a') R := by
  induction xs generalizing a a' with
  | nil => exact .pure h
  | cons x xs ih =>
    rw [List.foldlM_cons, List.foldlM_cons]
    exact (hf a a' x h).bind fun _ _ hR => ih hR

end Agree
end NestedGuest
