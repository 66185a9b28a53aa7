import Mathlib.Data.List.Basic
import Mathlib.Data.Bool.Count
import Mathlib.Logic.Function.Basic
import Mathlib.Tactic.Common

/-!
# Runs of labelled steps

A system of goroutines is a relation between states, labelled with what a step does. A run lists the
labels of its steps, oldest first. What single steps do to a quantity adds up over a run. Where the
state is a family with one member for each goroutine, a step moves one member and leaves the others.
-/

universe u v

/-- Runs from one state to another, with the labels of their steps. -/
inductive Steps {σ : Type u} {α : Type v} (step : σ → α → σ → Prop) : σ → List α → σ → Prop
  | nil (s : σ) : Steps step s [] s
  | snoc {s t t' : σ} {log : List α} {a : α} (run : Steps step s log t) (h : step t a t') :
      Steps step s (log ++ [a]) t'

namespace Steps

variable {σ : Type u} {α : Type v} {step : σ → α → σ → Prop} {s t : σ} {log : List α}

theorem of_concat {a : α} (run : Steps step s (log ++ [a]) t) :
    ∃ u, Steps step s log u ∧ step u a t := by
  generalize hall : log ++ [a] = all at run
  cases run with
  | nil => exact absurd hall (by simp)
  | @snoc u _ _ _ run h =>
      obtain ⟨rfl, heq⟩ := List.append_inj' hall rfl
      cases heq
      exact ⟨u, run, h⟩

/-- A run passes through a state at every point of its log. -/
theorem split {past rest : List α} (run : Steps step s (past ++ rest) t) :
    ∃ u, Steps step s past u ∧ Steps step u rest t := by
  induction rest using List.reverseRecOn generalizing t with
  | nil => exact ⟨t, by simpa using run, .nil t⟩
  | append_singleton rest a ih =>
      rw [← List.append_assoc] at run
      obtain ⟨v, hrest, hlast⟩ := run.of_concat
      obtain ⟨u, hpast, hu⟩ := ih hrest
      exact ⟨u, hpast, hu.snoc hlast⟩

theorem filterMap_concat {β : Type*} (f : α → Option β) (log : List α) (a : α) :
    (log ++ [a]).filterMap f = log.filterMap f ++ (f a).toList := by
  cases h : f a <;> simp [h]

theorem countP_concat (p : α → Bool) (log : List α) (a : α) :
    (log ++ [a]).countP p = log.countP p + (p a).toNat := by
  cases h : p a <;> simp [h]

/-- A quantity that grows at the steps that `p` counts, at most, and shrinks at those that `q` counts. -/
theorem count_le {f : σ → Nat} {p q : α → Bool} (run : Steps step s log t)
    (hstep : ∀ s a t, step s a t → f t + (q a).toNat ≤ f s + (p a).toNat) :
    f t + log.countP q ≤ f s + log.countP p := by
  induction run with
  | nil => exact Nat.le_refl _
  | snoc _ hlast ih =>
      have hone := hstep _ _ _ hlast
      rw [countP_concat, countP_concat]
      omega

/-- A quantity that changes at the counted steps only. -/
theorem count_eq {f : σ → Nat} {p q : α → Bool} (run : Steps step s log t)
    (hstep : ∀ s a t, step s a t → f t + (q a).toNat = f s + (p a).toNat) :
    f t + log.countP q = f s + log.countP p := by
  induction run with
  | nil => rfl
  | snoc _ hlast ih =>
      have hone := hstep _ _ _ hlast
      rw [countP_concat, countP_concat]
      omega

/-- What an invariant rules out does not happen. -/
theorem count_eq_zero {P : σ → Prop} {p : α → Bool} (run : Steps step s log t)
    (hstep : ∀ s a t, step s a t → P s → P t ∧ p a = false) (h : P s) :
    P t ∧ log.countP p = 0 := by
  induction run with
  | nil => exact ⟨h, rfl⟩
  | snoc _ hlast ih =>
      obtain ⟨hkept, hnever⟩ := hstep _ _ _ hlast ih.1
      rw [countP_concat, hnever, ih.2]
      exact ⟨hkept, rfl⟩

end Steps

namespace Function

variable {ι : Type u} {α : Type v} [DecidableEq ι] {p : ι → α → Prop} {f : ι → α} {i : ι}

theorem forall_update_of_forall {a : α} (h : ∀ j, p j (f j)) (ha : p i a) (j : ι) :
    p j (update f i a j) :=
  (forall_update_iff f p).mpr ⟨ha, fun j _ => h j⟩ j

theorem update_ne {a x : α} (ha : a ≠ x) {j : ι} (hj : f j ≠ x) : update f i a j ≠ x := by
  rw [update_apply]
  split
  · exact ha
  · exact hj

/-- The move of a member that is not the one looked for. -/
theorem exists_update_of_not (a : α) (h : ∃ j, p j (f j)) (hi : ¬ p i (f i)) :
    ∃ j, p j (update f i a j) := by
  obtain ⟨j, hj⟩ := h
  refine (exists_update_iff f p).mpr (Or.inr ⟨j, ?_, hj⟩)
  rintro rfl
  exact hi hj

end Function
