import Mathlib.Data.List.Flatten
import Mathlib.Tactic.Common

/-!
# Delivery in order

What is received is what was sent, in the same order, with items missing at most; with a channel that
loses nothing, it is all of it. Both survive whatever is done item by item, and what is in order for
each value of a key is in order for each value of a finer one.
-/

/-- `got` keeps the order of `sent`, and is all of it when nothing is lost. -/
structure InOrder {α : Type} (lossless : Bool) (got sent : List α) : Prop where
  sublist : got.Sublist sent
  complete : lossless = true → got = sent

namespace InOrder

variable {α β κ : Type} {lossless : Bool} {got sent : List α}

theorem of_eq (h : got = sent) : InOrder lossless got sent := ⟨h ▸ .refl got, fun _ => h⟩

theorem trans {first : List α} (h : InOrder lossless got sent) (h' : InOrder lossless sent first) :
    InOrder lossless got first :=
  ⟨h.sublist.trans h'.sublist, fun hall => (h.complete hall).trans (h'.complete hall)⟩

theorem map (f : α → β) (h : InOrder lossless got sent) :
    InOrder lossless (got.map f) (sent.map f) :=
  ⟨h.sublist.map f, fun hall => congrArg (List.map f) (h.complete hall)⟩

theorem filter (p : α → Bool) (h : InOrder lossless got sent) :
    InOrder lossless (got.filter p) (sent.filter p) :=
  ⟨h.sublist.filter p, fun hall => congrArg (List.filter p) (h.complete hall)⟩

theorem flatMap (f : α → List β) (h : InOrder lossless got sent) :
    InOrder lossless (got.flatMap f) (sent.flatMap f) :=
  ⟨h.sublist.flatMap f, fun hall => congrArg (List.flatMap f) (h.complete hall)⟩

variable [DecidableEq κ] {key : α → κ}

theorem filter_of_key {k : κ} {p : α → Bool} (hp : ∀ a, p a = true → key a = k)
    (h : InOrder lossless (got.filter fun a => key a = k) (sent.filter fun a => key a = k)) :
    InOrder lossless (got.filter p) (sent.filter p) := by
  have hfiner : ∀ l : List α, (l.filter fun a => key a = k).filter p = l.filter p := by
    intro l
    rw [List.filter_filter]
    apply List.filter_congr
    intro a _
    cases hpa : p a with
    | false => rfl
    | true => rw [Bool.true_and, decide_eq_true (hp a hpa)]
  rw [← hfiner got, ← hfiner sent]
  exact h.filter p

theorem mem_of_key (h : ∀ k, InOrder lossless (got.filter fun a => key a = k)
    (sent.filter fun a => key a = k)) {a : α} (ha : a ∈ got) : a ∈ sent := by
  have hmem := (h (key a)).sublist.subset (List.mem_filter.mpr ⟨ha, decide_eq_true rfl⟩)
  exact (List.mem_filter.mp hmem).1

end InOrder
