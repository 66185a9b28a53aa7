import Mathlib.Data.List.Basic

/-!
# First places in a list

Two elements are compared by where they stand first. The comparison survives the removal of anything
else, and an element that is at hand comes before all that have not been seen up to it.
-/

namespace List

universe u

variable {α : Type u} [DecidableEq α] {a b x : α} {pre post : List α}

/-- Taking out another element moves neither of two places past the other. -/
theorem idxOf_lt_idxOf_of_removed (ha : x ≠ a) (hb : x ≠ b) :
    (pre ++ x :: post).idxOf a < (pre ++ x :: post).idxOf b
      ↔ (pre ++ post).idxOf a < (pre ++ post).idxOf b := by
  rw [idxOf_append, idxOf_append, idxOf_append, idxOf_append, idxOf_cons_ne _ ha, idxOf_cons_ne _ hb]
  by_cases hmema : a ∈ pre
  · have hlta := idxOf_lt_length_of_mem hmema
    rw [if_pos hmema, if_pos hmema]
    split <;> omega
  · rw [if_neg hmema, if_neg hmema]
    by_cases hmemb : b ∈ pre
    · have hltb := idxOf_lt_length_of_mem hmemb
      rw [if_pos hmemb, if_pos hmemb]
      omega
    · rw [if_neg hmemb, if_neg hmemb]
      omega

theorem idxOf_lt_idxOf_of_notMem (hmem : b ∉ pre) (hne : a ≠ b) :
    (pre ++ a :: post).idxOf a < (pre ++ a :: post).idxOf b := by
  have hfirst : (pre ++ a :: post).idxOf a ≤ pre.length := by
    rw [idxOf_append]
    split
    · rename_i hmema
      exact Nat.le_of_lt (idxOf_lt_length_of_mem hmema)
    · have hself : (a :: post).idxOf a = 0 := idxOf_cons_self
      omega
  have hsecond : (pre ++ a :: post).idxOf b = post.idxOf b + 1 + pre.length := by
    rw [idxOf_append, if_neg hmem, idxOf_cons_ne _ hne]
  omega

end List
