import Mathlib.Data.List.Sort

/-!
# Lists of items with distinct keys

The items of a key are at most one. Sorted by their keys such a list is strictly increasing, and
then its members determine it.
-/

namespace DistinctKeys

variable {α κ : Type} {key : α → κ} {l l' : List α}

/-- In a list without repeated keys there is at most one item of a key. -/
theorem filter_eq_toList_find? [DecidableEq κ] (h : (l.map key).Nodup) (k : κ) :
    l.filter (fun a => key a = k) = (l.find? fun a => key a = k).toList := by
  induction l with
  | nil => rfl
  | cons a l ih =>
      rw [List.map_cons, List.nodup_cons] at h
      by_cases ha : key a = k
      · have hnone : l.filter (fun a => key a = k) = [] := by
          rw [List.filter_eq_nil_iff]
          intro b hb hkey
          have hsame : key a = key b := ha.trans (of_decide_eq_true hkey).symm
          exact h.1 (hsame ▸ List.mem_map_of_mem hb)
        simp [ha, hnone]
      · simp [ha, ih h.2]

/-- Two parts of a list that together are longer than it have an item in common. -/
theorem exists_common {s t : List α} (h : (l.map key).Nodup) (hs : s.Sublist l) (ht : t.Sublist l)
    (hlength : l.length < s.length + t.length) : ∃ a, a ∈ s ∧ a ∈ t := by
  by_contra hnone
  have hnodup := List.Nodup.of_map _ h
  have happend : (s ++ t).Nodup :=
    (hnodup.sublist hs).append (hnodup.sublist ht) fun a has hat => hnone ⟨a, has, hat⟩
  have hsubset : s ++ t ⊆ l := List.append_subset.mpr ⟨hs.subset, ht.subset⟩
  have hle := (List.subperm_of_subset happend hsubset).length_le
  rw [List.length_append] at hle
  omega

variable [LinearOrder κ]

theorem sortedLT_map_mergeSort {le : α → α → Bool} (hle : ∀ a b, le a b = decide (key a ≤ key b))
    (h : (l.map key).Nodup) : ((l.mergeSort le).map key).SortedLT := by
  have hsort : (l.mergeSort le).map key = (l.map key).mergeSort fun a b => decide (a ≤ b) :=
    List.map_mergeSort fun a _ b _ => hle a b
  rw [hsort]
  exact List.sortedLE_mergeSort.sortedLT_of_nodup ((List.mergeSort_perm ..).nodup_iff.mpr h)

theorem sortedLT_mergeSort {le : κ → κ → Bool} (hle : ∀ a b, le a b = decide (a ≤ b)) {l : List κ}
    (h : l.Nodup) : (l.mergeSort le).SortedLT := by
  have hsorted : ((l.mergeSort le).map id).SortedLT :=
    sortedLT_map_mergeSort hle ((List.map_id l).symm ▸ h)
  rwa [List.map_id] at hsorted

theorem eq_of_mem_iff (h : (l.map key).SortedLT) (h' : (l'.map key).SortedLT)
    (hmem : ∀ a, a ∈ l ↔ a ∈ l') : l = l' := by
  have hperm : l.Perm l' :=
    (List.perm_ext_iff_of_nodup (List.Nodup.of_map _ h.nodup) (List.Nodup.of_map _ h'.nodup)).mpr
      hmem
  refine hperm.eq_of_pairwise ?_ (List.pairwise_map.mp h.pairwise) (List.pairwise_map.mp h'.pairwise)
  intro a b _ _ hab hba
  exact absurd hab hba.asymm

end DistinctKeys
