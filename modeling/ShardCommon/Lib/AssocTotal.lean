import Mathlib.Algebra.BigOperators.Group.List.Basic
import Mathlib.Algebra.GroupWithZero.Nat
import Mathlib.Algebra.Order.BigOperators.Group.List
import Mathlib.Algebra.Order.Group.Nat
import Mathlib.Data.Finmap

/-!
# Totals over a finite map

A finite map with a weight on its values has a total, and the total is a running counter: erasing a
key takes off the weight stored there, inserting one puts the new weight on. Both the entry count
and the byte count of a cache are totals, at the constant weight one and at the value's length.
-/

namespace AList

universe u v

variable {α : Type u} {β : Type v}

/-- The weights of all values of the map, added up. -/
def total (w : β → Nat) (m : AList (fun _ : α => β)) : Nat :=
  (m.entries.map fun e => w e.2).sum

def size (m : AList (fun _ : α => β)) : Nat := m.entries.length

@[simp]
theorem total_empty (w : β → Nat) : (∅ : AList (fun _ : α => β)).total w = 0 := rfl

@[simp]
theorem size_empty : (∅ : AList (fun _ : α => β)).size = 0 := rfl

theorem size_eq_total (m : AList (fun _ : α => β)) : m.size = m.total fun _ => 1 := by
  simp [size, total]

/-- The number of values that pass a test is the total at the test's indicator. -/
theorem total_ite (p : β → Prop) [DecidablePred p] (m : AList (fun _ : α => β)) :
    (m.total fun v => if p v then 1 else 0) = m.entries.countP fun e => p e.2 := by
  rw [total]
  induction m.entries with
  | nil => rfl
  | cons e l ih =>
      rw [List.map_cons, List.sum_cons, ih, List.countP_cons]
      simp [Nat.add_comm]

theorem total_eq_zero_of_imp {w w' : β → Nat} {m : AList (fun _ : α => β)}
    (himp : ∀ v, w v = 0 → w' v = 0) (h : m.total w = 0) : m.total w' = 0 := by
  rw [total, List.sum_eq_zero_iff_forall_eq_nat] at h ⊢
  intro n hn
  obtain ⟨e, he, rfl⟩ := List.mem_map.mp hn
  exact himp _ (h _ (List.mem_map_of_mem he))

variable [DecidableEq α]

private theorem sum_kerase (w : β → Nat) (k : α) (l : List (Σ _ : α, β)) :
    ((l.kerase k).map fun e => w e.2).sum + ((l.dlookup k).elim 0 w)
      = (l.map fun e => w e.2).sum := by
  induction l with
  | nil => simp
  | cons e l ih =>
      obtain ⟨key, value⟩ := e
      by_cases heq : k = key
      · subst heq
        simp [Nat.add_comm]
      · rw [List.kerase_cons_ne heq, List.dlookup_cons_ne _ _ heq]
        simp only [List.map_cons, List.sum_cons]
        omega

/-- Erasing a key takes its weight off the total. -/
theorem total_erase_add (w : β → Nat) (k : α) (m : AList (fun _ : α => β)) :
    (m.erase k).total w + ((m.lookup k).elim 0 w) = m.total w :=
  sum_kerase w k m.entries

theorem total_insert (w : β → Nat) (k : α) (v : β) (m : AList (fun _ : α => β)) :
    (m.insert k v).total w = w v + (m.erase k).total w := by
  simp [total, entries_insert, erase]

theorem total_erase_of_lookup {w : β → Nat} {k : α} {v : β} {m : AList (fun _ : α => β)}
    (hlookup : m.lookup k = some v) : (m.erase k).total w + w v = m.total w := by
  simpa [hlookup] using total_erase_add w k m

theorem size_erase_of_lookup {k : α} {v : β} {m : AList (fun _ : α => β)}
    (hlookup : m.lookup k = some v) : (m.erase k).size + 1 = m.size := by
  rw [size_eq_total, size_eq_total]
  exact total_erase_of_lookup hlookup

theorem size_erase_of_none {k : α} {m : AList (fun _ : α => β)} (hnone : m.lookup k = none) :
    (m.erase k).size = m.size := by
  rw [size_eq_total, size_eq_total]
  simpa [hnone] using total_erase_add (fun _ => 1) k m

theorem size_erase_le (k : α) (m : AList (fun _ : α => β)) : (m.erase k).size ≤ m.size := by
  have hadd := total_erase_add (fun _ => 1) k m
  rw [size_eq_total, size_eq_total]
  omega

theorem size_insert (k : α) (v : β) (m : AList (fun _ : α => β)) :
    (m.insert k v).size = (m.erase k).size + 1 := by
  rw [size_eq_total, size_eq_total, total_insert]
  omega

theorem size_eq_zero_of_lookup {m : AList (fun _ : α => β)} (h : ∀ k, m.lookup k = none) :
    m.size = 0 := by
  by_contra hne
  obtain ⟨e, he⟩ := List.exists_mem_of_length_pos (Nat.pos_of_ne_zero hne)
  have hmem : m.lookup e.1 = some e.2 := AList.mem_lookup_iff.mpr he
  rw [h e.1] at hmem
  cases hmem

/-- A map that holds no more weighs no more. -/
theorem total_le_of_lookup (w : β → Nat) {m m' : AList (fun _ : α => β)}
    (h : ∀ k v, m.lookup k = some v → m'.lookup k = some v) : m.total w ≤ m'.total w := by
  have hsubset : m.entries ⊆ m'.entries := by
    rintro ⟨k, v⟩ hmem
    exact AList.mem_lookup_iff.mp (h k v (AList.mem_lookup_iff.mpr hmem))
  obtain ⟨l, hperm, hsub⟩ := List.subperm_of_subset m.nodupKeys.nodup hsubset
  have hsum := (hsub.map fun e => w e.2).sum_le_sum fun _ _ => Nat.zero_le _
  rw [(hperm.map fun e => w e.2).sum_eq] at hsum
  exact hsum

theorem total_congr_of_lookup (w : β → Nat) {m m' : AList (fun _ : α => β)}
    (h : ∀ k, m.lookup k = m'.lookup k) : m.total w = m'.total w :=
  Nat.le_antisymm (total_le_of_lookup w fun k _ hk => (h k).symm.trans hk)
    (total_le_of_lookup w fun k _ hk => (h k).trans hk)

/-- The values that pass a test, under their keys. -/
def restrict (p : α → β → Bool) (m : AList (fun _ : α => β)) : AList (fun _ : α => β) :=
  ⟨m.entries.filter fun e => p e.1 e.2, m.nodupKeys.sublist List.filter_sublist⟩

theorem lookup_restrict {p : α → β → Bool} {m : AList (fun _ : α => β)} {k : α} {v : β} :
    (m.restrict p).lookup k = some v ↔ m.lookup k = some v ∧ p k v = true := by
  have hmem : ∀ m : AList (fun _ : α => β), m.lookup k = some v ↔ ⟨k, v⟩ ∈ m.entries :=
    fun _ => AList.mem_lookup_iff
  rw [hmem, hmem]
  exact List.mem_filter

theorem entries_perm_filter (p : β → Bool) {m m' : AList (fun _ : α => β)}
    (h : ∀ k, m.lookup k = (m'.lookup k).filter p) :
    m.entries.Perm (m'.entries.filter fun e => p e.2) := by
  rw [List.perm_ext_iff_of_nodup m.nodupKeys.nodup (m'.nodupKeys.nodup.filter _)]
  rintro ⟨k, v⟩
  rw [List.mem_filter, ← AList.mem_lookup_iff, ← AList.mem_lookup_iff, h k]
  exact Option.mem_filter_iff

end AList
