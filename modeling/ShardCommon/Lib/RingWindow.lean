import Mathlib.Data.List.Basic
import Mathlib.Tactic.Common

/-!
# The window a ring buffer keeps

A ring that is written at its head and then advanced holds the values written last. `past` lists
everything written, newest first; the ring's window is its prefix of length `count`.
-/

namespace RingWindow

variable {α : Type*} {slots : List α} {head count : Nat} {past : List α}

/-- The slot of the `j`-th newest value, for a head that points at the slot to be written next. -/
def slotOf (capacity head j : Nat) : Nat :=
  if j < head then head - 1 - j else head + capacity - 1 - j

structure Holds (slots : List α) (head count : Nat) (past : List α) : Prop where
  head_lt : head < slots.length
  count_eq : count = min slots.length past.length
  slot : ∀ j, j < count → slots[slotOf slots.length head j]? = past[j]?

theorem slotOf_ne {capacity j : Nat} (hj : j + 1 < capacity) :
    slotOf capacity head j ≠ head := by
  rw [slotOf]
  split <;> omega

theorem succ_mod {capacity : Nat} (hhead : head < capacity) :
    (head + 1) % capacity = if head + 1 = capacity then 0 else head + 1 := by
  split
  · next h => rw [h, Nat.mod_self]
  · exact Nat.mod_eq_of_lt (by omega)

theorem slotOf_succ {capacity j : Nat} (hhead : head < capacity) (hj : j + 1 < capacity) :
    slotOf capacity ((head + 1) % capacity) (j + 1) = slotOf capacity head j := by
  rw [succ_mod hhead]
  simp only [slotOf]
  split <;> split <;> split <;> omega

theorem slotOf_zero {capacity : Nat} (hhead : head < capacity) :
    slotOf capacity ((head + 1) % capacity) 0 = head := by
  rw [succ_mod hhead]
  simp only [slotOf]
  split <;> split <;> omega

theorem Holds.empty (fill : α) {capacity : Nat} (hcapacity : 0 < capacity) :
    Holds (List.replicate capacity fill) 0 0 [] := by
  constructor
  · simpa using hcapacity
  · simp
  · intro j hj
    omega

/-- Writing at the head: the window slides by one. -/
theorem Holds.push (h : Holds slots head count past) (value : α) :
    Holds (slots.set head value) ((head + 1) % slots.length)
      (if count = slots.length then count else count + 1) (value :: past) := by
  have hcount := h.count_eq
  have hcapacity : 0 < slots.length := Nat.lt_of_le_of_lt (Nat.zero_le head) h.head_lt
  constructor
  · rw [List.length_set]
    exact Nat.mod_lt _ hcapacity
  · rw [List.length_set, List.length_cons]
    split <;> omega
  · intro j hj
    rw [List.length_set]
    cases j with
    | zero =>
        rw [slotOf_zero h.head_lt, List.getElem?_set_self h.head_lt]
        rfl
    | succ j =>
        have hlt : j + 1 < slots.length := by
          split at hj <;> omega
        rw [slotOf_succ h.head_lt hlt, List.getElem?_set_ne (slotOf_ne hlt).symm,
          h.slot j (by split at hj <;> omega), List.getElem?_cons_succ]

/-- Every younger value of the window sits in another slot. -/
theorem Holds.younger (h : Holds slots head count past) {j : Nat} {value : α}
    (hj : j + 1 < slots.length) (hcount : j < count) (hvalue : past[j]? = some value) :
    ∃ i, i ≠ head ∧ slots[i]? = some value :=
  ⟨slotOf slots.length head j, slotOf_ne hj, by rw [h.slot j hcount, hvalue]⟩

/-! ## Occupied slots -/

/-- A ring fills from its first slot on, so the slots below `count` are the occupied ones. -/
structure Filled (slots : List α) (head count : Nat) : Prop where
  head_lt : head < slots.length
  count_le : count ≤ slots.length
  head_eq : count < slots.length → head = count

theorem Filled.empty (fill : α) {capacity : Nat} (hcapacity : 0 < capacity) :
    Filled (List.replicate capacity fill) 0 0 := by
  constructor
  · simpa using hcapacity
  · exact Nat.zero_le _
  · exact fun _ => rfl

theorem Filled.push (h : Filled slots head count) (value : α) :
    Filled (slots.set head value) ((head + 1) % slots.length)
      (if count = slots.length then count else count + 1) := by
  have hhead := h.head_lt
  have hcount := h.count_le
  constructor
  · rw [List.length_set]
    exact Nat.mod_lt _ (by omega)
  · rw [List.length_set]
    split <;> omega
  · intro hlt
    rw [List.length_set] at hlt
    split at hlt
    · omega
    · rename_i hroom
      have heq := h.head_eq (by omega)
      rw [if_neg hroom, Nat.mod_eq_of_lt (by omega), heq]

/-- The value just written is in an occupied slot. -/
theorem Filled.pushed (h : Filled slots head count) (value : α) :
    ∃ slot < if count = slots.length then count else count + 1,
      (slots.set head value)[slot]? = some value := by
  have hhead := h.head_lt
  have hcount := h.count_le
  refine ⟨head, ?_, List.getElem?_set_self hhead⟩
  split
  · omega
  · rw [h.head_eq (by omega)]
    exact Nat.lt_succ_self _

/-- Another value keeps its slot, unless the ring is full and the slot is the one overwritten. -/
theorem Filled.kept (h : Filled slots head count) (value : α) {other : α} {slot : Nat}
    (hslot : slot < count) (hother : slots[slot]? = some other)
    (hold : count = slots.length → slots[head]? ≠ some other) :
    ∃ slot < if count = slots.length then count else count + 1,
      (slots.set head value)[slot]? = some other := by
  have hcount := h.count_le
  refine ⟨slot, by split <;> omega, ?_⟩
  rw [List.getElem?_set_ne, hother]
  rintro rfl
  by_cases hfull : count = slots.length
  · exact hold hfull hother
  · have := h.head_eq (by omega)
    omega

end RingWindow
