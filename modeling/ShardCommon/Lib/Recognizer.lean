import ShardCommon.Lib.BufferLayout

/-!
# Walks that recognise a format

A format is given by its items and the bytes each is written as. A walk recognises it when it
succeeds in front of an item, stops right behind it, and succeeds nowhere else. Walks in sequence
recognise pairs, and a loop recognises lists.
-/

namespace Go

variable {ε α τ υ : Type} {limit : Nat} {buf : List α}

/-- The walk recognises the items written as `bytes`; it may refuse those that end behind `limit`. -/
structure Reads (limit : Nat) (buf : List α) (bytes : τ → List α) (walk : Nat → Run ε Nat) :
    Prop where
  sound : ∀ {off stop}, off ≤ buf.length → (walk off).outcome = .ok stop →
    ∃ item, StandsAt buf off (bytes item) ∧ stop = off + (bytes item).length
  complete : ∀ {off} item, StandsAt buf off (bytes item) → off + (bytes item).length ≤ limit →
    (walk off).outcome = .ok (off + (bytes item).length)

namespace Reads

variable {bytes : τ → List α} {walk : Nat → Run ε Nat}

theorem seq {bytes' : υ → List α} {walk' : Nat → Run ε Nat} (h : Reads limit buf bytes walk)
    (h' : Reads limit buf bytes' walk') :
    Reads limit buf (fun pair : τ × υ => bytes pair.1 ++ bytes' pair.2)
      (fun off => walk off >>= walk') where
  sound {off stop} hoff hstop := by
    obtain ⟨middle, hmiddle, hstop⟩ := Run.bind_outcome_ok.mp hstop
    obtain ⟨first, hfirst, rfl⟩ := h.sound hoff hmiddle
    obtain ⟨second, hsecond, rfl⟩ := h'.sound hfirst.length_le hstop
    refine ⟨(first, second), standsAt_append_iff.mpr ⟨hfirst, hsecond⟩, ?_⟩
    rw [List.length_append, Nat.add_assoc]
  complete {off} pair hstands hlimit := by
    obtain ⟨hfirst, hsecond⟩ := standsAt_append_iff.mp hstands
    rw [List.length_append, ← Nat.add_assoc] at hlimit ⊢
    exact Run.bind_outcome_ok.mpr
      ⟨_, h.complete pair.1 hfirst (by omega), h'.complete pair.2 hsecond hlimit⟩

/-- The same format described by other items. -/
theorem of_items {bytes' : υ → List α} (h : Reads limit buf bytes walk)
    (hto : ∀ item, ∃ item', bytes' item' = bytes item)
    (hof : ∀ item', ∃ item, bytes item = bytes' item') : Reads limit buf bytes' walk where
  sound {off stop} hoff hstop := by
    obtain ⟨item, hitem, hstop⟩ := h.sound hoff hstop
    obtain ⟨item', heq⟩ := hto item
    exact ⟨item', heq ▸ hitem, heq ▸ hstop⟩
  complete {off} item' hstands hlimit := by
    obtain ⟨item, heq⟩ := hof item'
    rw [← heq] at hstands hlimit ⊢
    exact h.complete item hstands hlimit

theorem iterate (h : Reads limit buf bytes walk) : ∀ count,
    Reads limit buf (fun items : { items : List τ // items.length = count } =>
      items.val.flatMap bytes) (Run.iterate walk count)
  | 0 =>
    { sound := by
        intro off stop hoff hstop
        cases hstop
        exact ⟨⟨[], rfl⟩, standsAt_nil_iff.mpr hoff, rfl⟩
      complete := by
        rintro off ⟨items, hitems⟩ _ _
        obtain rfl := List.length_eq_zero_iff.mp hitems
        rfl }
  | count + 1 => by
    apply (h.seq (iterate h count)).of_items
    · rintro ⟨item, items, hitems⟩
      exact ⟨⟨item :: items, by rw [List.length_cons, hitems]⟩, rfl⟩
    · rintro ⟨items, hitems⟩
      obtain ⟨item, rest, rfl⟩ := List.exists_cons_of_length_eq_add_one hitems
      exact ⟨(item, ⟨rest, Nat.succ.inj hitems⟩), rfl⟩

end Reads

end Go
