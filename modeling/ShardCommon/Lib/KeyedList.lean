import Mathlib.Data.List.Induction
import Mathlib.Data.List.Nodup
import Mathlib.Logic.Function.Basic
import Mathlib.Tactic.Common

/-!
# Lists of keyed items

Items with a key are put into buckets in the order in which the keys are first seen, or numbered by a
counter of their key. Both are described key by key: a bucket holds the items of its key in their
order, and the numbers of a key follow its counter.
-/

namespace Keyed

variable {κ α β : Type} [DecidableEq κ]

/-- The items of one key. -/
def items (k : κ) (l : List (κ × α)) : List α := (l.filter (·.1 = k)).map Prod.snd

@[simp] theorem items_nil (k : κ) : items k ([] : List (κ × α)) = [] := rfl

theorem items_cons (k : κ) (item : κ × α) (l : List (κ × α)) :
    items k (item :: l) = if item.1 = k then item.2 :: items k l else items k l := by
  by_cases h : item.1 = k <;> simp [items, h]

theorem items_append (k : κ) (l m : List (κ × α)) : items k (l ++ m) = items k l ++ items k m := by
  rw [items, items, items, List.filter_append, List.map_append]

theorem mem_items {k : κ} {l : List (κ × α)} {a : α} : a ∈ items k l ↔ (k, a) ∈ l := by
  simp [items]

/-- Items under one key. -/
theorem items_map_mk (k key : κ) (values : List α) :
    items k (values.map fun a => (key, a)) = if key = k then values else [] := by
  induction values with
  | nil => simp
  | cons a values ih =>
      rw [List.map_cons, items_cons, ih]
      split <;> rfl

/-- What is made of the elements, filed under their keys. -/
theorem items_flatMap (k : κ) (key : β → κ) (g : β → List α) (l : List β) :
    items k (l.flatMap fun b => (g b).map fun a => (key b, a)) =
      (l.filter fun b => key b = k).flatMap g := by
  induction l with
  | nil => rfl
  | cons b l ih =>
      rw [List.flatMap_cons, items_append, items_map_mk, ih]
      by_cases hb : key b = k <;> simp [hb]

/-- What is made of elements under their own keys, key by key. -/
theorem filter_flatMap_of_key {key : β → κ} {key' : α → κ} {g : β → List α} {l : List β}
    (h : ∀ b ∈ l, ∀ a ∈ g b, key' a = key b) (k : κ) :
    (l.flatMap g).filter (fun a => key' a = k) = (l.filter fun b => key b = k).flatMap g := by
  induction l with
  | nil => rfl
  | cons b l ih =>
      obtain ⟨hb, hl⟩ := List.forall_mem_cons.mp h
      rw [List.flatMap_cons, List.filter_append, ih hl]
      by_cases hk : key b = k
      · have hall : (g b).filter (fun a => key' a = k) = g b :=
          List.filter_eq_self.mpr fun a ha => decide_eq_true ((hb a ha).trans hk)
        rw [hall, List.filter_cons_of_pos (by simpa using hk), List.flatMap_cons]
      · have hnone : (g b).filter (fun a => key' a = k) = [] :=
          List.filter_eq_nil_iff.mpr fun a ha hak => hk ((hb a ha).symm.trans (of_decide_eq_true hak))
        rw [hnone, List.nil_append, List.filter_cons_of_neg (by simpa using hk)]

/-- A keyed list is given by its items up to the order of the keys. -/
theorem perm_of_items {l m : List (κ × α)} (h : ∀ k, items k l = items k m) : l.Perm m := by
  classical
  have hcount : ∀ (k : κ) (a : α) (l : List (κ × α)), (items k l).count a = l.count (k, a) := by
    intro k a l
    induction l with
    | nil => rfl
    | cons item l ih =>
        obtain ⟨key, value⟩ := item
        rw [items_cons, List.count_cons, ← ih]
        by_cases hk : key = k
        · subst hk
          simp [List.count_cons]
        · simp [hk]
  rw [List.perm_iff_count]
  rintro ⟨k, a⟩
  rw [← hcount, ← hcount, h]

/-! ## Buckets -/

/-- Buckets with the place of each key among them. -/
structure Buckets (κ α : Type) where
  index : κ → Option Nat
  buckets : List (κ × List α)

namespace Buckets

def empty : Buckets κ α := ⟨fun _ => none, []⟩

/-- The item goes to the bucket of its key; a new key opens a bucket at the end. -/
def add (b : Buckets κ α) (item : κ × α) : Buckets κ α :=
  match b.index item.1 with
  | some i =>
    { b with buckets := b.buckets.modify i fun bucket => (bucket.1, bucket.2 ++ [item.2]) }
  | none =>
    ⟨Function.update b.index item.1 (some b.buckets.length), b.buckets ++ [(item.1, [item.2])]⟩

/-- The buckets hold the items of `l`, each key in one bucket. -/
structure Sorts (b : Buckets κ α) (l : List (κ × α)) : Prop where
  index_iff : ∀ k i, b.index k = some i ↔ (b.buckets.map Prod.fst)[i]? = some k
  holds : ∀ bucket ∈ b.buckets, bucket.2 = items bucket.1 l
  seen : ∀ k, b.index k = none → items k l = []

variable {b : Buckets κ α} {l : List (κ × α)}

theorem Sorts.nodup_keys (h : b.Sorts l) : (b.buckets.map Prod.fst).Nodup := by
  rw [List.nodup_iff_getElem?_ne_getElem?]
  intro i j hij hj heq
  rw [List.getElem?_eq_getElem hj] at heq
  have hi := (h.index_iff _ i).mpr heq
  have hj' := (h.index_iff _ j).mpr (List.getElem?_eq_getElem hj)
  rw [hi] at hj'
  exact absurd (Option.some.inj hj') (Nat.ne_of_lt hij)

theorem sorts_empty : (empty : Buckets κ α).Sorts [] :=
  ⟨by simp [empty], by simp [empty], fun _ _ => rfl⟩

theorem items_add (k : κ) (l : List (κ × α)) (item : κ × α) :
    items k (l ++ [item]) = if item.1 = k then items k l ++ [item.2] else items k l := by
  rw [items_append, items_cons, items_nil]
  split <;> simp

/-- An item of a known key. -/
theorem Sorts.add_known (h : b.Sorts l) {key : κ} {i : Nat} (hkey : b.index key = some i) (a : α) :
    Sorts { b with buckets := b.buckets.modify i fun bucket => (bucket.1, bucket.2 ++ [a]) }
      (l ++ [(key, a)]) := by
  have hkeys : (b.buckets.modify i fun bucket => (bucket.1, bucket.2 ++ [a])).map Prod.fst =
      b.buckets.map Prod.fst := by
    apply List.ext_getElem?
    intro j
    rw [List.getElem?_map, List.getElem?_map, List.getElem?_modify]
    cases b.buckets[j]? with
    | none => rfl
    | some bucket => by_cases hij : i = j <;> simp [hij]
  refine ⟨?_, ?_, ?_⟩
  · rw [hkeys]
    exact h.index_iff
  · intro bucket hbucket
    obtain ⟨j, hj⟩ := List.mem_iff_getElem?.mp hbucket
    rw [List.getElem?_modify] at hj
    obtain ⟨old, hold, rfl⟩ := Option.map_eq_some_iff.mp hj
    have hplace := (h.index_iff old.1 j).mpr (by rw [List.getElem?_map, hold]; rfl)
    have hholds := h.holds old (List.mem_of_getElem? hold)
    rw [items_add]
    by_cases hij : i = j
    · have hsame : key = old.1 := by
        have hi := (h.index_iff key i).mp hkey
        rw [hij, List.getElem?_map, hold] at hi
        exact (Option.some.inj hi).symm
      rw [if_pos hij, if_pos hsame, hholds]
    · have hother : key ≠ old.1 := by
        rintro rfl
        exact hij (Option.some.inj (hkey.symm.trans hplace))
      rw [if_neg hij, if_neg hother]
      exact hholds
  · intro k hk
    have hne : key ≠ k := by
      rintro rfl
      exact absurd (hkey.symm.trans hk) (by nofun)
    rw [items_add, if_neg hne]
    exact h.seen k hk

/-- An item of a key that opens a bucket. -/
theorem Sorts.add_new (h : b.Sorts l) {key : κ} (hkey : b.index key = none) (a : α) :
    Sorts ⟨Function.update b.index key (some b.buckets.length), b.buckets ++ [(key, [a])]⟩
      (l ++ [(key, a)]) := by
  have hfresh : ∀ i : Nat, (b.buckets.map Prod.fst)[i]? ≠ some key := by
    intro i hi
    exact absurd (hkey.symm.trans ((h.index_iff key i).mpr hi)) (by nofun)
  have hlength : (b.buckets.map Prod.fst).length = b.buckets.length := List.length_map ..
  refine ⟨?_, ?_, ?_⟩
  · intro k i
    dsimp only
    rw [List.map_append, List.map_singleton]
    rcases Nat.lt_trichotomy i b.buckets.length with hlt | rfl | hgt
    · rw [List.getElem?_append_left (by omega), ← h.index_iff]
      by_cases hk : k = key
      · subst hk
        rw [Function.update_self, hkey, Option.some.injEq]
        exact ⟨fun heq => by omega, nofun⟩
      · rw [Function.update_of_ne hk]
    · rw [List.getElem?_append_right (by omega), hlength, Nat.sub_self, List.getElem?_cons_zero,
        Option.some.injEq]
      by_cases hk : k = key
      · subst hk
        rw [Function.update_self]
        exact ⟨fun _ => rfl, fun _ => rfl⟩
      · rw [Function.update_of_ne hk, h.index_iff, List.getElem?_eq_none (by omega)]
        exact ⟨nofun, fun heq => absurd heq.symm hk⟩
    · rw [List.getElem?_eq_none (by rw [List.length_append, List.length_singleton]; omega)]
      by_cases hk : k = key
      · subst hk
        rw [Function.update_self, Option.some.injEq]
        exact ⟨fun heq => by omega, nofun⟩
      · rw [Function.update_of_ne hk, h.index_iff, List.getElem?_eq_none (by omega)]
  · intro bucket hbucket
    rcases List.mem_append.mp hbucket with hold | hnew
    · have hne : key ≠ bucket.1 := by
        intro heq
        obtain ⟨i, hi⟩ := List.mem_iff_getElem?.mp (List.mem_map_of_mem hold)
        exact hfresh i (hi.trans (congrArg some heq.symm))
      rw [items_add, if_neg hne]
      exact h.holds bucket hold
    · obtain rfl := List.mem_singleton.mp hnew
      rw [items_add, if_pos rfl, h.seen key hkey, List.nil_append]
  · intro k hk
    dsimp only at hk
    have hne : k ≠ key := by
      rintro rfl
      rw [Function.update_self] at hk
      cases hk
    rw [Function.update_of_ne hne] at hk
    rw [items_add, if_neg hne.symm]
    exact h.seen k hk

theorem Sorts.add (h : b.Sorts l) (item : κ × α) : (b.add item).Sorts (l ++ [item]) := by
  cases hkey : b.index item.1 with
  | some i =>
      rw [Buckets.add, hkey]
      exact h.add_known hkey item.2
  | none =>
      rw [Buckets.add, hkey]
      exact h.add_new hkey item.2

theorem sorts_foldl (l : List (κ × α)) : (l.foldl add (empty : Buckets κ α)).Sorts l := by
  induction l using List.reverseRecOn with
  | nil => exact sorts_empty
  | append_singleton l item ih =>
      rw [List.foldl_append]
      exact ih.add item

/-- What is made of the buckets, one after the other, is for each key made of its items. -/
theorem Sorts.items_flatMap (h : b.Sorts l) {g : List α → List β} (hg : g [] = []) (k : κ) :
    items k (b.buckets.flatMap fun bucket => (g bucket.2).map fun c => (bucket.1, c)) =
      g (items k l) := by
  have hnodup := h.nodup_keys
  have hstep : ∀ buckets : List (κ × List α), (∀ bucket ∈ buckets, bucket.2 = items bucket.1 l) →
      (buckets.map Prod.fst).Nodup → (buckets.filter fun bucket => bucket.1 = k).flatMap
        (fun bucket => g bucket.2) = if k ∈ buckets.map Prod.fst then g (items k l) else [] := by
    intro buckets
    induction buckets with
    | nil => intro _ _; rfl
    | cons bucket buckets ih =>
        intro hholds hkeys
        obtain ⟨hbucket, hrest⟩ := List.forall_mem_cons.mp hholds
        rw [List.map_cons, List.nodup_cons] at hkeys
        have hih := ih hrest hkeys.2
        by_cases hk : bucket.1 = k
        · subst hk
          rw [if_neg hkeys.1] at hih
          simp [hih, hbucket]
        · have hmem : k ∈ buckets.map Prod.fst ↔ k ∈ (bucket :: buckets).map Prod.fst := by
            rw [List.map_cons, List.mem_cons]
            exact ⟨.inr, fun h => h.resolve_left (Ne.symm hk)⟩
          rw [List.filter_cons_of_neg (by simpa using hk), hih]
          exact if_congr hmem rfl rfl
  rw [Keyed.items_flatMap, hstep b.buckets h.holds hnodup]
  split
  · rfl
  · next hmem =>
      have hnone : b.index k = none := by
        cases hindex : b.index k with
        | none => rfl
        | some i => exact absurd (List.mem_of_getElem? ((h.index_iff k i).mp hindex)) hmem
      rw [h.seen k hnone, hg]

end Buckets

/-! ## Counters -/

/-- The counters after the keys of a list were counted. -/
def bump (seq : κ → UInt64) (l : List (κ × α)) : κ → UInt64 :=
  l.foldl (fun seq item => Function.update seq item.1 (seq item.1 + 1)) seq

/-- Each item with the number it is given by the counter of its key. -/
def number (seq : κ → UInt64) : List (κ × α) → List (κ × (α × UInt64))
  | [] => []
  | item :: l =>
    let seq := Function.update seq item.1 (seq item.1 + 1)
    (item.1, item.2, seq item.1) :: number seq l

theorem map_fst_number (seq : κ → UInt64) (l : List (κ × α)) :
    (number seq l).map Prod.fst = l.map Prod.fst := by
  induction l generalizing seq with
  | nil => rfl
  | cons item l ih => rw [number, List.map_cons, List.map_cons, ih]

theorem bump_apply (seq : κ → UInt64) (l : List (κ × α)) (k : κ) :
    bump seq l k = seq k + UInt64.ofNat (items k l).length := by
  induction l generalizing seq with
  | nil => simp [bump]
  | cons item l ih =>
      have hstep : bump seq (item :: l) = bump (Function.update seq item.1 (seq item.1 + 1)) l := rfl
      rw [hstep, ih, items_cons]
      by_cases hk : item.1 = k
      · subst hk
        rw [Function.update_self, if_pos rfl, List.length_cons, UInt64.ofNat_add, UInt64.add_assoc,
          UInt64.add_comm 1]
        rfl
      · rw [Function.update_of_ne (Ne.symm hk), if_neg hk]

/-- The numbers of a key follow its counter. -/
theorem items_number (seq : κ → UInt64) (l : List (κ × α)) (k : κ) :
    items k (number seq l) =
      ((items k l).zipIdx 1).map fun item => (item.1, seq k + UInt64.ofNat item.2) := by
  induction l generalizing seq with
  | nil => rfl
  | cons item l ih =>
      rw [number, items_cons, items_cons, ih]
      by_cases hk : item.1 = k
      · subst hk
        have hshift : (items item.1 l).zipIdx (1 + 1) =
            ((items item.1 l).zipIdx 1).map fun item => (item.1, item.2 + 1) := List.zipIdx_succ ..
        rw [if_pos rfl, if_pos rfl, Function.update_self, List.zipIdx_cons, List.map_cons, hshift,
          List.map_map]
        refine congrArg _ (List.map_congr_left ?_)
        rintro ⟨a, i⟩ _
        have hsum : seq item.1 + 1 + UInt64.ofNat i = seq item.1 + UInt64.ofNat (i + 1) := by
          rw [UInt64.ofNat_add, UInt64.add_assoc, UInt64.add_comm 1]
          rfl
        exact congrArg (Prod.mk a) hsum
      · rw [if_neg hk, if_neg hk, Function.update_of_ne (Ne.symm hk)]

end Keyed
