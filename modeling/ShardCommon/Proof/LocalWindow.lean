import ShardCommon.Lib.RingWindow
import ShardCommon.TxidSet

/-!
# The window of the local TxID set

A key stays in a stripe for `capacity` further insertions or its TTL, whichever ends first, as long
as no call evicts a live key through an older slot that still names it. Expired keys that come back
leave such slots behind, so the condition is about the step that overwrites one.
-/

namespace ShardCommon.TxidSet

open Go

structure Verdict where
  key : Key
  now : Int
  seen : Bool
  deriving DecidableEq

/-! ## What a run of calls has told its callers, newest call first -/

def insertions (past : List Verdict) : List Key := (past.filter (!·.seen)).map (·.key)

def lastCall (key : Key) (past : List Verdict) : Option Int :=
  (past.find? (·.key = key)).map (·.now)

/-- The calls on any key that returned false after the last one on `key` that did. -/
def insertionsAfter (key : Key) (past : List Verdict) : Nat :=
  (past.takeWhile fun v => !(decide (v.key = key) && !v.seen)).countP (!·.seen)

/-- The key was inserted, fewer than `capacity` insertions came after its last one, and the last
call on it is at most `ttl` old. -/
structure InWindow (capacity : Nat) (ttl : Int) (past : List Verdict) (key : Key) (now : Int) :
    Prop where
  inserted : ∃ v ∈ past, v.key = key ∧ v.seen = false
  few : insertionsAfter key past < capacity
  fresh : ∃ t, lastCall key past = some t ∧ now - t ≤ ttl

namespace LocalShard

variable {s : LocalShard} {key k : Key} {now : Int} {capacity : Nat} {ttl : Int}
  {past : List Verdict}

/-- The call overwrites a slot that names a live key, while a younger slot names it too. -/
def EvictsReinserted (s : LocalShard) (key : Key) (now : Int) : Prop :=
  s.remembers key now = false ∧ s.count = s.capacity ∧ s.oldest ≠ key ∧
    (∃ i, i ≠ s.head ∧ s.ring[i]? = some s.oldest) ∧ s.remembers s.oldest now = true

/-- Runs of calls at non-decreasing times from an empty stripe, each step meeting `allowed`. -/
inductive Calls (allowed : LocalShard → Key → Int → Prop) (capacity : Nat) (ttl : Int) :
    LocalShard → List Verdict → Prop
  | empty : Calls allowed capacity ttl (LocalShard.empty capacity ttl) []
  | call {s : LocalShard} {past : List Verdict} (key : Key) (now : Int) (hpast : Calls allowed capacity ttl s past)
      (hclock : ∀ v ∈ past, v.now ≤ now) (hrange : -2 ^ 63 ≤ now + ttl ∧ now + ttl < 2 ^ 63)
      (hallowed : allowed s key now) :
      Calls allowed capacity ttl (s.seenAndAdd key now).2
        (⟨key, now, (s.seenAndAdd key now).1⟩ :: past)

/-- The ring is the window of insertions, an entry carries the expiry of the last call on its key,
and a key of the window that has no entry had expired when it lost it. -/
structure WindowInv (capacity : Nat) (ttl : Int) (s : LocalShard) (past : List Verdict) :
    Prop where
  capacity_eq : s.capacity = capacity
  ttl_eq : s.ttl = ttl
  length_eq : s.ring.length = capacity
  ring : RingWindow.Holds s.ring s.head s.count (insertions past)
  entry : ∀ k exp, s.entries.lookup k = some exp → ∃ t, lastCall k past = some t ∧ exp = t + ttl
  kept : ∀ k ∈ (insertions past).take capacity, (∃ exp, s.entries.lookup k = some exp) ∨
    ∃ t, lastCall k past = some t ∧ ∃ v ∈ past, t + ttl < v.now

theorem lastCall_cons_self (key : Key) (now : Int) (seen : Bool) (past : List Verdict) :
    lastCall key (⟨key, now, seen⟩ :: past) = some now := by
  simp [lastCall]

theorem lastCall_cons_of_ne (h : k ≠ key) (now : Int) (seen : Bool) (past : List Verdict) :
    lastCall k (⟨key, now, seen⟩ :: past) = lastCall k past := by
  simp [lastCall, h.symm]

theorem insertions_cons_hit (key : Key) (now : Int) (past : List Verdict) :
    insertions (⟨key, now, true⟩ :: past) = insertions past := by
  simp [insertions]

theorem insertions_cons_miss (key : Key) (now : Int) (past : List Verdict) :
    insertions (⟨key, now, false⟩ :: past) = key :: insertions past := by
  simp [insertions]

/-- Counting the insertions after the last one of a key is finding the key in the window. -/
theorem mem_take_insertions (h : ∃ v ∈ past, v.key = key ∧ v.seen = false)
    (hfew : insertionsAfter key past < capacity) : key ∈ (insertions past).take capacity := by
  induction past generalizing capacity with
  | nil =>
      obtain ⟨v, hv, _⟩ := h
      cases hv
  | cons w past ih =>
      obtain ⟨other, now, seen⟩ := w
      cases seen with
      | true =>
          rw [insertions_cons_hit]
          apply ih
          · obtain ⟨v, hv, hkey, hseen⟩ := h
            rcases List.mem_cons.mp hv with rfl | hv
            · cases hseen
            · exact ⟨v, hv, hkey, hseen⟩
          · simpa [insertionsAfter] using hfew
      | false =>
          rw [insertions_cons_miss]
          obtain ⟨capacity, rfl⟩ : ∃ n, capacity = n + 1 := ⟨capacity - 1, by omega⟩
          rw [List.take_succ_cons]
          by_cases hother : other = key
          · rw [hother]
            exact List.mem_cons_self
          apply List.mem_cons_of_mem
          apply ih
          · obtain ⟨v, hv, hkey, hseen⟩ := h
            rcases List.mem_cons.mp hv with rfl | hv
            · exact absurd hkey hother
            · exact ⟨v, hv, hkey, hseen⟩
          · simpa [insertionsAfter, hother] using hfew

/-! ## One call keeps the invariant -/

theorem WindowInv.empty (hcapacity : 0 < capacity) :
    WindowInv capacity ttl (LocalShard.empty capacity ttl) [] := by
  constructor
  · rfl
  · rfl
  · exact List.length_replicate
  · exact RingWindow.Holds.empty _ hcapacity
  · intro k exp h
    cases h
  · intro k hk
    simp [insertions] at hk

theorem expiry_eq (h : WindowInv capacity ttl s past) (httl : 0 < ttl)
    (hrange : -2 ^ 63 ≤ now + ttl ∧ now + ttl < 2 ^ 63) : s.expiry now = now + ttl := by
  rw [expiry, h.ttl_eq, if_pos httl, wrap64_of_range hrange.1 hrange.2]

theorem WindowInv.hit (h : WindowInv capacity ttl s past) (httl : 0 < ttl)
    (hrange : -2 ^ 63 ≤ now + ttl ∧ now + ttl < 2 ^ 63) :
    WindowInv capacity ttl { s with entries := s.entries.insert key (s.expiry now) }
      (⟨key, now, true⟩ :: past) := by
  refine ⟨h.capacity_eq, h.ttl_eq, h.length_eq, ?_, ?_, ?_⟩
  · rw [insertions_cons_hit]
    exact h.ring
  · intro k exp hk
    by_cases hkey : k = key
    · subst hkey
      rw [AList.lookup_insert] at hk
      exact ⟨now, lastCall_cons_self .., by rw [← Option.some.inj hk, expiry_eq h httl hrange]⟩
    · rw [AList.lookup_insert_ne hkey] at hk
      rw [lastCall_cons_of_ne hkey]
      exact h.entry k exp hk
  · intro k hk
    rw [insertions_cons_hit] at hk
    by_cases hkey : k = key
    · subst hkey
      exact Or.inl ⟨_, AList.lookup_insert _⟩
    rw [AList.lookup_insert_ne hkey, lastCall_cons_of_ne hkey]
    rcases h.kept k hk with hentry | ⟨t, ht, v, hv, hexpired⟩
    · exact Or.inl hentry
    · exact Or.inr ⟨t, ht, v, List.mem_cons_of_mem _ hv, hexpired⟩

/-- A younger key of the window that the call evicts had expired already. -/
theorem expired_of_evicted (h : WindowInv capacity ttl s past)
    (hmiss : s.remembers key now = false) (hfull : s.count = s.capacity)
    (hallowed : ¬ s.EvictsReinserted key now) (hkey : s.oldest ≠ key)
    (hmem : s.oldest ∈ (insertions past).take (capacity - 1)) {exp : Int}
    (hexp : s.entries.lookup s.oldest = some exp) : exp < now := by
  by_contra hlive
  obtain ⟨j, hj, hjkey⟩ := List.mem_iff_getElem.mp hmem
  rw [List.getElem_take] at hjkey
  rw [List.length_take] at hj
  have hcount := h.ring.count_eq
  have hlength := h.length_eq
  have hslot := h.ring.younger (j := j) (by omega) (by omega)
    (List.getElem?_eq_some_iff.mpr ⟨by omega, hjkey⟩)
  refine hallowed ⟨hmiss, hfull, hkey, hslot, ?_⟩
  rw [remembers, hexp]
  simp
  omega

theorem lookup_insert_ne (hk : k ≠ key) :
    (s.insert key now).entries.lookup k =
      if s.count = s.capacity ∧ k = s.oldest then none else s.entries.lookup k := by
  rw [insert, AList.lookup_insert_ne hk]
  by_cases hfull : s.count = s.capacity
  · rw [if_pos hfull]
    by_cases hold : k = s.oldest
    · rw [hold, AList.lookup_erase, if_pos ⟨hfull, rfl⟩]
    · rw [AList.lookup_erase_ne hold, if_neg (by simp [hold])]
  · rw [if_neg hfull, if_neg (by simp [hfull])]

theorem WindowInv.miss (h : WindowInv capacity ttl s past) (httl : 0 < ttl)
    (hrange : -2 ^ 63 ≤ now + ttl ∧ now + ttl < 2 ^ 63) (hmiss : s.remembers key now = false)
    (hallowed : ¬ s.EvictsReinserted key now) :
    WindowInv capacity ttl (s.insert key now) (⟨key, now, false⟩ :: past) := by
  have hcapacity := h.capacity_eq
  have hlength := h.length_eq
  refine ⟨h.capacity_eq, h.ttl_eq, ?_, ?_, ?_, ?_⟩
  · rw [insert, List.length_set]
    exact h.length_eq
  · rw [insertions_cons_miss]
    have hpush := h.ring.push key
    rwa [h.length_eq, ← h.capacity_eq] at hpush
  · intro k exp hk
    by_cases hkey : k = key
    · subst hkey
      rw [insert, AList.lookup_insert] at hk
      exact ⟨now, lastCall_cons_self .., by rw [← Option.some.inj hk, expiry_eq h httl hrange]⟩
    · rw [lookup_insert_ne hkey] at hk
      rw [lastCall_cons_of_ne hkey]
      split at hk
      · cases hk
      · exact h.entry k exp hk
  · intro k hk
    obtain ⟨n, hn⟩ : ∃ n, capacity = n + 1 := ⟨capacity - 1, by have := h.ring.head_lt; omega⟩
    rw [insertions_cons_miss, hn, List.take_succ_cons] at hk
    by_cases hkey : k = key
    · subst hkey
      exact Or.inl ⟨_, AList.lookup_insert _⟩
    have hyoung : k ∈ (insertions past).take n := (List.mem_cons.mp hk).resolve_left hkey
    have hold : k ∈ (insertions past).take capacity :=
      (List.take_sublist_take_left (by omega)).subset hyoung
    rw [lookup_insert_ne hkey, lastCall_cons_of_ne hkey]
    rcases h.kept k hold with ⟨exp, hexp⟩ | ⟨t, ht, v, hv, hexpired⟩
    · -- an entry survives, unless it is evicted; then it had expired
      split
      · next hevicted =>
          obtain ⟨hfull, rfl⟩ := hevicted
          obtain ⟨t, ht, htexp⟩ := h.entry _ _ hexp
          have hpassed := expired_of_evicted h hmiss hfull hallowed hkey
            (by rwa [show capacity - 1 = n by omega]) hexp
          exact Or.inr ⟨t, ht, _, List.mem_cons_self, by rwa [← htexp]⟩
      · exact Or.inl ⟨exp, hexp⟩
    · exact Or.inr ⟨t, ht, v, List.mem_cons_of_mem _ hv, hexpired⟩

/-! ## Runs -/

theorem Calls.windowInv (hcapacity : 0 < capacity) (httl : 0 < ttl)
    (h : Calls (fun s key now => ¬ s.EvictsReinserted key now) capacity ttl s past) :
    WindowInv capacity ttl s past := by
  induction h with
  | empty => exact WindowInv.empty hcapacity
  | @call s past key now _ _ hrange hallowed ih =>
      rw [seenAndAdd]
      cases hseen : s.remembers key now with
      | true => exact ih.hit httl hrange
      | false => exact ih.miss httl hrange hseen hallowed

/-- A stripe that never evicts a live key through an older slot of it remembers every key for
`capacity` further insertions or its TTL. -/
theorem seenAndAdd_of_inWindow (hcapacity : 0 < capacity) (httl : 0 < ttl)
    (hrun : Calls (fun s key now => ¬ s.EvictsReinserted key now) capacity ttl s past)
    (hclock : ∀ v ∈ past, v.now ≤ now) (hwindow : InWindow capacity ttl past key now) :
    (s.seenAndAdd key now).1 = true := by
  have hinv := hrun.windowInv hcapacity httl
  obtain ⟨t, ht, hfresh⟩ := hwindow.fresh
  have hremembers : s.remembers key now = true := by
    rcases hinv.kept key (mem_take_insertions hwindow.inserted hwindow.few) with
      ⟨exp, hexp⟩ | ⟨t', ht', v, hv, hexpired⟩
    · obtain ⟨t', ht', rfl⟩ := hinv.entry key exp hexp
      obtain rfl : t = t' := Option.some.inj (ht.symm.trans ht')
      rw [remembers, hexp]
      simp
      omega
    · obtain rfl : t = t' := Option.some.inj (ht.symm.trans ht')
      have := hclock v hv
      omega
  rw [seenAndAdd, if_pos hremembers]

def keyA : Key := .copy 32 [1]

def keyB : Key := .copy 32 [2]

theorem seenAndAdd_of_inWindow_refresh :
    (((LocalShard.empty 2 5).seenAndAdd keyA 0).2.seenAndAdd keyA 3).1 = true := by
  have hrun : Calls (fun s key now => ¬ s.EvictsReinserted key now) 2 5
      ((LocalShard.empty 2 5).seenAndAdd keyA 0).2 [⟨keyA, 0, false⟩] :=
    .call keyA 0 .empty (by simp) (by decide) fun h => absurd h.2.1 (by decide)
  apply seenAndAdd_of_inWindow (by decide) (by decide) hrun (by simp)
  exact ⟨⟨_, List.mem_singleton_self _, rfl, rfl⟩, by decide, 0, by decide, by decide⟩

/-- With room for two keys, `keyA` is inserted, inserted again after it expired, and dropped by the
insertion of `keyB` although its second slot is the younger one. -/
theorem reinserted_key_forgotten : ∃ s past,
    Calls (fun _ _ _ => True) 2 1 s past ∧ (∀ v ∈ past, v.now ≤ 10) ∧
      InWindow 2 1 past keyA 10 ∧ (s.seenAndAdd keyA 10).1 = false := by
  refine ⟨_, _, .call keyB 10 (.call keyA 10 (.call keyA 0 .empty ?_ ?_ trivial) ?_ ?_ trivial)
    ?_ ?_ trivial, ?_, ⟨?_, ?_, 10, ?_, ?_⟩, ?_⟩
  all_goals decide

end LocalShard

end ShardCommon.TxidSet
