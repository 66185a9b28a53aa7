import ShardCommon.Lib.AssocTotal
import ShardCommon.Proof.LocalWindow

/-!
# The local TxID set never suppresses a novel key

An entry of a stripe carries the expiry that the last call on its key gave it, whatever evictions
came between, so a hit is always on a key that was passed before. And an entry always has a slot: the
call that overwrites a slot erases the key it names. Slots may outnumber entries, since a key that
comes back after it expired is written again, but never the other way round.
-/

namespace ShardCommon.TxidSet

open Go

variable {capacity : Nat} {ttl : Int} {past : List Verdict} {key : Key} {now : Int}

namespace LocalShard

variable {s : LocalShard} {k : Key}

structure SafeInv (capacity : Nat) (ttl : Int) (s : LocalShard) (past : List Verdict) : Prop where
  capacity_eq : s.capacity = capacity
  ttl_eq : s.ttl = ttl
  length_eq : s.ring.length = capacity
  filled : RingWindow.Filled s.ring s.head s.count
  entry : ∀ k exp, s.entries.lookup k = some exp →
    ∃ t, lastCall k past = some t ∧ (0 < ttl → exp = t + ttl)
  slot : ∀ k exp, s.entries.lookup k = some exp → ∃ slot < s.count, s.ring[slot]? = some k

theorem SafeInv.empty (hcapacity : 0 < capacity) (ttl : Int) :
    SafeInv capacity ttl (LocalShard.empty capacity ttl) [] := by
  refine ⟨rfl, rfl, List.length_replicate, RingWindow.Filled.empty _ hcapacity, ?_, ?_⟩
  · intro k exp hk
    cases hk
  · intro k exp hk
    cases hk

theorem SafeInv.expiry_eq (h : SafeInv capacity ttl s past)
    (hrange : 0 < ttl → -2 ^ 63 ≤ now + ttl ∧ now + ttl < 2 ^ 63) (httl : 0 < ttl) :
    s.expiry now = now + ttl := by
  rw [expiry, h.ttl_eq, if_pos httl, wrap64_of_range (hrange httl).1 (hrange httl).2]

/-- What a call on `key` leaves of the other entries, and the one it writes. -/
theorem SafeInv.entry_cons {entries : AList (fun _ : Key => Int)} {seen : Bool}
    (h : SafeInv capacity ttl s past)
    (hrange : 0 < ttl → -2 ^ 63 ≤ now + ttl ∧ now + ttl < 2 ^ 63)
    (hself : entries.lookup key = some (s.expiry now))
    (hother : ∀ k exp, k ≠ key → entries.lookup k = some exp → s.entries.lookup k = some exp)
    (k : Key) (exp : Int) (hk : entries.lookup k = some exp) :
    ∃ t, lastCall k (⟨key, now, seen⟩ :: past) = some t ∧ (0 < ttl → exp = t + ttl) := by
  by_cases hkey : k = key
  · subst hkey
    rw [hself] at hk
    cases hk
    exact ⟨now, lastCall_cons_self _ _ _ _, h.expiry_eq hrange⟩
  · rw [lastCall_cons_of_ne hkey]
    exact h.entry k exp (hother k exp hkey hk)

theorem SafeInv.hit (h : SafeInv capacity ttl s past)
    (hrange : 0 < ttl → -2 ^ 63 ≤ now + ttl ∧ now + ttl < 2 ^ 63)
    (hseen : s.remembers key now = true) :
    SafeInv capacity ttl { s with entries := s.entries.insert key (s.expiry now) }
      (⟨key, now, true⟩ :: past) := by
  refine ⟨h.capacity_eq, h.ttl_eq, h.length_eq, h.filled, ?_, ?_⟩
  · refine h.entry_cons hrange (AList.lookup_insert _) ?_
    intro k exp hkey hk
    rwa [AList.lookup_insert_ne hkey] at hk
  · intro k exp hk
    by_cases hkey : k = key
    · subst hkey
      rw [remembers] at hseen
      split at hseen
      · rename_i old hold
        exact h.slot k old hold
      · cases hseen
    · rw [AList.lookup_insert_ne hkey] at hk
      exact h.slot k exp hk

theorem SafeInv.oldest_eq (h : SafeInv capacity ttl s past) : s.ring[s.head]? = some s.oldest := by
  have hhead := h.filled.head_lt
  rw [oldest, List.getD, List.getElem?_eq_getElem hhead]
  rfl

theorem SafeInv.miss (h : SafeInv capacity ttl s past)
    (hrange : 0 < ttl → -2 ^ 63 ≤ now + ttl ∧ now + ttl < 2 ^ 63) :
    SafeInv capacity ttl (s.insert key now) (⟨key, now, false⟩ :: past) := by
  have hlength : s.ring.length = s.capacity := h.length_eq.trans h.capacity_eq.symm
  refine ⟨h.capacity_eq, h.ttl_eq, ?_, ?_, ?_, ?_⟩
  · rw [insert, List.length_set]
    exact h.length_eq
  · have hpush := h.filled.push key
    rwa [hlength] at hpush
  · refine h.entry_cons hrange (AList.lookup_insert _) ?_
    intro k exp hkey hk
    rw [lookup_insert_ne hkey] at hk
    split at hk
    · cases hk
    · exact hk
  · intro k exp hk
    rw [insert, ← hlength]
    by_cases hkey : k = key
    · subst hkey
      exact h.filled.pushed k
    · rw [lookup_insert_ne hkey] at hk
      split at hk
      · cases hk
      · rename_i hkept
        obtain ⟨slot, hslot, hring⟩ := h.slot k exp hk
        refine h.filled.kept key hslot hring ?_
        -- the key overwritten in a full ring is the one erased from the map
        intro hfull hold
        rw [h.oldest_eq] at hold
        exact hkept ⟨hfull.trans hlength, (Option.some.inj hold).symm⟩

theorem SafeInv.call (h : SafeInv capacity ttl s past)
    (hrange : 0 < ttl → -2 ^ 63 ≤ now + ttl ∧ now + ttl < 2 ^ 63) :
    SafeInv capacity ttl (s.seenAndAdd key now).2 (⟨key, now, (s.seenAndAdd key now).1⟩ :: past) := by
  rw [seenAndAdd]
  cases hseen : s.remembers key now with
  | true => exact h.hit hrange hseen
  | false => exact h.miss hrange

theorem SafeInv.lastCall_of_seen (h : SafeInv capacity ttl s past)
    (hseen : (s.seenAndAdd key now).1 = true) :
    ∃ t, lastCall key past = some t ∧ (0 < ttl → now ≤ t + ttl) := by
  have hremembers : s.remembers key now = true := by
    by_contra hmiss
    rw [seenAndAdd, if_neg hmiss] at hseen
    cases hseen
  rw [remembers] at hremembers
  split at hremembers
  · rename_i exp hexp
    obtain ⟨t, ht, hexpiry⟩ := h.entry key exp hexp
    refine ⟨t, ht, fun httl => ?_⟩
    have hlive := of_decide_eq_true hremembers
    rw [h.ttl_eq] at hlive
    have heq := hexpiry httl
    omega
  · cases hremembers

/-- Every entry has a slot of its own, so there are no more entries than slots. -/
theorem SafeInv.size_le (h : SafeInv capacity ttl s past) : s.entries.size ≤ s.count := by
  have hsubset : s.entries.keys ⊆ s.ring.take s.count := by
    intro k hk
    obtain ⟨exp, hexp⟩ := Option.isSome_iff_exists.mp (AList.lookup_isSome.mpr hk)
    obtain ⟨slot, hslot, hring⟩ := h.slot k exp hexp
    exact List.mem_of_getElem? (i := slot) (by rw [List.getElem?_take_of_lt hslot, hring])
  have hlength := (List.subperm_of_subset s.entries.keys_nodup hsubset).length_le
  rw [AList.keys, List.keys, List.length_map, List.length_take] at hlength
  exact hlength.trans (Nat.min_le_left _ _)

end LocalShard

namespace LocalSet

variable {l : LocalSet} {shards : Fin localShards → LocalShard}

/-- Runs of calls on a new set, at any times: the calls made so far, newest first. -/
inductive Calls (capacity ttl : Int) : LocalSet → List Verdict → Prop
  | new : Calls capacity ttl (LocalSet.new capacity ttl) []
  | call {l : LocalSet} {past : List Verdict} (key : Key) (now : Int)
      (hpast : Calls capacity ttl l past)
      (hrange : 0 < ttl → -2 ^ 63 ≤ now + ttl ∧ now + ttl < 2 ^ 63) :
      Calls capacity ttl (l.seenAndAdd key now).2 (⟨key, now, (l.seenAndAdd key now).1⟩ :: past)

/-- The calls that went to one stripe. -/
def callsOf (index : Fin localShards) (past : List Verdict) : List Verdict :=
  past.filter fun v => shardOf v.key = index

theorem lastCall_callsOf (key : Key) (past : List Verdict) :
    lastCall key (callsOf (shardOf key) past) = lastCall key past := by
  rw [lastCall, lastCall, callsOf, List.find?_filter]
  congr 2
  funext v
  by_cases hkey : v.key = key <;> simp [hkey]

def perShard (capacity : Int) : Nat := (capacity.toNat + localShards - 1) / localShards

theorem Calls.safe {capacity : Int} (h : Calls capacity ttl l past) (hl : l = .striped shards)
    (index : Fin localShards) :
    (shards index).SafeInv (perShard capacity) ttl (callsOf index past) := by
  induction h generalizing shards with
  | new =>
      rw [LocalSet.new] at hl
      split at hl
      · cases hl
      · cases hl
        refine LocalShard.SafeInv.empty ?_ ttl
        rw [perShard, localShards]
        omega
  | @call l past key now _ hrange ih =>
      cases l with
      | disabled => cases hl
      | striped before =>
          cases hl
          have hindex := ih rfl
          by_cases heq : index = shardOf key
          · subst heq
            rw [Function.update_self, callsOf, List.filter_cons_of_pos (by simp)]
            exact hindex.call hrange
          · rw [Function.update_of_ne heq, callsOf,
              List.filter_cons_of_neg (by simpa using Ne.symm heq)]
            exact hindex

/-- **No novel key is suppressed, and the set stays bounded.** After any calls at any times, a call
answers true only for a key that was passed before and, with a TTL, only within the TTL of the last
call on it; and every stripe keeps its ring in bounds with a slot for each key of its map. -/
theorem seenAndAdd_safe {capacity : Int} (h : Calls capacity ttl l past) :
    (∀ key now, (l.seenAndAdd key now).1 = true →
        (∃ v ∈ past, v.key = key)
          ∧ (0 < ttl → ∃ t, lastCall key past = some t ∧ now ≤ t + ttl))
      ∧ ∀ shards, l = .striped shards → ∀ index,
          (shards index).capacity = perShard capacity
            ∧ (shards index).count ≤ (shards index).capacity
            ∧ (shards index).head < (shards index).capacity
            ∧ (∀ k exp, (shards index).entries.lookup k = some exp →
                ∃ slot < (shards index).count, (shards index).ring[slot]? = some k)
            ∧ (shards index).entries.size ≤ (shards index).capacity := by
  refine ⟨fun key now hseen => ?_, fun shards hl index => ?_⟩
  · cases l with
    | disabled => cases hseen
    | striped shards =>
        obtain ⟨t, ht, hfresh⟩ := (h.safe rfl (shardOf key)).lastCall_of_seen hseen
        rw [lastCall_callsOf] at ht
        refine ⟨?_, fun httl => ⟨t, ht, hfresh httl⟩⟩
        obtain ⟨v, hv, _⟩ := Option.map_eq_some_iff.mp ht
        exact ⟨v, List.mem_of_find?_eq_some hv, by simpa using List.find?_some hv⟩
  · have hinv := h.safe hl index
    have hcapacity : (shards index).ring.length = (shards index).capacity :=
      hinv.length_eq.trans hinv.capacity_eq.symm
    have hcount := hinv.filled.count_le
    have hhead := hinv.filled.head_lt
    have hsize := hinv.size_le
    exact ⟨hinv.capacity_eq, by omega, by omega, hinv.slot, by omega⟩

/-- A key seen once is refused within its TTL, also by a call at an earlier time. -/
theorem seenAndAdd_safe_backwards :
    ∃ t, lastCall LocalShard.keyA [⟨LocalShard.keyA, 9, false⟩] = some t ∧ 3 ≤ t + 5 :=
  ((seenAndAdd_safe (.call LocalShard.keyA 9 (.new : Calls 2 5 _ _) (by decide))).1
    LocalShard.keyA 3 (by decide)).2 (by decide)

end LocalSet

end ShardCommon.TxidSet
