import ShardCommon.Proof.PlaneGroups
import ShardCommon.Sequence

/-!
# Numbers within a group

A counter holds how often its group was drawn, up to 64 bits, so the number of a frame is the number
of frames of its group before it. The indices of an engine are the slots of its counters as long as
the number of groups fits 32 bits. A plane adds its base to the index and not to the number of groups.
-/

namespace ShardCommon.Sequence

open Shard ShardCommon.Frame

variable {c : Counters} {past calls : List UInt32} {shardIdx : UInt32} {n : Nat}

/-! ## Counters -/

/-- The counters after these calls. -/
def Counters.Counts (c : Counters) (n : Nat) (past : List UInt32) : Prop :=
  c.slots.length = n ∧
    ∀ shardIdx : UInt32, shardIdx.toNat < n →
      c.slots[shardIdx.toNat]? = some (UInt64.ofNat (past.count shardIdx))

theorem newCounters_counts (numShards : UInt32) :
    (newCounters numShards).Counts numShards.toNat [] := by
  refine ⟨List.length_replicate, fun shardIdx hlt => ?_⟩
  rw [newCounters, List.getElem?_replicate, if_pos hlt]
  rfl

theorem Counters.Counts.next_eq_none (h : c.Counts n past) (hout : n ≤ shardIdx.toNat) :
    c.next shardIdx = none := by
  rw [next, List.getElem?_eq_none (by rw [h.1]; exact hout)]

theorem Counters.Counts.next (h : c.Counts n past) (hlt : shardIdx.toNat < n) :
    ∃ c', c.next shardIdx = some (UInt64.ofNat (past.count shardIdx), c') ∧
      c'.Counts n (past ++ [shardIdx]) := by
  refine ⟨⟨c.slots.set shardIdx.toNat (UInt64.ofNat (past.count shardIdx) + 1)⟩, ?_, ?_, ?_⟩
  · rw [Counters.next, h.2 shardIdx hlt]
    dsimp only
    rw [UInt64.add_sub_cancel]
  · rw [List.length_set]
    exact h.1
  · intro other hother
    rw [List.count_append]
    by_cases heq : other = shardIdx
    · subst heq
      rw [List.getElem?_set_self (by rw [h.1]; exact hother), List.count_singleton_self,
        UInt64.ofNat_add]
      rfl
    · have hne : shardIdx.toNat ≠ other.toNat := fun hnat => heq (UInt32.toNat_inj.mp hnat.symm)
      rw [List.getElem?_set_ne hne, h.2 other hother, List.count_singleton]
      simp [Ne.symm heq]

/-- How many calls for the group came before. -/
def numbers (past : List UInt32) : List UInt32 → List UInt64
  | [] => []
  | shardIdx :: rest => UInt64.ofNat (past.count shardIdx) :: numbers (past ++ [shardIdx]) rest

theorem Counters.Counts.draws_of_lt (h : c.Counts n past) (hall : ∀ i ∈ calls, i.toNat < n) :
    c.draws calls = some (numbers past calls) := by
  induction calls generalizing c past with
  | nil => rfl
  | cons shardIdx rest ih =>
      obtain ⟨hlt, hrest⟩ := List.forall_mem_cons.mp hall
      obtain ⟨c', hnext, hcounts⟩ := h.next hlt
      rw [Counters.draws, hnext]
      dsimp only
      rw [ih hcounts hrest]
      rfl

/-- One index past the counters stops the run. -/
theorem Counters.Counts.draws_of_le (h : c.Counts n past) {i : UInt32} (hi : i ∈ calls)
    (hle : n ≤ i.toNat) : c.draws calls = none := by
  induction calls generalizing c past with
  | nil => cases hi
  | cons shardIdx rest ih =>
      rw [Counters.draws]
      by_cases hlt : shardIdx.toNat < n
      · obtain ⟨c', hnext, hcounts⟩ := h.next hlt
        have hne : i ≠ shardIdx := by
          rintro rfl
          omega
        rw [hnext]
        dsimp only
        rw [ih hcounts (List.mem_of_ne_of_mem hne hi)]
        rfl
      · rw [h.next_eq_none (Nat.not_lt.mp hlt)]

theorem length_numbers (past calls : List UInt32) : (numbers past calls).length = calls.length := by
  induction calls generalizing past with
  | nil => rfl
  | cons shardIdx rest ih => rw [numbers, List.length_cons, List.length_cons, ih]

theorem getElem?_numbers (past calls : List UInt32) (i : Nat) :
    (numbers past calls)[i]? =
      calls[i]?.map fun shardIdx => UInt64.ofNat ((past ++ calls.take i).count shardIdx) := by
  induction calls generalizing past i with
  | nil => rfl
  | cons shardIdx rest ih =>
      cases i with
      | zero => simp [numbers]
      | succ i =>
          rw [numbers, List.getElem?_cons_succ, List.getElem?_cons_succ, ih, List.take_succ_cons,
            List.append_assoc, List.singleton_append]

/-! ## Engines -/

/-- The number of groups wraps to zero from 32 bits on, where no counter is left. -/
theorem toNat_numGroups (mcPrefix groupID : UInt16) (bits : UInt64) :
    (new mcPrefix groupID bits).numGroups.toNat = if bits < 32 then 2 ^ bits.toNat else 0 := by
  rw [Engine.numGroups, new]
  dsimp only
  rw [UInt32.sub_add_cancel]
  split
  · next hlt => exact toNat_shiftLeft_one hlt
  · next hge =>
    rw [shiftLeft, if_neg hge]
    rfl

/-- The numbers of frames with these keys, from counters for the groups of the engine. -/
def frameNumbers (e : Engine) (keys : List (FixedBytes 32)) : Option (List UInt64) :=
  (newCounters e.numGroups).draws (keys.map e.groupIndex)

/-- The same with the indices of a plane. -/
def planeNumbers (p : PlaneEngine) (keys : List (FixedBytes 32)) : Option (List UInt64) :=
  (newCounters p.engine.numGroups).draws (keys.map p.groupIndex)

/-- How many of the frames before this one are of the group of the key. -/
def earlierFrames (e : Engine) (keys : List (FixedBytes 32)) (i : Nat) (key : FixedBytes 32) : Nat :=
  (keys.take i).countP fun k => e.groupIndex k = e.groupIndex key

theorem frameNumbers_of_lt {mcPrefix groupID : UInt16} {bits : UInt64} (h : bits < 32)
    (keys : List (FixedBytes 32)) :
    frameNumbers (new mcPrefix groupID bits) keys =
      some (numbers [] (keys.map (new mcPrefix groupID bits).groupIndex)) := by
  have hle : bits ≤ 32 := UInt64.le_of_lt h
  apply (newCounters_counts _).draws_of_lt
  intro shardIdx hidx
  obtain ⟨key, -, rfl⟩ := List.mem_map.mp hidx
  rw [toNat_numGroups, if_pos h]
  exact groupIndex_lt mcPrefix groupID hle key

theorem getElem?_frameNumbers {e : Engine} {keys : List (FixedBytes 32)} {i : Nat}
    {key : FixedBytes 32} (hi : keys[i]? = some key) :
    (numbers [] (keys.map e.groupIndex))[i]? = some (UInt64.ofNat (earlierFrames e keys i key)) := by
  rw [getElem?_numbers, List.getElem?_map, hi, List.nil_append, ← List.map_take, earlierFrames]
  simp only [Option.map_some, List.count, List.countP_map]
  rfl

/-- A frame of the group lies between. -/
theorem earlierFrames_lt {e : Engine} {keys : List (FixedBytes 32)} {i j : Nat}
    {key key' : FixedBytes 32} (hlt : i < j) (hi : keys[i]? = some key)
    (hsame : e.groupIndex key = e.groupIndex key') :
    earlierFrames e keys i key < earlierFrames e keys j key' := by
  have htake : keys.take (i + 1) = keys.take i ++ [key] := by
    rw [List.take_add_one, hi]
    rfl
  have hmore : earlierFrames e keys (i + 1) key' ≤ earlierFrames e keys j key' :=
    (List.take_sublist_take_left hlt).countP_le
  have hone : earlierFrames e keys (i + 1) key' = earlierFrames e keys i key + 1 := by
    rw [earlierFrames, htake, List.countP_append, earlierFrames, hsame]
    simp [hsame]
  omega

theorem earlierFrames_le (e : Engine) (keys : List (FixedBytes 32)) (i : Nat) (key : FixedBytes 32) :
    earlierFrames e keys i key ≤ i := List.countP_le_length.trans (List.length_take_le i keys)

theorem planeNumbers_ne_none_iff {mcPrefix groupID : UInt16} {bits : UInt64} {domain : UInt8}
    {p : PlaneEngine} (h : (newPlane mcPrefix groupID bits domain).outcome = .ok p) :
    (∀ keys, planeNumbers p keys ≠ none) ↔ domain = domainTx := by
  obtain ⟨hbase, hspans⟩ := newPlane_spans h
  obtain ⟨⟨⟩, hvalid, -⟩ := Go.Run.bind_outcome_ok.mp h
  have hstart := toNat_planeBase (validatePlane_ok.mp hvalid).1
  have hstop := hspans.stop_le
  have hpos : 0 < 2 ^ bits.toNat := Nat.two_pow_pos _
  rw [hbase] at hstop
  constructor
  · intro hnumbered
    by_contra hdomain
    have hone : 0 < domain.toNat := Nat.pos_of_ne_zero fun hzero => hdomain (UInt8.toNat_inj.mp hzero)
    -- a key of the last group has an index past the counters
    have hlast : (UInt16.ofNat ((planeBase domain).toNat + 2 ^ bits.toNat - 1)).toNat =
        (planeBase domain).toNat + 2 ^ bits.toNat - 1 := by
      have hcontrol : controlBase.toNat < 2 ^ 16 := by decide
      rw [UInt16.toNat_ofNat']
      exact Nat.mod_eq_of_lt (by omega)
    obtain ⟨key, hkey⟩ := hspans.exists_key (hspans.mem_groups.mpr (by rw [hlast, hbase]; omega))
    apply hnumbered [key]
    apply (newCounters_counts _).draws_of_le List.mem_cons_self
    rw [hspans.numGroups_eq, hkey, UInt16.toNat_toUInt32, hlast]
    omega
  · rintro rfl keys
    rw [planeNumbers, (newCounters_counts _).draws_of_lt]
    · exact Option.some_ne_none _
    · intro shardIdx hidx
      obtain ⟨key, -, rfl⟩ := List.mem_map.mp hidx
      have htop := hspans.top_lt key
      rw [hspans.numGroups_eq, hspans.groupIndex_eq, hbase, hstart]
      rw [show domainTx.toNat = 0 from rfl]
      omega

/-- **Numbering.** With counters made for its groups, an engine of fewer than 32 bits numbers any
frames in any order of their calls by the frames of the group before them, and within 2^64 calls no
two frames of a group share a number; an engine of 32 bits or more panics at the first frame. The
indices of a plane fit the counters of its engine only in the plane of the transactions. -/
theorem frames_numbered (mcPrefix groupID : UInt16) (bits : UInt64) :
    (bits < 32 → ∀ keys, ∃ given, frameNumbers (new mcPrefix groupID bits) keys = some given ∧
      given.length = keys.length ∧
      (∀ i key, keys[i]? = some key → given[i]? =
        some (UInt64.ofNat (earlierFrames (new mcPrefix groupID bits) keys i key))) ∧
      ∀ i j key key', i < j → j < 2 ^ 64 → keys[i]? = some key → keys[j]? = some key' →
        (new mcPrefix groupID bits).groupIndex key = (new mcPrefix groupID bits).groupIndex key' →
        given[i]? ≠ given[j]?) ∧
    (32 ≤ bits → ∀ key keys, frameNumbers (new mcPrefix groupID bits) (key :: keys) = none) ∧
    ∀ domain p, (newPlane mcPrefix groupID bits domain).outcome = .ok p →
      ((∀ keys, planeNumbers p keys ≠ none) ↔ domain = domainTx) := by
  refine ⟨?_, ?_, fun domain p hp => planeNumbers_ne_none_iff hp⟩
  · intro hlt keys
    refine ⟨_, frameNumbers_of_lt hlt keys, ?_, fun i key hi => getElem?_frameNumbers hi, ?_⟩
    · rw [length_numbers, List.length_map]
    · intro i j key key' hij hj hi hj' hsame heq
      rw [getElem?_frameNumbers hi, getElem?_frameNumbers hj'] at heq
      have hless := earlierFrames_lt hij hi hsame
      have hbound := earlierFrames_le (new mcPrefix groupID bits) keys j key'
      have hnat := congrArg UInt64.toNat (Option.some.inj heq)
      rw [UInt64.toNat_ofNat', UInt64.toNat_ofNat'] at hnat
      omega
  · intro hge key keys
    apply (newCounters_counts _).draws_of_le List.mem_cons_self
    rw [toNat_numGroups, if_neg (UInt64.not_lt.mpr hge)]
    exact Nat.zero_le _

theorem frames_numbered_three : ∃ given,
    frameNumbers (new 0xFF05 0x000B 1) [.copy 32 [0x00], .copy 32 [0x80], .copy 32 [0x01]] = some given ∧
      given[2]? = some 1 := by
  obtain ⟨given, hgiven, -, hcounts, -⟩ := (frames_numbered 0xFF05 0x000B 1).1 (by decide)
    [.copy 32 [0x00], .copy 32 [0x80], .copy 32 [0x01]]
  exact ⟨given, hgiven, (hcounts 2 (.copy 32 [0x01]) rfl).trans (by decide)⟩

end ShardCommon.Sequence
