import ShardCommon.Aerospike
import ShardCommon.Proof.CacheEviction

/-!
# What becomes of a TTL

The two backends turn the same duration into a lifetime by different arithmetic. The memory backend
guards its sum and stores what does not fit as never expiring. The Aerospike backend rounds up to
seconds and narrows to 32 bits without a guard.
-/

namespace ShardCommon.Aerospike

open MemoryCache

/-! ## The memory backend -/

section Memory

variable {s : Shard} {caps : Caps} {key : Bytes} {val : Slice} {ttl now : Int64}

/-- The guard as Go computes it says what it says of the integers. -/
theorem guard_iff (httl : 0 < ttl) :
    now ≤ Int64.maxValue - ttl ↔ now.toInt + ttl.toInt ≤ maxInt64 := by
  have hpos : 0 < ttl.toInt := Int64.lt_iff_toInt_lt.mp httl
  have hlt := ttl.toInt_lt
  have hmax : (Int64.maxValue - ttl).toInt = maxInt64 - ttl.toInt := by
    rw [Int64.toInt_sub, show Int64.maxValue.toInt = maxInt64 from rfl, maxInt64]
    exact Int.bmod_eq_of_le (by omega) (by omega)
  rw [Int64.le_iff_toInt_le, hmax]
  omega

theorem expires_iff_guard (httl : 0 < ttl) :
    Shard.expires ttl.toInt now.toInt = true ↔ now ≤ Int64.maxValue - ttl := by
  have hpos : 0 < ttl.toInt := Int64.lt_iff_toInt_lt.mp httl
  rw [Shard.expires_iff, guard_iff httl]
  omega

theorem toInt_deadline (httl : 0 < ttl) (h : now.toInt + ttl.toInt ≤ maxInt64) :
    (now + ttl).toInt = now.toInt + ttl.toInt := by
  have hpos : 0 < ttl.toInt := Int64.lt_iff_toInt_lt.mp httl
  have hle := now.le_toInt
  rw [maxInt64] at h
  rw [Int64.toInt_add]
  exact Int.bmod_eq_of_le (by omega) (by omega)

/-- The write leaves an entry with the deadline `now + ttl`, which did not wrap, or one that never
expires, where that sum is beyond the range. -/
def MemoryKeeps (s : Shard) (caps : Caps) (key : Bytes) (val : Slice) (ttl now : Int64) : Prop :=
  ∃ e, (s.put caps key val ttl.toInt now.toInt (s.data.lookup key)).data.lookup key = some e ∧
    e.value = val ∧
    (now ≤ Int64.maxValue - ttl ∧ e.deadline = (now + ttl).toInt ∧
        e.deadline = now.toInt + ttl.toInt ∨
      ¬ now ≤ Int64.maxValue - ttl ∧ e.deadline < 0 ∧ maxInt64 < now.toInt + ttl.toInt)

theorem roomFor_writes (s : Shard) (caps : Caps) (key : Bytes) (val : Slice) (now : Int) :
    (s.roomFor caps key val now).writes = s.writes :=
  (s.roomFor_pops caps key val now).preserves (I := fun u => u.writes = s.writes) rfl
    fun u ref _ _ _ _ hwrites => (u.pop_writes ref).trans hwrites

theorem memoryKeeps (hwrites : 0 ≤ s.writes) (httl : 0 < ttl) :
    MemoryKeeps s caps key val ttl now := by
  refine ⟨_, Shard.put_lookup_self, rfl, ?_⟩
  by_cases hguard : now ≤ Int64.maxValue - ttl
  · left
    have hsum := toInt_deadline httl ((guard_iff httl).mp hguard)
    refine ⟨hguard, ?_, ?_⟩
    · rw [hsum]
      exact Shard.deadlineFor_of_expires ((expires_iff_guard httl).mpr hguard)
    · exact Shard.deadlineFor_of_expires ((expires_iff_guard httl).mpr hguard)
  · right
    have hexpires : Shard.expires ttl.toInt now.toInt = false := by
      rw [← Bool.not_eq_true, expires_iff_guard httl]
      exact hguard
    refine ⟨hguard, ?_, ?_⟩
    · dsimp only
      rw [Shard.deadlineFor_of_not_expires hexpires, roomFor_writes]
      omega
    · rw [guard_iff httl] at hguard
      omega

end Memory

/-! ## The Aerospike backend -/

variable {ttl : Int64}

/-- The rounded sum wraps within a second of the end of the range. -/
theorem toInt_roundUp (hpos : 0 < ttl.toInt) : (ttl + second - 1).toInt =
    if ttl.toInt ≤ 2 ^ 63 - 10 ^ 9 then ttl.toInt + 999999999
    else ttl.toInt + 999999999 - 2 ^ 64 := by
  have hlt := ttl.toInt_lt
  have hsum : (ttl + second - 1).toInt = (ttl.toInt + 999999999).bmod (2 ^ 64) := by
    rw [Int64.toInt_sub, Int64.toInt_add, show second.toInt = 10 ^ 9 from rfl,
      show (1 : Int64).toInt = 1 from rfl, Int.bmod_sub_bmod]
    congr 1
    omega
  rw [hsum, Int.bmod_def]
  split <;> split <;> omega

/-- The seconds are right up to a second before the end of the range, modulo the 32 bits. -/
theorem toNat_expiration (hpos : 0 < ttl.toInt) : ((expiration ttl).toNat : Int) =
    if ttl.toInt ≤ 2 ^ 63 - 10 ^ 9 then (ttl.toInt + 999999999) / 10 ^ 9 % 2 ^ 32 else 1 := by
  have hlt := ttl.toInt_lt
  have hround := toInt_roundUp hpos
  have hnot : ¬ ttl ≤ 0 := by
    rw [Int64.le_iff_toInt_le]
    exact Int.not_le.mpr hpos
  have hsecs : ((ttl + second - 1) / second).toInt = (ttl + second - 1).toInt.tdiv (10 ^ 9) :=
    Int64.toInt_div_of_ne_right _ _ (by decide)
  rw [expiration, if_neg hnot]
  dsimp only
  generalize (ttl + second - 1) / second = secs at hsecs ⊢
  rw [hround] at hsecs
  split at hsecs
  · next hfits =>
      rw [Int.tdiv_eq_ediv_of_nonneg (by omega)] at hsecs
      have hone : ¬ secs < 1 := by
        rw [Int64.lt_iff_toInt_lt, hsecs, show (1 : Int64).toInt = 1 from rfl]
        omega
      have hnonneg : 0 ≤ secs := by
        rw [Int64.le_iff_toInt_le, hsecs, show (0 : Int64).toInt = 0 from rfl]
        omega
      have hvalue : (secs.toUInt64.toNat : Int) = secs.toInt := by
        rw [Int64.toNat_toUInt64_of_le hnonneg, Int64.cast_toNatClampNeg secs hnonneg]
      rw [if_neg hone, if_pos hfits, UInt64.toNat_toUInt32, ← hsecs, ← hvalue]
      rfl
  · next hwraps =>
      have hone : secs < 1 := by
        have hquotient : 0 ≤ (-(ttl.toInt + 999999999 - 2 ^ 64)).tdiv (10 ^ 9) :=
          Int.tdiv_nonneg (by omega) (by decide)
        rw [Int.neg_tdiv] at hquotient
        rw [Int64.lt_iff_toInt_lt, hsecs, show (1 : Int64).toInt = 1 from rfl]
        omega
      rw [if_pos hone, if_neg hwraps]
      rfl

/-- The expiration is the mark of a record that never expires, or the TTL in seconds, rounded up. -/
def AerospikeKeeps (ttl : Duration) (secs : UInt32) : Prop :=
  secs = aeroNeverExpire ∨
    1 ≤ secs.toNat ∧ ttl.toInt ≤ secs.toNat * 10 ^ 9 ∧ (secs.toNat - 1) * 10 ^ 9 < ttl.toInt

/-- The seconds fit in 32 bits, or what is left of them is by chance the mark. -/
def FitsSeconds (ttl : Duration) : Prop :=
  ttl.toInt ≤ (2 ^ 32 - 1) * 10 ^ 9 ∨
    (2 ^ 33 - 2) * 10 ^ 9 < ttl.toInt ∧ ttl.toInt ≤ (2 ^ 33 - 1) * 10 ^ 9

theorem aerospikeKeeps_iff (httl : 0 < ttl) :
    AerospikeKeeps ttl (expiration ttl) ↔ FitsSeconds ttl := by
  have hpos : 0 < ttl.toInt := Int64.lt_iff_toInt_lt.mp httl
  have hlt := ttl.toInt_lt
  have hvalue := toNat_expiration hpos
  have hmark : expiration ttl = aeroNeverExpire ↔ (expiration ttl).toNat = 2 ^ 32 - 1 :=
    UInt32.toNat_inj.symm
  rw [AerospikeKeeps, FitsSeconds, hmark]
  generalize (expiration ttl).toNat = secs at hvalue ⊢
  generalize ttl.toInt = nanos at hvalue hpos hlt ⊢
  split at hvalue <;> omega

/-! ## Both -/

/-- In every shard a run reaches and at every clock reading, a positive TTL is kept by both backends
exactly when its seconds fit in 32 bits; the memory backend keeps them all. -/
theorem ttl_kept_iff {caps : Caps} {last : Int} {s : Shard} (h : s.Reachable caps last)
    (key : Bytes) (val : Slice) (now opTimeout : Int64) (createOnly : Bool) (httl : 0 < ttl) :
    MemoryKeeps s caps key val ttl now ∧
        AerospikeKeeps ttl (writePolicy opTimeout ttl createOnly).expiration ↔
      FitsSeconds ttl := by
  have hmemory : MemoryKeeps s caps key val ttl now := memoryKeeps h.capped.2.inv.writes_nonneg httl
  exact (and_iff_right hmemory).trans (aerospikeKeeps_iff httl)

/-- Ten minutes, the longest TTL the package comment mentions. -/
theorem ttl_kept_ten_minutes :
    MemoryKeeps Shard.empty ⟨0, 0⟩ [1] none 600000000000 7 ∧
      AerospikeKeeps 600000000000 (writePolicy 50000000 600000000000 true).expiration :=
  (ttl_kept_iff (.init (Int.le_refl 0)) [1] none 7 50000000 true (by decide)).mpr
    (.inl (by decide))

/-- A TTL of `2 ^ 32` seconds becomes the reserved zero, and the longest one becomes one second. -/
theorem long_ttl_cut :
    expiration 4294967296000000000 = 0 ∧ ¬ AerospikeKeeps 4294967296000000000 0 ∧
      expiration Int64.maxValue = 1 ∧ ¬ AerospikeKeeps Int64.maxValue 1 := by
  rw [AerospikeKeeps, AerospikeKeeps]
  decide +kernel

end ShardCommon.Aerospike
