import ShardCommon.ShardEngine

/-!
# Group indices in arithmetic

The index is the first word of the key divided by a power of two, so a wider index divided down is
the narrower one. A plane shifts all of it to its base, and stays below the control plane.
-/

namespace ShardCommon.Shard

open Go ShardCommon.Frame

/-- The first four bytes of a key, as a number. -/
def firstWord (txid : FixedBytes 32) : Nat := (uint32 (txid.val.take 4)).toNat

theorem firstWord_lt (txid : FixedBytes 32) : firstWord txid < 2 ^ 32 := UInt32.toNat_lt _

theorem toNat_shiftRight (x : UInt32) (n : UInt64) :
    (shiftRight x n).toNat = x.toNat / 2 ^ n.toNat := by
  rw [shiftRight]
  split
  · next h =>
      have hlt : n.toNat < 32 := UInt64.lt_iff_toNat_lt.mp h
      have hshift : n.toUInt32.toNat = n.toNat := by
        rw [UInt64.toNat_toUInt32]
        omega
      rw [UInt32.toNat_shiftRight, hshift, Nat.shiftRight_eq_div_pow]
      congr 2
      omega
  · next h =>
      have hge : 32 ≤ n.toNat := by
        rw [UInt64.lt_iff_toNat_lt] at h
        exact Nat.le_of_not_lt h
      have hpow : 2 ^ 32 ≤ 2 ^ n.toNat := Nat.pow_le_pow_right (by decide) hge
      rw [Nat.div_eq_of_lt (Nat.lt_of_lt_of_le x.toNat_lt hpow)]
      rfl

theorem toNat_shiftLeft_one {n : UInt64} (h : n < 32) : (shiftLeft 1 n).toNat = 2 ^ n.toNat := by
  have hlt : n.toNat < 32 := UInt64.lt_iff_toNat_lt.mp h
  have hshift : n.toUInt32.toNat % 32 = n.toNat := by
    rw [UInt64.toNat_toUInt32]
    omega
  have hpow : 2 ^ n.toNat < 2 ^ 32 := Nat.pow_lt_pow_right (by decide) hlt
  rw [shiftLeft, if_pos h, UInt32.toNat_shiftLeft, hshift, Nat.shiftLeft_eq, UInt32.toNat_one,
    Nat.one_mul, Nat.mod_eq_of_lt hpow]

theorem toNat_mask (mcPrefix groupID : UInt16) {shardBits : UInt64} (h : shardBits ≤ 32) :
    (new mcPrefix groupID shardBits).mask.toNat = 2 ^ shardBits.toNat - 1 := by
  have hle : shardBits.toNat ≤ 32 := UInt64.le_iff_toNat_le.mp h
  rw [new]
  dsimp only
  by_cases hlt : shardBits < 32
  · have hpow : 2 ^ shardBits.toNat < 2 ^ 32 :=
      Nat.pow_lt_pow_right (by decide) (UInt64.lt_iff_toNat_lt.mp hlt)
    have hpos : 0 < 2 ^ shardBits.toNat := Nat.two_pow_pos _
    rw [UInt32.toNat_sub, toNat_shiftLeft_one hlt, UInt32.toNat_one]
    omega
  · have hbits : shardBits.toNat = 32 := by
      rw [UInt64.lt_iff_toNat_lt] at hlt
      exact Nat.le_antisymm hle (Nat.le_of_not_lt hlt)
    rw [shiftLeft, if_neg hlt, hbits]
    rfl

/-- The index is the top `shardBits` bits of the first word. -/
theorem toNat_groupIndex (mcPrefix groupID : UInt16) {shardBits : UInt64} (h : shardBits ≤ 32)
    (txid : FixedBytes 32) :
    ((new mcPrefix groupID shardBits).groupIndex txid).toNat =
      firstWord txid / 2 ^ (32 - shardBits.toNat) := by
  have hle : shardBits.toNat ≤ 32 := UInt64.le_iff_toNat_le.mp h
  have hshift : (32 - shardBits).toNat = 32 - shardBits.toNat := UInt64.toNat_sub_of_le _ _ h
  have hlt : firstWord txid / 2 ^ (32 - shardBits.toNat) < 2 ^ shardBits.toNat := by
    apply Nat.div_lt_of_lt_mul
    rw [← Nat.pow_add, Nat.sub_add_cancel hle]
    exact firstWord_lt txid
  rw [Engine.groupIndex, UInt32.toNat_and, toNat_mask mcPrefix groupID h, toNat_shiftRight,
    Nat.and_two_pow_sub_one_eq_mod]
  have hbits : (new mcPrefix groupID shardBits).shardBits = shardBits := rfl
  rw [hbits, hshift]
  exact Nat.mod_eq_of_lt hlt

theorem groupIndex_lt (mcPrefix groupID : UInt16) {shardBits : UInt64} (h : shardBits ≤ 32)
    (txid : FixedBytes 32) :
    ((new mcPrefix groupID shardBits).groupIndex txid).toNat < 2 ^ shardBits.toNat := by
  have hle : shardBits.toNat ≤ 32 := UInt64.le_iff_toNat_le.mp h
  rw [toNat_groupIndex mcPrefix groupID h]
  apply Nat.div_lt_of_lt_mul
  rw [← Nat.pow_add, Nat.sub_add_cancel hle]
  exact firstWord_lt txid

/-- An engine from `New` whose indices fit the 16 bits of the index space. -/
structure Engine.Fits (e : Engine) : Prop where
  built : e = new e.mcPrefix e.groupID e.shardBits
  bits : e.shardBits ≤ 16

theorem Engine.Fits.toNat_bits {e : Engine} (he : e.Fits) : e.shardBits.toNat ≤ 16 :=
  UInt64.le_iff_toNat_le.mp he.bits

theorem Engine.Fits.toNat_groupIndex {e : Engine} (he : e.Fits) (txid : FixedBytes 32) :
    (e.groupIndex txid).toNat = firstWord txid / 2 ^ (32 - e.shardBits.toNat) := by
  have hle : e.shardBits ≤ 32 := UInt64.le_trans he.bits (by decide)
  rw [he.built]
  exact Shard.toNat_groupIndex e.mcPrefix e.groupID hle txid

/-- The 16-bit field holds the whole index. -/
theorem Engine.Fits.toNat_group {e : Engine} (he : e.Fits) (txid : FixedBytes 32) :
    (e.groupIndex txid).toUInt16.toNat = (e.groupIndex txid).toNat := by
  have hbits := he.toNat_bits
  have hlt : (e.groupIndex txid).toNat < 2 ^ 16 := by
    rw [he.toNat_groupIndex]
    apply Nat.div_lt_of_lt_mul
    have hword := firstWord_lt txid
    have hpow : 2 ^ 32 ≤ 2 ^ (32 - e.shardBits.toNat) * 2 ^ 16 := by
      rw [← Nat.pow_add]
      exact Nat.pow_le_pow_right (by decide) (by omega)
    omega
  rw [UInt32.toNat_toUInt16]
  exact Nat.mod_eq_of_lt hlt

/-- A group of a wider engine, divided down, is the group of the narrower one. -/
theorem Engine.Fits.groupIndex_shift {e wide : Engine} (he : e.Fits) (hwide : wide.Fits)
    (hle : e.shardBits.toNat ≤ wide.shardBits.toNat) (txid : FixedBytes 32) :
    (wide.groupIndex txid).toNat >>> (wide.shardBits.toNat - e.shardBits.toNat) =
      (e.groupIndex txid).toNat := by
  have hbits := hwide.toNat_bits
  rw [he.toNat_groupIndex, hwide.toNat_groupIndex, Nat.shiftRight_eq_div_pow,
    Nat.div_div_eq_div_mul, ← Nat.pow_add]
  congr 2
  omega

/-! ## Planes -/

theorem toNat_planeBase {domain : UInt8} (h : domain ≤ domainMax) :
    (planeBase domain).toNat = domain.toNat * 4096 := by
  have hle : domain.toNat ≤ 14 := UInt8.le_iff_toNat_le.mp h
  have hshift : 2 ^ ((12 : UInt16).toNat % 16) = 4096 := rfl
  rw [planeBase, UInt16.toNat_shiftLeft, UInt8.toNat_toUInt16, Nat.shiftLeft_eq, hshift]
  exact Nat.mod_eq_of_lt (by omega)

/-- The first index behind the plane, as `ValidatePlane` computes it. -/
theorem toNat_planeStop {domain : UInt8} {shardBits : UInt64} (hdomain : domain ≤ domainMax)
    (hbits : shardBits ≤ 15) :
    ((planeBase domain).toUInt32 + shiftLeft 1 shardBits).toNat =
      domain.toNat * 4096 + 2 ^ shardBits.toNat := by
  have hle : domain.toNat ≤ 14 := UInt8.le_iff_toNat_le.mp hdomain
  have hpow : 2 ^ shardBits.toNat ≤ 2 ^ 15 :=
    Nat.pow_le_pow_right (by decide) (UInt64.le_iff_toNat_le.mp hbits)
  rw [UInt32.toNat_add, UInt16.toNat_toUInt32, toNat_planeBase hdomain,
    toNat_shiftLeft_one (UInt64.lt_of_le_of_lt hbits (by decide))]
  exact Nat.mod_eq_of_lt (by omega)

theorem validatePlane_ok {domain : UInt8} {shardBits : UInt64} {u : Unit} :
    (validatePlane domain shardBits).outcome = .ok u ↔ domain ≤ domainMax ∧ shardBits ≤ 15 ∧
      (domain = domainTx → shardBits ≤ 12) ∧
      domain.toNat * 4096 + 2 ^ shardBits.toNat ≤ controlBase.toNat := by
  simp only [validatePlane, Run.bind_outcome_ok, Run.failIf_outcome_ok, exists_and_left, exists_const,
    UInt8.not_lt, UInt64.not_lt, UInt32.not_lt, not_and]
  refine and_congr_right fun hdomain => and_congr_right fun hbits => and_congr_right fun _ => ?_
  rw [UInt32.le_iff_toNat_le, toNat_planeStop hdomain hbits, UInt16.toNat_toUInt32]

/-- The indices of a plane start at its base and number at most two to its width. -/
theorem newPlane_ok {mcPrefix groupID : UInt16} {shardBits : UInt64} {domain : UInt8}
    {p : PlaneEngine} (h : (newPlane mcPrefix groupID shardBits domain).outcome = .ok p)
    (key : FixedBytes 32) :
    domain.toNat * 4096 ≤ (p.groupIndex key).toNat ∧
      (p.groupIndex key).toNat < domain.toNat * 4096 + 2 ^ shardBits.toNat ∧
      (p.groupIndex key).toNat < controlBase.toNat := by
  obtain ⟨⟨⟩, hvalid, hp⟩ := Run.bind_outcome_ok.mp h
  cases hp
  obtain ⟨hdomain, hbits, -, hstop⟩ := validatePlane_ok.mp hvalid
  have hlt := groupIndex_lt mcPrefix groupID (UInt64.le_trans hbits (by decide)) key
  have hbase := toNat_planeBase hdomain
  have hsum : (PlaneEngine.groupIndex ⟨new mcPrefix groupID shardBits, planeBase domain⟩ key).toNat =
      domain.toNat * 4096 + ((new mcPrefix groupID shardBits).groupIndex key).toNat := by
    rw [PlaneEngine.groupIndex, UInt32.toNat_add, UInt16.toNat_toUInt32, hbase]
    dsimp only
    have hcontrol : controlBase.toNat < 2 ^ 32 := by decide
    exact Nat.mod_eq_of_lt (by omega)
  rw [hsum]
  omega

theorem toNat_planeOf {idx : UInt32} (h : idx.toNat < controlBase.toNat) :
    (planeOf idx.toUInt16).toNat = idx.toNat / 4096 := by
  have hcontrol : controlBase.toNat < 2 ^ 16 := by decide
  have hshift : 2 ^ ((12 : UInt16).toNat % 16) = 4096 := rfl
  rw [planeOf, UInt16.toNat_toUInt8, UInt16.toNat_shiftRight, UInt32.toNat_toUInt16,
    Nat.shiftRight_eq_div_pow, hshift]
  omega

end ShardCommon.Shard
