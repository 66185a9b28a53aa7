import Mathlib.Data.Nat.Bitwise
import ShardCommon.Pow

/-!
# The gate is Bitcoin's rule

Bitcoin expands a compact target into 256 bits and reports two flags, a sign and an overflow, that it
reads off the exponent and the word; the code looks at the sign bit alone and measures an unbounded
shift. Both accept the same headers.
-/

namespace ShardCommon.Pow

open Go ShardCommon.Frame

/-! ## Bitcoin's rule -/

/-- The number a string spells, least significant byte first. -/
def littleEndian (bytes : Bytes) : Nat := bytes.foldr (fun b value => b.toNat + 256 * value) 0

section SetCompact

variable (bits : Nat)

def compactSize : Nat := bits >>> 24

def compactMantissa : Nat := bits &&& 0x7fffff

/-- The mantissa after the shift to the right of the small sizes. -/
def compactWord : Nat :=
  if compactSize bits ≤ 3 then compactMantissa bits >>> (8 * (3 - compactSize bits))
  else compactMantissa bits

/-- The expanded target, in 256 bits. -/
def setCompact : Nat :=
  if compactSize bits ≤ 3 then compactWord bits
  else compactWord bits <<< (8 * (compactSize bits - 3)) % 2 ^ 256

def CompactNegative : Prop := compactWord bits ≠ 0 ∧ bits.testBit 23 = true

def CompactOverflows : Prop :=
  compactMantissa bits ≠ 0 ∧ (34 < compactSize bits ∨
    0xff < compactMantissa bits ∧ 33 < compactSize bits ∨
    0xffff < compactMantissa bits ∧ 32 < compactSize bits)

end SetCompact

/-- The header passes: its target is valid and within the floor, and its double hash meets it. -/
structure BitcoinAccepts (sha256 : Bytes → FixedBytes 32) (header : Bytes) (floor : Option Int) :
    Prop where
  length : header.length = 80
  notNegative : ¬ CompactNegative (littleEndian ((header.drop 72).take 4))
  notOverflowing : ¬ CompactOverflows (littleEndian ((header.drop 72).take 4))
  positive : 0 < setCompact (littleEndian ((header.drop 72).take 4))
  withinFloor : ∀ f, floor = some f →
    (setCompact (littleEndian ((header.drop 72).take 4)) : Int) ≤ f
  work : littleEndian (sha256 (sha256 header).val).val ≤
    setCompact (littleEndian ((header.drop 72).take 4))

/-! ## Bytes -/

theorem littleEndian_eq (bytes : Bytes) : littleEndian bytes = BigEndian.toNat bytes.reverse := by
  rw [littleEndian, BigEndian.toNat, List.foldl_reverse]
  congr 1
  funext b value
  omega

/-! ## Targets -/

variable {bits : UInt32}

theorem sign_iff : bits &&& 0x00800000 ≠ 0 ↔ bits.toNat.testBit 23 = true := by
  have hbit : (bits &&& 0x00800000).toNat = (bits.toNat.testBit 23).toNat * 2 ^ 23 :=
    (UInt32.toNat_and bits 0x00800000).trans (Nat.and_two_pow bits.toNat 23)
  rw [ne_eq, ← UInt32.toNat_inj, hbit]
  cases bits.toNat.testBit 23 <;> decide

theorem toNat_exponent : (bits >>> 24).toNat = compactSize bits.toNat := UInt32.toNat_shiftRight ..

theorem toNat_mantissa : (bits &&& 0x007fffff).toNat = compactMantissa bits.toNat :=
  UInt32.toNat_and ..

theorem mantissa_lt (bits : Nat) : compactMantissa bits < 2 ^ 23 :=
  Nat.and_lt_two_pow bits (by decide)

/-- A shift of the word by whole bytes leaves the 256 bits exactly when Bitcoin says so. -/
theorem shift_overflows_iff {s w : Nat} (hsize : 3 < s) (hpos : w ≠ 0) (hw : w < 2 ^ 23) :
    2 ^ 256 ≤ w <<< (8 * (s - 3)) ↔ 34 < s ∨ 0xff < w ∧ 33 < s ∨ 0xffff < w ∧ 32 < s := by
  rw [Nat.shiftLeft_eq]
  by_cases hlarge : 34 < s
  · have hpow : 2 ^ 256 ≤ 2 ^ (8 * (s - 3)) := Nat.pow_le_pow_right (by decide) (by omega)
    exact iff_of_true (Nat.le_trans hpow (Nat.le_mul_of_pos_left _ (by omega))) (.inl hlarge)
  by_cases hsmall : s ≤ 32
  · have hpow : 2 ^ (8 * (s - 3)) ≤ 2 ^ 232 := Nat.pow_le_pow_right (by decide) (by omega)
    have hle : w * 2 ^ (8 * (s - 3)) ≤ 2 ^ 23 * 2 ^ 232 := Nat.mul_le_mul (by omega) hpow
    exact iff_of_false (by omega) (by omega)
  -- two sizes are left, where the width of the word decides
  obtain rfl | rfl : s = 33 ∨ s = 34 := by omega
  · omega
  · omega

theorem toNat_rightShift {exponent : UInt32} (h : exponent ≤ 3) :
    (8 * (3 - exponent)).toNat = 8 * (3 - exponent.toNat) := by
  rw [UInt32.toNat_mul, UInt32.toNat_sub_of_le _ _ h]
  exact Nat.mod_eq_of_lt (show 8 * (3 - exponent.toNat) < 2 ^ 32 by omega)

theorem expand_small (h : compactSize bits.toNat ≤ 3) :
    expand (bits >>> 24) (bits &&& 0x007fffff) = compactWord bits.toNat := by
  have hle : bits >>> 24 ≤ 3 := by
    rw [UInt32.le_iff_toNat_le, toNat_exponent]
    exact h
  have hshift := toNat_rightShift hle
  rw [toNat_exponent] at hshift
  rw [expand, if_pos hle, compactWord, if_pos h, UInt64.toNat_shiftRight, UInt32.toNat_toUInt64,
    UInt32.toNat_toUInt64, hshift, toNat_mantissa, Nat.mod_eq_of_lt (by omega)]

theorem expand_large (h : 3 < compactSize bits.toNat) :
    expand (bits >>> 24) (bits &&& 0x007fffff) =
      (compactMantissa bits.toNat <<< (8 * (compactSize bits.toNat - 3)) : Nat) := by
  have hnot : ¬ bits >>> 24 ≤ 3 := by
    rw [UInt32.le_iff_toNat_le, toNat_exponent]
    exact Nat.not_le.mpr h
  rw [expand, if_neg hnot, toNat_mantissa, toNat_exponent]

/-- A positive target comes of a word that the shift to the right has not emptied. -/
theorem word_ne_zero {bits : Nat} (h : 0 < setCompact bits) : compactWord bits ≠ 0 := by
  intro hzero
  rw [setCompact, hzero, Nat.zero_shiftLeft, Nat.zero_mod, ite_self] at h
  exact Nat.lt_irrefl 0 h

theorem mantissa_ne_zero {bits : Nat} (h : compactWord bits ≠ 0) : compactMantissa bits ≠ 0 := by
  intro hzero
  rw [compactWord, hzero, Nat.zero_shiftRight, ite_self] at h
  exact h rfl

/-- The check of the bit length. -/
theorem checked_iff {n : Nat} {t : Int} :
    (if 256 < bitLen n then none else some (n : Int)) = some t ∧ 0 < t ↔
      n < 2 ^ 256 ∧ 0 < n ∧ t = n := by
  have hwide : 256 < bitLen n ↔ 2 ^ 256 ≤ n := by
    rw [bitLen, Int.natAbs_natCast, Nat.lt_size]
  simp only [hwide]
  split
  · next h => exact iff_of_false (by rintro ⟨⟨⟩, -⟩) (fun hlt => Nat.not_lt.mpr h hlt.1)
  · next h =>
      constructor
      · rintro ⟨⟨⟩, hpos⟩
        exact ⟨Nat.not_le.mp h, Int.natCast_pos.mp hpos, rfl⟩
      · rintro ⟨-, hpos, rfl⟩
        exact ⟨rfl, Int.natCast_pos.mpr hpos⟩

/-- The two sizes of a shift: only one to the left can be too wide. -/
theorem expand_iff {t : Int} (hmantissa : compactMantissa bits.toNat ≠ 0) :
    (if 256 < bitLen (expand (bits >>> 24) (bits &&& 0x007fffff)) then none
      else some (expand (bits >>> 24) (bits &&& 0x007fffff))) = some t ∧ 0 < t ↔
      ¬ CompactOverflows bits.toNat ∧ 0 < setCompact bits.toNat ∧ t = setCompact bits.toNat := by
  have hlt := mantissa_lt bits.toNat
  rcases Nat.lt_or_ge 3 (compactSize bits.toNat) with hsize | hsize
  · have hnot := Nat.not_le.mpr hsize
    have hword : compactWord bits.toNat = compactMantissa bits.toNat := if_neg hnot
    rw [expand_large hsize, checked_iff, CompactOverflows, and_iff_right hmantissa,
      ← shift_overflows_iff hsize hmantissa hlt, Nat.not_le, setCompact, if_neg hnot, hword]
    refine and_congr_right fun hfits => ?_
    rw [Nat.mod_eq_of_lt hfits]
  · have hfits : ¬ CompactOverflows bits.toNat := by
      rintro ⟨-, h⟩
      omega
    have hsmall : compactWord bits.toNat < 2 ^ 256 := by
      rw [compactWord, if_pos hsize]
      exact Nat.lt_of_le_of_lt (Nat.shiftRight_le _ _) (Nat.lt_trans hlt (by decide))
    rw [expand_small hsize, checked_iff, setCompact, if_pos hsize, and_iff_right hsmall,
      and_iff_right hfits]

/-- The code expands to a positive target exactly where Bitcoin does, and to the same one. -/
theorem compactToTarget_pos_iff {t : Int} :
    compactToTarget bits = some t ∧ 0 < t ↔ ¬ CompactNegative bits.toNat ∧
      ¬ CompactOverflows bits.toNat ∧ 0 < setCompact bits.toNat ∧ t = setCompact bits.toNat := by
  have hempty : bits &&& 0x007fffff = 0 ↔ compactMantissa bits.toNat = 0 := by
    rw [← toNat_mantissa, ← UInt32.toNat_inj]
    rfl
  simp only [compactToTarget, sign_iff, hempty]
  by_cases hsign : bits.toNat.testBit 23 = true
  · -- a sign on an empty word is no negative number for Bitcoin, but its target is zero
    rw [if_pos hsign]
    exact iff_of_false (by rintro ⟨⟨⟩, -⟩) fun h => h.1 ⟨word_ne_zero h.2.2.1, hsign⟩
  have hnegative : ¬ CompactNegative bits.toNat := fun h => hsign h.2
  rw [if_neg hsign, and_iff_right hnegative]
  by_cases hzero : compactMantissa bits.toNat = 0
  · rw [if_pos hzero]
    refine iff_of_false ?_ fun h => mantissa_ne_zero (word_ne_zero h.2.1) hzero
    rintro ⟨⟨⟩, hpos⟩
    exact Int.lt_irrefl 0 hpos
  · rw [if_neg hzero]
    exact expand_iff hzero

/-! ## The gate -/

section Gate

variable {ε : Type} {sha256 : Bytes → FixedBytes 32} {header : Bytes} {floor : Option Int}

theorem nBits_eq (h : header.length = headerSize) : ∃ bits,
    (nBits header : Run ε UInt32) = pure bits ∧
      bits.toNat = littleEndian ((header.drop 72).take 4) := by
  rw [headerSize] at h
  refine ⟨uint32LE ((header.drop 72).take 4), ?_, ?_⟩
  · rw [nBits, nBitsOffset, bytesAt, Run.slice_of_le (by omega) (by omega)]
    rfl
  · have hlength : ((header.drop 72).take 4).reverse.length = 4 := by
      rw [List.length_reverse, List.length_take, List.length_drop, h]
      rfl
    have hlt := BigEndian.toNat_lt ((header.drop 72).take 4).reverse
    rw [hlength] at hlt
    rw [uint32LE, littleEndian_eq, UInt32.toNat_ofNat_of_lt' hlt]

theorem littleEndianToBig_eq (h : FixedBytes 32) : littleEndianToBig h = littleEndian h.val := by
  rw [littleEndianToBig, littleEndian_eq]

theorem exceeds_iff {target : Int} :
    (floor.any fun floor => floor < target) = true ↔ ¬ ∀ f, floor = some f → target ≤ f := by
  cases floor <;> simp

/-- The two bounds on the target and the one on the hash. -/
theorem bounds_iff {target hash : Int} : ∃ accepted,
    (if target ≤ 0 then pure false
      else if floor.any fun floor => floor < target then pure false
      else pure (decide (hash ≤ target)) : Run ε Bool) = pure accepted ∧
      (accepted = true ↔ 0 < target ∧ (∀ f, floor = some f → target ≤ f) ∧ hash ≤ target) := by
  split
  · next hle => exact ⟨false, rfl, iff_of_false (by decide) fun h => by omega⟩
  split
  · next hfloor => exact ⟨false, rfl, iff_of_false (by decide) fun h => exceeds_iff.mp hfloor h.2.1⟩
  · next hpos hfloor =>
      have hwithin : ∀ f, floor = some f → target ≤ f := not_not.mp (mt exceeds_iff.mpr hfloor)
      refine ⟨_, rfl, ?_⟩
      rw [decide_eq_true_iff, and_iff_right (Int.not_le.mp hpos), and_iff_right hwithin]

/-- The gate returns, and it accepts exactly by Bitcoin's rule. -/
theorem checkHeader_returns : ∃ accepted,
    (checkHeader sha256 header floor : Run ε Bool).outcome = .ok accepted ∧
      (accepted = true ↔ BitcoinAccepts sha256 header floor) := by
  rw [checkHeader]
  split
  · next hlength => exact ⟨false, rfl, iff_of_false (by decide) fun h => hlength h.length⟩
  · next hlength =>
      have hlength : header.length = headerSize := not_not.mp hlength
      obtain ⟨bits, hbits, hvalue⟩ := @nBits_eq ε header hlength
      have hexpands := @compactToTarget_pos_iff bits
      rw [hvalue] at hexpands
      rw [hbits, pure_bind, littleEndianToBig_eq]
      cases htarget : compactToTarget bits with
      | none =>
          refine ⟨false, rfl, iff_of_false (by decide) fun h => ?_⟩
          have hsome := (hexpands.mpr ⟨h.notNegative, h.notOverflowing, h.positive, rfl⟩).1
          rw [htarget] at hsome
          cases hsome
      | some target =>
          obtain ⟨accepted, hrun, haccepted⟩ := @bounds_iff ε floor target
            (littleEndian (headerHash sha256 header).val)
          refine ⟨accepted, congrArg Run.outcome hrun, haccepted.trans ?_⟩
          constructor
          · rintro ⟨hpos, hfloor, hwork⟩
            obtain ⟨hnegative, hoverflow, hpositive, rfl⟩ := hexpands.mp ⟨htarget, hpos⟩
            exact ⟨hlength, hnegative, hoverflow, hpositive, hfloor, Int.ofNat_le.mp hwork⟩
          · intro h
            obtain ⟨hsome, hpos⟩ :=
              hexpands.mpr ⟨h.notNegative, h.notOverflowing, h.positive, rfl⟩
            rw [htarget] at hsome
            cases hsome
            exact ⟨hpos, h.withinFloor, Int.ofNat_le.mpr h.work⟩

theorem checkHeader_ok_iff :
    (checkHeader sha256 header floor : Run ε Bool).outcome = .ok true ↔
      BitcoinAccepts sha256 header floor := by
  obtain ⟨accepted, hrun, haccepted⟩ := @checkHeader_returns ε sha256 header floor
  rw [hrun, ← haccepted, Outcome.ok.injEq]

end Gate

/-- The gate returns on every header and accepts exactly by Bitcoin's rule; under a floor it also
accepts what a lower floor accepts, and only hashes below the floor. -/
theorem checkHeader_bitcoin (sha256 : Bytes → FixedBytes 32) (header : Bytes) :
    (∀ floor, ∃ accepted, (checkHeader sha256 header floor : Run Empty Bool).outcome = .ok accepted ∧
      (accepted = true ↔ BitcoinAccepts sha256 header floor)) ∧
    ∀ f, (checkHeader sha256 header (some f) : Run Empty Bool).outcome = .ok true →
      (∀ g, f ≤ g → (checkHeader sha256 header (some g) : Run Empty Bool).outcome = .ok true) ∧
      (littleEndian (headerHash sha256 header).val : Int) ≤ f := by
  refine ⟨fun floor => checkHeader_returns, fun f hf => ?_⟩
  have haccepts := checkHeader_ok_iff.mp hf
  have hfloor := haccepts.withinFloor f rfl
  constructor
  · intro g hg
    refine checkHeader_ok_iff.mpr { haccepts with withinFloor := ?_ }
    rintro _ ⟨⟩
    exact Int.le_trans hfloor hg
  · exact Int.le_trans (Int.ofNat_le.mpr haccepts.work) hfloor

/-- A header that claims the easiest target and hashes to zero. -/
def easyHeader : Bytes := List.replicate 72 0 ++ [0xff, 0xff, 0x7f, 0x20] ++ List.replicate 4 0

theorem checkHeader_bitcoin_easy :
    (checkHeader (fun _ => .copy 32 []) easyHeader (some (2 ^ 255)) : Run Empty Bool).outcome =
        .ok true ∧
      (checkHeader (fun _ => .copy 32 []) easyHeader (some (2 ^ 256)) : Run Empty Bool).outcome =
        .ok true := by
  have haccepted : (checkHeader (fun _ => .copy 32 []) easyHeader (some (2 ^ 255)) :
      Run Empty Bool).outcome = .ok true := by decide +kernel
  exact ⟨haccepted, ((checkHeader_bitcoin _ _).2 _ haccepted).1 _ (by decide)⟩

end ShardCommon.Pow
