import ShardCommon.NetAddr
import Mathlib.Data.List.Sort
import Mathlib.Data.Prod.Lex
import Mathlib.Data.String.Basic

/-!
# The order of addresses

`Less` compares the family, the bits and the zone, in this order. These are all there is to an
address, so it is a linear order.
-/

namespace ShardCommon.Netip.Addr

variable {a b : Addr}

def orderKey (a : Addr) : Nat ×ₗ Nat ×ₗ String := toLex (a.bitLen, toLex (a.bits, a.zone))

theorem bytes_inj {width : Nat} {x y : FixedBytes width}
    (h : BigEndian.toNat x.val = BigEndian.toNat y.val) : x = y := by
  apply Subtype.ext
  rw [← BigEndian.ofNat_toNat x.val, ← BigEndian.ofNat_toNat y.val, h, x.length_val, y.length_val]

theorem orderKey_injective : Function.Injective orderKey := by
  intro a b h
  simp only [orderKey, toLex_inj, Prod.mk.injEq] at h
  obtain ⟨hlen, hbits, hzone⟩ := h
  cases a <;> cases b <;> simp only [bitLen, bits, zone, reduceCtorEq, OfNat.ofNat_ne_zero,
    Nat.reduceEqDiff] at hlen hbits hzone
  · rfl
  · rw [bytes_inj hbits]
  · rw [bytes_inj hbits, hzone]

theorem less_iff : a.less b = true ↔ a.orderKey < b.orderKey := by
  simp only [orderKey, Prod.Lex.toLex_lt_toLex, less]
  split
  · simp_all
  · split <;> simp_all

theorem not_less_iff : b.less a = false ↔ a.orderKey ≤ b.orderKey := by
  rw [← not_lt, ← less_iff, Bool.not_eq_true]

instance : LinearOrder Addr where
  le a b := b.less a = false
  lt a b := a.less b = true
  le_refl a := not_less_iff.mpr le_rfl
  le_trans a b c hab hbc :=
    not_less_iff.mpr ((not_less_iff.mp hab).trans (not_less_iff.mp hbc))
  lt_iff_le_not_ge a b := by
    rw [less_iff, not_less_iff, not_less_iff]
    exact lt_iff_le_not_ge
  le_antisymm a b hab hba :=
    orderKey_injective ((not_less_iff.mp hab).antisymm (not_less_iff.mp hba))
  le_total a b := by
    rw [not_less_iff, not_less_iff]
    exact le_total ..
  toDecidableLE a b := inferInstanceAs (Decidable (b.less a = false))
  toDecidableEq := inferInstance

theorem not_less_eq_decide_le (a b : Addr) : (!b.less a) = decide (a ≤ b) := by
  rw [Bool.eq_iff_iff, decide_eq_true_iff, Bool.not_eq_true']
  rfl

end ShardCommon.Netip.Addr
