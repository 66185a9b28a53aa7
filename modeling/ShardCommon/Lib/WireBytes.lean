import Mathlib.Data.List.Induction
import Mathlib.Data.Vector.Basic
import Mathlib.Tactic.Common
import Mathlib.Tactic.Ring

/-!
# Bytes on the wire

The number a byte string spells, most significant byte first, and the string of a given width that
spells a number: the two are inverse to each other within the width. Byte arrays of fixed size are
vectors, filled from a slice as Go's `copy` fills a zeroed array.
-/

/-- A Go array of `width` bytes. -/
abbrev FixedBytes (width : Nat) := List.Vector UInt8 width

def FixedBytes.copy (width : Nat) (source : List UInt8) : FixedBytes width :=
  ⟨(source ++ List.replicate width 0).take width, by simp⟩

theorem FixedBytes.copy_val {width : Nat} {source : List UInt8} (h : source.length = width) :
    (FixedBytes.copy width source).val = source := by
  subst h
  simp [FixedBytes.copy]

@[simp] theorem FixedBytes.length_val {width : Nat} (array : FixedBytes width) :
    array.val.length = width := array.property

@[simp] theorem FixedBytes.copy_self {width : Nat} (array : FixedBytes width) :
    FixedBytes.copy width array.val = array :=
  Subtype.ext (FixedBytes.copy_val array.property)

/-- A string of whole items, when every piece of their width is one. -/
theorem exists_items {α β : Type} {layout : β → List α} {P : β → Prop} {width count : Nat}
    {string : List α} (hitem : ∀ part, part.length = width → ∃ b, layout b = part ∧ P b)
    (h : string.length = count * width) :
    ∃ items : List β,
      items.length = count ∧ (∀ b ∈ items, P b) ∧ items.flatMap layout = string := by
  induction count generalizing string with
  | zero =>
      rw [Nat.zero_mul, List.length_eq_zero_iff] at h
      exact ⟨[], rfl, List.forall_mem_nil _, h.symm⟩
  | succ count ih =>
      rw [Nat.succ_mul] at h
      obtain ⟨items, hcount, hitems, hstring⟩ :=
        @ih (string.drop width) (by rw [List.length_drop]; omega)
      obtain ⟨b, hfirst, hb⟩ := hitem (string.take width) (by rw [List.length_take]; omega)
      refine ⟨b :: items, congrArg (· + 1) hcount, List.forall_mem_cons.mpr ⟨hb, hitems⟩, ?_⟩
      rw [List.flatMap_cons, hfirst, hstring, List.take_append_drop]

/-- A string of whole arrays. -/
theorem FixedBytes.exists_split {width count : Nat} {bytes : List UInt8}
    (h : bytes.length = count * width) :
    ∃ arrays : List (FixedBytes width), arrays.length = count ∧ arrays.flatMap (·.val) = bytes := by
  obtain ⟨arrays, hcount, -, hbytes⟩ := @exists_items UInt8 (FixedBytes width) (·.val)
    (fun _ => True) width count bytes (fun part hpart => ⟨⟨part, hpart⟩, rfl, trivial⟩) h
  exact ⟨arrays, hcount, hbytes⟩

namespace BigEndian

def toNat (bytes : List UInt8) : Nat := bytes.foldl (fun value b => value * 256 + b.toNat) 0

def ofNat : Nat → Nat → List UInt8
  | 0, _ => []
  | width + 1, value => ofNat width (value / 256) ++ [UInt8.ofNat value]

@[simp] theorem toNat_nil : toNat [] = 0 := rfl

theorem toNat_append_singleton (bytes : List UInt8) (b : UInt8) :
    toNat (bytes ++ [b]) = toNat bytes * 256 + b.toNat := by
  simp [toNat]

@[simp] theorem length_ofNat (width value : Nat) : (ofNat width value).length = width := by
  induction width generalizing value with
  | zero => rfl
  | succ width ih => simp [ofNat, ih]

theorem toNat_lt (bytes : List UInt8) : toNat bytes < 256 ^ bytes.length := by
  induction bytes using List.reverseRecOn with
  | nil => simp
  | append_singleton bytes b ih =>
      rw [toNat_append_singleton, List.length_append, List.length_singleton]
      calc toNat bytes * 256 + b.toNat
          < (toNat bytes + 1) * 256 := by have := b.toNat_lt; omega
        _ ≤ 256 ^ bytes.length * 256 := Nat.mul_le_mul_right 256 ih
        _ = 256 ^ (bytes.length + 1) := (pow_succ 256 bytes.length).symm

/-- Every byte string is the encoding of the number it spells. -/
theorem ofNat_toNat (bytes : List UInt8) : ofNat bytes.length (toNat bytes) = bytes := by
  induction bytes using List.reverseRecOn with
  | nil => rfl
  | append_singleton bytes b ih =>
      have hb : b.toNat < 256 := b.toNat_lt
      have hdiv : (toNat bytes * 256 + b.toNat) / 256 = toNat bytes := by omega
      have hlast : UInt8.ofNat (toNat bytes * 256 + b.toNat) = b := by
        apply UInt8.toNat_inj.mp
        rw [UInt8.toNat_ofNat']
        omega
      rw [toNat_append_singleton, List.length_append, List.length_singleton, ofNat, hdiv, ih, hlast]

/-- Reading back what was written, for every number that fits the width. -/
theorem toNat_ofNat {width value : Nat} (h : value < 256 ^ width) :
    toNat (ofNat width value) = value := by
  induction width generalizing value with
  | zero =>
      rw [pow_zero] at h
      rw [ofNat, toNat_nil]
      omega
  | succ width ih =>
      have hdiv : value / 256 < 256 ^ width := by
        rw [pow_succ] at h
        omega
      rw [ofNat, toNat_append_singleton, ih hdiv, UInt8.toNat_ofNat']
      omega

end BigEndian
