import ShardCommon.Lib.BufferLayout
import ShardCommon.Lib.WireBytes

/-!
# Fields of a datagram

What the codecs of the `frame` package share: reads at fixed offsets, big-endian integers, and the
hexadecimal digits of their error texts.
-/

namespace ShardCommon.Frame

open Go

abbrev Bytes := List UInt8

def magicBSV : UInt32 := 0xE3E1F3E8

def protoVer : UInt16 := 0x02BF

/-- `binary.BigEndian.Uint16`. -/
def uint16 (bytes : Bytes) : UInt16 := UInt16.ofNat (BigEndian.toNat bytes)

/-- `binary.BigEndian.Uint32`. -/
def uint32 (bytes : Bytes) : UInt32 := UInt32.ofNat (BigEndian.toNat bytes)

/-- `binary.BigEndian.Uint64`. -/
def uint64 (bytes : Bytes) : UInt64 := UInt64.ofNat (BigEndian.toNat bytes)

/-- What `binary.BigEndian.PutUint16` writes. -/
def putUint16 (v : UInt16) : Bytes := BigEndian.ofNat 2 v.toNat

/-- What `binary.BigEndian.PutUint32` writes. -/
def putUint32 (v : UInt32) : Bytes := BigEndian.ofNat 4 v.toNat

/-- What `binary.BigEndian.PutUint64` writes. -/
def putUint64 (v : UInt64) : Bytes := BigEndian.ofNat 8 v.toNat

/-- `buf[i]`. -/
def byteAt {ε : Type} (buf : Bytes) (i : Nat) : Run ε UInt8 := Run.index buf i

/-- `buf[low:high]`. -/
def bytesAt {ε : Type} (buf : Bytes) (low high : Nat) : Run ε Bytes := Run.slice buf low high

/-- Two upper-case hexadecimal digits, as `%02X` prints a byte. -/
def hexByte (b : UInt8) : String :=
  String.ofList [(b.toNat / 16).digitChar.toUpper, (b.toNat % 16).digitChar.toUpper]

/-- `%X`. -/
def hexUpper (n : Nat) : String := String.ofList ((Nat.toDigits 16 n).map Char.toUpper)

/-- `%08X`. -/
def hexWord (v : UInt32) : String :=
  let digits := (Nat.toDigits 16 v.toNat).map Char.toUpper
  String.ofList (List.replicate (8 - digits.length) '0' ++ digits)

def crc32cShift (crc : UInt32) : UInt32 :=
  if crc &&& 1 = 1 then (crc >>> 1) ^^^ 0x82F63B78 else crc >>> 1

/-- `crc32.Checksum` with the Castagnoli polynomial, bit by bit. -/
def crc32c (bytes : Bytes) : UInt32 :=
  ~~~ bytes.foldl (fun crc b => crc32cShift^[8] (crc ^^^ b.toUInt32)) 0xFFFFFFFF

example : crc32c [0x31, 0x32, 0x33, 0x34, 0x35, 0x36, 0x37, 0x38, 0x39] = 0xE3069283 := by
  decide +kernel

/-! ## Reading and writing integers -/

@[simp] theorem length_putUint16 (v : UInt16) : (putUint16 v).length = 2 := BigEndian.length_ofNat ..

@[simp] theorem length_putUint32 (v : UInt32) : (putUint32 v).length = 4 := BigEndian.length_ofNat ..

@[simp] theorem length_putUint64 (v : UInt64) : (putUint64 v).length = 8 := BigEndian.length_ofNat ..

@[simp] theorem uint16_putUint16 (v : UInt16) : uint16 (putUint16 v) = v := by
  rw [uint16, putUint16, BigEndian.toNat_ofNat (by simpa using v.toNat_lt), UInt16.ofNat_toNat]

@[simp] theorem uint32_putUint32 (v : UInt32) : uint32 (putUint32 v) = v := by
  rw [uint32, putUint32, BigEndian.toNat_ofNat (by simpa using v.toNat_lt), UInt32.ofNat_toNat]

@[simp] theorem uint64_putUint64 (v : UInt64) : uint64 (putUint64 v) = v := by
  rw [uint64, putUint64, BigEndian.toNat_ofNat (by simpa using v.toNat_lt), UInt64.ofNat_toNat]

theorem putUint16_uint16 {bytes : Bytes} (h : bytes.length = 2) : putUint16 (uint16 bytes) = bytes := by
  have hlt := BigEndian.toNat_lt bytes
  rw [h] at hlt
  rw [putUint16, uint16, UInt16.toNat_ofNat_of_lt' (by simpa using hlt), ← h, BigEndian.ofNat_toNat]

theorem putUint32_uint32 {bytes : Bytes} (h : bytes.length = 4) : putUint32 (uint32 bytes) = bytes := by
  have hlt := BigEndian.toNat_lt bytes
  rw [h] at hlt
  rw [putUint32, uint32, UInt32.toNat_ofNat_of_lt' (by simpa using hlt), ← h, BigEndian.ofNat_toNat]

theorem putUint64_uint64 {bytes : Bytes} (h : bytes.length = 8) : putUint64 (uint64 bytes) = bytes := by
  have hlt := BigEndian.toNat_lt bytes
  rw [h] at hlt
  rw [putUint64, uint64, UInt64.toNat_ofNat_of_lt' (by simpa using hlt), ← h, BigEndian.ofNat_toNat]

section Reads

variable {ε : Type} {buf : Bytes}

theorem byteAt_ok {i : Nat} {b : UInt8} :
    (byteAt buf i : Run ε UInt8).outcome = .ok b ↔ StandsAt buf i [b] := index_outcome_ok_iff

theorem bytesAt_ok {low high : Nat} {part : Bytes} :
    (bytesAt buf low high : Run ε Bytes).outcome = .ok part ↔
      StandsAt buf low part ∧ high = low + part.length := slice_outcome_ok_iff

theorem bytesAt_front {n : Nat} (hn : n ≤ buf.length) :
    (bytesAt buf 0 n : Run ε Bytes) = pure (buf.take n) := by
  rw [bytesAt, Run.slice_of_le (Nat.zero_le _) hn, List.drop_zero, Nat.sub_zero]

/-- A field of `width` bytes that `read` and `write` carry to a value and back. -/
theorem readAt_ok {ν : Type} {read : Bytes → ν} {write : ν → Bytes} {low high width : Nat} {v : ν}
    (hwidth : ∀ v, (write v).length = width) (hread : ∀ v, read (write v) = v)
    (hwrite : ∀ bytes, bytes.length = width → write (read bytes) = bytes)
    (hhigh : high = low + width) :
    (read <$> (bytesAt buf low high : Run ε Bytes)).outcome = .ok v ↔
      StandsAt buf low (write v) := by
  rw [Run.map_outcome_ok]
  constructor
  · rintro ⟨part, hpart, rfl⟩
    obtain ⟨hstands, hlength⟩ := bytesAt_ok.mp hpart
    rwa [hwrite part (by omega)]
  · intro h
    refine ⟨write v, bytesAt_ok.mpr ⟨h, ?_⟩, hread v⟩
    rw [hwidth, hhigh]

theorem uint16At_ok {low high : Nat} {v : UInt16} (hhigh : high = low + 2) :
    (uint16 <$> (bytesAt buf low high : Run ε Bytes)).outcome = .ok v ↔
      StandsAt buf low (putUint16 v) :=
  readAt_ok length_putUint16 uint16_putUint16 (fun _ => putUint16_uint16) hhigh

theorem uint32At_ok {low high : Nat} {v : UInt32} (hhigh : high = low + 4) :
    (uint32 <$> (bytesAt buf low high : Run ε Bytes)).outcome = .ok v ↔
      StandsAt buf low (putUint32 v) :=
  readAt_ok length_putUint32 uint32_putUint32 (fun _ => putUint32_uint32) hhigh

theorem uint64At_ok {low high : Nat} {v : UInt64} (hhigh : high = low + 8) :
    (uint64 <$> (bytesAt buf low high : Run ε Bytes)).outcome = .ok v ↔
      StandsAt buf low (putUint64 v) :=
  readAt_ok length_putUint64 uint64_putUint64 (fun _ => putUint64_uint64) hhigh

/-- `copy(a[:], buf[low:high])` into a new array of the same size. -/
theorem copyAt_ok {low high width : Nat} {array : FixedBytes width} (hhigh : high = low + width) :
    (FixedBytes.copy width <$> (bytesAt buf low high : Run ε Bytes)).outcome = .ok array ↔
      StandsAt buf low array.val :=
  readAt_ok FixedBytes.length_val FixedBytes.copy_self (fun _ => FixedBytes.copy_val) hhigh

/-- Where there is room, some array stands. -/
theorem exists_fixedBytes {off width : Nat} (h : off + width ≤ buf.length) :
    ∃ array : FixedBytes width, StandsAt buf off array.val := by
  obtain ⟨part, hlength, hpart⟩ := exists_standsAt h
  exact ⟨⟨part, hlength⟩, hpart⟩

theorem exists_uint32 {off : Nat} (h : off + 4 ≤ buf.length) :
    ∃ v, StandsAt buf off (putUint32 v) := by
  obtain ⟨part, hlength, hpart⟩ := exists_standsAt h
  exact ⟨uint32 part, by rwa [putUint32_uint32 hlength]⟩

end Reads

end ShardCommon.Frame
