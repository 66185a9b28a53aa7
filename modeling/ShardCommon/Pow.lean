import Mathlib.Data.Nat.Size
import ShardCommon.Wire

/-!
# Proof of work

`pow/pow.go`: whether a block header hashes under the target it claims, and whether that target is
at least as hard as a configured floor. SHA-256 is a parameter, a `big.Int` is an integer and `nil`
is `none`.
-/

namespace ShardCommon.Pow

open Go ShardCommon.Frame

def headerSize : Nat := 80

def nBitsOffset : Nat := 72

def headerHash (sha256 : Bytes → FixedBytes 32) (header : Bytes) : FixedBytes 32 :=
  let first := sha256 header
  sha256 first.val

/-- `binary.LittleEndian.Uint32`. -/
def uint32LE (bytes : Bytes) : UInt32 := UInt32.ofNat (BigEndian.toNat bytes.reverse)

def nBits {ε : Type} (header : Bytes) : Run ε UInt32 :=
  uint32LE <$> bytesAt header nBitsOffset (nBitsOffset + 4)

/-- `BitLen`: the number of bits of the magnitude. -/
def bitLen (t : Int) : Nat := t.natAbs.size

/-- The mantissa shifted by whole bytes, to the right below an exponent of three. -/
def expand (exponent mantissa : UInt32) : Int :=
  if exponent ≤ 3 then (mantissa.toUInt64 >>> (8 * (3 - exponent)).toUInt64).toNat
  else (mantissa.toNat <<< (8 * (exponent.toNat - 3)) : Nat)

def compactToTarget (nBits : UInt32) : Option Int :=
  let exponent := nBits >>> 24
  let mantissa := nBits &&& 0x007fffff
  if nBits &&& 0x00800000 ≠ 0 then none
  else if mantissa = 0 then some 0
  else
    let t := expand exponent mantissa
    if 256 < bitLen t then none else some t

def littleEndianToBig (h : FixedBytes 32) : Int := BigEndian.toNat h.val.reverse

def checkHeader {ε : Type} (sha256 : Bytes → FixedBytes 32) (header : Bytes) (floor : Option Int) :
    Run ε Bool := do
  if header.length ≠ headerSize then pure false
  else
    let bits ← nBits header
    match compactToTarget bits with
    | none => pure false
    | some target =>
      if target ≤ 0 then pure false
      else if floor.any fun floor => floor < target then pure false
      else pure (littleEndianToBig (headerHash sha256 header) ≤ target)

end ShardCommon.Pow
