import ShardCommon.Lib.WireBytes

/-!
# Addresses

`netip.Addr` of the Go library, as far as the registry and the bootstrap lists use it.
-/

namespace ShardCommon.Netip

/-- The zero value is no address. -/
inductive Addr where
  | invalid
  | v4 (bytes : FixedBytes 4)
  | v6 (bytes : FixedBytes 16) (zone : String)
  deriving DecidableEq

namespace Addr

/-- `WithZone("")`. -/
def withoutZone : Addr → Addr
  | v6 bytes _ => v6 bytes ""
  | addr => addr

def bitLen : Addr → Nat
  | invalid => 0
  | v4 _ => 32
  | v6 _ _ => 128

def bits : Addr → Nat
  | invalid => 0
  | v4 bytes => BigEndian.toNat bytes.val
  | v6 bytes _ => BigEndian.toNat bytes.val

def zone : Addr → String
  | v6 _ zone => zone
  | _ => ""

def less (a b : Addr) : Bool :=
  if a.bitLen ≠ b.bitLen then a.bitLen < b.bitLen
  else if a.bits ≠ b.bits then a.bits < b.bits
  else a.zone < b.zone

def is6 : Addr → Bool
  | v6 _ _ => true
  | _ => false

/-- `::ffff:0:0/96`, in any zone. -/
def is4In6 (a : Addr) : Bool := a.is6 && a.bits / 2 ^ 32 == 0xffff

def unmap : Addr → Addr
  | v6 bytes zone =>
    if (v6 bytes zone).is4In6 then v4 (FixedBytes.copy 4 (bytes.val.drop 12)) else v6 bytes zone
  | addr => addr

/-- The 16 bytes of an IPv6 address; an IPv4 one is mapped, and no address gives zeros. -/
def as16 : Addr → FixedBytes 16
  | invalid => .copy 16 []
  | v4 bytes => .copy 16 (List.replicate 10 0 ++ [0xff, 0xff] ++ bytes.val)
  | v6 bytes _ => bytes

/-- `AddrFrom16`. A mapped IPv4 address stays as it is. -/
def from16 (bytes : FixedBytes 16) : Addr := v6 bytes ""

end Addr

structure AddrPort where
  addr : Addr
  port : UInt16
  deriving DecidableEq

end ShardCommon.Netip
