import ShardCommon.NetAddr
import ShardCommon.Wire

/-!
# The tee envelope

`teewire/teewire.go`: the header in front of a datagram that is mirrored over loopback, which carries
the address the datagram came from.
-/

namespace ShardCommon.Teewire

open Go Netip
open ShardCommon.Frame (Bytes uint16 uint32 putUint16 putUint32 byteAt bytesAt)

/-- The letters `TEE1`. -/
def magic : UInt32 := 0x54454531

def version : UInt8 := 0x01

def headerSize : Nat := 24

inductive TeeError where
  | tooShort
  | badMagic
  | badVersion
  deriving Repr, DecidableEq

def TeeError.text : TeeError → String
  | tooShort => "teewire: datagram shorter than envelope header"
  | badMagic => "teewire: invalid envelope magic"
  | badVersion => "teewire: unsupported envelope version"

def isEncap (b : Bytes) : Bool := decide (4 ≤ b.length) && uint32 (b.take 4) == magic

-- the flags are reserved and sent as 0
def appendEncap (dst : Bytes) (src : AddrPort) (payload : Bytes) : Bytes :=
  let hdr := putUint32 magic ++ [version] ++ [0] ++ src.addr.as16.val ++ putUint16 src.port
  dst ++ hdr ++ payload

/-- The flags are not looked at. -/
def decap (b : Bytes) : Run TeeError (AddrPort × Bytes) := do
  Run.failIf (b.length < headerSize) .tooShort
  let word ← uint32 <$> bytesAt b 0 4
  Run.failIf (word ≠ magic) .badMagic
  let ver ← byteAt b 4
  Run.failIf (ver ≠ version) .badVersion
  let a16 ← .copy 16 <$> bytesAt b 6 22
  let port ← uint16 <$> bytesAt b 22 24
  let payload ← bytesAt b headerSize b.length
  pure (⟨Addr.from16 a16, port⟩, payload)

end ShardCommon.Teewire
