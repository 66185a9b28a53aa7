import ShardCommon.BEEFTopics

/-!
# BEEF delivery

The rest of `objfmt/beef.go`: the marker gate on objects, the frame of a bare object, and the record
that an edge writes to a consumer, which carries the topic that matched and the payload of the frame.
-/

namespace ShardCommon.Objfmt

open Go ShardCommon.Frame

def beefMarkerV1 : UInt32 := 0xEFBE0001

def beefMarkerV2 : UInt32 := 0xEFBE0002

def atomicBEEFMarker : UInt32 := 0x01010101

/-- The little-endian word of the first four bytes; `none` is the `ok` that is false. -/
def beefVersionWord (obj : Bytes) : Option UInt32 :=
  if obj.length < 4 then none else some (uintLE (obj.take 4)).toUInt32

def isBEEFObject (obj : Bytes) : Bool :=
  match beefVersionWord obj with
  | none => false
  | some w => w == beefMarkerV1 || w == beefMarkerV2 || w == atomicBEEFMarker

/-- The legacy count of deliverable topics goes with a bare object. -/
def beefMulticastBytes (sha256 : Bytes → FixedBytes 32) (topicID : FixedBytes 32) (obj : Bytes) :
    WrapRun Bytes := do
  Run.failIf (obj.length = 0) (.objfmt (.malformed "empty object"))
  encoded (encodeBEEF ⟨contentID sha256 obj, 0, 0, topicID, beefDeliverCountLegacy, obj⟩) obj

/-- The length is truncated to 32 bits. -/
def encodeBEEFDelivery (topicID : FixedBytes 32) (object : Bytes) : SizeRun Bytes := do
  let size ← Run.add beefDeliveryHeaderSize object.length
  Run.make 1 size
  pure (topicID.val ++ putUint32 (UInt32.ofNat object.length) ++ object)

/-- The topic, the object and the number of bytes read. -/
def decodeBEEFDelivery (buf : Bytes) : SizeRun (FixedBytes 32 × Bytes × Nat) := do
  let n ← beefDeliverySize buf
  let topicID ← .copy 32 <$> bytesAt buf 0 32
  let object ← bytesAt buf beefDeliveryHeaderSize n
  pure (topicID, object, n)

end ShardCommon.Objfmt
