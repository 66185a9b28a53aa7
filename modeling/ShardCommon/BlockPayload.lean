import ShardCommon.FrameCodec

/-!
# Block announce payloads

The codec of `frame/block_payload.go`: the block header, the coinbase TxID and the roots of the
block's subtrees.
-/

namespace ShardCommon.Frame

open Go

def blockAnnounceMinPayload : Nat := blockHeaderSize + 32 + 4

structure BlockAnnouncePayload where
  header : FixedBytes 80
  coinbaseTxID : FixedBytes 32
  subtreeHashes : List (FixedBytes 32)
  deriving DecidableEq

inductive BlockAnnounceError where
  | tooShort (length : Nat)
  | tooShortForSubtrees (subtreeCount : UInt32) (length need : Nat)
  deriving Repr, DecidableEq

def BlockAnnounceError.text : BlockAnnounceError → String
  | tooShort length =>
    s!"frame: block announce payload too short ({length} bytes, need >= {blockAnnounceMinPayload})"
  | tooShortForSubtrees subtreeCount length need =>
    s!"frame: block announce payload too short for {subtreeCount} subtrees ({length} bytes, " ++
      s!"need {need})"

/-- One round of the loop over the subtrees. -/
def decodeSubtreeHash (payload : Bytes) (i : Nat) : Run BlockAnnounceError (FixedBytes 32) :=
  let off := 116 + i * 32
  FixedBytes.copy 32 <$> bytesAt payload off (off + 32)

/-- The count has 32 bits, so none of the sums leaves the range of `int`. -/
def decodeBlockAnnounce (payload : Bytes) : Run BlockAnnounceError BlockAnnouncePayload := do
  Run.failIf (payload.length < blockAnnounceMinPayload) (.tooShort payload.length)
  let subtreeCount ← uint32 <$> bytesAt payload 112 116
  let expectedLen := blockAnnounceMinPayload + subtreeCount.toNat * 32
  Run.failIf (payload.length < expectedLen)
    (.tooShortForSubtrees subtreeCount payload.length expectedLen)
  let header ← FixedBytes.copy 80 <$> bytesAt payload 0 80
  let coinbaseTxID ← FixedBytes.copy 32 <$> bytesAt payload 80 112
  if 0 < subtreeCount then
    Run.make 32 subtreeCount.toNat
    let subtreeHashes ← Run.collect (decodeSubtreeHash payload) 0 subtreeCount.toNat
    pure ⟨header, coinbaseTxID, subtreeHashes⟩
  else pure ⟨header, coinbaseTxID, []⟩

/-- The writes of the encoder, in order. -/
def blockAnnounceWrites (a : BlockAnnouncePayload) : List (Nat × Bytes) :=
  [(0, a.header.val), (80, a.coinbaseTxID.val),
    (112, putUint32 (UInt32.ofNat a.subtreeHashes.length))] ++
  a.subtreeHashes.zipIdx.flatMap fun item => [(116 + item.2 * 32, item.1.val)]

def encodeBlockAnnounce {ε : Type} (a : BlockAnnouncePayload) : Run ε Bytes := do
  let hashesLen ← Run.mul a.subtreeHashes.length 32
  let size ← Run.add blockAnnounceMinPayload hashesLen
  Run.make 1 size
  Run.putAll (List.replicate size 0) (blockAnnounceWrites a)

end ShardCommon.Frame
