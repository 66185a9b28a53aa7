import ShardCommon.Wire

/-!
# Subtree data payloads

The codec of `frame/subtree_data_payload.go`. The decoder's counts are 64-bit numbers off the wire,
and its offsets are computed in `int` arithmetic before any bound is checked, so every product and
sum of the source stands there under `wrap64`.
-/

namespace ShardCommon.Frame

open Go

def subtreeDataPayloadHeaderSize : Nat := 24

def subtreeNodeHashSize : Nat := 32

def subtreeNodeFullSize : Nat := 48

def subtreeMsgHashesOnly : UInt8 := 0x01

def subtreeMsgFullNodes : UInt8 := 0x02

structure SubtreeNode where
  txHash : FixedBytes 32
  fee : UInt64
  size : UInt64
  deriving DecidableEq

structure SubtreeDataPayload where
  totalFees : UInt64
  totalSizeBytes : UInt64
  nodes : List SubtreeNode
  conflictHashes : List (FixedBytes 32)
  deriving DecidableEq

inductive SubtreeDataError where
  | tooShort (length : Nat)
  | unknownMsgType (msgType : UInt8)
  | tooShortForNodes (nodeCount : UInt64) (length : Nat) (need : Int)
  | tooShortForConflicts (conflictCount : UInt64) (length : Nat) (need : Int)
  deriving Repr, DecidableEq

def SubtreeDataError.text : SubtreeDataError → String
  | tooShort length =>
    s!"frame: subtree data payload too short ({length} bytes, " ++
      s!"need >= {subtreeDataPayloadHeaderSize})"
  | unknownMsgType msgType => s!"frame: unknown subtree MsgType 0x{hexByte msgType}"
  | tooShortForNodes nodeCount length need =>
    s!"frame: subtree data payload too short for {nodeCount} nodes ({length} bytes, need >= {need})"
  | tooShortForConflicts conflictCount length need =>
    s!"frame: subtree data payload too short for {conflictCount} conflicts " ++
      s!"({length} bytes, need {need})"

/-- The `switch msgType` that both directions of the codec start with. -/
def nodeStride? (msgType : UInt8) : Option Nat :=
  if msgType = subtreeMsgHashesOnly then some subtreeNodeHashSize
  else if msgType = subtreeMsgFullNodes then some subtreeNodeFullSize
  else none

/-- One round of the node loop. -/
def decodeNode (payload : Bytes) (msgType : UInt8) (nodeStride : Nat) (i : Nat) :
    Run SubtreeDataError SubtreeNode := do
  let off := wrap64 (subtreeDataPayloadHeaderSize + wrap64 (wrap64 i * nodeStride))
  let txHash ← Run.slice payload off (wrap64 (off + 32))
  if msgType = subtreeMsgFullNodes then
    let fee ← Run.slice payload (wrap64 (off + 32)) (wrap64 (off + 40))
    let size ← Run.slice payload (wrap64 (off + 40)) (wrap64 (off + 48))
    pure ⟨.copy 32 txHash, uint64 fee, uint64 size⟩
  else pure ⟨.copy 32 txHash, 0, 0⟩

/-- One round of the conflict loop. -/
def decodeConflict (payload : Bytes) (nodesEnd : Int) (i : Nat) :
    Run SubtreeDataError (FixedBytes 32) := do
  let off := wrap64 (wrap64 (nodesEnd + 8) + wrap64 (wrap64 i * 32))
  let hash ← Run.slice payload off (wrap64 (off + 32))
  pure (.copy 32 hash)

def decodeSubtreeDataPayload (payload : Bytes) (msgType : UInt8) :
    Run SubtreeDataError SubtreeDataPayload := do
  if payload.length < subtreeDataPayloadHeaderSize then
    Run.fail (.tooShort payload.length)
  else
    let totalFees ← Run.slice payload 0 8
    let totalSize ← Run.slice payload 8 16
    let nodeCount ← uint64 <$> Run.slice payload 16 24
    match nodeStride? msgType with
    | none => Run.fail (.unknownMsgType msgType)
    | some nodeStride =>
      let nodesEnd := wrap64 (subtreeDataPayloadHeaderSize +
        wrap64 (wrap64 nodeCount.toNat * nodeStride))
      if payload.length < wrap64 (nodesEnd + 8) then
        Run.fail (.tooShortForNodes nodeCount payload.length (wrap64 (nodesEnd + 8)))
      else
        Run.make 48 nodeCount.toNat
        let nodes ← Run.collect (decodeNode payload msgType nodeStride) 0 nodeCount.toNat
        let conflictCount ← uint64 <$> Run.slice payload nodesEnd (wrap64 (nodesEnd + 8))
        let conflictsEnd := wrap64 (wrap64 (nodesEnd + 8) +
          wrap64 (wrap64 conflictCount.toNat * 32))
        if payload.length < conflictsEnd then
          Run.fail (.tooShortForConflicts conflictCount payload.length conflictsEnd)
        else
          Run.make 32 conflictCount.toNat
          let conflicts ← Run.collect (decodeConflict payload nodesEnd) 0 conflictCount.toNat
          pure ⟨uint64 totalFees, uint64 totalSize, nodes, conflicts⟩

/-- The writes for one node. -/
def nodeWrites (msgType : UInt8) (off : Nat) (node : SubtreeNode) : List (Nat × Bytes) :=
  (off, node.txHash.val) ::
    if msgType = subtreeMsgFullNodes then
      [(off + 32, putUint64 node.fee), (off + 40, putUint64 node.size)]
    else []

/-- The writes of the encoder, in order. -/
def payloadWrites (p : SubtreeDataPayload) (msgType : UInt8) (nodeStride : Nat) :
    List (Nat × Bytes) :=
  let conflictOff := subtreeDataPayloadHeaderSize + p.nodes.length * nodeStride
  [(0, putUint64 p.totalFees), (8, putUint64 p.totalSizeBytes),
    (16, putUint64 (UInt64.ofNat p.nodes.length))] ++
  (p.nodes.zipIdx.flatMap fun item =>
    nodeWrites msgType (subtreeDataPayloadHeaderSize + item.2 * nodeStride) item.1) ++
  [(conflictOff, putUint64 (UInt64.ofNat p.conflictHashes.length))] ++
  p.conflictHashes.zipIdx.flatMap fun item => [(conflictOff + 8 + item.2 * 32, item.1.val)]

def encodeSubtreeDataPayload (p : SubtreeDataPayload) (msgType : UInt8) :
    Run SubtreeDataError Bytes := do
  match nodeStride? msgType with
  | none => Run.fail (.unknownMsgType msgType)
  | some nodeStride =>
    let nodesLen ← Run.mul p.nodes.length nodeStride
    let size ← Run.add subtreeDataPayloadHeaderSize nodesLen
    let size ← Run.add size 8
    let conflictsLen ← Run.mul p.conflictHashes.length 32
    let size ← Run.add size conflictsLen
    Run.make 1 size
    Run.putAll (List.replicate size 0) (payloadWrites p msgType nodeStride)

end ShardCommon.Frame
