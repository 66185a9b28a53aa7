import ShardCommon.FrameCodec
import ShardCommon.TxForms

/-!
# Wrapping push objects into multicast frames

The up direction of `objfmt/multicast.go` with the wraps of each class, and the way back in
`objfmt/strip.go`. Frames are sent unstamped; SHA-256 is a parameter.
-/

namespace ShardCommon.Objfmt

open Go ShardCommon.Frame

/-- An error of this package, or one of the `frame` package passed on. -/
inductive WrapError where
  | objfmt (error : ObjfmtError)
  | frame (error : FrameError)
  | payload (error : SubtreeDataError)
  | notStrippable
  deriving Repr, DecidableEq

def WrapError.text : WrapError → String
  | objfmt error => error.text
  | frame error => error.text
  | payload error => error.text
  | notStrippable => "objfmt: frame carries no full push object"

abbrev WrapRun := Run WrapError

/-- `buf := make([]byte, frame.HeaderSize+len(payload))`, a frame encoder on it, and `buf[:n]`. -/
def encoded (encoder : Bytes → FrameRun (Nat × Bytes)) (payload : Bytes) : WrapRun Bytes := do
  let size ← Run.add headerSize payload.length
  Run.make 1 size
  let written ← (encoder (List.replicate size 0)).mapError .frame
  bytesAt written.2 0 written.1

section Up

variable (sha256 : Bytes → FixedBytes 32)

def multicastFrame (c : Class) (obj : Bytes) : SizeRun Frame.Frame :=
  match c with
  | .tx => do
    let n ← txSize obj
    let payload ← bytesAt obj 0 n
    let id ← txID sha256 payload
    pure ⟨frameVerV2, id, 0, 0, .copy 32 [], payload⟩
  | _ => Run.fail .classNotRegistered

/-- One round of the loop over the node hashes. -/
def subtreeNode (obj : Bytes) (i : Nat) : WrapRun SubtreeNode := do
  let off := subtreeHeaderSize + i * subtreeNodeSize
  let hash ← bytesAt obj off (off + subtreeNodeSize)
  pure ⟨.copy 32 hash, 0, 0⟩

def subtreeMulticast (obj : Bytes) : WrapRun Bytes := do
  let n ← (subtreeSize obj).mapError .objfmt
  let obj ← bytesAt obj 0 n
  let root ← .copy 32 <$> bytesAt obj 0 32
  let count ← uint64 <$> bytesAt obj 32 40
  Run.make 48 count.toNat
  let nodes ← Run.collect (subtreeNode obj) 0 count.toNat
  let payload ← (encodeSubtreeDataPayload ⟨0, 0, nodes, []⟩ subtreeMsgHashesOnly).mapError .payload
  encoded (encodeSubtreeData ⟨subtreeMsgHashesOnly, root, 0, 0, payload⟩) payload

def blockMulticast (obj : Bytes) : WrapRun Bytes := do
  let n ← (blockSize obj).mapError .objfmt
  let body ← bytesAt obj 0 n
  let header ← bytesAt body 0 blockHeaderBytes
  let blockHash := sha256 (sha256 header).val
  encoded (encodeBlock ⟨blockMsgAnnounce, blockHash, 0, 0, body⟩) body

def multicastBytes (c : Class) (obj : Bytes) : WrapRun Bytes :=
  match c with
  | .tx => do
    let f ← (multicastFrame sha256 .tx obj).mapError .objfmt
    encoded (encode f) f.payload
  | .subtree => subtreeMulticast obj
  | .block => blockMulticast sha256 obj
  | _ => Run.fail (.objfmt .classNotRegistered)

/-! ## Submission records -/

def topicID (name : Bytes) : FixedBytes 32 := sha256 name

def contentID (obj : Bytes) : FixedBytes 32 := sha256 (sha256 obj).val

/-- Topic names are byte strings, as Go's are. -/
structure BEEFRecord where
  topics : List Bytes
  object : Bytes
  deriving DecidableEq

/-- One round of the loop over the topic names of an accepted record. -/
def decodeBEEFTopic (buf : Bytes) (state : List Bytes × Nat) : SizeRun (List Bytes × Nat) := do
  let nameLen ← byteAt buf state.2
  let start ← Run.add state.2 1
  let stop ← Run.add start nameLen.toNat
  let name ← bytesAt buf start stop
  pure (state.1 ++ [name], stop)

def decodeBEEFRecord (buf : Bytes) : SizeRun (BEEFRecord × Nat) := do
  let n ← beefRecordSize buf
  let count ← byteAt buf 3
  Run.make 16 count.toNat
  let state ← Run.iterate (decodeBEEFTopic buf) count.toNat ([], beefRecordMin)
  let start ← Run.add state.2 4
  let objLen ← uint32 <$> bytesAt buf state.2 start
  let stop ← Run.add start objLen.toNat
  let object ← bytesAt buf start stop
  pure (⟨state.1, object⟩, n)

/-- `deliverCount` clamped to `[1, topics]`, as the byte of the header. -/
def clampDeliverCount (topics : Nat) (deliverCount : Int) : UInt8 :=
  let deliverCount := if deliverCount < 1 then 1 else deliverCount
  let deliverCount : Int := if topics < deliverCount then topics else deliverCount
  UInt8.ofNat deliverCount.toNat

def beefMulticastRecord (rec : Bytes) (deliverCount : Int) : WrapRun Bytes := do
  let decoded ← (decodeBEEFRecord rec).mapError .objfmt
  Run.failIf (decoded.2 ≠ rec.length) (.objfmt (.malformed
    (toString (rec.length - decoded.2) ++ " trailing bytes after record")))
  let topics := decoded.1.topics
  let first ← Run.index topics 0
  encoded (encodeBEEF ⟨contentID sha256 rec, 0, 0, topicID sha256 first,
    clampDeliverCount topics.length deliverCount, rec⟩) rec

end Up

/-! ## The way back -/

/-- The writes that rebuild a subtree push object, in order. -/
def subtreeWrites (root : FixedBytes 32) (nodes : List SubtreeNode) : List (Nat × Bytes) :=
  [(0, root.val), (32, putUint64 (UInt64.ofNat nodes.length))] ++
  nodes.zipIdx.flatMap fun item =>
    [(subtreeHeaderSize + item.2 * subtreeNodeSize, item.1.txHash.val)]

def subtreeStrip (mcast : Bytes) : WrapRun Bytes := do
  let sf ← (decodeSubtreeData mcast).mapError .frame
  let p ← (decodeSubtreeDataPayload sf.payload sf.msgType).mapError .payload
  let nodesLen ← Run.mul p.nodes.length subtreeNodeSize
  let size ← Run.add subtreeHeaderSize nodesLen
  Run.make 1 size
  Run.putAll (List.replicate size 0) (subtreeWrites sf.subtreeID p.nodes)

def blockStrip (mcast : Bytes) : WrapRun Bytes := do
  let bf ← (decodeBlock mcast).mapError .frame
  let n ← (blockSize bf.payload).mapError fun _ => .notStrippable
  Run.failIf (n ≠ bf.payload.length) .notStrippable
  pure bf.payload

def beefStrip (mcast : Bytes) : WrapRun Bytes := do
  let bf ← (decodeBEEF mcast).mapError .frame
  pure bf.payload

def stripBytes (c : Class) (mcast : Bytes) : WrapRun Bytes :=
  match c with
  | .tx => do
    let f ← (decode mcast).mapError .frame
    pure f.payload
  | .subtree => subtreeStrip mcast
  | .block => blockStrip mcast
  | .beef => beefStrip mcast
  | _ => Run.fail (.objfmt .classNotRegistered)

end ShardCommon.Objfmt
