import ShardCommon.FrameCodec
import ShardCommon.Lib.GreedyChunks
import ShardCommon.Lib.KeyedList
import ShardCommon.ShardEngine

/-!
# Bundles

Many small transactions of one flow in one datagram: the codec of `bundle/bundle.go`, and the
coalescer of `bundle/coalesce.go` that sorts frames by flow and packs each flow greedily. XXH64 and
SHA-256 are parameters. Lengths are unbounded: they are lengths of slices in memory.
-/

namespace ShardCommon.Bundles

open Go ShardCommon.Frame Shard

def frameVerBundle : UInt8 := frameVerV8

def headerSize : Nat := 66

def flagTxIDsPresent : UInt8 := 1

def maxMembers : Nat := 2 ^ 16 - 1

def maxMemberTxLen : Nat := 2 ^ 16 - 1

def memberLenSize : Nat := 2

def memberTxIDSize : Nat := 32

inductive BundleError where
  | tooShort
  | badMagic (magic : UInt32)
  | badVer (version : UInt8)
  | truncated
  | tooMany (count : Nat)
  | memberBig (length : Nat)
  | countMismatch
  deriving Repr, DecidableEq

def BundleError.text : BundleError → String
  | tooShort => "bundle: datagram shorter than header"
  | badMagic magic => s!"bundle: invalid BSV magic: 0x{hexWord magic}"
  | badVer version => s!"bundle: not a bundle frame version: 0x{hexByte version}"
  | truncated => "bundle: member section truncated"
  | tooMany count => s!"bundle: member count exceeds uint16: {count}"
  | memberBig length => s!"bundle: member tx length exceeds uint16: {length}"
  | countMismatch => "bundle: member section not consumed exactly"

abbrev BundleRun := Run BundleError

structure Member where
  txID : FixedBytes 32
  tx : Bytes
  deriving DecidableEq

structure Bundle where
  flags : UInt8
  subtreeID : FixedBytes 32
  hashKey : UInt64
  seqNum : UInt64
  groupIdx : UInt16
  shardBits : UInt8
  members : List Member
  deriving DecidableEq

def Bundle.txIDsPresent (b : Bundle) : Bool := b.flags &&& flagTxIDsPresent != 0

def memberOverhead (carryTxID : Bool) : Nat :=
  if carryTxID then memberLenSize + memberTxIDSize else memberLenSize

def Bundle.memberSectionLen (b : Bundle) : Nat :=
  memberOverhead b.txIDsPresent * b.members.length + (b.members.map (·.tx.length)).sum

/-! ## Codec -/

/-- The writes of the header, in order. -/
def headerWrites (b : Bundle) (payLen : Nat) : List (Nat × Bytes) :=
  [(0, putUint32 magicBSV), (4, putUint16 protoVer), (6, [frameVerBundle]), (7, [b.flags]),
    (8, b.subtreeID.val), (40, putUint64 b.hashKey), (48, putUint64 b.seqNum),
    (56, putUint16 b.groupIdx), (58, [b.shardBits]), (59, [0]),
    (60, putUint16 (UInt16.ofNat b.members.length)), (62, putUint32 (UInt32.ofNat payLen))]

def putTxID (withTxID : Bool) (m : Member) (c : Cursor UInt8) : BundleRun (Cursor UInt8) :=
  if withTxID then Run.putNext c m.txID.val else pure c

/-- One round of the encoder's loop over the members. -/
def putMember (withTxID : Bool) (c : Cursor UInt8) (m : Member) : BundleRun (Cursor UInt8) := do
  Run.failIf (maxMemberTxLen < m.tx.length) (.memberBig m.tx.length)
  let c ← Run.putNext c (putUint16 (UInt16.ofNat m.tx.length))
  let c ← putTxID withTxID m c
  Run.putNext c m.tx

def Bundle.encode (b : Bundle) : BundleRun Bytes := do
  Run.failIf (maxMembers < b.members.length) (.tooMany b.members.length)
  let payLen := b.memberSectionLen
  let size ← Run.add headerSize payLen
  Run.make 1 size
  let buf ← Run.putAll (List.replicate size 0) (headerWrites b payLen)
  let c ← b.members.foldlM (putMember b.txIDsPresent) (buf, headerSize)
  pure c.1

/-- The id of a member, or the zero array where ids are not carried, and the offset behind it. -/
def decodeTxID (withTxID : Bool) (buf : Bytes) (off stop : Nat) :
    BundleRun (FixedBytes 32 × Nat) := do
  if withTxID then
    Run.failIf (stop < off + memberTxIDSize) .truncated
    let id ← .copy 32 <$> bytesAt buf off (off + memberTxIDSize)
    pure (id, off + memberTxIDSize)
  else pure (.copy 32 [], off)

/-- One round of the decoder's loop over the members. -/
def decodeMember (withTxID : Bool) (buf : Bytes) (stop : Nat) (state : List Member × Nat) :
    BundleRun (List Member × Nat) := do
  let off := state.2
  Run.failIf (stop < off + memberLenSize) .truncated
  let txLen ← uint16 <$> bytesAt buf off (off + 2)
  let id ← decodeTxID withTxID buf (off + memberLenSize) stop
  Run.failIf (stop < id.2 + txLen.toNat) .truncated
  let tx ← bytesAt buf id.2 (id.2 + txLen.toNat)
  pure (state.1 ++ [⟨id.1, tx⟩], id.2 + txLen.toNat)

def decode (buf : Bytes) : BundleRun Bundle := do
  Run.failIf (buf.length < headerSize) .tooShort
  let magic ← uint32 <$> bytesAt buf 0 4
  Run.failIf (magic ≠ magicBSV) (.badMagic magic)
  let version ← byteAt buf 6
  Run.failIf (version ≠ frameVerBundle) (.badVer version)
  let flags ← byteAt buf 7
  let subtreeID ← .copy 32 <$> bytesAt buf 8 40
  let hashKey ← uint64 <$> bytesAt buf 40 48
  let seqNum ← uint64 <$> bytesAt buf 48 56
  let groupIdx ← uint16 <$> bytesAt buf 56 58
  let shardBits ← byteAt buf 58
  let count ← uint16 <$> bytesAt buf 60 62
  let payLen ← uint32 <$> bytesAt buf 62 66
  Run.failIf (buf.length - headerSize < payLen.toNat) .truncated
  Run.make 56 count.toNat
  let b : Bundle := ⟨flags, subtreeID, hashKey, seqNum, groupIdx, shardBits, []⟩
  let stop := headerSize + payLen.toNat
  let state ← Run.iterate (decodeMember b.txIDsPresent buf stop) count.toNat ([], headerSize)
  Run.failIf (state.2 ≠ stop) .countMismatch
  pure { b with members := state.1 }

/-! ## Coalescer -/

structure FlowKey where
  sender : FixedBytes 16
  group : UInt16
  subtree : FixedBytes 32
  deriving DecidableEq

/-- `NewCoalescer` is the only way to build one, so a bundle always has room for a member. -/
structure Coalescer where
  eng : Engine
  maxBytes : Int
  maxCount : Nat
  carryTxID : Bool
  seq : FlowKey → UInt64
  maxCount_pos : 0 < maxCount

def newCoalescer (eng : Engine) (maxBytes maxCount : Int) (carryTxID : Bool) : Coalescer where
  eng := eng
  maxBytes := maxBytes
  maxCount := if maxCount ≤ 0 ∨ maxMembers < maxCount then maxMembers else maxCount.toNat
  carryTxID := carryTxID
  seq := fun _ => 0
  maxCount_pos := by
    split
    · decide
    · omega

/-- `seqhash.Hash`. -/
def seqHash (xxh64 : Bytes → UInt64) (sender : FixedBytes 16) (groupIdx : UInt32)
    (subtreeID : FixedBytes 32) : UInt64 :=
  xxh64 (sender.val ++ putUint32 groupIdx ++ subtreeID.val)

namespace Coalescer

variable (c : Coalescer)

def flowKey (sender : FixedBytes 16) (f : Frame.Frame) : FlowKey :=
  ⟨sender, (c.eng.groupIndex f.txID).toUInt16, f.subtreeID⟩

/-- The inner loop: a bundle of `count` members and `size` bytes takes one more member, or is
closed. -/
def accept (state : Nat × Nat) (m : Member) : Option (Nat × Nat) :=
  let (count, size) := state
  if count < c.maxCount then
    let add := memberOverhead c.carryTxID + m.tx.length
    if 0 < count ∧ c.maxBytes < (size + add : Nat) then none else some (count + 1, size + add)
  else none

def filler : Filler (Nat × Nat) Member where
  start := (0, headerSize)
  accept := c.accept
  accepts_first := by
    intro m
    simp [accept, c.maxCount_pos]

/-- The bundle of a flow before its number is stamped. -/
def bundle (xxh64 : Bytes → UInt64) (key : FlowKey) (members : List Member) (seqNum : UInt64) :
    Bundle where
  flags := if c.carryTxID then flagTxIDsPresent else 0
  subtreeID := key.subtree
  hashKey := seqHash xxh64 key.sender key.group.toUInt32 key.subtree
  seqNum := seqNum
  groupIdx := key.group
  shardBits := c.eng.shardBits.toUInt8
  members := members

/-- One round of the outer packing loop: the flow's counter moves, and the bundle is emitted. -/
def emit (xxh64 : Bytes → UInt64) (state : List Bundle × (FlowKey → UInt64))
    (item : FlowKey × List Member) : List Bundle × (FlowKey → UInt64) :=
  let seq := Function.update state.2 item.1 (state.2 item.1 + 1)
  (state.1 ++ [c.bundle xxh64 item.1 item.2 (seq item.1)], seq)

/-- The first loop: frames by flow, in the order in which the flows are first seen. -/
def buckets (sender : FixedBytes 16) (frames : List Frame.Frame) : Keyed.Buckets FlowKey Member :=
  frames.foldl (fun b f => b.add (c.flowKey sender f, ⟨f.txID, f.payload⟩)) .empty

/-- `Coalesce`: the bundles and the coalescer with its counters moved. -/
def coalesce (xxh64 : Bytes → UInt64) (sender : FixedBytes 16) (frames : List Frame.Frame) :
    List Bundle × Coalescer :=
  let state := (c.buckets sender frames).buckets.foldl (fun state bucket =>
    (c.filler.chunks bucket.2).foldl (fun state chunk => c.emit xxh64 state (bucket.1, chunk)) state)
    ([], c.seq)
  (state.1, { c with seq := state.2 })

end Coalescer

def txID (sha256 : Bytes → FixedBytes 32) (tx : Bytes) : FixedBytes 32 := sha256 (sha256 tx).val

def decoalesce (sha256 : Bytes → FixedBytes 32) (b : Bundle) : List Frame.Frame :=
  b.members.map fun m =>
    { version := frameVerV2
      txID := if b.txIDsPresent then m.txID else txID sha256 m.tx
      hashKey := b.hashKey
      seqNum := 0
      subtreeID := b.subtreeID
      payload := m.tx }

/-- `Rebucket` on the coalescer of the target engine. -/
def rebucket (xxh64 : Bytes → UInt64) (sha256 : Bytes → FixedBytes 32) (c : Coalescer)
    (sender : FixedBytes 16) (b : Bundle) : List Bundle × Coalescer :=
  c.coalesce xxh64 sender (decoalesce sha256 b)

end ShardCommon.Bundles
