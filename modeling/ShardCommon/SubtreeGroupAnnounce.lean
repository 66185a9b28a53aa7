import ShardCommon.Wire

/-!
# Subtree group announcements

`frame/subtree_group_announce.go`: a fixed datagram that tells the group of a subtree.
-/

namespace ShardCommon.Frame

open Go

def msgTypeSubtreeGroupAnnounce : UInt8 := 0x30

def subtreeGroupAnnounceSize : Nat := 64

inductive AnnounceError where
  | tooShort
  | badMagic
  | unexpectedMsgType
  | bufferTooSmall
  deriving Repr, DecidableEq

def AnnounceError.text : AnnounceError → String
  | tooShort => "subtree_group_announce: datagram shorter than 64 bytes"
  | badMagic => "frame: invalid BSV magic bytes"
  | unexpectedMsgType => "subtree_group_announce: unexpected MsgType"
  | bufferTooSmall => "subtree_group_announce: buffer too small"

abbrev AnnounceRun := Run AnnounceError

structure SubtreeGroupAnnounce where
  subtreeID : FixedBytes 32
  groupID : FixedBytes 16
  epoch : UInt32
  ttl : UInt16
  deriving DecidableEq

def announceWrites (a : SubtreeGroupAnnounce) : List (Nat × Bytes) :=
  [(0, putUint32 magicBSV), (4, putUint16 protoVer), (6, [msgTypeSubtreeGroupAnnounce]), (7, [0]),
    (8, a.subtreeID.val), (40, a.groupID.val), (56, putUint32 a.epoch), (60, putUint16 a.ttl),
    (62, [0]), (63, [0])]

def encodeSubtreeGroupAnnounce (a : SubtreeGroupAnnounce) (buf : Bytes) :
    AnnounceRun (Nat × Bytes) := do
  Run.failIf (buf.length < subtreeGroupAnnounceSize) .bufferTooSmall
  let buf ← Run.putAll buf (announceWrites a)
  pure (subtreeGroupAnnounceSize, buf)

def decodeSubtreeGroupAnnounce (buf : Bytes) : AnnounceRun SubtreeGroupAnnounce := do
  Run.failIf (buf.length < subtreeGroupAnnounceSize) .tooShort
  let magic ← uint32 <$> bytesAt buf 0 4
  Run.failIf (magic ≠ magicBSV) .badMagic
  let msgType ← byteAt buf 6
  Run.failIf (msgType ≠ msgTypeSubtreeGroupAnnounce) .unexpectedMsgType
  let epoch ← uint32 <$> bytesAt buf 56 60
  let ttl ← uint16 <$> bytesAt buf 60 62
  let subtreeID ← .copy 32 <$> bytesAt buf 8 40
  let groupID ← .copy 16 <$> bytesAt buf 40 56
  pure ⟨subtreeID, groupID, epoch, ttl⟩

end ShardCommon.Frame
