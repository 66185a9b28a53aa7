import ShardCommon.SubtreeDataPayload

/-!
# Frames with the 92-byte header

The codecs of `frame/frame.go`, `frame/block.go`, `frame/block_header.go`, `frame/subtree_data.go`,
`frame/beef.go` and `frame/frag.go`. They share one header layout and differ in the version, in what
byte 7 and the field at 56 mean, and in the checks of the decoder; fragments have twelve bytes more.
An encoder returns the number of bytes written with the buffer.
-/

namespace ShardCommon.Frame

open Go

def headerSizeLegacy : Nat := 44

def headerSize : Nat := 92

def headerSizeV3 : Nat := 104

def blockHeaderSize : Nat := 80

def blockHeaderFrameSize : Nat := headerSize + blockHeaderSize

def frameVerV1 : UInt8 := 0x01

def frameVerV2 : UInt8 := 0x02

def frameVerV3 : UInt8 := 0x03

def frameVerV4 : UInt8 := 0x04

def frameVerV5 : UInt8 := 0x05

def frameVerV6 : UInt8 := 0x06

def frameVerV7 : UInt8 := 0x07

def frameVerV8 : UInt8 := 0x08

def frameVerV9 : UInt8 := 0x09

def blockMsgAnnounce : UInt8 := 0x01

def blockMsgCoinbase : UInt8 := 0x02

inductive FrameError where
  | tooShort
  | badMagic (magic : UInt32)
  | badVer (detail : String)
  | badBlockMsg (msgType : UInt8)
  | badSubtreeMsg (msgType : UInt8)
  | badFrag (fragIndex fragTotal : UInt16)
  | badBlockHeaderLen (detail : String)
  | unexpectedEOF
  | bufferTooSmall (length need : Nat)
  deriving Repr, DecidableEq

def FrameError.text : FrameError → String
  | tooShort => "frame: datagram shorter than header"
  | badMagic magic => s!"frame: invalid BSV magic bytes: got 0x{hexWord magic}"
  | badVer detail => "frame: unsupported frame version: " ++ detail
  | badBlockMsg msgType => s!"frame: invalid block message type: got 0x{hexByte msgType}"
  | badSubtreeMsg msgType => s!"frame: invalid subtree data message type: got 0x{hexByte msgType}"
  | badFrag fragIndex fragTotal =>
    s!"frame: invalid fragment index or total: FragIndex={fragIndex} FragTotal={fragTotal}"
  | badBlockHeaderLen detail =>
    "frame: BRC-135 PayloadLen must equal BlockHeaderSize (80): " ++ detail
  | unexpectedEOF => "unexpected EOF"
  | bufferTooSmall length need => s!"frame: buffer too small ({length} bytes, need {need})"

abbrev FrameRun := Run FrameError

set_option linter.dupNamespace false in
/-- A BRC-12 or BRC-124/128 transaction frame. -/
structure Frame where
  version : UInt8
  txID : FixedBytes 32
  hashKey : UInt64
  seqNum : UInt64
  subtreeID : FixedBytes 32
  payload : Bytes
  deriving DecidableEq

/-- A BRC-132 subtree data frame. -/
structure SubtreeDataFrame where
  msgType : UInt8
  subtreeID : FixedBytes 32
  hashKey : UInt64
  seqNum : UInt64
  payload : Bytes
  deriving DecidableEq

/-- A BRC-131 block control frame. -/
structure BlockFrame where
  msgType : UInt8
  contentID : FixedBytes 32
  hashKey : UInt64
  seqNum : UInt64
  payload : Bytes
  deriving DecidableEq

/-- A BRC-149 BEEF object frame. -/
structure BEEFFrame where
  contentID : FixedBytes 32
  hashKey : UInt64
  seqNum : UInt64
  topicID : FixedBytes 32
  deliverCount : UInt8
  payload : Bytes
  deriving DecidableEq

def beefDeliverCountLegacy : UInt8 := 0

/-- How many leading topics a listener may match on. The legacy zero is read as one. -/
def BEEFFrame.deliverable (f : BEEFFrame) : Nat :=
  if f.deliverCount = beefDeliverCountLegacy then 1 else f.deliverCount.toNat

/-- A BRC-130 fragment of a frame. -/
structure FragFrame where
  txID : FixedBytes 32
  hashKey : UInt64
  seqNum : UInt64
  subtreeID : FixedBytes 32
  origPayloadLen : UInt32
  fragIndex : UInt16
  fragTotal : UInt16
  origFrameVer : UInt8
  msgType : UInt8
  fragData : Bytes
  deriving DecidableEq

/-! ## Encoders -/

/-- The header fields by their place: byte 7, the identifier at 8, the stamps at 40 and 48, and the
field at 56. -/
structure FrameHeader where
  version : UInt8
  byte7 : UInt8
  id : FixedBytes 32
  hashKey : UInt64
  seqNum : UInt64
  field56 : FixedBytes 32
  deriving DecidableEq

/-- The writes of an encoder, in order. -/
def frameWrites (h : FrameHeader) (payload : Bytes) : List (Nat × Bytes) :=
  [(0, putUint32 magicBSV), (4, putUint16 protoVer), (6, [h.version]), (7, [h.byte7]),
    (8, h.id.val), (40, putUint64 h.hashKey), (48, putUint64 h.seqNum), (56, h.field56.val),
    (88, putUint32 (UInt32.ofNat payload.length)), (92, payload)]

def encodeFrame (h : FrameHeader) (payload buf : Bytes) : FrameRun (Nat × Bytes) := do
  let total ← Run.add headerSize payload.length
  Run.failIf (buf.length < total) (.bufferTooSmall buf.length total)
  let buf ← Run.putAll buf (frameWrites h payload)
  pure (total, buf)

/-- The 32 zero bytes at 56 of the frames that have no second identifier. -/
def layoutPad32 : FixedBytes 32 := .copy 32 []

def encode (f : Frame) (buf : Bytes) : FrameRun (Nat × Bytes) :=
  encodeFrame ⟨frameVerV2, 0, f.txID, f.hashKey, f.seqNum, f.subtreeID⟩ f.payload buf

def encodeSubtreeData (f : SubtreeDataFrame) (buf : Bytes) : FrameRun (Nat × Bytes) :=
  encodeFrame ⟨frameVerV5, f.msgType, f.subtreeID, f.hashKey, f.seqNum, layoutPad32⟩ f.payload buf

def encodeBlock (f : BlockFrame) (buf : Bytes) : FrameRun (Nat × Bytes) :=
  encodeFrame ⟨frameVerV4, f.msgType, f.contentID, f.hashKey, f.seqNum, layoutPad32⟩ f.payload buf

def encodeBEEF (f : BEEFFrame) (buf : Bytes) : FrameRun (Nat × Bytes) :=
  encodeFrame ⟨frameVerV9, f.deliverCount, f.contentID, f.hashKey, f.seqNum, f.topicID⟩ f.payload buf

/-- The zeros at 56 are written one by one, as a loop. -/
def encodeBlockHeader (blockHash : FixedBytes 32) (hashKey seqNum : UInt64) (header80 buf : Bytes) :
    FrameRun (Nat × Bytes) := do
  Run.failIf (header80.length ≠ blockHeaderSize) (.badBlockHeaderLen s!"got {header80.length} bytes")
  Run.failIf (buf.length < blockHeaderFrameSize) (.bufferTooSmall buf.length blockHeaderFrameSize)
  let buf ← Run.putAll buf
    (frameWrites ⟨frameVerV7, 0, blockHash, hashKey, seqNum, layoutPad32⟩ header80)
  pure (blockHeaderFrameSize, buf)

/-- The writes of `EncodeFragment`, in order. -/
def fragmentWrites (h : FrameHeader) (origPayloadLen : UInt32) (fragIndex fragTotal : UInt16)
    (origFrameVer : UInt8) (fragData : Bytes) : List (Nat × Bytes) :=
  [(0, putUint32 magicBSV), (4, putUint16 protoVer), (6, [h.version]), (7, [h.byte7]),
    (8, h.id.val), (40, putUint64 h.hashKey), (48, putUint64 h.seqNum), (56, h.field56.val),
    (88, putUint32 (UInt32.ofNat fragData.length)), (92, putUint32 origPayloadLen),
    (96, putUint16 fragIndex), (98, putUint16 fragTotal), (100, [origFrameVer]), (101, [0]),
    (102, [0]), (103, [0]), (104, fragData)]

def encodeFragment (txID subtreeID : FixedBytes 32) (hashKey seqNum : UInt64)
    (origPayloadLen : UInt32) (fragIndex fragTotal : UInt16) (origFrameVer : UInt8)
    (fragData buf : Bytes) : FrameRun (Nat × Bytes) := do
  let total ← Run.add headerSizeV3 fragData.length
  Run.failIf (buf.length < total) (.bufferTooSmall buf.length total)
  let buf ← Run.putAll buf (fragmentWrites ⟨frameVerV3, 0, txID, hashKey, seqNum, subtreeID⟩
    origPayloadLen fragIndex fragTotal origFrameVer fragData)
  pure (total, buf)

/-! ## Decoders -/

/-- The checks on the magic and the version that a decoder of one version opens with. -/
def openFrame (version : UInt8) (buf : Bytes) : FrameRun Unit := do
  Run.failIf (buf.length < headerSizeLegacy) .tooShort
  let magic ← uint32 <$> bytesAt buf 0 4
  Run.failIf (magic ≠ magicBSV) (.badMagic magic)
  let fver ← byteAt buf 6
  Run.failIf (fver ≠ version)
    (.badVer ("got 0x" ++ hexByte fver ++ ", want 0x" ++ hexByte version))
  Run.failIf (buf.length < headerSize) .tooShort

/-- The payload whose length stands at the end of a header of `size` bytes. -/
def framePayload (size : Nat) (buf : Bytes) : FrameRun Bytes := do
  let payLen ← uint32 <$> bytesAt buf (size - 4) size
  Run.failIf (buf.length - size < payLen.toNat) .unexpectedEOF
  bytesAt buf size (size + payLen.toNat)

def decodeV1 (buf : Bytes) : FrameRun Frame := do
  Run.failIf (buf.length < headerSizeLegacy) .tooShort
  let payload ← framePayload headerSizeLegacy buf
  let txID ← .copy 32 <$> bytesAt buf 8 40
  pure ⟨frameVerV1, txID, 0, 0, .copy 32 [], payload⟩

def decodeV2 (buf : Bytes) : FrameRun Frame := do
  Run.failIf (buf.length < headerSize) .tooShort
  let payload ← framePayload headerSize buf
  let txID ← .copy 32 <$> bytesAt buf 8 40
  let hashKey ← uint64 <$> bytesAt buf 40 48
  let seqNum ← uint64 <$> bytesAt buf 48 56
  let subtreeID ← .copy 32 <$> bytesAt buf 56 88
  pure ⟨frameVerV2, txID, hashKey, seqNum, subtreeID, payload⟩

/-- What `Decode` says about a version that it leaves to another decoder, or does not know. -/
def otherVersion (fver : UInt8) : String :=
  if fver = frameVerV3 then "FrameVer 0x03 is a BRC-130 fragment; use DecodeFragment"
  else if fver = frameVerV4 then "FrameVer 0x04 is a BRC-131 block control frame; use DecodeBlock"
  else if fver = frameVerV5 then
    "FrameVer 0x05 is a BRC-132 subtree data frame; use DecodeSubtreeData"
  else if fver = frameVerV6 then
    "FrameVer 0x06 is a BRC-134 anchor transaction frame; use DecodeAnchor"
  else if fver = frameVerV7 then
    "FrameVer 0x07 is a BRC-135 block header frame; use DecodeBlockHeader"
  else if fver = frameVerV8 then "FrameVer 0x08 is a BRC-142 bundle frame; use bundle.Decode"
  else if fver = frameVerV9 then "FrameVer 0x09 is a BRC-149 BEEF object frame; use DecodeBEEF"
  else "got 0x" ++ hexByte fver

def decode (buf : Bytes) : FrameRun Frame := do
  Run.failIf (buf.length < headerSizeLegacy) .tooShort
  let magic ← uint32 <$> bytesAt buf 0 4
  Run.failIf (magic ≠ magicBSV) (.badMagic magic)
  let fver ← byteAt buf 6
  if fver = frameVerV1 then decodeV1 buf
  else if fver = frameVerV2 then decodeV2 buf
  else Run.fail (.badVer (otherVersion fver))

/-- The decoder of the versions with a message type at byte 7, of which two values are allowed. -/
def decodeTyped {φ : Type} (version first second : UInt8) (badMsg : UInt8 → FrameError)
    (frame : UInt8 → FixedBytes 32 → UInt64 → UInt64 → Bytes → φ) (buf : Bytes) : FrameRun φ := do
  openFrame version buf
  let msgType ← byteAt buf 7
  Run.failIf (msgType ≠ first ∧ msgType ≠ second) (badMsg msgType)
  let payload ← framePayload headerSize buf
  let hashKey ← uint64 <$> bytesAt buf 40 48
  let seqNum ← uint64 <$> bytesAt buf 48 56
  let id ← .copy 32 <$> bytesAt buf 8 40
  pure (frame msgType id hashKey seqNum payload)

def decodeSubtreeData : Bytes → FrameRun SubtreeDataFrame :=
  decodeTyped frameVerV5 subtreeMsgHashesOnly subtreeMsgFullNodes .badSubtreeMsg
    SubtreeDataFrame.mk

def decodeBlock : Bytes → FrameRun BlockFrame :=
  decodeTyped frameVerV4 blockMsgAnnounce blockMsgCoinbase .badBlockMsg BlockFrame.mk

def decodeBEEF (buf : Bytes) : FrameRun BEEFFrame := do
  openFrame frameVerV9 buf
  let payload ← framePayload headerSize buf
  let hashKey ← uint64 <$> bytesAt buf 40 48
  let seqNum ← uint64 <$> bytesAt buf 48 56
  let deliverCount ← byteAt buf 7
  let contentID ← .copy 32 <$> bytesAt buf 8 40
  let topicID ← .copy 32 <$> bytesAt buf 56 88
  pure ⟨contentID, hashKey, seqNum, topicID, deliverCount, payload⟩

/-- Like `decodeV2`, under its own version. -/
def decodeAnchor (buf : Bytes) : FrameRun Frame := do
  openFrame frameVerV6 buf
  let payload ← framePayload headerSize buf
  let txID ← .copy 32 <$> bytesAt buf 8 40
  let hashKey ← uint64 <$> bytesAt buf 40 48
  let seqNum ← uint64 <$> bytesAt buf 48 56
  let subtreeID ← .copy 32 <$> bytesAt buf 56 88
  pure ⟨frameVerV6, txID, hashKey, seqNum, subtreeID, payload⟩

/-- The block hash is in the place of the transaction's, and the size is fixed: a datagram that ends
too early is short, not truncated. -/
def decodeBlockHeader (buf : Bytes) : FrameRun Frame := do
  openFrame frameVerV7 buf
  let payLen ← uint32 <$> bytesAt buf 88 92
  Run.failIf (payLen.toNat ≠ blockHeaderSize) (.badBlockHeaderLen s!"got {payLen.toNat}")
  Run.failIf (buf.length < blockHeaderFrameSize) .tooShort
  let txID ← .copy 32 <$> bytesAt buf 8 40
  let hashKey ← uint64 <$> bytesAt buf 40 48
  let seqNum ← uint64 <$> bytesAt buf 48 56
  let payload ← bytesAt buf headerSize blockHeaderFrameSize
  pure ⟨frameVerV7, txID, hashKey, seqNum, .copy 32 [], payload⟩

def decodeFragment (buf : Bytes) : FrameRun FragFrame := do
  Run.failIf (buf.length < headerSizeLegacy) .tooShort
  let magic ← uint32 <$> bytesAt buf 0 4
  Run.failIf (magic ≠ magicBSV) (.badMagic magic)
  let fver ← byteAt buf 6
  Run.failIf (fver ≠ frameVerV3) (.badVer ("got 0x" ++ hexByte fver ++ ", want 0x03"))
  Run.failIf (buf.length < headerSizeV3) .tooShort
  let fragDataLen ← uint32 <$> bytesAt buf 88 92
  Run.failIf (buf.length - headerSizeV3 < fragDataLen.toNat) .unexpectedEOF
  let fragIndex ← uint16 <$> bytesAt buf 96 98
  let fragTotal ← uint16 <$> bytesAt buf 98 100
  Run.failIf (fragTotal = 0 ∨ fragTotal ≤ fragIndex) (.badFrag fragIndex fragTotal)
  let hashKey ← uint64 <$> bytesAt buf 40 48
  let seqNum ← uint64 <$> bytesAt buf 48 56
  let origPayloadLen ← uint32 <$> bytesAt buf 92 96
  let origFrameVer ← byteAt buf 100
  let msgType ← byteAt buf 7
  let fragData ← bytesAt buf headerSizeV3 (headerSizeV3 + fragDataLen.toNat)
  let txID ← .copy 32 <$> bytesAt buf 8 40
  let subtreeID ← .copy 32 <$> bytesAt buf 56 88
  pure ⟨txID, hashKey, seqNum, subtreeID, origPayloadLen, fragIndex, fragTotal, origFrameVer, msgType,
    fragData⟩

/-! ## Detectors -/

/-- The magic and the version, without a decode. -/
def isVersion (version : UInt8) (buf : Bytes) : Bool :=
  if buf.length < headerSizeLegacy then false
  else if uint32 (buf.take 4) ≠ magicBSV then false
  else buf.getD 6 0 == version

def isFragment : Bytes → Bool := isVersion frameVerV3

def isBlockFrame : Bytes → Bool := isVersion frameVerV4

def isSubtreeDataFrame : Bytes → Bool := isVersion frameVerV5

def isBlockHeaderFrame : Bytes → Bool := isVersion frameVerV7

def isBEEFFrame : Bytes → Bool := isVersion frameVerV9

end ShardCommon.Frame
