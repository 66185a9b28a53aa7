import ShardCommon.Wire

/-!
# Sizes of push objects

A lane carries objects of one class back to back, without tag or length, so each class has a
function that finds the end of the first object in a buffer from its own structure. It returns
`short` while the buffer ends inside the object.
-/

namespace ShardCommon.Objfmt

open Go ShardCommon.Frame

/-- Object classes; a value without a codec keeps its number. -/
inductive Class where
  | tx
  | subtree
  | block
  | beef
  | beefDelivery
  | blockHeader
  | unregistered (value : UInt8)
  deriving Repr, DecidableEq

inductive ObjfmtError where
  | short
  | malformed (detail : String)
  | classNotRegistered
  | objectTooLarge (max : Int)
  deriving Repr, DecidableEq

def ObjfmtError.text : ObjfmtError → String
  | .short => "objfmt: short buffer (need more bytes)"
  | .malformed detail => "objfmt: malformed object: " ++ detail
  | .classNotRegistered => "objfmt: class not registered"
  | .objectTooLarge max =>
    "objfmt: object exceeds maximum size: >" ++ toString max ++ " bytes without a boundary"

abbrev SizeRun := Run ObjfmtError

def mathMaxInt : Nat := 2 ^ 63 - 1

def mathMaxInt32 : Nat := 2 ^ 31 - 1

/-- `a outside [low, high]`. -/
def outside (a low high : Nat) : String :=
  toString a ++ " outside [" ++ toString low ++ ", " ++ toString high ++ "]"

/-! ## Transactions -/

def efMarker : Bytes := [0x00, 0x00, 0x00, 0x00, 0x00, 0xEF]

def isEF (tx : Bytes) : Bool := 10 ≤ tx.length && (tx.drop 4).take 6 == efMarker

/-- `binary.LittleEndian` on a field of up to eight bytes. -/
def uintLE (bytes : Bytes) : UInt64 := UInt64.ofNat (BigEndian.toNat bytes.reverse)

/-- The integer of `width` bytes behind the byte that announces it. -/
def wideVarInt (buf : Bytes) (off width : Nat) : SizeRun (UInt64 × Nat) := do
  let stop ← Run.add off (1 + width)
  Run.failIf (buf.length < stop) .short
  let bytes ← bytesAt buf (off + 1) stop
  pure (uintLE bytes, 1 + width)

/-- The compact-size integer at `off` and the number of bytes it takes. -/
def varInt (buf : Bytes) (off : Nat) : SizeRun (UInt64 × Nat) := do
  Run.failIf (buf.length ≤ off) .short
  let first ← byteAt buf off
  if first < 0xFD then pure (first.toUInt64, 1)
  else if first = 0xFD then wideVarInt buf off 2
  else if first = 0xFE then wideVarInt buf off 4
  else wideVarInt buf off 8

/-- `v, n, err := varInt(buf, off)` followed by `off += n`. -/
def takeVarInt (buf : Bytes) (off : Nat) : SizeRun (UInt64 × Nat) := do
  let read ← varInt buf off
  let next ← Run.add off read.2
  pure (read.1, next)

def advance (buf : Bytes) (off : Nat) (n : UInt64) : SizeRun Nat := do
  Run.failIf (mathMaxInt32 < n.toNat ∨ mathMaxInt32 < off) (.malformed "length overflow")
  let next ← Run.add off n.toNat
  Run.failIf (buf.length < next) .short
  pure next

/-- A value and a locking script: an output, or the output an extended input spends. -/
def txOutput (buf : Bytes) (off : Nat) : SizeRun Nat := do
  let off ← advance buf off 8
  let script ← takeVarInt buf off
  advance buf script.2 script.1

def txInput (ef : Bool) (buf : Bytes) (off : Nat) : SizeRun Nat := do
  let off ← advance buf off 36
  let script ← takeVarInt buf off
  let off ← advance buf script.2 script.1
  let off ← advance buf off 4
  if ef then txOutput buf off else pure off

/-- What follows the version and the marker. -/
def txBody (ef : Bool) (buf : Bytes) (off : Nat) : SizeRun Nat := do
  let inCount ← takeVarInt buf off
  Run.failIf (inCount.1 = 0) (.malformed "zero input count")
  let off ← Run.iterate (txInput ef buf) inCount.1.toNat inCount.2
  let outCount ← takeVarInt buf off
  Run.failIf (outCount.1 = 0) (.malformed "zero output count")
  let off ← Run.iterate (txOutput buf) outCount.1.toNat outCount.2
  advance buf off 4

def txSize (buf : Bytes) : SizeRun Nat := do
  let off ← advance buf 0 4
  let ef := isEF buf
  -- a zero at offset 4 is no input count: it can only open a marker that is not there in full
  if !ef && buf[4]? = some 0 then
    if buf.length < 10 then Run.fail .short else Run.fail (.malformed "zero input count")
  else if ef then Run.add off 6 >>= txBody ef buf
  else txBody ef buf off

/-! ## Subtrees and blocks -/

def subtreeHeaderSize : Nat := 40

def subtreeNodeSize : Nat := 32

def subtreeSize (buf : Bytes) : SizeRun Nat := do
  Run.failIf (buf.length < subtreeHeaderSize) .short
  let n ← uint64 <$> bytesAt buf 32 40
  Run.failIf ((mathMaxInt - subtreeHeaderSize) / subtreeNodeSize < n.toNat)
    (.malformed ("node count " ++ toString n.toNat ++ " overflows"))
  let nodes ← Run.mul n.toNat subtreeNodeSize
  let total ← Run.add subtreeHeaderSize nodes
  Run.failIf (buf.length < total) .short
  pure total

def blockPrefixSize : Nat := 104

def blockRootSize : Nat := 32

/-- The height, the length of the coinbase BUMP, and the BUMP. -/
def blockTailSize (buf : Bytes) (off : Nat) : SizeRun Nat := do
  let stop ← Run.add off 16
  Run.failIf (buf.length < stop) .short
  let l ← uint64 <$> bytesAt buf (off + 8) stop
  Run.failIf (mathMaxInt - stop < l.toNat)
    (.malformed ("coinbase BUMP length " ++ toString l.toNat ++ " overflows"))
  let total ← Run.add stop l.toNat
  Run.failIf (buf.length < total) .short
  pure total

def blockSize (buf : Bytes) : SizeRun Nat := do
  Run.failIf (buf.length < blockPrefixSize) .short
  let m ← uint64 <$> bytesAt buf 96 104
  Run.failIf ((mathMaxInt - blockPrefixSize) / blockRootSize < m.toNat)
    (.malformed ("subtree count " ++ toString m.toNat ++ " overflows"))
  let roots ← Run.mul m.toNat blockRootSize
  let off ← Run.add blockPrefixSize roots
  Run.failIf (buf.length < off) .short
  let coinbase ← bytesAt buf off buf.length >>= txSize
  let off ← Run.add off coinbase
  blockTailSize buf off

def blockHeaderBytes : Nat := 80

def blockHeaderSize (buf : Bytes) : SizeRun Nat := do
  Run.failIf (buf.length < blockHeaderBytes) .short
  pure blockHeaderBytes

/-! ## BEEF records -/

def beefRecordTag : UInt16 := 0xBEEF

def beefRecordVer : UInt8 := 0x01

def beefMaxTopics : Nat := 15

def beefMaxTopicLen : Nat := 64

def beefRecordMin : Nat := 4

def beefDeliveryHeaderSize : Nat := 36

/-- One round of the loop over the topic names. -/
def beefTopic (buf : Bytes) (off : Nat) : SizeRun Nat := do
  let stop ← Run.add off 1
  Run.failIf (buf.length < stop) .short
  let nameLen ← byteAt buf off
  Run.failIf (nameLen.toNat < 1 ∨ beefMaxTopicLen < nameLen.toNat)
    (.malformed ("topic length " ++ outside nameLen.toNat 1 beefMaxTopicLen))
  let off ← Run.add off (1 + nameLen.toNat)
  Run.failIf (buf.length < off) .short
  pure off

/-- The length of the object and the object. -/
def beefObjectSize (buf : Bytes) (off : Nat) : SizeRun Nat := do
  let stop ← Run.add off 4
  Run.failIf (buf.length < stop) .short
  let objLen ← uint32 <$> bytesAt buf off stop
  Run.failIf (objLen = 0) (.malformed "zero object length")
  Run.failIf (mathMaxInt - off - 4 < objLen.toNat)
    (.malformed ("object length " ++ toString objLen.toNat ++ " overflows"))
  let total ← Run.add stop objLen.toNat
  Run.failIf (buf.length < total) .short
  pure total

def beefRecordSize (buf : Bytes) : SizeRun Nat := do
  Run.failIf (buf.length < 2) .short
  let tag ← bytesAt buf 0 2
  Run.failIf (uint16 tag ≠ beefRecordTag)
    (.malformed ("bad record tag 0x" ++ String.join (tag.map hexByte)))
  Run.failIf (buf.length < beefRecordMin) .short
  let ver ← byteAt buf 2
  Run.failIf (ver ≠ beefRecordVer) (.malformed ("record version 0x" ++ hexByte ver))
  let count ← byteAt buf 3
  Run.failIf (count.toNat < 1 ∨ beefMaxTopics < count.toNat)
    (.malformed ("topic count " ++ outside count.toNat 1 beefMaxTopics))
  let off ← Run.iterate (beefTopic buf) count.toNat beefRecordMin
  beefObjectSize buf off

def beefDeliverySize (buf : Bytes) : SizeRun Nat := do
  Run.failIf (buf.length < beefDeliveryHeaderSize) .short
  let objLen ← uint32 <$> bytesAt buf 32 36
  Run.failIf (objLen = 0) (.malformed "zero object length")
  Run.failIf (mathMaxInt - beefDeliveryHeaderSize < objLen.toNat)
    (.malformed ("object length " ++ toString objLen.toNat ++ " overflows"))
  let total ← Run.add beefDeliveryHeaderSize objLen.toNat
  Run.failIf (buf.length < total) .short
  pure total

def size : Class → Bytes → SizeRun Nat
  | .tx, buf => txSize buf
  | .subtree, buf => subtreeSize buf
  | .block, buf => blockSize buf
  | .beef, buf => beefRecordSize buf
  | .beefDelivery, buf => beefDeliverySize buf
  | .blockHeader, buf => blockHeaderSize buf
  | .unregistered _, _ => Run.fail .classNotRegistered

end ShardCommon.Objfmt
