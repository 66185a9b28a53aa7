import ShardCommon.ObjectSize

/-!
# The transaction format

A transaction as a tree whose nodes keep the bytes they were written with, so that the format is
the set of byte strings such trees are written as. Counts and script lengths are compact-size
integers in any of their four widths, minimal or not; in the extended form each input is followed
by the output it spends.
-/

namespace ShardCommon.Objfmt

open ShardCommon.Frame

/-- The byte strings that spell a number: one byte below `FD`, or a first byte that announces two,
four or eight more. -/
inductive Spells : UInt64 → Bytes → Prop
  | one {b : UInt8} (h : b < 0xFD) : Spells b.toUInt64 [b]
  | two {bytes : Bytes} (h : bytes.length = 2) : Spells (uintLE bytes) (0xFD :: bytes)
  | four {bytes : Bytes} (h : bytes.length = 4) : Spells (uintLE bytes) (0xFE :: bytes)
  | eight {bytes : Bytes} (h : bytes.length = 8) : Spells (uintLE bytes) (0xFF :: bytes)

structure CompactSize where
  value : UInt64
  bytes : Bytes
  spells : Spells value bytes

/-- A script behind its length. -/
structure Script where
  size : CompactSize
  body : Bytes
  length_body : body.length = size.value.toNat

def Script.bytes (script : Script) : Bytes := script.size.bytes ++ script.body

structure TxOut where
  value : FixedBytes 8
  script : Script

def TxOut.bytes (output : TxOut) : Bytes := output.value.val ++ output.script.bytes

structure TxIn where
  outpoint : FixedBytes 36
  script : Script
  sequence : FixedBytes 4

def TxIn.bytes (input : TxIn) : Bytes :=
  input.outpoint.val ++ input.script.bytes ++ input.sequence.val

/-- An input with the output it spends, as the extended form writes it. -/
def extendedInput (input : TxIn × TxOut) : Bytes := input.1.bytes ++ input.2.bytes

/-- At least one item, behind their number. -/
structure Counted (ι : Type) where
  count : CompactSize
  items : List ι
  length_items : items.length = count.value.toNat
  nonempty : count.value ≠ 0

def Counted.bytes {ι : Type} (item : ι → Bytes) (vector : Counted ι) : Bytes :=
  vector.count.bytes ++ vector.items.flatMap item

structure Tx (ι : Type) where
  version : FixedBytes 4
  inputs : Counted ι
  outputs : Counted TxOut
  locktime : FixedBytes 4

/-- Everything behind the version and the marker. -/
def Tx.body {ι : Type} (item : ι → Bytes) (tx : Tx ι) : Bytes :=
  tx.inputs.bytes item ++ tx.outputs.bytes TxOut.bytes ++ tx.locktime.val

def Tx.standardBytes (tx : Tx TxIn) : Bytes := tx.version.val ++ tx.body TxIn.bytes

def Tx.extendedBytes (tx : Tx (TxIn × TxOut)) : Bytes :=
  tx.version.val ++ efMarker ++ tx.body extendedInput

/-- The transaction format. -/
inductive Derivable : Bytes → Prop
  | standard (tx : Tx TxIn) (h : (tx.body TxIn.bytes).head? ≠ some 0) : Derivable tx.standardBytes
  | extended (tx : Tx (TxIn × TxOut)) : Derivable tx.extendedBytes

end ShardCommon.Objfmt
