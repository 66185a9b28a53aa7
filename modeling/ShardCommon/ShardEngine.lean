import ShardCommon.Wire

/-!
# Shard engine and planes

The group of a transaction is given by the top bits of its id, `shardBits` of them. The index space
is cut into planes by the high nibble, and a plane derives its indices in the same way from keys of
its own and adds its base. Shifts are those of Go: a shift by the width of the operand or more leaves
zero.
-/

namespace ShardCommon.Shard

open Go ShardCommon.Frame

/-- `x << n`. -/
def shiftLeft (x : UInt32) (n : UInt64) : UInt32 := if n < 32 then x <<< n.toUInt32 else 0

/-- `x >> n`. -/
def shiftRight (x : UInt32) (n : UInt64) : UInt32 := if n < 32 then x >>> n.toUInt32 else 0

structure Engine where
  mcPrefix : UInt16
  groupID : UInt16
  shardBits : UInt64
  mask : UInt32
  deriving DecidableEq

def new (mcPrefix groupID : UInt16) (shardBits : UInt64) : Engine :=
  ⟨mcPrefix, groupID, shardBits, shiftLeft 1 shardBits - 1⟩

def Engine.groupIndex (e : Engine) (txid : FixedBytes 32) : UInt32 :=
  let prefix32 := uint32 (txid.val.take 4)
  shiftRight prefix32 (32 - e.shardBits) &&& e.mask

def Engine.numGroups (e : Engine) : UInt32 := e.mask + 1

/-! ## Planes -/

def domainTx : UInt8 := 0x0

def domainMax : UInt8 := 0x0E

def controlBase : UInt16 := 0xF800

/-- `ErrBadPlane` and what is wrong with the plane. -/
inductive PlaneError where
  | badPlane (detail : String)
  deriving Repr, DecidableEq

def PlaneError.text : PlaneError → String
  | badPlane detail => "shard: invalid plane parameters: " ++ detail

abbrev PlaneRun := Run PlaneError

def planeBase (domain : UInt8) : UInt16 := domain.toUInt16 <<< 12

def planeOf (idx : UInt16) : UInt8 := (idx >>> 12).toUInt8

/-- The slots of 0x1000 indices that a plane of this width covers. -/
def slotSpan (shardBits : UInt64) : UInt8 :=
  if shardBits ≤ 12 then 1
  else if shardBits - 12 < 8 then 1 <<< (shardBits - 12).toUInt8
  else 0

def validatePlane (domain : UInt8) (shardBits : UInt64) : PlaneRun Unit := do
  Run.failIf (domainMax < domain)
    (.badPlane s!"domain 0x{hexUpper domain.toNat} (0xF overlaps the control plane)")
  Run.failIf (15 < shardBits) (.badPlane s!"shardBits {shardBits} outside [0, 15]")
  Run.failIf (domain = domainTx ∧ 12 < shardBits)
    (.badPlane "domain 0x0 caps shardBits at 12 (BRC-129)")
  let base := planeBase domain
  let stop := base.toUInt32 + shiftLeft 1 shardBits
  let baseDigits := String.join ((putUint16 base).map hexByte)
  Run.failIf (controlBase.toUInt32 < stop)
    (.badPlane (s!"planeBase 0x{baseDigits} + 2^{shardBits} reaches 0x{hexUpper stop.toNat}" ++
      s!" (limit 0x{hexUpper controlBase.toNat})"))

/-- An engine with the base of its plane. -/
structure PlaneEngine where
  engine : Engine
  base : UInt16
  deriving DecidableEq

def newPlane (mcPrefix groupID : UInt16) (shardBits : UInt64) (domain : UInt8) :
    PlaneRun PlaneEngine := do
  validatePlane domain shardBits
  pure ⟨new mcPrefix groupID shardBits, planeBase domain⟩

def PlaneEngine.groupIndex (p : PlaneEngine) (key : FixedBytes 32) : UInt32 :=
  p.base.toUInt32 + p.engine.groupIndex key

def PlaneEngine.groups (p : PlaneEngine) : List UInt16 :=
  (List.range p.engine.numGroups.toNat).map fun i => p.base + UInt16.ofNat i

end ShardCommon.Shard
