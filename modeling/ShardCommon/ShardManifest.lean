import ShardCommon.Wire

/-!
# Shard manifests

The datagram of `frame/shard_manifest.go`: its flags, the optional sections, and the rules that the
encoder and the decoder share.
-/

namespace ShardCommon.Frame

open Go

def flagGroupsValid : UInt8 := 0x01

def flagAuthoritative : UInt8 := 0x02

def flagShutdown : UInt8 := 0x04

def flagSourceModeSSM : UInt8 := 0x08

def flagSourcesValid : UInt8 := 0x10

def flagPilotOnly : UInt8 := 0x20

def flagSuccessorValid : UInt8 := 0x40

def flagDomainsValid : UInt8 := 0x80

/-- `flags&bit != 0`. -/
def hasFlag (flags bit : UInt8) : Bool := flags &&& bit != 0

def successorFlagSourceModeSSM : UInt8 := 0x01

structure SuccessorBlock where
  generationID : FixedBytes 16
  shardBits : UInt8
  flags : UInt8
  transitionEpoch : UInt32
  deriving DecidableEq

def domainFlagSourceModeSSM : UInt8 := 0x01

def domainFlagSuccessorValid : UInt8 := 0x02

/-- One plane's entry in the Domains section. -/
structure DomainDescriptor where
  domainID : UInt8
  shardBits : UInt8
  slotSpan : UInt8
  flags : UInt8
  version : UInt8
  generationID : FixedBytes 16
  successor : Option SuccessorBlock
  deriving DecidableEq

/-- `withinOneBit`, in 8-bit arithmetic as the source has it. -/
def withinOneBit (a b : UInt8) : Bool := if a > b then a - b ≤ 1 else b - a ≤ 1

structure ShardManifest where
  flags : UInt8
  srcIPv6 : FixedBytes 16
  instanceID : UInt32
  epoch : UInt32
  ttl : UInt16
  announceInterval : UInt16
  shardBits : UInt8
  roleHint : UInt8
  generationID : FixedBytes 16
  groups : List UInt16
  bitmap : Bytes
  sources : List (FixedBytes 16)
  successor : Option SuccessorBlock
  domains : List DomainDescriptor
  deriving DecidableEq

def shardManifestHeaderSize : Nat := 64

def msgTypeShardManifest : UInt8 := 0x40

def successorBlockSize : Nat := 24

def domainDescriptorSize : Nat := 24

def maxShardBits : UInt8 := 12

def maxDomainDescriptors : Nat := 15

def maxDomainID : UInt8 := 0x0E

def maxPlaneShardBits : UInt8 := 15

def domainControlBase : Nat := 0xF800

/-! ## Errors -/

inductive ShardManifestSentinel where
  | badMagic
  | tooShort
  | badMsgType
  | badShardBits
  | badEncoding
  | truncated
  | badCRC
  | badSources
  | badSuccessor
  | badFlags
  | badDomains
  deriving DecidableEq

def ShardManifestSentinel.text : ShardManifestSentinel → String
  | badMagic => "frame: invalid BSV magic bytes"
  | tooShort => "shard_manifest: datagram shorter than header"
  | badMsgType => "shard_manifest: unexpected MsgType"
  | badShardBits => "shard_manifest: ShardBits exceeds maximum"
  | badEncoding => "shard_manifest: invalid payload encoding"
  | truncated => "shard_manifest: trailing payload truncated"
  | badCRC => "shard_manifest: CRC mismatch"
  | badSources => "shard_manifest: invalid sources encoding"
  | badSuccessor => "shard_manifest: invalid successor block"
  | badFlags => "shard_manifest: invalid flag combination"
  | badDomains => "shard_manifest: invalid domains section"

/-- A sentinel alone, one wrapped with a detail, or the encoder's complaint about its buffer. -/
inductive ShardManifestError where
  | sentinel (sentinel : ShardManifestSentinel)
  | wrapped (sentinel : ShardManifestSentinel) (detail : String)
  | bufferTooSmall (length need : Nat)
  deriving DecidableEq

def ShardManifestError.text : ShardManifestError → String
  | sentinel s => s.text
  | wrapped s detail => s.text ++ ": " ++ detail
  | bufferTooSmall length need =>
    s!"shard_manifest: buffer too small ({length} bytes, need {need})"

abbrev ManifestRun := Run ShardManifestError

/-- `if bad { return fmt.Errorf("%w: ...", sentinel) }`. -/
def reject (bad : Prop) [Decidable bad] (sentinel : ShardManifestSentinel) (detail : String) :
    ManifestRun Unit := Run.failIf bad (.wrapped sentinel detail)

/-! ## The rules both directions share -/

def validateFlags (flags : UInt8) : ManifestRun Unit :=
  reject (hasFlag flags flagPilotOnly ∧ ¬ hasFlag flags flagAuthoritative) .badFlags
    "PilotOnly=1 requires Authoritative=1"

/-- The widest plane a domain may have. -/
def domainMaxBits (id : UInt8) : UInt8 := if id = 0 then maxShardBits else maxPlaneShardBits

/-- The first index after the plane's range. -/
def planeEnd (id bits : UInt8) : Nat := id.toNat <<< 12 + 1 <<< bits.toNat

def impliedSpan (bits : UInt8) : UInt8 := if 12 < bits then 1 <<< (bits - 12) else 1

/-- The two arrays of `validateDomains`, by DomainID and by slot. -/
structure PlaneScan where
  seen : List Bool
  slots : List UInt8

def reserveSlots (slots : List UInt8) (slot : Nat) : Nat → ManifestRun (List UInt8)
  | 0 => pure slots
  | span + 1 => do
    let owners ← Run.index slots slot
    reject (1 < owners + 1) .badDomains
      s!"slot 0x{hexUpper slot} reserved by more than one descriptor"
    reserveSlots (slots.set slot (owners + 1)) (slot + 1) span

/-- The checks on a descriptor's Successor block. -/
def validateDomainSuccessor (d : DomainDescriptor) (authoritative : Bool) (s : SuccessorBlock) :
    ManifestRun Unit := do
  let id := hexUpper d.domainID.toNat
  let maxBits := domainMaxBits d.domainID
  reject (¬ authoritative) .badDomains s!"domain 0x{id} successor requires Authoritative=1"
  reject (maxBits < s.shardBits) .badDomains
    s!"domain 0x{id} successor ShardBits {s.shardBits} exceeds {maxBits}"
  reject (¬ withinOneBit d.shardBits s.shardBits) .badDomains
    s!"domain 0x{id} |successor-active| ShardBits > 1"
  reject (domainControlBase < planeEnd d.domainID s.shardBits) .badDomains
    s!"domain 0x{id} successor range reaches control plane"

/-- One round of the loop over descriptors. -/
def validateDomain (topShardBits : UInt8) (topGeneration : FixedBytes 16) (authoritative : Bool)
    (scan : PlaneScan) (d : DomainDescriptor) : ManifestRun PlaneScan := do
  let id := hexUpper d.domainID.toNat
  let maxBits := domainMaxBits d.domainID
  reject (maxDomainID < d.domainID) .badDomains s!"DomainID 0x{id} (0x0F forbidden)"
  let seen ← Run.index scan.seen d.domainID.toNat
  reject seen .badDomains s!"duplicate DomainID 0x{id}"
  reject (maxBits < d.shardBits) .badDomains
    s!"domain 0x{id} ShardBits {d.shardBits} exceeds {maxBits}"
  reject (domainControlBase < planeEnd d.domainID d.shardBits) .badDomains
    s!"domain 0x{id} range reaches control plane"
  reject (d.slotSpan < impliedSpan d.shardBits) .badDomains
    s!"domain 0x{id} SlotSpan {d.slotSpan} below implied {impliedSpan d.shardBits}"
  reject (maxDomainID.toNat + 1 < d.domainID.toNat + d.slotSpan.toNat) .badDomains
    s!"domain 0x{id} SlotSpan {d.slotSpan} intrudes on slot 0xF"
  let slots ← reserveSlots scan.slots d.domainID.toNat d.slotSpan.toNat
  reject (d.domainID = 0 ∧ (d.shardBits ≠ topShardBits ∨ d.generationID ≠ topGeneration)) .badDomains
    "domain-0 descriptor disagrees with top-level fields"
  reject (d.successor.isSome ≠ hasFlag d.flags domainFlagSuccessorValid) .badDomains
    s!"domain 0x{id} successor/flag mismatch"
  match d.successor with
  | some s => validateDomainSuccessor d authoritative s
  | none => pure ()
  pure ⟨scan.seen.set d.domainID.toNat true, slots⟩

def validateDomains (domains : List DomainDescriptor) (topShardBits : UInt8)
    (topGeneration : FixedBytes 16) (authoritative : Bool) : ManifestRun Unit := do
  reject (domains.length = 0 ∨ maxDomainDescriptors < domains.length) .badDomains
    s!"descriptor count {domains.length} outside [1, {maxDomainDescriptors}]"
  let _ ← domains.foldlM (validateDomain topShardBits topGeneration authoritative)
    ⟨List.replicate (maxDomainID.toNat + 1) false, List.replicate (maxDomainID.toNat + 1) 0⟩
  pure ()

def descriptorSize (d : DomainDescriptor) : Nat :=
  domainDescriptorSize +
    if hasFlag d.flags domainFlagSuccessorValid then successorBlockSize else 0

def shardManifestSize (m : ShardManifest) : Nat :=
  shardManifestHeaderSize +
    (if hasFlag m.flags flagGroupsValid then
      if 0 < m.bitmap.length then m.bitmap.length else 2 * m.groups.length
    else 0) +
    16 * m.sources.length +
    (if hasFlag m.flags flagSuccessorValid then successorBlockSize else 0) +
    (if hasFlag m.flags flagDomainsValid then 1 + (m.domains.map descriptorSize).sum else 0)

/-! ## Encoding -/

/-- `for i := 1; i < len(groups); i++`. -/
def checkSorted : Nat → List UInt16 → ManifestRun Unit
  | i, previous :: g :: rest => do
    reject (g ≤ previous) .badEncoding s!"list not sorted/unique at index {i}"
    checkSorted (i + 1) (g :: rest)
  | _, _ => pure ()

def checkGroups (m : ShardManifest) : ManifestRun Unit := do
  let groupsValid := hasFlag m.flags flagGroupsValid
  let hasList := decide (0 < m.groups.length)
  let hasBitmap := decide (0 < m.bitmap.length)
  reject (!groupsValid && (hasList || hasBitmap)) .badEncoding "payload present but GroupsValid=0"
  reject (groupsValid && hasList && hasBitmap) .badEncoding "both list and bitmap present"
  reject (groupsValid && !hasList && !hasBitmap) .badEncoding "GroupsValid=1 but no payload"
  if hasList then
    checkSorted 1 m.groups
    reject (0xFFFF < m.groups.length) .badEncoding "list exceeds 65535 entries"
  reject (hasBitmap && decide (0xFFFF < m.bitmap.length)) .badEncoding
    "bitmap exceeds 65535 bytes"

def checkSources (m : ShardManifest) : ManifestRun Unit := do
  let sourcesValid := hasFlag m.flags flagSourcesValid
  let hasSources := decide (0 < m.sources.length)
  reject (sourcesValid && !hasSources) .badSources "SourcesValid=1 but no sources"
  reject (!sourcesValid && hasSources) .badSources "sources present but SourcesValid=0"
  reject (hasSources && decide (0xFFFF < m.sources.length)) .badSources
    "sources list exceeds 65535 entries"

/-- The bounds on a top-level Successor block, checked in both directions. -/
def checkSuccessorBits (m : ShardManifest) (s : SuccessorBlock) : ManifestRun Unit := do
  reject (maxShardBits < s.shardBits) .badSuccessor
    s!"successor ShardBits {s.shardBits} exceeds maximum {maxShardBits}"
  reject (¬ withinOneBit m.shardBits s.shardBits) .badSuccessor
    s!"|successor.ShardBits-active.ShardBits|>1 ({s.shardBits} vs {m.shardBits})"

def checkSuccessor (m : ShardManifest) : ManifestRun Unit := do
  let successorValid := hasFlag m.flags flagSuccessorValid
  reject (successorValid && m.successor.isNone) .badSuccessor
    "SuccessorValid=1 but no Successor block"
  reject (!successorValid && m.successor.isSome) .badSuccessor
    "Successor present but SuccessorValid=0"
  if successorValid then
    reject (¬ hasFlag m.flags flagAuthoritative) .badSuccessor
      "SuccessorValid=1 requires Authoritative=1"
    match m.successor with
    | some s => checkSuccessorBits m s
    | none => Run.panic .nilDereference

def checkDomains (m : ShardManifest) : ManifestRun Unit := do
  let domainsValid := hasFlag m.flags flagDomainsValid
  let hasDomains := decide (0 < m.domains.length)
  reject (domainsValid && !hasDomains) .badDomains "DomainsValid=1 but no descriptors"
  reject (!domainsValid && hasDomains) .badDomains "descriptors present but DomainsValid=0"
  if domainsValid then
    validateDomains m.domains m.shardBits m.generationID (hasFlag m.flags flagAuthoritative)

/-- Everything `EncodeShardManifest` checks before it looks at its buffer. -/
def checkManifest (m : ShardManifest) : ManifestRun Unit := do
  reject (maxShardBits < m.shardBits) .badShardBits s!"got {m.shardBits}, max {maxShardBits}"
  checkGroups m
  checkSources m
  validateFlags m.flags
  checkSuccessor m
  checkDomains m

def groupCount (m : ShardManifest) : UInt16 :=
  if 0 < m.bitmap.length then 0 else UInt16.ofNat m.groups.length

def bitmapBytes (m : ShardManifest) : UInt16 := UInt16.ofNat m.bitmap.length

/-- The assignments to the header, with the CRC field still zero. -/
def headerWrites (m : ShardManifest) : List (Nat × Bytes) :=
  [(0, putUint32 magicBSV), (4, putUint16 protoVer), (6, [msgTypeShardManifest]), (7, [m.flags]),
    (8, m.srcIPv6.val), (24, putUint32 m.instanceID), (28, putUint32 m.epoch),
    (32, putUint16 m.ttl), (34, putUint16 m.announceInterval), (36, [m.shardBits]),
    (37, [m.roleHint]), (38, putUint16 (groupCount m)), (40, putUint16 (bitmapBytes m)),
    (42, putUint16 (UInt16.ofNat m.sources.length)), (44, [0]), (45, [0]), (46, [0]), (47, [0]),
    (48, m.generationID.val)]

/-- The buffer and the offset `off` of the payload loops. -/
abbrev Cursor := Bytes × Nat

def putNext (c : Cursor) (part : Bytes) : ManifestRun Cursor := do
  let buf ← Run.put c.1 c.2 part
  pure (buf, c.2 + part.length)

def putGroups (m : ShardManifest) (c : Cursor) : ManifestRun Cursor :=
  if 0 < m.bitmap.length then putNext c m.bitmap
  else if 0 < m.groups.length then m.groups.foldlM (fun c g => putNext c (putUint16 g)) c
  else pure c

def putSources (m : ShardManifest) (c : Cursor) : ManifestRun Cursor :=
  m.sources.foldlM (fun c src => putNext c src.val) c

def successorWrites (off : Nat) (s : SuccessorBlock) : List (Nat × Bytes) :=
  [(off, s.generationID.val), (off + 16, [s.shardBits]), (off + 17, [s.flags]), (off + 18, [0]),
    (off + 19, [0]), (off + 20, putUint32 s.transitionEpoch)]

def putSuccessor (c : Cursor) (s : SuccessorBlock) : ManifestRun Cursor := do
  let buf ← Run.putAll c.1 (successorWrites c.2 s)
  pure (buf, c.2 + successorBlockSize)

def descriptorWrites (off : Nat) (d : DomainDescriptor) : List (Nat × Bytes) :=
  [(off, [d.domainID]), (off + 1, [d.shardBits]), (off + 2, [d.slotSpan]), (off + 3, [d.flags]),
    (off + 4, [d.version]), (off + 5, [0]), (off + 6, [0]), (off + 7, [0]),
    (off + 8, d.generationID.val)]

def putDescriptor (c : Cursor) (d : DomainDescriptor) : ManifestRun Cursor := do
  let buf ← Run.putAll c.1 (descriptorWrites c.2 d)
  let c := (buf, c.2 + domainDescriptorSize)
  match d.successor with
  | some s => putSuccessor c s
  | none => pure c

def putSuccessorSection (m : ShardManifest) (c : Cursor) : ManifestRun Cursor :=
  if hasFlag m.flags flagSuccessorValid then
    match m.successor with
    | some s => putSuccessor c s
    | none => Run.panic .nilDereference
  else pure c

def putDomainsSection (m : ShardManifest) (c : Cursor) : ManifestRun Cursor :=
  if hasFlag m.flags flagDomainsValid then do
    let c ← putNext c [UInt8.ofNat m.domains.length]
    m.domains.foldlM putDescriptor c
  else pure c

def putSections (m : ShardManifest) (c : Cursor) : ManifestRun Cursor := do
  let c ← putGroups m c
  let c ← putSources m c
  let c ← putSuccessorSection m c
  putDomainsSection m c

/-- `EncodeShardManifest`: the number of bytes and the buffer afterwards. `checksum` is the CRC. -/
def encodeShardManifest (checksum : Bytes → UInt32) (m : ShardManifest) (buf : Bytes) :
    ManifestRun (Nat × Bytes) := do
  checkManifest m
  let total := shardManifestSize m
  Run.failIf (buf.length < total) (.bufferTooSmall buf.length total)
  let buf ← Run.putAll buf (headerWrites m)
  let c ← putSections m (buf, shardManifestHeaderSize)
  let covered ← bytesAt c.1 0 total
  let buf ← Run.put c.1 44 (putUint32 (checksum covered))
  pure (total, buf)

/-! ## Decoding -/

/-- The fixed fields of a datagram and the counts of its payload sections. -/
structure ManifestHeader where
  manifest : ShardManifest
  groupCount : UInt16
  bitmapBytes : UInt16
  sourceCount : UInt16

/-- The coherence rules between the flags and the counts. -/
def checkCounts (flags : UInt8) (groupCount bitmapBytes sourceCount : UInt16) :
    ManifestRun Unit := do
  if !hasFlag flags flagGroupsValid then
    reject (groupCount ≠ 0 ∨ bitmapBytes ≠ 0) .badEncoding "GroupsValid=0 but counts non-zero"
  else do
    reject (0 < bitmapBytes ∧ 0 < groupCount) .badEncoding "both bitmap and list non-zero"
    reject (bitmapBytes = 0 ∧ groupCount = 0) .badEncoding "GroupsValid=1 but no payload"
  if hasFlag flags flagSourcesValid then
    reject (sourceCount = 0) .badSources "SourcesValid=1 but SourceCount=0"
  else reject (0 < sourceCount) .badSources "SourcesValid=0 but SourceCount>0"
  validateFlags flags
  reject (hasFlag flags flagSuccessorValid ∧ ¬ hasFlag flags flagAuthoritative) .badSuccessor
    "SuccessorValid=1 requires Authoritative=1"

def decodeHeader (buf : Bytes) : ManifestRun ManifestHeader := do
  Run.failIf (buf.length < shardManifestHeaderSize) (.sentinel .tooShort)
  let magic ← uint32 <$> bytesAt buf 0 4
  reject (magic ≠ magicBSV) .badMagic s!"got 0x{hexWord magic}"
  let msgType ← byteAt buf 6
  Run.failIf (msgType ≠ msgTypeShardManifest) (.sentinel .badMsgType)
  let flags ← byteAt buf 7
  let instanceID ← uint32 <$> bytesAt buf 24 28
  let epoch ← uint32 <$> bytesAt buf 28 32
  let ttl ← uint16 <$> bytesAt buf 32 34
  let announceInterval ← uint16 <$> bytesAt buf 34 36
  let shardBits ← byteAt buf 36
  let roleHint ← byteAt buf 37
  let srcIPv6 ← FixedBytes.copy 16 <$> bytesAt buf 8 24
  let generationID ← FixedBytes.copy 16 <$> bytesAt buf 48 64
  reject (maxShardBits < shardBits) .badShardBits s!"got {shardBits}, max {maxShardBits}"
  let groupCount ← uint16 <$> bytesAt buf 38 40
  let bitmapBytes ← uint16 <$> bytesAt buf 40 42
  let sourceCount ← uint16 <$> bytesAt buf 42 44
  checkCounts flags groupCount bitmapBytes sourceCount
  pure
    { manifest := ⟨flags, srcIPv6, instanceID, epoch, ttl, announceInterval, shardBits, roleHint,
        generationID, [], [], [], none, []⟩
      groupCount, bitmapBytes, sourceCount }

/-- The pre-scan over the descriptors, for their data-dependent length. -/
def scanDescriptors (buf : Bytes) : Nat → Nat → ManifestRun Nat
  | 0, scan => do
    Run.failIf (buf.length < scan) (.sentinel .truncated)
    pure scan
  | count + 1, scan => do
    Run.failIf (buf.length < scan + domainDescriptorSize) (.sentinel .truncated)
    let flags ← byteAt buf (scan + 3)
    scanDescriptors buf count (scan + domainDescriptorSize +
      if hasFlag flags domainFlagSuccessorValid then successorBlockSize else 0)

def groupsLen (h : ManifestHeader) : Nat :=
  if h.bitmapBytes = 0 then 2 * h.groupCount.toNat else h.bitmapBytes.toNat

def successorLen (flags : UInt8) : Nat :=
  if hasFlag flags flagSuccessorValid then successorBlockSize else 0

/-- The number of bytes the datagram declares, found before the CRC is verified. -/
def manifestExtent (h : ManifestHeader) (buf : Bytes) : ManifestRun Nat := do
  let total := shardManifestHeaderSize + groupsLen h + 16 * h.sourceCount.toNat +
    successorLen h.manifest.flags
  Run.failIf (buf.length < total) (.sentinel .truncated)
  if hasFlag h.manifest.flags flagDomainsValid then
    Run.failIf (buf.length < total + 1) (.sentinel .truncated)
    let count ← byteAt buf total
    reject (count.toNat < 1 ∨ maxDomainDescriptors < count.toNat) .badDomains
      s!"descriptor count {count} outside [1, {maxDomainDescriptors}]"
    scanDescriptors buf count.toNat (total + 1)
  else pure total

def verifyCRC (checksum : Bytes → UInt32) (buf : Bytes) (total : Nat) : ManifestRun Unit := do
  let wantCRC ← uint32 <$> bytesAt buf 44 48
  Run.make 1 total
  let tmp ← bytesAt buf 0 total
  let tmp ← Run.putAll tmp [(44, [0]), (45, [0]), (46, [0]), (47, [0])]
  reject (checksum tmp ≠ wantCRC) .badCRC
    s!"got 0x{hexWord (checksum tmp)}, want 0x{hexWord wantCRC}"

/-- The list of `count` groups at `off`; `i` rounds are done and the last one read `prev`. -/
def decodeGroups (buf : Bytes) : Nat → Nat → UInt16 → Nat → ManifestRun (List UInt16 × Nat)
  | 0, _, _, off => pure ([], off)
  | count + 1, i, prev, off => do
    let g ← uint16 <$> bytesAt buf off (off + 2)
    reject (0 < i ∧ g ≤ prev) .badEncoding s!"list not sorted/unique at index {i}"
    let rest ← decodeGroups buf count (i + 1) g (off + 2)
    pure (g :: rest.1, rest.2)

def decodeSources (buf : Bytes) : Nat → Nat → ManifestRun (List (FixedBytes 16) × Nat)
  | 0, off => pure ([], off)
  | count + 1, off => do
    let src ← FixedBytes.copy 16 <$> bytesAt buf off (off + 16)
    let rest ← decodeSources buf count (off + 16)
    pure (src :: rest.1, rest.2)

def decodeSuccessor (buf : Bytes) (off : Nat) : ManifestRun SuccessorBlock := do
  let shardBits ← byteAt buf (off + 16)
  let flags ← byteAt buf (off + 17)
  let transitionEpoch ← uint32 <$> bytesAt buf (off + 20) (off + 24)
  let generationID ← FixedBytes.copy 16 <$> bytesAt buf off (off + 16)
  pure ⟨generationID, shardBits, flags, transitionEpoch⟩

def decodeDescriptor (buf : Bytes) (off : Nat) : ManifestRun (DomainDescriptor × Nat) := do
  let domainID ← byteAt buf off
  let shardBits ← byteAt buf (off + 1)
  let slotSpan ← byteAt buf (off + 2)
  let flags ← byteAt buf (off + 3)
  let version ← byteAt buf (off + 4)
  let generationID ← FixedBytes.copy 16 <$> bytesAt buf (off + 8) (off + 24)
  if hasFlag flags domainFlagSuccessorValid then
    let s ← decodeSuccessor buf (off + domainDescriptorSize)
    pure (⟨domainID, shardBits, slotSpan, flags, version, generationID, some s⟩,
      off + domainDescriptorSize + successorBlockSize)
  else
    pure (⟨domainID, shardBits, slotSpan, flags, version, generationID, none⟩,
      off + domainDescriptorSize)

def decodeDescriptors (buf : Bytes) : Nat → Nat → ManifestRun (List DomainDescriptor × Nat)
  | 0, off => pure ([], off)
  | count + 1, off => do
    let d ← decodeDescriptor buf off
    let rest ← decodeDescriptors buf count d.2
    pure (d.1 :: rest.1, rest.2)

def decodeGroupsSection (h : ManifestHeader) (buf : Bytes) (off : Nat) :
    ManifestRun (ShardManifest × Nat) :=
  if 0 < h.bitmapBytes then do
    let bitmap ← bytesAt buf off (off + h.bitmapBytes.toNat)
    pure ({ h.manifest with bitmap := bitmap }, off + h.bitmapBytes.toNat)
  else if 0 < h.groupCount then do
    Run.make 2 h.groupCount.toNat
    let groups ← decodeGroups buf h.groupCount.toNat 0 0 off
    pure ({ h.manifest with groups := groups.1 }, groups.2)
  else pure (h.manifest, off)

def decodeSourcesSection (h : ManifestHeader) (buf : Bytes) (m : ShardManifest) (off : Nat) :
    ManifestRun (ShardManifest × Nat) :=
  if 0 < h.sourceCount then do
    Run.make 16 h.sourceCount.toNat
    let sources ← decodeSources buf h.sourceCount.toNat off
    pure ({ m with sources := sources.1 }, sources.2)
  else pure (m, off)

def decodeSuccessorSection (buf : Bytes) (m : ShardManifest) (off : Nat) :
    ManifestRun (ShardManifest × Nat) :=
  if hasFlag m.flags flagSuccessorValid then do
    let s ← decodeSuccessor buf off
    checkSuccessorBits m s
    pure ({ m with successor := some s }, off + successorBlockSize)
  else pure (m, off)

def decodeDomainsSection (buf : Bytes) (m : ShardManifest) (off : Nat) :
    ManifestRun (ShardManifest × Nat) :=
  if hasFlag m.flags flagDomainsValid then do
    let count ← byteAt buf off
    Run.make 32 count.toNat
    let domains ← decodeDescriptors buf count.toNat (off + 1)
    validateDomains domains.1 m.shardBits m.generationID (hasFlag m.flags flagAuthoritative)
    pure ({ m with domains := domains.1 }, domains.2)
  else pure (m, off)

/-- The second pass: the manifest and the offset it ends at. -/
def decodeSections (h : ManifestHeader) (buf : Bytes) : ManifestRun (ShardManifest × Nat) := do
  let r ← decodeGroupsSection h buf shardManifestHeaderSize
  let r ← decodeSourcesSection h buf r.1 r.2
  let r ← decodeSuccessorSection buf r.1 r.2
  decodeDomainsSection buf r.1 r.2

/-- `DecodeShardManifest`. -/
def decodeShardManifest (checksum : Bytes → UInt32) (buf : Bytes) : ManifestRun ShardManifest := do
  let h ← decodeHeader buf
  let total ← manifestExtent h buf
  verifyCRC checksum buf total
  let r ← decodeSections h buf
  pure r.1

end ShardCommon.Frame
