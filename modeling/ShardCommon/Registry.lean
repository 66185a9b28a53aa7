import ShardCommon.Evaluator
import ShardCommon.NetAddr
import ShardCommon.ShardEngine

/-!
# The manifest registry

`manifest/registry.go`: the manifests a consumer currently holds, one for each source and instance,
and the consumer that decodes datagrams into the registry and evaluates its snapshots. Times are
nanoseconds since the Unix epoch. The order in which Go visits the map does not show: a snapshot is
sorted by keys that are distinct.
-/

namespace ShardCommon.Manifest

open ShardCommon.Frame ShardCommon.Netip Shard

structure EntryKey where
  src : Addr
  instanceID : UInt32
  deriving DecidableEq

/-- A registry entry: what the evaluator reads, and the rest of it. -/
structure Registered where
  srcIPv6 : Addr
  instanceID : UInt32
  roleHint : UInt8
  epoch : UInt32
  ttl : UInt16
  generationID : FixedBytes 16
  entry : Entry
  receivedAt : Int
  expiresAt : Int

def Registered.key (r : Registered) : EntryKey := ⟨r.srcIPv6, r.instanceID⟩

/-- Every entry is stored under its own key. -/
structure Registry where
  defaultTTL : Int
  entries : AList fun _ : EntryKey => Registered
  keyed : ∀ item ∈ entries.entries, item.2.key = item.1

def newRegistry (defaultTTL : Int) : Registry where
  defaultTTL := defaultTTL
  entries := ∅
  keyed := by nofun

def dedupSources (sources : List (FixedBytes 16)) : List (FixedBytes 16) :=
  sources.eraseDups.mergeSort fun a b => BigEndian.toNat a.val ≤ BigEndian.toNat b.val

/-- The indices of the set bits, in order. -/
def bitmapGroups (bitmap : Bytes) : List Nat :=
  bitmap.zipIdx.flatMap fun item =>
    ((List.range 8).filter fun bit => item.1.toNat.testBit bit).map fun bit => item.2 * 8 + bit

/-- Indices at or beyond `2 ^ shardBits` are dropped in both forms. -/
def expandGroups (m : ShardManifest) : List UInt16 :=
  let limit := shiftLeft 1 m.shardBits.toUInt64
  if !hasFlag m.flags flagGroupsValid then []
  else if 0 < m.groups.length then m.groups.filter fun g => g.toUInt32 < limit
  else (((bitmapGroups m.bitmap).map UInt32.ofNat).filter fun idx => idx < limit).map (·.toUInt16)

/-- What the evaluator reads of a manifest. -/
def entryOf (m : ShardManifest) : Entry where
  flags := m.flags
  shardBits := m.shardBits
  announceInterval := m.announceInterval
  sources := dedupSources m.sources
  groups := expandGroups m
  successor := m.successor
  domains := m.domains

namespace Registry

def ttl (reg : Registry) (m : ShardManifest) : Int :=
  let ttl := m.ttl.toNat * second
  if ttl ≠ 0 then ttl
  else if reg.defaultTTL ≠ 0 then reg.defaultTTL
  else 3 * m.announceInterval.toNat * second

/-- The entry made of a manifest. -/
def register (reg : Registry) (now : Int) (src : Addr) (m : ShardManifest) : Registered where
  srcIPv6 := src.withoutZone
  instanceID := m.instanceID
  roleHint := m.roleHint
  epoch := m.epoch
  ttl := m.ttl
  generationID := m.generationID
  entry := entryOf m
  receivedAt := now
  expiresAt := if m.epoch ≠ 0 then m.epoch.toNat * second + reg.ttl m else now + reg.ttl m

def delete (reg : Registry) (k : EntryKey) : Registry where
  defaultTTL := reg.defaultTTL
  entries := reg.entries.erase k
  keyed := fun item h => reg.keyed item ((List.kerase_sublist ..).subset h)

def store (reg : Registry) (r : Registered) : Registry where
  defaultTTL := reg.defaultTTL
  entries := reg.entries.insert r.key r
  keyed := by
    intro item h
    rw [AList.entries_insert] at h
    rcases List.mem_cons.mp h with rfl | h
    · rfl
    · exact reg.keyed item ((List.kerase_sublist ..).subset h)

/-- `Upsert`: the entry, if there is one, and the registry. -/
def upsert (reg : Registry) (now : Int) (src : Addr) (m : ShardManifest) :
    Option Registered × Registry :=
  if hasFlag m.flags flagShutdown then (none, reg.delete ⟨src.withoutZone, m.instanceID⟩)
  else
    let r := reg.register now src m
    (some r, reg.store r)

def evict (reg : Registry) (now : Int) : Registry where
  defaultTTL := reg.defaultTTL
  entries := ⟨reg.entries.entries.filter fun item => now < item.2.expiresAt,
    reg.entries.nodupKeys.sublist List.filter_sublist⟩
  keyed := fun item h => reg.keyed item (List.mem_filter.mp h).1

end Registry

def Registered.less (a b : Registered) : Bool :=
  if a.srcIPv6 ≠ b.srcIPv6 then a.srcIPv6.less b.srcIPv6 else a.instanceID < b.instanceID

def Registry.snapshot (reg : Registry) : List Registered :=
  (reg.entries.entries.map (·.2)).mergeSort fun a b => !b.less a

/-! ## The consumer -/

structure Consumer where
  registry : Registry
  evaluator : Evaluator

inductive Event where
  | datagram (src : Addr) (buf : Bytes) (now : Int)
  | evict (now : Int)
  | evaluate (now : Int) (orders : Orders)

/-- An evaluation: the snapshot and the view. -/
structure Answer where
  snap : List Registered
  view : Adopted

namespace Consumer

def new (defaultTTL : Int) (cfg : EvaluatorConfig) : Consumer :=
  ⟨newRegistry defaultTTL, newEvaluator cfg⟩

/-- A datagram that does not decode is dropped. -/
def receive (checksum : Bytes → UInt32) (c : Consumer) (src : Addr) (buf : Bytes) (now : Int) :
    Consumer :=
  match (decodeShardManifest checksum buf).outcome with
  | .ok m => { c with registry := (c.registry.upsert now src m).2 }
  | _ => c

def evaluate (c : Consumer) (now : Int) (orders : Orders) : Answer × Consumer :=
  let snap := c.registry.snapshot
  let r := c.evaluator.evaluate (snap.map (·.entry)) now orders
  (⟨snap, r.1⟩, { c with evaluator := r.2 })

/-- The evaluations of a run, in order. -/
def answers (checksum : Bytes → UInt32) : Consumer → List Event → List Answer
  | _, [] => []
  | c, .datagram src buf now :: events => answers checksum (c.receive checksum src buf now) events
  | c, .evict now :: events => answers checksum { c with registry := c.registry.evict now } events
  | c, .evaluate now orders :: events =>
    (c.evaluate now orders).1 :: answers checksum (c.evaluate now orders).2 events

end Consumer

end ShardCommon.Manifest
