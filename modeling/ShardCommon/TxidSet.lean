import Mathlib.Data.List.AList
import ShardCommon.Lib.GoRun
import ShardCommon.Lib.WireBytes

/-!
# The TxID claim store

The local set of `txidset/local.go` and the store of `txidset/txidset.go`. Time comes in as an
argument. A claim is two atomic steps, the test of the local set and the create-only write to the
shared backend; `Store.claim` is their composition.
-/

namespace ShardCommon.TxidSet

open Go

abbrev Key := FixedBytes 32

def localShards : Nat := 64

def defaultLocalCapacity : Nat := 2 ^ 20

/-- One stripe: the expiry of each remembered key, and the ring of the keys inserted last. -/
structure LocalShard where
  capacity : Nat
  ttl : Int
  entries : AList (fun _ : Key => Int)
  ring : List Key
  head : Nat
  count : Nat

namespace LocalShard

def empty (capacity : Nat) (ttl : Int) : LocalShard :=
  ⟨capacity, ttl, ∅, List.replicate capacity (.copy 32 []), 0, 0⟩

def expiry (s : LocalShard) (now : Int) : Int := if 0 < s.ttl then wrap64 (now + s.ttl) else 0

/-- The key is in the set and has not expired. -/
def remembers (s : LocalShard) (key : Key) (now : Int) : Bool :=
  match s.entries.lookup key with
  | some exp => decide (s.ttl ≤ 0 ∨ now ≤ exp)
  | none => false

def oldest (s : LocalShard) : Key := s.ring.getD s.head (.copy 32 [])

/-- The path of a miss: make room in the ring when it is full, and insert the key. -/
def insert (s : LocalShard) (key : Key) (now : Int) : LocalShard :=
  { s with
    entries := ((if s.count = s.capacity then s.entries.erase s.oldest else s.entries).insert key
      (s.expiry now))
    count := if s.count = s.capacity then s.count else s.count + 1
    ring := s.ring.set s.head key
    head := (s.head + 1) % s.capacity }

def seenAndAdd (s : LocalShard) (key : Key) (now : Int) : Bool × LocalShard :=
  if s.remembers key now then (true, { s with entries := s.entries.insert key (s.expiry now) })
  else (false, s.insert key now)

end LocalShard

inductive LocalSet where
  | disabled
  | striped (shards : Fin localShards → LocalShard)

namespace LocalSet

def new (capacity : Int) (ttl : Int) : LocalSet :=
  if capacity ≤ 0 then disabled
  else striped fun _ => .empty ((capacity.toNat + localShards - 1) / localShards) ttl

/-- The first eight bytes of the key, little-endian, modulo the number of stripes. -/
def shardOf (key : Key) : Fin localShards :=
  ⟨BigEndian.toNat (key.val.take 8).reverse % localShards, Nat.mod_lt _ (by decide)⟩

def seenAndAdd (l : LocalSet) (key : Key) (now : Int) : Bool × LocalSet :=
  match l with
  | disabled => (false, disabled)
  | striped shards =>
    let result := (shards (shardOf key)).seenAndAdd key now
    (result.1, striped (Function.update shards (shardOf key) result.2))

end LocalSet

/-! ## Claims -/

/-- What the recorder hears of a claim. -/
inductive ClaimEvent where
  | localHit
  | won
  | lost
  | error
  deriving Repr, DecidableEq

/-- The backend's answer to `SetNX`. -/
inductive SetNXReply (ε : Type) where
  | created
  | existed
  | failed (error : ε)
  deriving Repr, DecidableEq

/-- The pair a claim returns, and the event it records. -/
structure ClaimResult (ε : Type) where
  proceed : Bool
  error : Option ε
  event : ClaimEvent
  deriving Repr, DecidableEq

/-- The write a claim asks of the backend. -/
structure SetNXRequest where
  key : List UInt8
  value : List UInt8
  ttl : Int
  deriving Repr, DecidableEq

structure Store where
  localSet : LocalSet
  hasBackend : Bool
  defaultTTL : Int

namespace Store

def hexDigit (n : Nat) : UInt8 := UInt8.ofNat (if n < 10 then 48 + n else 87 + n)

/-- `hex.EncodeToString`. -/
def hexEncode (bytes : List UInt8) : List UInt8 :=
  bytes.flatMap fun b => [hexDigit (b.toNat / 16), hexDigit (b.toNat % 16)]

def oneVal : List UInt8 := [49]

def request (s : Store) (pre : List UInt8) (txid : Key) : SetNXRequest :=
  ⟨pre ++ hexEncode txid.val, oneVal, s.defaultTTL⟩

/-- The local step of a claim: a result, or the request to send to the backend. -/
def claimLocal {ε : Type} (s : Store) (pre : List UInt8) (txid : Key) (now : Int) :
    (ClaimResult ε ⊕ SetNXRequest) × Store :=
  let seen := s.localSet.seenAndAdd txid now
  let s' := { s with localSet := seen.2 }
  if seen.1 then (.inl ⟨false, none, .localHit⟩, s')
  else if s.hasBackend then (.inr (s.request pre txid), s')
  else (.inl ⟨true, none, .won⟩, s')

/-- The backend step of a claim. -/
def claimReply {ε : Type} : SetNXReply ε → ClaimResult ε
  | .created => ⟨true, none, .won⟩
  | .existed => ⟨false, none, .lost⟩
  | .failed error => ⟨true, some error, .error⟩

def claim {ε β : Type} (setNX : SetNXRequest → β → SetNXReply ε × β) (s : Store)
    (pre : List UInt8) (txid : Key) (now : Int) (backend : β) : ClaimResult ε × Store × β :=
  match s.claimLocal pre txid now with
  | (.inl result, s') => (result, s', backend)
  | (.inr req, s') =>
    let answer := setNX req backend
    (claimReply answer.1, s', answer.2)

end Store

end ShardCommon.TxidSet
