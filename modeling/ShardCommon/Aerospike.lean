import Mathlib.Init

/-!
# Expirations of the Aerospike backend

The write policy of `cache/aerospike/aerospike.go`: a TTL in nanoseconds becomes a 32-bit number of
seconds, in Go's wrapping arithmetic.
-/

namespace ShardCommon.Aerospike

/-- A count of nanoseconds. -/
abbrev Duration := Int64

/-- `time.Second`. -/
def second : Duration := 1000000000

/-- The expiration of a record that never expires. -/
def aeroNeverExpire : UInt32 := 0xFFFFFFFF

def expiration (ttl : Duration) : UInt32 :=
  if ttl ≤ 0 then aeroNeverExpire
  else
    let secs := (ttl + second - 1) / second
    let secs := if secs < 1 then 1 else secs
    secs.toUInt64.toUInt32

inductive RecordExistsAction where
  | update
  | createOnly
  deriving DecidableEq

/-- The fields of the client's policy that the backend sets. -/
structure WritePolicy where
  generation : UInt32
  expiration : UInt32
  totalTimeout : Duration
  recordExistsAction : RecordExistsAction
  deriving DecidableEq

def writePolicy (opTimeout ttl : Duration) (createOnly : Bool) : WritePolicy where
  generation := 0
  expiration := expiration ttl
  totalTimeout := opTimeout
  recordExistsAction := if createOnly then .createOnly else .update

end ShardCommon.Aerospike
