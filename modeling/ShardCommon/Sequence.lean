import ShardCommon.ShardEngine

/-!
# Sequence counters

`sequence/sequence.go`: one atomic counter for each group. `Next` is a single atomic addition, so the
calls of any goroutines are a list of calls in the order of their additions.
-/

namespace ShardCommon.Sequence

structure Counters where
  slots : List UInt64

def newCounters (numShards : UInt32) : Counters := ⟨List.replicate numShards.toNat 0⟩

/-- `Next`; `none` is the index panic. -/
def Counters.next (c : Counters) (shardIdx : UInt32) : Option (UInt64 × Counters) :=
  match c.slots[shardIdx.toNat]? with
  | none => none
  | some before =>
    let after := before + 1
    some (after - 1, ⟨c.slots.set shardIdx.toNat after⟩)

/-- The numbers that a list of calls is given. -/
def Counters.draws (c : Counters) : List UInt32 → Option (List UInt64)
  | [] => some []
  | shardIdx :: rest =>
    match c.next shardIdx with
    | none => none
    | some (number, c) => (c.draws rest).map (number :: ·)

end ShardCommon.Sequence
