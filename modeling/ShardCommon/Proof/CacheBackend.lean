import ShardCommon.Proof.CacheRefinement

/-!
# Runs of the capped backend

A call turns to the shard of its key and leaves the others alone, so each shard of a reachable
backend has a run of its own: what holds of every reachable shard holds of every shard of every
reachable backend, under the backend's share of the caps.
-/

namespace ShardCommon.MemoryCache

theorem Shard.Reachable.expireAllLoop {caps : Caps} {last now : Int} {s : Shard}
    (h : Shard.Reachable caps last s) (hle : last ≤ now) (fuel : Nat) :
    ∃ last' ≤ now, Shard.Reachable caps last' (Shard.expireAllLoop now fuel s) := by
  induction fuel generalizing s last with
  | zero => exact ⟨last, hle, h⟩
  | succ fuel ih =>
      have hpass : Shard.Reachable caps now (s.expirePass now).1 := .step .expirePass h hle
      rw [Shard.expireAllLoop]
      split
      · rename_i u heq
        rw [heq] at hpass
        exact ih hpass (Int.le_refl now)
      · rename_i u heq
        rw [heq] at hpass
        exact ⟨now, Int.le_refl now, hpass⟩

/-- The write a call made, if it made one: a `SetNX` that lost wrote nothing. -/
def Call.written : Call → Reply → Option (Bytes × Slice × Int)
  | .set key val ttl, _ => some (key, val, ttl)
  | .setNX key val ttl, .won true => some (key, val, ttl)
  | _, _ => none

namespace Backend

/-- The backends reached from a new one, each with its log, newest call first, and the last clock
reading: readings start at zero or later and never go back. -/
inductive Run (opts : Options) : List (Call × Reply) → Int → Backend → Prop where
  | init {now : Int} : 0 ≤ now → Run opts [] now (newWithOptions opts)
  | call {log : List (Call × Reply)} {now later : Int} {b : Backend} (c : Call) :
      Run opts log now b → now ≤ later → Run opts ((c, (b.call later c).2) :: log) later (b.call later c).1

variable {opts : Options} {log : List (Call × Reply)} {b : Backend} {last now : Int}
  {index : Fin shardCount}

theorem setShard_shards (b : Backend) (index other : Fin shardCount) (s : Shard) :
    (b.setShard index s).shards other = if other = index then s else b.shards other := by
  simp [setShard, Function.update_apply]

theorem call_caps (b : Backend) (now : Int) (c : Call) : (b.call now c).1.toCaps = b.toCaps := by
  cases c <;> rfl

theorem Run.caps (h : Run opts log now b) : b.toCaps = (newWithOptions opts).toCaps := by
  induction h with
  | init _ => rfl
  | call c _ _ ih => rw [call_caps, ih]

theorem reachable_setShard {target : Fin shardCount} (op : Shard.Op)
    (h : Shard.Reachable b.toCaps last (b.shards index)) (hle : last ≤ now) :
    ∃ last' ≤ now, Shard.Reachable b.toCaps last'
      ((b.setShard target ((b.shards target).step b.toCaps now op)).shards index) := by
  rw [setShard_shards]
  split
  · rename_i heq
    subst heq
    exact ⟨now, Int.le_refl now, .step op h hle⟩
  · exact ⟨last, hle, h⟩

theorem reachable_call (c : Call) (h : Shard.Reachable b.toCaps last (b.shards index))
    (hle : last ≤ now) :
    ∃ last' ≤ now, Shard.Reachable b.toCaps last' ((b.call now c).1.shards index) := by
  cases c with
  | set key val ttl => exact reachable_setShard (.set key val ttl) h hle
  | setNX key val ttl => exact reachable_setShard (.setNX key val ttl) h hle
  | get key => exact ⟨last, hle, h⟩
  | del key => exact reachable_setShard (.del key) h hle
  | expirePass target => exact reachable_setShard .expirePass h hle
  | expireAll => exact h.expireAllLoop hle _

theorem Run.shard (h : Run opts log now b) (index : Fin shardCount) :
    ∃ last ≤ now, Shard.Reachable b.toCaps last (b.shards index) := by
  induction h with
  | @init now hnow => exact ⟨now, Int.le_refl now, .init hnow⟩
  | call c _ hle ih =>
      obtain ⟨last, hlast, hshard⟩ := ih
      rw [call_caps]
      exact reachable_call c hshard (hlast.trans hle)

theorem Run.inv (h : Run opts log now b) (index : Fin shardCount) :
    0 ≤ now ∧ (b.shards index).Inv now := by
  obtain ⟨last, hlast, hshard⟩ := h.shard index
  obtain ⟨hnonneg, hcapped⟩ := hshard.capped
  exact ⟨hnonneg.trans hlast, hcapped.inv.mono hlast⟩

end Backend

end ShardCommon.MemoryCache
