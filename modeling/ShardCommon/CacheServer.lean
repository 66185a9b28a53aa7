import ShardCommon.MemoryCache

/-!
# The goroutines of the in-process cache

A backend of `cache/memory/memory.go` with its expirer and any number of callers, which take turns in
any order. `Set`, `SetNX` and `Del` are one lock hold each. `Get` gives its read lock back before it
reads the clock, `Len` takes the read lock of one shard after the other, and the expirer gives the
lock back after every batch. The clock is the monotonic one, so readings never go back.
-/

namespace ShardCommon.MemoryCache

/-- Where `run` stands: at its `select`, in `expireAll` before a lock hold on the shard, or at its end
with `done` closed. -/
inductive Expirer where
  | selecting
  | expiring (index : Fin shardCount)
  | returned
  deriving DecidableEq

/-- Where a caller stands: in no call that is left to finish, in `Get` with what it found, in `Len`
with the shards counted so far and their sum, or in `Close` before `<-b.done`. -/
inductive Caller where
  | idle
  | found (key : Bytes) (entry : Option Entry)
  | counting (index n : Nat)
  | closing

structure Server where
  backend : Backend
  expirer : Expirer
  -- whether `stop` is closed; `closeOne` closes it once
  stop : Bool
  callers : Nat → Caller

inductive Event where
  | set (key : Bytes) (val : Slice) (ttl : Int)
  | setNX (key : Bytes) (val : Slice) (ttl : Int) (won : Bool)
  | del (key : Bytes)
  | look (g : Nat) (key : Bytes)
  | answer (g : Nat) (key : Bytes) (v : Slice)
  | count (g : Nat)
  | total (g n : Nat)
  | tick
  | pass (index : Fin shardCount) (more : Bool)
  | close (g : Nat)
  | closed (g : Nat)
  | returned

/-- `Get` after its read lock. -/
def Entry.answer (entry : Option Entry) (now : Int) : Slice :=
  match entry with
  | none => none
  | some e => if e.live now then e.value else none

/-- The loop of `expireAll` after a lock hold: the same shard again, the next one, or the `select`. -/
def Expirer.next (index : Fin shardCount) (more : Bool) : Expirer :=
  if more then .expiring index
  else if h : index.val + 1 < shardCount then .expiring ⟨index.val + 1, h⟩
  else .selecting

namespace Server

def new (opts : Options) : Server := ⟨Backend.newWithOptions opts, .selecting, false, fun _ => .idle⟩

def setCaller (s : Server) (g : Nat) (caller : Caller) : Server :=
  { s with callers := Function.update s.callers g caller }

/-- One step of one goroutine at a clock reading. -/
inductive Act (now : Int) : Server → Event → Server → Prop
  | set (s : Server) (key : Bytes) (val : Slice) (ttl : Int) :
      Act now s (.set key val ttl) { s with backend := s.backend.set key val ttl now }
  | setNX (s : Server) (key : Bytes) (val : Slice) (ttl : Int) :
      Act now s (.setNX key val ttl (s.backend.setNX key val ttl now).2)
        { s with backend := (s.backend.setNX key val ttl now).1 }
  | del (s : Server) (key : Bytes) : Act now s (.del key) { s with backend := s.backend.del key }
  | look (s : Server) (g : Nat) (key : Bytes) (h : s.callers g = .idle) :
      Act now s (.look g key)
        (s.setCaller g (.found key ((s.backend.shards (shardFor key)).data.lookup key)))
  | answer (s : Server) (g : Nat) (key : Bytes) (entry : Option Entry)
      (h : s.callers g = .found key entry) :
      Act now s (.answer g key (Entry.answer entry now)) (s.setCaller g .idle)
  | count (s : Server) (g : Nat) (h : s.callers g = .idle) :
      Act now s (.count g) (s.setCaller g (.counting 0 0))
  | countShard (s : Server) (g : Nat) (index : Fin shardCount) (n : Nat)
      (h : s.callers g = .counting index n) :
      Act now s (.count g)
        (s.setCaller g (.counting (index + 1) (n + (s.backend.shards index).data.size)))
  | total (s : Server) (g n : Nat) (h : s.callers g = .counting shardCount n) :
      Act now s (.total g n) (s.setCaller g .idle)
  | tick (s : Server) (h : s.expirer = .selecting) :
      Act now s .tick { s with expirer := .expiring ⟨0, by decide⟩ }
  | pass (s : Server) (index : Fin shardCount) (h : s.expirer = .expiring index) :
      Act now s (.pass index ((s.backend.shards index).expirePass now).2)
        { s with
          backend := s.backend.expirePass index now
          expirer := .next index ((s.backend.shards index).expirePass now).2 }
  | close (s : Server) (g : Nat) (h : s.callers g = .idle) :
      Act now s (.close g) { s.setCaller g .closing with stop := true }
  | closed (s : Server) (g : Nat) (h : s.callers g = .closing) (hdone : s.expirer = .returned) :
      Act now s (.closed g) (s.setCaller g .idle)
  | leave (s : Server) (h : s.expirer = .selecting) (hstop : s.stop = true) :
      Act now s .returned { s with expirer := .returned }

/-- A step from a state and the last clock reading. -/
def Step (s : Int × Server) (a : Int × Event) (t : Int × Server) : Prop :=
  s.1 ≤ a.1 ∧ t.1 = a.1 ∧ Act a.1 s.2 a.2 t.2

end Server

end ShardCommon.MemoryCache
