import ShardCommon.Lib.AssocTotal

/-!
# The in-process cache backend (`cache/memory/memory.go`)

A shard is a map of entries beside FIFO queues of items, one queue per TTL and one for the entries
that never expire. Deletion from the queues is lazy: a rewrite or a delete leaves its item behind,
and an item counts only while its key's entry still carries its deadline.

Clock readings, TTLs and deadlines are nanoseconds in `Int`. `monoNow` counts from the start of the
process on the monotonic clock, so a reading is never negative. The counters `writes`, `items` and
`bytes` are `Int` as well: they move by one write at a time and no run wraps them.
-/

namespace ShardCommon.MemoryCache

abbrev Bytes := List UInt8

/-- A Go `[]byte`, with `none` for nil. -/
abbrev Slice := Option Bytes

def Slice.len (v : Slice) : Nat := v.elim 0 List.length

def shardCount : Nat := 64

def writeExpireBudget : Nat := 2

def expireBatch : Nat := 1024

def compactSlack : Int := 1024

def maxInt64 : Int := 9223372036854775807

-- `math.MaxInt` as a pop budget
def maxInt : Nat := 9223372036854775807

/-- A cached value. A positive deadline is its expiry; an entry that never expires holds the negated
number of its write instead. -/
structure Entry where
  value : Slice
  deadline : Int
deriving DecidableEq

def Entry.live (e : Entry) (now : Int) : Bool := e.deadline ≤ 0 || now < e.deadline

structure Item where
  key : Bytes
  deadline : Int
deriving DecidableEq

/-- A FIFO of items: `items.take head` have been popped. -/
structure Queue where
  ttl : Int
  items : List Item
  head : Nat
  head_le : head ≤ items.length

namespace Queue

def empty (ttl : Int) : Queue := ⟨ttl, [], 0, Nat.le_refl 0⟩

def rest (q : Queue) : List Item := q.items.drop q.head

def len (q : Queue) : Nat := q.items.length - q.head

def peek (q : Queue) : Option Item := q.items[q.head]?

def push (q : Queue) (it : Item) : Queue where
  ttl := q.ttl
  items := q.items ++ [it]
  head := q.head
  head_le := by
    have := q.head_le
    simp only [List.length_append, List.length_singleton]
    omega

def compact (q : Queue) : Queue := ⟨q.ttl, q.items.drop q.head, 0, Nat.zero_le _⟩

/-- Removes the head item; `none` stands for the index panic on an empty queue. -/
def pop (q : Queue) : Option (Item × Queue) :=
  if h : q.head < q.items.length then
    let next : Queue := ⟨q.ttl, q.items, q.head + 1, h⟩
    some (q.items.get ⟨q.head, h⟩,
      if next.items.length ≤ 2 * next.head then next.compact else next)
  else
    none

end Queue

structure Shard where
  data : AList (fun _ : Bytes => Entry)
  ttlQueues : List Queue
  forever : Queue
  writes : Int
  items : Int
  bytes : Int

inductive QueueRef where
  | forever
  | ttl (index : Nat)
deriving DecidableEq

namespace Shard

def empty : Shard where
  data := ∅
  ttlQueues := []
  forever := Queue.empty 0
  writes := 0
  items := 0
  bytes := 0

def queue (s : Shard) : QueueRef → Queue
  | .forever => s.forever
  | .ttl index => s.ttlQueues.getD index (Queue.empty 0)

def setQueue (s : Shard) (ref : QueueRef) (q : Queue) : Shard :=
  match ref with
  | .forever => { s with forever := q }
  | .ttl index => { s with ttlQueues := s.ttlQueues.set index q }

def current (s : Shard) (it : Item) : Bool :=
  (s.data.lookup it.key).any fun e => e.deadline == it.deadline

def dropHead (s : Shard) (ref : QueueRef) : Shard :=
  match (s.queue ref).pop with
  | none => s
  | some (_, q) => { s.setQueue ref q with items := s.items - 1 }

def pop (s : Shard) (ref : QueueRef) : Shard :=
  match (s.queue ref).pop with
  | none => s
  | some (it, q) =>
    let s := { s.setQueue ref q with items := s.items - 1 }
    if s.current it then
      { s with
        bytes := s.bytes - (s.data.lookup it.key).elim 0 fun e => e.value.len
        data := s.data.erase it.key }
    else
      s

def expireQueue (ref : QueueRef) (now : Int) : Nat → Shard → Shard × Nat
  | 0, s => (s, 0)
  | budget + 1, s =>
    match (s.queue ref).peek with
    | none => (s, budget + 1)
    | some it =>
      if it.deadline ≤ now then expireQueue ref now budget (s.pop ref) else (s, budget + 1)

def expireFrom (now : Int) : List Nat → Nat → Shard → Shard × Bool
  | [], _, s => (s, false)
  | index :: rest, budget, s =>
    let (s, budget) := expireQueue (.ttl index) now budget s
    if budget = 0 then (s, true) else expireFrom now rest budget s

def expire (s : Shard) (now : Int) (budget : Nat) : Shard × Bool :=
  expireFrom now (List.range s.ttlQueues.length) budget s

def dropStaleLoop (ref : QueueRef) : Nat → Shard → Shard
  | 0, s => s
  | fuel + 1, s =>
    match (s.queue ref).peek with
    | none => s
    | some it => if s.current it then s else dropStaleLoop ref fuel (s.dropHead ref)

def dropStale (s : Shard) (ref : QueueRef) : Shard := dropStaleLoop ref (s.queue ref).len s

def earlier (s : Shard) (index first : Nat) : Bool :=
  match (s.queue (.ttl index)).peek, (s.queue (.ttl first)).peek with
  | some it, some best => it.deadline < best.deadline
  | _, _ => false

def evictScan : List Nat → Shard → Option Nat → Shard × Option Nat
  | [], s, first => (s, first)
  | index :: rest, s, first =>
    let s := s.dropStale (.ttl index)
    -- the first queue in list order keeps a tie
    let better := 0 < (s.queue (.ttl index)).len && first.all fun best => s.earlier index best
    evictScan rest s (if better then some index else first)

def evict (s : Shard) : Shard × Bool :=
  match evictScan (List.range s.ttlQueues.length) s none with
  | (s, some first) => (s.pop (.ttl first), true)
  | (s, none) =>
    let s := s.dropStale .forever
    if s.forever.len = 0 then (s, false) else (s.pop .forever, true)

def queued (s : Shard) : Nat := s.forever.len + (s.ttlQueues.map Queue.len).sum

def evictWhile (exceeds : Shard → Bool) : Nat → Shard → Shard
  | 0, s => s
  | fuel + 1, s =>
    if exceeds s then
      match s.evict with
      | (s, true) => evictWhile exceeds fuel s
      | (s, false) => s
    else
      s

/-- `for exceeds { if !s.evict() { return } }`. Every eviction pops an item, so one turn per queued
item is enough. -/
def evictLoop (exceeds : Shard → Bool) (s : Shard) : Shard := evictWhile exceeds s.queued s

def makeRoom (s : Shard) (now limit : Int) : Shard :=
  evictLoop (fun s => limit ≤ s.data.size) (s.expire now maxInt).1

def makeRoomBytes (s : Shard) (now limit : Int) : Shard :=
  evictLoop (fun s => limit < s.bytes) (s.expire now maxInt).1

def queueFor (s : Shard) (ttl : Int) : Shard × Nat :=
  match s.ttlQueues.findIdx? fun q => q.ttl == ttl with
  | some index => (s, index)
  | none => ({ s with ttlQueues := s.ttlQueues ++ [Queue.empty ttl] }, s.ttlQueues.length)

def keepCurrent (s : Shard) (q : Queue) : Queue :=
  ⟨q.ttl, q.rest.filter fun it => s.current it, 0, Nat.zero_le _⟩

def compact (s : Shard) : Shard :=
  let forever := s.keepCurrent s.forever
  let ttlQueues := s.ttlQueues.map s.keepCurrent
  { s with
    forever := forever
    ttlQueues := ttlQueues
    items := forever.len + (ttlQueues.map Queue.len).sum }

def dropEmptyQueues (s : Shard) : Shard :=
  { s with ttlQueues := s.ttlQueues.filter fun q => 0 < q.len }

end Shard

structure Caps where
  -- 0 is unbounded, for both
  perShard : Int
  perShardBytes : Int

namespace Shard

def roomForKey (s : Shard) (caps : Caps) (now : Int) (prev : Option Entry) : Shard :=
  if prev.isNone && 0 < caps.perShard && caps.perShard ≤ s.data.size then
    s.makeRoom now caps.perShard
  else
    s

/-- The second room-making pass of `put`. It may evict the key itself, so the entry to be replaced
is read again after it. -/
def roomForBytes (s : Shard) (caps : Caps) (key : Bytes) (val : Slice) (now : Int)
    (prev : Option Entry) : Shard × Option Entry :=
  let need : Int := val.len - (prev.elim 0 fun e => e.value.len)
  if 0 < caps.perShardBytes && 0 < need && caps.perShardBytes < s.bytes + need then
    let s := s.makeRoomBytes now (caps.perShardBytes - val.len)
    (s, s.data.lookup key)
  else
    (s, prev)

/-- `ttl > 0 && now <= math.MaxInt64-int64(ttl)`: a deadline beyond the int64 range is never
reached, so such a TTL is stored as never expiring. -/
def expires (ttl now : Int) : Bool := 0 < ttl && now ≤ maxInt64 - ttl

def place (s : Shard) (ttl now : Int) : Shard × QueueRef × Int :=
  if expires ttl now then
    let (s, index) := s.queueFor ttl
    (s, .ttl index, now + ttl)
  else
    ({ s with writes := s.writes + 1 }, .forever, -(s.writes + 1))

def push (s : Shard) (ref : QueueRef) (it : Item) : Shard :=
  { s.setQueue ref ((s.queue ref).push it) with items := s.items + 1 }

def enqueue (s : Shard) (ref : QueueRef) (it : Item) (ttl now : Int) : Shard :=
  let s := s.push ref it
  -- keeps expiry ahead of the write rate between runs of the expirer
  let s := if expires ttl now then (expireQueue ref now writeExpireBudget s).1 else s
  if 2 * s.data.size + compactSlack < s.items then s.compact else s

def store (s : Shard) (key : Bytes) (val : Slice) (ttl now : Int) (prev : Option Entry) : Shard :=
  let s := { s with bytes := s.bytes - (prev.elim 0 fun e => e.value.len) + val.len }
  let (s, ref, deadline) := s.place ttl now
  let s := { s with data := s.data.insert key ⟨val, deadline⟩ }
  -- a rewrite within one clock tick: the earlier item stays the key's current item
  if prev.any fun e => e.deadline == deadline then s else s.enqueue ref ⟨key, deadline⟩ ttl now

def put (s : Shard) (caps : Caps) (key : Bytes) (val : Slice) (ttl now : Int)
    (prev : Option Entry) : Shard :=
  let s := s.roomForKey caps now prev
  let (s, prev) := s.roomForBytes caps key val now prev
  s.store key val ttl now prev

def set (s : Shard) (caps : Caps) (key : Bytes) (val : Slice) (ttl now : Int) : Shard :=
  s.put caps key val ttl now (s.data.lookup key)

def setNX (s : Shard) (caps : Caps) (key : Bytes) (val : Slice) (ttl now : Int) : Shard × Bool :=
  let prev := s.data.lookup key
  if prev.any fun e => e.live now then (s, false) else (s.put caps key val ttl now prev, true)

def get (s : Shard) (key : Bytes) (now : Int) : Slice :=
  match s.data.lookup key with
  | none => none
  | some e => if e.live now then e.value else none

def del (s : Shard) (key : Bytes) : Shard :=
  match s.data.lookup key with
  | none => s
  | some e => { s with bytes := s.bytes - e.value.len, data := s.data.erase key }

def expirePass (s : Shard) (now : Int) : Shard × Bool :=
  match s.expire now expireBatch with
  | (s, true) => (s, true)
  | (s, false) => (s.dropEmptyQueues, false)

def expireAllLoop (now : Int) : Nat → Shard → Shard
  | 0, s => s
  | fuel + 1, s =>
    match s.expirePass now with
    | (s, true) => expireAllLoop now fuel s
    | (s, false) => s

/-- The expirer's lock holds on one shard with the clock at `now`. All but the last pop items, so
one turn more than there are items is enough. -/
def expireAll (s : Shard) (now : Int) : Shard := expireAllLoop now (s.queued + 1) s

end Shard

/-- The striped cache. The mutexes and the expirer's channels are left out: every operation below is
one lock hold. -/
structure Backend extends Caps where
  shards : Fin shardCount → Shard

structure Options where
  maxKeys : Int
  maxBytes : Int

def shardFor (key : Bytes) : Fin shardCount :=
  -- FNV-1a over the key
  let h : UInt32 := key.foldl (fun h c => (h ^^^ c.toUInt32) * 16777619) 2166136261
  ⟨h.toNat % shardCount, Nat.mod_lt _ (by decide)⟩

namespace Backend

def newWithOptions (opts : Options) : Backend where
  perShard := if 0 < opts.maxKeys then max (opts.maxKeys.tdiv shardCount) 1 else 0
  perShardBytes := if 0 < opts.maxBytes then max (opts.maxBytes.tdiv shardCount) 1 else 0
  shards := fun _ => Shard.empty

def setShard (b : Backend) (index : Fin shardCount) (s : Shard) : Backend :=
  { b with shards := Function.update b.shards index s }

def setNX (b : Backend) (key : Bytes) (val : Slice) (ttl now : Int) : Backend × Bool :=
  let (s, won) := (b.shards (shardFor key)).setNX b.toCaps key val ttl now
  (b.setShard (shardFor key) s, won)

def set (b : Backend) (key : Bytes) (val : Slice) (ttl now : Int) : Backend :=
  b.setShard (shardFor key) ((b.shards (shardFor key)).set b.toCaps key val ttl now)

def get (b : Backend) (key : Bytes) (now : Int) : Slice := (b.shards (shardFor key)).get key now

def del (b : Backend) (key : Bytes) : Backend :=
  b.setShard (shardFor key) ((b.shards (shardFor key)).del key)

def expirePass (b : Backend) (index : Fin shardCount) (now : Int) : Backend :=
  b.setShard index ((b.shards index).expirePass now).1

def expireAll (b : Backend) (now : Int) : Backend :=
  { b with shards := fun index => (b.shards index).expireAll now }

end Backend

end ShardCommon.MemoryCache
