import ShardCommon.Lib.GoChan
import ShardCommon.TxidSet

/-!
# The claim store with its queue of marks

`New`, `Mark`, `markLoop` and `Close` of `txidset/txidset.go`. A mark updates the local set and
offers a job to a buffered channel; workers take the jobs and write them to the backend. Every
definition below that changes a store is one atomic step of one goroutine, and returns what it did.
-/

namespace ShardCommon.TxidSet

open Go

/-- The parameters of `New`; `hasBackend` says whether a backend is injected. -/
structure Config where
  hasBackend : Bool
  redisAddr : String
  ttl : Int
  localCapacity : Int
  markQueueDepth : Int
  markWorkers : Int
  dialTimeout : Int
  opTimeout : Int
  deriving DecidableEq

structure RedisOptions where
  addr : String
  dialTimeout : Int
  opTimeout : Int
  deriving DecidableEq

inductive NewError (ε : Type) where
  | badTTL (ttl : Int)
  | redis (error : ε)
  deriving DecidableEq

/-- The text of the error, for a way to print durations and errors of the Redis client. -/
def NewError.text {ε : Type} (duration : Int → String) (error : ε → String) : NewError ε → String
  | badTTL ttl => "txidset: TTL must be > 0 (got " ++ duration ttl ++ ")"
  | redis e => "txidset: " ++ error e

structure MarkJob where
  pre : List UInt8
  key : List UInt8
  ttl : Int
  deriving Repr, DecidableEq

/-- Where a goroutine of `markLoop` is: at the head of its loop, in its call of the backend, or past
the end of the closed channel. -/
inductive Worker where
  | receiving
  | calling (job : MarkJob)
  | stopped
  deriving Repr, DecidableEq

/-- A running store: its goroutines and the channel they share beside what claims read. -/
structure Node extends Store where
  ownBackend : Bool
  opTimeout : Int
  markCh : Chan MarkJob
  workers : List Worker
  stopped : Bool

def millisecond : Int := 1000000

def orDefault (value default : Int) : Int := if value ≤ 0 then default else value

/-- The store `New` builds, with its workers started. -/
def Node.fresh (cfg : Config) (hasBackend ownBackend : Bool) : Node where
  localSet := .new (orDefault cfg.localCapacity defaultLocalCapacity) cfg.ttl
  hasBackend := hasBackend
  defaultTTL := cfg.ttl
  ownBackend := ownBackend
  opTimeout := orDefault cfg.opTimeout (50 * millisecond)
  markCh := .make (orDefault cfg.markQueueDepth 4096).toNat
  workers := List.replicate (orDefault cfg.markWorkers 2).toNat .receiving
  stopped := false

/-- `New`; `dial` is the outcome of building the Redis backend. -/
def new {ε : Type} (dial : RedisOptions → Option ε) (cfg : Config) : Except (NewError ε) Node :=
  if cfg.ttl ≤ 0 then .error (.badTTL cfg.ttl)
  else if cfg.hasBackend then .ok (.fresh cfg true false)
  else if cfg.redisAddr ≠ "" then
    match dial ⟨cfg.redisAddr, orDefault cfg.dialTimeout (200 * millisecond),
        orDefault cfg.opTimeout (50 * millisecond)⟩ with
    | some error => .error (.redis error)
    | none => .ok (.fresh cfg true true)
  else .ok (.fresh cfg false false)

/-- What the recorder hears of a mark. -/
inductive MarkEvent where
  | set
  | existed
  | error
  | dropped
  deriving Repr, DecidableEq

/-- What a step did to the marks of a store. -/
inductive MarkAction (ε : Type) where
  | queued (job : MarkJob)
  | dropped (pre : List UInt8)
  | panicked (pre : List UInt8)
  | received (job : MarkJob)
  | answered (job : MarkJob) (reply : SetNXReply ε)
  | left
  | closed
  deriving Repr, DecidableEq

def markReply {ε : Type} : SetNXReply ε → MarkEvent
  | .created => .set
  | .existed => .existed
  | .failed _ => .error

/-- The call of the recorder that goes with an action, if any. -/
def MarkAction.event {ε : Type} : MarkAction ε → Option (List UInt8 × MarkEvent)
  | dropped pre => some (pre, .dropped)
  | answered job reply => some (job.pre, markReply reply)
  | _ => none

def MarkJob.request (job : MarkJob) : SetNXRequest := ⟨job.key, Store.oneVal, job.ttl⟩

namespace Node

variable {ε : Type}

def job (n : Node) (pre : List UInt8) (txid : Key) : MarkJob :=
  ⟨pre, (n.toStore.request pre txid).key, n.defaultTTL⟩

/-- The first half of `Mark`, which is that of `Claim` too. -/
def touch (n : Node) (txid : Key) (now : Int) : Node :=
  { n with localSet := (n.localSet.seenAndAdd txid now).2 }

/-- The second half of `Mark`. -/
def offer (n : Node) (pre : List UInt8) (txid : Key) : MarkAction ε × Node :=
  if n.hasBackend then
    match n.markCh.trySend (n.job pre txid) with
    | .sent ch => (.queued (n.job pre txid), { n with markCh := ch })
    | .full => (.dropped pre, n)
    | .panics => (.panicked pre, n)
  else (.dropped pre, n)

def setWorker (n : Node) (i : Nat) (w : Worker) : Node := { n with workers := n.workers.set i w }

/-- The head of `markLoop` in worker `i`, unless it has to wait. -/
def receive (n : Node) (i : Nat) : Option (MarkAction ε × Node) :=
  match n.workers[i]? with
  | some .receiving =>
    match n.markCh.receive with
    | .value job ch => some (.received job, { n with markCh := ch }.setWorker i (.calling job))
    | .closed => some (.left, n.setWorker i .stopped)
    | .waits => none
  | _ => none

/-- The rest of a turn of `markLoop` in worker `i`, once the backend has replied. -/
def answer (n : Node) (i : Nat) (reply : SetNXReply ε) : Option (MarkAction ε × Node) :=
  match n.workers[i]? with
  | some (.calling job) => some (.answered job reply, n.setWorker i .receiving)
  | _ => none

/-- `Close` up to its wait for the workers; a second call goes on to the wait. -/
def beginClose (n : Node) : Node :=
  if n.stopped then n else { n with stopped := true, markCh := n.markCh.close }

/-- The wait of `Close` is over. -/
def closeReturns (n : Node) : Bool := n.stopped && n.workers.all (· == .stopped)

/-- `Close` closes the backend as well. -/
def closesBackend (n : Node) : Bool := n.ownBackend && n.hasBackend

/-- `Healthy`, for what the backend answers to its probe. -/
def healthy (n : Node) (probe : Bool) : Bool := if n.hasBackend then probe else true

end Node

end ShardCommon.TxidSet
