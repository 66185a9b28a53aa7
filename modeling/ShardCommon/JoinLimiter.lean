import ShardCommon.Lib.GoChan

/-!
# The join limiter

`Limiter` of `netjoin/netjoin.go`: a bucket of tokens that a goroutine refills at every tick. The
goroutine, the callers of `Acquire` and of `Stop`, and the clock take turns in any order. Times are
nanoseconds since the ticker was made.
-/

namespace ShardCommon.Netjoin

open Go

/-- A `time.Ticker`. It fires at the multiples of its interval and keeps one tick for its receiver;
further ones are dropped while that waits. -/
structure Ticker where
  interval : Nat
  fired : Nat
  pending : Bool
  running : Bool
  now : Nat
  positive : 0 < interval
  reached : fired * interval ≤ now
  due : running = true → now < (fired + 1) * interval

/-- `time.NewTicker`; it panics on an interval that is not positive. -/
def newTicker (interval : Nat) : Option Ticker :=
  if h : 0 < interval then
    some ⟨interval, 0, false, true, 0, h, by omega, fun _ => by omega⟩
  else none

namespace Ticker

/-- Time passes, but not up to the next tick. -/
def elapse (t : Ticker) (now : Nat) (hnow : t.now ≤ now)
    (hdue : t.running = true → now < (t.fired + 1) * t.interval) : Ticker :=
  { t with now, reached := Nat.le_trans t.reached hnow, due := hdue }

/-- Time passes up to the next tick. -/
def fire (t : Ticker) : Ticker where
  interval := t.interval
  fired := t.fired + 1
  pending := true
  running := t.running
  now := (t.fired + 1) * t.interval
  positive := t.positive
  reached := Nat.le_refl _
  due := fun _ => Nat.mul_lt_mul_of_pos_right (Nat.lt_succ_self _) t.positive

def take (t : Ticker) : Ticker := { t with pending := false }

/-- `Stop`. Whether a tick that waits is still handed out depends on the version of Go. -/
def stop (t : Ticker) (keeps : Bool) : Ticker :=
  { t with pending := t.pending && keeps, running := false, due := by intro h; cases h }

end Ticker

/-- Where the goroutine `refill` stands: at the outer `select`, at the inner one, or at its end. -/
inductive Refill where
  | selecting
  | ticked
  | returned
  deriving DecidableEq

/-- A limiter. The channel `stop` is only ever closed. -/
structure Limiter where
  bucket : Chan Unit
  ticker : Ticker
  stop : Chan Unit
  refill : Refill

/-- The burst: one blocking send after another. -/
def prefill (bucket : Chan Unit) : Nat → Chan Unit
  | 0 => bucket
  | count + 1 =>
    match bucket.trySend () with
    | .sent next => prefill next count
    | _ => bucket

def second : Int := 1000000000

inductive NewLimiter where
  | noLimit
  | limiter (l : Limiter)
  | panics

/-- `NewLimiter`. The division truncates. -/
def newLimiter (perSecond : Int) : NewLimiter :=
  if perSecond ≤ 0 then .noLimit
  else
    match newTicker (second / perSecond).toNat with
    | none => .panics
    | some ticker =>
      .limiter ⟨prefill (Chan.make perSecond.toNat) perSecond.toNat, ticker, Chan.make 0, .selecting⟩

inductive LimiterEvent where
  | passed
  | fired
  | ticked
  | refilled
  | dropped
  | returned
  | acquired
  | cancelled
  | stopClosed
  | stopPanicked
  | tickerStopped
  deriving DecidableEq

namespace Limiter

/-- The inner `select` of `refill`. Nobody closes the bucket. -/
def offer (l : Limiter) : LimiterEvent × Limiter :=
  match l.bucket.trySend () with
  | .sent bucket => (.refilled, { l with bucket, refill := .selecting })
  | _ => (.dropped, { l with refill := .selecting })

/-- `Acquire` with a token; `none` while it waits. -/
def acquire (l : Limiter) : Option Limiter :=
  match l.bucket.receive with
  | .value _ bucket => some { l with bucket }
  | _ => none

/-- `close(l.stop)`. -/
def closeStop (l : Limiter) : LimiterEvent × Limiter :=
  if l.stop.closed then (.stopPanicked, l) else (.stopClosed, { l with stop := l.stop.close })

/-- One step of one party. `Acquire` may return the error of its context at any time. -/
inductive Step : Limiter → LimiterEvent → Limiter → Prop
  | pass (l : Limiter) (now : Nat) (hnow : l.ticker.now ≤ now)
      (hdue : l.ticker.running = true → now < (l.ticker.fired + 1) * l.ticker.interval) :
      Step l .passed { l with ticker := l.ticker.elapse now hnow hdue }
  | fire (l : Limiter) (h : l.ticker.running = true) :
      Step l .fired { l with ticker := l.ticker.fire }
  | tick (l : Limiter) (h : l.refill = .selecting) (htick : l.ticker.pending = true) :
      Step l .ticked { l with ticker := l.ticker.take, refill := .ticked }
  | offer (l : Limiter) (h : l.refill = .ticked) : Step l l.offer.1 l.offer.2
  | leave (l : Limiter) (h : l.refill = .selecting) (hstop : l.stop.closed = true) :
      Step l .returned { l with refill := .returned }
  | acquire (l l' : Limiter) (h : l.acquire = some l') : Step l .acquired l'
  | cancel (l : Limiter) : Step l .cancelled l
  | close (l : Limiter) : Step l l.closeStop.1 l.closeStop.2
  | stopTicker (l : Limiter) (keeps : Bool) :
      Step l .tickerStopped { l with ticker := l.ticker.stop keeps }

end Limiter

end ShardCommon.Netjoin
