import Mathlib.Logic.Function.Basic

/-!
# The log throttle

`logging/throttle.go`: one line for each key and window, with the number of lines held back since the
one before. A call holds the lock from the reading of the clock to its answer, so calls are atomic and
their times are those of the order they took the lock in. Times are nanoseconds.
-/

namespace ShardCommon.Logging

structure ThrottleEntry where
  windowStart : Int
  suppressed : UInt64
  deriving DecidableEq

structure Throttle where
  window : Int
  state : String → Option ThrottleEntry

def newThrottle (window : Int) : Throttle := ⟨window, fun _ => none⟩

/-- `emit` and `suppressed`. -/
structure Verdict where
  emit : Bool
  suppressed : UInt64
  deriving DecidableEq

namespace Throttle

def put (t : Throttle) (key : String) (e : ThrottleEntry) : Throttle :=
  { t with state := Function.update t.state key (some e) }

def allow (t : Throttle) (key : String) (now : Int) : Verdict × Throttle :=
  match t.state key with
  | none => (⟨true, 0⟩, t.put key ⟨now, 0⟩)
  | some e =>
    if t.window ≤ now - e.windowStart then (⟨true, e.suppressed⟩, t.put key ⟨now, 0⟩)
    else (⟨false, 0⟩, t.put key ⟨e.windowStart, e.suppressed + 1⟩)

/-- A call and its answer. -/
structure Call where
  key : String
  now : Int
  verdict : Verdict
  deriving DecidableEq

/-- The calls of a run with their answers, in the order they took the lock in. -/
def answers (t : Throttle) : List (String × Int) → List Call
  | [] => []
  | (key, now) :: rest => ⟨key, now, (t.allow key now).1⟩ :: (t.allow key now).2.answers rest

end Throttle

end ShardCommon.Logging
