import Mathlib.Logic.Function.Basic
import Mathlib.Order.Basic

/-!
# A map with a lifetime on every key

The plain meaning of a cache with TTLs: each key holds its last write and the time of it, and the
write is present until its lifetime is over. A lifetime that is not positive never ends, nor does
one that would end beyond the last time the clock can show, the horizon. Nothing expires by being
removed: a write that is over stays in the map and is not present.
-/

namespace TtlMap

universe u v

variable {K : Type u} {V : Type v}

structure Write (V : Type v) where
  value : V
  time : Int
  ttl : Int

def Write.present (horizon : Int) (w : Write V) (now : Int) : Bool :=
  w.ttl ≤ 0 || horizon < w.time + w.ttl || now < w.time + w.ttl

theorem Write.present_iff {horizon : Int} {w : Write V} {now : Int} :
    w.present horizon now = true
      ↔ w.ttl ≤ 0 ∨ horizon < w.time + w.ttl ∨ now < w.time + w.ttl := by
  simp [present, or_assoc]

/-- What is over stays over. -/
theorem Write.not_present_of_le {horizon now later : Int} {w : Write V} (hle : now ≤ later)
    (hover : w.present horizon now = false) : w.present horizon later = false := by
  rw [Bool.eq_false_iff, ne_eq, present_iff] at hover ⊢
  omega

def find (horizon : Int) (m : K → Option (Write V)) (key : K) (now : Int) : Option V :=
  (m key).bind fun w => if w.present horizon now then some w.value else none

variable [DecidableEq K]

def set (m : K → Option (Write V)) (key : K) (value : V) (ttl now : Int) : K → Option (Write V) :=
  Function.update m key (some ⟨value, now, ttl⟩)

def setNX (horizon : Int) (m : K → Option (Write V)) (key : K) (value : V) (ttl now : Int) :
    (K → Option (Write V)) × Bool :=
  if (m key).any fun w => w.present horizon now then (m, false)
  else (set m key value ttl now, true)

def del (m : K → Option (Write V)) (key : K) : K → Option (Write V) := Function.update m key none

end TtlMap
