import ShardCommon.Lib.BufferLayout

/-!
# Runs that stay in the front of a buffer

A decoder that first finds out how long its datagram is may read the fields without looking at the
length again. It is safe because no read reaches past the length it found, and for the same reason
it cannot tell the datagram from one with other bytes after it.
-/

namespace Go

variable {α β γ ε : Type} {buf other : List α} {n : Nat}

/-- On `buf` the run does not panic, and what stands at or after `n` makes no difference to it. -/
structure ReadsBelow (n : Nat) (buf : List α) (run : List α → Run ε β) : Prop where
  safe : (run buf).NeverPanics
  front : ∀ other, other.take n = buf.take n → run other = run buf

theorem le_length_of_take_eq (hn : n ≤ buf.length) (h : other.take n = buf.take n) :
    n ≤ other.length := by
  have hlength := congrArg List.length h
  rw [List.length_take, List.length_take] at hlength
  omega

theorem ReadsBelow.append {run : List α → Run ε β} (h : ReadsBelow n buf run) (hn : n ≤ buf.length)
    (trailing : List α) : run (buf.take n ++ trailing) = run buf := by
  apply h.front
  rw [List.take_append_of_le_length (by rw [List.length_take]; omega), List.take_take, Nat.min_self]

theorem readsBelow_of_neverPanics {run : Run ε β} (h : run.NeverPanics) :
    ReadsBelow n buf fun _ => run where
  safe := h
  front _ _ := rfl

theorem readsBelow_pure (value : β) : ReadsBelow n buf fun _ => (pure value : Run ε β) :=
  readsBelow_of_neverPanics (Run.neverPanics_pure value)

theorem ReadsBelow.bind {run : List α → Run ε β} {next : β → List α → Run ε γ}
    (hrun : ReadsBelow n buf run)
    (hnext : ∀ value, (run buf).outcome = .ok value → ReadsBelow n buf (next value)) :
    ReadsBelow n buf fun b => run b >>= fun value => next value b where
  safe := hrun.safe.bind fun value hvalue => (hnext value hvalue).safe
  front other hother := by
    rw [hrun.front other hother, Run.bind_eq, Run.bind_eq, Run.andThen, Run.andThen]
    cases hvalue : (run buf).outcome with
    | ok value =>
        dsimp only
        rw [(hnext value hvalue).front other hother]
    | fail error => rfl
    | panic cause => rfl

/-- After a read whose value is known. -/
theorem ReadsBelow.bind_of_ok {run : List α → Run ε β} {next : β → List α → Run ε γ} {value : β}
    (hrun : ReadsBelow n buf run) (hvalue : (run buf).outcome = .ok value)
    (hnext : ReadsBelow n buf (next value)) :
    ReadsBelow n buf fun b => run b >>= fun value => next value b := by
  refine hrun.bind fun value' hvalue' => ?_
  obtain rfl : value = value' := Outcome.ok.inj (hvalue.symm.trans hvalue')
  exact hnext

/-- A check that does not look at the buffer, in front of a run that relies on it. -/
theorem ReadsBelow.check {bad : Prop} [Decidable bad] {error : ε} {next : List α → Run ε β}
    (h : ¬ bad → ReadsBelow n buf next) :
    ReadsBelow n buf fun b => Run.failIf bad error >>= fun _ => next b :=
  (readsBelow_of_neverPanics (Run.neverPanics_failIf bad error)).bind fun _ hchecked =>
    h (Run.failIf_outcome_ok.mp hchecked)

theorem ReadsBelow.map {run : List α → Run ε β} (hrun : ReadsBelow n buf run) (f : β → γ) :
    ReadsBelow n buf fun b => f <$> run b where
  safe := hrun.safe.map f
  front other hother := by rw [hrun.front other hother]

section Bounded

variable (hn : n ≤ buf.length)

include hn

/-- `if len(buf) < room` after the length has been found to suffice. -/
theorem readsBelow_room {room : Nat} (hroom : room ≤ n) (error : ε) :
    ReadsBelow n buf fun b => Run.failIf (b.length < room) error where
  safe := Run.neverPanics_failIf _ error
  front other hother := by
    have hlong := le_length_of_take_eq hn hother
    rw [Run.failIf_neg (by omega), Run.failIf_neg (by omega)]

theorem readsBelow_index {i : Nat} (hi : i < n) :
    ReadsBelow n buf fun b => (Run.index b i : Run ε α) where
  safe := Run.neverPanics_index (Nat.lt_of_lt_of_le hi hn)
  front other hother := by
    have hsame : other[i]? = buf[i]? := by
      rw [← List.getElem?_take_of_lt hi, hother, List.getElem?_take_of_lt hi]
    rw [Run.index, Run.index, Int.toNat_natCast, hsame]

theorem readsBelow_slice {low high : Nat} (hlow : low ≤ high) (hhigh : high ≤ n) :
    ReadsBelow n buf fun b => (Run.slice b low high : Run ε (List α)) where
  safe := Run.neverPanics_slice hlow (Nat.le_trans hhigh hn)
  front other hother := by
    have hlong := le_length_of_take_eq hn hother
    have hsame : other.take high = buf.take high := by
      rw [← Nat.min_eq_left hhigh, ← List.take_take, hother, List.take_take]
    rw [Run.slice_of_le hlow (by omega), Run.slice_of_le hlow (by omega), ← List.drop_take,
      ← List.drop_take, hsame]

end Bounded

end Go
