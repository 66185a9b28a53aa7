import Mathlib.Data.Int.ModEq
import Mathlib.Data.List.Basic
import Mathlib.Tactic.Common

/-!
# Runs of Go functions

A call of a Go function returns a value, returns an error, or panics, and on the way it asks for
memory. A `Run` keeps all of it, so that indexing out of range and the sizes handed to `make` can be
reasoned about. Integers are `Int`, cut to the 64-bit range by `wrap64` where the source computes.
-/

namespace Go

/-- The signed 64-bit integer that is congruent to `z`: what Go's `int` arithmetic leaves of it. -/
def wrap64 (z : Int) : Int := (z + 2 ^ 63) % 2 ^ 64 - 2 ^ 63

def maxInt : Int := 2 ^ 63 - 1

inductive Panic where
  | indexOutOfRange
  | sliceOutOfRange
  | makeLenOutOfRange
  | nilDereference
  -- no panic of Go: the model stops where a sum or a product of lengths would wrap around
  | intOverflow
  deriving Repr, DecidableEq

inductive Outcome (ε α : Type) where
  | ok (value : α)
  | fail (error : ε)
  | panic (cause : Panic)
  deriving Repr, DecidableEq

/-- A finished call: the sizes passed to `make`, in order, and how it ended. -/
@[ext] structure Run (ε α : Type) where
  made : List Nat
  outcome : Outcome ε α
  deriving Repr, DecidableEq

/-- An outcome without its value or its error. -/
inductive Verdict where
  | accepted
  | rejected
  | panicked
  deriving DecidableEq

def Outcome.verdict {ε α : Type} : Outcome ε α → Verdict
  | ok _ => .accepted
  | fail _ => .rejected
  | panic _ => .panicked

namespace Run

variable {ε α β : Type}

def ok (value : α) : Run ε α := ⟨[], .ok value⟩

def fail (error : ε) : Run ε α := ⟨[], .fail error⟩

def panic (cause : Panic) : Run ε α := ⟨[], .panic cause⟩

def andThen (run : Run ε α) (next : α → Run ε β) : Run ε β :=
  match run.outcome with
  | .ok value => ⟨run.made ++ (next value).made, (next value).outcome⟩
  | .fail error => ⟨run.made, .fail error⟩
  | .panic cause => ⟨run.made, .panic cause⟩

instance : Monad (Run ε) where
  pure := ok
  bind := andThen

instance : LawfulMonad (Run ε) := by
  apply LawfulMonad.mk' (Run ε)
  · rintro α ⟨made, outcome⟩
    cases outcome <;> simp [Functor.map, andThen, ok]
  · intro α β value next
    simp [pure, bind, andThen, ok]
  · rintro α β γ ⟨made, outcome⟩ next last
    cases outcome <;> simp only [bind, andThen]
    cases (next _).outcome <;> simp

@[simp] theorem pure_made (value : α) : (pure value : Run ε α).made = [] := rfl

@[simp] theorem pure_outcome (value : α) : (pure value : Run ε α).outcome = .ok value := rfl

@[simp] theorem fail_made (error : ε) : (fail error : Run ε α).made = [] := rfl

@[simp] theorem fail_outcome (error : ε) : (fail error : Run ε α).outcome = .fail error := rfl

@[simp] theorem panic_outcome (cause : Panic) :
    (panic cause : Run ε α).outcome = .panic cause := rfl

@[simp] theorem fail_bind (error : ε) (next : α → Run ε β) :
    (fail error >>= next) = fail error := rfl

@[simp] theorem panic_bind (cause : Panic) (next : α → Run ε β) :
    (panic cause >>= next) = panic cause := rfl

theorem bind_eq (run : Run ε α) (next : α → Run ε β) :
    (run >>= next) = run.andThen next := rfl

theorem bind_outcome_ok {run : Run ε α} {next : α → Run ε β} {value : β} :
    (run >>= next).outcome = .ok value ↔
      ∃ first, run.outcome = .ok first ∧ (next first).outcome = .ok value := by
  rw [bind_eq, andThen]
  cases run.outcome <;> simp

theorem bind_outcome_fail {run : Run ε α} {next : α → Run ε β} {error : ε} :
    (run >>= next).outcome = .fail error ↔ run.outcome = .fail error ∨
      ∃ first, run.outcome = .ok first ∧ (next first).outcome = .fail error := by
  rw [bind_eq, andThen]
  cases run.outcome <;> simp

theorem bind_outcome_panic {run : Run ε α} {next : α → Run ε β} {cause : Panic} :
    (run >>= next).outcome = .panic cause ↔ run.outcome = .panic cause ∨
      ∃ first, run.outcome = .ok first ∧ (next first).outcome = .panic cause := by
  rw [bind_eq, andThen]
  cases run.outcome <;> simp

theorem bind_outcome_congr {run : Run ε α} {next next' : α → Run ε β}
    (h : ∀ value, run.outcome = .ok value → (next value).outcome = (next' value).outcome) :
    (run >>= next).outcome = (run >>= next').outcome := by
  simp only [bind_eq, andThen]
  cases hrun : run.outcome with
  | ok value => exact h value hrun
  | fail error => rfl
  | panic cause => rfl

theorem bind_outcome_of_ok {run : Run ε α} {value : α} (h : run.outcome = .ok value)
    (next : α → Run ε β) : (run >>= next).outcome = (next value).outcome := by
  rw [bind_eq, andThen, h]

theorem bind_made_of_ok {run : Run ε α} {value : α} (h : run.outcome = .ok value)
    (next : α → Run ε β) : (run >>= next).made = run.made ++ (next value).made := by
  rw [bind_eq, andThen, h]

/-- `if bad { return error }`. -/
def failIf (bad : Prop) [Decidable bad] (error : ε) : Run ε Unit :=
  if bad then fail error else pure ()

theorem failIf_outcome_ok {bad : Prop} [Decidable bad] {error : ε} {u : Unit} :
    (failIf bad error).outcome = .ok u ↔ ¬ bad := by
  rw [failIf]
  split <;> simp_all

theorem failIf_ne_panic {bad : Prop} [Decidable bad] {error : ε} (cause : Panic) :
    (failIf bad error).outcome ≠ .panic cause := by
  rw [failIf]
  split <;> simp

theorem failIf_neg {bad : Prop} [Decidable bad] (h : ¬ bad) (error : ε) :
    failIf bad error = pure () := if_neg h

theorem map_outcome_ok {run : Run ε α} {f : α → β} {value : β} :
    (f <$> run).outcome = .ok value ↔ ∃ first, run.outcome = .ok first ∧ f first = value := by
  rw [← bind_pure_comp, bind_outcome_ok]
  simp

/-- The error as a value. A panic goes on. -/
def attempt {ε' : Type} (run : Run ε α) : Run ε' (Except ε α) where
  made := run.made
  outcome :=
    match run.outcome with
    | .ok value => .ok (.ok value)
    | .fail error => .ok (.error error)
    | .panic cause => .panic cause

theorem attempt_outcome_of_ok {ε' : Type} {run : Run ε α} {value : α}
    (h : run.outcome = .ok value) :
    (run.attempt : Run ε' (Except ε α)).outcome = .ok (.ok value) := by
  rw [attempt, h]

theorem attempt_outcome_of_fail {ε' : Type} {run : Run ε α} {error : ε}
    (h : run.outcome = .fail error) :
    (run.attempt : Run ε' (Except ε α)).outcome = .ok (.error error) := by
  rw [attempt, h]

/-- The run with its error wrapped by a caller. -/
def mapError {ε' : Type} (f : ε → ε') (run : Run ε α) : Run ε' α where
  made := run.made
  outcome := match run.outcome with
    | .ok value => .ok value
    | .fail error => .fail (f error)
    | .panic cause => .panic cause

theorem mapError_outcome_ok {ε' : Type} {f : ε → ε'} {run : Run ε α} {value : α} :
    (run.mapError f).outcome = .ok value ↔ run.outcome = .ok value := by
  rw [mapError]
  cases run.outcome <;> simp

/-! ## Indexing, slicing and `make` -/

def index (bytes : List α) (i : Int) : Run ε α :=
  match bytes[i.toNat]? with
  | some value => if 0 ≤ i then pure value else panic .indexOutOfRange
  | none => panic .indexOutOfRange

/-- `bytes[low:high]` of a slice without spare capacity. -/
def slice (bytes : List α) (low high : Int) : Run ε (List α) :=
  if 0 ≤ low ∧ low ≤ high ∧ high ≤ bytes.length then
    pure ((bytes.drop low.toNat).take (high.toNat - low.toNat))
  else panic .sliceOutOfRange

/-- `make([]T, count)` for a count of any integer type and elements of `width` bytes. The size in
bytes must be an address; that the memory is there is taken for granted. -/
def make (width : Nat) (count : Int) : Run ε Unit :=
  if 0 ≤ count ∧ count ≤ maxInt ∧ count.toNat * width < 2 ^ 64 then ⟨[count.toNat], .ok ()⟩
  else panic .makeLenOutOfRange

/-- `a + b`, on lengths and offsets. -/
def add (a b : Nat) : Run ε Nat := if a + b < 2 ^ 63 then pure (a + b) else panic .intOverflow

/-- `a * b`, on lengths and offsets. -/
def mul (a b : Nat) : Run ε Nat := if a * b < 2 ^ 63 then pure (a * b) else panic .intOverflow

/-- `for i := 0; i < count; i++` that hands its state from round to round. -/
def iterate (round : α → Run ε α) : Nat → α → Run ε α
  | 0, state => pure state
  | count + 1, state => round state >>= iterate round count

/-- `for i := start; i < start+count; i++` collecting one value a round. -/
def collect (round : Nat → Run ε α) (start : Nat) : Nat → Run ε (List α)
  | 0 => pure []
  | count + 1 => do
    let value ← round start
    let values ← collect round (start + 1) count
    pure (value :: values)

theorem add_of_lt {a b : Nat} (h : a + b < 2 ^ 63) : (add a b : Run ε Nat) = pure (a + b) :=
  if_pos h

theorem add_outcome_ok {a b sum : Nat} :
    (add a b : Run ε Nat).outcome = .ok sum ↔ a + b < 2 ^ 63 ∧ a + b = sum := by
  rw [add]
  split <;> simp_all

theorem mul_of_lt {a b : Nat} (h : a * b < 2 ^ 63) : (mul a b : Run ε Nat) = pure (a * b) :=
  if_pos h

theorem mul_outcome_ok {a b product : Nat} :
    (mul a b : Run ε Nat).outcome = .ok product ↔ a * b < 2 ^ 63 ∧ a * b = product := by
  rw [mul]
  split <;> simp_all

/-- What every accepted round says of its item, a loop that ends well says of all items. -/
theorem forall_mem_of_foldlM_ok {round : α → β → Run ε α} {P : β → Prop}
    (hround : ∀ a b a', (round a b).outcome = .ok a' → P b) {items : List β} {a stop : α}
    (h : (items.foldlM round a).outcome = .ok stop) : ∀ b ∈ items, P b := by
  induction items generalizing a with
  | nil => nofun
  | cons b items ih =>
      rw [List.foldlM_cons, bind_outcome_ok] at h
      obtain ⟨next, hb, hrest⟩ := h
      exact List.forall_mem_cons.mpr ⟨hround a b next hb, ih hrest⟩

theorem index_outcome_ok {bytes : List α} {i : Nat} {a : α} :
    (index bytes i : Run ε α).outcome = .ok a ↔ bytes[i]? = some a := by
  rw [index, Int.toNat_natCast]
  cases bytes[i]? with
  | none => exact ⟨nofun, nofun⟩
  | some value =>
      dsimp only
      rw [if_pos (Int.natCast_nonneg i), pure_outcome]
      exact ⟨fun h => congrArg some (Outcome.ok.inj h), fun h => congrArg _ (Option.some.inj h)⟩

theorem index_of_lt {bytes : List α} {i : Nat} (hi : i < bytes.length) :
    (index bytes i : Run ε α) = pure bytes[i] := by
  simp [index, hi]

theorem slice_of_le {bytes : List α} {low high : Nat} (hlow : low ≤ high)
    (hhigh : high ≤ bytes.length) :
    (slice bytes low high : Run ε (List α)) = pure ((bytes.drop low).take (high - low)) := by
  rw [slice, if_pos (by omega)]
  simp

theorem slice_outcome_ok {bytes part : List α} {low high : Int}
    (h : (slice bytes low high : Run ε (List α)).outcome = .ok part) :
    0 ≤ low ∧ low ≤ high ∧ high ≤ bytes.length := by
  rw [slice] at h
  split at h
  · assumption
  · cases h

theorem make_of_le {width count : Nat} (h : (count : Int) ≤ maxInt ∧ count * width < 2 ^ 64) :
    (make width count : Run ε Unit) = ⟨[count], .ok ()⟩ := by
  rw [make, if_pos ⟨by omega, h⟩]
  simp

theorem bytes_fit {count : Nat} (h : (count : Int) ≤ maxInt) :
    (count : Int) ≤ maxInt ∧ count * 1 < 2 ^ 64 := by
  rw [maxInt] at h ⊢
  omega

theorem make_outcome_ok_iff {width count : Nat} {u : Unit} :
    (make width count : Run ε Unit).outcome = .ok u
      ↔ (count : Int) ≤ maxInt ∧ count * width < 2 ^ 64 := by
  rw [make]
  split <;> simp_all

theorem make_outcome_ok {width : Nat} {count : Int}
    (h : (make width count : Run ε Unit).outcome = .ok ()) :
    (make width count : Run ε Unit).made = [count.toNat] := by
  rw [make] at h ⊢
  split at h
  · rw [if_pos (by assumption)]
  · cases h

theorem collect_pure {round : Nat → Run ε α} {value : Nat → α} {count : Nat} :
    ∀ {start : Nat}, (∀ i, start ≤ i → i < start + count → round i = pure (value i)) →
      collect round start count = pure ((List.range' start count).map value) := by
  induction count with
  | zero =>
      intro start _
      rfl
  | succ count ih =>
      intro start h
      have hrest : collect round (start + 1) count =
          pure ((List.range' (start + 1) count).map value) := by
        apply ih
        intro i hlow hhigh
        exact h i (by omega) (by omega)
      rw [collect, h start (Nat.le_refl _) (by omega), hrest]
      simp [List.range'_succ]

/-! ## Runs that return no error -/

/-- The run returns a value or panics. -/
def NeverFails (run : Run ε α) : Prop := ∀ error, run.outcome ≠ .fail error

theorem neverFails_pure (value : α) : (pure value : Run ε α).NeverFails := by
  intro error h
  cases h

theorem neverFails_panic (cause : Panic) : (panic cause : Run ε α).NeverFails := by
  intro error h
  cases h

theorem NeverFails.bind {run : Run ε α} {next : α → Run ε β} (hrun : run.NeverFails)
    (hnext : ∀ value, (next value).NeverFails) : (run >>= next).NeverFails := by
  intro error h
  rcases bind_outcome_fail.mp h with hfail | ⟨value, _, hfail⟩
  · exact hrun error hfail
  · exact hnext value error hfail

theorem NeverFails.ok_of_bind_fail {run : Run ε α} {next : α → Run ε β} {error : ε}
    (hrun : run.NeverFails) (h : (run >>= next).outcome = .fail error) :
    ∃ value, run.outcome = .ok value ∧ (next value).outcome = .fail error := by
  rcases bind_outcome_fail.mp h with hfail | hok
  · exact absurd hfail (hrun error)
  · exact hok

theorem NeverFails.map {run : Run ε α} (hrun : run.NeverFails) (f : α → β) :
    (f <$> run).NeverFails := by
  rw [← bind_pure_comp]
  apply hrun.bind
  intro value
  apply neverFails_pure

theorem neverFails_slice (bytes : List α) (low high : Int) :
    (slice bytes low high : Run ε (List α)).NeverFails := by
  rw [slice]
  split
  · apply neverFails_pure
  · apply neverFails_panic

theorem neverFails_add (a b : Nat) : (add a b : Run ε Nat).NeverFails := by
  rw [add]
  split
  · apply neverFails_pure
  · apply neverFails_panic

theorem neverFails_make (width : Nat) (count : Int) : (make width count : Run ε Unit).NeverFails := by
  rw [make]
  split
  · intro error h
    cases h
  · apply neverFails_panic

theorem neverFails_collect {round : Nat → Run ε α} (h : ∀ i, (round i).NeverFails) :
    ∀ start count, (collect round start count).NeverFails
  | _, 0 => neverFails_pure []
  | start, count + 1 => by
    rw [collect]
    apply NeverFails.bind (h start)
    intro value
    apply NeverFails.bind (neverFails_collect h (start + 1) count)
    intro values
    apply neverFails_pure

/-! ## Runs that do not panic -/

/-- The run returns a value or an error. -/
def NeverPanics (run : Run ε α) : Prop := ∀ cause, run.outcome ≠ .panic cause

theorem neverPanics_pure (value : α) : (pure value : Run ε α).NeverPanics := by
  intro cause h
  cases h

theorem neverPanics_failIf (bad : Prop) [Decidable bad] (error : ε) :
    (failIf bad error).NeverPanics := fun cause => failIf_ne_panic cause

theorem NeverPanics.bind {run : Run ε α} {next : α → Run ε β} (hrun : run.NeverPanics)
    (hnext : ∀ value, run.outcome = .ok value → (next value).NeverPanics) :
    (run >>= next).NeverPanics := by
  intro cause h
  rcases bind_outcome_panic.mp h with hpanic | ⟨value, hvalue, hpanic⟩
  · exact hrun cause hpanic
  · exact hnext value hvalue cause hpanic

/-- A check in front of a run that relies on it. -/
theorem NeverPanics.check {bad : Prop} [Decidable bad] {error : ε} {next : Run ε α}
    (h : ¬ bad → next.NeverPanics) : (failIf bad error >>= fun _ => next).NeverPanics :=
  (neverPanics_failIf bad error).bind fun _ hchecked => h (failIf_outcome_ok.mp hchecked)

theorem NeverPanics.map {run : Run ε α} (hrun : run.NeverPanics) (f : α → β) :
    (f <$> run).NeverPanics := by
  rw [← bind_pure_comp]
  exact hrun.bind fun value _ => neverPanics_pure (f value)

theorem neverPanics_add {a b : Nat} (h : a + b < 2 ^ 63) : (add a b : Run ε Nat).NeverPanics := by
  rw [add_of_lt h]
  exact neverPanics_pure _

theorem neverPanics_mul {a b : Nat} (h : a * b < 2 ^ 63) : (mul a b : Run ε Nat).NeverPanics := by
  rw [mul_of_lt h]
  exact neverPanics_pure _

theorem neverPanics_index {bytes : List α} {i : Nat} (h : i < bytes.length) :
    (index bytes i : Run ε α).NeverPanics := by
  rw [index_of_lt h]
  exact neverPanics_pure _

theorem neverPanics_slice {bytes : List α} {low high : Nat} (hlow : low ≤ high)
    (hhigh : high ≤ bytes.length) : (slice bytes low high : Run ε (List α)).NeverPanics := by
  rw [slice_of_le hlow hhigh]
  exact neverPanics_pure _

theorem neverPanics_make {width count : Nat} (h : (count : Int) ≤ maxInt ∧ count * width < 2 ^ 64) :
    (make width count : Run ε Unit).NeverPanics := by
  intro cause hpanic
  rw [make_of_le h] at hpanic
  cases hpanic

theorem NeverPanics.iterate {round : α → Run ε α} (hround : ∀ a, (round a).NeverPanics)
    (count : Nat) (a : α) : (Run.iterate round count a).NeverPanics := by
  induction count generalizing a with
  | zero => exact neverPanics_pure a
  | succ count ih => exact (hround a).bind fun next _ => ih next

/-- A loop whose rounds are safe in states that meet an invariant. -/
theorem NeverPanics.foldlM {round : α → β → Run ε α} {I : α → Prop}
    (hsafe : ∀ a b, I a → (round a b).NeverPanics)
    (hkeep : ∀ a b a', I a → (round a b).outcome = .ok a' → I a') {items : List β} {a : α}
    (ha : I a) : (items.foldlM round a).NeverPanics := by
  induction items generalizing a with
  | nil => exact neverPanics_pure a
  | cons b items ih =>
      rw [List.foldlM_cons]
      exact (hsafe a b ha).bind fun a' hround => ih (hkeep a b a' ha hround)

/-! ## Runs that fail -/

def Fails (run : Run ε α) : Prop := ∃ error, run.outcome = .fail error

theorem Fails.verdict {run : Run ε α} (h : run.Fails) : run.outcome.verdict = .rejected := by
  obtain ⟨error, herror⟩ := h
  rw [herror]
  rfl

theorem fails_failIf {bad : Prop} [Decidable bad] (h : bad) (error : ε) : (failIf bad error).Fails := by
  rw [failIf, if_pos h]
  exact ⟨error, rfl⟩

theorem Fails.andThen {run : Run ε α} (h : run.Fails) (next : α → Run ε β) :
    (run >>= next).Fails := by
  obtain ⟨error, herror⟩ := h
  exact ⟨error, bind_outcome_fail.mpr (.inl herror)⟩

/-- Whatever the first run returns, the second one fails. -/
theorem Fails.bind {run : Run ε α} {next : α → Run ε β} (hrun : run.NeverPanics)
    (hnext : ∀ value, run.outcome = .ok value → (next value).Fails) : (run >>= next).Fails := by
  cases hvalue : run.outcome with
  | ok value =>
      obtain ⟨error, herror⟩ := hnext value hvalue
      exact ⟨error, bind_outcome_fail.mpr (.inr ⟨value, hvalue, herror⟩)⟩
  | fail error => exact Fails.andThen ⟨error, hvalue⟩ next
  | panic cause => exact absurd hvalue (hrun cause)

theorem Fails.check {bad : Prop} [Decidable bad] {error : ε} {next : Run ε α}
    (h : ¬ bad → next.Fails) : (failIf bad error >>= fun _ => next).Fails :=
  Fails.bind (neverPanics_failIf bad error) fun _ hchecked => h (failIf_outcome_ok.mp hchecked)

end Run

/-! ## 64-bit arithmetic -/

theorem wrap64_of_range {z : Int} (hlow : -2 ^ 63 ≤ z) (hhigh : z < 2 ^ 63) : wrap64 z = z := by
  rw [wrap64]
  omega

theorem wrap64_add_wrap64 (a b : Int) : wrap64 (a + wrap64 b) = wrap64 (a + b) := by
  simp only [wrap64]
  omega

theorem wrap64_wrap64_add (a b : Int) : wrap64 (wrap64 a + b) = wrap64 (a + b) := by
  simp only [wrap64]
  omega

theorem wrap64_wrap64_mul (a b : Int) : wrap64 (wrap64 a * b) = wrap64 (a * b) := by
  have hcong : wrap64 a ≡ a [ZMOD 2 ^ 64] := by
    rw [wrap64, Int.ModEq]
    omega
  have hmul : wrap64 a * b % 2 ^ 64 = a * b % 2 ^ 64 := hcong.mul_right b
  generalize wrap64 a * b = x at hmul
  generalize a * b = y at hmul
  simp only [wrap64]
  omega

end Go
