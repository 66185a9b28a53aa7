import ShardCommon.Lib.GoRun

/-!
# Walks over a stream

A delimiter walks a buffer from an offset to the end of an object, on a buffer that may end too
early. A walk that streams gives an answer that more bytes do not change, and says that the buffer
is short on every cut of an object it accepts. The property passes from the steps of a walk to the
walk, so that a grammar is checked field by field.
-/

namespace Go

variable {ε α β ρ σ : Type}

/-- The walk reads forward: its answer rests on the bytes before the offset it reaches, any cut in
front of that offset is `short`, and another error stays when bytes follow. `next` is the offset in
what the walk returns. -/
structure Streams (short : ε) (next : ρ → Nat) (walk : List α → Nat → Run ε ρ) : Prop where
  within : ∀ {buf off r}, off ≤ buf.length → (walk buf off).outcome = .ok r →
    off ≤ next r ∧ next r ≤ buf.length
  settled : ∀ {buf other off r}, off ≤ buf.length → (walk buf off).outcome = .ok r →
    other.take (next r) = buf.take (next r) → (walk other off).outcome = .ok r
  short_take : ∀ {buf off r k}, off ≤ buf.length → (walk buf off).outcome = .ok r → off ≤ k →
    k < next r → (walk (buf.take k) off).outcome = .fail short
  error_append : ∀ {buf more off e}, off ≤ buf.length → (walk buf off).outcome = .fail e →
    e ≠ short → (walk (buf ++ more) off).outcome = .fail e

/-- A walk that succeeds has passed at least one element. -/
def Moves (next : ρ → Nat) (walk : List α → Nat → Run ε ρ) : Prop :=
  ∀ buf off r, off ≤ buf.length → (walk buf off).outcome = .ok r → off < next r

/-- A field of a width known in advance: the buffer must reach its end, then it is read. -/
def Run.field (short : ε) (width : Nat) (read : List α → ρ) (buf : List α) (off : Nat) :
    Run ε (ρ × Nat) := do
  let stop ← Run.add off width
  Run.failIf (buf.length < stop) short
  pure (read ((buf.drop off).take width), stop)

section Field

variable {short : ε} {width : Nat} {read : List α → ρ} {buf : List α} {off : Nat}

theorem Run.field_of_lt (hsum : off + width < 2 ^ 63) (h : buf.length < off + width) :
    Run.field short width read buf off = Run.fail short := by
  rw [Run.field, Run.add_of_lt hsum, pure_bind, Run.failIf, if_pos h, Run.fail_bind]

theorem Run.field_of_le (hsum : off + width < 2 ^ 63) (h : off + width ≤ buf.length) :
    Run.field short width read buf off =
      Pure.pure (read ((buf.drop off).take width), off + width) := by
  rw [Run.field, Run.add_of_lt hsum, pure_bind, Run.failIf_neg (by omega), pure_bind]

theorem Run.field_outcome_ok {r : ρ × Nat}
    (h : (Run.field short width read buf off).outcome = .ok r) :
    off + width < 2 ^ 63 ∧ off + width ≤ buf.length ∧
      r = (read ((buf.drop off).take width), off + width) := by
  obtain ⟨stop, hstop, h⟩ := Run.bind_outcome_ok.mp h
  obtain ⟨hsum, rfl⟩ := Run.add_outcome_ok.mp hstop
  obtain ⟨⟨⟩, hreach, h⟩ := Run.bind_outcome_ok.mp h
  cases h
  exact ⟨hsum, Nat.le_of_not_lt (Run.failIf_outcome_ok.mp hreach), rfl⟩

theorem Run.field_outcome_fail {e : ε}
    (h : (Run.field short width read buf off).outcome = .fail e) : e = short := by
  by_cases hsum : off + width < 2 ^ 63
  · by_cases hlt : buf.length < off + width
    · rw [Run.field_of_lt hsum hlt] at h
      cases h
      rfl
    · rw [Run.field_of_le hsum (Nat.le_of_not_lt hlt)] at h
      cases h
  · rw [Run.field, Run.add, if_neg hsum] at h
    cases h

end Field

namespace Streams

variable {short : ε} {next : ρ → Nat} {walk other : List α → Nat → Run ε ρ}

theorem congr (hwalk : Streams short next walk)
    (h : ∀ buf off, (other buf off).outcome = (walk buf off).outcome) :
    Streams short next other where
  within {buf off r} hoff hr := hwalk.within hoff (h buf off ▸ hr)
  settled {buf buf' off r} hoff hr heq := by
    rw [h] at hr ⊢
    exact hwalk.settled hoff hr heq
  short_take {buf off r k} hoff hr hk hcut := by
    rw [h] at hr ⊢
    exact hwalk.short_take hoff hr hk hcut
  error_append {buf more off e} hoff he hne := by
    rw [h] at he ⊢
    exact hwalk.error_append hoff he hne

theorem pure {result : Nat → ρ} (hnext : ∀ off, next (result off) = off) :
    Streams short next (fun (_ : List α) off => (Pure.pure (result off) : Run ε ρ)) where
  within hoff hr := by
    cases hr
    rw [hnext]
    exact ⟨Nat.le_refl _, hoff⟩
  settled _ hr _ := hr
  short_take {buf off r k} _ hr hk hcut := by
    cases hr
    rw [hnext] at hcut
    omega
  error_append _ he _ := he

theorem field {width : Nat} {read : List α → ρ} :
    Streams short Prod.snd (Run.field short width read) := by
  refine ⟨?_, ?_, ?_, ?_⟩
  · intro buf off r hoff hr
    obtain ⟨-, hwidth, rfl⟩ := Run.field_outcome_ok hr
    exact ⟨Nat.le_add_right _ _, hwidth⟩
  · intro buf buf' off r hoff hr heq
    obtain ⟨hsum, hwidth, rfl⟩ := Run.field_outcome_ok hr
    have hlength := congrArg List.length heq
    rw [List.length_take, List.length_take] at hlength
    have hpart : (buf'.drop off).take width = (buf.drop off).take width := by
      rw [List.take_drop, List.take_drop, heq]
    rw [Run.field_of_le hsum (by omega), hpart]
    rfl
  · intro buf off r k hoff hr hk hcut
    obtain ⟨hsum, hwidth, rfl⟩ := Run.field_outcome_ok hr
    rw [Run.field_of_lt hsum (by rw [List.length_take]; omega)]
    rfl
  · intro buf more off e hoff he hne
    exact absurd (Run.field_outcome_fail he) hne

theorem field_moves {width : Nat} {read : List α → ρ} (hwidth : 0 < width) :
    Moves Prod.snd (Run.field short width read) := by
  intro buf off r _ hr
  obtain ⟨-, -, rfl⟩ := Run.field_outcome_ok hr
  exact Nat.lt_add_of_pos_right hwidth

theorem bind {last : σ → Nat} {rest : ρ → List α → Nat → Run ε σ}
    (hwalk : Streams short next walk) (hrest : ∀ r, Streams short last (rest r)) :
    Streams short last (fun buf off => walk buf off >>= fun r => rest r buf (next r)) := by
  refine ⟨?_, ?_, ?_, ?_⟩
  · intro buf off s hoff hs
    obtain ⟨r, hr, hs⟩ := Run.bind_outcome_ok.mp hs
    have hfirst := hwalk.within hoff hr
    have hsecond := (hrest r).within hfirst.2 hs
    omega
  · intro buf buf' off s hoff hs heq
    obtain ⟨r, hr, hs⟩ := Run.bind_outcome_ok.mp hs
    have hfirst := hwalk.within hoff hr
    have hsecond := (hrest r).within hfirst.2 hs
    have heq' : buf'.take (next r) = buf.take (next r) := by
      have htake := congrArg (List.take (next r)) heq
      rwa [List.take_take, List.take_take, Nat.min_eq_left hsecond.1] at htake
    exact Run.bind_outcome_ok.mpr
      ⟨r, hwalk.settled hoff hr heq', (hrest r).settled hfirst.2 hs heq⟩
  · intro buf off s k hoff hs hk hcut
    obtain ⟨r, hr, hs⟩ := Run.bind_outcome_ok.mp hs
    have hfirst := hwalk.within hoff hr
    have hsecond := (hrest r).within hfirst.2 hs
    apply Run.bind_outcome_fail.mpr
    -- the cut falls into the first part of the walk or behind it
    by_cases hpart : k < next r
    · exact Or.inl (hwalk.short_take hoff hr hk hpart)
    · refine Or.inr ⟨r, ?_, (hrest r).short_take hfirst.2 hs (by omega) hcut⟩
      apply hwalk.settled hoff hr
      rw [List.take_take, Nat.min_eq_left (by omega)]
  · intro buf more off e hoff he hne
    apply Run.bind_outcome_fail.mpr
    rcases Run.bind_outcome_fail.mp he with he | ⟨r, hr, he⟩
    · exact Or.inl (hwalk.error_append hoff he hne)
    · have hfirst := hwalk.within hoff hr
      refine Or.inr ⟨r, ?_, (hrest r).error_append hfirst.2 he hne⟩
      apply hwalk.settled hoff hr
      rw [List.take_append_of_le_length hfirst.2]

theorem bind_moves {last : σ → Nat} {rest : ρ → List α → Nat → Run ε σ}
    (hwalk : Streams short next walk) (hmoves : Moves next walk)
    (hrest : ∀ r, Streams short last (rest r)) :
    Moves last (fun buf off => walk buf off >>= fun r => rest r buf (next r)) := by
  intro buf off s hoff hs
  obtain ⟨r, hr, hs⟩ := Run.bind_outcome_ok.mp hs
  have hfirst := hmoves buf off r hoff hr
  have hsecond := (hrest r).within (hwalk.within hoff hr).2 hs
  omega

/-- A step that looks at the offset and at what was read before, not at the buffer: a check, or an
integer computation. -/
theorem lift {run : Nat → Run ε β} {rest : β → List α → Nat → Run ε ρ}
    (hrest : ∀ b, Streams short next (rest b)) :
    Streams short next (fun buf off => run off >>= fun b => rest b buf off) := by
  refine ⟨?_, ?_, ?_, ?_⟩
  · intro buf off r hoff hr
    obtain ⟨b, hb, hr⟩ := Run.bind_outcome_ok.mp hr
    exact (hrest b).within hoff hr
  · intro buf buf' off r hoff hr heq
    obtain ⟨b, hb, hr⟩ := Run.bind_outcome_ok.mp hr
    exact Run.bind_outcome_ok.mpr ⟨b, hb, (hrest b).settled hoff hr heq⟩
  · intro buf off r k hoff hr hk hcut
    obtain ⟨b, hb, hr⟩ := Run.bind_outcome_ok.mp hr
    exact Run.bind_outcome_fail.mpr (Or.inr ⟨b, hb, (hrest b).short_take hoff hr hk hcut⟩)
  · intro buf more off e hoff he hne
    apply Run.bind_outcome_fail.mpr
    rcases Run.bind_outcome_fail.mp he with he | ⟨b, hb, he⟩
    · exact Or.inl he
    · exact Or.inr ⟨b, hb, (hrest b).error_append hoff he hne⟩

theorem iterate {round : List α → Nat → Run ε Nat} (hround : Streams short id round) :
    ∀ count, Streams short id (fun buf off => Run.iterate (round buf) count off)
  | 0 => pure fun _ => rfl
  | count + 1 => hround.bind fun _ => iterate hround count

/-- The walk looks at the element at its offset and then goes on from there. -/
theorem dispatch {branch : α → List α → Nat → Run ε ρ}
    (hbranch : ∀ a, Streams short next (branch a)) (hmoves : ∀ a, Moves next (branch a))
    (hshort : ∀ buf off, buf.length ≤ off → (walk buf off).outcome = .fail short)
    (hwalk : ∀ buf off a, buf[off]? = some a →
      (walk buf off).outcome = (branch a buf off).outcome) : Streams short next walk := by
  have hcases : ∀ buf off, (walk buf off).outcome = .fail short ∨
      ∃ a, buf[off]? = some a ∧ (walk buf off).outcome = (branch a buf off).outcome := by
    intro buf off
    cases ha : buf[off]? with
    | none => exact Or.inl (hshort buf off (List.getElem?_eq_none_iff.mp ha))
    | some a => exact Or.inr ⟨a, rfl, hwalk buf off a ha⟩
  have hok : ∀ {buf off r}, (walk buf off).outcome = .ok r →
      ∃ a, buf[off]? = some a ∧ (branch a buf off).outcome = .ok r := by
    intro buf off r hr
    rcases hcases buf off with hfail | ⟨a, ha, heq⟩
    · rw [hfail] at hr
      cases hr
    · exact ⟨a, ha, heq ▸ hr⟩
  refine ⟨?_, ?_, ?_, ?_⟩
  · intro buf off r hoff hr
    obtain ⟨a, ha, hr⟩ := hok hr
    exact (hbranch a).within hoff hr
  · intro buf buf' off r hoff hr heq
    obtain ⟨a, ha, hr⟩ := hok hr
    have hlook : buf'[off]? = some a := by
      have hget := congrArg (fun l => l[off]?) heq
      simp only [List.getElem?_take_of_lt (hmoves a buf off r hoff hr), ha] at hget
      exact hget
    rw [hwalk buf' off a hlook]
    exact (hbranch a).settled hoff hr heq
  · intro buf off r k hoff hr hk hcut
    obtain ⟨a, ha, hr⟩ := hok hr
    rcases Nat.lt_or_ge off k with hlt | hge
    · rw [hwalk (buf.take k) off a (by rwa [List.getElem?_take_of_lt hlt])]
      exact (hbranch a).short_take hoff hr hk hcut
    · apply hshort
      rw [List.length_take]
      omega
  · intro buf more off e hoff he hne
    rcases hcases buf off with hfail | ⟨a, ha, heq⟩
    · rw [hfail] at he
      cases he
      exact absurd rfl hne
    · rw [heq] at he
      have hlt := (List.getElem?_eq_some_iff.mp ha).1
      rw [hwalk (buf ++ more) off a (by rwa [List.getElem?_append_left hlt])]
      exact (hbranch a).error_append hoff he hne

/-- An object inside another one, measured on the slice that begins with it. -/
theorem inner {size : List α → Run ε Nat} {walk : List α → Nat → Run ε Nat}
    (hwalk : Streams short id walk) (hsize : ∀ buf, (size buf).outcome = (walk buf 0).outcome) :
    Streams short id (fun buf off => size (buf.drop off) >>= fun n => Run.add off n) := by
  refine ⟨?_, ?_, ?_, ?_⟩
  · intro buf off r hoff hr
    obtain ⟨n, hn, hr⟩ := Run.bind_outcome_ok.mp hr
    obtain ⟨-, rfl⟩ := Run.add_outcome_ok.mp hr
    have hwithin := (hwalk.within (Nat.zero_le _) (hsize _ ▸ hn)).2
    rw [List.length_drop] at hwithin
    simp only [id] at hwithin ⊢
    omega
  · intro buf buf' off r hoff hr heq
    obtain ⟨n, hn, hr⟩ := Run.bind_outcome_ok.mp hr
    obtain ⟨-, rfl⟩ := Run.add_outcome_ok.mp hr
    refine Run.bind_outcome_ok.mpr ⟨n, ?_, hr⟩
    rw [hsize] at hn ⊢
    apply hwalk.settled (Nat.zero_le _) hn
    simp only [id] at heq ⊢
    rw [List.take_drop, List.take_drop, heq]
  · intro buf off r k hoff hr hk hcut
    obtain ⟨n, hn, hr⟩ := Run.bind_outcome_ok.mp hr
    obtain ⟨-, rfl⟩ := Run.add_outcome_ok.mp hr
    refine Run.bind_outcome_fail.mpr (Or.inl ?_)
    rw [hsize] at hn ⊢
    rw [List.drop_take]
    apply hwalk.short_take (Nat.zero_le _) hn (Nat.zero_le _)
    simp only [id] at hcut ⊢
    omega
  · intro buf more off e hoff he hne
    rcases Run.bind_outcome_fail.mp he with he | ⟨n, -, he⟩
    · refine Run.bind_outcome_fail.mpr (Or.inl ?_)
      rw [hsize] at he ⊢
      rw [List.drop_append_of_le_length hoff]
      exact hwalk.error_append (Nat.zero_le _) he hne
    · exact absurd he (Run.neverFails_add off n e)

end Streams

/-! ## Loops end with the buffer -/

/-- Rounds that move never outnumber the elements in front of them, so a loop whose count is larger
stops as one that is given just enough rounds. -/
theorem Streams.iterate_outcome_eq {short : ε} {round : List α → Nat → Run ε Nat}
    (hround : Streams short id round) (hmoves : Moves id round) {buf : List α} :
    ∀ {fuel count off : Nat}, fuel ≤ count → off ≤ buf.length → buf.length < off + fuel →
      (Run.iterate (round buf) count off).outcome = (Run.iterate (round buf) fuel off).outcome
  | 0, _, off, _, hoff, hlt => absurd hoff (by omega)
  | fuel + 1, 0, _, hle, _, _ => absurd hle (by omega)
  | fuel + 1, count + 1, off, hle, hoff, hlt => by
    apply Run.bind_outcome_congr
    intro next hnext
    have hmove : off < next := hmoves buf off next hoff hnext
    exact iterate_outcome_eq hround hmoves (by omega) (hround.within hoff hnext).2 (by omega)

/-! ## Walks that do not panic -/

/-- On buffers of at most `bound` elements the walk returns, with a result or with an error. -/
def NoPanic (bound : Nat) (walk : List α → Nat → Run ε ρ) : Prop :=
  ∀ buf off, off ≤ buf.length → buf.length ≤ bound → ∀ cause, (walk buf off).outcome ≠ .panic cause

namespace NoPanic

variable {short : ε} {bound : Nat} {next : ρ → Nat} {walk : List α → Nat → Run ε ρ}

theorem field {width : Nat} {read : List α → ρ} (h : bound + width < 2 ^ 63) :
    NoPanic bound (Run.field short width read) := by
  intro buf off hoff hfit cause hpanic
  by_cases hlt : buf.length < off + width
  · rw [Run.field_of_lt (by omega) hlt] at hpanic
    cases hpanic
  · rw [Run.field_of_le (by omega) (by omega)] at hpanic
    cases hpanic

theorem pure {result : Nat → ρ} :
    NoPanic bound (fun (_ : List α) off => (Pure.pure (result off) : Run ε ρ)) := by
  intro buf off _ _ cause hpanic
  cases hpanic

theorem bind {rest : ρ → List α → Nat → Run ε σ} (h : NoPanic bound walk)
    (hwalk : Streams short next walk) (hrest : ∀ r, NoPanic bound (rest r)) :
    NoPanic bound (fun buf off => walk buf off >>= fun r => rest r buf (next r)) := by
  intro buf off hoff hfit cause hpanic
  rcases Run.bind_outcome_panic.mp hpanic with hpanic | ⟨r, hr, hpanic⟩
  · exact h buf off hoff hfit cause hpanic
  · exact hrest r buf (next r) (hwalk.within hoff hr).2 hfit cause hpanic

theorem check {bad : Nat → Prop} [∀ off, Decidable (bad off)] {e : ε} (h : NoPanic bound walk) :
    NoPanic bound (fun buf off => Run.failIf (bad off) e >>= fun _ => walk buf off) := by
  intro buf off hoff hfit cause hpanic
  rcases Run.bind_outcome_panic.mp hpanic with hpanic | ⟨-, -, hpanic⟩
  · exact Run.failIf_ne_panic cause hpanic
  · exact h buf off hoff hfit cause hpanic

theorem iterate {round : List α → Nat → Run ε Nat} (h : NoPanic bound round)
    (hround : Streams short id round) :
    ∀ count, NoPanic bound (fun buf off => Run.iterate (round buf) count off)
  | 0 => pure
  | count + 1 => h.bind hround fun _ => iterate h hround count

end NoPanic

/-- `size` finds the end of the object at the front of a buffer by a walk that streams. -/
def Delimits (short : ε) (size : List α → Run ε Nat) : Prop :=
  ∃ walk, Streams short id walk ∧ ∀ buf, (size buf).outcome = (walk buf 0).outcome

variable {short : ε} {size : List α → Run ε Nat} {object : List α}

/-- The object at the front of a buffer, cut out of it. -/
theorem Delimits.take (hsize : Delimits short size) {buf : List α} {n : Nat}
    (h : (size buf).outcome = .ok n) :
    n ≤ buf.length ∧ (size (buf.take n)).outcome = .ok n := by
  obtain ⟨walk, hwalk, heq⟩ := hsize
  rw [heq] at h ⊢
  refine ⟨(hwalk.within (Nat.zero_le _) h).2, hwalk.settled (Nat.zero_le _) h ?_⟩
  exact List.take_take.trans (congrArg buf.take (Nat.min_self n))

section Verdicts

variable {buf : List α} {n : Nat} (hsize : Delimits short size)

include hsize

/-- A size that was found is not changed by more elements. -/
theorem Delimits.ok_append (h : (size buf).outcome = .ok n) (more : List α) :
    (size (buf ++ more)).outcome = .ok n := by
  obtain ⟨walk, hwalk, heq⟩ := hsize
  rw [heq] at h ⊢
  apply hwalk.settled (Nat.zero_le _) h
  exact List.take_append_of_le_length (hwalk.within (Nat.zero_le _) h).2

theorem Delimits.short_take (h : (size buf).outcome = .ok n) {k : Nat} (hk : k < n) :
    (size (buf.take k)).outcome = .fail short := by
  obtain ⟨walk, hwalk, heq⟩ := hsize
  rw [heq] at h ⊢
  exact hwalk.short_take (Nat.zero_le _) h (Nat.zero_le _) hk

theorem Delimits.error_append {e : ε} (h : (size buf).outcome = .fail e) (he : e ≠ short)
    (more : List α) : (size (buf ++ more)).outcome = .fail e := by
  obtain ⟨walk, hwalk, heq⟩ := hsize
  rw [heq] at h ⊢
  exact hwalk.error_append (Nat.zero_le _) h he

theorem Delimits.append (hobject : (size object).outcome = .ok object.length) (more : List α) :
    (size (object ++ more)).outcome = .ok object.length := hsize.ok_append hobject more

theorem Delimits.short_of_isPrefix (hobject : (size object).outcome = .ok object.length)
    {cut : List α} (hcut : cut <+: object) (hlt : cut.length < object.length) :
    (size cut).outcome = .fail short := by
  rw [List.prefix_iff_eq_take.mp hcut]
  exact hsize.short_take hobject hlt

end Verdicts

end Go
