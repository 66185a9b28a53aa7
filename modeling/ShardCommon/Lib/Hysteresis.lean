import Mathlib.Logic.Function.Basic
import Mathlib.Tactic.Common

/-!
# Adoption after a hysteresis window

A consumer observes, call after call, which candidate is selected, and adopts one whose timer has run
for the whole window. Timers start at the first sight of a candidate and are never reset, so they
measure an uninterrupted stretch only in runs where no candidate comes back after an interruption.
-/

namespace Hysteresis

variable {K : Type*} [DecidableEq K]

structure State (K : Type*) where
  timers : K → Option Int
  adopted : K

/-- One call: it starts the timer of a candidate seen for the first time, and adopts one whose timer
has run out. -/
def State.step (s : State K) (window now : Int) (selected : Option K) : State K :=
  match selected with
  | none => s
  | some v =>
    match s.timers v with
    | none => { s with timers := Function.update s.timers v (some now) }
    | some first => if window ≤ now - first then { s with adopted := v } else s

structure Observation (K : Type*) where
  now : Int
  selected : Option K

/-- The calls of the last `window` selected `v`, and so did every call since one at or before the
start of that window. The newest call comes first. -/
structure HeldFor (window now : Int) (v : K) (past : List (Observation K)) : Prop where
  throughout : ∀ o ∈ past, now - window ≤ o.now → o.selected = some v
  since : ∃ recent first older, past = recent ++ first :: older ∧ first.now ≤ now - window ∧
    first.selected = some v ∧ ∀ o ∈ recent, o.selected = some v

omit [DecidableEq K] in
theorem HeldFor.head {window now : Int} {v : K} {o : Observation K} {past : List (Observation K)}
    (h : HeldFor window now v (o :: past)) : o.selected = some v := by
  obtain ⟨recent, first, older, hpast, _, hfirst, hrecent⟩ := h.since
  cases recent with
  | nil =>
      cases hpast
      exact hfirst
  | cons o' recent =>
      cases hpast
      exact hrecent o List.mem_cons_self

/-- A call does not bring back an interrupted candidate: a selected value that is not adopted yet was
selected by the call before as well, or never before and at a later time than every call. -/
def Steady (past : List (Observation K)) (adopted : K) (now : Int) (selected : Option K) : Prop :=
  ∀ v, selected = some v → v ≠ adopted →
    (∃ o, past.head? = some o ∧ o.selected = some v) ∨
      ∀ o ∈ past, o.selected ≠ some v ∧ o.now < now

/-- The timer of `v` dates the first call of an unbroken streak of selections up to the newest. -/
def TimedStreak (s : State K) (past : List (Observation K)) (v : K) : Prop :=
  ∃ recent begun older, past = recent ++ begun :: older ∧ s.timers v = some begun.now ∧
    begun.selected = some v ∧ (∀ o ∈ recent, o.selected = some v) ∧ ∀ o ∈ older, o.now < begun.now

structure Inv (s : State K) (past : List (Observation K)) : Prop where
  timed : ∀ v first, s.timers v = some first → ∃ o ∈ past, o.selected = some v ∧ o.now = first
  streak : ∀ v o, past.head? = some o → o.selected = some v → v ≠ s.adopted → TimedStreak s past v

variable {s : State K} {past : List (Observation K)} {window now : Int} {selected : Option K} {v : K}

omit [DecidableEq K] in
theorem Inv.of_untimed (h : ∀ v, s.timers v = none) : Inv s [] := by
  constructor
  · intro v first hfirst
    rw [h v] at hfirst
    cases hfirst
  · intro v o h
    cases h

omit [DecidableEq K] in
/-- A selected value that is not adopted is either timed by an unbroken streak, or new. -/
theorem Inv.streak_or_new (h : Inv s past) (hsteady : Steady past s.adopted now (some v))
    (hv : v ≠ s.adopted) :
    TimedStreak s past v ∨ s.timers v = none ∧ ∀ o ∈ past, o.now < now := by
  rcases hsteady v rfl hv with ⟨o, hhead, ho⟩ | hnew
  · exact Or.inl (h.streak v o hhead ho hv)
  · right
    constructor
    · cases htimer : s.timers v with
      | none => rfl
      | some first =>
          obtain ⟨o, ho, hselected, _⟩ := h.timed v first htimer
          exact absurd hselected (hnew o ho).1
    · intro o ho
      exact (hnew o ho).2

theorem Inv.step (h : Inv s past) (hsteady : Steady past s.adopted now selected) :
    Inv (s.step window now selected) (⟨now, selected⟩ :: past) := by
  cases selected with
  | none =>
      constructor
      · intro v first htimer
        obtain ⟨o, ho, hselected, hnow⟩ := h.timed v first htimer
        exact ⟨o, List.mem_cons_of_mem _ ho, hselected, hnow⟩
      · intro v o hhead hselected
        cases hhead
        cases hselected
  | some w =>
      constructor
      · intro v first htimer
        have hold : s.timers v = some first ∨ v = w ∧ first = now := by
          rw [State.step] at htimer
          split at htimer
          · by_cases hv : v = w
            · subst hv
              right
              simpa [eq_comm] using htimer
            · left
              simpa [Function.update_of_ne hv] using htimer
          · left
            split at htimer <;> exact htimer
        rcases hold with hold | ⟨rfl, rfl⟩
        · obtain ⟨o, ho, hselected, hnow⟩ := h.timed v first hold
          exact ⟨o, List.mem_cons_of_mem _ ho, hselected, hnow⟩
        · exact ⟨_, List.mem_cons_self, rfl, rfl⟩
      · intro v o hhead hselected hv
        cases hhead
        cases hselected
        cases htimer : s.timers w with
        | none =>
            -- a first sight: the streak is this call alone
            have hstep : s.step window now (some w) =
                { s with timers := Function.update s.timers w (some now) } := by
              simp only [State.step, htimer]
            rw [hstep] at hv ⊢
            rcases h.streak_or_new hsteady hv with ⟨_, _, _, _, hfirst, _⟩ | ⟨_, hlater⟩
            · rw [htimer] at hfirst
              cases hfirst
            · exact ⟨[], _, past, rfl, Function.update_self .., rfl, by simp, hlater⟩
        | some first =>
            by_cases helapsed : window ≤ now - first
            · exact absurd (by simp [State.step, htimer, helapsed]) hv
            · have hstep : s.step window now (some w) = s := by
                simp only [State.step, htimer, if_neg helapsed]
              rw [hstep] at hv ⊢
              rcases h.streak_or_new hsteady hv with
                ⟨recent, begun, older, hpast, hfirst, hbegun, hrecent, holder⟩ | ⟨hnone, _⟩
              · refine ⟨⟨now, some w⟩ :: recent, begun, older, by rw [hpast]; rfl, hfirst, hbegun,
                  ?_, holder⟩
                intro o ho
                rcases List.mem_cons.mp ho with rfl | ho
                · rfl
                · exact hrecent o ho
              · rw [htimer] at hnone
                cases hnone

/-- What a call adopts anew has been selected throughout the window. -/
theorem Inv.heldFor (h : Inv s past) (hsteady : Steady past s.adopted now selected)
    (hnew : (s.step window now selected).adopted ≠ s.adopted) :
    selected = some (s.step window now selected).adopted ∧
      HeldFor window now (s.step window now selected).adopted past := by
  cases selected with
  | none => exact absurd rfl hnew
  | some v =>
      cases htimer : s.timers v with
      | none => exact absurd (by simp [State.step, htimer]) hnew
      | some first =>
          by_cases helapsed : window ≤ now - first
          · have hadopted : (s.step window now (some v)).adopted = v := by
              simp [State.step, htimer, helapsed]
            rw [hadopted] at hnew ⊢
            refine ⟨rfl, ?_⟩
            rcases h.streak_or_new hsteady hnew with
              ⟨recent, begun, older, hpast, hfirst, hbegun, hrecent, holder⟩ | ⟨hnone, _⟩
            · obtain rfl : first = begun.now := Option.some.inj (htimer.symm.trans hfirst)
              refine ⟨?_, recent, begun, older, hpast, by omega, hbegun, hrecent⟩
              intro o ho hwindow
              rw [hpast] at ho
              rcases List.mem_append.mp ho with ho | ho
              · exact hrecent o ho
              rcases List.mem_cons.mp ho with rfl | ho
              · exact hbegun
              · have := holder o ho
                omega
            · rw [htimer] at hnone
              cases hnone
          · exact absurd (by simp [State.step, htimer, helapsed]) hnew

/-! ## Adoption at the latest

Because timers are never reset, a candidate that two calls select a window apart is adopted by the
second one, whatever the calls between them select.
-/

def State.TimedBy (s : State K) (now : Int) : Prop :=
  ∀ v first, s.timers v = some first → first ≤ now

def State.SeenBy (s : State K) (v : K) (now : Int) : Prop :=
  ∃ first ≤ now, s.timers v = some first

theorem State.step_timers (s : State K) (window now : Int) (selected : Option K) (v : K) :
    (s.step window now selected).timers v = s.timers v ∨
      s.timers v = none ∧ selected = some v ∧
        (s.step window now selected).timers v = some now := by
  cases selected with
  | none => exact Or.inl rfl
  | some w =>
      rw [State.step]
      cases htimer : s.timers w with
      | none =>
          by_cases hv : v = w
          · subst hv
            exact Or.inr ⟨htimer, rfl, Function.update_self ..⟩
          · exact Or.inl (Function.update_of_ne hv ..)
      | some first =>
          left
          dsimp only
          split <;> rfl

theorem State.step_adopted (s : State K) (window now : Int) (selected : Option K) :
    (s.step window now selected).adopted = s.adopted ∨
      selected = some (s.step window now selected).adopted := by
  cases selected with
  | none => exact Or.inl rfl
  | some w =>
      rw [State.step]
      cases s.timers w with
      | none => exact Or.inl rfl
      | some first =>
          dsimp only
          split
          · exact Or.inr rfl
          · exact Or.inl rfl

theorem State.TimedBy.step (h : s.TimedBy now) : (s.step window now selected).TimedBy now := by
  intro v first hfirst
  rcases s.step_timers window now selected v with hsame | ⟨_, _, hnew⟩
  · rw [hsame] at hfirst
    exact h v first hfirst
  · rw [hnew] at hfirst
    exact Int.le_of_eq (Option.some.inj hfirst).symm

theorem State.SeenBy.step {seen : Int} (h : s.SeenBy v seen) :
    (s.step window now selected).SeenBy v seen := by
  obtain ⟨first, hle, hfirst⟩ := h
  rcases s.step_timers window now selected v with hsame | ⟨hnone, _⟩
  · exact ⟨first, hle, hsame.trans hfirst⟩
  · rw [hfirst] at hnone
    cases hnone

theorem State.TimedBy.seenBy (h : s.TimedBy now) : (s.step window now (some v)).SeenBy v now := by
  cases htimer : s.timers v with
  | none =>
      refine ⟨now, Int.le_refl now, ?_⟩
      simp [State.step, htimer]
  | some first => exact State.SeenBy.step ⟨first, h v first htimer, htimer⟩

theorem State.SeenBy.adopted {seen : Int} (h : s.SeenBy v seen) (hwindow : window ≤ now - seen) :
    (s.step window now (some v)).adopted = v := by
  obtain ⟨first, hle, hfirst⟩ := h
  have helapsed : window ≤ now - first := by omega
  simp only [State.step, hfirst, if_pos helapsed]

end Hysteresis
