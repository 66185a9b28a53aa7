import ShardCommon.Proof.ConsumerQuorum
import ShardCommon.Proof.EvaluatorOrder

/-!
# When a candidate is adopted at the latest

The width and the source mode, at the top level and of each plane, are each driven by a hysteresis
machine: a call is one step of it, with the candidate that the call selects. A value that is the
clear choice at two calls a window apart is therefore in force after the second, whatever was
announced in between, whatever was in force before and in whatever orders the maps were visited. Any
two consumers for which this holds agree.
-/

namespace ShardCommon.Manifest

open ShardCommon.Frame Hysteresis

variable {cfg : EvaluatorConfig} {e : Evaluator} {id : UInt8} {past : List Evaluation}

/-! ## Planes as machines -/

def selectedDomainShardBits (cfg : EvaluatorConfig) (id : UInt8) (snap : List Entry)
    (orders : Orders) : Option UInt8 :=
  bestCandidate ((orders.domainShardBits id).visit
    (Tallies.ofVotes (domainShardBitsVotes snap id)).entries) cfg.quorum

def selectedDomainSourceMode (cfg : EvaluatorConfig) (id : UInt8) (snap : List Entry)
    (orders : Orders) : Option Bool :=
  bestCandidateBool ((orders.domainSourceMode id).visit
    (Tallies.ofVotes (domainSourceModeVotes snap id)).entries) cfg.quorum

def planeBitsState (id : UInt8) (s : Plane) : State UInt8 :=
  fieldState (domainShardBitsKey id) s.2 s.1.shardBits

def planeModeState (id : UInt8) (s : Plane) : State Bool :=
  fieldState (domainSourceModeKey id) s.2 s.1.sourceModeSSM

variable {snap : List Entry} {orders : Orders} {now : Int} {s : Plane}

/-- Nothing is selected for a plane that nobody describes. -/
theorem selectedDomain_of_silent (hquorum : 0 < cfg.quorum) (h : descriptors snap id = []) :
    selectedDomainShardBits cfg id snap orders = none ∧
      selectedDomainSourceMode cfg id snap orders = none := by
  rw [selectedDomainShardBits, selectedDomainSourceMode, domainShardBitsVotes,
    domainSourceModeVotes, h]
  exact ⟨Tallies.best_no_votes hquorum _, Tallies.best_no_votes hquorum _⟩

theorem evaluateDomain_step (hpin : cfg.pin.domainShardBits id = none) (hquorum : 0 < cfg.quorum)
    (hwindow : 0 < cfg.hysteresis) :
    planeBitsState id (evaluateDomain cfg snap orders now id s) =
        (planeBitsState id s).step cfg.hysteresis now
          (selectedDomainShardBits cfg id snap orders) ∧
      planeModeState id (evaluateDomain cfg snap orders now id s) =
        (planeModeState id s).step cfg.hysteresis now
          (selectedDomainSourceMode cfg id snap orders) := by
  by_cases hsilent : descriptors snap id = []
  · obtain ⟨hbits, hmode⟩ := @selectedDomain_of_silent cfg id snap orders hquorum hsilent
    rw [evaluateDomain, hpin, hsilent, hbits, hmode]
    exact ⟨rfl, rfl⟩
  · rw [evaluateDomain_of_unpinned hpin hsilent]
    constructor
    · have hstep := (PlaneField.shardBits id).adopt_step snap (orders.domainShardBits id) now s hwindow
      rw [← adoptDomainShardBits_eq] at hstep
      rw [planeBitsState, adoptDomainSuccessor_others.1, adoptDomainSourceMode_others.1]
      refine Eq.trans (fieldState_congr ?_) hstep
      intro v
      rw [adoptDomainSuccessor_timers (by rintro ⟨⟩), adoptDomainSourceMode_timers (by rintro ⟨⟩)]
    · have hbefore : planeModeState id
          (adoptDomainShardBits cfg snap (orders.domainShardBits id) now id s) =
            planeModeState id s := by
        rw [planeModeState, planeModeState, adoptDomainShardBits_others.1]
        apply fieldState_congr
        intro v
        exact adoptDomainShardBits_timers (by rintro ⟨⟩)
      have hstep := (PlaneField.sourceMode id).adopt_step snap (orders.domainSourceMode id) now
        (adoptDomainShardBits cfg snap (orders.domainShardBits id) now id s) hwindow
      rw [← adoptDomainSourceMode_eq] at hstep
      rw [← hbefore, planeModeState, adoptDomainSuccessor_others.2]
      refine Eq.trans (fieldState_congr ?_) hstep
      intro v
      exact adoptDomainSuccessor_timers (by rintro ⟨⟩)

theorem evaluate_planeStates (hpin : e.cfg.pin.domainShardBits id = none) :
    planeBitsState id ((e.evaluate snap now orders).2.plane id) =
        planeBitsState id (evaluateDomain e.cfg snap orders now id (e.plane id)) ∧
      planeModeState id ((e.evaluate snap now orders).2.plane id) =
        planeModeState id (evaluateDomain e.cfg snap orders now id (e.plane id)) := by
  have hview : ((e.evaluate snap now orders).2.plane id).1 =
      (evaluateDomain e.cfg snap orders now id (e.plane id)).1 := by
    rw [Evaluator.plane, evaluate_retained]
    exact evaluate_plane (.inr hpin)
  rw [planeBitsState, planeModeState, hview]
  constructor
  · apply fieldState_congr
    intro v
    exact evaluate_planeTimers (.inr hpin) (domainShardBitsKey id v) rfl
  · apply fieldState_congr
    intro v
    exact evaluate_planeTimers (.inr hpin) (domainSourceModeKey id v) rfl

theorem evaluate_shows_plane :
    (e.evaluate snap now orders).1.plane id = ((e.evaluate snap now orders).2.plane id).1 := by
  rw [Adopted.plane, Evaluator.plane, evaluate_retained]

def domainBitsMachine (id : UInt8) (hpin : cfg.pin.domainShardBits id = none)
    (hwindow : 0 < cfg.hysteresis) : Machine cfg UInt8 where
  state := fun e => planeBitsState id (e.plane id)
  selected := selectedDomainShardBits cfg id
  shown := fun view => (view.plane id).shardBits
  untimed := fun _ v h => h (domainShardBitsKey id v)
  step := by
    rintro e snap now orders rfl
    refine ⟨(evaluate_planeStates hpin).1.trans ?_, ?_⟩
    · exact (evaluateDomain_step hpin e.quorum_pos hwindow).1
    · exact congrArg DomainAdoption.shardBits evaluate_shows_plane

def domainModeMachine (id : UInt8) (hpin : cfg.pin.domainShardBits id = none)
    (hwindow : 0 < cfg.hysteresis) : Machine cfg Bool where
  state := fun e => planeModeState id (e.plane id)
  selected := selectedDomainSourceMode cfg id
  shown := fun view => (view.plane id).sourceModeSSM
  untimed := fun _ v h => h (domainSourceModeKey id v)
  step := by
    rintro e snap now orders rfl
    refine ⟨(evaluate_planeStates hpin).2.trans ?_, ?_⟩
    · exact (evaluateDomain_step hpin e.quorum_pos hwindow).2
    · exact congrArg DomainAdoption.sourceModeSSM evaluate_shows_plane

/-! ## Runs -/

variable {allowed : Evaluator → List Evaluation → List Entry → Int → Orders → Prop}
  {K : Type} [DecidableEq K]

/-- A candidate that an earlier call selected, a window ago or more, and that the newest call
selects again is what the newest call shows. -/
theorem Evaluations.shown {r earlier : Evaluation} {v : K}
    (hrun : Evaluations cfg allowed e (r :: past)) (machine : Machine e.cfg K)
    (hearlier : earlier ∈ past) (hapart : e.cfg.hysteresis ≤ r.now - earlier.now)
    (hbefore : machine.selected earlier.snap earlier.orders = some v)
    (hagain : machine.selected r.snap r.orders = some v) : machine.shown r.result = v := by
  cases hrun with
  | @call e _ snap now orders hpast _ _ =>
      have htimed := hpast.timed machine
      obtain ⟨hstep, hshown⟩ := machine.step e snap now orders rfl
      dsimp only at hagain hapart ⊢
      rw [hshown, hstep, hagain]
      exact (htimed.seenBy earlier hearlier v hbefore).adopted hapart

/-- A value that is the clear choice at two calls a window or more apart is in force after the second
of them: the width and the source mode of the top level and those of each plane, each unless it is
pinned. -/
theorem clear_choices_adopted {r earlier : Evaluation}
    (hrun : Evaluations cfg allowed e (r :: past)) (hwindow : 0 < e.cfg.hysteresis)
    (hearlier : earlier ∈ past) (hapart : e.cfg.hysteresis ≤ r.now - earlier.now) :
    (e.cfg.pin.shardBits = none → ∀ v,
      Tallies.ClearChoice (shardBitsVotes earlier.snap) e.cfg.quorum v →
      Tallies.ClearChoice (shardBitsVotes r.snap) e.cfg.quorum v → r.result.shardBits = v) ∧
    (e.cfg.pin.sourceModeSSM = none → ∀ v,
      Tallies.ClearChoice (sourceModeVotes earlier.snap) e.cfg.quorum v →
      Tallies.ClearChoice (sourceModeVotes r.snap) e.cfg.quorum v → r.result.sourceModeSSM = v) ∧
    ∀ id, e.cfg.pin.domainShardBits id = none →
      (∀ v, Tallies.ClearChoice (domainShardBitsVotes earlier.snap id) e.cfg.quorum v →
        Tallies.ClearChoice (domainShardBitsVotes r.snap id) e.cfg.quorum v →
          (r.result.plane id).shardBits = v) ∧
      (∀ v, Tallies.ClearChoice (domainSourceModeVotes earlier.snap id) e.cfg.quorum v →
        Tallies.ClearChoice (domainSourceModeVotes r.snap id) e.cfg.quorum v →
          (r.result.plane id).sourceModeSSM = v) := by
  have hquorum := e.quorum_pos
  refine ⟨?_, ?_, ?_⟩
  · intro hpin v hbefore hagain
    exact hrun.shown (bitsMachine hpin hwindow) hearlier hapart (hbefore.best hquorum _)
      (hagain.best hquorum _)
  · intro hpin v hbefore hagain
    exact hrun.shown (modeMachine hpin hwindow) hearlier hapart (hbefore.best hquorum _)
      (hagain.best hquorum _)
  · intro id hpin
    constructor
    · intro v hbefore hagain
      exact hrun.shown (domainBitsMachine id hpin hwindow) hearlier hapart (hbefore.best hquorum _)
        (hagain.best hquorum _)
    · intro v hbefore hagain
      exact hrun.shown (domainModeMachine id hpin hwindow) hearlier hapart (hbefore.best hquorum _)
        (hagain.best hquorum _)

theorem clearChoice_announcing (bits : UInt8) :
    Tallies.ClearChoice (shardBitsVotes [announcing bits]) 1 bits := by
  have hvotes : shardBitsVotes [announcing bits] = [(bits, announcing bits)] := by
    simp [shardBitsVotes, authorities, announcing, Entry.authoritative, hasFlag, flagAuthoritative]
  rw [hvotes]
  constructor
  · simp [Tallies.voters]
  · intro other hother
    simp [Tallies.voters, hother.symm]

/-- Width 5 is announced at 0 and at 20, with another one in between. -/
theorem clear_choices_adopted_interrupted : ∃ e r middle earlier,
    Evaluations (unpinned 1 10) (fun _ _ _ _ _ => True) e [r, middle, earlier] ∧
      middle.snap = [announcing 6] ∧ r.result.shardBits = 5 := by
  have hstart : Evaluations (unpinned 1 10) (fun _ _ _ _ _ => True) _ [] := .start
  have hrun := ((hstart.call [announcing 5] 0 storedOrders (by simp) trivial).call
    [announcing 6] 5 storedOrders (by simp) trivial).call
      [announcing 5] 20 storedOrders (by simp) trivial
  refine ⟨_, _, _, _, hrun, rfl, ?_⟩
  apply (clear_choices_adopted hrun (by decide)
    (List.mem_cons_of_mem _ List.mem_cons_self) (by decide)).1 rfl
  · exact clearChoice_announcing 5
  · exact clearChoice_announcing 5

end ShardCommon.Manifest
