import ShardCommon.Lib.Hysteresis
import ShardCommon.Proof.EvaluatorFrames

/-!
# Hysteresis over runs of the evaluator

Shard bits and source mode are each an instance of the hysteresis machine, with the candidate
selected by quorum as its input. The timers of the evaluator are never reset, so a value is adopted
after an uninterrupted window only in runs where no candidate comes back after an interruption.
-/

namespace ShardCommon.Manifest

open ShardCommon.Frame Hysteresis

variable {cfg : EvaluatorConfig} {e : Evaluator} {snap : List Entry} {orders : Orders} {now : Int}
  {p : Pass}

/-- One call of a run and what it returned. -/
structure Evaluation where
  snap : List Entry
  now : Int
  orders : Orders
  result : Adopted

/-- Runs of calls at non-decreasing times on one evaluator, newest first, each call meeting
`allowed` in the state before it. -/
inductive Evaluations (cfg : EvaluatorConfig)
    (allowed : Evaluator → List Evaluation → List Entry → Int → Orders → Prop) :
    Evaluator → List Evaluation → Prop
  | start : Evaluations cfg allowed (newEvaluator cfg) []
  | call {e : Evaluator} {past : List Evaluation} (snap : List Entry) (now : Int) (orders : Orders)
      (hpast : Evaluations cfg allowed e past) (hclock : ∀ r ∈ past, r.now ≤ now)
      (hallowed : allowed e past snap now orders) :
      Evaluations cfg allowed (e.evaluate snap now orders).2
        (⟨snap, now, orders, (e.evaluate snap now orders).1⟩ :: past)

def selectedShardBits (cfg : EvaluatorConfig) (snap : List Entry) (orders : Orders) :
    Option UInt8 :=
  bestCandidate (orders.shardBits.visit (Tallies.ofVotes (shardBitsVotes snap)).entries) cfg.quorum

def selectedSourceMode (cfg : EvaluatorConfig) (snap : List Entry) (orders : Orders) : Option Bool :=
  bestCandidateBool (orders.sourceMode.visit (Tallies.ofVotes (sourceModeVotes snap)).entries)
    cfg.quorum

def shardBitsKey (v : UInt8) : FieldKey := ⟨.shardBits, v.toUInt64⟩

def sourceModeKey (v : Bool) : FieldKey := ⟨.sourceMode, boolToUint64 v⟩

/-! ## One field as a hysteresis machine -/

def fieldState {K : Type} (key : K → FieldKey) (timers : Timers) (adopted : K) : State K :=
  ⟨fun v => timers (key v), adopted⟩

/-- With a positive window, timing a candidate is a step of the machine. -/
theorem fieldState_hysteresisElapsed {K : Type} [DecidableEq K] {key : K → FieldKey}
    (hkey : Function.Injective key) (hwindow : 0 < cfg.hysteresis) (timers : Timers) (now : Int)
    (adopted v : K) (en : Entry) :
    fieldState key (hysteresisElapsed cfg timers (key v) now en).2
        (if (hysteresisElapsed cfg timers (key v) now en).1 then v else adopted) =
      (fieldState key timers adopted).step cfg.hysteresis now (some v) := by
  have hne : cfg.hysteresis ≠ 0 := by omega
  cases htimer : timers (key v) with
  | none =>
      have hupdate : (fun w => Function.update timers (key v) (some now) (key w)) =
          Function.update (fun w => timers (key w)) v (some now) :=
        Function.update_comp_eq_of_injective timers hkey v (some now)
      simp [hysteresisElapsed, State.step, fieldState, htimer, hne, hupdate]
  | some first =>
      by_cases helapsed : cfg.hysteresis ≤ now - first
      · simp [hysteresisElapsed, State.step, fieldState, htimer, hne, helapsed]
      · simp [hysteresisElapsed, State.step, fieldState, htimer, hne, helapsed]

/-- The block of a field is a step of its machine, and shows what it retains. -/
theorem TopField.adopt_step {K : Type} [DecidableEq K] [Inhabited K] (f : TopField K)
    (m : Tallies K Entry) (order : RangeOrder (Vote K)) (now : Int) (p : Pass)
    (hpin : f.pin cfg.pin = none) (hwindow : 0 < cfg.hysteresis) :
    let q := f.adopt cfg m order now p
    fieldState f.key q.timers (f.retained q.adopted) =
        (fieldState f.key p.timers (f.retained p.adopted)).step cfg.hysteresis now
          (Tallies.best (order.visit m.entries) cfg.quorum) ∧
      f.shown q.out = f.retained q.adopted := by
  intro q
  refine ⟨?_, (adopt_backed hpin).1.symm⟩
  cases hbest : Tallies.best (order.visit m.entries) cfg.quorum with
  | none =>
      have hq : q = _ := adopt_of_none hpin hbest
      rw [hq]
      rfl
  | some v =>
      have hq : q = _ := adopt_of_selected hpin hbest
      rw [hq, f.retained_retain, elapsed_eq fun _ => .inl hwindow.le]
      exact fieldState_hysteresisElapsed f.key_injective hwindow p.timers now _ v _

theorem PlaneField.adopt_step {K : Type} [DecidableEq K] [Inhabited K] (f : PlaneField K)
    (snap : List Entry) (order : RangeOrder (Vote K)) (now : Int) (s : Plane)
    (hwindow : 0 < cfg.hysteresis) :
    let t := f.adopt cfg snap order now s
    fieldState f.key t.2 (f.value t.1) =
      (fieldState f.key s.2 (f.value s.1)).step cfg.hysteresis now
        (Tallies.best (order.visit (f.tallies snap).entries) cfg.quorum) := by
  intro t
  cases hbest : Tallies.best (order.visit (f.tallies snap).entries) cfg.quorum with
  | none =>
      have ht : t = _ := adopt_of_none hbest
      rw [ht, f.value_note]
      rfl
  | some v =>
      have ht : t = _ := adopt_of_selected hbest
      rw [ht, f.value_note, f.value_put]
      exact fieldState_hysteresisElapsed f.key_injective hwindow s.2 now _ v _

/-! ## The two fields of a whole call -/

def bitsState (e : Evaluator) : State UInt8 :=
  fieldState shardBitsKey e.timers e.adopted.shardBits

def modeState (e : Evaluator) : State Bool :=
  fieldState sourceModeKey e.timers e.adopted.sourceModeSSM

theorem fieldState_congr {K : Type} {key : K → FieldKey} {timers timers' : Timers} {adopted : K}
    (h : ∀ v, timers (key v) = timers' (key v)) :
    fieldState key timers adopted = fieldState key timers' adopted := by
  rw [fieldState, fieldState]
  congr 1
  funext v
  exact h v

theorem evaluate_bitsState (e : Evaluator) (snap : List Entry) (now : Int) (orders : Orders)
    (hpin : e.cfg.pin.shardBits = none) (hwindow : 0 < e.cfg.hysteresis) :
    bitsState (e.evaluate snap now orders).2 =
        (bitsState e).step e.cfg.hysteresis now (selectedShardBits e.cfg snap orders) ∧
      (e.evaluate snap now orders).1.shardBits =
        (e.evaluate snap now orders).2.adopted.shardBits := by
  obtain ⟨hstate, hout⟩ := TopField.shardBits.adopt_step (.ofVotes (shardBitsVotes snap))
    orders.shardBits now ⟨freshView snap, e.timers, e.adopted⟩ hpin hwindow
  rw [← adoptShardBits_eq] at hstate hout
  rw [bitsState, Evaluator.evaluate, Evaluator.pass]
  dsimp only
  rw [sameTop_evaluateDomains.shardBits, sameTop_evaluateDomains.adoptedShardBits,
    adoptSuccessor_shardBits.1, adoptSuccessor_shardBits.2, adoptSourceMode_shardBits.1,
    adoptSourceMode_shardBits.2]
  refine ⟨?_, hout⟩
  refine Eq.trans (fieldState_congr ?_) hstate
  intro v
  rw [sameTop_evaluateDomains.timers _ rfl, adoptSuccessor_timers (by nofun),
    adoptSourceMode_timers (by nofun)]

theorem evaluate_modeState (e : Evaluator) (snap : List Entry) (now : Int) (orders : Orders)
    (hpin : e.cfg.pin.sourceModeSSM = none) (hwindow : 0 < e.cfg.hysteresis) :
    modeState (e.evaluate snap now orders).2 =
        (modeState e).step e.cfg.hysteresis now (selectedSourceMode e.cfg snap orders) ∧
      (e.evaluate snap now orders).1.sourceModeSSM =
        (e.evaluate snap now orders).2.adopted.sourceModeSSM := by
  obtain ⟨hstate, hout⟩ := TopField.sourceMode.adopt_step (.ofVotes (sourceModeVotes snap))
    orders.sourceMode now (adoptShardBits e.cfg (.ofVotes (shardBitsVotes snap)) orders.shardBits now
      ⟨freshView snap, e.timers, e.adopted⟩) hpin hwindow
  rw [← adoptSourceMode_eq] at hstate hout
  rw [modeState, Evaluator.evaluate, Evaluator.pass]
  dsimp only
  rw [sameTop_evaluateDomains.sourceModeSSM, sameTop_evaluateDomains.adoptedSourceModeSSM,
    adoptSuccessor_sourceModeSSM.1, adoptSuccessor_sourceModeSSM.2]
  refine ⟨?_, hout⟩
  have hbefore : fieldState sourceModeKey
      (adoptShardBits e.cfg (.ofVotes (shardBitsVotes snap)) orders.shardBits now
        ⟨freshView snap, e.timers, e.adopted⟩).timers
      (adoptShardBits e.cfg (.ofVotes (shardBitsVotes snap)) orders.shardBits now
        ⟨freshView snap, e.timers, e.adopted⟩).adopted.sourceModeSSM = modeState e := by
    rw [adoptShardBits_adopted, modeState]
    apply fieldState_congr
    intro v
    exact adoptShardBits_timers (by nofun)
  rw [← hbefore]
  refine Eq.trans (fieldState_congr ?_) hstate
  intro v
  rw [sameTop_evaluateDomains.timers _ rfl, adoptSuccessor_timers (by nofun)]

/-! ## Fields as machines -/

/-- A field that the calls of an evaluator with this configuration drive as a hysteresis machine:
its part of the evaluator's state, the candidate a call selects and its value in a view. -/
structure Machine (cfg : EvaluatorConfig) (K : Type) [DecidableEq K] where
  state : Evaluator → State K
  selected : List Entry → Orders → Option K
  shown : Adopted → K
  untimed : ∀ (e : Evaluator) (v : K), (∀ k, e.timers k = none) → (state e).timers v = none
  step : ∀ (e : Evaluator) (snap : List Entry) (now : Int) (orders : Orders),
    e.cfg = cfg →
      state (e.evaluate snap now orders).2 =
          (state e).step cfg.hysteresis now (selected snap orders) ∧
        shown (e.evaluate snap now orders).1 = (state (e.evaluate snap now orders).2).adopted

def bitsMachine (hpin : cfg.pin.shardBits = none) (hwindow : 0 < cfg.hysteresis) :
    Machine cfg UInt8 where
  state := bitsState
  selected := selectedShardBits cfg
  shown := Adopted.shardBits
  untimed := fun _ v h => h (shardBitsKey v)
  step := by
    rintro e snap now orders rfl
    exact evaluate_bitsState e snap now orders hpin hwindow

def modeMachine (hpin : cfg.pin.sourceModeSSM = none) (hwindow : 0 < cfg.hysteresis) :
    Machine cfg Bool where
  state := modeState
  selected := selectedSourceMode cfg
  shown := Adopted.sourceModeSSM
  untimed := fun _ v h => h (sourceModeKey v)
  step := by
    rintro e snap now orders rfl
    exact evaluate_modeState e snap now orders hpin hwindow

/-! ## Runs -/

variable {past : List Evaluation}
  {allowed : Evaluator → List Evaluation → List Entry → Int → Orders → Prop}
  {K : Type} [DecidableEq K]

/-- The timers of a machine date calls of the run, and a candidate has been timed since the first
call that selected it. -/
structure Machine.Timed (machine : Machine cfg K) (e : Evaluator) (past : List Evaluation) :
    Prop where
  timedBy : ∀ now, (∀ r ∈ past, r.now ≤ now) → (machine.state e).TimedBy now
  seenBy : ∀ r ∈ past, ∀ v, machine.selected r.snap r.orders = some v →
    (machine.state e).SeenBy v r.now

theorem Machine.Timed.evaluate {machine : Machine e.cfg K} (h : machine.Timed e past)
    (hclock : ∀ r ∈ past, r.now ≤ now) :
    machine.Timed (e.evaluate snap now orders).2
      (⟨snap, now, orders, (e.evaluate snap now orders).1⟩ :: past) := by
  have htimed := h.timedBy now hclock
  obtain ⟨hstep, _⟩ := machine.step e snap now orders rfl
  constructor
  · intro later hlater v first hfirst
    rw [hstep] at hfirst
    exact (htimed.step v first hfirst).trans (hlater _ List.mem_cons_self)
  · intro r hr v hv
    rw [hstep]
    rcases List.mem_cons.mp hr with rfl | hr
    · dsimp only at hv
      rw [hv]
      exact htimed.seenBy
    · exact (h.seenBy r hr v hv).step

theorem Evaluations.timed (hrun : Evaluations cfg allowed e past) (machine : Machine e.cfg K) :
    machine.Timed e past := by
  induction hrun with
  | start =>
      constructor
      · intro now _ v first hfirst
        rw [machine.untimed _ v (fun _ => rfl)] at hfirst
        cases hfirst
      · intro r hr
        cases hr
  | @call e _ _ _ _ _ hclock _ ih => exact (ih machine).evaluate (e := e) hclock

def Machine.observation (machine : Machine cfg K) (r : Evaluation) : Observation K :=
  ⟨r.now, machine.selected r.snap r.orders⟩

/-- No allowed call brings back an interrupted candidate of the field. -/
def Machine.SteadyUnder (machine : Machine cfg K)
    (allowed : Evaluator → List Evaluation → List Entry → Int → Orders → Prop) : Prop :=
  ∀ (e : Evaluator) (past : List Evaluation) (snap : List Entry) (now : Int) (orders : Orders),
    e.cfg = cfg → allowed e past snap now orders →
      Steady (past.map machine.observation) (machine.state e).adopted now
        (machine.selected snap orders)

/-- Along a steady run a machine keeps its invariant, and each call returns what is adopted. -/
theorem Evaluations.inv (h : Evaluations cfg allowed e past) (machine : Machine e.cfg K)
    (hsteady : machine.SteadyUnder allowed) :
    Inv (machine.state e) (past.map machine.observation) ∧
      ∀ r, past.head? = some r → machine.shown r.result = (machine.state e).adopted := by
  induction h with
  | start => exact ⟨Inv.of_untimed fun v => machine.untimed _ v (fun _ => rfl), by nofun⟩
  | @call e past snap now orders _ _ hallowed ih =>
      obtain ⟨hinv, _⟩ := ih machine hsteady
      obtain ⟨hstate, hout⟩ := machine.step e snap now orders rfl
      refine ⟨?_, ?_⟩
      · rw [hstate]
        exact hinv.step (hsteady e past snap now orders rfl hallowed)
      · rintro r ⟨⟩
        exact hout

/-- In a steady run, a value that a call shows and the call before did not was selected throughout
the last window. -/
theorem Evaluations.heldFor {r prev : Evaluation} {older : List Evaluation}
    (h : Evaluations cfg allowed e (r :: prev :: older)) (machine : Machine e.cfg K)
    (hsteady : machine.SteadyUnder allowed)
    (hnew : machine.shown r.result ≠ machine.shown prev.result) :
    machine.selected r.snap r.orders = some (machine.shown r.result) ∧
      HeldFor e.cfg.hysteresis r.now (machine.shown r.result)
        ((prev :: older).map machine.observation) := by
  cases h with
  | @call e _ snap now orders hpast _ hallowed =>
      obtain ⟨hinv, hprev⟩ := hpast.inv machine hsteady
      obtain ⟨hstate, hout⟩ := machine.step e snap now orders rfl
      rw [hprev prev rfl] at hnew
      dsimp only at hnew ⊢
      rw [hout, hstate] at hnew ⊢
      exact hinv.heldFor (hsteady e _ snap now orders rfl hallowed) hnew

def bitsObservation (cfg : EvaluatorConfig) (r : Evaluation) : Observation UInt8 :=
  ⟨r.now, selectedShardBits cfg r.snap r.orders⟩

def modeObservation (cfg : EvaluatorConfig) (r : Evaluation) : Observation Bool :=
  ⟨r.now, selectedSourceMode cfg r.snap r.orders⟩

/-- The call brings back no interrupted candidate of a field that is not pinned. -/
def SteadyCall (e : Evaluator) (past : List Evaluation) (snap : List Entry) (now : Int)
    (orders : Orders) : Prop :=
  (e.cfg.pin.shardBits = none → Steady (past.map (bitsObservation e.cfg)) e.adopted.shardBits now
    (selectedShardBits e.cfg snap orders)) ∧
  (e.cfg.pin.sourceModeSSM = none → Steady (past.map (modeObservation e.cfg))
    e.adopted.sourceModeSSM now (selectedSourceMode e.cfg snap orders))

/-- In a steady run, a value that a call returns and the call before did not was the candidate with
quorum at every call of the last window, without interruption since a call that old. -/
theorem adoption_heldFor {r prev : Evaluation} {older : List Evaluation}
    (hrun : Evaluations cfg SteadyCall e (r :: prev :: older)) (hwindow : 0 < e.cfg.hysteresis) :
    (e.cfg.pin.shardBits = none → r.result.shardBits ≠ prev.result.shardBits →
      selectedShardBits e.cfg r.snap r.orders = some r.result.shardBits ∧
        HeldFor e.cfg.hysteresis r.now r.result.shardBits
          ((prev :: older).map (bitsObservation e.cfg))) ∧
    (e.cfg.pin.sourceModeSSM = none → r.result.sourceModeSSM ≠ prev.result.sourceModeSSM →
      selectedSourceMode e.cfg r.snap r.orders = some r.result.sourceModeSSM ∧
        HeldFor e.cfg.hysteresis r.now r.result.sourceModeSSM
          ((prev :: older).map (modeObservation e.cfg))) := by
  constructor
  · intro hpin
    apply hrun.heldFor (bitsMachine hpin hwindow)
    intro e' past snap now orders hcfg hsteady
    have hbits := hsteady.1 (by rw [hcfg, hpin])
    rw [hcfg] at hbits
    exact hbits
  · intro hpin
    apply hrun.heldFor (modeMachine hpin hwindow)
    intro e' past snap now orders hcfg hsteady
    have hmode := hsteady.2 (by rw [hcfg, hpin])
    rw [hcfg] at hmode
    exact hmode

/-! ## Small runs -/

/-- An authoritative entry that announces nothing but a shard-bit width. -/
def announcing (bits : UInt8) : Entry := ⟨flagAuthoritative, bits, 0, [], [], none, []⟩

def storedOrders : Orders :=
  ⟨.stored, .stored, .stored, fun _ => .stored, fun _ => .stored, fun _ => .stored, .stored⟩

def unpinned (quorum hysteresis : Int) : EvaluatorConfig :=
  ⟨quorum, hysteresis, ⟨none, none, fun _ => none⟩⟩

/-- The first call of the evaluator starts the timer, the second adopts. -/
theorem adoption_heldFor_two_calls : ∃ e r prev,
    Evaluations (unpinned 1 10) SteadyCall e [r, prev] ∧ r.result.shardBits = 5 ∧
      HeldFor 10 10 (5 : UInt8) [bitsObservation e.cfg prev] := by
  have hmode : ∀ past now, Steady past false now
      (selectedSourceMode (unpinned 1 10) [announcing 5] storedOrders) := by
    intro past now v hv hne
    have hselected : selectedSourceMode (unpinned 1 10) [announcing 5] storedOrders = some false := by
      decide
    rw [hselected] at hv
    exact absurd (Option.some.inj hv).symm hne
  have hstart : Evaluations (unpinned 1 10) SteadyCall _ [] := .start
  have hfirst := hstart.call [announcing 5] 0 storedOrders (by simp)
    ⟨fun _ v _ _ => Or.inr (by simp), fun _ => hmode _ _⟩
  have hsecond := hfirst.call [announcing 5] 10 storedOrders (by simp)
    ⟨fun _ v hv _ => Or.inl ⟨_, rfl, hv⟩, fun _ => hmode _ _⟩
  exact ⟨_, _, _, hsecond, by decide, ((adoption_heldFor hsecond (by decide)).1 rfl (by decide)).2⟩

/-- Width 5 is seen at 0, replaced by 6 at 5, and adopted at 20 on its first return: its timer still
dates from 0. -/
theorem interrupted_candidate_adopted : ∃ e r prev older,
    Evaluations (unpinned 1 10) (fun _ _ _ _ _ => True) e (r :: prev :: older) ∧
      r.result.shardBits ≠ prev.result.shardBits ∧
      ¬ HeldFor 10 r.now r.result.shardBits ((prev :: older).map (bitsObservation e.cfg)) := by
  have hstart : Evaluations (unpinned 1 10) (fun _ _ _ _ _ => True) _ [] := .start
  have hrun := ((hstart.call [announcing 5] 0 storedOrders (by simp) trivial).call
    [announcing 6] 5 storedOrders (by simp) trivial).call
      [announcing 5] 20 storedOrders (by simp) trivial
  refine ⟨_, _, _, _, hrun, by decide, fun hheld => ?_⟩
  exact absurd hheld.head (by decide)

end ShardCommon.Manifest
