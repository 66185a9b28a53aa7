import ShardCommon.Proof.EvaluatorCalls
import ShardCommon.Proof.EvaluatorHysteresis

/-!
# The order of the scans

A scan keeps the first of several candidates with the same count, so what an evaluator adopts can
depend on the order Go visits its maps in. It does exactly when two candidates for a field that the
operator has not pinned share the largest count at or above the quorum.
-/

namespace ShardCommon.Manifest

open ShardCommon.Frame

variable {cfg : EvaluatorConfig} {e : Evaluator} {snap : List Entry} {orders : Orders} {now : Int}
  {p q : Pass} {timers : Timers} {k : FieldKey} {en : Entry} {id : UInt8}

/-- Every evaluator of this configuration answers and ends alike in any two orders. -/
def OrderFree (cfg : EvaluatorConfig) (snap : List Entry) : Prop :=
  ∀ e : Evaluator, e.cfg = cfg → ∀ now orders orders',
    e.evaluate snap now orders = e.evaluate snap now orders'

/-- A tie that no pin overrides. A tie between successors is overridden when each of them is more
than one bit away from the pinned width. -/
inductive UnpinnedTie (cfg : EvaluatorConfig) (snap : List Entry) : Prop
  | shardBits (hpin : cfg.pin.shardBits = none)
      (htie : (Tallies.ofVotes (shardBitsVotes snap)).Tied cfg.quorum)
  | sourceMode (hpin : cfg.pin.sourceModeSSM = none)
      (htie : (Tallies.ofVotes (sourceModeVotes snap)).Tied cfg.quorum)
  | successor (sv : SuccessorKey) (hsv : (Tallies.ofVotes (successorVotes snap)).Leads cfg.quorum sv)
      (hshift : ∀ pin, cfg.pin.shardBits = some pin → withinOneBit pin sv.shardBits)
      (htie : (Tallies.ofVotes (successorVotes snap)).Tied cfg.quorum)
  | domainShardBits (id : UInt8) (hpin : cfg.pin.domainShardBits id = none)
      (htie : (Tallies.ofVotes (domainShardBitsVotes snap id)).Tied cfg.quorum)
  | domainSourceMode (id : UInt8) (hpin : cfg.pin.domainShardBits id = none)
      (htie : (Tallies.ofVotes (domainSourceModeVotes snap id)).Tied cfg.quorum)
  | domainSuccessor (id : UInt8) (hpin : cfg.pin.domainShardBits id = none)
      (htie : (Tallies.ofVotes (domainSuccessorVotes snap id)).Tied cfg.quorum)

/-! ## Without a tie the order does not matter -/

section Fields

variable {K : Type} [DecidableEq K] [Inhabited K]

theorem TopField.adopt_order (f : TopField K) {m : Tallies K Entry} (hquorum : 0 < cfg.quorum)
    (h : f.pin cfg.pin = none → ¬ m.Tied cfg.quorum) (order order' : RangeOrder (Vote K)) :
    f.adopt cfg m order now p = f.adopt cfg m order' now p := by
  rw [adopt, adopt]
  cases hpin : f.pin cfg.pin with
  | some pin => rfl
  | none => rw [Tallies.best_eq_of_not_tied hquorum (h hpin) order order']

theorem PlaneField.adopt_order (f : PlaneField K) (hquorum : 0 < cfg.quorum)
    (h : ¬ (f.tallies snap).Tied cfg.quorum) (order order' : RangeOrder (Vote K)) (s : Plane) :
    f.adopt cfg snap order now s = f.adopt cfg snap order' now s := by
  rw [adopt, adopt, Tallies.best_eq_of_not_tied hquorum h order order']

end Fields

/-- Leaders that are all too far from the current width leave the pass as it is. -/
theorem adoptSuccessor_of_far {m : Tallies SuccessorKey Entry} (hquorum : 0 < cfg.quorum)
    {sv : SuccessorKey} (hsv : m.Leads cfg.quorum sv)
    (hfar : ∀ sv, m.Leads cfg.quorum sv → ¬ withinOneBit p.out.shardBits sv.shardBits)
    (order : RangeOrder (Vote SuccessorKey)) : adoptSuccessor cfg m order now p = p := by
  obtain ⟨winner, hwinner⟩ := Tallies.exists_best_of_leads order hsv
  rw [adoptSuccessor, bestSuccessor, hwinner]
  exact if_neg (hfar winner (Tallies.leads_of_best hquorum order hwinner))

theorem adoptSuccessor_order {m : Tallies SuccessorKey Entry} (hquorum : 0 < cfg.quorum)
    (h : m.Tied cfg.quorum →
      ∀ sv, m.Leads cfg.quorum sv → ¬ withinOneBit p.out.shardBits sv.shardBits)
    (order order' : RangeOrder (Vote SuccessorKey)) :
    adoptSuccessor cfg m order now p = adoptSuccessor cfg m order' now p := by
  by_cases htie : m.Tied cfg.quorum
  · have hfar := h htie
    obtain ⟨sv, _, _, hsv, _⟩ := htie
    rw [adoptSuccessor_of_far hquorum hsv hfar, adoptSuccessor_of_far hquorum hsv hfar]
  · rw [adoptSuccessor, adoptSuccessor, bestSuccessor, bestSuccessor,
      Tallies.best_eq_of_not_tied hquorum htie order order']

theorem adoptDomainSuccessor_order (hquorum : 0 < cfg.quorum)
    (h : ¬ (Tallies.ofVotes (domainSuccessorVotes snap id)).Tied cfg.quorum)
    (order order' : RangeOrder (Vote SuccessorKey)) :
    adoptDomainSuccessor cfg snap order now id = adoptDomainSuccessor cfg snap order' now id := by
  funext s
  rw [adoptDomainSuccessor, adoptDomainSuccessor, bestSuccessor, bestSuccessor,
    Tallies.best_eq_of_not_tied hquorum h order order']

theorem evaluateDomain_order (hquorum : 0 < cfg.quorum) (h : ¬ UnpinnedTie cfg snap)
    (orders orders' : Orders) (s : Plane) :
    evaluateDomain cfg snap orders now id s = evaluateDomain cfg snap orders' now id s := by
  rw [evaluateDomain, evaluateDomain]
  cases hpin : cfg.pin.domainShardBits id with
  | some pin => rfl
  | none =>
      have hbits := fun htie => h (.domainShardBits id hpin htie)
      have hmode := fun htie => h (.domainSourceMode id hpin htie)
      have hsucc := fun htie => h (.domainSuccessor id hpin htie)
      simp only [adoptDomainShardBits_eq, adoptDomainSourceMode_eq]
      rw [(PlaneField.shardBits id).adopt_order hquorum hbits (orders.domainShardBits id)
          (orders'.domainShardBits id),
        (PlaneField.sourceMode id).adopt_order hquorum hmode (orders.domainSourceMode id)
          (orders'.domainSourceMode id),
        adoptDomainSuccessor_order hquorum hsucc (orders.domainSuccessor id)
          (orders'.domainSuccessor id)]

theorem adoptShardBits_of_pin {m : Tallies UInt8 Entry} {order : RangeOrder (Vote UInt8)}
    {pin : UInt8} (hpin : cfg.pin.shardBits = some pin) :
    (adoptShardBits cfg m order now p).out.shardBits = pin := by
  rw [adoptShardBits, hpin]
  rfl

theorem topPass_order (h : ¬ UnpinnedTie e.cfg snap) (now : Int) (orders orders' : Orders) :
    e.topPass snap now orders = e.topPass snap now orders' := by
  have hbits := fun hpin htie => h (.shardBits hpin htie)
  have hmode := fun hpin htie => h (.sourceMode hpin htie)
  rw [Evaluator.topPass, Evaluator.topPass]
  simp only [adoptShardBits_eq, adoptSourceMode_eq]
  rw [TopField.shardBits.adopt_order e.quorum_pos hbits orders.shardBits orders'.shardBits,
    TopField.sourceMode.adopt_order e.quorum_pos hmode orders.sourceMode orders'.sourceMode,
    ← adoptShardBits_eq, ← adoptSourceMode_eq]
  apply adoptSuccessor_order e.quorum_pos
  intro htie sv hsv hshift
  apply h
  refine .successor sv hsv ?_ htie
  intro pin hpin
  rwa [adoptSourceMode_shardBits.1, adoptShardBits_of_pin hpin] at hshift

theorem evaluate_of_sameUpToReports {orders' : Orders}
    (h : SameUpToReports (e.pass snap now orders) (e.pass snap now orders')) :
    e.evaluate snap now orders = e.evaluate snap now orders' := by
  rw [Evaluator.evaluate, Evaluator.evaluate]
  dsimp only
  rw [sort_reports h.reports, h.timers, h.adopted, ← h.out]

theorem orderFree_of_not_tie (h : ¬ UnpinnedTie cfg snap) : OrderFree cfg snap := by
  rintro e rfl now orders orders'
  apply evaluate_of_sameUpToReports
  show SameUpToReports (evaluateDomains e.cfg snap orders now (e.topPass snap now orders))
    (evaluateDomains e.cfg snap orders' now (e.topPass snap now orders'))
  rw [topPass_order h now orders orders']
  exact sameUpToReports_evaluateDomains fun id s => evaluateDomain_order e.quorum_pos h _ _ s

/-! ## Every tie shows in some state -/

/-- A first sight that is long enough ago for any window. -/
def longAgo (cfg : EvaluatorConfig) (now : Int) : Int := now - |cfg.hysteresis| - 2 * 65536 * second

/-- A first sight that is too recent for any window. -/
def tooRecent (cfg : EvaluatorConfig) (now : Int) : Int := now + 1 - cfg.hysteresis

theorem hysteresisElapsed_longAgo (h : timers k = some (longAgo cfg now)) :
    (hysteresisElapsed cfg timers k now en).1 = true := by
  have hinterval : en.announceInterval.toNat < 65536 := en.announceInterval.toNat_lt
  have habs := le_abs_self cfg.hysteresis
  have hnonneg := abs_nonneg cfg.hysteresis
  rw [hysteresisElapsed, h, decide_eq_true_iff]
  simp only [longAgo, second]
  split <;> omega

theorem hysteresisElapsed_tooRecent (h : timers k = some (tooRecent cfg now)) :
    (hysteresisElapsed cfg timers k now en).1 = false := by
  rw [hysteresisElapsed, h, decide_eq_false_iff_not]
  simp only [tooRecent, second]
  split <;> omega

/-- Timing a candidate of an untimed field starts the timer of that candidate only. -/
theorem hysteresisElapsed_startsTimer {K : Type} [DecidableEq K] {key : K → FieldKey}
    (hkey : Function.Injective key) (hfresh : ∀ w, timers (key w) = none) (v w : K) :
    (hysteresisElapsed cfg timers (key v) now en).2 (key w) = if w = v then some now else none := by
  rw [hysteresisElapsed, hfresh]
  dsimp only
  by_cases h : w = v
  · rw [h, Function.update_self, if_pos rfl]
  · rw [Function.update_of_ne (hkey.ne h), hfresh, if_neg h]

theorem SuccessorKey.view_injective (now : Int) :
    Function.Injective fun sv : SuccessorKey => sv.view now := by
  rintro ⟨⟩ ⟨⟩ h
  simp only [SuccessorKey.view, SuccessorView.mk.injEq] at h
  obtain ⟨rfl, rfl, rfl, rfl, -⟩ := h
  rfl

/-- The order that visits one candidate before all others. -/
def first {K : Type} [DecidableEq K] (v : K) : RangeOrder (Vote K) :=
  .favouring fun p => decide (p.1 = v)

theorem best_first {K : Type} [DecidableEq K] [Inhabited K] {m : Tallies K Entry} {v : K}
    (hquorum : 0 < cfg.quorum) (h : m.Leads cfg.quorum v) :
    Tallies.best ((first v).visit m.entries) cfg.quorum = some v :=
  Tallies.best_favouring hquorum h

theorem TopField.adopt_startsTimer {K : Type} [DecidableEq K] [Inhabited K] {f : TopField K}
    {m : Tallies K Entry} {order : RangeOrder (Vote K)} {v : K} (hpin : f.pin cfg.pin = none)
    (hbest : Tallies.best (order.visit m.entries) cfg.quorum = some v)
    (hfresh : ∀ w, p.timers (f.key w) = none) (w : K) :
    (f.adopt cfg m order now p).timers (f.key w) = if w = v then some now else none := by
  rw [adopt_of_selected hpin hbest, elapsed_eq]
  · exact hysteresisElapsed_startsTimer f.key_injective hfresh v w
  · intro _
    right
    intro first hfirst
    rw [hfresh] at hfirst
    cases hfirst

theorem PlaneField.adopt_startsTimer {K : Type} [DecidableEq K] [Inhabited K] {f : PlaneField K}
    {s : Plane} {v : K} (hquorum : 0 < cfg.quorum) (hv : (f.tallies snap).Leads cfg.quorum v)
    (hfresh : ∀ w, s.2 (f.key w) = none) (w : K) :
    (f.adopt cfg snap (first v) now s).2 (f.key w) = if w = v then some now else none := by
  rw [adopt_of_selected (best_first hquorum hv)]
  exact hysteresisElapsed_startsTimer f.key_injective hfresh v w

def domainShardBitsKey (id v : UInt8) : FieldKey := ⟨.domainShardBits id, v.toUInt64⟩

def domainSourceModeKey (id : UInt8) (v : Bool) : FieldKey := ⟨.domainSourceMode id, boolToUint64 v⟩

theorem planeResult_startsBitsTimer (orders : Orders) {v : UInt8}
    (hpin : cfg.pin.domainShardBits id = none) (hmem : descriptors snap id ≠ [])
    (hquorum : 0 < cfg.quorum) (horder : orders.domainShardBits id = first v)
    (hv : (Tallies.ofVotes (domainShardBitsVotes snap id)).Leads cfg.quorum v)
    (hfresh : ∀ w, p.timers (domainShardBitsKey id w) = none) (w : UInt8) :
    (planeResult cfg snap orders now p id).2 (domainShardBitsKey id w) =
      if w = v then some now else none := by
  rw [planeResult, evaluateDomain_of_unpinned hpin hmem, adoptDomainSuccessor_timers (by nofun),
    adoptDomainSourceMode_timers (by nofun), adoptDomainShardBits_eq, horder]
  exact PlaneField.adopt_startsTimer (f := .shardBits id) hquorum hv hfresh w

theorem planeResult_startsModeTimer (orders : Orders) {v : Bool}
    (hpin : cfg.pin.domainShardBits id = none) (hmem : descriptors snap id ≠ [])
    (hquorum : 0 < cfg.quorum) (horder : orders.domainSourceMode id = first v)
    (hv : (Tallies.ofVotes (domainSourceModeVotes snap id)).Leads cfg.quorum v)
    (hfresh : ∀ w, p.timers (domainSourceModeKey id w) = none) (w : Bool) :
    (planeResult cfg snap orders now p id).2 (domainSourceModeKey id w) =
      if w = v then some now else none := by
  rw [planeResult, evaluateDomain_of_unpinned hpin hmem, adoptDomainSuccessor_timers (by rintro ⟨⟩),
    adoptDomainSourceMode_eq, horder]
  refine PlaneField.adopt_startsTimer (f := .sourceMode id) hquorum hv ?_ w
  intro w
  rw [adoptDomainShardBits_timers (by rintro ⟨⟩)]
  exact hfresh w

/-! ### Ties that start different timers -/

def Evaluator.untimed (e : Evaluator) : Evaluator := { e with timers := fun _ => none }

theorem not_orderFree_of_startsTimer {K : Type} [DecidableEq K] {m : Tallies K Entry}
    (key : K → FieldKey) (ordersFor : K → Orders)
    (hstart : ∀ v w, m.Leads e.cfg.quorum v →
      (e.untimed.pass snap 0 (ordersFor v)).timers (key w) = if w = v then some 0 else none)
    (htie : m.Tied e.cfg.quorum) : ¬ OrderFree e.cfg snap := by
  intro h
  obtain ⟨a, b, hne, ha, hb⟩ := htie
  have htimers : (e.untimed.pass snap 0 (ordersFor a)).timers =
      (e.untimed.pass snap 0 (ordersFor b)).timers :=
    congrArg (·.2.timers) (h e.untimed rfl 0 (ordersFor a) (ordersFor b))
  have hkey := congrFun htimers (key a)
  rw [hstart a a ha, hstart b a hb, if_pos rfl, if_neg hne] at hkey
  cases hkey

theorem not_orderFree_of_shardBits (hpin : e.cfg.pin.shardBits = none)
    (htie : (Tallies.ofVotes (shardBitsVotes snap)).Tied e.cfg.quorum) : ¬ OrderFree e.cfg snap := by
  apply not_orderFree_of_startsTimer shardBitsKey
    (fun v => { storedOrders with shardBits := first v }) _ htie
  intro v w hv
  rw [Evaluator.pass, sameTop_evaluateDomains.timers _ rfl, adoptSuccessor_timers (by rintro ⟨⟩),
    adoptSourceMode_timers (by rintro ⟨⟩)]
  rw [adoptShardBits_eq]
  refine TopField.adopt_startsTimer (f := .shardBits) hpin (best_first e.quorum_pos hv) ?_ w
  intro w
  rfl

theorem not_orderFree_of_sourceMode (hpin : e.cfg.pin.sourceModeSSM = none)
    (htie : (Tallies.ofVotes (sourceModeVotes snap)).Tied e.cfg.quorum) : ¬ OrderFree e.cfg snap := by
  apply not_orderFree_of_startsTimer sourceModeKey
    (fun v => { storedOrders with sourceMode := first v }) _ htie
  intro v w hv
  rw [Evaluator.pass, sameTop_evaluateDomains.timers _ rfl, adoptSuccessor_timers (by rintro ⟨⟩)]
  rw [adoptSourceMode_eq]
  refine TopField.adopt_startsTimer (f := .sourceMode) hpin (best_first e.quorum_pos hv) ?_ w
  intro w
  rw [adoptShardBits_timers (by rintro ⟨⟩)]
  rfl

theorem untimed_topPass_planeTimers (hk : k.field.plane? = some id) :
    (e.untimed.topPass snap now orders).timers k = none := topPass_planeTimers hk

/-- A candidate with votes comes from a plane with descriptors. -/
theorem descriptors_ne_nil {K : Type} [DecidableEq K] {votes : List (K × Entry)} {v : K}
    (hvotes : descriptors snap id = [] → votes = []) (h : (Tallies.ofVotes votes).Leads cfg.quorum v) :
    descriptors snap id ≠ [] := by
  intro hnil
  obtain ⟨t, ht, -⟩ := h
  rw [hvotes hnil] at ht
  cases ht

/-- A tie on a plane shows if the plane starts the timer of whichever candidate is visited first. -/
theorem not_orderFree_of_planeTimer {K : Type} [DecidableEq K] {votes : List (K × Entry)}
    (key : K → FieldKey) (ordersFor : K → Orders) (hplane : ∀ w, (key w).field.plane? = some id)
    (hvotes : descriptors snap id = [] → votes = [])
    (hstart : ∀ v w p, descriptors snap id ≠ [] → (Tallies.ofVotes votes).Leads e.cfg.quorum v →
      (∀ w, p.timers (key w) = none) →
        (planeResult e.cfg snap (ordersFor v) 0 p id).2 (key w) = if w = v then some 0 else none)
    (htie : (Tallies.ofVotes votes).Tied e.cfg.quorum) : ¬ OrderFree e.cfg snap := by
  apply not_orderFree_of_startsTimer key ordersFor _ htie
  intro v w hv
  have hmem := descriptors_ne_nil hvotes hv
  rw [pass_eq, evaluateDomains_planeTimers hmem (hplane w)]
  exact hstart v w _ hmem hv fun w => untimed_topPass_planeTimers (hplane w)

theorem not_orderFree_of_domainShardBits (hpin : e.cfg.pin.domainShardBits id = none)
    (htie : (Tallies.ofVotes (domainShardBitsVotes snap id)).Tied e.cfg.quorum) :
    ¬ OrderFree e.cfg snap := by
  refine not_orderFree_of_planeTimer (domainShardBitsKey id)
    (fun v => { storedOrders with domainShardBits := fun _ => first v }) (fun _ => rfl) ?_ ?_ htie
  · intro hnil
    rw [domainShardBitsVotes, hnil]
    rfl
  · intro v w p hmem hv hfresh
    exact planeResult_startsBitsTimer _ hpin hmem e.quorum_pos rfl hv hfresh w

theorem not_orderFree_of_domainSourceMode (hpin : e.cfg.pin.domainShardBits id = none)
    (htie : (Tallies.ofVotes (domainSourceModeVotes snap id)).Tied e.cfg.quorum) :
    ¬ OrderFree e.cfg snap := by
  refine not_orderFree_of_planeTimer (domainSourceModeKey id)
    (fun v => { storedOrders with domainSourceMode := fun _ => first v }) (fun _ => rfl) ?_ ?_ htie
  · intro hnil
    rw [domainSourceModeVotes, hnil]
    rfl
  · intro v w p hmem hv hfresh
    exact planeResult_startsModeTimer _ hpin hmem e.quorum_pos rfl hv hfresh w

/-! ### Ties between successors -/

/-- Timers by which nothing but a width has still to wait. -/
def stagedTimers (cfg : EvaluatorConfig) (now : Int) : Timers := fun k =>
  match k.field with
  | .shardBits => some (tooRecent cfg now)
  | .domainShardBits _ => some (tooRecent cfg now)
  | _ => some (longAgo cfg now)

/-- An evaluator that retains the width `bits` everywhere and is about to adopt a first successor. -/
def Evaluator.staged (e : Evaluator) (bits : UInt8) : Evaluator :=
  { e with
    timers := stagedTimers e.cfg 0
    adopted := ⟨bits, false, none, fun _ => some ⟨bits, false, none, false, false⟩⟩ }

theorem withinOneBit_self (bits : UInt8) : withinOneBit bits bits = true := by
  rw [withinOneBit, UInt8.sub_self]
  split <;> rfl

theorem adoptShardBits_tooRecent {m : Tallies UInt8 Entry} {order : RangeOrder (Vote UInt8)}
    (htimers : ∀ w, p.timers (shardBitsKey w) = some (tooRecent cfg now)) :
    (adoptShardBits cfg m order now p).out.shardBits =
      (cfg.pin.shardBits.getD p.adopted.shardBits) := by
  rw [adoptShardBits]
  cases cfg.pin.shardBits with
  | some pin => rfl
  | none =>
      dsimp only
      split
      · next v _ =>
          rw [← shardBitsKey, hysteresisElapsed_tooRecent (htimers v)]
          split <;> rfl
      · rfl

theorem adoptSuccessor_longAgo {m : Tallies SuccessorKey Entry}
    {order : RangeOrder (Vote SuccessorKey)} (sv : SuccessorKey)
    (hbest : bestSuccessor (order.visit m.entries) cfg.quorum = some sv)
    (hout : p.out.successor = none) (hretained : p.adopted.successor = none)
    (htimer : p.timers ⟨.successor, successorHash sv⟩ = some (longAgo cfg now)) :
    (adoptSuccessor cfg m order now p).out.successor =
      if withinOneBit p.out.shardBits sv.shardBits then some (sv.view now) else none := by
  rw [adoptSuccessor, hbest]
  dsimp only
  split
  · rw [hysteresisElapsed_longAgo htimer, if_pos rfl, hretained]
    rfl
  · exact hout

/-- In the staged state a call answers with the selected successor, unless it is out of reach. -/
theorem staged_successor (e : Evaluator) (bits : UInt8) {sv : SuccessorKey}
    (horder : orders.successor = first sv)
    (hsv : (Tallies.ofVotes (successorVotes snap)).Leads e.cfg.quorum sv) :
    ((e.staged bits).evaluate snap 0 orders).1.successor =
      if withinOneBit (e.cfg.pin.shardBits.getD bits) sv.shardBits then some (sv.view 0) else none := by
  rw [Evaluator.evaluate]
  dsimp only
  rw [pass_eq, sameTop_evaluateDomains.successor, Evaluator.topPass, adoptSuccessor_longAgo sv,
    adoptSourceMode_shardBits.1, adoptShardBits_tooRecent]
  · rfl
  · intro w
    rfl
  · rw [horder]
    exact best_first e.quorum_pos hsv
  · rw [adoptSourceMode_out_successor, adoptShardBits_out_successor]
    rfl
  · rw [adoptSourceMode_adopted, adoptShardBits_adopted]
    rfl
  · rw [adoptSourceMode_timers (by rintro ⟨⟩), adoptShardBits_timers (by rintro ⟨⟩)]
    rfl

theorem not_orderFree_of_successor {sv : SuccessorKey}
    (hsv : (Tallies.ofVotes (successorVotes snap)).Leads e.cfg.quorum sv)
    (hshift : ∀ pin, e.cfg.pin.shardBits = some pin → withinOneBit pin sv.shardBits)
    (htie : (Tallies.ofVotes (successorVotes snap)).Tied e.cfg.quorum) : ¬ OrderFree e.cfg snap := by
  intro h
  obtain ⟨other, hne, hother⟩ := htie.exists_other sv
  have hreach : withinOneBit (e.cfg.pin.shardBits.getD sv.shardBits) sv.shardBits = true := by
    cases hpin : e.cfg.pin.shardBits with
    | some pin => exact hshift pin hpin
    | none => exact withinOneBit_self _
  have hsame := congrArg (·.1.successor) (h (e.staged sv.shardBits) rfl 0
    { storedOrders with successor := first sv } { storedOrders with successor := first other })
  dsimp only at hsame
  rw [staged_successor e _ rfl hsv, staged_successor e _ rfl hother, if_pos hreach] at hsame
  split at hsame
  · exact hne (SuccessorKey.view_injective 0 (Option.some.inj hsame)).symm
  · cases hsame

theorem adoptDomainShardBits_tooRecent {order : RangeOrder (Vote UInt8)} {s : Plane}
    (htimers : ∀ w, s.2 (domainShardBitsKey id w) = some (tooRecent cfg now)) :
    (adoptDomainShardBits cfg snap order now id s).1.shardBits = s.1.shardBits ∧
      (adoptDomainShardBits cfg snap order now id s).1.successor = s.1.successor := by
  rw [adoptDomainShardBits]
  dsimp only
  split
  · next v _ =>
      rw [← domainShardBitsKey, hysteresisElapsed_tooRecent (htimers v)]
      exact ⟨rfl, rfl⟩
  · exact ⟨rfl, rfl⟩

theorem adoptDomainSuccessor_longAgo {order : RangeOrder (Vote SuccessorKey)} {s : Plane}
    (sv : SuccessorKey) (hbest : bestSuccessor (order.visit
      (Tallies.ofVotes (domainSuccessorVotes snap id)).entries) cfg.quorum = some sv)
    (hretained : s.1.successor = none)
    (htimer : s.2 ⟨.domainSuccessor id, successorHash sv⟩ = some (longAgo cfg now)) :
    (adoptDomainSuccessor cfg snap order now id s).1.successor =
      if withinOneBit s.1.shardBits sv.shardBits then some (sv.view now) else none := by
  rw [adoptDomainSuccessor]
  dsimp only
  rw [hbest]
  dsimp only
  split
  · rw [hysteresisElapsed_longAgo htimer, if_pos rfl, hretained]
    rfl
  · exact hretained

theorem staged_topPass_domains (bits : UInt8) :
    ((e.staged bits).topPass snap now orders).adopted.domains id =
      some ⟨bits, false, none, false, false⟩ := by
  rw [Evaluator.topPass, adoptSuccessor_adopted, adoptSourceMode_adopted, adoptShardBits_adopted]
  rfl

theorem staged_planeResult (e : Evaluator) (bits : UInt8) {sv : SuccessorKey}
    (hpin : e.cfg.pin.domainShardBits id = none) (hmem : descriptors snap id ≠ [])
    (horder : orders.domainSuccessor id = first sv)
    (hsv : (Tallies.ofVotes (domainSuccessorVotes snap id)).Leads e.cfg.quorum sv) :
    (planeResult e.cfg snap orders 0 ((e.staged bits).topPass snap 0 orders) id).1.successor =
      if withinOneBit bits sv.shardBits then some (sv.view 0) else none := by
  have htimers : ∀ k : FieldKey, k.field.plane? = some id →
      ((e.staged bits).topPass snap 0 orders).timers k = stagedTimers e.cfg 0 k :=
    fun k hk => topPass_planeTimers hk
  have hbits : ∀ w, ((e.staged bits).topPass snap 0 orders).timers (domainShardBitsKey id w) =
      some (tooRecent e.cfg 0) := fun w => htimers _ rfl
  have hsucc : ((e.staged bits).topPass snap 0 orders).timers ⟨.domainSuccessor id, successorHash sv⟩ =
      some (longAgo e.cfg 0) := htimers _ rfl
  rw [planeResult, evaluateDomain_of_unpinned hpin hmem, staged_topPass_domains,
    adoptDomainSuccessor_longAgo sv, adoptDomainSourceMode_others.1,
    (adoptDomainShardBits_tooRecent hbits).1]
  · rfl
  · rw [horder]
    exact best_first e.quorum_pos hsv
  · rw [adoptDomainSourceMode_others.2, (adoptDomainShardBits_tooRecent hbits).2]
    rfl
  · exact (planeBeforeSuccessor_timers _).trans hsucc

theorem not_orderFree_of_domainSuccessor (hpin : e.cfg.pin.domainShardBits id = none)
    (htie : (Tallies.ofVotes (domainSuccessorVotes snap id)).Tied e.cfg.quorum) :
    ¬ OrderFree e.cfg snap := by
  intro h
  obtain ⟨sv, other, hne, hsv, hother⟩ := htie
  have hmem : descriptors snap id ≠ [] :=
    descriptors_ne_nil (fun hnil => by rw [domainSuccessorVotes, hnil]; rfl) hsv
  have hdomain : ∀ orders, ((e.staged sv.shardBits).evaluate snap 0 orders).1.domains id =
      some (planeResult e.cfg snap orders 0 ((e.staged sv.shardBits).topPass snap 0 orders) id).1 :=
    fun orders => evaluateDomains_domains hmem
  have hsame := congrArg (·.1.domains id) (h (e.staged sv.shardBits) rfl 0
    { storedOrders with domainSuccessor := fun _ => first sv }
    { storedOrders with domainSuccessor := fun _ => first other })
  dsimp only at hsame
  rw [hdomain, hdomain] at hsame
  have hviews := congrArg DomainAdoption.successor (Option.some.inj hsame)
  rw [staged_planeResult e _ hpin hmem rfl hsv, staged_planeResult e _ hpin hmem rfl hother,
    if_pos (withinOneBit_self _)] at hviews
  split at hviews
  · exact hne (SuccessorKey.view_injective 0 (Option.some.inj hviews))
  · cases hviews

/-! ## The condition -/

/-- The order of the scans never matters exactly when no field that is left to the announcers is
tied. -/
theorem orderFree_iff_not_unpinnedTie (e : Evaluator) (snap : List Entry) :
    OrderFree e.cfg snap ↔ ¬ UnpinnedTie e.cfg snap := by
  constructor
  · intro h htie
    cases htie with
    | shardBits hpin htie => exact not_orderFree_of_shardBits hpin htie h
    | sourceMode hpin htie => exact not_orderFree_of_sourceMode hpin htie h
    | successor sv hsv hshift htie => exact not_orderFree_of_successor hsv hshift htie h
    | domainShardBits id hpin htie => exact not_orderFree_of_domainShardBits hpin htie h
    | domainSourceMode id hpin htie => exact not_orderFree_of_domainSourceMode hpin htie h
    | domainSuccessor id hpin htie => exact not_orderFree_of_domainSuccessor hpin htie h
  · exact orderFree_of_not_tie

/-- Two announcers for each of two widths at a quorum of two: a new evaluator adopts whichever width
its scan meets first. -/
theorem tied_widths_adopted_by_order :
    (((newEvaluator (unpinned 2 0)).evaluate
        [announcing 5, announcing 5, announcing 6, announcing 6] 0
        { storedOrders with shardBits := first 5 }).1.shardBits = 5) ∧
      (((newEvaluator (unpinned 2 0)).evaluate
        [announcing 5, announcing 5, announcing 6, announcing 6] 0
        { storedOrders with shardBits := first 6 }).1.shardBits = 6) := by
  decide +kernel

end ShardCommon.Manifest
