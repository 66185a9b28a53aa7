import ShardCommon.Proof.EvaluatorSuccessor

/-!
# The timers of successor tuples

A successor is timed under the fold of its tuple, not under the tuple itself. A returned successor
has therefore waited its window under its fold: the tuple that started the timer is the returned one
or one that folds to the same number.
-/

namespace ShardCommon.Manifest

variable {cfg : EvaluatorConfig} {e : Evaluator} {snap : List Entry} {orders : Orders} {now : Int}
  {p : Pass} {past : List Evaluation} {timers : Timers} {k key : FieldKey} {en : Entry}
  {m : Tallies SuccessorKey Entry} {order : RangeOrder (Vote SuccessorKey)} {view : SuccessorView}

/-! ## One call -/

theorem hysteresisElapsed_timer {first : Int}
    (h : (hysteresisElapsed cfg timers key now en).2 k = some first) :
    timers k = some first ∨ k = key ∧ first = now := by
  by_cases hk : k = key
  · subst hk
    rw [hysteresisElapsed] at h
    split at h
    · dsimp only at h
      rw [Function.update_self] at h
      exact .inr ⟨rfl, (Option.some.inj h).symm⟩
    · exact .inl h
  · rw [hysteresisElapsed_of_ne hk] at h
    exact .inl h

/-- With a positive window, nothing is adopted in the call that starts its timer. -/
theorem exists_timer_of_elapsed (hwindow : 0 < cfg.hysteresis)
    (h : (hysteresisElapsed cfg timers key now en).1 = true) :
    ∃ first, timers key = some first ∧ first ≤ now - cfg.hysteresis := by
  have hne : cfg.hysteresis ≠ 0 := by omega
  rw [hysteresisElapsed] at h
  split at h
  · exact absurd (decide_eq_true_eq.mp h).1 hne
  · next first hfirst =>
      rw [if_neg hne] at h
      have := decide_eq_true_eq.mp h
      exact ⟨first, hfirst, by omega⟩

theorem adoptSuccessor_timed {hash : UInt64} {first : Int}
    (h : (adoptSuccessor cfg m order now p).timers ⟨.successor, hash⟩ = some first) :
    p.timers ⟨.successor, hash⟩ = some first ∨
      first = now ∧ ∃ sv, bestSuccessor (order.visit m.entries) cfg.quorum = some sv ∧
        successorHash sv = hash := by
  rw [adoptSuccessor] at h
  split at h
  · next sv hbest =>
      split at h
      · have htimer : (hysteresisElapsed cfg p.timers ⟨.successor, successorHash sv⟩ now
            (exemplar m sv)).2 ⟨.successor, hash⟩ = some first := by
          dsimp only at h
          split at h <;> exact h
        refine (hysteresisElapsed_timer htimer).imp_right ?_
        rintro ⟨hkey, hnow⟩
        exact ⟨hnow, sv, hbest, (FieldKey.mk.inj hkey).2.symm⟩
      · exact .inl h
  · dsimp only at h
    rw [resetField_self] at h
    cases h

theorem adoptSuccessor_retained (hwindow : 0 < cfg.hysteresis)
    (h : (adoptSuccessor cfg m order now p).adopted.successor = some view) :
    p.adopted.successor = some view ∨
      ∃ first, p.timers ⟨.successor, successorHash view.key⟩ = some first ∧
        first ≤ now - cfg.hysteresis := by
  rw [adoptSuccessor] at h
  split at h
  · next sv _ =>
      split at h
      · dsimp only at h
        split at h
        · next helapsed =>
            obtain rfl := Option.some.inj h
            rcases replaceSuccessor_cases p.adopted.successor sv now with hkey | ⟨hkept, _⟩
            · rw [hkey]
              exact .inr (exists_timer_of_elapsed hwindow helapsed)
            · exact .inl hkept
        · exact .inl h
      · exact .inl h
  · cases h

/-- What a call shows as the successor is what it retains. -/
theorem adoptSuccessor_shown (hout : p.out.successor = none) :
    (adoptSuccessor cfg m order now p).out.successor = none ∨
      (adoptSuccessor cfg m order now p).out.successor =
        (adoptSuccessor cfg m order now p).adopted.successor := by
  rw [adoptSuccessor]
  split
  · split
    · dsimp only
      split
      · exact .inr rfl
      · exact .inl hout
    · exact .inl hout
  · exact .inl rfl

theorem evaluate_retained_of_shown (h : (e.evaluate snap now orders).1.successor = some view) :
    (e.evaluate snap now orders).2.adopted.successor = some view := by
  rw [show (e.evaluate snap now orders).1.successor = _ from sameTop_pass.successor, topPass_eq] at h
  rw [show (e.evaluate snap now orders).2.adopted.successor = _ from sameTop_pass.adoptedSuccessor,
    topPass_eq]
  rcases adoptSuccessor_shown beforeSuccessor_out_successor with hnone | hshown
  · rw [hnone] at h
    cases h
  · rw [← hshown, h]

/-! ## A run -/

/-- A call of `past`, at `deadline` or before, selected a tuple that folds to `hash`. -/
def SelectedBy (cfg : EvaluatorConfig) (past : List Evaluation) (hash : UInt64) (deadline : Int) :
    Prop :=
  ∃ q ∈ past, q.now ≤ deadline ∧
    ∃ sv, selectedSuccessor cfg q.snap q.orders = some sv ∧ successorHash sv = hash

theorem SelectedBy.mono {hash : UInt64} {deadline deadline' : Int} (r : Evaluation)
    (h : SelectedBy cfg past hash deadline) (hle : deadline ≤ deadline') :
    SelectedBy cfg (r :: past) hash deadline' := by
  obtain ⟨q, hq, hnow, hselected⟩ := h
  exact ⟨q, List.mem_cons_of_mem r hq, hnow.trans hle, hselected⟩

/-- Running timers and the retained view go back to selections, the view's a window before the last
call or earlier. -/
structure TimersSelected (e : Evaluator) (past : List Evaluation) : Prop where
  timed : ∀ hash first, e.timers ⟨.successor, hash⟩ = some first →
    SelectedBy e.cfg past hash first
  retained : ∀ view, e.adopted.successor = some view → ∀ now, (∀ r ∈ past, r.now ≤ now) →
    SelectedBy e.cfg past (successorHash view.key) (now - e.cfg.hysteresis)

theorem timersSelected_evaluate (hwindow : 0 < e.cfg.hysteresis)
    (hclock : ∀ r ∈ past, r.now ≤ now) (h : TimersSelected e past) :
    TimersSelected (e.evaluate snap now orders).2
      (⟨snap, now, orders, (e.evaluate snap now orders).1⟩ :: past) where
  timed hash first htimer := by
    rw [show (e.evaluate snap now orders).2.timers _ = _ from sameTop_pass.timers _ rfl,
      topPass_eq] at htimer
    rcases adoptSuccessor_timed htimer with hbefore | ⟨rfl, hselected⟩
    · rw [beforeSuccessor_timers] at hbefore
      exact (h.timed hash first hbefore).mono _ le_rfl
    · exact ⟨_, List.mem_cons_self, le_rfl, hselected⟩
  retained view hview time htime := by
    have hnow : now ≤ time := htime _ List.mem_cons_self
    rw [show (e.evaluate snap now orders).2.adopted.successor = _ from
      sameTop_pass.adoptedSuccessor, topPass_eq] at hview
    rcases adoptSuccessor_retained hwindow hview with hbefore | ⟨first, htimer, hfirst⟩
    · rw [beforeSuccessor_adopted_successor] at hbefore
      exact (h.retained view hbefore now hclock).mono _ (Int.sub_le_sub_right hnow _)
    · rw [beforeSuccessor_timers] at htimer
      refine (h.timed _ first htimer).mono _ (hfirst.trans ?_)
      exact Int.sub_le_sub_right hnow _

theorem hysteresis_newEvaluator : (newEvaluator cfg).cfg.hysteresis = cfg.hysteresis := by
  rw [newEvaluator]
  split <;> rfl

theorem Evaluations.hysteresis_eq
    {allowed : Evaluator → List Evaluation → List Entry → Int → Orders → Prop}
    (hrun : Evaluations cfg allowed e past) : e.cfg.hysteresis = cfg.hysteresis := by
  induction hrun with
  | start => exact hysteresis_newEvaluator
  | call _ _ _ _ _ _ ih => exact ih

theorem Evaluations.timersSelected
    {allowed : Evaluator → List Evaluation → List Entry → Int → Orders → Prop}
    (hrun : Evaluations cfg allowed e past) (hwindow : 0 < cfg.hysteresis) :
    TimersSelected e past := by
  induction hrun with
  | start => exact ⟨by rintro _ _ ⟨⟩, by rintro _ ⟨⟩⟩
  | call snap now orders hpast hclock _ ih =>
      rw [← hpast.hysteresis_eq] at hwindow
      exact timersSelected_evaluate hwindow hclock ih

/-- Every returned successor was preceded, by a window or more, by a call that selected its tuple or
one with the same fold. -/
theorem successor_waited_under_fold {r : Evaluation} {older : List Evaluation}
    (hrun : Evaluations cfg (fun _ _ _ _ _ => True) e (r :: older)) (hwindow : 0 < cfg.hysteresis)
    (hview : r.result.successor = some view) :
    ∃ q ∈ older, q.now ≤ r.now - cfg.hysteresis ∧
      ∃ sv, selectedSuccessor e.cfg q.snap q.orders = some sv ∧
        successorHash sv = successorHash view.key := by
  have hselected := hrun.timersSelected hwindow
  have hcfg := hrun.hysteresis_eq
  cases hrun with
  | call snap now orders hpast hclock _ =>
      obtain ⟨q, hq, hnow, hfold⟩ := hselected.retained view (evaluate_retained_of_shown hview) now
        (List.forall_mem_cons.mpr ⟨le_rfl, hclock⟩)
      rw [hcfg] at hnow
      refine ⟨q, ?_, hnow, hfold⟩
      -- the window is positive, so the selection was not made in this very call
      rcases List.mem_cons.mp hq with rfl | hq
      · dsimp only at hnow
        omega
      · exact hq

theorem successor_waited_under_fold_two_calls : ∃ e r prev view,
    Evaluations (unpinned 1 1) (fun _ _ _ _ _ => True) e [r, prev] ∧
      r.result.successor = some view ∧ ∃ q ∈ [prev], q.now ≤ r.now - 1 ∧
        ∃ sv, selectedSuccessor e.cfg q.snap q.orders = some sv ∧
          successorHash sv = successorHash view.key := by
  have hstart : Evaluations (unpinned 1 1) (fun _ _ _ _ _ => True) _ [] := .start
  have hrun := (hstart.call [announcingSuccessor 100] 0 storedOrders (by simp) trivial).call
    [announcingSuccessor 100] 1 storedOrders (by simp) trivial
  refine ⟨_, _, _, ⟨.copy 16 [], 0, false, 100, 1⟩, hrun, by decide +kernel, ?_⟩
  exact successor_waited_under_fold hrun (by decide) (by decide +kernel)

/-- One bit more of width weighs as much in the fold as 131 epochs: the timer that the tuple of width
one and epoch 100 started is the one that lets width zero and epoch 231 through on first sight. -/
theorem successor_timer_shared : ∃ e r prev view,
    Evaluations (unpinned 1 1) (fun _ _ _ _ _ => True) e [r, prev] ∧
      r.result.successor = some view ∧ prev.result.successor = none ∧
        ¬ ∃ q ∈ [prev], q.now ≤ r.now - 1 ∧
          selectedSuccessor e.cfg q.snap q.orders = some view.key := by
  have hstart : Evaluations (unpinned 1 1) (fun _ _ _ _ _ => True) _ [] := .start
  have hrun := (hstart.call
    [{ announcing 0 with successor := some ⟨.copy 16 [], 1, 0, 100⟩ }] 0 storedOrders (by simp)
      trivial).call [announcingSuccessor 231] 1 storedOrders (by simp) trivial
  exact ⟨_, _, _, ⟨.copy 16 [], 0, false, 231, 1⟩, hrun, by decide +kernel, by decide +kernel,
    by decide +kernel⟩

end ShardCommon.Manifest
