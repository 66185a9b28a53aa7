import ShardCommon.Proof.EvaluatorCalls
import ShardCommon.Proof.EvaluatorVotes

/-!
# The tuple behind an adopted successor

Quorum, the one-bit gate and the timer of a successor are computed on the whole tuple, but the
retained view is replaced only when the generation changes. A returned successor therefore has its
quorum in every run where no announced tuple reuses the generation of a retained one.
-/

namespace ShardCommon.Manifest

open ShardCommon.Frame

variable {cfg : EvaluatorConfig} {e : Evaluator} {snap : List Entry} {orders : Orders} {now : Int}
  {p : Pass}

def selectedSuccessor (cfg : EvaluatorConfig) (snap : List Entry) (orders : Orders) :
    Option SuccessorKey :=
  bestSuccessor (orders.successor.visit (Tallies.ofVotes (successorVotes snap)).entries) cfg.quorum

/-- The authoritative entries that carry a Successor block with this very tuple. -/
def successorSupport (snap : List Entry) (sk : SuccessorKey) : Nat :=
  (authorities snap).countP fun en => en.successor.map successorKey = some sk

def SuccessorView.key (view : SuccessorView) : SuccessorKey :=
  ⟨view.generationID, view.shardBits, view.transitionEpoch, view.sourceModeSSM⟩

/-- A selected tuple of the retained view's generation is the retained tuple, or that one has a
quorum of its own. -/
def KeepsGeneration (e : Evaluator) (c : Call) : Prop :=
  ∀ view sv, e.adopted.successor = some view → selectedSuccessor e.cfg c.snap c.orders = some sv →
    sv.gen = view.generationID → view.key = sv ∨ e.cfg.quorum ≤ successorSupport c.snap view.key

theorem successorSupport_of_selected (hquorum : 0 < cfg.quorum) {sv : SuccessorKey}
    (h : selectedSuccessor cfg snap orders = some sv) :
    cfg.quorum ≤ successorSupport snap sv := by
  obtain ⟨t, ht, hcount, _⟩ := Tallies.leads_of_best hquorum orders.successor h
  rw [successorSupport, ← length_voters_announcements, ← successorVotes_eq_announcements,
    ← (Tallies.count_of_lookup ht).1]
  exact hcount

/-- What is adopted for a tuple is that tuple, or the retained view of its generation. -/
theorem replaceSuccessor_cases (retained : Option SuccessorView) (sv : SuccessorKey) (now : Int) :
    (replaceSuccessor retained sv now).key = sv ∨
      retained = some (replaceSuccessor retained sv now) ∧
        sv.gen = (replaceSuccessor retained sv now).generationID := by
  cases retained with
  | none => exact .inl rfl
  | some view =>
      rw [replaceSuccessor]
      split
      · exact .inl rfl
      · next hgen => exact .inr ⟨rfl, (not_not.mp hgen).symm⟩

theorem replaceSuccessor_of_adoptSuccessor {m : Tallies SuccessorKey Entry}
    {order : RangeOrder (Vote SuccessorKey)} (hout : p.out.successor = none) {view : SuccessorView}
    (h : (adoptSuccessor cfg m order now p).out.successor = some view) :
    ∃ sv, bestSuccessor (order.visit m.entries) cfg.quorum = some sv ∧
      withinOneBit p.out.shardBits sv.shardBits = true ∧
      (hysteresisElapsed cfg p.timers ⟨.successor, successorHash sv⟩ now (exemplar m sv)).1 = true ∧
      view = replaceSuccessor p.adopted.successor sv now := by
  rw [adoptSuccessor] at h
  split at h
  · next sv hbest =>
      split at h
      · next hwithin =>
          dsimp only at h
          split at h
          · next helapsed => exact ⟨sv, hbest, hwithin, helapsed, (Option.some.inj h).symm⟩
          · rw [Adopted.setQuorumMet, hout] at h
            cases h
      · rw [hout] at h
        cases h
  · cases h

/-- A returned successor is what the selected tuple puts in place, or finds there; the tuple is
within one bit of the returned width, and its window has run out. -/
theorem evaluate_replaceSuccessor {view : SuccessorView}
    (h : (e.evaluate snap now orders).1.successor = some view) :
    ∃ sv, selectedSuccessor e.cfg snap orders = some sv ∧
      withinOneBit (e.evaluate snap now orders).1.shardBits sv.shardBits = true ∧
      (hysteresisElapsed e.cfg e.timers ⟨.successor, successorHash sv⟩ now
        (exemplar (.ofVotes (successorVotes snap)) sv)).1 = true ∧
      view = replaceSuccessor e.adopted.successor sv now := by
  rw [show (e.evaluate snap now orders).1.successor = _ from sameTop_pass.successor, topPass_eq] at h
  have hwidth : (e.evaluate snap now orders).1.shardBits =
      (e.beforeSuccessor snap now orders).out.shardBits :=
    sameTop_pass.shardBits.trans adoptSuccessor_shardBits.1
  obtain ⟨sv, hsv, hwithin, helapsed, hview⟩ :=
    replaceSuccessor_of_adoptSuccessor beforeSuccessor_out_successor h
  rw [beforeSuccessor_adopted_successor] at hview
  rw [hysteresisElapsed_congr (beforeSuccessor_timers _)] at helapsed
  refine ⟨sv, hsv, ?_, helapsed, hview⟩
  rw [hwidth]
  exact hwithin

/-- A returned successor is the selected tuple, or a retained one of the same generation; the tuple
is within one bit of the returned width. -/
theorem evaluate_successor {view : SuccessorView}
    (h : (e.evaluate snap now orders).1.successor = some view) :
    ∃ sv, selectedSuccessor e.cfg snap orders = some sv ∧
      withinOneBit (e.evaluate snap now orders).1.shardBits sv.shardBits = true ∧
      (view.key = sv ∨ e.adopted.successor = some view ∧ sv.gen = view.generationID) := by
  obtain ⟨sv, hsv, hwithin, -, hview⟩ := evaluate_replaceSuccessor h
  rw [hview]
  exact ⟨sv, hsv, hwithin, replaceSuccessor_cases e.adopted.successor sv now⟩

/-- In a run that keeps its generations, every returned successor has a quorum of entries that carry
exactly its tuple. -/
theorem successor_has_quorum (cfg : EvaluatorConfig) (calls : List Call)
    (hkeeps : ∀ t ∈ (newEvaluator cfg).turns calls, KeepsGeneration t.before t.call) :
    ∀ t ∈ (newEvaluator cfg).turns calls, ∀ view, t.view.successor = some view →
      (newEvaluator cfg).cfg.quorum ≤ successorSupport t.call.snap view.key := by
  intro t ht view hview
  rw [(view_of_mem_turns ht).2] at hview
  rw [← cfg_of_mem_turns ht]
  obtain ⟨sv, hsv, _, hkey | ⟨hretained, hgen⟩⟩ := evaluate_successor hview
  · rw [hkey]
    exact successorSupport_of_selected t.before.quorum_pos hsv
  · rcases hkeeps t ht view sv hretained hsv hgen with hkey | hquorum
    · rw [hkey]
      exact successorSupport_of_selected t.before.quorum_pos hsv
    · exact hquorum

/-- An authoritative entry of width zero that announces a successor of generation zero. -/
def announcingSuccessor (epoch : UInt32) : Entry :=
  { announcing 0 with successor := some ⟨.copy 16 [], 0, 0, epoch⟩ }

theorem successor_has_quorum_two_calls :
    let turns := (newEvaluator (unpinned 1 1)).turns
      [⟨[announcingSuccessor 100], 0, storedOrders⟩, ⟨[announcingSuccessor 100], 1, storedOrders⟩]
    ∃ t ∈ turns, ∃ view, t.view.successor = some view ∧
      1 ≤ successorSupport t.call.snap view.key := by
  intro turns
  have hsecond : turns.get ⟨1, by decide⟩ ∈ turns := List.get_mem _ _
  refine ⟨_, hsecond, ⟨.copy 16 [], 0, false, 100, 1⟩, by decide +kernel, ?_⟩
  have hquorum := successor_has_quorum (unpinned 1 1) _ ?_ _ hsecond
    ⟨.copy 16 [], 0, false, 100, 1⟩ (by decide +kernel)
  · exact Int.ofNat_le.mp hquorum
  · -- neither call finds a view in place
    rw [turns_cons, turns_cons, List.forall_mem_cons, List.forall_mem_cons]
    exact ⟨by nofun, by nofun, List.forall_mem_nil _⟩

/-- Epoch 100 is announced and adopted; then the same generation is announced again for epoch 200,
and the call that finds its timer run out still answers with epoch 100. -/
theorem superseded_successor_returned : ∃ e r older,
    Evaluations (unpinned 1 1) (fun _ _ _ _ _ => True) e (r :: older) ∧
      ∃ view, r.result.successor = some view ∧ ¬ e.cfg.quorum ≤ successorSupport r.snap view.key := by
  have hstart : Evaluations (unpinned 1 1) (fun _ _ _ _ _ => True) _ [] := .start
  have hrun := (((hstart.call [announcingSuccessor 100] 0 storedOrders (by simp) trivial).call
    [announcingSuccessor 100] 1 storedOrders (by simp) trivial).call
      [announcingSuccessor 200] 2 storedOrders (by simp) trivial).call
        [announcingSuccessor 200] 3 storedOrders (by simp) trivial
  exact ⟨_, _, _, hrun, ⟨.copy 16 [], 0, false, 100, 1⟩, by decide +kernel, by decide⟩

end ShardCommon.Manifest
