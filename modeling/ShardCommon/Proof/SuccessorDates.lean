import ShardCommon.Proof.EvaluatorSuccessor

/-!
# The date of a successor

A successor view is stamped in the call that puts it in place, which is the call that finds its
window elapsed, not the one that first saw its quorum; and a view put in place earlier is shown again
for any tuple of its generation. The stamp dates the first quorum in the runs where a tuple whose
window has run out is put in place by the first call of its series, or has been in place since an
earlier call of the same series.
-/

namespace ShardCommon.Manifest

open ShardCommon.Frame

variable {cfg : EvaluatorConfig} {e : Evaluator} {snap : List Entry} {orders : Orders} {now : Int}
  {past older : List Evaluation} {r q : Evaluation} {sv : SuccessorKey} {view : SuccessorView}

/-- The call selected this tuple with quorum, within one bit of the width it returned. -/
def Evaluation.shows (cfg : EvaluatorConfig) (sv : SuccessorKey) (q : Evaluation) : Bool :=
  selectedSuccessor cfg q.snap q.orders = some sv ∧ withinOneBit q.result.shardBits sv.shardBits = true

/-- The time of the oldest call of the unbroken series that shows the tuple up to a call at `now`. -/
def seriesStart (cfg : EvaluatorConfig) (past : List Evaluation) (sv : SuccessorKey) (now : Int) : Int :=
  ((past.takeWhile (·.shows cfg sv)).getLast?).elim now (·.now)

theorem seriesStart_cons (cfg : EvaluatorConfig) (q : Evaluation) (older : List Evaluation)
    (sv : SuccessorKey) (now : Int) :
    seriesStart cfg (q :: older) sv now =
      if q.shows cfg sv then seriesStart cfg older sv q.now else now := by
  rw [seriesStart, seriesStart, List.takeWhile_cons]
  split
  · rw [List.getLast?_cons]
    cases (older.takeWhile (·.shows cfg sv)).getLast? <;> rfl
  · rfl

/-- The call returned no successor, or one that it shows, stamped with the start of its series. -/
def Evaluation.DatesSuccessor (cfg : EvaluatorConfig) (older : List Evaluation) (r : Evaluation) : Prop :=
  ∀ view, r.result.successor = some view →
    r.shows cfg view.key = true ∧ view.firstObservedQuorumAt = seriesStart cfg older view.key r.now

/-- The call selects the tuple within one bit of the width in force, and finds its window run out. -/
structure Evaluator.Ripe (e : Evaluator) (snap : List Entry) (now : Int) (orders : Orders)
    (sv : SuccessorKey) : Prop where
  selected : selectedSuccessor e.cfg snap orders = some sv
  within : withinOneBit (e.widthInForce snap now orders) sv.shardBits = true
  elapsed : (hysteresisElapsed e.cfg e.timers ⟨.successor, successorHash sv⟩ now
    (exemplar (.ofVotes (successorVotes snap)) sv)).1 = true

/-- A retained view of a ripe tuple's generation is of that very tuple, and an earlier call of the
tuple's unbroken series returned it. A ripe tuple that finds no such view starts its series. -/
structure PlacedInSeries (e : Evaluator) (past : List Evaluation) (snap : List Entry) (now : Int)
    (orders : Orders) : Prop where
  retained : ∀ sv view, e.Ripe snap now orders sv → e.adopted.successor = some view →
    view.generationID = sv.gen →
      view.key = sv ∧ ∃ q ∈ past.takeWhile (·.shows e.cfg sv), q.result.successor = some view
  fresh : ∀ sv, e.Ripe snap now orders sv →
    (∀ view, e.adopted.successor = some view → view.generationID ≠ sv.gen) →
      past.head?.any (·.shows e.cfg sv) = false

/-! ## One call -/

theorem evaluate_ripe (h : (e.evaluate snap now orders).1.successor = some view) :
    ∃ sv, e.Ripe snap now orders sv ∧
      Evaluation.shows e.cfg sv ⟨snap, now, orders, (e.evaluate snap now orders).1⟩ = true ∧
      view = replaceSuccessor e.adopted.successor sv now := by
  obtain ⟨sv, hsv, hwithin, helapsed, hview⟩ := evaluate_replaceSuccessor h
  have hwidth : (e.evaluate snap now orders).1.shardBits = e.widthInForce snap now orders :=
    sameTop_pass.shardBits.trans topPass_shardBits
  refine ⟨sv, ⟨hsv, ?_, helapsed⟩, decide_eq_true ⟨hsv, hwithin⟩, hview⟩
  rw [← hwidth]
  exact hwithin

theorem replaceSuccessor_of_generation (hgen : view.generationID = sv.gen) :
    replaceSuccessor (some view) sv now = view := if_neg (not_not.mpr hgen)

theorem replaceSuccessor_of_fresh {retained : Option SuccessorView}
    (h : ∀ view, retained = some view → view.generationID ≠ sv.gen) :
    replaceSuccessor retained sv now = sv.view now := by
  cases retained with
  | none => rfl
  | some view => exact if_pos (h view rfl)

theorem seriesStart_of_head (h : past.head?.any (·.shows cfg sv) = false) :
    seriesStart cfg past sv now = now := by
  cases past with
  | nil => rfl
  | cons q older => rw [seriesStart_cons, if_neg (by simpa using h)]

/-- What a call of the series returned is stamped with the start of the series. -/
theorem stamp_of_series (hdates : ∀ r older, r :: older <:+ past → r.DatesSuccessor cfg older)
    (hq : q ∈ past.takeWhile (·.shows cfg view.key)) (hview : q.result.successor = some view)
    (now : Int) : view.firstObservedQuorumAt = seriesStart cfg past view.key now := by
  induction past generalizing now with
  | nil => cases hq
  | cons r older ih =>
      rw [List.takeWhile_cons] at hq
      split at hq
      · next hshows =>
          rw [seriesStart_cons, if_pos hshows]
          rcases List.mem_cons.mp hq with rfl | hq
          · exact (hdates q older (List.suffix_refl _) view hview).2
          · refine ih (fun r' older' hsuffix => ?_) hq r.now
            exact hdates r' older' (hsuffix.trans (List.suffix_cons _ _))
      · cases hq

theorem PlacedInSeries.datesSuccessor (h : PlacedInSeries e past snap now orders)
    (hdates : ∀ r older, r :: older <:+ past → r.DatesSuccessor e.cfg older) :
    Evaluation.DatesSuccessor e.cfg past ⟨snap, now, orders, (e.evaluate snap now orders).1⟩ := by
  intro view hview
  obtain ⟨sv, hripe, hshows, hreplace⟩ := evaluate_ripe hview
  by_cases hfresh : ∀ view, e.adopted.successor = some view → view.generationID ≠ sv.gen
  · rw [replaceSuccessor_of_fresh hfresh] at hreplace
    subst hreplace
    exact ⟨hshows, (seriesStart_of_head (h.fresh sv hripe hfresh)).symm⟩
  · push Not at hfresh
    obtain ⟨retained, hretained, hgen⟩ := hfresh
    rw [hretained, replaceSuccessor_of_generation hgen] at hreplace
    subst hreplace
    obtain ⟨rfl, q, hq, hreturned⟩ := h.retained sv view hripe hretained hgen
    exact ⟨hshows, stamp_of_series hdates hq hreturned now⟩

/-! ## A run -/

/-- In a run whose ripe tuples are all placed in their series, every stamp is the start of its
series. -/
theorem successors_dated (hrun : Evaluations cfg PlacedInSeries e past) :
    ∀ r older, r :: older <:+ past → r.DatesSuccessor e.cfg older := by
  induction hrun with
  | start =>
      intro r older hsuffix
      simp at hsuffix
  | call snap now orders _ _ hplaced ih =>
      intro r older hsuffix
      rcases List.suffix_cons_iff.mp hsuffix with heq | hsuffix
      · obtain ⟨rfl, rfl⟩ := List.cons.inj heq
        exact hplaced.datesSuccessor ih
      · exact ih r older hsuffix

/-- With no window to wait for, the tuple is put in place at first sight and shown again later. -/
theorem successors_dated_two_calls : ∃ e r prev,
    Evaluations (unpinned 1 0) PlacedInSeries e [r, prev] ∧ r.now = 3 ∧
      r.DatesSuccessor e.cfg [prev] ∧
        r.result.successor = some ⟨.copy 16 [], 0, false, 100, 0⟩ := by
  have hselected : selectedSuccessor (unpinned 1 0) [announcingSuccessor 100] storedOrders =
      some ⟨.copy 16 [], 0, 100, false⟩ := by decide +kernel
  have hstart : Evaluations (unpinned 1 0) PlacedInSeries _ [] := .start
  have hfirst := hstart.call [announcingSuccessor 100] 0 storedOrders (by simp)
    ⟨by rintro _ _ _ ⟨⟩, fun _ _ _ => rfl⟩
  have hrun := hfirst.call [announcingSuccessor 100] 3 storedOrders (by simp) (by
    constructor
    · intro sv view hripe hview _
      cases hselected.symm.trans hripe.selected
      cases hview
      decide +kernel
    · intro sv hripe hfresh
      cases hselected.symm.trans hripe.selected
      exact absurd rfl (hfresh _ rfl))
  exact ⟨_, _, _, hrun, rfl, successors_dated hrun _ _ (List.suffix_refl _), by decide +kernel⟩

/-- A window of one: the tuple seen at 0 and again at 1 is returned at 1 with the stamp 1, though its
series starts at 0. -/
theorem successor_stamped_late : ∃ e r prev view,
    Evaluations (unpinned 1 1) (fun _ _ _ _ _ => True) e [r, prev] ∧
      r.result.successor = some view ∧ r.shows e.cfg view.key = true ∧
        view.firstObservedQuorumAt = 1 ∧ seriesStart e.cfg [prev] view.key r.now = 0 := by
  have hstart : Evaluations (unpinned 1 1) (fun _ _ _ _ _ => True) _ [] := .start
  have hrun := (hstart.call [announcingSuccessor 100] 0 storedOrders (by simp) trivial).call
    [announcingSuccessor 100] 1 storedOrders (by simp) trivial
  exact ⟨_, _, _, ⟨.copy 16 [], 0, false, 100, 1⟩, hrun, by decide +kernel, by decide +kernel, rfl,
    by decide +kernel⟩

end ShardCommon.Manifest
