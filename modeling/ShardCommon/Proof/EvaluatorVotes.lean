import ShardCommon.Proof.EvaluatorFrames

/-!
# Votes

The votes for a field of which an entry announces at most one value count announcers. A block looks
at the selected candidate, at the interval of its first announcer and at whether there are other
candidates. Two lists of votes for the same candidates in the same order, cast by entries with the
same intervals, are therefore alike to it, whatever else the entries announce.
-/

namespace ShardCommon.Manifest

variable {cfg : EvaluatorConfig} {snap : List Entry} {now : Int} {timers timers' : Timers}
  {en en' : Entry}

/-! ## Votes as announcements -/

section Votes

variable {K : Type} [DecidableEq K]

/-- The votes of a field in which every entry has at most one. -/
def announcements (announced : Entry → Option K) (snap : List Entry) : List (K × Entry) :=
  (authorities snap).filterMap fun en => (announced en).map fun v => (v, en)

theorem length_voters_announcements (announced : Entry → Option K) (snap : List Entry) (v : K) :
    (Tallies.voters (announcements announced snap) v).length =
      (authorities snap).countP fun en => announced en = some v := by
  rw [Tallies.voters, announcements, List.length_map]
  induction authorities snap with
  | nil => rfl
  | cons en rest ih =>
      cases hannounced : announced en with
      | none => simpa [hannounced] using ih
      | some w =>
          by_cases hw : w = v
          · simpa [hannounced, hw] using ih
          · simpa [hannounced, hw] using ih

end Votes

theorem shardBitsVotes_eq_announcements :
    shardBitsVotes snap = announcements (fun en => some en.shardBits) snap := by
  rw [shardBitsVotes, announcements, ← List.filterMap_eq_map]
  rfl

theorem sourceModeVotes_eq_announcements :
    sourceModeVotes snap = announcements (fun en => some en.sourceModeSSM) snap := by
  rw [sourceModeVotes, announcements, ← List.filterMap_eq_map]
  rfl

theorem successorVotes_eq_announcements :
    successorVotes snap = announcements (fun en => en.successor.map successorKey) snap := by
  simp only [successorVotes, announcements, Option.map_map]
  rfl

/-! ## What a block reads of its votes -/

/-- For whom each vote was cast, and the interval of its announcer. -/
def ballots {K : Type} (votes : List (K × Entry)) : List (K × UInt16) :=
  votes.map (Prod.map id (·.announceInterval))

/-- Votes that are alike to a block, in scans that select the same candidate. -/
structure SameTally {K : Type} [DecidableEq K] [Inhabited K] (quorum : Int)
    (order order' : RangeOrder (Vote K)) (votes votes' : List (K × Entry)) : Prop where
  ballots : ballots votes = ballots votes'
  best : Tallies.best (order.visit (Tallies.ofVotes votes).entries) quorum =
    Tallies.best (order'.visit (Tallies.ofVotes votes').entries) quorum

section SameTally

variable {K : Type} [DecidableEq K] [Inhabited K] {quorum : Int} {order order' : RangeOrder (Vote K)}
  {votes votes' : List (K × Entry)}

theorem SameTally.refl : SameTally quorum order order votes votes := ⟨rfl, rfl⟩

theorem SameTally.keys (h : SameTally quorum order order' votes votes') :
    (Tallies.ofVotes votes).keys.Perm (Tallies.ofVotes votes').keys := by
  apply Tallies.keys_perm
  have hfst := congrArg (List.map Prod.fst) h.ballots
  simpa [Manifest.ballots, Function.comp_def] using hfst

theorem SameTally.length_entries (h : SameTally quorum order order' votes votes') :
    (Tallies.ofVotes votes).entries.length = (Tallies.ofVotes votes').entries.length := by
  simpa [AList.keys, List.keys] using h.keys.length_eq

theorem SameTally.multiple (h : SameTally quorum order order' votes votes') :
    hasMultipleCandidates (Tallies.ofVotes votes) =
      hasMultipleCandidates (Tallies.ofVotes votes') := by
  rw [hasMultipleCandidates, hasMultipleCandidates, h.length_entries]

omit [Inhabited K] in
theorem hasNonPinDisagreement_eq (m : Tallies K Entry) (pin : K) :
    hasNonPinDisagreement m pin = m.keys.any fun v => v ≠ pin := by
  rw [hasNonPinDisagreement, AList.keys, List.keys, List.any_map]
  rfl

theorem SameTally.disagreement (h : SameTally quorum order order' votes votes') (pin : K) :
    hasNonPinDisagreement (Tallies.ofVotes votes) pin =
      hasNonPinDisagreement (Tallies.ofVotes votes') pin := by
  rw [hasNonPinDisagreement_eq, hasNonPinDisagreement_eq]
  exact h.keys.any_eq

theorem SameTally.interval (h : SameTally quorum order order' votes votes') (v : K) :
    (exemplar (.ofVotes votes) v).announceInterval =
      (exemplar (.ofVotes votes') v).announceInterval := by
  have hexemplar : ∀ votes : List (K × Entry), (exemplar (.ofVotes votes) v).announceInterval =
      ((Tallies.voters (Manifest.ballots votes) v).head?).getD
        (default : Entry).announceInterval := by
    intro votes
    rw [exemplar, Tallies.lookup_ofVotes, Manifest.ballots, Tallies.voters_map]
    cases Tallies.voters votes v <;> rfl
  rw [hexemplar, hexemplar, h.ballots]

end SameTally

/-- The configuration with other pins on the planes. -/
def EvaluatorConfig.withPlanePins (cfg : EvaluatorConfig) (pins : UInt8 → Option UInt8) :
    EvaluatorConfig :=
  { cfg with pin := { cfg.pin with domainShardBits := pins } }

@[simp]
theorem quorum_withPlanePins (pins : UInt8 → Option UInt8) :
    (cfg.withPlanePins pins).quorum = cfg.quorum := rfl

@[simp]
theorem hysteresisElapsed_withPlanePins (pins : UInt8 → Option UInt8) :
    hysteresisElapsed (cfg.withPlanePins pins) = hysteresisElapsed cfg := rfl

theorem TopField.elapsed_withPlanePins {K : Type} (f : TopField K) (pins : UInt8 → Option UInt8) :
    f.elapsed (cfg.withPlanePins pins) = f.elapsed cfg := rfl

theorem PlaneField.adopt_withPlanePins {K : Type} [DecidableEq K] [Inhabited K] (f : PlaneField K)
    (pins : UInt8 → Option UInt8) : f.adopt (cfg.withPlanePins pins) = f.adopt cfg := rfl

/-- Timers that agree where `P` holds go on agreeing there, and an entry is timed by its interval. -/
theorem hysteresisElapsed_agree (cfg : EvaluatorConfig) (now : Int) {P : FieldKey → Prop}
    (h : ∀ k, P k → timers k = timers' k) (key : FieldKey) (hkey : P key)
    (hinterval : en.announceInterval = en'.announceInterval) :
    (hysteresisElapsed cfg timers key now en).1 = (hysteresisElapsed cfg timers' key now en').1 ∧
      ∀ k, P k → (hysteresisElapsed cfg timers key now en).2 k =
        (hysteresisElapsed cfg timers' key now en').2 k := by
  simp only [hysteresisElapsed]
  rw [h key hkey, hinterval]
  cases timers' key with
  | none =>
      refine ⟨rfl, ?_⟩
      intro k hk
      by_cases heq : k = key
      · subst heq
        simp
      · simp only [Function.update_of_ne heq]
        exact h k hk
  | some first => exact ⟨rfl, h⟩

theorem TopField.elapsed_agree {K : Type} (f : TopField K) (cfg : EvaluatorConfig) (now : Int)
    {P : FieldKey → Prop} (h : ∀ k, P k → timers k = timers' k) {v : K} (hkey : P (f.key v))
    (hinterval : en.announceInterval = en'.announceInterval) :
    (f.elapsed cfg timers v now en).1 = (f.elapsed cfg timers' v now en').1 ∧
      ∀ k, P k → (f.elapsed cfg timers v now en).2 k = (f.elapsed cfg timers' v now en').2 k := by
  rw [elapsed, elapsed]
  split
  · rw [gatedElapsed, gatedElapsed, checkHysteresis, checkHysteresis, h _ hkey]
    split
    · exact hysteresisElapsed_agree cfg now h _ hkey hinterval
    · exact ⟨rfl, h⟩
  · exact hysteresisElapsed_agree cfg now h _ hkey hinterval

theorem resetField_agree {P : FieldKey → Prop} (h : ∀ k, P k → timers k = timers' k) (field : Field) :
    ∀ k, P k → resetField timers field k = resetField timers' field k := by
  intro k hk
  rw [resetField, resetField]
  split
  · rfl
  · exact h k hk

end ShardCommon.Manifest
