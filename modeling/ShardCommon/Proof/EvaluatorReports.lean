import ShardCommon.Proof.EvaluatorCalls
import ShardCommon.Proof.EvaluatorVotes

/-!
# What a call reports

Disagreement among the authorities is reported by name, and the groups of the pilots are returned
beside the adopted fields. Neither waits for a quorum. The reports are exact but for one branch: a
source mode without quorum is passed over in silence, however the authorities are split. The groups
are those of all pilots, so they are gated by quorum only where the pilots' own widths have one.
-/

namespace ShardCommon.Manifest

open ShardCommon.Frame

variable {cfg : EvaluatorConfig} {e : Evaluator} {snap : List Entry} {orders : Orders} {now : Int}
  {p : Pass} {id : UInt8}

/-! ## Disagreement -/

section Divergent

variable {K : Type}

/-- Two announced values differ, or one of them differs from the pin. -/
def Diverges (pin : Option K) (announced : List K) : Prop :=
  (∃ a ∈ announced, ∃ b ∈ announced, a ≠ b) ∨ ∃ v, pin = some v ∧ ∃ a ∈ announced, a ≠ v

variable [DecidableEq K]

/-- The flag of a field, pinned or not. -/
def divergent (pin : Option K) (m : Tallies K Entry) : Bool :=
  match pin with
  | some v => hasNonPinDisagreement m v
  | none => hasMultipleCandidates m

theorem divergent_iff (pin : Option K) (votes : List (K × Entry)) :
    divergent pin (.ofVotes votes) = true ↔ Diverges pin (votes.map Prod.fst) := by
  cases pin with
  | none => simp [divergent, hasMultipleCandidates, Tallies.one_lt_length_ofVotes, Diverges]
  | some v =>
      have hflag : divergent (some v) (.ofVotes votes) = true ↔ ∃ a ∈ votes.map Prod.fst, a ≠ v := by
        rw [divergent, hasNonPinDisagreement_eq, List.any_eq_true]
        simp only [Tallies.mem_keys_ofVotes, decide_eq_true_eq]
      rw [hflag]
      constructor
      · intro hdiffers
        exact .inr ⟨v, rfl, hdiffers⟩
      · rintro (⟨a, ha, b, hb, hne⟩ | ⟨_, hpin, hdiffers⟩)
        · -- two values cannot both be the pin
          by_cases hav : a = v
          · exact ⟨b, hb, fun hbv => hne (hav.trans hbv.symm)⟩
          · exact ⟨a, ha, hav⟩
        · cases hpin
          exact hdiffers

end Divergent

theorem addDivergence_fields (out : Adopted) (field : Field) (flag : Bool) :
    (out.addDivergence field flag).divergenceFields =
      out.divergenceFields ++ (if flag then [field] else []).map Field.name := by
  cases flag <;> simp [Adopted.addDivergence]

/-! ## The blocks -/

section Fields

variable {K : Type} [DecidableEq K] [Inhabited K] {f : TopField K} {m : Tallies K Entry}
  {order : RangeOrder (Vote K)}

/-- Whether the block looks for disagreement at all. -/
def TopField.looks (f : TopField K) (cfg : EvaluatorConfig) (m : Tallies K Entry)
    (order : RangeOrder (Vote K)) : Bool :=
  f.vocal || ((f.pin cfg.pin).isSome ||
    (Tallies.best (order.visit m.entries) cfg.quorum).isSome)

theorem TopField.adopt_reports :
    (f.adopt cfg m order now p).out.divergenceFields = p.out.divergenceFields ++
      (if f.looks cfg m order && divergent (f.pin cfg.pin) m then [f.field] else []).map
        Field.name := by
  have hreport : ∀ v met flag, ((f.put p.out v).report f.field met flag).divergenceFields =
      p.out.divergenceFields ++ (if flag then [f.field] else []).map Field.name := by
    intro v met flag
    rw [← f.put_divergenceFields p.out v]
    exact addDivergence_fields _ _ _
  rw [looks]
  cases hpin : f.pin cfg.pin with
  | some pin =>
      rw [adopt_of_pin hpin, hreport, Option.isSome_some, Bool.true_or, Bool.or_true, Bool.true_and]
      rfl
  | none =>
      cases hbest : Tallies.best (order.visit m.entries) cfg.quorum with
      | none =>
          rw [adopt_of_none hpin hbest, hreport, Option.isSome_none, Bool.or_false, Bool.or_false]
          rfl
      | some v =>
          rw [adopt_of_selected hpin hbest, hreport, Option.isSome_some, Bool.or_true, Bool.or_true,
            Bool.true_and]
          rfl

end Fields

theorem adoptShardBits_reports {m : Tallies UInt8 Entry} {order : RangeOrder (Vote UInt8)} :
    (adoptShardBits cfg m order now p).out.divergenceFields = p.out.divergenceFields ++
      (if divergent cfg.pin.shardBits m then [Field.shardBits] else []).map Field.name := by
  rw [adoptShardBits_eq]
  exact TopField.adopt_reports (f := .shardBits)

/-- Whether the source-mode block looks for disagreement at all. -/
def modeReported (cfg : EvaluatorConfig) (m : Tallies Bool Entry) (order : RangeOrder (Vote Bool)) :
    Bool :=
  cfg.pin.sourceModeSSM.isSome || (bestCandidateBool (order.visit m.entries) cfg.quorum).isSome

theorem adoptSourceMode_reports {m : Tallies Bool Entry} {order : RangeOrder (Vote Bool)} :
    (adoptSourceMode cfg m order now p).out.divergenceFields = p.out.divergenceFields ++
      (if modeReported cfg m order && divergent cfg.pin.sourceModeSSM m then [Field.sourceMode]
        else []).map Field.name := by
  rw [adoptSourceMode_eq]
  exact TopField.adopt_reports (f := .sourceMode)

theorem adoptDomainShardBits_divergent {order : RangeOrder (Vote UInt8)} {s : Plane} :
    (adoptDomainShardBits cfg snap order now id s).1.divergent =
      hasMultipleCandidates (Tallies.ofVotes (domainShardBitsVotes snap id)) := by
  rw [adoptDomainShardBits]
  dsimp only
  split <;> rfl

theorem adoptDomainSourceMode_divergent {order : RangeOrder (Vote Bool)} {s : Plane} :
    (adoptDomainSourceMode cfg snap order now id s).1.divergent = s.1.divergent := by
  rw [adoptDomainSourceMode]
  dsimp only
  split <;> rfl

theorem adoptDomainSuccessor_divergent {order : RangeOrder (Vote SuccessorKey)} {s : Plane} :
    (adoptDomainSuccessor cfg snap order now id s).1.divergent = s.1.divergent := by
  rw [adoptDomainSuccessor]
  dsimp only
  split
  · split
    · split <;> rfl
    · rfl
  · split <;> rfl

theorem evaluateDomain_divergent {s : Plane} :
    (evaluateDomain cfg snap orders now id s).1.divergent =
      divergent (cfg.pin.domainShardBits id) (.ofVotes (domainShardBitsVotes snap id)) := by
  rw [evaluateDomain]
  split
  · next hpin =>
      rw [hpin]
      rfl
  next hpin =>
    rw [hpin]
    split
    · next hempty =>
        rw [domainShardBitsVotes, List.isEmpty_iff.mp hempty]
        rfl
    · rw [adoptDomainSuccessor_divergent, adoptDomainSourceMode_divergent,
        adoptDomainShardBits_divergent]
      rfl

/-! ## The reports of a call -/

/-- The fields a call reports as divergent. -/
def Evaluator.reported (e : Evaluator) (snap : List Entry) (orders : Orders) : List Field :=
  (if divergent e.cfg.pin.shardBits (.ofVotes (shardBitsVotes snap)) then [.shardBits] else []) ++
    (if modeReported e.cfg (.ofVotes (sourceModeVotes snap)) orders.sourceMode &&
      divergent e.cfg.pin.sourceModeSSM (.ofVotes (sourceModeVotes snap)) then [.sourceMode]
    else []) ++
    ((domainIDs e.cfg snap e.adopted).filter fun id =>
      divergent (e.cfg.pin.domainShardBits id) (.ofVotes (domainShardBitsVotes snap id))).map
        .domainShardBits

theorem evaluate_reports :
    (e.evaluate snap now orders).1.divergenceFields =
      ((e.reported snap orders).map Field.name).mergeSort fun a b => a ≤ b := by
  have htop : (e.topPass snap now orders).out.divergenceFields =
      (e.beforeSuccessor snap now orders).out.divergenceFields := by
    obtain ⟨_, _, hout⟩ := @exists_adoptSuccessor_out e.cfg now (e.beforeSuccessor snap now orders)
      (.ofVotes (successorVotes snap)) orders.successor
    rw [topPass_eq, hout]
  rw [evaluate_divergenceFields, htop, Evaluator.beforeSuccessor, adoptSourceMode_reports,
    adoptShardBits_reports, Evaluator.reported]
  simp only [evaluateDomain_divergent, List.map_append, List.map_map]
  rfl

theorem mem_divergenceFields_iff (field : Field) :
    field.name ∈ (e.evaluate snap now orders).1.divergenceFields ↔
      field ∈ e.reported snap orders := by
  rw [evaluate_reports, List.mem_mergeSort]
  exact List.mem_map_of_injective Field.name_injective

theorem mem_reported_iff {field : Field} :
    field ∈ e.reported snap orders ↔
      (divergent e.cfg.pin.shardBits (.ofVotes (shardBitsVotes snap)) = true ∧ field = .shardBits) ∨
        ((modeReported e.cfg (.ofVotes (sourceModeVotes snap)) orders.sourceMode = true ∧
          divergent e.cfg.pin.sourceModeSSM (.ofVotes (sourceModeVotes snap)) = true) ∧
            field = .sourceMode) ∨
        ∃ id ∈ domainIDs e.cfg snap e.adopted,
          divergent (e.cfg.pin.domainShardBits id) (.ofVotes (domainShardBitsVotes snap id)) = true ∧
            field = .domainShardBits id := by
  simp only [Evaluator.reported, List.mem_append, List.mem_ite_nil_right, List.mem_singleton,
    List.mem_map, List.mem_filter, Bool.and_eq_true, or_assoc, and_assoc,
    @eq_comm _ _ field]

theorem mem_reported_shardBits :
    Field.shardBits ∈ e.reported snap orders ↔
      Diverges e.cfg.pin.shardBits ((authorities snap).map (·.shardBits)) := by
  have hvotes : (shardBitsVotes snap).map Prod.fst = (authorities snap).map (·.shardBits) := by
    simp [shardBitsVotes, Function.comp_def]
  rw [mem_reported_iff, ← hvotes, ← divergent_iff]
  simp

theorem mem_reported_sourceMode :
    Field.sourceMode ∈ e.reported snap orders ↔
      modeReported e.cfg (.ofVotes (sourceModeVotes snap)) orders.sourceMode = true ∧
        Diverges e.cfg.pin.sourceModeSSM ((authorities snap).map (·.sourceModeSSM)) := by
  have hvotes : (sourceModeVotes snap).map Prod.fst = (authorities snap).map (·.sourceModeSSM) := by
    simp [sourceModeVotes, Function.comp_def]
  rw [mem_reported_iff, ← hvotes, ← divergent_iff]
  simp

theorem Diverges.ne_nil {K : Type} {pin : Option K} {announced : List K} (h : Diverges pin announced) :
    announced ≠ [] := by
  rcases h with ⟨a, ha, _⟩ | ⟨_, _, a, ha, _⟩
  · exact List.ne_nil_of_mem ha
  · exact List.ne_nil_of_mem ha

/-- A plane in disagreement is announced, so the call goes through it. -/
theorem mem_reported_domainShardBits :
    Field.domainShardBits id ∈ e.reported snap orders ↔
      Diverges (e.cfg.pin.domainShardBits id) ((descriptors snap id).map (·.1.shardBits)) := by
  have hvotes : (domainShardBitsVotes snap id).map Prod.fst =
      (descriptors snap id).map (·.1.shardBits) := by
    simp [domainShardBitsVotes, Function.comp_def]
  rw [mem_reported_iff]
  constructor
  · rintro (⟨_, ⟨⟩⟩ | ⟨_, ⟨⟩⟩ | ⟨id', _, hdivergent, heq⟩)
    cases heq
    rwa [divergent_iff, hvotes] at hdivergent
  · intro hdiverges
    have hannounced : descriptors snap id ≠ [] :=
      fun hnil => hdiverges.ne_nil (by rw [hnil, List.map_nil])
    rw [← hvotes, ← divergent_iff] at hdiverges
    exact .inr (.inr ⟨id, mem_domainIDs_iff.mpr (.inl hannounced), hdiverges, rfl⟩)

theorem reported_cases {field : Field} (h : field ∈ e.reported snap orders) :
    field = .shardBits ∨ field = .sourceMode ∨ ∃ id, id ≠ 0 ∧ field = .domainShardBits id := by
  rcases mem_reported_iff.mp h with ⟨_, rfl⟩ | ⟨_, rfl⟩ | ⟨id, _, _, rfl⟩
  · exact .inl rfl
  · exact .inr (.inl rfl)
  · refine .inr (.inr ⟨id, ?_, rfl⟩)
    rintro rfl
    -- plane zero has no descriptors
    have hdiverges := mem_reported_domainShardBits.mp h
    rw [descriptors_zero] at hdiverges
    exact hdiverges.ne_nil rfl

theorem nodup_reported : (e.reported snap orders).Nodup := by
  have hplanes : (((domainIDs e.cfg snap e.adopted).filter fun id =>
      divergent (e.cfg.pin.domainShardBits id) (.ofVotes (domainShardBitsVotes snap id))).map
        Field.domainShardBits).Nodup :=
    ((nodup_domainIDs _).filter _).map fun _ _ heq => Field.domainShardBits.inj heq
  rw [Evaluator.reported, List.append_assoc]
  refine List.nodup_append'.mpr
    ⟨by split <;> simp, List.nodup_append'.mpr ⟨by split <;> simp, hplanes, ?_⟩, ?_⟩
  · intro field hmode hplane
    obtain ⟨id, _, rfl⟩ := List.mem_map.mp hplane
    simp at hmode
  · intro field hbits hrest
    simp only [List.mem_ite_nil_right, List.mem_singleton] at hbits
    obtain ⟨_, rfl⟩ := hbits
    simp at hrest

/-! ## Exactness -/

/-- The reports of a snapshot as they should be: each field in disagreement, once, in order. -/
structure ExactReports (cfg : EvaluatorConfig) (snap : List Entry) (fields : List String) : Prop where
  shardBits : "shard_bits" ∈ fields ↔
    Diverges cfg.pin.shardBits ((authorities snap).map (·.shardBits))
  sourceMode : "source_mode" ∈ fields ↔
    Diverges cfg.pin.sourceModeSSM ((authorities snap).map (·.sourceModeSSM))
  planes : ∀ id : UInt8, id ≠ 0 → (s!"domain_{id}_shard_bits" ∈ fields ↔
    Diverges (cfg.pin.domainShardBits id) ((descriptors snap id).map (·.1.shardBits)))
  only : ∀ name ∈ fields, name = "shard_bits" ∨ name = "source_mode" ∨
    ∃ id : UInt8, id ≠ 0 ∧ name = s!"domain_{id}_shard_bits"
  sorted : fields.Pairwise (· ≤ ·)
  nodup : fields.Nodup

/-- The authorities are split over a source mode that is not pinned, and neither side has a quorum. -/
def SplitMode (cfg : EvaluatorConfig) (snap : List Entry) : Prop :=
  cfg.pin.sourceModeSSM = none ∧
    (∃ a ∈ authorities snap, ∃ b ∈ authorities snap, a.sourceModeSSM ≠ b.sourceModeSSM) ∧
      ∀ mode, ((authorities snap).countP fun en => en.sourceModeSSM = mode : Int) < cfg.quorum

theorem splitMode_iff (orders : Orders) (hquorum : 0 < cfg.quorum) :
    SplitMode cfg snap ↔
      modeReported cfg (.ofVotes (sourceModeVotes snap)) orders.sourceMode = false ∧
        Diverges cfg.pin.sourceModeSSM ((authorities snap).map (·.sourceModeSSM)) := by
  have hnone : bestCandidateBool (orders.sourceMode.visit (Tallies.ofVotes (sourceModeVotes snap)).entries)
      cfg.quorum = none ↔
        ∀ mode, ((authorities snap).countP fun en => en.sourceModeSSM = mode : Int) < cfg.quorum := by
    rw [bestCandidateBool, Tallies.best_eq_none_iff hquorum, sourceModeVotes_eq_announcements]
    simp only [length_voters_announcements, Option.some.injEq]
  have hsplit : cfg.pin.sourceModeSSM = none →
      (Diverges cfg.pin.sourceModeSSM ((authorities snap).map (·.sourceModeSSM)) ↔
        ∃ a ∈ authorities snap, ∃ b ∈ authorities snap, a.sourceModeSSM ≠ b.sourceModeSSM) := by
    intro hpin
    simp [Diverges, hpin]
  rw [SplitMode, modeReported, Bool.or_eq_false_iff, Option.isSome_eq_false_iff,
    Option.isSome_eq_false_iff, Option.isNone_iff_eq_none, Option.isNone_iff_eq_none, hnone]
  constructor
  · rintro ⟨hpin, hdiffer, hbelow⟩
    exact ⟨⟨hpin, hbelow⟩, (hsplit hpin).mpr hdiffer⟩
  · rintro ⟨⟨hpin, hbelow⟩, hdiverges⟩
    exact ⟨hpin, (hsplit hpin).mp hdiverges, hbelow⟩

/-- The reports of a call are exact unless the authorities are split over the source mode with a
quorum on neither side. -/
theorem reports_exact_iff (e : Evaluator) (snap : List Entry) (now : Int) (orders : Orders) :
    ExactReports e.cfg snap (e.evaluate snap now orders).1.divergenceFields ↔
      ¬ SplitMode e.cfg snap := by
  have hmode : "source_mode" ∈ (e.evaluate snap now orders).1.divergenceFields ↔ _ :=
    (mem_divergenceFields_iff .sourceMode).trans mem_reported_sourceMode
  rw [splitMode_iff orders e.quorum_pos]
  constructor
  · rintro hexact ⟨hsilent, hdiverges⟩
    have hreported := (hmode.mp (hexact.sourceMode.mpr hdiverges)).1
    rw [hsilent] at hreported
    cases hreported
  · intro hheard
    refine ⟨?_, ?_, ?_, ?_, ?_, ?_⟩
    · exact (mem_divergenceFields_iff .shardBits).trans mem_reported_shardBits
    · rw [hmode, and_iff_right_iff_imp]
      intro hdiverges
      by_contra hsilent
      exact hheard ⟨by simpa using hsilent, hdiverges⟩
    · intro id _
      exact (mem_divergenceFields_iff (.domainShardBits id)).trans mem_reported_domainShardBits
    · intro name hname
      rw [evaluate_reports, List.mem_mergeSort] at hname
      obtain ⟨field, hfield, rfl⟩ := List.mem_map.mp hname
      rcases reported_cases hfield with rfl | rfl | ⟨id, hid, rfl⟩
      · exact .inl rfl
      · exact .inr (.inl rfl)
      · exact .inr (.inr ⟨id, hid, rfl⟩)
    · rw [evaluate_reports]
      exact List.pairwise_mergeSort' _ _
    · rw [evaluate_reports]
      exact (List.mergeSort_perm _ _).nodup_iff.mpr (nodup_reported.map Field.name_injective)

/-- Two authorities, one for each mode, under a quorum of two: nothing is reported. -/
theorem split_mode_unreported :
    ((newEvaluator (unpinned 2 0)).evaluate
      [announcing 0, { announcing 0 with flags := flagAuthoritative ||| flagSourceModeSSM }] 0
        storedOrders).1.divergenceFields = [] ∧
      SplitMode (newEvaluator (unpinned 2 0)).cfg
        [announcing 0, { announcing 0 with flags := flagAuthoritative ||| flagSourceModeSSM }] := by
  refine ⟨by decide +kernel, rfl, by decide, ?_⟩
  decide

/-! ## Pilot groups -/

theorem evaluate_pilotGroups : (e.evaluate snap now orders).1.pilotGroups = pilotGroups snap := by
  obtain ⟨_, _, _, _, _, hout⟩ := exists_topPass_out e snap now orders
  rw [evaluate_view, hout]
  rfl

theorem mem_pilotGroups_iff {group : UInt16} :
    group ∈ pilotGroups snap ↔ ∃ en ∈ authorities snap, en.pilotOnly = true ∧ group ∈ en.groups := by
  simp only [pilotGroups, sortUint16s, List.mem_mergeSort, List.mem_dedup, List.mem_flatMap,
    List.mem_filter, and_assoc]

theorem pilotGroups_increasing : (pilotGroups snap).Pairwise (· < ·) := by
  have hsorted : (pilotGroups snap).Pairwise (· ≤ ·) := List.pairwise_mergeSort' _ _
  have hnodup : (pilotGroups snap).Nodup :=
    (List.mergeSort_perm _ _).nodup_iff.mpr (List.nodup_dedup _)
  exact (hsorted.and hnodup).imp fun h => UInt16.lt_of_le_of_ne h.1 h.2

/-- A pilot that lists the group announces a width that a quorum of authorities announces. -/
def Gated (cfg : EvaluatorConfig) (snap : List Entry) (group : UInt16) : Prop :=
  ∃ en ∈ authorities snap, en.pilotOnly = true ∧ group ∈ en.groups ∧
    cfg.quorum ≤ ((authorities snap).countP fun other => other.shardBits = en.shardBits : Int)

/-- The pilot groups are in order, and they are the gated groups exactly when every pilot lists gated
groups only. -/
theorem pilotGroups_gated_iff (e : Evaluator) (snap : List Entry) (now : Int) (orders : Orders) :
    ((e.evaluate snap now orders).1.pilotGroups.Pairwise (· < ·) ∧
        ∀ group, group ∈ (e.evaluate snap now orders).1.pilotGroups ↔ Gated e.cfg snap group) ↔
      ∀ en ∈ authorities snap, en.pilotOnly = true → ∀ group ∈ en.groups, Gated e.cfg snap group := by
  rw [evaluate_pilotGroups]
  constructor
  · rintro ⟨_, hgated⟩ en hen hpilot group hgroup
    exact (hgated group).mp (mem_pilotGroups_iff.mpr ⟨en, hen, hpilot, hgroup⟩)
  · refine fun hall => ⟨pilotGroups_increasing, fun group => ⟨fun hgroup => ?_, ?_⟩⟩
    · obtain ⟨en, hen, hpilot, hlists⟩ := mem_pilotGroups_iff.mp hgroup
      exact hall en hen hpilot group hlists
    · rintro ⟨en, hen, hpilot, hlists, _⟩
      exact mem_pilotGroups_iff.mpr ⟨en, hen, hpilot, hlists⟩

/-- One pilot under a quorum of two makes the listeners join its group. -/
theorem lone_pilot_group_returned :
    ((newEvaluator (unpinned 2 0)).evaluate
      [{ announcing 0 with flags := flagAuthoritative ||| flagPilotOnly, groups := [7] }] 0
        storedOrders).1.pilotGroups = [7] ∧
      ¬ Gated (newEvaluator (unpinned 2 0)).cfg
        [{ announcing 0 with flags := flagAuthoritative ||| flagPilotOnly, groups := [7] }] 7 := by
  refine ⟨by decide +kernel, ?_⟩
  rw [Gated]
  decide

end ShardCommon.Manifest
