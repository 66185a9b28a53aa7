import Mathlib.Data.List.Induction
import ShardCommon.Proof.EvaluatorVotes

/-!
# Planes are evaluated independently

A round of the loop over planes reads and writes the timers and the view of its own plane only. After
any sequence of distinct planes each of them therefore stands as if it had been evaluated alone, in
whatever order the loop went through them.
-/

namespace ShardCommon.Manifest

variable {cfg : EvaluatorConfig} {snap : List Entry} {orders : Orders} {now : Int} {p q : Pass}
  {k : FieldKey} {id : UInt8} {ids : List UInt8}

/-- The timers of one plane are the same. -/
def AgreeOn (id : UInt8) (timers timers' : Timers) : Prop :=
  ∀ k, k.field.plane? = some id → timers k = timers' k

/-- Two states of a plane with the same view and the same timers of that plane. -/
def SamePlane (id : UInt8) (s s' : Plane) : Prop := s.1 = s'.1 ∧ AgreeOn id s.2 s'.2

section SamePlane

variable {s s' : Plane} {snap' : List Entry} {pins : UInt8 → Option UInt8} (h : SamePlane id s s')

include h

theorem SamePlane.adopt {K : Type} [DecidableEq K] [Inhabited K] (f : PlaneField K)
    {order order' : RangeOrder (Vote K)} (hfield : f.field.plane? = some id)
    (hvotes : SameTally cfg.quorum order order' (f.votes snap) (f.votes snap')) :
    SamePlane id (f.adopt cfg snap order now s)
      (f.adopt (cfg.withPlanePins pins) snap' order' now s') := by
  obtain ⟨hview, htimers⟩ := h
  have hmultiple : hasMultipleCandidates (f.tallies snap) =
      hasMultipleCandidates (f.tallies snap') := hvotes.multiple
  rw [f.adopt_withPlanePins]
  cases hbest : Tallies.best (order'.visit (f.tallies snap').entries) cfg.quorum with
  | none =>
      rw [PlaneField.adopt_of_none (hvotes.best.trans hbest), PlaneField.adopt_of_none hbest,
        hmultiple, hview]
      exact ⟨rfl, htimers⟩
  | some v =>
      have hinterval : (exemplar (f.tallies snap) v).announceInterval =
          (exemplar (f.tallies snap') v).announceInterval := hvotes.interval v
      obtain ⟨helapsed, hnext⟩ := hysteresisElapsed_agree cfg now htimers (f.key v) hfield hinterval
      rw [PlaneField.adopt_of_selected (hvotes.best.trans hbest),
        PlaneField.adopt_of_selected hbest, hmultiple, hview]
      refine ⟨?_, hnext⟩
      dsimp only
      rw [helapsed]

theorem SamePlane.adoptDomainSuccessor {order order' : RangeOrder (Vote SuccessorKey)}
    (hvotes : SameTally cfg.quorum order order' (domainSuccessorVotes snap id)
      (domainSuccessorVotes snap' id)) :
    SamePlane id (adoptDomainSuccessor cfg snap order now id s)
      (adoptDomainSuccessor (cfg.withPlanePins pins) snap' order' now id s') := by
  obtain ⟨view, timers⟩ := s
  obtain ⟨view', timers'⟩ := s'
  obtain ⟨rfl, htimers⟩ := h
  rw [Manifest.adoptDomainSuccessor, Manifest.adoptDomainSuccessor, hysteresisElapsed_withPlanePins,
    quorum_withPlanePins, bestSuccessor, bestSuccessor, hvotes.best, hvotes.length_entries]
  dsimp only
  split
  · next sv _ =>
      have helapsed := hysteresisElapsed_agree cfg now htimers
        ⟨.domainSuccessor id, successorHash sv⟩ rfl (hvotes.interval sv)
      split
      · rw [helapsed.1]
        split <;> exact ⟨rfl, helapsed.2⟩
      · exact ⟨rfl, htimers⟩
  · split
    · exact ⟨rfl, resetField_agree htimers _⟩
    · exact ⟨rfl, htimers⟩

/-- What a plane becomes depends on its own view, timers, votes and pin only. -/
theorem SamePlane.evaluateDomain_of_votes {orders' : Orders}
    (hpin : pins id = cfg.pin.domainShardBits id)
    (hnil : descriptors snap' id = [] ↔ descriptors snap id = [])
    (hbits : SameTally cfg.quorum (orders.domainShardBits id) (orders'.domainShardBits id)
      (domainShardBitsVotes snap id) (domainShardBitsVotes snap' id))
    (hmode : SameTally cfg.quorum (orders.domainSourceMode id) (orders'.domainSourceMode id)
      (domainSourceModeVotes snap id) (domainSourceModeVotes snap' id))
    (hsucc : SameTally cfg.quorum (orders.domainSuccessor id) (orders'.domainSuccessor id)
      (domainSuccessorVotes snap id) (domainSuccessorVotes snap' id)) :
    SamePlane id (Manifest.evaluateDomain cfg snap orders now id s)
      (Manifest.evaluateDomain (cfg.withPlanePins pins) snap' orders' now id s') := by
  have hpins : (cfg.withPlanePins pins).pin.domainShardBits id = cfg.pin.domainShardBits id := hpin
  rw [Manifest.evaluateDomain, Manifest.evaluateDomain, hpins]
  cases cfg.pin.domainShardBits id with
  | some pin =>
      refine ⟨?_, h.2⟩
      dsimp only
      rw [h.1, hbits.disagreement]
  | none =>
      simp only [List.isEmpty_iff, hnil]
      split
      · exact ⟨by rw [h.1], h.2⟩
      · simp only [adoptDomainShardBits_eq, adoptDomainSourceMode_eq]
        exact ((h.adopt (.shardBits id) rfl hbits).adopt (.sourceMode id) rfl
          hmode).adoptDomainSuccessor hsucc

theorem SamePlane.evaluateDomain :
    SamePlane id (evaluateDomain cfg snap orders now id s)
      (evaluateDomain cfg snap orders now id s') :=
  h.evaluateDomain_of_votes rfl Iff.rfl .refl .refl .refl

end SamePlane

/-! ## The loop -/

/-- What a plane becomes when it is evaluated from `p`. -/
def planeResult (cfg : EvaluatorConfig) (snap : List Entry) (orders : Orders) (now : Int) (p : Pass)
    (id : UInt8) : Plane :=
  evaluateDomain cfg snap orders now id ((p.adopted.domains id).getD default, p.timers)

/-- A pass whose planes `ids` have been evaluated with the given results. -/
def Pass.withPlanes (p : Pass) (result : UInt8 → Plane) (ids : List UInt8) : Pass where
  out :=
    { p.out with
      quorumMet := fun
        | .domainShardBits id =>
          if id ∈ ids then some (result id).1.quorumMet else p.out.quorumMet (.domainShardBits id)
        | field => p.out.quorumMet field
      divergenceFields := p.out.divergenceFields ++
        (ids.filter fun id => (result id).1.divergent).map fun id => (Field.domainShardBits id).name
      domains := fun id => if id ∈ ids then some (result id).1 else p.out.domains id }
  timers := fun k =>
    match k.field.plane? with
    | some id => if id ∈ ids then (result id).2 k else p.timers k
    | none => p.timers k
  adopted :=
    { p.adopted with
      domains := fun id => if id ∈ ids then some (result id).1 else p.adopted.domains id }

theorem samePlane_planeResult_withPlanes (h : id ∉ ids) (result : UInt8 → Plane) :
    SamePlane id (planeResult cfg snap orders now (p.withPlanes result ids) id)
      (planeResult cfg snap orders now p id) := by
  apply SamePlane.evaluateDomain
  constructor
  · simp only [Pass.withPlanes, if_neg h]
  · intro k hk
    simp only [Pass.withPlanes, hk, if_neg h]

theorem withPlanes_nil (result : UInt8 → Plane) : p.withPlanes result [] = p := by
  have hquorum : (p.withPlanes result []).out.quorumMet = p.out.quorumMet := by
    funext field
    cases field <;> simp [Pass.withPlanes]
  have hdivergence : (p.withPlanes result []).out.divergenceFields = p.out.divergenceFields := by
    simp [Pass.withPlanes]
  have htimers : (p.withPlanes result []).timers = p.timers := by
    funext k
    simp only [Pass.withPlanes, List.not_mem_nil, if_false]
    split <;> rfl
  obtain ⟨⟨⟩, _, ⟨⟩⟩ := p
  simp_all [Pass.withPlanes]

/-- Writing one more plane into a pass. -/
theorem evaluateDomainRound_eq (q : Pass) (id : UInt8) :
    evaluateDomainRound cfg snap orders now q id =
      let s := planeResult cfg snap orders now q id
      let out := (q.out.addDivergence (.domainShardBits id) s.1.divergent).setQuorumMet
        (.domainShardBits id) s.1.quorumMet
      ⟨{ out with domains := Function.update out.domains id (some s.1) }, s.2,
        { q.adopted with domains := Function.update q.adopted.domains id (some s.1) }⟩ := rfl

theorem update_domains_append (result : UInt8 → Plane) (domains : UInt8 → Option DomainAdoption) :
    Function.update (fun i => if i ∈ ids then some (result i).1 else domains i) id
        (some (result id).1) =
      fun i => if i ∈ ids ++ [id] then some (result i).1 else domains i := by
  funext i
  by_cases heq : i = id
  · subst heq
    simp
  · simp [heq]

theorem evaluateDomainRound_withPlanes (h : id ∉ ids) :
    evaluateDomainRound cfg snap orders now
        (p.withPlanes (planeResult cfg snap orders now p) ids) id =
      p.withPlanes (planeResult cfg snap orders now p) (ids ++ [id]) := by
  set result := planeResult cfg snap orders now p
  obtain ⟨hview, hplane⟩ :
      SamePlane id (planeResult cfg snap orders now (p.withPlanes result ids) id) (result id) :=
    samePlane_planeResult_withPlanes h result
  have hother : ∀ k, k.field.plane? ≠ some id →
      (planeResult cfg snap orders now (p.withPlanes result ids) id).2 k =
        (p.withPlanes result ids).timers k := fun k hk => evaluateDomain_timers hk
  rw [evaluateDomainRound_eq]
  generalize planeResult cfg snap orders now (p.withPlanes result ids) id = s at *
  obtain ⟨view, timers⟩ := s
  dsimp only at hview hplane hother ⊢
  subst hview
  have htimers : timers = (p.withPlanes result (ids ++ [id])).timers := by
    funext k
    by_cases hk : k.field.plane? = some id
    · rw [hplane k hk]
      simp [Pass.withPlanes, hk]
    · rw [hother k hk]
      simp only [Pass.withPlanes]
      cases hp : k.field.plane? with
      | none => rfl
      | some other =>
          have hne : other ≠ id := fun heq => hk (by rw [hp, heq])
          simp [hne]
  have hquorum : Function.update (p.withPlanes result ids).out.quorumMet (.domainShardBits id)
      (some (result id).1.quorumMet) = (p.withPlanes result (ids ++ [id])).out.quorumMet := by
    funext field
    by_cases heq : field = .domainShardBits id
    · subst heq
      simp [Pass.withPlanes]
    · rw [Function.update_of_ne heq]
      cases field with
      | domainShardBits other =>
          have hne : other ≠ id := fun h => heq (by rw [h])
          simp [Pass.withPlanes, hne]
      | _ => rfl
  have hdivergence :
      ((p.withPlanes result ids).out.addDivergence (.domainShardBits id)
        (result id).1.divergent).divergenceFields =
      (p.withPlanes result (ids ++ [id])).out.divergenceFields := by
    simp only [Adopted.addDivergence, Pass.withPlanes, List.filter_append, List.map_append]
    cases hd : (result id).1.divergent <;> simp [hd]
  rw [htimers]
  simp only [Adopted.addDivergence, Adopted.setQuorumMet] at hdivergence ⊢
  rw [hquorum, hdivergence]
  simp only [Pass.withPlanes, update_domains_append]

/-- After the loop each plane stands as if it had been evaluated alone. -/
theorem foldl_evaluateDomainRound (h : ids.Nodup) :
    ids.foldl (evaluateDomainRound cfg snap orders now) p =
      p.withPlanes (planeResult cfg snap orders now p) ids := by
  induction ids using List.reverseRecOn with
  | nil => exact (withPlanes_nil _).symm
  | append_singleton ids id ih =>
      obtain ⟨hids, -, hid⟩ := List.nodup_append.mp h
      have hfresh : id ∉ ids := fun hmem => hid id hmem id (List.mem_singleton_self id) rfl
      rw [List.foldl_append, ih hids]
      exact evaluateDomainRound_withPlanes hfresh

theorem nodup_domainIDs (adopted : Retained) : (domainIDs cfg snap adopted).Nodup := by
  apply List.Nodup.filter
  apply List.Nodup.map_on _ List.nodup_range
  intro i hi j hj h
  rw [List.mem_range] at hi hj
  have hnat := congrArg UInt8.toNat h
  rwa [UInt8.toNat_ofNat_of_lt' hi, UInt8.toNat_ofNat_of_lt' hj] at hnat

theorem evaluateDomains_eq : evaluateDomains cfg snap orders now p =
    p.withPlanes (planeResult cfg snap orders now p)
      (orders.ids.visit (domainIDs cfg snap p.adopted)) := by
  apply foldl_evaluateDomainRound
  exact (orders.ids.perm _).nodup_iff.mpr (nodup_domainIDs _)

theorem mem_domainIDs_of_descriptors {adopted : Retained} (h : descriptors snap id ≠ []) :
    id ∈ domainIDs cfg snap adopted := by
  rw [domainIDs, List.mem_filter]
  constructor
  · rw [List.mem_map]
    exact ⟨id.toNat, List.mem_range.mpr id.toNat_lt, UInt8.ofNat_toNat⟩
  · simp [h]

/-- The view returned for an announced plane. -/
theorem evaluateDomains_domains (h : descriptors snap id ≠ []) :
    (evaluateDomains cfg snap orders now p).out.domains id =
      some (planeResult cfg snap orders now p id).1 := by
  rw [evaluateDomains_eq]
  exact if_pos (orders.ids.mem_visit.mpr (mem_domainIDs_of_descriptors h))

theorem evaluateDomains_planeTimers (h : descriptors snap id ≠ []) (hk : k.field.plane? = some id) :
    (evaluateDomains cfg snap orders now p).timers k = (planeResult cfg snap orders now p id).2 k := by
  rw [evaluateDomains_eq]
  simp only [Pass.withPlanes, hk]
  exact if_pos (orders.ids.mem_visit.mpr (mem_domainIDs_of_descriptors h))

/-! ## The order of the loop -/

/-- Passes that differ at most in the order of the reported fields. -/
structure SameUpToReports (p q : Pass) : Prop where
  out : { p.out with divergenceFields := q.out.divergenceFields } = q.out
  reports : p.out.divergenceFields.Perm q.out.divergenceFields
  timers : p.timers = q.timers
  adopted : p.adopted = q.adopted

theorem sameUpToReports_withPlanes {result : UInt8 → Plane} {ids ids' : List UInt8}
    (h : ids.Perm ids') : SameUpToReports (p.withPlanes result ids) (p.withPlanes result ids') where
  out := by simp only [Pass.withPlanes, h.mem_iff]
  reports := List.Perm.append_left _ ((h.filter _).map _)
  timers := by simp only [Pass.withPlanes, h.mem_iff]
  adopted := by simp only [Pass.withPlanes, h.mem_iff]

/-- When no plane depends on the scans, the loop depends on nothing but the order of its reports. -/
theorem sameUpToReports_evaluateDomains {orders' : Orders}
    (h : ∀ id s, evaluateDomain cfg snap orders now id s = evaluateDomain cfg snap orders' now id s) :
    SameUpToReports (evaluateDomains cfg snap orders now p)
      (evaluateDomains cfg snap orders' now p) := by
  have hresult : planeResult cfg snap orders now p = planeResult cfg snap orders' now p :=
    funext fun id => h id _
  rw [evaluateDomains_eq, evaluateDomains_eq, hresult]
  apply sameUpToReports_withPlanes
  exact (orders.ids.perm _).trans (orders'.ids.perm _).symm

end ShardCommon.Manifest
