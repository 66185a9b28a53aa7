import ShardCommon.Proof.EvaluatorCalls
import ShardCommon.Proof.Registry

/-!
# Two runs side by side

What an evaluator adopts for a field depends on the votes for that field alone. Two runs that agree on
these votes therefore agree on what is adopted, call by call: entries without authority have no
influence on either, and a plane has none on the top level or on another plane. Ties are resolved by a
fixed rule on the counts.
-/

namespace ShardCommon.Manifest

open ShardCommon.Frame

variable {cfg : EvaluatorConfig} {e e' : Evaluator} {snap snap' : List Entry} {orders orders' : Orders}
  {now : Int} {p p' : Pass} {id : UInt8} {pins : UInt8 → Option UInt8} {c c' : Call}

/-! ## The top level -/

/-- Passes with the same top level; their source sets and planes may differ. -/
structure LikePass (p p' : Pass) : Prop where
  out : ∃ sources, p'.out = { p.out with sourceSet := sources }
  adopted : ∃ domains, p'.adopted = { p.adopted with domains := domains }
  timers : ∀ k, k.field.plane? = none → p.timers k = p'.timers k

section LikePass

variable (h : LikePass p p')

include h

theorem LikePass.adopt {K : Type} [DecidableEq K] [Inhabited K] (f : TopField K)
    {votes votes' : List (K × Entry)} {order order' : RangeOrder (Vote K)}
    (hvotes : SameTally cfg.quorum order order' votes votes') :
    LikePass (f.adopt cfg (.ofVotes votes) order now p)
      (f.adopt (cfg.withPlanePins pins) (.ofVotes votes') order' now p') := by
  obtain ⟨⟨sources, hout⟩, ⟨domains, hadopted⟩, htimers⟩ := h
  have hpins : f.pin (cfg.withPlanePins pins).pin = f.pin cfg.pin := f.pin_planes _ _
  have hretained : f.retained p'.adopted = f.retained p.adopted := by
    rw [hadopted, f.retained_domains]
  have hput : ∀ v met divergent, ∃ sources, (f.put p'.out v).report f.field met divergent =
      { (f.put p.out v).report f.field met divergent with sourceSet := sources } := by
    intro v met divergent
    rw [hout, f.put_sourceSet]
    exact ⟨sources, rfl⟩
  cases hpin : f.pin cfg.pin with
  | some pin =>
      rw [TopField.adopt_of_pin hpin, TopField.adopt_of_pin (hpins.trans hpin), hvotes.disagreement]
      exact ⟨hput _ _ _, ⟨domains, hadopted⟩, htimers⟩
  | none =>
      cases hbest : Tallies.best (order'.visit (Tallies.ofVotes votes').entries) cfg.quorum with
      | none =>
          rw [TopField.adopt_of_none hpin (hvotes.best.trans hbest),
            TopField.adopt_of_none (hpins.trans hpin) hbest, hvotes.multiple, hretained]
          exact ⟨hput _ _ _, ⟨domains, hadopted⟩, htimers⟩
      | some v =>
          obtain ⟨helapsed, hnext⟩ := f.elapsed_agree cfg now htimers f.plane_field
            (hvotes.interval v)
          rw [TopField.adopt_of_selected hpin (hvotes.best.trans hbest),
            TopField.adopt_of_selected (hpins.trans hpin) hbest, f.elapsed_withPlanePins,
            hvotes.multiple, hretained, helapsed]
          refine ⟨hput _ _ _, ⟨domains, ?_⟩, hnext⟩
          rw [hadopted, f.retain_domains]

theorem LikePass.adoptSuccessor {votes votes' : List (SuccessorKey × Entry)}
    {order order' : RangeOrder (Vote SuccessorKey)}
    (hvotes : SameTally cfg.quorum order order' votes votes') :
    LikePass (adoptSuccessor cfg (.ofVotes votes) order now p)
      (adoptSuccessor (cfg.withPlanePins pins) (.ofVotes votes') order' now p') := by
  obtain ⟨out, timers, adopted⟩ := p
  obtain ⟨out', timers', adopted'⟩ := p'
  obtain ⟨⟨sources, rfl⟩, ⟨domains, rfl⟩, htimers⟩ := h
  rw [Manifest.adoptSuccessor, Manifest.adoptSuccessor, hysteresisElapsed_withPlanePins,
    quorum_withPlanePins, bestSuccessor, bestSuccessor, hvotes.best]
  split
  · next sv _ =>
      have helapsed := hysteresisElapsed_agree cfg now htimers ⟨.successor, successorHash sv⟩ rfl
        (hvotes.interval sv)
      dsimp only
      rw [helapsed.1]
      split
      · split <;> exact ⟨⟨sources, rfl⟩, ⟨domains, rfl⟩, helapsed.2⟩
      · exact ⟨⟨sources, rfl⟩, ⟨domains, rfl⟩, htimers⟩
  · exact ⟨⟨sources, rfl⟩, ⟨domains, rfl⟩, resetField_agree htimers _⟩

end LikePass

/-! ## Rules for ties -/

/-- The scan selects what the rule says for the counts. -/
def Picks {K : Type} [DecidableEq K] [Inhabited K] (rule : (K → Nat) → Option K)
    (order : RangeOrder (Vote K)) (votes : List (K × Entry)) (quorum : Int) : Prop :=
  Tallies.best (order.visit (Tallies.ofVotes votes).entries) quorum =
    rule fun v => (Tallies.voters votes v).length

/-- What is selected, as a function of the counts, for each field. -/
structure TieRule where
  shardBits : (UInt8 → Nat) → Option UInt8
  sourceMode : (Bool → Nat) → Option Bool
  successor : (SuccessorKey → Nat) → Option SuccessorKey
  domainShardBits : UInt8 → (UInt8 → Nat) → Option UInt8
  domainSourceMode : UInt8 → (Bool → Nat) → Option Bool
  domainSuccessor : UInt8 → (SuccessorKey → Nat) → Option SuccessorKey

structure TieRule.Resolves (rule : TieRule) (quorum : Int) (c : Call) : Prop where
  shardBits : Picks rule.shardBits c.orders.shardBits (shardBitsVotes c.snap) quorum
  sourceMode : Picks rule.sourceMode c.orders.sourceMode (sourceModeVotes c.snap) quorum
  successor : Picks rule.successor c.orders.successor (successorVotes c.snap) quorum
  domainShardBits : ∀ id, Picks (rule.domainShardBits id) (c.orders.domainShardBits id)
    (domainShardBitsVotes c.snap id) quorum
  domainSourceMode : ∀ id, Picks (rule.domainSourceMode id) (c.orders.domainSourceMode id)
    (domainSourceModeVotes c.snap id) quorum
  domainSuccessor : ∀ id, Picks (rule.domainSuccessor id) (c.orders.domainSuccessor id)
    (domainSuccessorVotes c.snap id) quorum

theorem SameTally.of_picks {K : Type} [DecidableEq K] [Inhabited K] {rule : (K → Nat) → Option K}
    {order order' : RangeOrder (Vote K)} {votes votes' : List (K × Entry)} {quorum : Int}
    (hballots : Manifest.ballots votes = Manifest.ballots votes') (h : Picks rule order votes quorum)
    (h' : Picks rule order' votes' quorum) : SameTally quorum order order' votes votes' := by
  refine ⟨hballots, h.trans (Eq.trans ?_ h'.symm)⟩
  have hcount : ∀ votes : List (K × Entry), (fun v => (Tallies.voters votes v).length) =
      fun v => (Tallies.voters (Manifest.ballots votes) v).length := by
    intro votes
    funext v
    rw [Manifest.ballots, Tallies.voters_map, List.length_map]
  rw [hcount, hcount, hballots]

/-- The rule for votes that all go to one candidate. -/
def unanimous {K : Type} (quorum : Int) (candidate : K) (counts : K → Nat) : Option K :=
  if counts candidate < quorum then none else some candidate

theorem picks_unanimous {K : Type} [DecidableEq K] [Inhabited K] {quorum : Int} {candidate : K}
    {votes : List (K × Entry)} (hquorum : 0 < quorum) (hall : ∀ vote ∈ votes, vote.1 = candidate)
    (order : RangeOrder (Vote K)) : Picks (unanimous quorum candidate) order votes quorum := by
  have honly : ∀ v t, (Tallies.ofVotes votes).lookup v = some t → v = candidate := by
    intro v t ht
    have hmem : v ∈ (Tallies.ofVotes votes).keys :=
      AList.mem_keys.mp (AList.lookup_isSome.mp (by rw [ht]; rfl))
    obtain ⟨vote, hvote, rfl⟩ := List.mem_map.mp (Tallies.mem_keys_ofVotes.mp hmem)
    exact hall vote hvote
  have hselected : ∀ v, Tallies.best (order.visit (Tallies.ofVotes votes).entries) quorum = some v →
      v = candidate ∧ quorum ≤ (Tallies.voters votes candidate).length := by
    intro v hv
    obtain ⟨t, ht, hcount, _⟩ := Tallies.leads_of_best hquorum order hv
    obtain rfl := honly v t ht
    rw [← (Tallies.count_of_lookup ht).1]
    exact ⟨rfl, hcount⟩
  rw [Picks, unanimous]
  split
  · next hfew =>
      cases hbest : Tallies.best (order.visit (Tallies.ofVotes votes).entries) quorum with
      | none => rfl
      | some v => exact absurd (hselected v hbest).2 (not_le.mpr hfew)
  · next hmany =>
      have hleads : (Tallies.ofVotes votes).Leads quorum candidate := by
        have hlookup := Tallies.lookup_ofVotes votes candidate
        cases hvoters : Tallies.voters votes candidate with
        | nil =>
            rw [hvoters] at hmany
            exact absurd hquorum hmany
        | cons voter rest =>
            rw [hvoters, List.head?_cons, Option.map_some] at hlookup
            refine ⟨_, hlookup, by rw [← hvoters]; exact not_lt.mp hmany, ?_⟩
            intro other t ht
            obtain rfl := honly other t ht
            exact (congrArg Tally.count (Option.some.inj (ht.symm.trans hlookup))).le
      obtain ⟨v, hv⟩ := Tallies.exists_best_of_leads order hleads
      rw [hv, (hselected v hv).1]

/-! ## Calls that agree -/

/-- An entry with its descriptors of these planes only. `DomainsValid` says that an announcer has
descriptors of any plane, so it is left out with them. -/
def Entry.onPlanes (planes : UInt8 → Bool) (en : Entry) : Entry :=
  { en with
    flags := en.flags &&& ~~~flagDomainsValid
    domains := en.domains.filter fun d => planes d.domainID }

theorem hasFlag_domainsValid {bit : UInt8} (hbit : ~~~flagDomainsValid &&& bit = bit) (flags : UInt8) :
    hasFlag (flags &&& ~~~flagDomainsValid) bit = hasFlag flags bit := by
  rw [hasFlag, UInt8.and_assoc, hbit, ← hasFlag]

@[simp] theorem announceInterval_onPlanes (planes : UInt8 → Bool) (en : Entry) :
    (en.onPlanes planes).announceInterval = en.announceInterval := rfl

@[simp] theorem authoritative_onPlanes (planes : UInt8 → Bool) (en : Entry) :
    (en.onPlanes planes).authoritative = en.authoritative := hasFlag_domainsValid (by decide) _

@[simp] theorem sourceModeSSM_onPlanes (planes : UInt8 → Bool) (en : Entry) :
    (en.onPlanes planes).sourceModeSSM = en.sourceModeSSM := hasFlag_domainsValid (by decide) _

@[simp] theorem pilotOnly_onPlanes (planes : UInt8 → Bool) (en : Entry) :
    (en.onPlanes planes).pilotOnly = en.pilotOnly := hasFlag_domainsValid (by decide) _

/-- Two calls at one time whose authorities agree but for the planes left out. -/
structure AgreeingCalls (rule : TieRule) (quorum : Int) (planes : UInt8 → Bool) (c c' : Call) :
    Prop where
  now : c.now = c'.now
  authorities : (authorities c.snap).map (·.onPlanes planes) =
    (authorities c'.snap).map (·.onPlanes planes)
  resolved : rule.Resolves quorum c
  resolved' : rule.Resolves quorum c'

/-- The descriptors of a plane, with the intervals of their announcers. -/
def described (snap : List Entry) (id : UInt8) : List (DomainDescriptor × UInt16) :=
  (descriptors snap id).map (Prod.map (fun d => d) (·.announceInterval))

theorem described_eq {planes : UInt8 → Bool} (hid : planes id = true) (snap : List Entry) :
    described snap id = ((authorities snap).map (·.onPlanes planes)).flatMap fun en =>
      (en.domains.filter fun d => d.domainID ≠ 0 ∧ d.domainID = id).map
        fun d => (d, en.announceInterval) := by
  rw [described, descriptors, List.map_flatMap, List.flatMap_map]
  congr 1
  funext en
  have hfilter : ((en.onPlanes planes).domains.filter fun d => d.domainID ≠ 0 ∧ d.domainID = id) =
      en.domains.filter fun d => d.domainID ≠ 0 ∧ d.domainID = id := by
    rw [Entry.onPlanes, List.filter_filter]
    apply List.filter_congr
    intro d _
    by_cases heq : d.domainID = id
    · simp [heq, hid]
    · simp [heq]
  rw [hfilter, List.map_map]
  rfl

section AgreeingCalls

variable {rule : TieRule} {quorum : Int} {planes : UInt8 → Bool}
  (h : AgreeingCalls rule quorum planes c c')

include h

theorem AgreeingCalls.shardBits : SameTally quorum c.orders.shardBits c'.orders.shardBits
    (shardBitsVotes c.snap) (shardBitsVotes c'.snap) := by
  refine .of_picks ?_ h.resolved.shardBits h.resolved'.shardBits
  have hvotes := congrArg (List.map fun en : Entry => (en.shardBits, en.announceInterval))
    h.authorities
  simpa [ballots, shardBitsVotes, Function.comp_def, Entry.onPlanes] using hvotes

theorem AgreeingCalls.sourceMode : SameTally quorum c.orders.sourceMode c'.orders.sourceMode
    (sourceModeVotes c.snap) (sourceModeVotes c'.snap) := by
  refine .of_picks ?_ h.resolved.sourceMode h.resolved'.sourceMode
  have hvotes := congrArg (List.map fun en : Entry => (en.sourceModeSSM, en.announceInterval))
    h.authorities
  simpa [ballots, sourceModeVotes, Function.comp_def] using hvotes

theorem AgreeingCalls.successor : SameTally quorum c.orders.successor c'.orders.successor
    (successorVotes c.snap) (successorVotes c'.snap) := by
  refine .of_picks ?_ h.resolved.successor h.resolved'.successor
  have hvotes := congrArg (List.filterMap fun en : Entry =>
    en.successor.map fun s => (successorKey s, en.announceInterval)) h.authorities
  simpa [ballots, successorVotes, List.map_filterMap, List.filterMap_map, Function.comp_def,
    Entry.onPlanes] using hvotes

theorem AgreeingCalls.described (hid : planes id = true) :
    described c.snap id = described c'.snap id := by
  rw [described_eq hid, described_eq hid, h.authorities]

theorem AgreeingCalls.descriptors (hid : planes id = true) :
    descriptors c'.snap id = [] ↔ descriptors c.snap id = [] := by
  have hdescribed := h.described hid
  rw [Manifest.described, Manifest.described] at hdescribed
  rw [← List.map_eq_nil_iff, ← hdescribed, List.map_eq_nil_iff]

theorem AgreeingCalls.domainShardBits (hid : planes id = true) :
    SameTally quorum (c.orders.domainShardBits id) (c'.orders.domainShardBits id)
      (domainShardBitsVotes c.snap id) (domainShardBitsVotes c'.snap id) := by
  refine .of_picks ?_ (h.resolved.domainShardBits id) (h.resolved'.domainShardBits id)
  have hvotes := congrArg (List.map fun p : DomainDescriptor × UInt16 => (p.1.shardBits, p.2))
    (h.described hid)
  simpa [ballots, domainShardBitsVotes, Manifest.described, Function.comp_def] using hvotes

theorem AgreeingCalls.domainSourceMode (hid : planes id = true) :
    SameTally quorum (c.orders.domainSourceMode id) (c'.orders.domainSourceMode id)
      (domainSourceModeVotes c.snap id) (domainSourceModeVotes c'.snap id) := by
  refine .of_picks ?_ (h.resolved.domainSourceMode id) (h.resolved'.domainSourceMode id)
  have hvotes := congrArg (List.map fun p : DomainDescriptor × UInt16 =>
    (hasFlag p.1.flags domainFlagSourceModeSSM, p.2)) (h.described hid)
  simpa [ballots, domainSourceModeVotes, Manifest.described, Function.comp_def] using hvotes

theorem AgreeingCalls.domainSuccessor (hid : planes id = true) :
    SameTally quorum (c.orders.domainSuccessor id) (c'.orders.domainSuccessor id)
      (domainSuccessorVotes c.snap id) (domainSuccessorVotes c'.snap id) := by
  refine .of_picks ?_ (h.resolved.domainSuccessor id) (h.resolved'.domainSuccessor id)
  have hvotes := congrArg (List.filterMap fun p : DomainDescriptor × UInt16 =>
    p.1.successor.map fun s => (successorKey s, p.2)) (h.described hid)
  simpa [ballots, domainSuccessorVotes, Manifest.described, List.map_filterMap, List.filterMap_map,
    Function.comp_def] using hvotes

theorem AgreeingCalls.pilotGroups : pilotGroups c.snap = pilotGroups c'.snap := by
  have hgroups : ∀ snap, Manifest.pilotGroups snap = sortUint16s
      ((((Manifest.authorities snap).map (·.onPlanes planes)).filter (·.pilotOnly)).flatMap
        (·.groups)) := by
    intro snap
    rw [List.filter_map, List.flatMap_map]
    simp only [Function.comp_def, pilotOnly_onPlanes]
    rfl
  rw [hgroups, hgroups, h.authorities]

theorem AgreeingCalls.freshView : ∃ sources,
    freshView c'.snap = { freshView c.snap with sourceSet := sources } := by
  have hlength := congrArg List.length h.authorities
  rw [List.length_map, List.length_map] at hlength
  rw [Manifest.freshView, Manifest.freshView, h.pilotGroups, hlength]
  exact ⟨_, rfl⟩

end AgreeingCalls

/-! ## Evaluators side by side -/

/-- Evaluators that agree at the top level and on these planes. -/
structure Alongside (cfg : EvaluatorConfig) (pins : UInt8 → Option UInt8) (planes : UInt8 → Bool)
    (e e' : Evaluator) : Prop where
  config : e.cfg = cfg
  config' : e'.cfg = cfg.withPlanePins pins
  shardBits : e.adopted.shardBits = e'.adopted.shardBits
  sourceModeSSM : e.adopted.sourceModeSSM = e'.adopted.sourceModeSSM
  successor : e.adopted.successor = e'.adopted.successor
  timers : ∀ k, k.field.plane? = none → e.timers k = e'.timers k
  domains : ∀ id, planes id = true → e.adopted.domains id = e'.adopted.domains id
  planeTimers : ∀ id, planes id = true → AgreeOn id e.timers e'.timers

section Alongside

variable {rule : TieRule} {planes : UInt8 → Bool}
  (hpins : ∀ id, planes id = true → pins id = cfg.pin.domainShardBits id)
  (h : Alongside cfg pins planes e e') (hcalls : AgreeingCalls rule cfg.quorum planes c c')

include h hcalls

theorem Alongside.topPass : LikePass (e.topPass c.snap c.now c.orders)
    (e'.topPass c'.snap c'.now c'.orders) := by
  have hstart : LikePass ⟨freshView c.snap, e.timers, e.adopted⟩
      ⟨freshView c'.snap, e'.timers, e'.adopted⟩ := by
    refine ⟨hcalls.freshView, ⟨e'.adopted.domains, ?_⟩, h.timers⟩
    dsimp only
    rw [h.shardBits, h.sourceModeSSM, h.successor]
  rw [Evaluator.topPass, Evaluator.topPass, h.config, h.config', ← hcalls.now]
  simp only [adoptShardBits_eq, adoptSourceMode_eq]
  exact ((hstart.adopt .shardBits hcalls.shardBits).adopt .sourceMode
    hcalls.sourceMode).adoptSuccessor hcalls.successor

include hpins

theorem Alongside.evaluateDomain (hid : planes id = true) :
    SamePlane id (evaluateDomain e.cfg c.snap c.orders c.now id (e.plane id))
      (evaluateDomain e'.cfg c'.snap c'.orders c'.now id (e'.plane id)) := by
  have hplane : SamePlane id (e.plane id) (e'.plane id) := by
    refine ⟨?_, h.planeTimers id hid⟩
    rw [Evaluator.plane, Evaluator.plane, h.domains id hid]
  rw [h.config, h.config', ← hcalls.now]
  exact hplane.evaluateDomain_of_votes (hpins id hid) (hcalls.descriptors hid)
    (hcalls.domainShardBits hid) (hcalls.domainSourceMode hid) (hcalls.domainSuccessor hid)

theorem Alongside.mem_domainIDs (hid : planes id = true) :
    id ∈ domainIDs e.cfg c.snap e.adopted ↔ id ∈ domainIDs e'.cfg c'.snap e'.adopted := by
  have hpin : e'.cfg.pin.domainShardBits id = e.cfg.pin.domainShardBits id := by
    rw [h.config, h.config']
    exact hpins id hid
  simp only [mem_domainIDs_iff, hpin, h.domains id hid, ne_eq, hcalls.descriptors hid]

theorem Alongside.view_domains (hid : planes id = true) :
    (e.evaluate c.snap c.now c.orders).1.domains id =
      (e'.evaluate c'.snap c'.now c'.orders).1.domains id := by
  rw [evaluate_domains, evaluate_domains, (h.evaluateDomain hpins hcalls hid).1]
  simp only [h.mem_domainIDs hpins hcalls hid]

theorem Alongside.evaluate : Alongside cfg pins planes (e.evaluate c.snap c.now c.orders).2
    (e'.evaluate c'.snap c'.now c'.orders).2 := by
  have hsame : SameTop (e.topPass c.snap c.now c.orders) (e.pass c.snap c.now c.orders) :=
    sameTop_pass
  have hsame' : SameTop (e'.topPass c'.snap c'.now c'.orders) (e'.pass c'.snap c'.now c'.orders) :=
    sameTop_pass
  have htop := h.topPass hcalls
  obtain ⟨domains, hadopted⟩ := htop.adopted
  refine ⟨h.config, h.config', ?_, ?_, ?_, ?_, ?_, ?_⟩
  · exact hsame.adoptedShardBits.trans (hsame'.adoptedShardBits.trans (by rw [hadopted])).symm
  · exact hsame.adoptedSourceModeSSM.trans
      (hsame'.adoptedSourceModeSSM.trans (by rw [hadopted])).symm
  · exact hsame.adoptedSuccessor.trans (hsame'.adoptedSuccessor.trans (by rw [hadopted])).symm
  · intro k hk
    exact ((hsame.timers k hk).trans (htop.timers k hk)).trans (hsame'.timers k hk).symm
  · intro id hid
    rw [evaluate_retained, evaluate_retained]
    exact h.view_domains hpins hcalls hid
  · intro id hid k hk
    rw [evaluate_timers hk, evaluate_timers hk, (h.evaluateDomain hpins hcalls hid).2 k hk,
      h.planeTimers id hid k hk]
    simp only [h.mem_domainIDs hpins hcalls hid]

end Alongside

theorem alongside_newEvaluator (cfg : EvaluatorConfig) (pins : UInt8 → Option UInt8)
    (planes : UInt8 → Bool) : Alongside (newEvaluator cfg).cfg pins planes (newEvaluator cfg)
      (newEvaluator (cfg.withPlanePins pins)) := by
  refine ⟨rfl, ?_, rfl, rfl, rfl, fun _ _ => rfl, fun _ _ => rfl, fun _ _ _ _ => rfl⟩
  rw [newEvaluator, newEvaluator]
  dsimp only
  rw [quorum_withPlanePins]
  split <;> rfl

/-- Two runs whose states stay in a relation answer alike. -/
theorem forall₂_turns {call : Call → Call → Prop} {calls calls' : List Call}
    (state : Evaluator → Evaluator → Prop) (answer : Adopted → Adopted → Prop)
    (hstep : ∀ e e' c c', state e e' → call c c' →
      answer (e.evaluate c.snap c.now c.orders).1 (e'.evaluate c'.snap c'.now c'.orders).1 ∧
        state (e.evaluate c.snap c.now c.orders).2 (e'.evaluate c'.snap c'.now c'.orders).2)
    (hstart : state e e') (hcalls : List.Forall₂ call calls calls') :
    List.Forall₂ (fun t t' => answer t.view t'.view) (e.turns calls) (e'.turns calls') := by
  induction hcalls generalizing e e' with
  | nil => exact .nil
  | @cons c c' calls calls' hcall _ ih =>
      obtain ⟨hanswer, hnext⟩ := hstep e e' c c' hstart hcall
      rw [turns_cons, turns_cons]
      exact .cons hanswer (ih hnext)

/-! ## Announcers without authority -/

/-- Two calls at one time with the same authorities, in the same order. -/
structure SameAuthorities (rule : TieRule) (quorum : Int) (c c' : Call) : Prop where
  now : c.now = c'.now
  authorities : authorities c.snap = authorities c'.snap
  resolved : rule.Resolves quorum c
  resolved' : rule.Resolves quorum c'

theorem SameAuthorities.agree {rule : TieRule} {quorum : Int}
    (h : SameAuthorities rule quorum c c') (planes : UInt8 → Bool) :
    AgreeingCalls rule quorum planes c c' :=
  ⟨h.now, by rw [h.authorities], h.resolved, h.resolved'⟩

def SameButSources (view view' : Adopted) : Prop :=
  ∃ sources, view' = { view with sourceSet := sources }

theorem Alongside.sameButSources {rule : TieRule}
    (h : Alongside cfg cfg.pin.domainShardBits (fun _ => true) e e')
    (hcalls : AgreeingCalls rule cfg.quorum (fun _ => true) c c') :
    SameButSources (e.evaluate c.snap c.now c.orders).1
      (e'.evaluate c'.snap c'.now c'.orders).1 := by
  obtain ⟨sources, hout⟩ := (h.topPass hcalls).out
  have hplane := fun id => (@Alongside.evaluateDomain cfg e e' id _ c c' rule _
    (fun _ _ => rfl) h hcalls rfl).1
  have hmem := fun id => @Alongside.mem_domainIDs cfg e e' id _ c c' rule _
    (fun _ _ => rfl) h hcalls rfl
  have hdomains : (e.evaluate c.snap c.now c.orders).1.domains =
      (e'.evaluate c'.snap c'.now c'.orders).1.domains :=
    funext fun id => h.view_domains (fun _ _ => rfl) hcalls rfl
  have hquorum : (e.evaluate c.snap c.now c.orders).1.quorumMet =
      (e'.evaluate c'.snap c'.now c'.orders).1.quorumMet := by
    funext field
    simp only [evaluate_quorumMet, hout, hplane, hmem]
  have hreports : (e.evaluate c.snap c.now c.orders).1.divergenceFields =
      (e'.evaluate c'.snap c'.now c'.orders).1.divergenceFields := by
    rw [evaluate_divergenceFields, evaluate_divergenceFields, hout]
    apply sort_reports
    simp only [hplane]
    have hids : (domainIDs e.cfg c.snap e.adopted).Perm (domainIDs e'.cfg c'.snap e'.adopted) :=
      (List.perm_ext_iff_of_nodup (nodup_domainIDs _) (nodup_domainIDs _)).mpr hmem
    exact List.Perm.append_left _ ((hids.filter _).map _)
  refine ⟨sources, ?_⟩
  rw [evaluate_view, @evaluate_view e, hout, hquorum, hreports, hdomains]

/-- Runs with the same authorities return the same views, up to the source sets. -/
theorem only_authorities_adopt (cfg : EvaluatorConfig) (rule : TieRule) {calls calls' : List Call}
    (hcalls : List.Forall₂ (SameAuthorities rule (newEvaluator cfg).cfg.quorum) calls calls') :
    List.Forall₂ (fun t t' => SameButSources t.view t'.view)
      ((newEvaluator cfg).turns calls) ((newEvaluator cfg).turns calls') := by
  have hstart : Alongside (newEvaluator cfg).cfg (newEvaluator cfg).cfg.pin.domainShardBits
      (fun _ => true) (newEvaluator cfg) (newEvaluator cfg) :=
    ⟨rfl, rfl, rfl, rfl, rfl, fun _ _ => rfl, fun _ _ => rfl, fun _ _ _ _ => rfl⟩
  refine forall₂_turns _ SameButSources (fun e e' c c' h hcall => ?_) hstart hcalls
  have hagree := hcall.agree fun _ => true
  exact ⟨h.sameButSources hagree, h.evaluate (fun _ _ => rfl) hagree⟩

/-! ### A small run -/

def fourBits (id : UInt8) : DomainDescriptor := ⟨id, 4, 1, 0, 0, .copy 16 [], none⟩

/-- An authority of width 4, also for these planes. -/
def fourBitsManifest (ids : List UInt8) : ShardManifest where
  flags := if ids = [] then flagAuthoritative else flagAuthoritative ||| flagDomainsValid
  srcIPv6 := .copy 16 [0x20, 0x01]
  instanceID := 7
  epoch := 1700000000
  ttl := 90
  announceInterval := 0
  shardBits := 4
  roleHint := 0
  generationID := .copy 16 [1]
  groups := []
  bitmap := []
  sources := []
  successor := none
  domains := ids.map fourBits

def fourBitsOn (ids : List UInt8) : Entry := entryOf (fourBitsManifest ids)

/-- An entry without authority that announces another width. -/
def outsider : Entry := { announcing 9 with flags := 0, sources := [.copy 16 [0x20, 0x02]] }

def fourBitsRule : TieRule where
  shardBits := unanimous 1 4
  sourceMode := unanimous 1 false
  successor := unanimous 1 default
  domainShardBits _ := unanimous 1 4
  domainSourceMode _ := unanimous 1 false
  domainSuccessor _ := unanimous 1 default

theorem fourBitsRule_resolves {ids : List UInt8} (hauth : authorities c.snap = [fourBitsOn ids]) :
    fourBitsRule.Resolves 1 c := by
  have hdescriptors : ∀ id, ∀ p ∈ descriptors c.snap id, ∃ id, p.1 = fourBits id := by
    intro id p hp
    rw [descriptors, hauth] at hp
    simp only [fourBitsOn, entryOf, fourBitsManifest, List.flatMap_singleton, List.mem_map,
      List.mem_filter] at hp
    obtain ⟨d, ⟨⟨id, -, rfl⟩, -⟩, rfl⟩ := hp
    exact ⟨id, rfl⟩
  refine ⟨?_, ?_, ?_, fun id => ?_, fun id => ?_, fun id => ?_⟩
  all_goals apply picks_unanimous (by decide)
  · simp [shardBitsVotes, hauth, fourBitsOn, entryOf, fourBitsManifest]
  · rw [sourceModeVotes, hauth]
    intro vote hvote
    rw [List.mem_singleton.mp hvote]
    simp only [fourBitsOn, entryOf, fourBitsManifest, Entry.sourceModeSSM]
    split <;> decide
  · simp [successorVotes, hauth, fourBitsOn, entryOf, fourBitsManifest]
  · intro vote hvote
    obtain ⟨p, hp, rfl⟩ := List.mem_map.mp hvote
    obtain ⟨id, hid⟩ := hdescriptors id p hp
    rw [hid]
    rfl
  · intro vote hvote
    obtain ⟨p, hp, rfl⟩ := List.mem_map.mp hvote
    obtain ⟨id, hid⟩ := hdescriptors id p hp
    rw [hid]
    simp only [fourBits]
    decide
  · intro vote hvote
    obtain ⟨p, hp, hvote⟩ := List.mem_filterMap.mp hvote
    obtain ⟨id, hid⟩ := hdescriptors id p hp
    rw [hid] at hvote
    cases hvote

theorem outsider_ignored :
    List.Forall₂ (fun t t' => SameButSources t.view t'.view)
      ((newEvaluator (unpinned 1 0)).turns [⟨[fourBitsOn [1]], 0, storedOrders⟩])
      ((newEvaluator (unpinned 1 0)).turns [⟨[outsider, fourBitsOn [1]], 0, storedOrders⟩]) :=
  only_authorities_adopt (unpinned 1 0) fourBitsRule
    (.cons ⟨rfl, rfl, fourBitsRule_resolves rfl, fourBitsRule_resolves rfl⟩ .nil)

/-! ## Planes -/

structure SameTopLevel (view view' : Adopted) : Prop where
  shardBits : view.shardBits = view'.shardBits
  sourceModeSSM : view.sourceModeSSM = view'.sourceModeSSM
  successor : view.successor = view'.successor
  pilotGroups : view.pilotGroups = view'.pilotGroups
  sourceSet : view.sourceSet = view'.sourceSet

/-- Two calls at one time with the same entries, but for the descriptors of the planes left out. -/
structure SameOnPlanes (rule : TieRule) (quorum : Int) (planes : UInt8 → Bool) (c c' : Call) :
    Prop where
  now : c.now = c'.now
  entries : c.snap.map (·.onPlanes planes) = c'.snap.map (·.onPlanes planes)
  resolved : rule.Resolves quorum c
  resolved' : rule.Resolves quorum c'

section SameOnPlanes

variable {rule : TieRule} {planes : UInt8 → Bool}

theorem SameOnPlanes.agree {quorum : Int} (h : SameOnPlanes rule quorum planes c c') :
    AgreeingCalls rule quorum planes c c' := by
  refine ⟨h.now, ?_, h.resolved, h.resolved'⟩
  have hauthorities : ∀ snap, (authorities snap).map (·.onPlanes planes) =
      authorities (snap.map (·.onPlanes planes)) := by
    intro snap
    rw [authorities, authorities, List.filter_map]
    simp only [Function.comp_def, authoritative_onPlanes]
  rw [hauthorities, hauthorities, h.entries]

theorem SameOnPlanes.sources {quorum : Int} (h : SameOnPlanes rule quorum planes c c') :
    c.snap.flatMap (·.sources) = c'.snap.flatMap (·.sources) := by
  have hsources := congrArg (List.flatMap fun en : Entry => en.sources) h.entries
  rw [List.flatMap_map, List.flatMap_map] at hsources
  exact hsources

theorem Alongside.sameTopLevel (h : Alongside cfg pins planes e e')
    (hcall : SameOnPlanes rule cfg.quorum planes c c') :
    SameTopLevel (e.evaluate c.snap c.now c.orders).1 (e'.evaluate c'.snap c'.now c'.orders).1 := by
  obtain ⟨sources, hout⟩ := (h.topPass hcall.agree).out
  have hsources : (e.topPass c.snap c.now c.orders).out.sourceSet =
      (e'.topPass c'.snap c'.now c'.orders).out.sourceSet := by
    obtain ⟨_, _, _, _, _, hfresh⟩ := exists_topPass_out e c.snap c.now c.orders
    obtain ⟨_, _, _, _, _, hfresh'⟩ := exists_topPass_out e' c'.snap c'.now c'.orders
    rw [hfresh, hfresh']
    exact congrArg sortAddrs hcall.sources
  rw [hout] at hsources
  rw [evaluate_view, @evaluate_view e', hout]
  exact ⟨rfl, rfl, rfl, rfl, hsources⟩

/-- Runs that agree on some planes return the same for these planes and at the top level. -/
theorem forall₂_turns_onPlanes
    (hpins : ∀ id, planes id = true → pins id = cfg.pin.domainShardBits id) {calls calls' : List Call}
    (hcalls : List.Forall₂ (SameOnPlanes rule (newEvaluator cfg).cfg.quorum planes) calls calls') :
    List.Forall₂ (fun t t' => SameTopLevel t.view t'.view ∧
        ∀ id, planes id = true → t.view.domains id = t'.view.domains id)
      ((newEvaluator cfg).turns calls) ((newEvaluator (cfg.withPlanePins pins)).turns calls') := by
  have hpin : (newEvaluator cfg).cfg.pin = cfg.pin := by
    rw [newEvaluator]
    dsimp only
    split <;> rfl
  rw [← hpin] at hpins
  refine forall₂_turns _ (fun view view' => SameTopLevel view view' ∧
    ∀ id, planes id = true → view.domains id = view'.domains id) (fun e e' c c' h hcall => ?_)
    (alongside_newEvaluator cfg pins planes) hcalls
  exact ⟨⟨h.sameTopLevel hcall, fun id hid => h.view_domains hpins hcall.agree hid⟩,
    h.evaluate hpins hcall.agree⟩

end SameOnPlanes

/-- Runs that agree but for other planes return the same for plane `d` and at the top level; and runs
that agree but for plane `d` return the same at the top level. -/
theorem planes_adopt_independently (cfg : EvaluatorConfig) (rule : TieRule)
    (pins : UInt8 → Option UInt8) (d : UInt8) {calls calls' : List Call} :
    (pins d = cfg.pin.domainShardBits d →
      List.Forall₂ (SameOnPlanes rule (newEvaluator cfg).cfg.quorum (· == d)) calls calls' →
      List.Forall₂ (fun t t' => SameTopLevel t.view t'.view ∧ t.view.domains d = t'.view.domains d)
        ((newEvaluator cfg).turns calls) ((newEvaluator (cfg.withPlanePins pins)).turns calls')) ∧
    (List.Forall₂ (SameOnPlanes rule (newEvaluator cfg).cfg.quorum (· != d)) calls calls' →
      List.Forall₂ (fun t t' => SameTopLevel t.view t'.view)
        ((newEvaluator cfg).turns calls) ((newEvaluator cfg).turns calls')) := by
  constructor
  · intro hpin hcalls
    have hpins : ∀ id, (id == d) = true → pins id = cfg.pin.domainShardBits id := by
      intro id hid
      rw [eq_of_beq hid]
      exact hpin
    refine (forall₂_turns_onPlanes hpins hcalls).imp ?_
    rintro t t' ⟨htop, hdomains⟩
    exact ⟨htop, hdomains d (beq_self_eq_true d)⟩
  · intro hcalls
    have hpins : ∀ id, (id != d) = true → cfg.pin.domainShardBits id = cfg.pin.domainShardBits id :=
      fun _ _ => rfl
    exact (forall₂_turns_onPlanes hpins hcalls).imp fun t t' hboth => hboth.1

/-- Plane 2 is announced beside plane 1 in one run and pinned in the other; and it is announced alone
in one run and not at all in the other. -/
theorem other_plane_ignored :
    let call (ids : List UInt8) : Call := ⟨[fourBitsOn ids], 0, storedOrders⟩
    let pins : UInt8 → Option UInt8 := fun id => if id = 2 then some 7 else none
    (∀ ids ∈ [[1, 2], [1], [2], []], (fourBitsOn ids).Decoded) ∧
      List.Forall₂ (fun t t' => SameTopLevel t.view t'.view ∧ t.view.domains 1 = t'.view.domains 1)
        ((newEvaluator (unpinned 1 0)).turns [call [1, 2]])
        ((newEvaluator ((unpinned 1 0).withPlanePins pins)).turns [call [1]]) ∧
      List.Forall₂ (fun t t' => SameTopLevel t.view t'.view)
        ((newEvaluator (unpinned 1 0)).turns [call [2]])
        ((newEvaluator (unpinned 1 0)).turns [call []]) := by
  intro call pins
  have honPlanes : ∀ (planes : UInt8 → Bool) (ids ids' : List UInt8),
      [fourBitsOn ids].map (·.onPlanes planes) = [fourBitsOn ids'].map (·.onPlanes planes) →
      authorities [fourBitsOn ids] = [fourBitsOn ids] →
      authorities [fourBitsOn ids'] = [fourBitsOn ids'] →
      List.Forall₂ (SameOnPlanes fourBitsRule 1 planes) [call ids] [call ids'] :=
    fun planes ids ids' hentries hauth hauth' =>
      .cons ⟨rfl, hentries, fourBitsRule_resolves hauth, fourBitsRule_resolves hauth'⟩ .nil
  refine ⟨?_, ?_, ?_⟩
  · simp only [List.forall_mem_cons, List.not_mem_nil, false_imp_iff, implies_true, and_true]
    exact ⟨decoded_entryOf (by decide +kernel), decoded_entryOf (by decide +kernel),
      decoded_entryOf (by decide +kernel), decoded_entryOf (by decide +kernel)⟩
  · exact (planes_adopt_independently (unpinned 1 0) fourBitsRule pins 1).1 rfl
      (honPlanes (· == 1) [1, 2] [1] (by decide +kernel) rfl rfl)
  · exact (planes_adopt_independently (unpinned 1 0) fourBitsRule pins 2).2
      (honPlanes (· != 2) [2] [] (by decide +kernel) rfl rfl)

end ShardCommon.Manifest
