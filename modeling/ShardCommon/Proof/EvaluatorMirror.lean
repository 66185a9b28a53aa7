import ShardCommon.Proof.EvaluatorCalls
import ShardCommon.Proof.EvaluatorSuccessor

/-!
# A plane that mirrors the top level

When every authority announces for a plane what it announces at the top level, the two are fed the
same votes. They adopt the same width and source mode. They part over the successor: the top level
returns one only in a call that confirms it and forgets it with its timers when quorum is lost, a
plane keeps both until nobody announces one.
-/

namespace ShardCommon.Manifest

open ShardCommon.Frame

variable {cfg : EvaluatorConfig} {e : Evaluator} {snap : List Entry} {orders : Orders} {now : Int}
  {p : Pass} {s : Plane} {timers timers' : Timers} {en : Entry} {id : UInt8}

/-! ## Timers under two names -/

/-- Two fields are timed alike. -/
def Matches (field field' : Field) (timers timers' : Timers) : Prop :=
  ∀ v, timers ⟨field, v⟩ = timers' ⟨field', v⟩

theorem hysteresisElapsed_matches {field field' : Field} (h : Matches field field' timers timers')
    (v : UInt64) :
    (hysteresisElapsed cfg timers ⟨field, v⟩ now en).1 =
        (hysteresisElapsed cfg timers' ⟨field', v⟩ now en).1 ∧
      Matches field field' (hysteresisElapsed cfg timers ⟨field, v⟩ now en).2
        (hysteresisElapsed cfg timers' ⟨field', v⟩ now en).2 := by
  simp only [hysteresisElapsed]
  rw [h v]
  cases timers' ⟨field', v⟩ with
  | none =>
      refine ⟨rfl, fun w => ?_⟩
      by_cases heq : w = v
      · subst heq
        simp
      · have hne : ∀ f : Field, (⟨f, w⟩ : FieldKey) ≠ ⟨f, v⟩ := fun f hkey =>
          heq (FieldKey.mk.inj hkey).2
        simp only [Function.update_of_ne (hne _)]
        exact h w
  | some first => exact ⟨rfl, h⟩

/-! ## Block by block -/

/-- The block of a field at the top level and on a plane agree, unless a negative window lets the
plane adopt ahead of its timer. -/
theorem mirror_field {K : Type} [DecidableEq K] [Inhabited K] (f : TopField K) (g : PlaneField K)
    {votes : List (K × Entry)} {order order' : RangeOrder (Vote K)} {q : Pass} {t : Plane}
    (hcode : g.code = f.code) (hpin : f.pin cfg.pin = none) (hvotes : g.votes snap = votes)
    (hties : Tallies.best (order'.visit (Tallies.ofVotes votes).entries) cfg.quorum =
      Tallies.best (order.visit (Tallies.ofVotes votes).entries) cfg.quorum)
    (hclock : f.gated = true →
      0 ≤ cfg.hysteresis ∨ ∀ v first, p.timers ⟨f.field, v⟩ = some first → first ≤ now)
    (hvalue : f.retained p.adopted = g.value s.1)
    (htimers : Matches f.field g.field p.timers s.2)
    (hq : q = f.adopt cfg (.ofVotes votes) order now p) (ht : t = g.adopt cfg snap order' now s) :
    f.shown q.out = g.value t.1 ∧ f.retained q.adopted = g.value t.1 ∧
      Matches f.field g.field q.timers t.2 := by
  have htallies : g.tallies snap = Tallies.ofVotes votes := by rw [PlaneField.tallies, hvotes]
  rw [← htallies] at hties hq
  cases hbest : Tallies.best (order.visit (g.tallies snap).entries) cfg.quorum with
  | none =>
      rw [TopField.adopt_of_none hpin hbest] at hq
      rw [PlaneField.adopt_of_none (hties.trans hbest)] at ht
      rw [hq, ht, f.shown_report, g.value_note]
      exact ⟨hvalue, hvalue, htimers⟩
  | some v =>
      have hkey : g.key v = ⟨g.field, f.code v⟩ := by rw [PlaneField.key, hcode]
      obtain ⟨helapsed, hnext⟩ :=
        @hysteresisElapsed_matches cfg now _ _ (exemplar (g.tallies snap) v) _ _ htimers (f.code v)
      rw [TopField.adopt_of_selected hpin hbest, TopField.elapsed_eq] at hq
      · rw [PlaneField.adopt_of_selected (hties.trans hbest), hkey] at ht
        rw [hq, ht, f.shown_report, f.retained_retain, g.value_note, g.value_put, ← helapsed, hvalue]
        exact ⟨rfl, rfl, hnext⟩
      · exact fun hgated => (hclock hgated).imp_right fun h => h (f.code v)

/-- The two successor blocks agree where a retained successor is confirmed or withdrawn. -/
theorem mirror_successor {votes : List (SuccessorKey × Entry)}
    {order order' : RangeOrder (Vote SuccessorKey)}
    (hvotes : domainSuccessorVotes snap id = votes)
    (hties : bestSuccessor (order'.visit (Tallies.ofVotes votes).entries) cfg.quorum =
      bestSuccessor (order.visit (Tallies.ofVotes votes).entries) cfg.quorum)
    (hwidth : p.out.shardBits = s.1.shardBits) (hfresh : p.out.successor = none)
    (hsucc : p.adopted.successor = s.1.successor)
    (htimers : Matches .successor (.domainSuccessor id) p.timers s.2)
    (hconfirmed : s.1.successor ≠ none → ∀ sv,
      bestSuccessor (order.visit (Tallies.ofVotes votes).entries) cfg.quorum = some sv →
        withinOneBit p.out.shardBits sv.shardBits = true ∧
          (hysteresisElapsed cfg p.timers ⟨.successor, successorHash sv⟩ now
            (exemplar (Tallies.ofVotes votes) sv)).1 = true)
    (hwithdrawn : s.1.successor ≠ none ∨ (∃ v, s.2 ⟨.domainSuccessor id, v⟩ ≠ none) →
      bestSuccessor (order.visit (Tallies.ofVotes votes).entries) cfg.quorum = none → votes = []) :
    (adoptSuccessor cfg (.ofVotes votes) order now p).out.successor =
        (adoptDomainSuccessor cfg snap order' now id s).1.successor ∧
      (adoptSuccessor cfg (.ofVotes votes) order now p).adopted.successor =
        (adoptDomainSuccessor cfg snap order' now id s).1.successor ∧
      Matches .successor (.domainSuccessor id)
        (adoptSuccessor cfg (.ofVotes votes) order now p).timers
        (adoptDomainSuccessor cfg snap order' now id s).2 := by
  have hunconfirmed : s.1.successor = none → p.out.successor = s.1.successor ∧
      p.adopted.successor = s.1.successor := fun hnone => ⟨hfresh.trans hnone.symm, hsucc⟩
  rw [adoptSuccessor, adoptDomainSuccessor, hvotes]
  dsimp only
  rw [hties]
  cases hbest : bestSuccessor (order.visit (Tallies.ofVotes votes).entries) cfg.quorum with
  | none =>
      dsimp only
      split
      · exact ⟨rfl, rfl, fun v => (if_pos rfl).trans (if_pos rfl).symm⟩
      · next hannounced =>
          -- votes without quorum: the plane had nothing to keep
          have hidle : ¬ (s.1.successor ≠ none ∨ ∃ v, s.2 ⟨.domainSuccessor id, v⟩ ≠ none) := by
            intro hbusy
            rw [hwithdrawn hbusy hbest] at hannounced
            exact hannounced rfl
          rw [not_or, not_not, not_exists] at hidle
          exact ⟨hidle.1.symm, hidle.1.symm, fun v =>
            (if_pos rfl).trans (not_not.mp (hidle.2 v)).symm⟩
  | some sv =>
      obtain ⟨helapsed, hnext⟩ :=
        @hysteresisElapsed_matches cfg now _ _ (exemplar (Tallies.ofVotes votes) sv) _ _ htimers
          (successorHash sv)
      dsimp only
      rw [← hwidth, ← helapsed, ← hsucc]
      split
      · split
        · exact ⟨rfl, rfl, hnext⟩
        · next hpending =>
            have hnone : s.1.successor = none := by
              by_contra hne
              exact hpending (hconfirmed hne sv hbest).2
            exact ⟨(hunconfirmed hnone).1, hsucc, hnext⟩
      · next hfar =>
          have hnone : s.1.successor = none := by
            by_contra hne
            exact hfar (hconfirmed hne sv hbest).1
          exact ⟨(hunconfirmed hnone).1, hsucc, htimers⟩

/-! ## The same votes -/

/-- The entry carries one descriptor of the plane, which repeats its top-level fields. -/
def Entry.Mirrors (en : Entry) (id : UInt8) : Prop :=
  ∃ d, en.domains.filter (fun d => d.domainID = id) = [d] ∧ d.shardBits = en.shardBits ∧
    hasFlag d.flags domainFlagSourceModeSSM = en.sourceModeSSM ∧ d.successor = en.successor

theorem descriptors_filterMap {β : Type} {f : DomainDescriptor × Entry → Option β}
    {g : Entry → Option β} (hid : id ≠ 0)
    (h : ∀ en ∈ authorities snap, ∃ d, en.domains.filter (fun d => d.domainID = id) = [d] ∧
      f (d, en) = g en) :
    (descriptors snap id).filterMap f = (authorities snap).filterMap g := by
  rw [descriptors, List.filterMap_flatMap, List.filterMap_eq_flatMap_toList]
  apply List.flatMap_congr
  intro en hen
  obtain ⟨d, hd, hf⟩ := h en hen
  rw [filter_domainID hid, hd, List.map_singleton, List.filterMap_cons, List.filterMap_nil, hf]
  cases g en <;> rfl

section Votes

variable (hid : id ≠ 0) (hsnap : ∀ en ∈ authorities snap, en.Mirrors id)

include hid hsnap

theorem domainShardBitsVotes_eq : domainShardBitsVotes snap id = shardBitsVotes snap := by
  rw [domainShardBitsVotes, shardBitsVotes, ← List.filterMap_eq_map, ← List.filterMap_eq_map]
  apply descriptors_filterMap hid
  intro en hen
  obtain ⟨d, hd, hbits, -⟩ := hsnap en hen
  exact ⟨d, hd, congrArg (fun bits => some (bits, en)) hbits⟩

theorem domainSourceModeVotes_eq : domainSourceModeVotes snap id = sourceModeVotes snap := by
  rw [domainSourceModeVotes, sourceModeVotes, ← List.filterMap_eq_map, ← List.filterMap_eq_map]
  apply descriptors_filterMap hid
  intro en hen
  obtain ⟨d, hd, -, hmode, -⟩ := hsnap en hen
  exact ⟨d, hd, congrArg (fun mode => some (mode, en)) hmode⟩

theorem domainSuccessorVotes_eq : domainSuccessorVotes snap id = successorVotes snap := by
  rw [domainSuccessorVotes, successorVotes]
  apply descriptors_filterMap hid
  intro en hen
  obtain ⟨d, hd, -, -, hsucc⟩ := hsnap en hen
  exact ⟨d, hd, congrArg (fun s => Option.map (fun s => (successorKey s, en)) s) hsucc⟩

theorem descriptors_eq_nil_iff : descriptors snap id = [] ↔ authorities snap = [] := by
  have hentries : (descriptors snap id).map Prod.snd = authorities snap := by
    rw [← List.filterMap_eq_map]
    refine (descriptors_filterMap hid ?_).trans List.filterMap_some
    intro en hen
    obtain ⟨d, hd, -⟩ := hsnap en hen
    exact ⟨d, hd, rfl⟩
  rw [← hentries, List.map_eq_nil_iff]

end Votes

/-! ## A call -/

/-- Ties are resolved for the plane as at the top level. -/
structure TiesMirrored (id : UInt8) (cfg : EvaluatorConfig) (c : Call) : Prop where
  shardBits : bestCandidate ((c.orders.domainShardBits id).visit
    (Tallies.ofVotes (shardBitsVotes c.snap)).entries) cfg.quorum =
      selectedShardBits cfg c.snap c.orders
  sourceMode : bestCandidateBool ((c.orders.domainSourceMode id).visit
    (Tallies.ofVotes (sourceModeVotes c.snap)).entries) cfg.quorum =
      selectedSourceMode cfg c.snap c.orders
  successor : bestSuccessor ((c.orders.domainSuccessor id).visit
    (Tallies.ofVotes (successorVotes c.snap)).entries) cfg.quorum =
      selectedSuccessor cfg c.snap c.orders

/-- The evaluator retains a successor of the plane. -/
def Evaluator.HoldsSuccessor (e : Evaluator) (id : UInt8) : Prop := (e.plane id).1.successor ≠ none

/-- A successor candidate of the plane is being timed. -/
def Evaluator.TimesSuccessor (e : Evaluator) (id : UInt8) : Prop :=
  ∃ v, e.timers ⟨.domainSuccessor id, v⟩ ≠ none

/-- A retained successor is confirmed by the call or withdrawn by all announcers, a timed one keeps
its quorum or is withdrawn, and no negative window meets a timer that lies in the future. -/
structure Aligned (id : UInt8) (e : Evaluator) (c : Call) : Prop where
  confirmed : e.HoldsSuccessor id → ∀ sv, selectedSuccessor e.cfg c.snap c.orders = some sv →
    withinOneBit (e.widthInForce c.snap c.now c.orders) sv.shardBits = true ∧
      (hysteresisElapsed e.cfg e.timers ⟨.successor, successorHash sv⟩ c.now
        (exemplar (.ofVotes (successorVotes c.snap)) sv)).1 = true
  withdrawn : e.HoldsSuccessor id ∨ e.TimesSuccessor id →
    selectedSuccessor e.cfg c.snap c.orders = none →
      authorities c.snap ≠ [] ∧ successorVotes c.snap = []
  clock : 0 ≤ e.cfg.hysteresis ∨
    ∀ v first, e.timers ⟨.shardBits, v⟩ = some first → first ≤ c.now

/-- What is retained and timed for the plane is what is retained and timed at the top level. -/
structure Follows (id : UInt8) (adopted : Retained) (timers : Timers) (s : Plane) : Prop where
  bits : adopted.shardBits = s.1.shardBits
  mode : adopted.sourceModeSSM = s.1.sourceModeSSM
  successor : adopted.successor = s.1.successor
  bitsTimers : Matches .shardBits (.domainShardBits id) timers s.2
  modeTimers : Matches .sourceMode (.domainSourceMode id) timers s.2
  successorTimers : Matches .successor (.domainSuccessor id) timers s.2

theorem Matches.of_eq {field field' : Field} {timers timers' after after' : Timers}
    (h : Matches field field' timers timers') (hafter : ∀ v, after ⟨field, v⟩ = timers ⟨field, v⟩)
    (hafter' : ∀ v, after' ⟨field', v⟩ = timers' ⟨field', v⟩) : Matches field field' after after' :=
  fun v => (hafter v).trans ((h v).trans (hafter' v).symm)

theorem Follows.adoptShardBits {votes : List (UInt8 × Entry)}
    {order order' : RangeOrder (Vote UInt8)} (h : Follows id p.adopted p.timers s)
    (hpin : cfg.pin.shardBits = none) (hvotes : domainShardBitsVotes snap id = votes)
    (hties : bestCandidate (order'.visit (Tallies.ofVotes votes).entries) cfg.quorum =
      bestCandidate (order.visit (Tallies.ofVotes votes).entries) cfg.quorum)
    (hclock : 0 ≤ cfg.hysteresis ∨
      ∀ v first, p.timers ⟨.shardBits, v⟩ = some first → first ≤ now) :
    let q := Manifest.adoptShardBits cfg (.ofVotes votes) order now p
    let t := adoptDomainShardBits cfg snap order' now id s
    q.out.shardBits = t.1.shardBits ∧ Follows id q.adopted q.timers t := by
  intro q t
  obtain ⟨hout, hbits, htimers⟩ := mirror_field .shardBits (.shardBits id) rfl hpin hvotes hties
    (fun _ => hclock) h.bits h.bitsTimers (adoptShardBits_eq ..) (adoptDomainShardBits_eq ..)
  have hadopted : q.adopted = { p.adopted with shardBits := q.adopted.shardBits } :=
    adoptShardBits_adopted
  have hothers : t.1.sourceModeSSM = s.1.sourceModeSSM ∧ t.1.successor = s.1.successor :=
    adoptDomainShardBits_others
  refine ⟨hout, hbits, ?_, ?_, htimers, ?_, ?_⟩
  · rw [hadopted, hothers.1]
    exact h.mode
  · rw [hadopted, hothers.2]
    exact h.successor
  · exact h.modeTimers.of_eq (fun _ => adoptShardBits_timers (by nofun))
      (fun _ => adoptDomainShardBits_timers (by nofun))
  · exact h.successorTimers.of_eq (fun _ => adoptShardBits_timers (by nofun))
      (fun _ => adoptDomainShardBits_timers (by nofun))

theorem Follows.adoptSourceMode {votes : List (Bool × Entry)}
    {order order' : RangeOrder (Vote Bool)} (h : Follows id p.adopted p.timers s)
    (hpin : cfg.pin.sourceModeSSM = none) (hvotes : domainSourceModeVotes snap id = votes)
    (hties : bestCandidateBool (order'.visit (Tallies.ofVotes votes).entries) cfg.quorum =
      bestCandidateBool (order.visit (Tallies.ofVotes votes).entries) cfg.quorum) :
    let q := Manifest.adoptSourceMode cfg (.ofVotes votes) order now p
    let t := adoptDomainSourceMode cfg snap order' now id s
    q.out.sourceModeSSM = t.1.sourceModeSSM ∧ Follows id q.adopted q.timers t := by
  intro q t
  obtain ⟨hout, hmode, htimers⟩ := mirror_field .sourceMode (.sourceMode id) rfl hpin hvotes hties
    (by nofun) h.mode h.modeTimers (adoptSourceMode_eq ..) (adoptDomainSourceMode_eq ..)
  have hothers : t.1.shardBits = s.1.shardBits ∧ t.1.successor = s.1.successor :=
    adoptDomainSourceMode_others
  refine ⟨hout, ?_, hmode, ?_, ?_, htimers, ?_⟩
  · rw [adoptSourceMode_shardBits.2, hothers.1]
    exact h.bits
  · rw [adoptSourceMode_adopted, hothers.2]
    exact h.successor
  · exact h.bitsTimers.of_eq (fun _ => adoptSourceMode_timers (by nofun))
      (fun _ => adoptDomainSourceMode_timers (by nofun))
  · exact h.successorTimers.of_eq (fun _ => adoptSourceMode_timers (by nofun))
      (fun _ => adoptDomainSourceMode_timers (by nofun))

theorem Follows.adoptSuccessor {votes : List (SuccessorKey × Entry)}
    {order order' : RangeOrder (Vote SuccessorKey)} (h : Follows id p.adopted p.timers s)
    (hvotes : domainSuccessorVotes snap id = votes)
    (hties : bestSuccessor (order'.visit (Tallies.ofVotes votes).entries) cfg.quorum =
      bestSuccessor (order.visit (Tallies.ofVotes votes).entries) cfg.quorum)
    (hwidth : p.out.shardBits = s.1.shardBits) (hfresh : p.out.successor = none)
    (hconfirmed : s.1.successor ≠ none → ∀ sv,
      bestSuccessor (order.visit (Tallies.ofVotes votes).entries) cfg.quorum = some sv →
        withinOneBit p.out.shardBits sv.shardBits = true ∧
          (hysteresisElapsed cfg p.timers ⟨.successor, successorHash sv⟩ now
            (exemplar (Tallies.ofVotes votes) sv)).1 = true)
    (hwithdrawn : s.1.successor ≠ none ∨ (∃ v, s.2 ⟨.domainSuccessor id, v⟩ ≠ none) →
      bestSuccessor (order.visit (Tallies.ofVotes votes).entries) cfg.quorum = none → votes = []) :
    let q := Manifest.adoptSuccessor cfg (.ofVotes votes) order now p
    let t := adoptDomainSuccessor cfg snap order' now id s
    q.out.successor = t.1.successor ∧ Follows id q.adopted q.timers t := by
  intro q t
  obtain ⟨hout, hsucc, htimers⟩ := mirror_successor hvotes hties hwidth hfresh h.successor
    h.successorTimers hconfirmed hwithdrawn
  have hothers : t.1.shardBits = s.1.shardBits ∧ t.1.sourceModeSSM = s.1.sourceModeSSM :=
    adoptDomainSuccessor_others
  refine ⟨hout, ?_, ?_, hsucc, ?_, ?_, htimers⟩
  · rw [adoptSuccessor_shardBits.2, hothers.1]
    exact h.bits
  · rw [adoptSuccessor_sourceModeSSM.2, hothers.2]
    exact h.mode
  · exact h.bitsTimers.of_eq (fun _ => adoptSuccessor_timers (by nofun))
      (fun _ => adoptDomainSuccessor_timers (by nofun))
  · exact h.modeTimers.of_eq (fun _ => adoptSuccessor_timers (by nofun))
      (fun _ => adoptDomainSuccessor_timers (by nofun))

/-- The pass shows at the top level what the plane has come to. -/
structure Shows (out : Adopted) (s : DomainAdoption) : Prop where
  bits : out.shardBits = s.shardBits
  mode : out.sourceModeSSM = s.sourceModeSSM
  successor : out.successor = s.successor

section Call

variable {c : Call} (hpins : NoPins e.cfg) (hid : id ≠ 0)
  (hsnap : ∀ en ∈ authorities c.snap, en.Mirrors id) (hties : TiesMirrored id e.cfg c)
  (haligned : Aligned id e c) (h : Follows id e.adopted e.timers (e.plane id))

include hpins hid hsnap hties haligned h

theorem follows_of_announced (hne : authorities c.snap ≠ []) :
    let p := e.topPass c.snap c.now c.orders
    let s := evaluateDomain e.cfg c.snap c.orders c.now id (e.plane id)
    Shows p.out s.1 ∧ Follows id p.adopted p.timers s := by
  intro p s
  have hannounced : descriptors c.snap id ≠ [] := fun hnil =>
    hne ((descriptors_eq_nil_iff hid hsnap).mp hnil)
  let bitsPass := adoptShardBits e.cfg (.ofVotes (shardBitsVotes c.snap)) c.orders.shardBits c.now
    ⟨freshView c.snap, e.timers, e.adopted⟩
  let modePass := e.beforeSuccessor c.snap c.now c.orders
  let bitsPlane := adoptDomainShardBits e.cfg c.snap (c.orders.domainShardBits id) c.now id
    (e.plane id)
  let modePlane := planeBeforeSuccessor e.cfg c.snap c.orders c.now id (e.plane id)
  obtain ⟨hbits, hbitsFollows⟩ : bitsPass.out.shardBits = bitsPlane.1.shardBits ∧
      Follows id bitsPass.adopted bitsPass.timers bitsPlane :=
    h.adoptShardBits (by rw [hpins]) (domainShardBitsVotes_eq hid hsnap) hties.shardBits haligned.clock
  obtain ⟨hmode, hmodeFollows⟩ : modePass.out.sourceModeSSM = modePlane.1.sourceModeSSM ∧
      Follows id modePass.adopted modePass.timers modePlane :=
    hbitsFollows.adoptSourceMode (by rw [hpins]) (domainSourceModeVotes_eq hid hsnap) hties.sourceMode
  have hplane : s = adoptDomainSuccessor e.cfg c.snap (c.orders.domainSuccessor id) c.now id modePlane :=
    evaluateDomain_of_unpinned (by rw [hpins]) hannounced
  have hwidth : modePass.out.shardBits = e.widthInForce c.snap c.now c.orders := by
    rw [← topPass_shardBits]
    exact adoptSuccessor_shardBits.1.symm
  have hmodeBits : modePass.out.shardBits = modePlane.1.shardBits := by
    rw [show modePass.out.shardBits = _ from adoptSourceMode_shardBits.1,
      show modePlane.1.shardBits = _ from adoptDomainSourceMode_others.1]
    exact hbits
  have hheld : modePlane.1.successor = (e.plane id).1.successor := planeBeforeSuccessor_successor
  have htimed : ∀ v, modePlane.2 ⟨.domainSuccessor id, v⟩ = e.timers ⟨.domainSuccessor id, v⟩ :=
    planeBeforeSuccessor_timers
  have hconfirmed : modePlane.1.successor ≠ none → ∀ sv,
      selectedSuccessor e.cfg c.snap c.orders = some sv →
        withinOneBit modePass.out.shardBits sv.shardBits = true ∧
          (hysteresisElapsed e.cfg modePass.timers ⟨.successor, successorHash sv⟩ c.now
            (exemplar (Tallies.ofVotes (successorVotes c.snap)) sv)).1 = true := by
    intro hholds sv hsv
    rw [hheld] at hholds
    rw [hwidth, hysteresisElapsed_congr (beforeSuccessor_timers _)]
    exact haligned.confirmed hholds sv hsv
  have hwithdrawn : modePlane.1.successor ≠ none ∨
      (∃ v, modePlane.2 ⟨.domainSuccessor id, v⟩ ≠ none) →
        selectedSuccessor e.cfg c.snap c.orders = none → successorVotes c.snap = [] := by
    intro hbusy hnone
    simp only [hheld, htimed] at hbusy
    exact (haligned.withdrawn hbusy hnone).2
  obtain ⟨hsucc, hfollows⟩ := hmodeFollows.adoptSuccessor (domainSuccessorVotes_eq hid hsnap)
    hties.successor hmodeBits beforeSuccessor_out_successor hconfirmed hwithdrawn
  rw [hplane]
  refine ⟨⟨?_, ?_, hsucc⟩, hfollows⟩
  · rw [adoptDomainSuccessor_others.1, ← hmodeBits]
    exact adoptSuccessor_shardBits.1
  · rw [adoptDomainSuccessor_others.2, ← hmode]
    exact adoptSuccessor_sourceModeSSM.1

omit hties in
/-- Without authorities the top level forgets its successor and the plane retains everything. -/
theorem follows_of_silent (hnil : authorities c.snap = []) :
    let p := e.topPass c.snap c.now c.orders
    let s := evaluateDomain e.cfg c.snap c.orders c.now id (e.plane id)
    Shows p.out s.1 ∧ Follows id p.adopted p.timers s := by
  intro p s
  have hbits : selectedShardBits e.cfg c.snap c.orders = none := by
    rw [selectedShardBits, shardBitsVotes, hnil]
    exact Tallies.best_no_votes e.quorum_pos _
  have hmode : selectedSourceMode e.cfg c.snap c.orders = none := by
    rw [selectedSourceMode, sourceModeVotes, hnil]
    exact Tallies.best_no_votes e.quorum_pos _
  have hsucc : selectedSuccessor e.cfg c.snap c.orders = none := by
    rw [selectedSuccessor, successorVotes, hnil]
    exact Tallies.best_no_votes e.quorum_pos _
  have hidle : ¬ (e.HoldsSuccessor id ∨ e.TimesSuccessor id) := fun hbusy =>
    (haligned.withdrawn hbusy hsucc).1 hnil
  rw [not_or, Evaluator.HoldsSuccessor, not_not, Evaluator.TimesSuccessor, not_exists] at hidle
  have hplane : s = ({ (e.plane id).1 with quorumMet := false, divergent := false }, e.timers) := by
    have hpin : e.cfg.pin.domainShardBits id = none := by rw [hpins]
    have hdescriptors := (descriptors_eq_nil_iff hid hsnap).mpr hnil
    rw [show s = evaluateDomain e.cfg c.snap c.orders c.now id (e.plane id) from rfl,
      evaluateDomain, hpin, hdescriptors]
    rfl
  obtain ⟨hout, hadopted, htimers⟩ : (p.out.shardBits = e.adopted.shardBits ∧
      p.out.sourceModeSSM = e.adopted.sourceModeSSM ∧ p.out.successor = none) ∧
      p.adopted = { e.adopted with successor := none } ∧
      p.timers = resetField e.timers .successor := by
    have hpin : e.cfg.pin.shardBits = none := by rw [hpins]
    have hpinMode : e.cfg.pin.sourceModeSSM = none := by rw [hpins]
    rw [selectedShardBits] at hbits
    rw [selectedSourceMode] at hmode
    rw [selectedSuccessor] at hsucc
    simp only [p, Evaluator.topPass, adoptSuccessor, hsucc, adoptSourceMode, hpinMode, hmode,
      adoptShardBits, hpin, hbits]
    exact ⟨⟨rfl, rfl, trivial⟩, trivial, trivial⟩
  rw [hplane, hadopted, htimers]
  refine ⟨⟨hout.1.trans h.bits, hout.2.1.trans h.mode, hout.2.2.trans hidle.1.symm⟩, h.bits, h.mode,
    hidle.1.symm, ?_, ?_, ?_⟩
  · exact h.bitsTimers.of_eq (fun _ => resetField_of_ne (by rintro ⟨⟩)) (fun _ => rfl)
  · exact h.modeTimers.of_eq (fun _ => resetField_of_ne (by rintro ⟨⟩)) (fun _ => rfl)
  · intro v
    exact (if_pos rfl).trans (not_not.mp (hidle.2 v)).symm

/-- One call shows the plane as the top level, and retains it so. -/
theorem follows_evaluate :
    let r := e.evaluate c.snap c.now c.orders
    Shows r.1 ((r.1.domains id).getD default) ∧
      Follows id r.2.adopted r.2.timers (r.2.plane id) := by
  intro r
  let p := e.topPass c.snap c.now c.orders
  let s := evaluateDomain e.cfg c.snap c.orders c.now id (e.plane id)
  obtain ⟨hshows, hfollows⟩ : Shows p.out s.1 ∧ Follows id p.adopted p.timers s := by
    by_cases hnil : authorities c.snap = []
    · exact follows_of_silent hpins hid hsnap haligned h hnil
    · exact follows_of_announced hpins hid hsnap hties haligned h hnil
  have hsame : SameTop p (e.pass c.snap c.now c.orders) := sameTop_pass
  have hview : (r.1.domains id).getD default = s.1 := evaluate_plane (.inl hid)
  have hplane : (r.2.plane id).1 = s.1 := by
    rw [← hview, ← evaluate_retained]
    rfl
  have htimers : AgreeOn id r.2.timers s.2 := evaluate_planeTimers (.inl hid)
  constructor
  · rw [hview]
    exact ⟨hsame.shardBits.trans hshows.bits, hsame.sourceModeSSM.trans hshows.mode,
      hsame.successor.trans hshows.successor⟩
  · refine ⟨?_, ?_, ?_, ?_, ?_, ?_⟩
    · rw [hplane]
      exact hsame.adoptedShardBits.trans hfollows.bits
    · rw [hplane]
      exact hsame.adoptedSourceModeSSM.trans hfollows.mode
    · rw [hplane]
      exact hsame.adoptedSuccessor.trans hfollows.successor
    · exact hfollows.bitsTimers.of_eq (fun _ => hsame.timers _ rfl) (fun _ => htimers _ rfl)
    · exact hfollows.modeTimers.of_eq (fun _ => hsame.timers _ rfl) (fun _ => htimers _ rfl)
    · exact hfollows.successorTimers.of_eq (fun _ => hsame.timers _ rfl) (fun _ => htimers _ rfl)

end Call

/-! ## Runs -/

/-- In a run whose calls are all aligned, every view shows the plane as the top level. -/
theorem plane_mirrors_top_level (hpins : NoPins cfg) (hid : id ≠ 0) (calls : List Call)
    (hsnaps : ∀ c ∈ calls, ∀ en ∈ authorities c.snap, en.Mirrors id)
    (hties : ∀ c ∈ calls, TiesMirrored id (newEvaluator cfg).cfg c)
    (haligned : ∀ t ∈ (newEvaluator cfg).turns calls, Aligned id t.before t.call) :
    ∀ t ∈ (newEvaluator cfg).turns calls, Shows t.view ((t.view.domains id).getD default) := by
  have hunpinned := hpins.newEvaluator
  have hstart : Follows id (newEvaluator cfg).adopted (newEvaluator cfg).timers
      ((newEvaluator cfg).plane id) := ⟨rfl, rfl, rfl, fun _ => rfl, fun _ => rfl, fun _ => rfl⟩
  have hbefore : ∀ t ∈ (newEvaluator cfg).turns calls, t.before.cfg = (newEvaluator cfg).cfg ∧
      Follows id t.before.adopted t.before.timers (t.before.plane id) := by
    refine forall_turns
      (fun e => e.cfg = (newEvaluator cfg).cfg ∧ Follows id e.adopted e.timers (e.plane id))
      (fun e c => c ∈ calls ∧ Aligned id e c) ?_ ?_ ?_
    · rintro e c ⟨hcfg, hfollows⟩ ⟨hc, hcall⟩
      refine ⟨hcfg, (follows_evaluate ?_ hid (hsnaps c hc) ?_ hcall hfollows).2⟩
      · rwa [hcfg]
      · rw [hcfg]
        exact hties c hc
    · exact ⟨rfl, hstart⟩
    · exact fun t ht => ⟨(view_of_mem_turns ht).1, haligned t ht⟩
  intro t ht
  obtain ⟨hc, hview⟩ := view_of_mem_turns ht
  obtain ⟨hcfg, hfollows⟩ := hbefore t ht
  rw [hview]
  refine (follows_evaluate ?_ hid (hsnaps _ hc) ?_ (haligned t ht) hfollows).1
  · rwa [hcfg]
  · rw [hcfg]
    exact hties _ hc

/-- An authority of width 4 that announces a successor, and repeats itself for plane 1. -/
def repeating : Entry :=
  let successor : SuccessorBlock := ⟨.copy 16 [7], 5, 0, 100⟩
  ⟨flagAuthoritative, 4, 0, [], [], some successor, [⟨1, 4, 1, 0, 0, .copy 16 [], some successor⟩]⟩

theorem repeating_mirrors : ∀ en ∈ authorities [repeating], en.Mirrors 1 := by
  intro en hen
  obtain rfl : en = repeating := List.mem_singleton.mp (List.mem_filter.mp hen).1
  exact ⟨_, rfl, rfl, by decide, rfl⟩

theorem tiesMirrored_storedOrders (snap : List Entry) (now : Int) :
    TiesMirrored id cfg ⟨snap, now, storedOrders⟩ := ⟨rfl, rfl, rfl⟩

theorem repeating_shown :
    let turns := (newEvaluator (unpinned 1 0)).turns
      [⟨[repeating], 0, storedOrders⟩, ⟨[repeating], 1, storedOrders⟩]
    turns.length = 2 ∧ ∀ t ∈ turns, Shows t.view ((t.view.domains 1).getD default) := by
  intro turns
  have hselected : selectedSuccessor (unpinned 1 0) [repeating] storedOrders =
      some ⟨.copy 16 [7], 5, 100, false⟩ := by decide
  have hpins : NoPins (unpinned 1 0) := rfl
  refine ⟨rfl, plane_mirrors_top_level hpins (by decide) _ ?_ ?_ ?_⟩
  · simp only [List.forall_mem_cons]
    exact ⟨repeating_mirrors, repeating_mirrors, by simp⟩
  · simp only [List.forall_mem_cons]
    exact ⟨tiesMirrored_storedOrders _ _, tiesMirrored_storedOrders _ _, by simp⟩
  · rw [turns_cons, turns_cons, List.forall_mem_cons, List.forall_mem_cons]
    refine ⟨⟨fun hholds => absurd rfl hholds, fun _ hnone => ?_, .inl (by decide)⟩,
      ⟨fun _ sv hsv => ?_, fun _ hnone => ?_, .inl (by decide)⟩, List.forall_mem_nil _⟩
    · exact absurd (hselected.symm.trans hnone) (by nofun)
    · obtain rfl := Option.some.inj (hselected.symm.trans hsv)
      exact ⟨by decide +kernel, by decide +kernel⟩
    · exact absurd (hselected.symm.trans hnone) (by nofun)

/-- After a call that adopts a successor, an empty snapshot clears it at the top level only. -/
theorem emptied_snapshot_parts :
    let calls : List Call := [⟨[repeating], 0, storedOrders⟩, ⟨[], 1, storedOrders⟩]
    (∀ c ∈ calls, ∀ en ∈ authorities c.snap, en.Mirrors 1) ∧
      (∀ c ∈ calls, TiesMirrored 1 (unpinned 1 0) c) ∧
      ¬ ∀ t ∈ (newEvaluator (unpinned 1 0)).turns calls,
        Shows t.view ((t.view.domains 1).getD default) := by
  intro calls
  refine ⟨?_, ?_, fun h => ?_⟩
  · simp only [calls, List.forall_mem_cons]
    exact ⟨repeating_mirrors, by nofun, by simp⟩
  · simp only [calls, List.forall_mem_cons]
    exact ⟨tiesMirrored_storedOrders _ _, tiesMirrored_storedOrders _ _, by simp⟩
  · rw [turns_cons, turns_cons, List.forall_mem_cons, List.forall_mem_cons] at h
    exact absurd h.2.1.successor (by decide +kernel)

end ShardCommon.Manifest
