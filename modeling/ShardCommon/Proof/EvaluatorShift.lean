import ShardCommon.Proof.EvaluatorCalls
import ShardCommon.Proof.EvaluatorSuccessor
import ShardCommon.Proof.Registry

/-!
# The one-bit bound of a successor

A successor is compared with the width when it is a candidate. It is retained after that, while the
width can move, and a tuple that comes back with the generation of the retained one brings back the
retained one. Every returned successor is within one bit of its width in runs where no width is
adopted away from a successor that stays.
-/

namespace ShardCommon.Manifest

open ShardCommon.Frame

variable {cfg : EvaluatorConfig} {e : Evaluator} {snap : List Entry} {orders : Orders} {now : Int}
  {p : Pass} {s : Plane} {id : UInt8} {c : Call}

theorem withinOneBit_iff {a b : UInt8} :
    withinOneBit a b = true ↔ b.toNat ≤ a.toNat + 1 ∧ a.toNat ≤ b.toNat + 1 := by
  rw [withinOneBit]
  split
  · next h =>
      have hlt : b.toNat < a.toNat := UInt8.lt_iff_toNat_lt.mp h
      rw [decide_eq_true_iff, UInt8.le_iff_toNat_le, UInt8.toNat_sub_of_le _ _ (UInt8.le_of_lt h)]
      rw [UInt8.toNat_one]
      omega
  · next h =>
      have hle : a.toNat ≤ b.toNat := UInt8.le_iff_toNat_le.mp (UInt8.not_lt.mp h)
      rw [decide_eq_true_iff, UInt8.le_iff_toNat_le, UInt8.toNat_sub_of_le _ _ (UInt8.not_lt.mp h)]
      rw [UInt8.toNat_one]
      omega

/-- A successor, where there is one, is at most one bit from the width. -/
def OneBitApart (bits : UInt8) (successor : Option SuccessorView) : Prop :=
  ∀ view, successor = some view →
    view.shardBits.toNat ≤ bits.toNat + 1 ∧ bits.toNat ≤ view.shardBits.toNat + 1

instance (bits : UInt8) : (successor : Option SuccessorView) → Decidable (OneBitApart bits successor)
  | none => isTrue (by nofun)
  | some view => decidable_of_iff (withinOneBit bits view.shardBits = true)
      (by simp [OneBitApart, withinOneBit_iff])

/-- The bound at the top level and for every plane. -/
def ShiftBounded (view : Adopted) : Prop :=
  OneBitApart view.shardBits view.successor ∧
    ∀ id da, view.domains id = some da → OneBitApart da.shardBits da.successor

/-! ## The condition -/

def selectedPlaneBits (cfg : EvaluatorConfig) (c : Call) (id : UInt8) : Option UInt8 :=
  bestCandidate ((c.orders.domainShardBits id).visit
    (Tallies.ofVotes (domainShardBitsVotes c.snap id)).entries) cfg.quorum

def selectedPlaneSuccessor (cfg : EvaluatorConfig) (c : Call) (id : UInt8) : Option SuccessorKey :=
  bestSuccessor ((c.orders.domainSuccessor id).visit
    (Tallies.ofVotes (domainSuccessorVotes c.snap id)).entries) cfg.quorum

/-- The window of a successor tuple of the plane has run out. -/
def SuccessorElapsed (cfg : EvaluatorConfig) (timers : Timers) (c : Call) (id : UInt8)
    (sv : SuccessorKey) : Prop :=
  (hysteresisElapsed cfg timers ⟨.domainSuccessor id, successorHash sv⟩ c.now
    (exemplar (.ofVotes (domainSuccessorVotes c.snap id)) sv)).1 = true

/-- A call at this width takes the retained successor from the plane: nobody announces one any more,
or one of another generation is adopted. -/
def Drops (cfg : EvaluatorConfig) (timers : Timers) (c : Call) (id width : UInt8)
    (view : SuccessorView) : Prop :=
  domainSuccessorVotes c.snap id = [] ∨
    ∃ sv, selectedPlaneSuccessor cfg c id = some sv ∧ sv.gen ≠ view.generationID ∧
      withinOneBit width sv.shardBits = true ∧ SuccessorElapsed cfg timers c id sv

/-- At the top level a generation keeps the width it was retained with, and a plane adopts no width
away from a successor that stays. -/
structure KeepsShift (e : Evaluator) (c : Call) : Prop where
  generation : ∀ view sv, e.adopted.successor = some view →
    selectedSuccessor e.cfg c.snap c.orders = some sv → sv.gen = view.generationID →
      sv.shardBits = view.shardBits
  plane : ∀ id view v, (e.plane id).1.successor = some view →
    selectedPlaneBits e.cfg c id = some v →
    (hysteresisElapsed e.cfg e.timers ⟨.domainShardBits id, v.toUInt64⟩ c.now
      (exemplar (.ofVotes (domainShardBitsVotes c.snap id)) v)).1 = true →
      withinOneBit v view.shardBits = true ∨ Drops e.cfg e.timers c id v view

/-! ## One call -/

theorem oneBitApart_top (h : KeepsShift e c) :
    OneBitApart (e.evaluate c.snap c.now c.orders).1.shardBits
      (e.evaluate c.snap c.now c.orders).1.successor := by
  intro view hview
  obtain ⟨sv, hsv, hwithin, hkey | ⟨hretained, hgen⟩⟩ := evaluate_successor hview
  · subst hkey
    exact withinOneBit_iff.mp hwithin
  · rw [h.generation view sv hretained hsv hgen] at hwithin
    exact withinOneBit_iff.mp hwithin

/-- A successor that a plane has after a call is within one bit of the width, or it was there and the
call does not drop it. -/
theorem adoptDomainSuccessor_cases (hquorum : 0 < cfg.quorum) {view : SuccessorView}
    (h : (adoptDomainSuccessor cfg c.snap (c.orders.domainSuccessor id) c.now id s).1.successor =
      some view) :
    withinOneBit s.1.shardBits view.shardBits = true ∨
      s.1.successor = some view ∧ ¬ Drops cfg s.2 c id s.1.shardBits view := by
  have hsilent : domainSuccessorVotes c.snap id = [] → selectedPlaneSuccessor cfg c id = none := by
    intro hnil
    rw [selectedPlaneSuccessor, hnil]
    exact Tallies.best_no_votes hquorum _
  rw [adoptDomainSuccessor] at h
  dsimp only at h
  cases hbest : selectedPlaneSuccessor cfg c id with
  | none =>
      rw [selectedPlaneSuccessor] at hbest
      rw [hbest] at h
      dsimp only at h
      split at h
      · cases h
      · next hvotes =>
          refine .inr ⟨h, ?_⟩
          rintro (hnil | ⟨sv, hsv, -⟩)
          · rw [hnil] at hvotes
            exact hvotes rfl
          · rw [selectedPlaneSuccessor, hbest] at hsv
            cases hsv
  | some sv =>
      have hstays (hkept : sv.gen ≠ view.generationID →
          withinOneBit s.1.shardBits sv.shardBits = true → ¬ SuccessorElapsed cfg s.2 c id sv) :
          ¬ Drops cfg s.2 c id s.1.shardBits view := by
        rintro (hnil | ⟨sv', hsv', hgen, hwithin, helapsed⟩)
        · rw [hsilent hnil] at hbest
          cases hbest
        · obtain rfl := Option.some.inj (hbest.symm.trans hsv')
          exact hkept hgen hwithin helapsed
      have hselected := hbest
      rw [selectedPlaneSuccessor] at hselected
      rw [hselected] at h
      dsimp only at h
      split at h
      · next hwithin =>
          split at h
          · obtain rfl := Option.some.inj h
            rcases replaceSuccessor_cases s.1.successor sv c.now with hkey | ⟨hretained, hgen⟩
            · rw [← hkey] at hwithin
              exact .inl hwithin
            · exact .inr ⟨hretained, hstays fun hne => absurd hgen hne⟩
          · next hpending => exact .inr ⟨h, hstays fun _ _ => hpending⟩
      · next houtside => exact .inr ⟨h, hstays fun _ hwithin => absurd hwithin houtside⟩

theorem Drops.of_timers {timers timers' : Timers} {width : UInt8} {view : SuccessorView}
    (h : Drops cfg timers c id width view)
    (heq : ∀ v, timers ⟨.domainSuccessor id, v⟩ = timers' ⟨.domainSuccessor id, v⟩) :
    Drops cfg timers' c id width view := by
  refine h.imp_right ?_
  rintro ⟨sv, hsv, hgen, hwithin, helapsed⟩
  refine ⟨sv, hsv, hgen, hwithin, ?_⟩
  rw [SuccessorElapsed, ← hysteresisElapsed_congr (heq _)]
  exact helapsed

/-- What a run keeps of every plane: the bound, no successor under a pin, and nothing of plane 0. -/
structure PlanesBounded (e : Evaluator) : Prop where
  apart : ∀ id, OneBitApart (e.plane id).1.shardBits (e.plane id).1.successor
  pinned : ∀ id, e.cfg.pin.domainShardBits id ≠ none → (e.plane id).1.successor = none
  zero : e.adopted.domains 0 = none

theorem oneBitApart_plane (h : KeepsShift e c) (hbounded : PlanesBounded e) (id : UInt8) :
    let s := evaluateDomain e.cfg c.snap c.orders c.now id (e.plane id)
    OneBitApart s.1.shardBits s.1.successor ∧
      (e.cfg.pin.domainShardBits id ≠ none → s.1.successor = none) := by
  intro s
  have heq : s = evaluateDomain e.cfg c.snap c.orders c.now id (e.plane id) := rfl
  cases hpin : e.cfg.pin.domainShardBits id with
  | some pin =>
      have hnone : s.1.successor = none := by
        rw [heq, evaluateDomain, hpin]
        exact hbounded.pinned id (by rw [hpin]; rintro ⟨⟩)
      refine ⟨?_, fun _ => hnone⟩
      intro view hview
      rw [hnone] at hview
      cases hview
  | none =>
      refine ⟨?_, fun hne => absurd rfl hne⟩
      by_cases hnil : descriptors c.snap id = []
      · rw [heq, evaluateDomain, hpin, hnil]
        exact hbounded.apart id
      let bitsPlane := adoptDomainShardBits e.cfg c.snap (c.orders.domainShardBits id) c.now id
        (e.plane id)
      let modePlane := planeBeforeSuccessor e.cfg c.snap c.orders c.now id (e.plane id)
      have hwidth : modePlane.1.shardBits = bitsPlane.1.shardBits := adoptDomainSourceMode_others.1
      have htimers : ∀ v, modePlane.2 ⟨.domainSuccessor id, v⟩ =
          e.timers ⟨.domainSuccessor id, v⟩ := planeBeforeSuccessor_timers
      rw [heq, evaluateDomain_of_unpinned hpin hnil, adoptDomainSuccessor_others.1]
      intro view hview
      rcases adoptDomainSuccessor_cases e.quorum_pos hview with hwithin | ⟨hheld, hstays⟩
      · exact withinOneBit_iff.mp hwithin
      have hheld : (e.plane id).1.successor = some view :=
        planeBeforeSuccessor_successor.symm.trans hheld
      change view.shardBits.toNat ≤ modePlane.1.shardBits.toNat + 1 ∧
        modePlane.1.shardBits.toNat ≤ view.shardBits.toNat + 1
      -- a successor that stays is compared with the width that the call has just adopted
      rcases adoptDomainShardBits_cases with hkept | ⟨hbest, helapsed⟩
      · rw [hwidth, hkept]
        exact hbounded.apart id view hheld
      · rw [hwidth]
        rcases h.plane id view _ hheld hbest helapsed with hwithin | hdrops
        · exact withinOneBit_iff.mp hwithin
        · refine absurd (hdrops.of_timers fun v => (htimers v).symm) ?_
          rw [← hwidth]
          exact hstays

theorem evaluate_zero (h : e.adopted.domains 0 = none) :
    (e.evaluate snap now orders).1.domains 0 = none := by
  have hnot : (0 : UInt8) ∉ domainIDs e.cfg snap e.adopted := by
    simp [mem_domainIDs_iff, descriptors_zero, h]
  rw [evaluate_domains, if_neg hnot]

theorem planesBounded_evaluate (h : KeepsShift e c) (hbounded : PlanesBounded e) :
    PlanesBounded (e.evaluate c.snap c.now c.orders).2 := by
  have hretained : ∀ id, ((e.evaluate c.snap c.now c.orders).2.plane id).1 =
      ((e.evaluate c.snap c.now c.orders).1.domains id).getD default := by
    intro id
    rw [← evaluate_retained]
    rfl
  have hplane : ∀ id, OneBitApart ((e.evaluate c.snap c.now c.orders).2.plane id).1.shardBits
      ((e.evaluate c.snap c.now c.orders).2.plane id).1.successor ∧
      (e.cfg.pin.domainShardBits id ≠ none →
        ((e.evaluate c.snap c.now c.orders).2.plane id).1.successor = none) := by
    intro id
    rw [hretained]
    by_cases hid : id = 0
    · subst hid
      rw [evaluate_zero hbounded.zero]
      exact ⟨by nofun, fun _ => rfl⟩
    · rw [evaluate_plane (.inl hid)]
      exact oneBitApart_plane h hbounded id
  refine ⟨fun id => (hplane id).1, fun id => (hplane id).2, ?_⟩
  rw [evaluate_retained]
  exact evaluate_zero hbounded.zero

theorem shiftBounded_evaluate (h : KeepsShift e c) (hbounded : PlanesBounded e) :
    ShiftBounded (e.evaluate c.snap c.now c.orders).1 := by
  refine ⟨oneBitApart_top h, ?_⟩
  intro id da hda
  have hplane : ((e.evaluate c.snap c.now c.orders).2.plane id).1 = da := by
    rw [Evaluator.plane, evaluate_retained, hda]
    rfl
  rw [← hplane]
  exact (planesBounded_evaluate h hbounded).apart id

/-! ## Runs -/

/-- In a run whose calls all keep the shift, every returned successor is within one bit of its
width. -/
theorem successor_within_one_bit (cfg : EvaluatorConfig) (calls : List Call)
    (hkeeps : ∀ t ∈ (newEvaluator cfg).turns calls, KeepsShift t.before t.call) :
    ∀ t ∈ (newEvaluator cfg).turns calls, ShiftBounded t.view := by
  have hstart : PlanesBounded (newEvaluator cfg) := ⟨by nofun, fun _ _ => rfl, rfl⟩
  have hbounded := forall_turns PlanesBounded KeepsShift
    (fun e c hbounded h => planesBounded_evaluate h hbounded) hstart hkeeps
  intro t ht
  rw [(view_of_mem_turns ht).2]
  exact shiftBounded_evaluate (hkeeps t ht) (hbounded t ht)

/-- An authority that announces this width and one bit more for its successor, for the transactions
and for plane 1. The successor's generation does not depend on the width. -/
def resharding (bits : UInt8) : ShardManifest :=
  let next : SuccessorBlock := ⟨.copy 16 [7], bits + 1, 0, 100⟩
  { flags := flagAuthoritative ||| flagSuccessorValid ||| flagDomainsValid
    srcIPv6 := .copy 16 [0x20, 0x01]
    instanceID := 7
    epoch := 1700000000
    ttl := 90
    announceInterval := 0
    shardBits := bits
    roleHint := 0
    generationID := .copy 16 [1]
    groups := []
    bitmap := []
    sources := []
    successor := some next
    domains := [⟨1, bits, 1, domainFlagSuccessorValid, 0, .copy 16 [2], some next⟩] }

def reshardingCall (bits : UInt8) (now : Int) : Call :=
  ⟨[entryOf (resharding bits)], now, storedOrders⟩

theorem selectedPlaneBits_resharding {bits : UInt8} (hid : id ≠ 1) :
    selectedPlaneBits (unpinned 1 0) (reshardingCall bits now) id = none := by
  have hvotes : domainShardBitsVotes (reshardingCall bits now).snap id = [] := by
    simp [domainShardBitsVotes, descriptors, authorities, reshardingCall, entryOf, resharding,
      hid.symm]
  rw [selectedPlaneBits, hvotes]
  exact Tallies.best_no_votes (by decide) _

/-- The successor of width 4, as the first call adopts it. -/
def reshardingView : SuccessorView := ⟨.copy 16 [7], 5, false, 100, 0⟩

theorem keepsShift_resharding (hcfg : e.cfg = unpinned 1 0)
    (htop : e.adopted.successor = some reshardingView)
    (hplane : (e.plane 1).1.successor = some reshardingView) : KeepsShift e (reshardingCall 4 1) := by
  have hsuccessor : selectedSuccessor (unpinned 1 0) (reshardingCall 4 1).snap storedOrders =
      some reshardingView.key := by decide +kernel
  have hbits : selectedPlaneBits (unpinned 1 0) (reshardingCall 4 1) 1 = some 4 := by
    decide +kernel
  rw [← hcfg] at hsuccessor hbits
  constructor
  · intro view sv hview hsv _
    obtain rfl := Option.some.inj (htop.symm.trans hview)
    obtain rfl := Option.some.inj (hsuccessor.symm.trans hsv)
    rfl
  · intro id view v hview hv _
    by_cases hid : id = 1
    · subst hid
      obtain rfl := Option.some.inj (hplane.symm.trans hview)
      obtain rfl := Option.some.inj (hbits.symm.trans hv)
      exact .inl (by decide)
    · rw [hcfg, selectedPlaneBits_resharding hid] at hv
      cases hv

theorem resharding_within_one_bit :
    let turns := (newEvaluator (unpinned 1 0)).turns [reshardingCall 4 0, reshardingCall 4 1]
    turns.length = 2 ∧ ∀ t ∈ turns, ShiftBounded t.view := by
  intro turns
  refine ⟨rfl, successor_within_one_bit _ _ ?_⟩
  rw [turns_cons, turns_cons, List.forall_mem_cons, List.forall_mem_cons]
  refine ⟨⟨by nofun, by nofun⟩, ?_, List.forall_mem_nil _⟩
  exact keepsShift_resharding rfl (by decide +kernel) (by decide +kernel)

/-- Width 4 and successor 5 are adopted; then width 7 is announced with successor 8 of the same
generation, and the call answers with width 7 and successor 5. -/
theorem moved_width_keeps_successor :
    let calls := [reshardingCall 4 0, reshardingCall 7 1]
    (∀ c ∈ calls, ∀ en ∈ c.snap, en.Decoded) ∧
      ∃ t ∈ (newEvaluator (unpinned 1 0)).turns calls,
        ¬ OneBitApart t.view.shardBits t.view.successor ∧
        ∃ da, t.view.domains 1 = some da ∧ ¬ OneBitApart da.shardBits da.successor := by
  intro calls
  let first := (newEvaluator (unpinned 1 0)).evaluate (reshardingCall 4 0).snap 0 storedOrders
  let second := first.2.evaluate (reshardingCall 7 1).snap 1 storedOrders
  refine ⟨?_, ⟨first.2, reshardingCall 7 1, second.1⟩, List.mem_cons_of_mem _ List.mem_cons_self,
    by decide +kernel, ⟨7, false, some reshardingView, true, false⟩, by decide +kernel, by decide⟩
  have hdecoded : ∀ bits, (checkManifest (resharding bits)).outcome = .ok () → ∀ now,
      ∀ en ∈ (reshardingCall bits now).snap, en.Decoded := by
    intro bits hcheck now en hen
    rw [List.mem_singleton.mp hen]
    exact decoded_entryOf hcheck
  simp only [calls, List.forall_mem_cons]
  exact ⟨hdecoded 4 (by decide +kernel) 0, hdecoded 7 (by decide +kernel) 1, by simp⟩

end ShardCommon.Manifest
