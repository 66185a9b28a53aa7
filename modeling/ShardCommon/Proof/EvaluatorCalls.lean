import Mathlib.Data.List.Sort
import Mathlib.Data.String.Basic
import ShardCommon.Proof.EvaluatorHysteresis
import ShardCommon.Proof.EvaluatorPlanes

/-!
# Calls of the evaluator

A call first adopts the top-level fields and then goes through the planes. Each plane that it returns
has been evaluated from what the evaluator retained of that plane, and the planes it returns are the
planes it retains.
-/

namespace ShardCommon.Manifest

variable {cfg : EvaluatorConfig} {e : Evaluator} {snap : List Entry} {orders : Orders} {now : Int}
  {p : Pass} {k : FieldKey} {id : UInt8}

theorem topPass_planeTimers (hk : k.field.plane? = some id) :
    (e.topPass snap now orders).timers k = e.timers k := by
  have hne : ∀ field : Field, field.plane? = none → k.field ≠ field := by
    rintro field hnone rfl
    rw [hnone] at hk
    cases hk
  rw [Evaluator.topPass, adoptSuccessor_timers (hne _ rfl), adoptSourceMode_timers (hne _ rfl),
    adoptShardBits_timers (hne _ rfl)]

theorem pass_eq : e.pass snap now orders =
    evaluateDomains e.cfg snap orders now (e.topPass snap now orders) := rfl

theorem evaluateDomain_of_unpinned {s : Plane} (hpin : cfg.pin.domainShardBits id = none)
    (hmem : descriptors snap id ≠ []) :
    evaluateDomain cfg snap orders now id s =
      adoptDomainSuccessor cfg snap (orders.domainSuccessor id) now id
        (adoptDomainSourceMode cfg snap (orders.domainSourceMode id) now id
          (adoptDomainShardBits cfg snap (orders.domainShardBits id) now id s)) := by
  rw [evaluateDomain, hpin]
  exact if_neg (by simp [hmem])

theorem adoptDomainShardBits_others {order : RangeOrder (Vote UInt8)} {s : Plane} :
    (adoptDomainShardBits cfg snap order now id s).1.sourceModeSSM = s.1.sourceModeSSM ∧
      (adoptDomainShardBits cfg snap order now id s).1.successor = s.1.successor := by
  rw [adoptDomainShardBits]
  dsimp only
  split <;> exact ⟨rfl, rfl⟩

/-- A plane keeps its width, or takes the selected one once its window has run out. -/
theorem adoptDomainShardBits_cases {order : RangeOrder (Vote UInt8)} {s : Plane} :
    let bits := (adoptDomainShardBits cfg snap order now id s).1.shardBits
    let m := Tallies.ofVotes (domainShardBitsVotes snap id)
    bits = s.1.shardBits ∨ (bestCandidate (order.visit m.entries) cfg.quorum = some bits ∧
      (hysteresisElapsed cfg s.2 ⟨.domainShardBits id, bits.toUInt64⟩ now (exemplar m bits)).1 =
        true) := by
  rw [adoptDomainShardBits_eq]
  exact PlaneField.adopt_cases (f := .shardBits id)

theorem adoptDomainSuccessor_others {order : RangeOrder (Vote SuccessorKey)} {s : Plane} :
    (adoptDomainSuccessor cfg snap order now id s).1.shardBits = s.1.shardBits ∧
      (adoptDomainSuccessor cfg snap order now id s).1.sourceModeSSM = s.1.sourceModeSSM := by
  rw [adoptDomainSuccessor]
  dsimp only
  split
  · split
    · split <;> exact ⟨rfl, rfl⟩
    · exact ⟨rfl, rfl⟩
  · split <;> exact ⟨rfl, rfl⟩

theorem adoptDomainSourceMode_others {order : RangeOrder (Vote Bool)} {s : Plane} :
    (adoptDomainSourceMode cfg snap order now id s).1.shardBits = s.1.shardBits ∧
      (adoptDomainSourceMode cfg snap order now id s).1.successor = s.1.successor := by
  rw [adoptDomainSourceMode]
  dsimp only
  split <;> exact ⟨rfl, rfl⟩

/-- A plane up to its successor block, when its width and source mode are settled. -/
def planeBeforeSuccessor (cfg : EvaluatorConfig) (snap : List Entry) (orders : Orders) (now : Int)
    (id : UInt8) (s : Plane) : Plane :=
  adoptDomainSourceMode cfg snap (orders.domainSourceMode id) now id
    (adoptDomainShardBits cfg snap (orders.domainShardBits id) now id s)

theorem planeBeforeSuccessor_successor {s : Plane} :
    (planeBeforeSuccessor cfg snap orders now id s).1.successor = s.1.successor := by
  rw [planeBeforeSuccessor, adoptDomainSourceMode_others.2, adoptDomainShardBits_others.2]

theorem planeBeforeSuccessor_timers {s : Plane} (value : UInt64) :
    (planeBeforeSuccessor cfg snap orders now id s).2 ⟨.domainSuccessor id, value⟩ =
      s.2 ⟨.domainSuccessor id, value⟩ := by
  rw [planeBeforeSuccessor, adoptDomainSourceMode_timers (by rintro ⟨⟩),
    adoptDomainShardBits_timers (by rintro ⟨⟩)]

/-- The blocks of the top level leave the rest of the fresh view. -/
theorem exists_topPass_out (e : Evaluator) (snap : List Entry) (now : Int) (orders : Orders) :
    ∃ bits mode successor met reports,
    (e.topPass snap now orders).out =
      { freshView snap with
        shardBits := bits
        sourceModeSSM := mode
        successor := successor
        quorumMet := met
        divergenceFields := reports } := by
  let bitsPass := adoptShardBits e.cfg (.ofVotes (shardBitsVotes snap)) orders.shardBits now
    ⟨freshView snap, e.timers, e.adopted⟩
  let modePass := adoptSourceMode e.cfg (.ofVotes (sourceModeVotes snap)) orders.sourceMode now
    bitsPass
  obtain ⟨bits, _, _, hbits⟩ : ∃ bits met reports, bitsPass.out =
      { freshView snap with shardBits := bits, quorumMet := met, divergenceFields := reports } :=
    exists_adoptShardBits_out
  obtain ⟨mode, _, reports, hmode⟩ : ∃ mode met reports, modePass.out =
      { bitsPass.out with sourceModeSSM := mode, quorumMet := met, divergenceFields := reports } :=
    exists_adoptSourceMode_out
  obtain ⟨successor, met, hsucc⟩ : ∃ successor met, (e.topPass snap now orders).out =
      { modePass.out with successor := successor, quorumMet := met } := exists_adoptSuccessor_out
  refine ⟨bits, mode, successor, met, reports, ?_⟩
  rw [hsucc, hmode, hbits]

/-! ## The planes of a call -/

theorem filter_domainID (hid : id ≠ 0) (domains : List Frame.DomainDescriptor) :
    (domains.filter fun d => d.domainID ≠ 0 ∧ d.domainID = id) =
      domains.filter fun d => d.domainID = id := by
  apply List.filter_congr
  intro d _
  rw [decide_eq_decide]
  exact ⟨And.right, fun heq => ⟨heq ▸ hid, heq⟩⟩

theorem descriptors_zero : descriptors snap 0 = [] := by
  rw [descriptors, List.flatMap_eq_nil_iff]
  intro en _
  simp

theorem topPass_domains : (e.topPass snap now orders).adopted.domains = e.adopted.domains := by
  rw [Evaluator.topPass, adoptSuccessor_adopted, adoptSourceMode_adopted, adoptShardBits_adopted]

theorem topPass_out_domains : (e.topPass snap now orders).out.domains id = none := by
  obtain ⟨_, _, _, _, _, hout⟩ := exists_topPass_out e snap now orders
  rw [hout]
  rfl

theorem domainIDs_topPass : domainIDs e.cfg snap (e.topPass snap now orders).adopted =
    domainIDs e.cfg snap e.adopted := by
  simp only [domainIDs, topPass_domains]

/-- What an evaluator retains of a plane. -/
def Evaluator.plane (e : Evaluator) (id : UInt8) : Plane :=
  ((e.adopted.domains id).getD default, e.timers)

theorem samePlane_topPass :
    SamePlane id (planeResult e.cfg snap orders now (e.topPass snap now orders) id)
      (evaluateDomain e.cfg snap orders now id (e.plane id)) := by
  apply SamePlane.evaluateDomain
  refine ⟨?_, fun k hk => topPass_planeTimers hk⟩
  rw [topPass_domains]
  rfl

theorem mem_domainIDs_iff {adopted : Retained} :
    id ∈ domainIDs cfg snap adopted ↔ descriptors snap id ≠ [] ∨
      (id ≠ 0 ∧ (cfg.pin.domainShardBits id).isSome) ∨ (adopted.domains id).isSome := by
  have hall : id ∈ (List.range 256).map UInt8.ofNat :=
    List.mem_map.mpr ⟨id.toNat, List.mem_range.mpr id.toNat_lt, UInt8.ofNat_toNat⟩
  rw [domainIDs, List.mem_filter]
  simp [hall, or_assoc]

/-- The planes a call returns are those it went through. -/
theorem evaluate_domains :
    (e.evaluate snap now orders).1.domains id =
      if id ∈ domainIDs e.cfg snap e.adopted then
        some (evaluateDomain e.cfg snap orders now id (e.plane id)).1
      else none := by
  have heq : (e.evaluate snap now orders).1.domains id =
      (evaluateDomains e.cfg snap orders now (e.topPass snap now orders)).out.domains id := rfl
  rw [heq, evaluateDomains_eq, ← samePlane_topPass.1]
  simp only [Pass.withPlanes, orders.ids.mem_visit, domainIDs_topPass, topPass_out_domains]

/-- The planes an evaluator retains are the planes it returned. -/
theorem evaluate_retained :
    (e.evaluate snap now orders).2.adopted.domains = (e.evaluate snap now orders).1.domains := by
  funext id
  have heq : (e.evaluate snap now orders).2.adopted.domains id =
      (evaluateDomains e.cfg snap orders now (e.topPass snap now orders)).adopted.domains id := rfl
  rw [heq, evaluate_domains, evaluateDomains_eq, ← samePlane_topPass.1]
  simp only [Pass.withPlanes, orders.ids.mem_visit, domainIDs_topPass, topPass_domains]
  split
  · rfl
  · next hnot =>
      rw [mem_domainIDs_iff, not_or, not_or] at hnot
      exact Option.not_isSome_iff_eq_none.mp hnot.2.2

/-- A plane that is not gone through would stay as it is. -/
theorem evaluateDomain_of_not_mem (hid : id ≠ 0 ∨ e.cfg.pin.domainShardBits id = none)
    (h : id ∉ domainIDs e.cfg snap e.adopted) :
    evaluateDomain e.cfg snap orders now id (e.plane id) = (default, e.timers) := by
  rw [mem_domainIDs_iff, not_or, not_or] at h
  obtain ⟨hnone, hpin, hretained⟩ := h
  have hpin : e.cfg.pin.domainShardBits id = none := by
    rcases hid with hid | hid
    · simpa [hid] using hpin
    · exact hid
  rw [evaluateDomain, hpin, not_not.mp hnone, Evaluator.plane,
    Option.not_isSome_iff_eq_none.mp hretained]
  rfl

theorem evaluate_plane (hid : id ≠ 0 ∨ e.cfg.pin.domainShardBits id = none) :
    ((e.evaluate snap now orders).1.domains id).getD default =
      (evaluateDomain e.cfg snap orders now id (e.plane id)).1 := by
  rw [evaluate_domains]
  split
  · rfl
  · next h => rw [evaluateDomain_of_not_mem hid h]; rfl

theorem evaluate_timers (hk : k.field.plane? = some id) :
    (e.evaluate snap now orders).2.timers k =
      if id ∈ domainIDs e.cfg snap e.adopted then
        (evaluateDomain e.cfg snap orders now id (e.plane id)).2 k
      else e.timers k := by
  have heq : (e.evaluate snap now orders).2.timers k =
      (evaluateDomains e.cfg snap orders now (e.topPass snap now orders)).timers k := rfl
  rw [heq, evaluateDomains_eq, ← samePlane_topPass.2 k hk]
  simp only [Pass.withPlanes, orders.ids.mem_visit, domainIDs_topPass, hk, topPass_planeTimers hk]

theorem evaluate_planeTimers (hid : id ≠ 0 ∨ e.cfg.pin.domainShardBits id = none) :
    AgreeOn id (e.evaluate snap now orders).2.timers
      (evaluateDomain e.cfg snap orders now id (e.plane id)).2 := by
  intro k hk
  rw [evaluate_timers hk]
  split
  · rfl
  · next h => rw [evaluateDomain_of_not_mem hid h]

/-- The view of a call is that of its top level but for the planes and the reports. -/
theorem evaluate_view :
    let view := (e.evaluate snap now orders).1
    view = { (e.topPass snap now orders).out with
      quorumMet := view.quorumMet
      divergenceFields := view.divergenceFields
      domains := view.domains } := by
  rw [Evaluator.evaluate, pass_eq, evaluateDomains_eq]
  rfl

theorem evaluate_quorumMet (field : Field) :
    (e.evaluate snap now orders).1.quorumMet field =
      match field with
      | .domainShardBits id =>
        if id ∈ domainIDs e.cfg snap e.adopted then
          some (evaluateDomain e.cfg snap orders now id (e.plane id)).1.quorumMet
        else (e.topPass snap now orders).out.quorumMet (.domainShardBits id)
      | field => (e.topPass snap now orders).out.quorumMet field := by
  have heq : (e.evaluate snap now orders).1.quorumMet =
      (evaluateDomains e.cfg snap orders now (e.topPass snap now orders)).out.quorumMet := rfl
  rw [heq, evaluateDomains_eq]
  cases field with
  | domainShardBits id =>
      simp only [Pass.withPlanes, orders.ids.mem_visit, domainIDs_topPass, samePlane_topPass.1]
  | _ => rfl

theorem sort_reports {fields fields' : List String} (h : fields.Perm fields') :
    fields.mergeSort (fun a b => a ≤ b) = fields'.mergeSort (fun a b => a ≤ b) := by
  apply List.Perm.eq_of_pairwise' (r := (· ≤ ·)) (List.pairwise_mergeSort' _ _)
    (List.pairwise_mergeSort' _ _)
  exact ((List.mergeSort_perm _ _).trans h).trans (List.mergeSort_perm _ _).symm

/-- The divergent planes are reported in whatever order the loop goes through them. -/
theorem evaluate_divergenceFields :
    (e.evaluate snap now orders).1.divergenceFields =
      ((e.topPass snap now orders).out.divergenceFields ++
        ((domainIDs e.cfg snap e.adopted).filter fun id =>
          (evaluateDomain e.cfg snap orders now id (e.plane id)).1.divergent).map
            fun id => (Field.domainShardBits id).name).mergeSort fun a b => a ≤ b := by
  apply sort_reports
  rw [pass_eq, evaluateDomains_eq]
  simp only [Pass.withPlanes, domainIDs_topPass, samePlane_topPass.1]
  exact List.Perm.append_left _ (((orders.ids.perm _).filter _).map _)

/-! ## The width of a call -/

/-- The width a call works with: the pin, or the selected width once its window has run out, or the
retained one. -/
def Evaluator.widthInForce (e : Evaluator) (snap : List Entry) (now : Int) (orders : Orders) :
    UInt8 :=
  match e.cfg.pin.shardBits with
  | some pin => pin
  | none =>
    match selectedShardBits e.cfg snap orders with
    | some v =>
      if (gatedElapsed e.cfg e.timers (shardBitsKey v) now
          (exemplar (.ofVotes (shardBitsVotes snap)) v)).1 then v
      else e.adopted.shardBits
    | none => e.adopted.shardBits

theorem topPass_shardBits :
    (e.topPass snap now orders).out.shardBits = e.widthInForce snap now orders := by
  rw [Evaluator.topPass, adoptSuccessor_shardBits.1, adoptSourceMode_shardBits.1,
    Evaluator.widthInForce]
  cases hpin : e.cfg.pin.shardBits with
  | some pin =>
      rw [adoptShardBits, hpin]
      rfl
  | none =>
      rw [adoptShardBits_eq]
      cases hbest : selectedShardBits e.cfg snap orders with
      | none =>
          rw [TopField.adopt_of_none hpin hbest]
          rfl
      | some v =>
          rw [TopField.adopt_of_selected hpin hbest]
          rfl

/-! ## Runs -/

def NoPins (cfg : EvaluatorConfig) : Prop := cfg.pin = ⟨none, none, fun _ => none⟩

theorem NoPins.newEvaluator (h : NoPins cfg) : NoPins (newEvaluator cfg).cfg := by
  rw [Manifest.newEvaluator]
  dsimp only
  split <;> exact h

structure Call where
  snap : List Entry
  now : Int
  orders : Orders

/-- One call of a run: the evaluator before it and the view it returns. -/
structure Turn where
  before : Evaluator
  call : Call
  view : Adopted

/-- The calls of a run, in order. -/
def Evaluator.turns : Evaluator → List Call → List Turn
  | _, [] => []
  | e, c :: calls =>
    let r := e.evaluate c.snap c.now c.orders
    ⟨e, c, r.1⟩ :: r.2.turns calls

theorem turns_cons (e : Evaluator) (c : Call) (calls : List Call) :
    e.turns (c :: calls) = ⟨e, c, (e.evaluate c.snap c.now c.orders).1⟩ ::
      (e.evaluate c.snap c.now c.orders).2.turns calls := rfl

/-- An invariant that every call keeps holds before each call of a run. -/
theorem forall_turns (inv : Evaluator → Prop) (allowed : Evaluator → Call → Prop)
    (hstep : ∀ e c, inv e → allowed e c → inv (e.evaluate c.snap c.now c.orders).2)
    {calls : List Call} (hstart : inv e) (hcalls : ∀ t ∈ e.turns calls, allowed t.before t.call) :
    ∀ t ∈ e.turns calls, inv t.before := by
  induction calls generalizing e with
  | nil => exact List.forall_mem_nil _
  | cons c calls ih =>
      rw [turns_cons, List.forall_mem_cons] at hcalls ⊢
      exact ⟨hstart, ih (hstep e c hstart hcalls.1) hcalls.2⟩

theorem cfg_of_mem_turns {calls : List Call} {t : Turn} (h : t ∈ e.turns calls) :
    t.before.cfg = e.cfg :=
  forall_turns (fun e' => e'.cfg = e.cfg) (fun _ _ => True) (fun _ _ hcfg _ => hcfg) rfl
    (fun _ _ => trivial) t h

theorem view_of_mem_turns {calls : List Call} {t : Turn} (h : t ∈ e.turns calls) :
    t.call ∈ calls ∧ t.view = (t.before.evaluate t.call.snap t.call.now t.call.orders).1 := by
  induction calls generalizing e with
  | nil => cases h
  | cons c calls ih =>
      rw [turns_cons] at h
      rcases List.mem_cons.mp h with rfl | h
      · exact ⟨List.mem_cons_self, rfl⟩
      · exact ⟨List.mem_cons_of_mem _ (ih h).1, (ih h).2⟩

end ShardCommon.Manifest
