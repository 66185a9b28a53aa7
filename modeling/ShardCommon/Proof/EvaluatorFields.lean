import ShardCommon.Evaluator

/-!
# Voted fields

The width and the source mode are adopted in the same way, at the top level and on every plane: the
candidate with quorum is timed, and it is shown and retained once its window has run out. The points
in which the blocks of the source differ are data of the field here, so that what is shown for any
field holds for each of them.
-/

namespace ShardCommon.Manifest

variable {cfg : EvaluatorConfig} {snap : List Entry} {now : Int} {p : Pass} {s : Plane}
  {timers : Timers} {k : FieldKey} {en : Entry} {id : UInt8} {K : Type}

/-- The plane a field belongs to. -/
def Field.plane? : Field → Option UInt8
  | domainShardBits id => some id
  | domainSourceMode id => some id
  | domainSuccessor id => some id
  | _ => none

/-! ## Timing a candidate -/

theorem hysteresisElapsed_congr {timers' : Timers} (h : timers k = timers' k) :
    (hysteresisElapsed cfg timers k now en).1 = (hysteresisElapsed cfg timers' k now en).1 := by
  simp only [hysteresisElapsed]
  rw [h]
  cases timers' k <;> rfl

theorem hysteresisElapsed_of_ne {key : FieldKey} (h : k ≠ key) :
    (hysteresisElapsed cfg timers key now en).2 k = timers k := by
  rw [hysteresisElapsed]
  split
  · exact Function.update_of_ne h ..
  · rfl

theorem hysteresisElapsed_of_field {field : Field} {value : UInt64} (h : k.field ≠ field) :
    (hysteresisElapsed cfg timers ⟨field, value⟩ now en).2 k = timers k := by
  apply hysteresisElapsed_of_ne
  rintro rfl
  exact h rfl

/-- The top level does not look at a width whose timer lies in the future. -/
def gatedElapsed (cfg : EvaluatorConfig) (timers : Timers) (k : FieldKey) (now : Int) (en : Entry) :
    Bool × Timers :=
  if 0 ≤ now - checkHysteresis timers k now then hysteresisElapsed cfg timers k now en
  else (false, timers)

/-- The gate makes a difference only to a negative window. -/
theorem gatedElapsed_eq
    (h : 0 ≤ cfg.hysteresis ∨ ∀ first, timers k = some first → first ≤ now) :
    gatedElapsed cfg timers k now en = hysteresisElapsed cfg timers k now en := by
  rw [gatedElapsed, checkHysteresis]
  split
  · rfl
  · next hfuture =>
      cases htimer : timers k with
      | none =>
          rw [htimer, Option.getD_none] at hfuture
          omega
      | some first =>
          rw [htimer, Option.getD_some] at hfuture
          have hwindow : 0 ≤ cfg.hysteresis := by
            rcases h with h | h
            · exact h
            · have := h first htimer
              omega
          rw [hysteresisElapsed, htimer]
          refine Prod.ext (Eq.symm (decide_eq_false ?_)) rfl
          rw [second]
          split <;> omega

theorem boolToUint64_injective : Function.Injective boolToUint64 := by
  intro a b h
  cases a <;> cases b <;> first | rfl | exact absurd h (by decide)

/-! ## Fields of the top level -/

def Adopted.report (out : Adopted) (field : Field) (met divergent : Bool) : Adopted :=
  (out.setQuorumMet field met).addDivergence field divergent

/-- A voted field of the top level: how it is timed and pinned, where it is shown and where it is
retained. -/
structure TopField (K : Type) where
  field : Field
  code : K → UInt64
  pin : Pin → Option K
  shown : Adopted → K
  put : Adopted → K → Adopted
  retained : Retained → K
  retain : Retained → K → Retained
  /-- The block does not look at a candidate whose timer lies in the future. -/
  gated : Bool
  /-- The block reports disagreement without a quorum as well. -/
  vocal : Bool
  code_injective : Function.Injective code
  plane_field : field.plane? = none := by rfl
  pin_planes : ∀ pins planes, pin { pins with domainShardBits := planes } = pin pins := by
    intros; rfl
  shown_report : ∀ out v met divergent, shown ((put out v).report field met divergent) = v := by
    intros; rfl
  put_divergenceFields : ∀ out v, (put out v).divergenceFields = out.divergenceFields := by
    intros; rfl
  put_sourceSet : ∀ out sources v,
    put { out with sourceSet := sources } v = { put out v with sourceSet := sources } := by
    intros; rfl
  retained_retain : ∀ adopted v, retained (retain adopted v) = v := by intros; rfl
  retain_retained : ∀ adopted, retain adopted (retained adopted) = adopted := by intros; rfl
  retained_domains : ∀ adopted domains,
    retained { adopted with domains := domains } = retained adopted := by intros; rfl
  retain_domains : ∀ adopted domains v,
    retain { adopted with domains := domains } v = { retain adopted v with domains := domains } := by
    intros; rfl

namespace TopField

def shardBits : TopField UInt8 where
  field := .shardBits
  code := UInt8.toUInt64
  pin := Pin.shardBits
  shown := Adopted.shardBits
  put out v := { out with shardBits := v }
  retained := Retained.shardBits
  retain adopted v := { adopted with shardBits := v }
  gated := true
  vocal := true
  code_injective := fun _ _ => UInt8.toUInt64_inj.mp

def sourceMode : TopField Bool where
  field := .sourceMode
  code := boolToUint64
  pin := Pin.sourceModeSSM
  shown := Adopted.sourceModeSSM
  put out v := { out with sourceModeSSM := v }
  retained := Retained.sourceModeSSM
  retain adopted v := { adopted with sourceModeSSM := v }
  gated := false
  vocal := false
  code_injective := boolToUint64_injective

def key (f : TopField K) (v : K) : FieldKey := ⟨f.field, f.code v⟩

def elapsed (f : TopField K) (cfg : EvaluatorConfig) (timers : Timers) (v : K) (now : Int)
    (en : Entry) : Bool × Timers :=
  if f.gated then gatedElapsed cfg timers (f.key v) now en
  else hysteresisElapsed cfg timers (f.key v) now en

variable {f : TopField K} {v : K}

theorem elapsed_of_field (h : k.field ≠ f.field) : (f.elapsed cfg timers v now en).2 k = timers k := by
  rw [elapsed, gatedElapsed]
  split
  · split
    · exact hysteresisElapsed_of_field h
    · rfl
  · exact hysteresisElapsed_of_field h

theorem elapsed_eq (h : f.gated = true →
      0 ≤ cfg.hysteresis ∨ ∀ first, timers (f.key v) = some first → first ≤ now) :
    f.elapsed cfg timers v now en = hysteresisElapsed cfg timers (f.key v) now en := by
  rw [elapsed]
  split
  · next hgated => exact gatedElapsed_eq (h hgated)
  · rfl

theorem key_injective (f : TopField K) : Function.Injective f.key := by
  intro v w h
  exact f.code_injective (FieldKey.mk.inj h).2

variable [DecidableEq K] [Inhabited K]

/-- The block of a field, up to the two points in which the source's blocks differ. -/
def adopt (f : TopField K) (cfg : EvaluatorConfig) (m : Tallies K Entry)
    (order : RangeOrder (Vote K)) (now : Int) (p : Pass) : Pass :=
  match f.pin cfg.pin with
  | some pin => { p with out := (f.put p.out pin).report f.field true (hasNonPinDisagreement m pin) }
  | none =>
    match Tallies.best (order.visit m.entries) cfg.quorum with
    | some v =>
      let elapsed := f.elapsed cfg p.timers v now (exemplar m v)
      let value := if elapsed.1 then v else f.retained p.adopted
      ⟨(f.put p.out value).report f.field true (hasMultipleCandidates m), elapsed.2,
        f.retain p.adopted value⟩
    | none =>
      { p with
        out := (f.put p.out (f.retained p.adopted)).report f.field false
          (f.vocal && hasMultipleCandidates m) }

variable {m : Tallies K Entry} {order : RangeOrder (Vote K)}

theorem adopt_of_pin {pin : K} (hpin : f.pin cfg.pin = some pin) :
    f.adopt cfg m order now p =
      { p with out := (f.put p.out pin).report f.field true (hasNonPinDisagreement m pin) } := by
  rw [adopt, hpin]

theorem adopt_of_selected (hpin : f.pin cfg.pin = none)
    (hbest : Tallies.best (order.visit m.entries) cfg.quorum = some v) :
    let elapsed := f.elapsed cfg p.timers v now (exemplar m v)
    let value := if elapsed.1 then v else f.retained p.adopted
    f.adopt cfg m order now p =
      ⟨(f.put p.out value).report f.field true (hasMultipleCandidates m), elapsed.2,
        f.retain p.adopted value⟩ := by
  rw [adopt, hpin, hbest]

theorem adopt_of_none (hpin : f.pin cfg.pin = none)
    (hbest : Tallies.best (order.visit m.entries) cfg.quorum = none) :
    f.adopt cfg m order now p =
      { p with
        out := (f.put p.out (f.retained p.adopted)).report f.field false
          (f.vocal && hasMultipleCandidates m) } := by
  rw [adopt, hpin, hbest]

/-- Every block times, shows and retains its own field. -/
theorem adopt_timers (h : k.field ≠ f.field) :
    (f.adopt cfg m order now p).timers k = p.timers k := by
  rw [adopt]
  split
  · rfl
  split
  · exact elapsed_of_field h
  · rfl

theorem exists_adopt (f : TopField K) (cfg : EvaluatorConfig) (now : Int) (p : Pass)
    (m : Tallies K Entry) (order : RangeOrder (Vote K)) : ∃ shown met divergent retained,
    (f.adopt cfg m order now p).out = (f.put p.out shown).report f.field met divergent ∧
      (f.adopt cfg m order now p).adopted = f.retain p.adopted retained := by
  rw [adopt]
  split
  · exact ⟨_, _, _, _, rfl, (f.retain_retained _).symm⟩
  split
  · exact ⟨_, _, _, _, rfl, rfl⟩
  · exact ⟨_, _, _, _, rfl, (f.retain_retained _).symm⟩

/-- Without a pin a block shows what it retains, and that is what was retained before or the
selected candidate. -/
theorem adopt_backed (hpin : f.pin cfg.pin = none) :
    let q := f.adopt cfg m order now p
    f.retained q.adopted = f.shown q.out ∧ (f.shown q.out = f.retained p.adopted ∨
      Tallies.best (order.visit m.entries) cfg.quorum = some (f.shown q.out)) := by
  intro q
  cases hbest : Tallies.best (order.visit m.entries) cfg.quorum with
  | none =>
      have hq : q = _ := adopt_of_none hpin hbest
      rw [hq, f.shown_report]
      exact ⟨rfl, .inl rfl⟩
  | some v =>
      have hq : q = _ := adopt_of_selected hpin hbest
      rw [hq, f.shown_report, f.retained_retain]
      refine ⟨rfl, ?_⟩
      split
      · exact .inr rfl
      · exact .inl rfl

end TopField

theorem adoptShardBits_eq (cfg : EvaluatorConfig) (m : Tallies UInt8 Entry)
    (order : RangeOrder (Vote UInt8)) (now : Int) (p : Pass) :
    adoptShardBits cfg m order now p = TopField.shardBits.adopt cfg m order now p := by
  cases hpin : cfg.pin.shardBits with
  | some pin =>
      rw [TopField.adopt_of_pin hpin, adoptShardBits, hpin]
      rfl
  | none =>
      rw [adoptShardBits, hpin]
      dsimp only
      cases hbest : bestCandidate (order.visit m.entries) cfg.quorum with
      | none =>
          rw [TopField.adopt_of_none hpin hbest]
          rfl
      | some v =>
          have helapsed : TopField.shardBits.elapsed cfg p.timers v now (exemplar m v) =
              gatedElapsed cfg p.timers ⟨.shardBits, v.toUInt64⟩ now (exemplar m v) := rfl
          rw [TopField.adopt_of_selected hpin hbest, helapsed, gatedElapsed]
          dsimp only
          split
          · split <;> rfl
          · rfl

theorem adoptSourceMode_eq (cfg : EvaluatorConfig) (m : Tallies Bool Entry)
    (order : RangeOrder (Vote Bool)) (now : Int) (p : Pass) :
    adoptSourceMode cfg m order now p = TopField.sourceMode.adopt cfg m order now p := by
  cases hpin : cfg.pin.sourceModeSSM with
  | some pin =>
      rw [TopField.adopt_of_pin hpin, adoptSourceMode, hpin]
      rfl
  | none =>
      rw [adoptSourceMode, hpin]
      dsimp only
      cases hbest : bestCandidateBool (order.visit m.entries) cfg.quorum with
      | none =>
          rw [TopField.adopt_of_none hpin hbest]
          rfl
      | some v =>
          have helapsed : TopField.sourceMode.elapsed cfg p.timers v now (exemplar m v) =
              hysteresisElapsed cfg p.timers ⟨.sourceMode, boolToUint64 v⟩ now (exemplar m v) := rfl
          rw [TopField.adopt_of_selected hpin hbest, helapsed]
          dsimp only
          split <;> rfl

/-! ## Fields of a plane -/

/-- A voted field of a plane: its votes, how it is timed, where it is kept and what the block notes
about the vote. -/
structure PlaneField (K : Type) where
  field : Field
  code : K → UInt64
  votes : List Entry → List (K × Entry)
  value : DomainAdoption → K
  put : DomainAdoption → K → DomainAdoption
  note : DomainAdoption → Bool → Bool → DomainAdoption
  code_injective : Function.Injective code
  value_note : ∀ view met divergent, value (note view met divergent) = value view := by intros; rfl
  value_put : ∀ view v, value (put view v) = v := by intros; rfl

namespace PlaneField

def shardBits (id : UInt8) : PlaneField UInt8 where
  field := .domainShardBits id
  code := UInt8.toUInt64
  votes snap := domainShardBitsVotes snap id
  value := DomainAdoption.shardBits
  put view v := { view with shardBits := v }
  note view met divergent := { view with quorumMet := met, divergent := divergent }
  code_injective := fun _ _ => UInt8.toUInt64_inj.mp

def sourceMode (id : UInt8) : PlaneField Bool where
  field := .domainSourceMode id
  code := boolToUint64
  votes snap := domainSourceModeVotes snap id
  value := DomainAdoption.sourceModeSSM
  put view v := { view with sourceModeSSM := v }
  note view _ _ := view
  code_injective := boolToUint64_injective

def key (f : PlaneField K) (v : K) : FieldKey := ⟨f.field, f.code v⟩

theorem key_injective (f : PlaneField K) : Function.Injective f.key := by
  intro v w h
  exact f.code_injective (FieldKey.mk.inj h).2

variable [DecidableEq K]

def tallies (f : PlaneField K) (snap : List Entry) : Tallies K Entry := .ofVotes (f.votes snap)

variable [Inhabited K]

def adopt (f : PlaneField K) (cfg : EvaluatorConfig) (snap : List Entry)
    (order : RangeOrder (Vote K)) (now : Int) (s : Plane) : Plane :=
  let m := f.tallies snap
  match Tallies.best (order.visit m.entries) cfg.quorum with
  | some v =>
    let elapsed := hysteresisElapsed cfg s.2 (f.key v) now (exemplar m v)
    (f.note (f.put s.1 (if elapsed.1 then v else f.value s.1)) true (hasMultipleCandidates m),
      elapsed.2)
  | none => (f.note s.1 false (hasMultipleCandidates m), s.2)

variable {f : PlaneField K} {order : RangeOrder (Vote K)} {v : K}

theorem adopt_of_selected
    (hbest : Tallies.best (order.visit (f.tallies snap).entries) cfg.quorum = some v) :
    let m := f.tallies snap
    let elapsed := hysteresisElapsed cfg s.2 (f.key v) now (exemplar m v)
    f.adopt cfg snap order now s =
      (f.note (f.put s.1 (if elapsed.1 then v else f.value s.1)) true (hasMultipleCandidates m),
        elapsed.2) := by
  intro m elapsed
  rw [adopt]
  dsimp only
  rw [hbest]

theorem adopt_of_none
    (hbest : Tallies.best (order.visit (f.tallies snap).entries) cfg.quorum = none) :
    f.adopt cfg snap order now s =
      (f.note s.1 false (hasMultipleCandidates (f.tallies snap)), s.2) := by
  rw [adopt]
  dsimp only
  rw [hbest]

theorem adopt_timers (h : k.field ≠ f.field) : (f.adopt cfg snap order now s).2 k = s.2 k := by
  rw [adopt]
  dsimp only
  split
  · exact hysteresisElapsed_of_field h
  · rfl

/-- A plane keeps its value, or takes the selected one once its window has run out. -/
theorem adopt_cases :
    let value := f.value (f.adopt cfg snap order now s).1
    let m := f.tallies snap
    value = f.value s.1 ∨ Tallies.best (order.visit m.entries) cfg.quorum = some value ∧
      (hysteresisElapsed cfg s.2 (f.key value) now (exemplar m value)).1 = true := by
  intro value m
  cases hbest : Tallies.best (order.visit m.entries) cfg.quorum with
  | none =>
      left
      have hvalue : value = _ := congrArg (fun t : Plane => f.value t.1) (adopt_of_none hbest)
      rw [hvalue, f.value_note]
  | some v =>
      have hvalue : value = _ := congrArg (fun t : Plane => f.value t.1) (adopt_of_selected hbest)
      rw [f.value_note, f.value_put] at hvalue
      split at hvalue
      · next helapsed =>
          right
          rw [hvalue]
          exact ⟨rfl, helapsed⟩
      · exact .inl hvalue

end PlaneField

theorem adoptDomainShardBits_eq (cfg : EvaluatorConfig) (snap : List Entry)
    (order : RangeOrder (Vote UInt8)) (now : Int) (id : UInt8) (s : Plane) :
    adoptDomainShardBits cfg snap order now id s =
      (PlaneField.shardBits id).adopt cfg snap order now s := by
  cases hbest : bestCandidate (order.visit (Tallies.ofVotes (domainShardBitsVotes snap id)).entries)
    cfg.quorum with
  | none =>
      rw [adoptDomainShardBits, PlaneField.adopt_of_none (f := .shardBits id) hbest]
      dsimp only
      rw [hbest]
      rfl
  | some v =>
      rw [adoptDomainShardBits, PlaneField.adopt_of_selected (f := .shardBits id) hbest]
      dsimp only
      rw [hbest]
      rfl

theorem adoptDomainSourceMode_eq (cfg : EvaluatorConfig) (snap : List Entry)
    (order : RangeOrder (Vote Bool)) (now : Int) (id : UInt8) (s : Plane) :
    adoptDomainSourceMode cfg snap order now id s =
      (PlaneField.sourceMode id).adopt cfg snap order now s := by
  cases hbest : bestCandidateBool (order.visit
    (Tallies.ofVotes (domainSourceModeVotes snap id)).entries) cfg.quorum with
  | none =>
      rw [adoptDomainSourceMode, PlaneField.adopt_of_none (f := .sourceMode id) hbest]
      dsimp only
      rw [hbest]
      rfl
  | some v =>
      rw [adoptDomainSourceMode, PlaneField.adopt_of_selected (f := .sourceMode id) hbest]
      dsimp only
      rw [hbest]
      rfl

end ShardCommon.Manifest
