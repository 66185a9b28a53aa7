import ShardCommon.Proof.EvaluatorFields

/-!
# What each part of a call leaves alone

Every block of the evaluator times and adopts its own field. The lemmas here say so: a block changes
the timers of its field only, and the loop over planes changes nothing of the top level.
-/

namespace ShardCommon.Manifest

variable {cfg : EvaluatorConfig} {snap : List Entry} {orders : Orders} {now : Int} {p q r : Pass}
  {timers : Timers} {k key : FieldKey} {en : Entry} {id : UInt8} {e : Evaluator}

/-- What tells names apart: the first and the last character, and the number in between. -/
def signature (name : String) : Option Char × Option Char × Nat :=
  (name.toList.head?, name.toList.getLast?,
    (name.toList.filter Char.isDigit).foldl (fun n c => 10 * n + (c.toNat - 48)) 0)

theorem foldl_toDigits : ∀ n < 256,
    ((Nat.toDigits 10 n).filter Char.isDigit).foldl (fun n c => 10 * n + (c.toNat - 48)) 0 = n := by
  decide +kernel

theorem signature_name (field : Field) : signature field.name =
    match field with
    | .shardBits => (some 's', some 's', 0)
    | .sourceMode => (some 's', some 'e', 0)
    | .successor => (some 's', some 'r', 0)
    | .domainShardBits id => (some 'd', some 's', id.toNat)
    | .domainSourceMode id => (some 'd', some 'e', id.toNat)
    | .domainSuccessor id => (some 'd', some 'r', id.toNat) := by
  cases field with
  | domainShardBits id | domainSourceMode id | domainSuccessor id =>
      have hdigits := foldl_toDigits id.toNat id.toNat_lt
      simpa [signature, Field.name, toString, Nat.repr, List.getLast?_cons] using hdigits
  | _ => decide +kernel

/-- The source keys its timers by name; no two fields share one. -/
theorem Field.name_injective : Function.Injective Field.name := by
  intro f g h
  have hsignature := congrArg signature h
  rw [signature_name, signature_name] at hsignature
  cases f <;> cases g <;> simp_all [UInt8.toNat_inj]

theorem resetField_of_ne {field : Field} (h : k.field ≠ field) :
    resetField timers field k = timers k := if_neg h

theorem resetField_self {field : Field} {value : UInt64} :
    resetField timers field ⟨field, value⟩ = none := if_pos rfl

/-! ## The top level -/

theorem adoptShardBits_timers {m : Tallies UInt8 Entry} {order : RangeOrder (Vote UInt8)}
    (h : k.field ≠ .shardBits) : (adoptShardBits cfg m order now p).timers k = p.timers k := by
  rw [adoptShardBits_eq]
  exact TopField.adopt_timers h

theorem adoptSourceMode_timers {m : Tallies Bool Entry} {order : RangeOrder (Vote Bool)}
    (h : k.field ≠ .sourceMode) : (adoptSourceMode cfg m order now p).timers k = p.timers k := by
  rw [adoptSourceMode_eq]
  exact TopField.adopt_timers h

theorem adoptSuccessor_timers {m : Tallies SuccessorKey Entry}
    {order : RangeOrder (Vote SuccessorKey)} (h : k.field ≠ .successor) :
    (adoptSuccessor cfg m order now p).timers k = p.timers k := by
  rw [adoptSuccessor]
  split
  · split
    · dsimp only
      split <;> exact hysteresisElapsed_of_field h
    · rfl
  · exact resetField_of_ne h

/-- The shard-bits block writes its field and the reports. -/
theorem exists_adoptShardBits_out {m : Tallies UInt8 Entry} {order : RangeOrder (Vote UInt8)} :
    ∃ bits met reports, (adoptShardBits cfg m order now p).out =
      { p.out with shardBits := bits, quorumMet := met, divergenceFields := reports } := by
  rw [adoptShardBits_eq]
  obtain ⟨bits, _, _, _, hout, -⟩ := TopField.shardBits.exists_adopt cfg now p m order
  exact ⟨bits, _, _, hout⟩

theorem exists_adoptSourceMode_out {m : Tallies Bool Entry} {order : RangeOrder (Vote Bool)} :
    ∃ mode met reports, (adoptSourceMode cfg m order now p).out =
      { p.out with sourceModeSSM := mode, quorumMet := met, divergenceFields := reports } := by
  rw [adoptSourceMode_eq]
  obtain ⟨mode, _, _, _, hout, -⟩ := TopField.sourceMode.exists_adopt cfg now p m order
  exact ⟨mode, _, _, hout⟩

theorem exists_adoptSuccessor_out {m : Tallies SuccessorKey Entry}
    {order : RangeOrder (Vote SuccessorKey)} :
    ∃ successor met, (adoptSuccessor cfg m order now p).out =
      { p.out with successor := successor, quorumMet := met } := by
  rw [adoptSuccessor]
  split
  · split
    · dsimp only
      split
      · exact ⟨_, _, rfl⟩
      · exact ⟨p.out.successor, _, rfl⟩
    · exact ⟨p.out.successor, p.out.quorumMet, rfl⟩
  · exact ⟨_, p.out.quorumMet, rfl⟩

/-- Of the adopted fields each block touches its own only. -/
theorem adoptShardBits_adopted {m : Tallies UInt8 Entry} {order : RangeOrder (Vote UInt8)} :
    (adoptShardBits cfg m order now p).adopted =
      { p.adopted with shardBits := (adoptShardBits cfg m order now p).adopted.shardBits } := by
  rw [adoptShardBits_eq]
  obtain ⟨_, _, _, _, -, hadopted⟩ := TopField.shardBits.exists_adopt cfg now p m order
  rw [hadopted]
  rfl

theorem adoptSourceMode_adopted {m : Tallies Bool Entry} {order : RangeOrder (Vote Bool)} :
    (adoptSourceMode cfg m order now p).adopted =
      { p.adopted with
        sourceModeSSM := (adoptSourceMode cfg m order now p).adopted.sourceModeSSM } := by
  rw [adoptSourceMode_eq]
  obtain ⟨_, _, _, _, -, hadopted⟩ := TopField.sourceMode.exists_adopt cfg now p m order
  rw [hadopted]
  rfl

theorem adoptSuccessor_adopted {m : Tallies SuccessorKey Entry}
    {order : RangeOrder (Vote SuccessorKey)} :
    (adoptSuccessor cfg m order now p).adopted =
      { p.adopted with successor := (adoptSuccessor cfg m order now p).adopted.successor } := by
  rw [adoptSuccessor]
  split
  · split
    · dsimp only
      split <;> rfl
    · rfl
  · rfl

theorem adoptSourceMode_shardBits {m : Tallies Bool Entry} {order : RangeOrder (Vote Bool)} :
    (adoptSourceMode cfg m order now p).out.shardBits = p.out.shardBits ∧
      (adoptSourceMode cfg m order now p).adopted.shardBits = p.adopted.shardBits := by
  obtain ⟨_, _, _, hout⟩ := @exists_adoptSourceMode_out cfg now p m order
  rw [hout, adoptSourceMode_adopted]
  exact ⟨rfl, rfl⟩

theorem adoptShardBits_out_successor {m : Tallies UInt8 Entry} {order : RangeOrder (Vote UInt8)} :
    (adoptShardBits cfg m order now p).out.successor = p.out.successor := by
  obtain ⟨_, _, _, hout⟩ := @exists_adoptShardBits_out cfg now p m order
  rw [hout]

theorem adoptSourceMode_out_successor {m : Tallies Bool Entry} {order : RangeOrder (Vote Bool)} :
    (adoptSourceMode cfg m order now p).out.successor = p.out.successor := by
  obtain ⟨_, _, _, hout⟩ := @exists_adoptSourceMode_out cfg now p m order
  rw [hout]

theorem adoptSuccessor_shardBits {m : Tallies SuccessorKey Entry}
    {order : RangeOrder (Vote SuccessorKey)} :
    (adoptSuccessor cfg m order now p).out.shardBits = p.out.shardBits ∧
      (adoptSuccessor cfg m order now p).adopted.shardBits = p.adopted.shardBits := by
  obtain ⟨_, _, hout⟩ := @exists_adoptSuccessor_out cfg now p m order
  rw [hout, adoptSuccessor_adopted]
  exact ⟨rfl, rfl⟩

theorem adoptSuccessor_sourceModeSSM {m : Tallies SuccessorKey Entry}
    {order : RangeOrder (Vote SuccessorKey)} :
    (adoptSuccessor cfg m order now p).out.sourceModeSSM = p.out.sourceModeSSM ∧
      (adoptSuccessor cfg m order now p).adopted.sourceModeSSM = p.adopted.sourceModeSSM := by
  obtain ⟨_, _, hout⟩ := @exists_adoptSuccessor_out cfg now p m order
  rw [hout, adoptSuccessor_adopted]
  exact ⟨rfl, rfl⟩

/-! ## The loop over planes -/

theorem adoptDomainShardBits_timers {order : RangeOrder (Vote UInt8)} {s : Plane}
    (h : k.field ≠ .domainShardBits id) :
    (adoptDomainShardBits cfg snap order now id s).2 k = s.2 k := by
  rw [adoptDomainShardBits_eq]
  exact PlaneField.adopt_timers h

theorem adoptDomainSourceMode_timers {order : RangeOrder (Vote Bool)} {s : Plane}
    (h : k.field ≠ .domainSourceMode id) :
    (adoptDomainSourceMode cfg snap order now id s).2 k = s.2 k := by
  rw [adoptDomainSourceMode_eq]
  exact PlaneField.adopt_timers h

theorem adoptDomainSuccessor_timers {order : RangeOrder (Vote SuccessorKey)} {s : Plane}
    (h : k.field ≠ .domainSuccessor id) :
    (adoptDomainSuccessor cfg snap order now id s).2 k = s.2 k := by
  rw [adoptDomainSuccessor]
  dsimp only
  split
  · split
    · split <;> exact hysteresisElapsed_of_field h
    · rfl
  · split
    · exact resetField_of_ne h
    · rfl

theorem evaluateDomain_timers {s : Plane} (h : k.field.plane? ≠ some id) :
    (evaluateDomain cfg snap orders now id s).2 k = s.2 k := by
  have hbits : k.field ≠ .domainShardBits id := fun heq => h (by rw [heq]; rfl)
  have hmode : k.field ≠ .domainSourceMode id := fun heq => h (by rw [heq]; rfl)
  have hsucc : k.field ≠ .domainSuccessor id := fun heq => h (by rw [heq]; rfl)
  rw [evaluateDomain]
  split
  · rfl
  split
  · rfl
  · rw [adoptDomainSuccessor_timers hsucc, adoptDomainSourceMode_timers hmode,
      adoptDomainShardBits_timers hbits]

/-- Two passes with the same top level. -/
structure SameTop (p q : Pass) : Prop where
  shardBits : q.out.shardBits = p.out.shardBits
  sourceModeSSM : q.out.sourceModeSSM = p.out.sourceModeSSM
  successor : q.out.successor = p.out.successor
  adoptedShardBits : q.adopted.shardBits = p.adopted.shardBits
  adoptedSourceModeSSM : q.adopted.sourceModeSSM = p.adopted.sourceModeSSM
  adoptedSuccessor : q.adopted.successor = p.adopted.successor
  timers : ∀ k, k.field.plane? = none → q.timers k = p.timers k

theorem SameTop.trans (h : SameTop p q) (h' : SameTop q r) : SameTop p r where
  shardBits := h'.shardBits.trans h.shardBits
  sourceModeSSM := h'.sourceModeSSM.trans h.sourceModeSSM
  successor := h'.successor.trans h.successor
  adoptedShardBits := h'.adoptedShardBits.trans h.adoptedShardBits
  adoptedSourceModeSSM := h'.adoptedSourceModeSSM.trans h.adoptedSourceModeSSM
  adoptedSuccessor := h'.adoptedSuccessor.trans h.adoptedSuccessor
  timers k hk := (h'.timers k hk).trans (h.timers k hk)

theorem sameTop_evaluateDomainRound :
    SameTop p (evaluateDomainRound cfg snap orders now p id) := by
  refine ⟨rfl, rfl, rfl, rfl, rfl, rfl, ?_⟩
  intro k hk
  apply evaluateDomain_timers
  rw [hk]
  nofun

theorem sameTop_evaluateDomains : SameTop p (evaluateDomains cfg snap orders now p) := by
  rw [evaluateDomains]
  generalize orders.ids.visit (domainIDs cfg snap p.adopted) = ids
  induction ids generalizing p with
  | nil => exact ⟨rfl, rfl, rfl, rfl, rfl, rfl, fun _ _ => rfl⟩
  | cons id ids ih =>
      rw [List.foldl_cons]
      exact sameTop_evaluateDomainRound.trans ih

/-! ## The top level of a call -/

/-- A call up to its successor block, when width and source mode are settled. -/
def Evaluator.beforeSuccessor (e : Evaluator) (snap : List Entry) (now : Int) (orders : Orders) :
    Pass :=
  adoptSourceMode e.cfg (.ofVotes (sourceModeVotes snap)) orders.sourceMode now
    (adoptShardBits e.cfg (.ofVotes (shardBitsVotes snap)) orders.shardBits now
      ⟨freshView snap, e.timers, e.adopted⟩)

theorem beforeSuccessor_out_successor : (e.beforeSuccessor snap now orders).out.successor = none := by
  rw [Evaluator.beforeSuccessor, adoptSourceMode_out_successor, adoptShardBits_out_successor]
  rfl

theorem beforeSuccessor_adopted_successor :
    (e.beforeSuccessor snap now orders).adopted.successor = e.adopted.successor := by
  rw [Evaluator.beforeSuccessor, adoptSourceMode_adopted, adoptShardBits_adopted]

theorem beforeSuccessor_timers (value : UInt64) :
    (e.beforeSuccessor snap now orders).timers ⟨.successor, value⟩ =
      e.timers ⟨.successor, value⟩ := by
  rw [Evaluator.beforeSuccessor, adoptSourceMode_timers (by rintro ⟨⟩),
    adoptShardBits_timers (by rintro ⟨⟩)]

/-- The pass after the top-level blocks. -/
def Evaluator.topPass (e : Evaluator) (snap : List Entry) (now : Int) (orders : Orders) : Pass :=
  adoptSuccessor e.cfg (.ofVotes (successorVotes snap)) orders.successor now
    (adoptSourceMode e.cfg (.ofVotes (sourceModeVotes snap)) orders.sourceMode now
      (adoptShardBits e.cfg (.ofVotes (shardBitsVotes snap)) orders.shardBits now
        ⟨freshView snap, e.timers, e.adopted⟩))

theorem topPass_eq : e.topPass snap now orders =
    adoptSuccessor e.cfg (.ofVotes (successorVotes snap)) orders.successor now
      (e.beforeSuccessor snap now orders) := rfl

theorem sameTop_pass : SameTop (e.topPass snap now orders) (e.pass snap now orders) :=
  sameTop_evaluateDomains

end ShardCommon.Manifest
