import Mathlib.Logic.Function.Basic
import ShardCommon.Lib.Tally
import ShardCommon.ShardManifest

/-!
# The manifest evaluator

`manifest/evaluator.go` and `manifest/domains.go`: what a consumer adopts from a registry snapshot.
A call counts the authoritative announcers of each candidate value, picks the candidate with the
most votes, and adopts it once it has held quorum for the hysteresis window. Go visits its maps in
an arbitrary order, so a call takes the orders of its scans as an argument. Times are integers in
nanoseconds.
-/

namespace ShardCommon.Manifest

open ShardCommon.Frame

/-- What the evaluator reads of a registry entry. -/
structure Entry where
  flags : UInt8
  shardBits : UInt8
  announceInterval : UInt16
  sources : List (FixedBytes 16)
  groups : List UInt16
  successor : Option SuccessorBlock
  domains : List DomainDescriptor
  deriving DecidableEq, Inhabited

def Entry.authoritative (en : Entry) : Bool := hasFlag en.flags flagAuthoritative

def Entry.sourceModeSSM (en : Entry) : Bool := hasFlag en.flags flagSourceModeSSM

def Entry.pilotOnly (en : Entry) : Bool := hasFlag en.flags flagPilotOnly

/-- The names under which candidates are timed and reported. -/
inductive Field where
  | shardBits
  | sourceMode
  | successor
  | domainShardBits (id : UInt8)
  | domainSourceMode (id : UInt8)
  | domainSuccessor (id : UInt8)
  deriving DecidableEq

def Field.name : Field → String
  | shardBits => "shard_bits"
  | sourceMode => "source_mode"
  | successor => "successor"
  | domainShardBits id => s!"domain_{id}_shard_bits"
  | domainSourceMode id => s!"domain_{id}_source_mode"
  | domainSuccessor id => s!"domain_{id}_successor"

structure FieldKey where
  field : Field
  value : UInt64
  deriving DecidableEq

/-- The time each candidate was first seen with quorum. -/
abbrev Timers := FieldKey → Option Int

structure SuccessorView where
  generationID : FixedBytes 16
  shardBits : UInt8
  sourceModeSSM : Bool
  transitionEpoch : UInt32
  firstObservedQuorumAt : Int
  deriving DecidableEq

/-- The tuple that Successor votes are counted by. -/
structure SuccessorKey where
  gen : FixedBytes 16
  shardBits : UInt8
  transitionEpoch : UInt32
  ssm : Bool
  deriving DecidableEq

instance : Inhabited SuccessorKey := ⟨⟨.copy 16 [], 0, 0, false⟩⟩

def successorKey (s : SuccessorBlock) : SuccessorKey :=
  ⟨s.generationID, s.shardBits, s.transitionEpoch, hasFlag s.flags successorFlagSourceModeSSM⟩

def successorHash (sk : SuccessorKey) : UInt64 :=
  let h := sk.gen.val.foldl (fun h b => h * 131 + b.toUInt64) 0
  let h := h * 131 + sk.shardBits.toUInt64
  let h := h * 131 + sk.transitionEpoch.toUInt64
  if sk.ssm then h * 131 + 1 else h

def SuccessorKey.view (sk : SuccessorKey) (now : Int) : SuccessorView :=
  ⟨sk.gen, sk.shardBits, sk.ssm, sk.transitionEpoch, now⟩

structure DomainAdoption where
  shardBits : UInt8
  sourceModeSSM : Bool
  successor : Option SuccessorView
  quorumMet : Bool
  divergent : Bool
  deriving DecidableEq

instance : Inhabited DomainAdoption := ⟨⟨0, false, none, false, false⟩⟩

/-- The view a call returns. -/
structure Adopted where
  shardBits : UInt8
  sourceModeSSM : Bool
  pilotGroups : List UInt16
  sourceSet : List (FixedBytes 16)
  successor : Option SuccessorView
  pilotsKnown : Nat
  quorumMet : Field → Option Bool
  divergenceFields : List String
  domains : UInt8 → Option DomainAdoption

/-- The last-adopted values an evaluator keeps. -/
structure Retained where
  shardBits : UInt8
  sourceModeSSM : Bool
  successor : Option SuccessorView
  domains : UInt8 → Option DomainAdoption

/-- Operator pins; `none` is a field that is not pinned. -/
structure Pin where
  shardBits : Option UInt8
  sourceModeSSM : Option Bool
  domainShardBits : UInt8 → Option UInt8

structure EvaluatorConfig where
  quorum : Int
  hysteresis : Int
  pin : Pin

/-- An evaluator; construction leaves no quorum below one. -/
structure Evaluator where
  cfg : EvaluatorConfig
  quorum_pos : 0 < cfg.quorum
  timers : Timers
  adopted : Retained

def newEvaluator (cfg : EvaluatorConfig) : Evaluator where
  cfg := if cfg.quorum ≤ 0 then { cfg with quorum := 2 } else cfg
  quorum_pos := by
    split
    · exact (by decide : (0 : Int) < 2)
    · omega
  timers := fun _ => none
  adopted := ⟨0, false, none, fun _ => none⟩

/-! ## Votes -/

abbrev Vote (K : Type) := Sigma fun _ : K => Tally Entry

/-- The orders in which one call visits its maps. -/
structure Orders where
  shardBits : RangeOrder (Vote UInt8)
  sourceMode : RangeOrder (Vote Bool)
  successor : RangeOrder (Vote SuccessorKey)
  domainShardBits : UInt8 → RangeOrder (Vote UInt8)
  domainSourceMode : UInt8 → RangeOrder (Vote Bool)
  domainSuccessor : UInt8 → RangeOrder (Vote SuccessorKey)
  ids : RangeOrder UInt8

def authorities (snap : List Entry) : List Entry := snap.filter (·.authoritative)

def shardBitsVotes (snap : List Entry) : List (UInt8 × Entry) :=
  (authorities snap).map fun en => (en.shardBits, en)

def sourceModeVotes (snap : List Entry) : List (Bool × Entry) :=
  (authorities snap).map fun en => (en.sourceModeSSM, en)

def successorVotes (snap : List Entry) : List (SuccessorKey × Entry) :=
  (authorities snap).filterMap fun en => en.successor.map fun s => (successorKey s, en)

/-- The descriptors of one plane, with the entries that carry them. Plane zero has none: the
top-level fields govern it. -/
def descriptors (snap : List Entry) (id : UInt8) : List (DomainDescriptor × Entry) :=
  (authorities snap).flatMap fun en =>
    (en.domains.filter fun d => d.domainID ≠ 0 ∧ d.domainID = id).map fun d => (d, en)

def domainShardBitsVotes (snap : List Entry) (id : UInt8) : List (UInt8 × Entry) :=
  (descriptors snap id).map fun p => (p.1.shardBits, p.2)

def domainSourceModeVotes (snap : List Entry) (id : UInt8) : List (Bool × Entry) :=
  (descriptors snap id).map fun p => (hasFlag p.1.flags domainFlagSourceModeSSM, p.2)

def domainSuccessorVotes (snap : List Entry) (id : UInt8) : List (SuccessorKey × Entry) :=
  (descriptors snap id).filterMap fun p => p.1.successor.map fun s => (successorKey s, p.2)

def bestCandidate (visited : List (Vote UInt8)) (quorum : Int) : Option UInt8 :=
  Tallies.best visited quorum

def bestCandidateBool (visited : List (Vote Bool)) (quorum : Int) : Option Bool :=
  Tallies.best visited quorum

def bestSuccessor (visited : List (Vote SuccessorKey)) (quorum : Int) : Option SuccessorKey :=
  Tallies.best visited quorum

/-- `m[v].exemplar`. -/
def exemplar {K : Type} [DecidableEq K] (m : Tallies K Entry) (v : K) : Entry :=
  ((m.lookup v).map (·.exemplar)).getD default

def hasMultipleCandidates {K : Type} (m : Tallies K Entry) : Bool := decide (1 < m.entries.length)

def hasNonPinDisagreement {K : Type} [DecidableEq K] (m : Tallies K Entry) (pin : K) : Bool :=
  m.entries.any fun p => p.1 ≠ pin

/-! ## Hysteresis -/

def second : Int := 1000000000

/-- The first sight of a candidate starts its timer; later ones compare it with the window. -/
def hysteresisElapsed (cfg : EvaluatorConfig) (timers : Timers) (k : FieldKey) (now : Int)
    (en : Entry) : Bool × Timers :=
  match timers k with
  | none =>
    (decide (cfg.hysteresis = 0 ∧ en.announceInterval = 0), Function.update timers k (some now))
  | some first =>
    let window := if cfg.hysteresis = 0 then 2 * en.announceInterval.toNat * second
      else cfg.hysteresis
    (decide (window ≤ now - first), timers)

def checkHysteresis (timers : Timers) (k : FieldKey) (now : Int) : Int := (timers k).getD now

/-- Drops the timers of every candidate of a field. -/
def resetField (timers : Timers) (field : Field) : Timers :=
  fun k => if k.field = field then none else timers k

def boolToUint64 (b : Bool) : UInt64 := if b then 1 else 0

/-! ## Adoption -/

/-- A call in progress: the view under construction and the evaluator's two maps. -/
structure Pass where
  out : Adopted
  timers : Timers
  adopted : Retained

def Adopted.setQuorumMet (out : Adopted) (field : Field) (met : Bool) : Adopted :=
  { out with quorumMet := Function.update out.quorumMet field (some met) }

def Adopted.addDivergence (out : Adopted) (field : Field) (divergent : Bool) : Adopted :=
  { out with
    divergenceFields :=
      if divergent then out.divergenceFields ++ [field.name] else out.divergenceFields }

def adoptShardBits (cfg : EvaluatorConfig) (m : Tallies UInt8 Entry) (order : RangeOrder (Vote UInt8))
    (now : Int) (p : Pass) : Pass :=
  match cfg.pin.shardBits with
  | some pin =>
    let out := { p.out with shardBits := pin }.setQuorumMet .shardBits true
    { p with out := out.addDivergence .shardBits (hasNonPinDisagreement m pin) }
  | none =>
    match bestCandidate (order.visit m.entries) cfg.quorum with
    | some v =>
      let out := p.out.setQuorumMet .shardBits true
      let key : FieldKey := ⟨.shardBits, v.toUInt64⟩
      let adoptedOut := { out with shardBits := v }
      let keptOut := { out with shardBits := p.adopted.shardBits }
      if 0 ≤ now - checkHysteresis p.timers key now then
        let elapsed := hysteresisElapsed cfg p.timers key now (exemplar m v)
        if elapsed.1 then
          ⟨adoptedOut.addDivergence .shardBits (hasMultipleCandidates m), elapsed.2,
            { p.adopted with shardBits := v }⟩
        else ⟨keptOut.addDivergence .shardBits (hasMultipleCandidates m), elapsed.2, p.adopted⟩
      else { p with out := keptOut.addDivergence .shardBits (hasMultipleCandidates m) }
    | none =>
      let out := { p.out with shardBits := p.adopted.shardBits }.setQuorumMet .shardBits false
      { p with out := out.addDivergence .shardBits (hasMultipleCandidates m) }

def adoptSourceMode (cfg : EvaluatorConfig) (m : Tallies Bool Entry) (order : RangeOrder (Vote Bool))
    (now : Int) (p : Pass) : Pass :=
  match cfg.pin.sourceModeSSM with
  | some pin =>
    let out := { p.out with sourceModeSSM := pin }.setQuorumMet .sourceMode true
    { p with out := out.addDivergence .sourceMode (hasNonPinDisagreement m pin) }
  | none =>
    match bestCandidateBool (order.visit m.entries) cfg.quorum with
    | some v =>
      let out := p.out.setQuorumMet .sourceMode true
      let adoptedOut := { out with sourceModeSSM := v }
      let keptOut := { out with sourceModeSSM := p.adopted.sourceModeSSM }
      let elapsed := hysteresisElapsed cfg p.timers ⟨.sourceMode, boolToUint64 v⟩ now (exemplar m v)
      if elapsed.1 then
        ⟨adoptedOut.addDivergence .sourceMode (hasMultipleCandidates m), elapsed.2,
          { p.adopted with sourceModeSSM := v }⟩
      else ⟨keptOut.addDivergence .sourceMode (hasMultipleCandidates m), elapsed.2, p.adopted⟩
    | none =>
      let out := { p.out with sourceModeSSM := p.adopted.sourceModeSSM }
      { p with out := out.setQuorumMet .sourceMode false }

/-- The retained view is replaced only by one of another generation. -/
def replaceSuccessor (retained : Option SuccessorView) (sv : SuccessorKey) (now : Int) :
    SuccessorView :=
  match retained with
  | some view => if view.generationID ≠ sv.gen then sv.view now else view
  | none => sv.view now

def adoptSuccessor (cfg : EvaluatorConfig) (m : Tallies SuccessorKey Entry)
    (order : RangeOrder (Vote SuccessorKey)) (now : Int) (p : Pass) : Pass :=
  match bestSuccessor (order.visit m.entries) cfg.quorum with
  | some sv =>
    if withinOneBit p.out.shardBits sv.shardBits then
      let out := p.out.setQuorumMet .successor true
      let elapsed := hysteresisElapsed cfg p.timers ⟨.successor, successorHash sv⟩ now (exemplar m sv)
      if elapsed.1 then
        let view := replaceSuccessor p.adopted.successor sv now
        ⟨{ out with successor := some view }, elapsed.2, { p.adopted with successor := some view }⟩
      else ⟨out, elapsed.2, p.adopted⟩
    else p
  | none =>
    ⟨{ p.out with successor := none }, resetField p.timers .successor,
      { p.adopted with successor := none }⟩

/-! ## Planes -/

/-- Every plane that is announced, pinned or already adopted. -/
def domainIDs (cfg : EvaluatorConfig) (snap : List Entry) (adopted : Retained) : List UInt8 :=
  ((List.range 256).map UInt8.ofNat).filter fun id =>
    !(descriptors snap id).isEmpty || (id ≠ 0 && (cfg.pin.domainShardBits id).isSome) ||
      (adopted.domains id).isSome

/-- A plane's view and the timers. -/
abbrev Plane := DomainAdoption × Timers

def adoptDomainShardBits (cfg : EvaluatorConfig) (snap : List Entry)
    (order : RangeOrder (Vote UInt8)) (now : Int) (id : UInt8) (s : Plane) : Plane :=
  let m := Tallies.ofVotes (domainShardBitsVotes snap id)
  let divergent := hasMultipleCandidates m
  match bestCandidate (order.visit m.entries) cfg.quorum with
  | some v =>
    let elapsed := hysteresisElapsed cfg s.2 ⟨.domainShardBits id, v.toUInt64⟩ now (exemplar m v)
    ({ s.1 with
        shardBits := if elapsed.1 then v else s.1.shardBits
        quorumMet := true
        divergent := divergent }, elapsed.2)
  | none => ({ s.1 with quorumMet := false, divergent := divergent }, s.2)

def adoptDomainSourceMode (cfg : EvaluatorConfig) (snap : List Entry)
    (order : RangeOrder (Vote Bool)) (now : Int) (id : UInt8) (s : Plane) : Plane :=
  let m := Tallies.ofVotes (domainSourceModeVotes snap id)
  match bestCandidateBool (order.visit m.entries) cfg.quorum with
  | some v =>
    let elapsed := hysteresisElapsed cfg s.2 ⟨.domainSourceMode id, boolToUint64 v⟩ now
      (exemplar m v)
    ({ s.1 with sourceModeSSM := if elapsed.1 then v else s.1.sourceModeSSM }, elapsed.2)
  | none => s

/-- Unlike at the top level, a plane keeps its successor until nobody announces one. -/
def adoptDomainSuccessor (cfg : EvaluatorConfig) (snap : List Entry)
    (order : RangeOrder (Vote SuccessorKey)) (now : Int) (id : UInt8) (s : Plane) : Plane :=
  let m := Tallies.ofVotes (domainSuccessorVotes snap id)
  match bestSuccessor (order.visit m.entries) cfg.quorum with
  | some sv =>
    if withinOneBit s.1.shardBits sv.shardBits then
      let elapsed := hysteresisElapsed cfg s.2 ⟨.domainSuccessor id, successorHash sv⟩ now
        (exemplar m sv)
      if elapsed.1 then
        ({ s.1 with successor := some (replaceSuccessor s.1.successor sv now) }, elapsed.2)
      else (s.1, elapsed.2)
    else s
  | none =>
    if m.entries.length = 0 then
      ({ s.1 with successor := none }, resetField s.2 (.domainSuccessor id))
    else s

def evaluateDomain (cfg : EvaluatorConfig) (snap : List Entry) (orders : Orders) (now : Int)
    (id : UInt8) (s : Plane) : Plane :=
  match cfg.pin.domainShardBits id with
  | some pin =>
    let m := Tallies.ofVotes (domainShardBitsVotes snap id)
    ({ s.1 with
        shardBits := pin
        quorumMet := true
        divergent := hasNonPinDisagreement m pin }, s.2)
  | none =>
    if (descriptors snap id).isEmpty then ({ s.1 with quorumMet := false, divergent := false }, s.2)
    else
      adoptDomainSuccessor cfg snap (orders.domainSuccessor id) now id
        (adoptDomainSourceMode cfg snap (orders.domainSourceMode id) now id
          (adoptDomainShardBits cfg snap (orders.domainShardBits id) now id s))

/-- One round of the loop over planes. -/
def evaluateDomainRound (cfg : EvaluatorConfig) (snap : List Entry) (orders : Orders) (now : Int)
    (p : Pass) (id : UInt8) : Pass :=
  let s := evaluateDomain cfg snap orders now id ((p.adopted.domains id).getD default, p.timers)
  let out := (p.out.addDivergence (.domainShardBits id) s.1.divergent).setQuorumMet
    (.domainShardBits id) s.1.quorumMet
  ⟨{ out with domains := Function.update out.domains id (some s.1) }, s.2,
    { p.adopted with domains := Function.update p.adopted.domains id (some s.1) }⟩

def evaluateDomains (cfg : EvaluatorConfig) (snap : List Entry) (orders : Orders) (now : Int)
    (p : Pass) : Pass :=
  (orders.ids.visit (domainIDs cfg snap p.adopted)).foldl
    (evaluateDomainRound cfg snap orders now) p

/-! ## A call -/

def sortAddrs (addrs : List (FixedBytes 16)) : List (FixedBytes 16) :=
  addrs.dedup.mergeSort fun a b => BigEndian.toNat a.val ≤ BigEndian.toNat b.val

def sortUint16s (groups : List UInt16) : List UInt16 := groups.dedup.mergeSort fun a b => a ≤ b

def pilotGroups (snap : List Entry) : List UInt16 :=
  sortUint16s (((authorities snap).filter (·.pilotOnly)).flatMap (·.groups))

/-- The view before any field is adopted. -/
def freshView (snap : List Entry) : Adopted where
  shardBits := 0
  sourceModeSSM := false
  pilotGroups := pilotGroups snap
  sourceSet := sortAddrs (snap.flatMap (·.sources))
  successor := none
  pilotsKnown := (authorities snap).length
  quorumMet := fun _ => none
  divergenceFields := []
  domains := fun _ => none

namespace Evaluator

def pass (e : Evaluator) (snap : List Entry) (now : Int) (orders : Orders) : Pass :=
  evaluateDomains e.cfg snap orders now
    (adoptSuccessor e.cfg (.ofVotes (successorVotes snap)) orders.successor now
      (adoptSourceMode e.cfg (.ofVotes (sourceModeVotes snap)) orders.sourceMode now
        (adoptShardBits e.cfg (.ofVotes (shardBitsVotes snap)) orders.shardBits now
          ⟨freshView snap, e.timers, e.adopted⟩)))

def evaluate (e : Evaluator) (snap : List Entry) (now : Int) (orders : Orders) :
    Adopted × Evaluator :=
  let p := e.pass snap now orders
  ({ p.out with divergenceFields := p.out.divergenceFields.mergeSort fun a b => a ≤ b },
    { e with timers := p.timers, adopted := p.adopted })

end Evaluator

end ShardCommon.Manifest
