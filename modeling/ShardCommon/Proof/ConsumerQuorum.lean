import ShardCommon.Proof.EvaluatorSuccessor
import ShardCommon.Proof.EvaluatorCalls
import ShardCommon.Proof.ManifestRoundTrip
import ShardCommon.Proof.Registry

/-!
# Adoption needs a quorum of distinct announcers

The decoder refuses a manifest that names a plane twice and the registry keeps one entry for each
source and instance, so a tally counts announcers. What a consumer returns is what it returned before,
or a value that a quorum of them announces now.
-/

namespace ShardCommon.Manifest

open ShardCommon.Frame ShardCommon.Netip

variable {cfg : EvaluatorConfig} {e : Evaluator} {snap : List Entry} {orders : Orders} {now : Int}
  {p : Pass} {s : Plane} {id : UInt8}

/-! ## Votes as announcements -/

def Entry.descriptor? (en : Entry) (id : UInt8) : Option DomainDescriptor :=
  en.domains.find? fun d => d.domainID = id

/-- The entries name no plane twice. -/
def PlanesOnce (snap : List Entry) : Prop := ∀ en ∈ snap, (en.domains.map (·.domainID)).Nodup

/-- The votes of a plane are those of the one descriptor that each entry can have of it. -/
theorem filterMap_descriptors {K : Type} (hid : id ≠ 0) (h : PlanesOnce snap)
    (announced : DomainDescriptor → Option K) :
    (descriptors snap id).filterMap (fun p => (announced p.1).map fun v => (v, p.2)) =
      announcements (fun en => (en.descriptor? id).bind announced) snap := by
  rw [descriptors, List.filterMap_flatMap, announcements, List.filterMap_eq_flatMap_toList]
  apply List.flatMap_congr
  intro en hen
  have honce := h en (List.mem_filter.mp hen).1
  rw [filter_domainID hid, DistinctKeys.filter_eq_toList_find? honce, ← Entry.descriptor?]
  cases en.descriptor? id with
  | none => rfl
  | some d => cases hd : announced d <;> simp [hd]

theorem domainShardBitsVotes_eq_announcements (hid : id ≠ 0) (h : PlanesOnce snap) :
    domainShardBitsVotes snap id =
      announcements (fun en => (en.descriptor? id).bind fun d => some d.shardBits) snap := by
  rw [← filterMap_descriptors hid h, domainShardBitsVotes, ← List.filterMap_eq_map]
  rfl

theorem domainSourceModeVotes_eq_announcements (hid : id ≠ 0) (h : PlanesOnce snap) :
    domainSourceModeVotes snap id = announcements (fun en =>
      (en.descriptor? id).bind fun d => some (hasFlag d.flags domainFlagSourceModeSSM)) snap := by
  rw [← filterMap_descriptors hid h, domainSourceModeVotes, ← List.filterMap_eq_map]
  rfl

theorem domainSuccessorVotes_eq_announcements (hid : id ≠ 0) (h : PlanesOnce snap) :
    domainSuccessorVotes snap id = announcements (fun en =>
      (en.descriptor? id).bind fun d => d.successor.map successorKey) snap := by
  rw [← filterMap_descriptors hid h]
  simp only [domainSuccessorVotes, Option.map_map]
  rfl

/-! ## Retained or selected -/

theorem evaluateDomain_backed (hpin : cfg.pin.domainShardBits id = none) :
    let t := evaluateDomain cfg snap orders now id s
    (t.1.shardBits = s.1.shardBits ∨ bestCandidate ((orders.domainShardBits id).visit
      (Tallies.ofVotes (domainShardBitsVotes snap id)).entries) cfg.quorum = some t.1.shardBits) ∧
    (t.1.sourceModeSSM = s.1.sourceModeSSM ∨ bestCandidateBool ((orders.domainSourceMode id).visit
      (Tallies.ofVotes (domainSourceModeVotes snap id)).entries) cfg.quorum =
        some t.1.sourceModeSSM) := by
  intro t
  by_cases hnil : descriptors snap id = []
  · have ht : t = ({ s.1 with quorumMet := false, divergent := false }, s.2) := by
      rw [show t = evaluateDomain cfg snap orders now id s from rfl, evaluateDomain, hpin, hnil]
      rfl
    rw [ht]
    exact ⟨.inl rfl, .inl rfl⟩
  · have ht := @evaluateDomain_of_unpinned cfg snap orders now id s hpin hnil
    rw [show t = evaluateDomain cfg snap orders now id s from rfl, ht, adoptDomainSuccessor_others.1,
      adoptDomainSuccessor_others.2, adoptDomainSourceMode_others.1]
    constructor
    · exact adoptDomainShardBits_cases.imp_right And.left
    · have hbefore := (@adoptDomainShardBits_others cfg snap now id (orders.domainShardBits id) s).1
      rw [adoptDomainSourceMode_eq, ← hbefore]
      exact (PlaneField.adopt_cases (f := .sourceMode id)).imp_right And.left

/-! ## Distinct announcers -/

/-- At least `quorum` authorities of the snapshot, under distinct keys, announce the value. -/
def Announced {K : Type} (quorum : Int) (snap : List Registered) (announced : Entry → Option K)
    (value : K) : Prop :=
  ∃ backers : List Registered, backers.Sublist snap ∧ quorum ≤ backers.length ∧
    (backers.map (·.key)).Nodup ∧
    ∀ r ∈ backers, r.entry.authoritative = true ∧ announced r.entry = some value

/-- A tally counts, for each candidate, the authorities of the snapshot that announce it. -/
def CountedOnce {K : Type} [DecidableEq K] (votes : List (K × Entry)) (snap : List Registered)
    (announced : Entry → Option K) : Prop :=
  ∀ value t, (Tallies.ofVotes votes).lookup value = some t →
    t.count = (snap.filter fun r => r.entry.authoritative ∧ announced r.entry = some value).length

section Announcers

variable {K : Type} [DecidableEq K] {snap : List Registered} {announced : Entry → Option K}

theorem countedOnce_announcements :
    CountedOnce (announcements announced (snap.map (·.entry))) snap announced := by
  intro value t ht
  rw [(Tallies.count_of_lookup ht).1, length_voters_announcements, authorities, List.countP_filter,
    List.countP_map, List.countP_eq_length_filter]
  congr 1
  apply List.filter_congr
  intro r _
  simp [Bool.and_comm]

theorem countedOnce_nil : CountedOnce ([] : List (K × Entry)) snap announced := by
  intro value t ht
  cases ht

theorem CountedOnce.announced_of_best [Inhabited K] {votes : List (K × Entry)} {quorum : Int}
    {order : RangeOrder (Vote K)} {value : K} (h : CountedOnce votes snap announced)
    (hkeys : (snap.map (·.key)).Nodup) (hquorum : 0 < quorum)
    (hbest : Tallies.best (order.visit (Tallies.ofVotes votes).entries) quorum = some value) :
    Announced quorum snap announced value := by
  obtain ⟨t, ht, hcount, -⟩ := Tallies.leads_of_best hquorum order hbest
  rw [h value t ht] at hcount
  refine ⟨_, List.filter_sublist, hcount, hkeys.sublist (List.filter_sublist.map _), ?_⟩
  intro r hr
  simpa using (List.mem_filter.mp hr).2

end Announcers

/-- No entry is counted twice for the same field of the top level or of a plane. -/
structure FieldsCounted (snap : List Registered) : Prop where
  shardBits : CountedOnce (shardBitsVotes (snap.map (·.entry))) snap fun en => some en.shardBits
  sourceMode : CountedOnce (sourceModeVotes (snap.map (·.entry))) snap
    fun en => some en.sourceModeSSM
  successor : CountedOnce (successorVotes (snap.map (·.entry))) snap
    fun en => en.successor.map successorKey
  planeShardBits : ∀ id, CountedOnce (domainShardBitsVotes (snap.map (·.entry)) id) snap
    fun en => (en.descriptor? id).bind fun d => some d.shardBits
  planeSourceMode : ∀ id, CountedOnce (domainSourceModeVotes (snap.map (·.entry)) id) snap
    fun en => (en.descriptor? id).bind fun d => some (hasFlag d.flags domainFlagSourceModeSSM)
  planeSuccessor : ∀ id, CountedOnce (domainSuccessorVotes (snap.map (·.entry)) id) snap
    fun en => (en.descriptor? id).bind fun d => d.successor.map successorKey

theorem fieldsCounted {snap : List Registered} (h : PlanesOnce (snap.map (·.entry))) :
    FieldsCounted snap := by
  refine ⟨?_, ?_, ?_, fun id => ?_, fun id => ?_, fun id => ?_⟩
  · rw [shardBitsVotes_eq_announcements]
    exact countedOnce_announcements
  · rw [sourceModeVotes_eq_announcements]
    exact countedOnce_announcements
  · rw [successorVotes_eq_announcements]
    exact countedOnce_announcements
  · by_cases hid : id = 0
    · subst hid
      rw [domainShardBitsVotes, descriptors_zero]
      exact countedOnce_nil
    · rw [domainShardBitsVotes_eq_announcements hid h]
      exact countedOnce_announcements
  · by_cases hid : id = 0
    · subst hid
      rw [domainSourceModeVotes, descriptors_zero]
      exact countedOnce_nil
    · rw [domainSourceModeVotes_eq_announcements hid h]
      exact countedOnce_announcements
  · by_cases hid : id = 0
    · subst hid
      rw [domainSuccessorVotes, descriptors_zero]
      exact countedOnce_nil
    · rw [domainSuccessorVotes_eq_announcements hid h]
      exact countedOnce_announcements

/-! ## The registry -/

/-- Every entry was made of an accepted manifest, so none names a plane twice. -/
def Registry.Accepted (reg : Registry) : Prop :=
  ∀ item ∈ reg.entries.entries, (item.2.entry.domains.map (·.domainID)).Nodup

theorem Registry.accepted_iff_all {reg : Registry} :
    reg.Accepted ↔ reg.All fun en => (en.domains.map (·.domainID)).Nodup := Iff.rfl

theorem Registry.Accepted.snapshot {reg : Registry} (h : reg.Accepted) :
    PlanesOnce (reg.snapshot.map (·.entry)) :=
  List.forall_mem_map.mpr (Registry.accepted_iff_all.mp h).snapshot

theorem Registry.Accepted.upsert {reg : Registry} (h : reg.Accepted) {m : ShardManifest}
    (hm : WellFormed m) (now : Int) (src : Addr) : (reg.upsert now src m).2.Accepted :=
  (Registry.accepted_iff_all.mp h).upsert (nodup_domainID_of_wellFormed hm) now src

theorem Registry.Accepted.evict {reg : Registry} (h : reg.Accepted) (now : Int) :
    (reg.evict now).Accepted := (Registry.accepted_iff_all.mp h).evict now

/-! ## Runs of the consumer -/

/-- The planes of a view, with zero values for those it does not have. -/
def Adopted.plane (view : Adopted) (id : UInt8) : DomainAdoption := (view.domains id).getD default

/-- Each value is the one returned before, or has a quorum of distinct announcers. -/
structure Backed (quorum : Int) (prev : Adopted) (a : Answer) : Prop where
  shardBits : a.view.shardBits = prev.shardBits ∨
    Announced quorum a.snap (fun en => some en.shardBits) a.view.shardBits
  sourceMode : a.view.sourceModeSSM = prev.sourceModeSSM ∨
    Announced quorum a.snap (fun en => some en.sourceModeSSM) a.view.sourceModeSSM
  planeShardBits : ∀ id, (a.view.plane id).shardBits = (prev.plane id).shardBits ∨
    Announced quorum a.snap (fun en => (en.descriptor? id).bind fun d => some d.shardBits)
      (a.view.plane id).shardBits
  planeSourceMode : ∀ id, (a.view.plane id).sourceModeSSM = (prev.plane id).sourceModeSSM ∨
    Announced quorum a.snap
      (fun en => (en.descriptor? id).bind fun d => some (hasFlag d.flags domainFlagSourceModeSSM))
      (a.view.plane id).sourceModeSSM
  planes : ∀ id, (prev.domains id).isSome → (a.view.domains id).isSome

/-- The evaluator retains what it returned. -/
structure Remembers (e : Evaluator) (view : Adopted) : Prop where
  shardBits : e.adopted.shardBits = view.shardBits
  sourceMode : e.adopted.sourceModeSSM = view.sourceModeSSM
  domains : e.adopted.domains = view.domains

theorem evaluate_bits_backed (hpin : e.cfg.pin.shardBits = none) :
    let r := e.evaluate snap now orders
    r.2.adopted.shardBits = r.1.shardBits ∧ (r.1.shardBits = e.adopted.shardBits ∨
      selectedShardBits e.cfg snap orders = some r.1.shardBits) := by
  intro r
  let bitsPass := adoptShardBits e.cfg (.ofVotes (shardBitsVotes snap)) orders.shardBits now
    ⟨freshView snap, e.timers, e.adopted⟩
  have hview : r.1.shardBits = bitsPass.out.shardBits :=
    sameTop_evaluateDomains.shardBits.trans
      (adoptSuccessor_shardBits.1.trans adoptSourceMode_shardBits.1)
  have hretained : r.2.adopted.shardBits = bitsPass.adopted.shardBits :=
    sameTop_evaluateDomains.adoptedShardBits.trans
      (adoptSuccessor_shardBits.2.trans adoptSourceMode_shardBits.2)
  rw [hview, hretained, show bitsPass = _ from adoptShardBits_eq ..]
  exact TopField.adopt_backed (f := .shardBits) hpin

theorem evaluate_mode_backed (hpin : e.cfg.pin.sourceModeSSM = none) :
    let r := e.evaluate snap now orders
    r.2.adopted.sourceModeSSM = r.1.sourceModeSSM ∧
      (r.1.sourceModeSSM = e.adopted.sourceModeSSM ∨
        selectedSourceMode e.cfg snap orders = some r.1.sourceModeSSM) := by
  intro r
  let bitsPass := adoptShardBits e.cfg (.ofVotes (shardBitsVotes snap)) orders.shardBits now
    ⟨freshView snap, e.timers, e.adopted⟩
  let modePass := adoptSourceMode e.cfg (.ofVotes (sourceModeVotes snap)) orders.sourceMode now
    bitsPass
  have hview : r.1.sourceModeSSM = modePass.out.sourceModeSSM :=
    sameTop_evaluateDomains.sourceModeSSM.trans adoptSuccessor_sourceModeSSM.1
  have hretained : r.2.adopted.sourceModeSSM = modePass.adopted.sourceModeSSM :=
    sameTop_evaluateDomains.adoptedSourceModeSSM.trans adoptSuccessor_sourceModeSSM.2
  have hbefore : bitsPass.adopted.sourceModeSSM = e.adopted.sourceModeSSM := by
    rw [show bitsPass.adopted = { e.adopted with shardBits := bitsPass.adopted.shardBits } from
      adoptShardBits_adopted]
  rw [hview, hretained, ← hbefore, show modePass = _ from adoptSourceMode_eq ..]
  exact TopField.adopt_backed (f := .sourceMode) hpin

theorem remembers_evaluate (hpins : NoPins e.cfg) :
    Remembers (e.evaluate snap now orders).2 (e.evaluate snap now orders).1 where
  shardBits := (evaluate_bits_backed (by rw [hpins])).1
  sourceMode := (evaluate_mode_backed (by rw [hpins])).1
  domains := evaluate_retained

/-- One evaluation of a snapshot whose entries have distinct keys and name no plane twice. -/
theorem backed_evaluate {snap : List Registered} {prev : Adopted} (hpins : NoPins e.cfg)
    (hkeys : (snap.map (·.key)).Nodup) (honce : PlanesOnce (snap.map (·.entry)))
    (h : Remembers e prev) :
    Backed e.cfg.quorum prev ⟨snap, (e.evaluate (snap.map (·.entry)) now orders).1⟩ := by
  have hcounted := fieldsCounted honce
  have hplane : ∀ id, (e.plane id).1 = prev.plane id := by
    intro id
    rw [Evaluator.plane, h.domains]
    rfl
  have hview : ∀ id, (e.evaluate (snap.map (·.entry)) now orders).1.plane id =
      (evaluateDomain e.cfg (snap.map (·.entry)) orders now id (e.plane id)).1 :=
    fun id => evaluate_plane (.inr (by rw [hpins]))
  have hbacked := fun id =>
    @evaluateDomain_backed e.cfg (snap.map (·.entry)) orders now (e.plane id) id (by rw [hpins])
  refine ⟨?_, ?_, fun id => ?_, fun id => ?_, fun id hsome => ?_⟩
  · rw [← h.shardBits]
    exact (evaluate_bits_backed (by rw [hpins])).2.imp_right
      (hcounted.shardBits.announced_of_best hkeys e.quorum_pos)
  · rw [← h.sourceMode]
    exact (evaluate_mode_backed (by rw [hpins])).2.imp_right
      (hcounted.sourceMode.announced_of_best hkeys e.quorum_pos)
  · rw [← hplane, hview]
    exact (hbacked id).1.imp_right
      ((hcounted.planeShardBits id).announced_of_best hkeys e.quorum_pos)
  · rw [← hplane, hview]
    exact (hbacked id).2.imp_right
      ((hcounted.planeSourceMode id).announced_of_best hkeys e.quorum_pos)
  · rw [← h.domains] at hsome
    dsimp only
    rw [evaluate_domains, if_pos (mem_domainIDs_iff.mpr (.inr (.inr hsome)))]
    rfl

/-- A consumer between two evaluations, the last of which returned `prev`. -/
structure Consumer.Ready (quorum : Int) (c : Consumer) (prev : Adopted) : Prop where
  accepted : c.registry.Accepted
  pins : NoPins c.evaluator.cfg
  quorum : c.evaluator.cfg.quorum = quorum
  remembers : Remembers c.evaluator prev

variable {quorum : Int} {c : Consumer} {prev : Answer}

theorem Consumer.Ready.receive (h : c.Ready quorum prev.view) (checksum : Bytes → UInt32) (src : Addr)
    (buf : Bytes) (now : Int) : (c.receive checksum src buf now).Ready quorum prev.view := by
  rw [Consumer.receive]
  split
  · next m hm =>
      have hform := wellFormed_of_decode hm
      exact ⟨h.accepted.upsert hform now src, h.pins, h.quorum, h.remembers⟩
  · exact h

theorem Consumer.Ready.evict (h : c.Ready quorum prev.view) (now : Int) :
    Consumer.Ready quorum { c with registry := c.registry.evict now } prev.view :=
  ⟨h.accepted.evict now, h.pins, h.quorum, h.remembers⟩

theorem Consumer.Ready.evaluate (h : c.Ready quorum prev.view) (now : Int) (orders : Orders) :
    (c.evaluate now orders).2.Ready quorum (c.evaluate now orders).1.view :=
  ⟨h.accepted, h.pins, h.quorum, remembers_evaluate h.pins⟩

theorem isChain_answers (checksum : Bytes → UInt32) (events : List Event)
    (h : c.Ready quorum prev.view) :
    (prev :: c.answers checksum events).IsChain (fun a b => Backed quorum a.view b) ∧
      ∀ a ∈ c.answers checksum events, (a.snap.map (·.key)).Nodup ∧ FieldsCounted a.snap := by
  induction events generalizing c prev with
  | nil => exact ⟨.singleton _, List.forall_mem_nil _⟩
  | cons event events ih =>
      cases event with
      | datagram src buf now => exact ih (h.receive checksum src buf now)
      | evict now => exact ih (h.evict now)
      | evaluate now orders =>
          obtain ⟨hchain, hcounted⟩ := ih (h.evaluate now orders)
          have honce := h.accepted.snapshot
          have hkeys := nodup_snapshot c.registry
          have hbacked : Backed quorum prev.view (c.evaluate now orders).1 := by
            rw [← h.quorum]
            exact backed_evaluate h.pins hkeys honce h.remembers
          exact ⟨List.isChain_cons_cons.mpr ⟨hbacked, hchain⟩,
            List.forall_mem_cons.mpr ⟨⟨hkeys, fieldsCounted honce⟩, hcounted⟩⟩

/-- Before the first evaluation all values are zero. -/
def noAnswer : Answer := ⟨[], freshView []⟩

/-- In every run a returned value is the previous one or has a quorum of distinct announcers, no
announcer is counted twice, and a plane once returned is returned ever after. -/
theorem adoption_needs_quorum (checksum : Bytes → UInt32) (defaultTTL hysteresis : Int)
    (hquorum : 1 ≤ quorum) (events : List Event) :
    let answers := (Consumer.new defaultTTL (unpinned quorum hysteresis)).answers checksum events
    (noAnswer :: answers).IsChain (fun a b => Backed quorum a.view b) ∧
      (∀ a ∈ answers, (a.snap.map (·.key)).Nodup ∧ FieldsCounted a.snap) ∧
      answers.Pairwise fun a b => ∀ id, (a.view.domains id).isSome → (b.view.domains id).isSome := by
  intro answers
  have hcfg : (newEvaluator (unpinned quorum hysteresis)).cfg = unpinned quorum hysteresis :=
    if_neg (show ¬ quorum ≤ 0 by omega)
  have hready : (Consumer.new defaultTTL (unpinned quorum hysteresis)).Ready quorum noAnswer.view := by
    refine ⟨by nofun, ?_, congrArg EvaluatorConfig.quorum hcfg, rfl, rfl, rfl⟩
    exact NoPins.newEvaluator rfl
  obtain ⟨hchain, hcounted⟩ := isChain_answers checksum events hready
  refine ⟨hchain, hcounted, ?_⟩
  have htrans : IsTrans Answer fun a b =>
      ∀ id, (a.view.domains id).isSome → (b.view.domains id).isSome :=
    ⟨fun a b c hab hbc id hid => hbc id (hab id hid)⟩
  have hplanes := hchain.imp fun a b h => h.planes
  exact (List.isChain_iff_pairwise.mp hplanes).of_cons

theorem wellFormed_pilotManifest : WellFormed pilotManifest :=
  checkManifest_ok.mp (show (checkManifest pilotManifest).outcome = .ok () by decide +kernel)

/-- One pilot is heard and evaluated twice. -/
def pilotEvents : List Event :=
  [.datagram (.v6 (.copy 16 [0x20, 0x01]) "eth0") (sentDatagram crc32c pilotManifest ++ []) 0,
    .evaluate 0 storedOrders, .evaluate 1 storedOrders]

theorem pilot_backed :
    (decodeShardManifest crc32c (sentDatagram crc32c pilotManifest ++ [])).outcome =
        .ok pilotManifest ∧
      let answers := (Consumer.new 90 (unpinned 1 1)).answers crc32c pilotEvents
      answers.length = 2 ∧ (noAnswer :: answers).IsChain fun a b => Backed 1 a.view b :=
  ⟨decode_sentDatagram crc32c wellFormed_pilotManifest [], rfl,
    (adoption_needs_quorum crc32c 90 1 (by decide) pilotEvents).1⟩

end ShardCommon.Manifest
