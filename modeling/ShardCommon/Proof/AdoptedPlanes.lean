import ShardCommon.Proof.ConsumerQuorum
import ShardCommon.Proof.Planes
import ShardCommon.Proof.SuccessorTimers

/-!
# Planes that a consumer builds

What the evaluator adopts came in accepted manifests, and the widths in those are widths of the shard
package's planes. A consumer can therefore build the plane of every width it is shown, and of the
width that a pending transition announces. Planes are adopted one by one: two of them are apart when
one manifest announces both, which majority quorums force, and may collide otherwise.
-/

namespace ShardCommon.Manifest

open ShardCommon.Frame ShardCommon.Netip ShardCommon.Shard

variable {cfg : EvaluatorConfig} {e : Evaluator} {snap : List Entry} {orders : Orders} {now : Int}
  {p : Pass} {s : Plane} {id bits : UInt8}

/-! ## Widths of planes -/

/-- `ValidatePlane` accepts the width, and so `NewPlane` builds the plane. -/
def FitsPlane (id bits : UInt8) : Prop := (validatePlane id bits.toUInt64).outcome = .ok ()

theorem fitsPlane_of_rules (hid : id ≤ maxDomainID) (hbits : bits ≤ domainMaxBits id)
    (hrange : planeEnd id bits ≤ domainControlBase) : FitsPlane id bits := by
  have hwidth : bits.toUInt64.toNat = bits.toNat := UInt8.toNat_toUInt64 bits
  refine Shard.validatePlane_ok.mpr ⟨hid, ?_, ?_, ?_⟩
  · rw [UInt64.le_iff_toNat_le, hwidth]
    exact UInt8.le_iff_toNat_le.mp (UInt8.le_trans hbits (domainMaxBits_le id))
  · rintro rfl
    rw [UInt64.le_iff_toNat_le, hwidth]
    exact UInt8.le_iff_toNat_le.mp hbits
  · rw [planeEnd, Nat.shiftLeft_eq, Nat.shiftLeft_eq, Nat.one_mul] at hrange
    rwa [hwidth]

theorem fitsPlane_top (h : bits ≤ maxShardBits) : FitsPlane domainTx bits := by
  refine fitsPlane_of_rules (by decide) h ?_
  have hpow : 2 ^ bits.toNat ≤ 2 ^ 12 :=
    Nat.pow_le_pow_right (by decide) (UInt8.le_iff_toNat_le.mp h)
  rw [planeEnd, Nat.shiftLeft_eq, Nat.shiftLeft_eq, Nat.one_mul]
  exact Nat.le_trans (Nat.add_le_add_left hpow _) (by decide)

/-- The width that a plane has before any is adopted for it. -/
theorem FitsPlane.zero (h : FitsPlane id bits) : FitsPlane id 0 := by
  obtain ⟨hid, -, -, hrange⟩ := Shard.validatePlane_ok.mp h
  have hpos := Nat.two_pow_pos bits.toUInt64.toNat
  refine Shard.validatePlane_ok.mpr ⟨hid, by decide, fun _ => by decide, ?_⟩
  exact Nat.le_trans (Nat.add_le_add_left hpos _) hrange

/-! ## Widths of entries -/

/-- The entry was made of an accepted manifest. -/
def Entry.Accepted (en : Entry) : Prop := ∃ m, WellFormed m ∧ entryOf m = en

/-- The widths that an entry announces, active or pending, are those of planes. -/
structure Entry.Fits (en : Entry) : Prop where
  shardBits : FitsPlane domainTx en.shardBits
  successor : ∀ next, en.successor = some next → FitsPlane domainTx next.shardBits
  planes : ∀ d ∈ en.domains, FitsPlane d.domainID d.shardBits
  planeSuccessors : ∀ d ∈ en.domains, ∀ next, d.successor = some next →
    FitsPlane d.domainID next.shardBits

theorem Entry.Accepted.fits {en : Entry} (h : en.Accepted) : en.Fits := by
  obtain ⟨m, hm, rfl⟩ := h
  have hrules := (planes_of_wellFormed hm).1
  refine ⟨fitsPlane_top hm.shardBits, ?_, ?_, ?_⟩
  · intro next hnext
    exact fitsPlane_top (hm.successorBits next hnext).1
  · intro d hd
    exact (hrules d hd).validatePlane_ok.1
  · intro d hd next hnext
    obtain ⟨-, hbits, -, hrange⟩ := (hrules d hd).successor next hnext
    exact fitsPlane_of_rules (hrules d hd).domainID hbits hrange

/-! ## Widths selected -/

theorem fitsPlane_of_selectedShardBits (hsnap : ∀ en ∈ snap, en.Fits) (hquorum : 0 < cfg.quorum)
    (h : selectedShardBits cfg snap orders = some bits) : FitsPlane domainTx bits := by
  obtain ⟨voter, hvote⟩ := Tallies.exists_vote_of_best hquorum _ h
  obtain ⟨en, hen, hpair⟩ := List.mem_map.mp hvote
  cases hpair
  exact (hsnap voter (List.mem_filter.mp hen).1).shardBits

theorem fitsPlane_of_selectedSuccessor (hsnap : ∀ en ∈ snap, en.Fits) (hquorum : 0 < cfg.quorum)
    {sv : SuccessorKey} (h : selectedSuccessor cfg snap orders = some sv) :
    FitsPlane domainTx sv.shardBits := by
  obtain ⟨voter, hvote⟩ := Tallies.exists_vote_of_best hquorum _ h
  obtain ⟨en, hen, hpair⟩ := List.mem_filterMap.mp hvote
  obtain ⟨next, hnext, hpair⟩ := Option.map_eq_some_iff.mp hpair
  cases hpair
  exact (hsnap voter (List.mem_filter.mp hen).1).successor next hnext

theorem exists_entry_of_descriptor {d : DomainDescriptor} {en : Entry}
    (h : (d, en) ∈ descriptors snap id) : en ∈ snap ∧ d ∈ en.domains ∧ d.domainID = id := by
  obtain ⟨en', hen, hd⟩ := List.mem_flatMap.mp h
  obtain ⟨d', hd', hpair⟩ := List.mem_map.mp hd
  cases hpair
  obtain ⟨hmem, hid⟩ := List.mem_filter.mp hd'
  exact ⟨(List.mem_filter.mp hen).1, hmem, (of_decide_eq_true hid).2⟩

theorem fitsPlane_of_selectedDomainBits (hsnap : ∀ en ∈ snap, en.Fits) (hquorum : 0 < cfg.quorum)
    (h : bestCandidate ((orders.domainShardBits id).visit
      (Tallies.ofVotes (domainShardBitsVotes snap id)).entries) cfg.quorum = some bits) :
    FitsPlane id bits := by
  obtain ⟨voter, hvote⟩ := Tallies.exists_vote_of_best hquorum _ h
  obtain ⟨⟨d, en⟩, hd, hpair⟩ := List.mem_map.mp hvote
  cases hpair
  obtain ⟨hen, hmem, rfl⟩ := exists_entry_of_descriptor hd
  exact (hsnap en hen).planes d hmem

theorem fitsPlane_of_selectedDomainSuccessor (hsnap : ∀ en ∈ snap, en.Fits)
    (hquorum : 0 < cfg.quorum) {sv : SuccessorKey}
    (h : bestSuccessor ((orders.domainSuccessor id).visit
      (Tallies.ofVotes (domainSuccessorVotes snap id)).entries) cfg.quorum = some sv) :
    FitsPlane id sv.shardBits := by
  obtain ⟨voter, hvote⟩ := Tallies.exists_vote_of_best hquorum _ h
  obtain ⟨⟨d, en⟩, hd, hpair⟩ := List.mem_filterMap.mp hvote
  obtain ⟨next, hnext, hpair⟩ := Option.map_eq_some_iff.mp hpair
  cases hpair
  obtain ⟨hen, hmem, rfl⟩ := exists_entry_of_descriptor hd
  exact (hsnap en hen).planeSuccessors d hmem next hnext

/-! ## One call -/

/-- A retained successor was retained before, or is the selected tuple. -/
theorem adoptSuccessor_origin {m : Tallies SuccessorKey Entry}
    {order : RangeOrder (Vote SuccessorKey)} {view : SuccessorView}
    (h : (adoptSuccessor cfg m order now p).adopted.successor = some view) :
    p.adopted.successor = some view ∨
      bestSuccessor (order.visit m.entries) cfg.quorum = some view.key := by
  rw [adoptSuccessor] at h
  split at h
  · next sv hbest =>
      split at h
      · dsimp only at h
        split at h
        · obtain rfl := Option.some.inj h
          rcases replaceSuccessor_cases p.adopted.successor sv now with hkey | ⟨hkept, -⟩
          · rw [hkey]
            exact .inr hbest
          · exact .inl hkept
        · exact .inl h
      · exact .inl h
  · cases h

theorem adoptDomainSuccessor_origin {order : RangeOrder (Vote SuccessorKey)} {view : SuccessorView}
    (h : (adoptDomainSuccessor cfg snap order now id s).1.successor = some view) :
    s.1.successor = some view ∨ bestSuccessor (order.visit
      (Tallies.ofVotes (domainSuccessorVotes snap id)).entries) cfg.quorum = some view.key := by
  rw [adoptDomainSuccessor] at h
  dsimp only at h
  split at h
  · next sv hbest =>
      split at h
      · split at h
        · obtain rfl := Option.some.inj h
          rcases replaceSuccessor_cases s.1.successor sv now with hkey | ⟨hkept, -⟩
          · rw [hkey]
            exact .inr hbest
          · exact .inl hkept
        · exact .inl h
      · exact .inl h
  · split at h
    · cases h
    · exact .inl h

theorem evaluateDomain_origin {view : SuccessorView}
    (h : (evaluateDomain cfg snap orders now id s).1.successor = some view) :
    s.1.successor = some view ∨ bestSuccessor ((orders.domainSuccessor id).visit
      (Tallies.ofVotes (domainSuccessorVotes snap id)).entries) cfg.quorum = some view.key := by
  rw [evaluateDomain] at h
  split at h
  · exact .inl h
  · split at h
    · exact .inl h
    · rw [← @planeBeforeSuccessor_successor cfg snap orders now id s]
      exact adoptDomainSuccessor_origin h

/-- The widths of a plane in force, pinned ones apart, and of its successor. -/
structure DomainAdoption.Fits (pin : Option UInt8) (id : UInt8) (d : DomainAdoption) : Prop where
  shardBits : pin = none → FitsPlane id d.shardBits
  successor : ∀ next, d.successor = some next → FitsPlane id next.shardBits

/-- The same of all that an evaluator keeps. -/
structure Retained.Fits (pin : Pin) (r : Retained) : Prop where
  shardBits : pin.shardBits = none → FitsPlane domainTx r.shardBits
  successor : ∀ next, r.successor = some next → FitsPlane domainTx next.shardBits
  planes : ∀ id d, r.domains id = some d → d.Fits (pin.domainShardBits id) id

theorem fits_evaluateDomain (hsnap : ∀ en ∈ snap, en.Fits) (hquorum : 0 < cfg.quorum)
    (h : s.1.Fits (cfg.pin.domainShardBits id) id) :
    (evaluateDomain cfg snap orders now id s).1.Fits (cfg.pin.domainShardBits id) id where
  shardBits := by
    intro hpin
    rcases (evaluateDomain_backed hpin).1 with hkept | hselected
    · rw [hkept]
      exact h.shardBits hpin
    · exact fitsPlane_of_selectedDomainBits hsnap hquorum hselected
  successor := by
    intro next hnext
    rcases evaluateDomain_origin hnext with hkept | hselected
    · exact h.successor next hkept
    · have hfits := fitsPlane_of_selectedDomainSuccessor hsnap hquorum hselected
      exact hfits

/-- A plane that a call goes through for the first time has the width zero. -/
theorem fits_plane (hsnap : ∀ en ∈ snap, en.Fits) (h : e.adopted.Fits e.cfg.pin)
    (hid : id ∈ domainIDs e.cfg snap e.adopted) :
    (e.plane id).1.Fits (e.cfg.pin.domainShardBits id) id := by
  rw [Evaluator.plane]
  cases hplane : e.adopted.domains id with
  | some d => exact h.planes id d hplane
  | none =>
      refine ⟨fun hpin => ?_, fun next hnext => ?_⟩
      · rw [mem_domainIDs_iff, hpin, hplane] at hid
        rcases hid with hdescriptors | ⟨-, hpinned⟩ | hadopted
        · obtain ⟨⟨d, en⟩, hd⟩ := List.exists_mem_of_ne_nil _ hdescriptors
          obtain ⟨hen, hmem, rfl⟩ := exists_entry_of_descriptor hd
          exact ((hsnap en hen).planes d hmem).zero
        · cases hpinned
        · cases hadopted
      · cases hnext

theorem fits_evaluate (hsnap : ∀ en ∈ snap, en.Fits) (h : e.adopted.Fits e.cfg.pin) :
    (e.evaluate snap now orders).2.adopted.Fits e.cfg.pin where
  shardBits := by
    intro hpin
    obtain ⟨hshown, hkept | hselected⟩ := @evaluate_bits_backed e snap orders now hpin
    · rw [hshown, hkept]
      exact h.shardBits hpin
    · rw [hshown]
      exact fitsPlane_of_selectedShardBits hsnap e.quorum_pos hselected
  successor := by
    intro next hnext
    rw [show (e.evaluate snap now orders).2.adopted.successor = _ from sameTop_pass.adoptedSuccessor,
      topPass_eq] at hnext
    rcases adoptSuccessor_origin hnext with hkept | hselected
    · rw [beforeSuccessor_adopted_successor] at hkept
      exact h.successor next hkept
    · have hfits := fitsPlane_of_selectedSuccessor hsnap e.quorum_pos hselected
      exact hfits
  planes := by
    intro id d hd
    rw [evaluate_retained, evaluate_domains] at hd
    split at hd
    · next hid =>
        cases hd
        exact fits_evaluateDomain hsnap e.quorum_pos (fits_plane hsnap h hid)
    · cases hd

/-- Every width that a view shows in force, pinned ones apart, or as a successor's. -/
structure Adopted.Fits (pin : Pin) (view : Adopted) : Prop where
  shardBits : pin.shardBits = none → FitsPlane domainTx view.shardBits
  successor : ∀ next, view.successor = some next → FitsPlane domainTx next.shardBits
  planes : ∀ id d, view.domains id = some d → d.Fits (pin.domainShardBits id) id

theorem fits_view (h : (e.evaluate snap now orders).2.adopted.Fits e.cfg.pin) :
    (e.evaluate snap now orders).1.Fits e.cfg.pin where
  shardBits := by
    intro hpin
    rw [← (@evaluate_bits_backed e snap orders now hpin).1]
    exact h.shardBits hpin
  successor := fun next hnext => h.successor next (evaluate_retained_of_shown hnext)
  planes := by
    rw [← evaluate_retained]
    exact h.planes

/-! ## Quorums that meet -/

section Majority

variable {quorum : Int} {snap : List Registered} {id' bits' : UInt8}

/-- The width of a plane that an entry announces. -/
def Entry.planeBits (en : Entry) (id : UInt8) : Option UInt8 :=
  (en.descriptor? id).bind fun d => some d.shardBits

theorem exists_descriptor {en : Entry} (h : en.planeBits id = some bits) :
    ∃ d ∈ en.domains, d.domainID = id ∧ d.shardBits = bits := by
  obtain ⟨d, hd, hbits⟩ := Option.bind_eq_some_iff.mp h
  have hid := List.find?_some (show en.domains.find? (fun d => d.domainID = id) = some d from hd)
  exact ⟨d, List.mem_of_find?_eq_some hd, of_decide_eq_true hid, Option.some.inj hbits⟩

/-- Two values that majorities announce are announced together by some authority. -/
theorem Announced.exists_common {K L : Type} {announced : Entry → Option K}
    {announced' : Entry → Option L} {v : K} {w : L} (hkeys : (snap.map (·.key)).Nodup)
    (hmajority : ((snap.filter (·.entry.authoritative)).length : Int) < 2 * quorum)
    (h : Announced quorum snap announced v) (h' : Announced quorum snap announced' w) :
    ∃ r ∈ snap, announced r.entry = some v ∧ announced' r.entry = some w := by
  obtain ⟨backers, hsub, hlength, -, hback⟩ := h
  obtain ⟨backers', hsub', hlength', -, hback'⟩ := h'
  have hauthorities : ∀ {l : List Registered}, l.Sublist snap →
      (∀ r ∈ l, r.entry.authoritative = true) → l.Sublist (snap.filter (·.entry.authoritative)) := by
    intro l hl hall
    rw [← List.filter_eq_self.mpr hall]
    exact hl.filter _
  obtain ⟨r, hr, hr'⟩ := DistinctKeys.exists_common
    (hkeys.sublist (List.filter_sublist.map _))
    (hauthorities hsub fun r hr => (hback r hr).1)
    (hauthorities hsub' fun r hr => (hback' r hr).1) (by omega)
  exact ⟨r, hsub.subset hr, (hback r hr).2, (hback' r hr').2⟩

/-- Planes of one manifest share no index. -/
theorem Entry.Accepted.apart {en : Entry} (h : en.Accepted) (hne : id ≠ id')
    (hbits : en.planeBits id = some bits) (hbits' : en.planeBits id' = some bits') {idx : Nat}
    (hidx : InPlane id bits idx) : ¬ InPlane id' bits' idx := by
  obtain ⟨m, hm, rfl⟩ := h
  obtain ⟨hrules, hapart⟩ := planes_of_wellFormed hm
  obtain ⟨d, hd, rfl, rfl⟩ := exists_descriptor hbits
  obtain ⟨d', hd', rfl, rfl⟩ := exists_descriptor hbits'
  intro hidx'
  refine hapart d hd d' hd' ?_ _ ((hrules d hd).reserves_active hidx)
    ((hrules d' hd').reserves_active hidx')
  rintro rfl
  exact hne rfl

end Majority

/-! ## Runs of the consumer -/

/-- Fewer authorities than twice the quorum were heard. -/
def Answer.Majority (quorum : Int) (a : Answer) : Prop :=
  ((a.snap.filter (·.entry.authoritative)).length : Int) < 2 * quorum

/-- The width shown for the plane is announced by a quorum now. -/
def Answer.Confirms (quorum : Int) (a : Answer) (id : UInt8) : Prop :=
  Announced quorum a.snap (·.planeBits id) (a.view.plane id).shardBits

/-- Engines of the two planes, as the view shows them, send no keys to one index. -/
def Answer.Apart (a : Answer) (id id' : UInt8) : Prop :=
  ∀ mcPrefix groupID mcPrefix' groupID' p q,
    (newPlane mcPrefix groupID (a.view.plane id).shardBits.toUInt64 id).outcome = .ok p →
    (newPlane mcPrefix' groupID' (a.view.plane id').shardBits.toUInt64 id').outcome = .ok q →
      ∀ key key', p.groupIndex key ≠ q.groupIndex key'

theorem inPlane_groupIndex {mcPrefix groupID : UInt16} {engine : PlaneEngine}
    (h : (newPlane mcPrefix groupID bits.toUInt64 id).outcome = .ok engine) (key : FixedBytes 32) :
    InPlane id bits (engine.groupIndex key).toNat := by
  obtain ⟨hlow, hhigh, -⟩ := newPlane_ok h key
  rw [UInt8.toNat_toUInt64] at hhigh
  exact inPlane_iff.mpr ⟨hlow, hhigh⟩

theorem apart_of_majority {quorum : Int} {a : Answer} {id' : UInt8}
    (hkeys : (a.snap.map (·.key)).Nodup) (hsnap : ∀ r ∈ a.snap, r.entry.Accepted)
    (hmajority : a.Majority quorum) (hne : id ≠ id') (h : a.Confirms quorum id)
    (h' : a.Confirms quorum id') : a.Apart id id' := by
  intro mcPrefix groupID mcPrefix' groupID' p q hp hq key key' heq
  obtain ⟨r, hr, hbits, hbits'⟩ := Announced.exists_common hkeys hmajority h h'
  have hidx' := inPlane_groupIndex hq key'
  rw [← heq] at hidx'
  exact (hsnap r hr).apart hne hbits hbits' (inPlane_groupIndex hp key) hidx'

/-- A consumer whose entries were accepted and whose retained widths are those of planes. -/
structure Consumer.Fits (cfg : EvaluatorConfig) (c : Consumer) : Prop where
  entries : c.registry.All Entry.Accepted
  config : c.evaluator.cfg = cfg
  retained : c.evaluator.adopted.Fits cfg.pin

namespace Consumer.Fits

variable {c : Consumer}

theorem receive (h : c.Fits cfg) (checksum : Bytes → UInt32) (src : Addr) (buf : Bytes) (now : Int) :
    (c.receive checksum src buf now).Fits cfg := by
  rw [Consumer.receive]
  split
  · next m hm =>
      have haccepted : (entryOf m).Accepted := ⟨m, wellFormed_of_decode hm, rfl⟩
      exact ⟨h.entries.upsert haccepted now src, h.config, h.retained⟩
  · exact h

theorem evict (h : c.Fits cfg) (now : Int) :
    Consumer.Fits cfg { c with registry := c.registry.evict now } :=
  ⟨h.entries.evict now, h.config, h.retained⟩

theorem snapshot (h : c.Fits cfg) : ∀ en ∈ c.registry.snapshot.map (·.entry), en.Fits :=
  List.forall_mem_map.mpr fun r hr => (h.entries.snapshot r hr).fits

theorem evaluate (h : c.Fits cfg) (now : Int) (orders : Orders) :
    (c.evaluate now orders).2.Fits cfg := by
  refine ⟨h.entries, h.config, ?_⟩
  rw [← h.config]
  exact fits_evaluate h.snapshot (by rw [h.config]; exact h.retained)

/-- What holds of an evaluation of such a consumer holds of all evaluations of its runs. -/
theorem forall_answers {P : Answer → Prop}
    (hP : ∀ c : Consumer, c.Fits cfg → ∀ now orders, P (c.evaluate now orders).1)
    (checksum : Bytes → UInt32) (events : List Event) (h : c.Fits cfg) :
    ∀ a ∈ c.answers checksum events, P a := by
  induction events generalizing c with
  | nil => exact List.forall_mem_nil _
  | cons event events ih =>
      cases event with
      | datagram src buf now => exact ih (h.receive checksum src buf now)
      | evict now => exact ih (h.evict now)
      | evaluate now orders =>
          exact List.forall_mem_cons.mpr ⟨hP c h now orders, ih (h.evaluate now orders)⟩

end Consumer.Fits

theorem Consumer.fits_new (defaultTTL : Int) (cfg : EvaluatorConfig) :
    (Consumer.new defaultTTL cfg).Fits (newEvaluator cfg).cfg :=
  ⟨by rintro item ⟨⟩, rfl, fun _ => fitsPlane_top UInt8.zero_le, by rintro next ⟨⟩, by rintro id d ⟨⟩⟩

theorem newEvaluator_pin (cfg : EvaluatorConfig) : (newEvaluator cfg).cfg.pin = cfg.pin := by
  rw [newEvaluator]
  dsimp only
  split <;> rfl

/-- In every run each width that a view shows in force, unless it is pinned, or for a transition
makes a plane of the shard package. Two planes whose widths have quorums of the announcers heard
then are apart whenever those quorums are majorities. -/
theorem views_make_planes (checksum : Bytes → UInt32) (defaultTTL : Int) (cfg : EvaluatorConfig)
    (events : List Event) :
    let quorum := (newEvaluator cfg).cfg.quorum
    ∀ a ∈ (Consumer.new defaultTTL cfg).answers checksum events,
      a.view.Fits cfg.pin ∧ (a.Majority quorum → ∀ id id', id ≠ id' →
        a.Confirms quorum id → a.Confirms quorum id' → a.Apart id id') := by
  intro quorum
  refine Consumer.Fits.forall_answers ?_ checksum events (Consumer.fits_new defaultTTL cfg)
  intro c hc now orders
  refine ⟨?_, fun hmajority id id' hne h h' => ?_⟩
  · rw [← newEvaluator_pin, ← hc.config]
    exact fits_view (hc.config ▸ (hc.evaluate now orders).retained)
  · exact apart_of_majority (nodup_snapshot c.registry) hc.entries.snapshot hmajority hne h h'

/-! ### Announcers of a plane each -/

/-- An authority of the planes that announces no interval: what it says is adopted at once. -/
def promptManifest (domains : List DomainDescriptor) : ShardManifest :=
  { planesManifest domains with announceInterval := 0 }

def promptAddr (last : UInt8) : Addr := .v6 (.copy 16 [0x20, 0x01, last]) ""

/-- What a consumer with a quorum of one answers after manifests of the planes. -/
def promptAnswers (heard : List (UInt8 × List DomainDescriptor)) : List Answer :=
  (Consumer.new 90 (unpinned 1 0)).answers crc32c
    (heard.map (fun sent => .datagram (promptAddr sent.1)
      (sentDatagram crc32c (promptManifest sent.2) ++ []) 0) ++ [.evaluate 0 storedOrders])

/-- The entries that the manifests leave, as the registry stores them. -/
def promptEntries (reg : Registry) (heard : List (UInt8 × List DomainDescriptor)) : Registry :=
  heard.foldl (fun reg sent => (reg.upsert 0 (promptAddr sent.1) (promptManifest sent.2)).2) reg

def promptAnswer (snap : List Registered) : Answer :=
  ⟨snap, ((newEvaluator (unpinned 1 0)).evaluate (snap.map (·.entry)) 0 storedOrders).1⟩

theorem answers_prompt {heard : List (UInt8 × List DomainDescriptor)} {c : Consumer}
    {events : List Event}
    (h : ∀ sent ∈ heard, (checkManifest (promptManifest sent.2)).outcome = .ok ()) :
    c.answers crc32c (heard.map (fun sent => .datagram (promptAddr sent.1)
        (sentDatagram crc32c (promptManifest sent.2) ++ []) 0) ++ events) =
      Consumer.answers crc32c { c with registry := promptEntries c.registry heard } events := by
  induction heard generalizing c with
  | nil => rfl
  | cons sent heard ih =>
      obtain ⟨hsent, hheard⟩ := List.forall_mem_cons.mp h
      rw [List.map_cons, List.cons_append, Consumer.answers, Consumer.receive,
        decode_sentDatagram crc32c (checkManifest_ok.mp hsent) []]
      exact ih hheard

theorem mem_promptAnswers {heard : List (UInt8 × List DomainDescriptor)} {snap : List Registered}
    (h : ∀ sent ∈ heard, (checkManifest (promptManifest sent.2)).outcome = .ok ())
    (hsnap : (promptEntries (newRegistry 90) heard).entries.entries.map (·.2) = snap)
    (hsorted : snap.Pairwise fun a b => !b.less a) : promptAnswer snap ∈ promptAnswers heard := by
  rw [promptAnswers, answers_prompt h]
  refine List.mem_singleton.mpr ?_
  have hsnapshot : (promptEntries (newRegistry 90) heard).snapshot = snap := by
    rw [Registry.snapshot, hsnap]
    exact List.mergeSort_of_pairwise hsorted
  rw [promptAnswer, ← hsnapshot]
  rfl

/-- Plane 1 over two slots, the second of which is plane 2's. -/
def doublePlane : DomainDescriptor := ⟨1, 13, 2, 0, 0, .copy 16 [3], none⟩

def onePlaneEach : List (UInt8 × List DomainDescriptor) := [(2, [nextPlane]), (1, [doublePlane])]

/-- With two authorities a quorum of one is no majority: each has its own plane adopted, and keys of
both planes meet at an index. -/
theorem minority_planes_collide : ∃ a ∈ promptAnswers onePlaneEach,
    a.Confirms 1 1 ∧ a.Confirms 1 2 ∧ ¬ a.Apart 1 2 := by
  have hmem := @mem_promptAnswers onePlaneEach _ (by decide +kernel) rfl (by decide +kernel)
  refine ⟨_, hmem, ?_, ?_, ?_⟩
  · exact ⟨_, List.filter_sublist (p := fun r => r.entry.planeBits 1 = some 13),
      by decide +kernel, by decide +kernel, by decide +kernel⟩
  · exact ⟨_, List.filter_sublist (p := fun r => r.entry.planeBits 2 = some 4),
      by decide +kernel, by decide +kernel, by decide +kernel⟩
  · intro hapart
    refine hapart 0xFF05 0x000B 0xFF05 0x000B ⟨new 0xFF05 0x000B 13, planeBase 1⟩
      ⟨new 0xFF05 0x000B 4, planeBase 2⟩ ?_ ?_ (.copy 32 [0x80]) (.copy 32 []) (by decide +kernel)
    · decide +kernel
    · decide +kernel

def bothPlanes : List (UInt8 × List DomainDescriptor) := [(1, [beefPlane, nextPlane])]

/-- The planes of one authority are apart; those of two may not be. -/
theorem views_make_planes_together : (∃ a ∈ promptAnswers bothPlanes,
      (a.view.plane 1).shardBits = 12 ∧ (a.view.plane 2).shardBits = 4 ∧ a.Apart 1 2) ∧
    ∃ a ∈ promptAnswers onePlaneEach, a.Confirms 1 1 ∧ a.Confirms 1 2 ∧ ¬ a.Apart 1 2 := by
  have hmem := @mem_promptAnswers bothPlanes _ (by decide +kernel) rfl (by decide +kernel)
  refine ⟨⟨_, hmem, by decide +kernel, by decide +kernel, ?_⟩, minority_planes_collide⟩
  refine (views_make_planes crc32c 90 (unpinned 1 0) _ _ hmem).2 ?_ 1 2 (by decide) ?_ ?_
  · exact show (_ : Int) < _ by decide +kernel
  · exact ⟨_, List.Sublist.refl _, by decide +kernel, by decide +kernel, by decide +kernel⟩
  · exact ⟨_, List.Sublist.refl _, by decide +kernel, by decide +kernel, by decide +kernel⟩

end ShardCommon.Manifest
