import ShardCommon.Proof.EvaluatorConvergence

/-!
# A minority of announcers cannot steer a consumer

Some announcers may send anything at any time: other values, forged shutdowns of their own entries,
datagrams that do not decode. While they are fewer than the quorum, and every other authority announces
one value, a consumer returns nothing but that value once it has left its initial one, and it has left
it as soon as a quorum of the others was registered at two evaluations a window apart. An announcer is
what the registry takes for one: a source address with an instance.
-/

namespace ShardCommon.Manifest

open ShardCommon.Frame ShardCommon.Netip Hysteresis

variable {cfg : EvaluatorConfig} {K : Type} [DecidableEq K] [Inhabited K]

/-! ## The fields a consumer counts votes for -/

/-- A machine that selects by counting what the authorities of a snapshot announce. -/
structure VotedField (cfg : EvaluatorConfig) (K : Type) [DecidableEq K] [Inhabited K]
    extends Machine cfg K where
  announced : Entry → Option K
  selects : ∀ snap orders, PlanesOnce snap → ∃ order : RangeOrder (Vote K),
    selected snap orders =
      Tallies.best (order.visit (Tallies.ofVotes (announcements announced snap)).entries) cfg.quorum

def VotedField.shardBits (hpin : cfg.pin.shardBits = none) (hwindow : 0 < cfg.hysteresis) :
    VotedField cfg UInt8 where
  toMachine := bitsMachine hpin hwindow
  announced := fun en => some en.shardBits
  selects := by
    intro snap orders _
    rw [← shardBitsVotes_eq_announcements]
    exact ⟨orders.shardBits, rfl⟩

def VotedField.sourceMode (hpin : cfg.pin.sourceModeSSM = none) (hwindow : 0 < cfg.hysteresis) :
    VotedField cfg Bool where
  toMachine := modeMachine hpin hwindow
  announced := fun en => some en.sourceModeSSM
  selects := by
    intro snap orders _
    rw [← sourceModeVotes_eq_announcements]
    exact ⟨orders.sourceMode, rfl⟩

def VotedField.domainShardBits {id : UInt8} (hid : id ≠ 0)
    (hpin : cfg.pin.domainShardBits id = none) (hwindow : 0 < cfg.hysteresis) :
    VotedField cfg UInt8 where
  toMachine := domainBitsMachine id hpin hwindow
  announced := fun en => (en.descriptor? id).bind fun d => some d.shardBits
  selects := by
    intro snap orders honce
    rw [← domainShardBitsVotes_eq_announcements hid honce]
    exact ⟨orders.domainShardBits id, rfl⟩

def VotedField.domainSourceMode {id : UInt8} (hid : id ≠ 0)
    (hpin : cfg.pin.domainShardBits id = none) (hwindow : 0 < cfg.hysteresis) :
    VotedField cfg Bool where
  toMachine := domainModeMachine id hpin hwindow
  announced := fun en =>
    (en.descriptor? id).bind fun d => some (hasFlag d.flags domainFlagSourceModeSSM)
  selects := by
    intro snap orders honce
    rw [← domainSourceModeVotes_eq_announcements hid honce]
    exact ⟨orders.domainSourceMode id, rfl⟩

/-! ## Loyal announcers -/

variable {checksum : Bytes → UInt32} {rogue : List EntryKey} {announced : Entry → Option K} {v : K}

/-- An entry that is not of a rogue announcer and counts as a vote is a vote for `v`. -/
def LoyalEntry (rogue : List EntryKey) (announced : Entry → Option K) (v : K) (key : EntryKey)
    (en : Entry) : Prop :=
  key ∉ rogue → en.authoritative = true → ∀ w, announced en = some w → w = v

/-- What is received from announcers that are not rogue announces `v`, if it announces a value. -/
def Loyal (checksum : Bytes → UInt32) (rogue : List EntryKey) (announced : Entry → Option K) (v : K) :
    Event → Prop
  | .datagram src buf _ => ∀ m, (decodeShardManifest checksum buf).outcome = .ok m →
      LoyalEntry rogue announced v ⟨src.withoutZone, m.instanceID⟩ (entryOf m)
  | .evict _ => True
  | .evaluate _ _ => True

/-- A quorum of the other announcers is registered with `v`. -/
def LoyalQuorum (quorum : Int) (rogue : List EntryKey) (announced : Entry → Option K) (v : K)
    (snap : List Registered) : Prop :=
  quorum ≤ (snap.filter fun r =>
    r.key ∉ rogue ∧ r.entry.authoritative ∧ announced r.entry = some v).length

def LoyalSnapshot (rogue : List EntryKey) (announced : Entry → Option K) (v : K)
    (snap : List Registered) : Prop :=
  ∀ r ∈ snap, LoyalEntry rogue announced v r.key r.entry

omit [Inhabited K] in
/-- A quorum cannot be made of rogue announcers alone. -/
theorem LoyalSnapshot.eq_of_announced {snap : List Registered} {quorum : Int} {w : K}
    (h : LoyalSnapshot rogue announced v snap) (hrogue : (rogue.length : Int) < quorum)
    (hw : Announced quorum snap announced w) : w = v := by
  obtain ⟨backers, hsub, hcount, hkeys, hbackers⟩ := hw
  by_contra hne
  have hall : backers.map (·.key) ⊆ rogue := by
    intro key hkey
    obtain ⟨r, hr, rfl⟩ := List.mem_map.mp hkey
    by_contra hloyal
    obtain ⟨hauthority, hannounced⟩ := hbackers r hr
    exact hne (h r (hsub.subset hr) hloyal hauthority w hannounced)
  have hlength := (List.subperm_of_subset hkeys hall).length_le
  rw [List.length_map] at hlength
  omega

section Selection

variable {field : VotedField cfg K} {snap : List Registered} {orders : Orders}

theorem VotedField.selected_loyal (hquorum : 0 < cfg.quorum)
    (hrogue : (rogue.length : Int) < cfg.quorum) (hkeys : (snap.map (·.key)).Nodup)
    (honce : PlanesOnce (snap.map (·.entry)))
    (h : LoyalSnapshot rogue field.announced v snap) {w : K}
    (hw : field.selected (snap.map (·.entry)) orders = some w) : w = v := by
  obtain ⟨order, horder⟩ := field.selects _ orders honce
  rw [horder] at hw
  exact h.eq_of_announced hrogue
    (countedOnce_announcements.announced_of_best hkeys hquorum hw)

theorem VotedField.selected_of_loyalQuorum (hquorum : 0 < cfg.quorum)
    (hrogue : (rogue.length : Int) < cfg.quorum) (hkeys : (snap.map (·.key)).Nodup)
    (honce : PlanesOnce (snap.map (·.entry)))
    (h : LoyalSnapshot rogue field.announced v snap)
    (hlive : LoyalQuorum cfg.quorum rogue field.announced v snap) :
    field.selected (snap.map (·.entry)) orders = some v := by
  cases hw : field.selected (snap.map (·.entry)) orders with
  | some w => rw [field.selected_loyal hquorum hrogue hkeys honce h hw]
  | none =>
      obtain ⟨order, horder⟩ := field.selects _ orders honce
      rw [horder, Tallies.best_eq_none_iff hquorum] at hw
      have hbelow := hw v
      rw [length_voters_announcements, authorities, List.countP_filter, List.countP_map] at hbelow
      have hle : (snap.filter fun r => r.key ∉ rogue ∧ r.entry.authoritative ∧
          field.announced r.entry = some v).length ≤ snap.countP ((fun en =>
            decide (field.announced en = some v) && en.authoritative) ∘ (·.entry)) := by
        rw [← List.countP_eq_length_filter]
        apply List.countP_mono_left
        intro r _ hr
        simp only [Bool.decide_and, Bool.and_eq_true, decide_eq_true_eq] at hr
        simp [hr.2.1, hr.2.2]
      rw [LoyalQuorum] at hlive
      exact absurd hbelow (by omega)

end Selection

/-! ## Runs of the consumer -/

/-- An evaluation with its time. -/
structure Report extends Answer where
  now : Int

def Event.evaluatedAt : Event → Option Int
  | .evaluate now _ => some now
  | _ => none

namespace Consumer

/-- The answers of a run with the times of their evaluations, in order. -/
def reports (checksum : Bytes → UInt32) (c : Consumer) (events : List Event) : List Report :=
  List.zipWith Report.mk (c.answers checksum events) (events.filterMap Event.evaluatedAt)

theorem reports_evaluate (checksum : Bytes → UInt32) (c : Consumer) (now : Int) (orders : Orders)
    (events : List Event) :
    c.reports checksum (.evaluate now orders :: events) =
      ⟨(c.evaluate now orders).1, now⟩ :: (c.evaluate now orders).2.reports checksum events := rfl

/-- A consumer whose registry has taken in nothing but loyal and rogue announcements. -/
structure Guarded (cfg : EvaluatorConfig) (rogue : List EntryKey) (announced : Entry → Option K)
    (v : K) (c : Consumer) : Prop where
  config : c.evaluator.cfg = cfg
  accepted : c.registry.Accepted
  loyal : LoyalSnapshot rogue announced v c.registry.snapshot

variable {c : Consumer}

omit [DecidableEq K] [Inhabited K] in
theorem Guarded.receive (h : c.Guarded cfg rogue announced v) {src : Addr} {buf : Bytes} {now : Int}
    (hloyal : Loyal checksum rogue announced v (.datagram src buf now)) :
    (c.receive checksum src buf now).Guarded cfg rogue announced v := by
  rw [Consumer.receive]
  split
  · next m hm =>
      refine ⟨h.config, h.accepted.upsert (wellFormed_of_decode hm) now src, ?_⟩
      intro r hr
      rw [mem_snapshot, lookup_upsert] at hr
      split at hr
      · next hkey =>
          split at hr
          · cases hr
          · cases hr
            exact hloyal m hm
      · exact h.loyal r (mem_snapshot.mpr hr)
  · exact h

omit [DecidableEq K] [Inhabited K] in
theorem Guarded.evict (h : c.Guarded cfg rogue announced v) (now : Int) :
    Guarded cfg rogue announced v { c with registry := c.registry.evict now } := by
  refine ⟨h.config, h.accepted.evict now, ?_⟩
  intro r hr
  rw [mem_snapshot, lookup_evict, ← Option.mem_def, Option.mem_filter_iff] at hr
  exact h.loyal r (mem_snapshot.mpr hr.1)

omit [DecidableEq K] [Inhabited K] in
theorem Guarded.evaluate (h : c.Guarded cfg rogue announced v) (now : Int) (orders : Orders) :
    (c.evaluate now orders).2.Guarded cfg rogue announced v :=
  ⟨h.config, h.accepted, h.loyal⟩

/-- A report is one step of the field's machine, with `v` or nothing selected, from a state that
satisfies `P`. -/
def Steps (field : VotedField cfg K) (rogue : List EntryKey) (v : K) (P : State K → Prop)
    (r : Report) : Prop :=
  ∃ s selected, P s ∧ (∀ w, selected = some w → w = v) ∧
    (LoyalQuorum cfg.quorum rogue field.announced v r.snap → selected = some v) ∧
    field.shown r.view = (s.step cfg.hysteresis r.now selected).adopted

variable {field : VotedField cfg K} {P : State K → Prop} {events : List Event}

/-- One evaluation is one step. -/
theorem Guarded.step (h : c.Guarded cfg rogue field.announced v)
    (hrogue : (rogue.length : Int) < cfg.quorum) (now : Int) (orders : Orders) :
    ∃ selected, (∀ w, selected = some w → w = v) ∧
      (LoyalQuorum cfg.quorum rogue field.announced v c.registry.snapshot → selected = some v) ∧
      field.state (c.evaluate now orders).2.evaluator =
        (field.state c.evaluator).step cfg.hysteresis now selected ∧
      field.shown (c.evaluate now orders).1.view =
        (field.state (c.evaluate now orders).2.evaluator).adopted := by
  have hkeys := nodup_snapshot c.registry
  have honce := h.accepted.snapshot
  have hquorum : 0 < cfg.quorum := by
    rw [← h.config]
    exact c.evaluator.quorum_pos
  obtain ⟨hstate, hshown⟩ := field.step c.evaluator (c.registry.snapshot.map (·.entry)) now orders
    h.config
  refine ⟨_, ?_, ?_, hstate, hshown⟩
  · intro w hw
    exact field.selected_loyal hquorum hrogue hkeys honce h.loyal hw
  · intro hlive
    exact field.selected_of_loyalQuorum hquorum hrogue hkeys honce h.loyal hlive

/-- An invariant that the steps of the machine keep holds before each report. -/
theorem forall_reports (hrogue : (rogue.length : Int) < cfg.quorum)
    (hkeep : ∀ s now selected, (∀ w, selected = some w → w = v) → P s →
      P (s.step cfg.hysteresis now selected))
    (h : c.Guarded cfg rogue field.announced v)
    (hloyal : ∀ event ∈ events, Loyal checksum rogue field.announced v event)
    (hinv : P (field.state c.evaluator)) :
    ∀ r ∈ c.reports checksum events, Steps field rogue v P r := by
  induction events generalizing c with
  | nil => exact List.forall_mem_nil _
  | cons event events ih =>
      rw [List.forall_mem_cons] at hloyal
      cases event with
      | datagram src buf now =>
          have hsame : (c.receive checksum src buf now).evaluator = c.evaluator := by
            rw [Consumer.receive]
            split <;> rfl
          rw [← hsame] at hinv
          exact ih (h.receive hloyal.1) hloyal.2 hinv
      | evict now => exact ih (h.evict now) hloyal.2 hinv
      | evaluate now orders =>
          rw [reports_evaluate, List.forall_mem_cons]
          obtain ⟨selected, honly, hlive, hstate, hshown⟩ := h.step hrogue now orders
          constructor
          · exact ⟨_, selected, hinv, honly, hlive, hshown.trans (congrArg State.adopted hstate)⟩
          · apply ih (h.evaluate now orders) hloyal.2
            rw [hstate]
            exact hkeep _ now selected honly hinv

end Consumer

/-! ## What the reports show -/

/-- The reports leave their initial value for `v` at most once, for no other value, and have done so by
the second of two evaluations a window apart whose snapshots are live. -/
structure Settles (shown : Adopted → K) (initial v : K) (window : Int)
    (live : List Registered → Prop) (reports : List Report) : Prop where
  only : ∀ r ∈ reports, shown r.view = initial ∨ shown r.view = v
  stays : reports.Pairwise fun a b => shown a.view = v → shown b.view = v
  arrives : reports.Pairwise fun a b =>
    window ≤ b.now - a.now → live a.snap → live b.snap → shown b.view = v

section Settles

variable {field : VotedField cfg K} {c : Consumer} {events : List Event} {clock : Int}

omit [Inhabited K] in
/-- A value in force is replaced by no other than `v`. -/
theorem step_loyal {s : State K} {window now : Int} {selected : Option K}
    (honly : ∀ w, selected = some w → w = v) :
    (s.step window now selected).adopted = s.adopted ∨
      (s.step window now selected).adopted = v :=
  (s.step_adopted window now selected).imp_right (honly _)

theorem Consumer.Guarded.settles (hrogue : (rogue.length : Int) < cfg.quorum)
    (h : c.Guarded cfg rogue field.announced v)
    (hloyal : ∀ event ∈ events, Loyal checksum rogue field.announced v event)
    (htimed : (field.state c.evaluator).TimedBy clock)
    (hclock : ∀ r ∈ c.reports checksum events, clock ≤ r.now)
    (hordered : (c.reports checksum events).Pairwise fun a b => a.now ≤ b.now) {initial : K}
    (hinitial : (field.state c.evaluator).adopted = initial ∨
      (field.state c.evaluator).adopted = v) :
    Settles field.shown initial v cfg.hysteresis
      (LoyalQuorum cfg.quorum rogue field.announced v) (c.reports checksum events) := by
  induction events generalizing c clock with
  | nil => exact ⟨List.forall_mem_nil _, .nil, .nil⟩
  | cons event events ih =>
      rw [List.forall_mem_cons] at hloyal
      cases event with
      | datagram src buf now =>
          have hsame : (c.receive checksum src buf now).evaluator = c.evaluator := by
            rw [Consumer.receive]
            split <;> rfl
          rw [← hsame] at htimed hinitial
          exact ih (h.receive hloyal.1) hloyal.2 htimed hclock hordered hinitial
      | evict now => exact ih (h.evict now) hloyal.2 htimed hclock hordered hinitial
      | evaluate now orders =>
          rw [Consumer.reports_evaluate, List.forall_mem_cons] at hclock
          rw [Consumer.reports_evaluate, List.pairwise_cons] at hordered
          have hnow : (field.state c.evaluator).TimedBy now :=
            fun w first hfirst => (htimed w first hfirst).trans hclock.1
          obtain ⟨selected, honly, hlive, hstate, hshown⟩ := h.step hrogue now orders
          have hafter : (field.state (c.evaluate now orders).2.evaluator).TimedBy now := by
            rw [hstate]
            exact hnow.step
          have hvalue : field.shown (c.evaluate now orders).1.view = initial ∨
              field.shown (c.evaluate now orders).1.view = v := by
            rw [hshown, hstate]
            rcases step_loyal honly with hsame | hv
            · rw [hsame]
              exact hinitial
            · exact Or.inr hv
          have hnext := h.evaluate now orders
          have hrest := ih hnext hloyal.2 hafter hordered.1 hordered.2 (hshown ▸ hvalue)
          rw [Consumer.reports_evaluate]
          refine ⟨List.forall_mem_cons.mpr ⟨hvalue, hrest.only⟩,
            List.pairwise_cons.mpr ⟨?_, hrest.stays⟩, List.pairwise_cons.mpr ⟨?_, hrest.arrives⟩⟩
          · -- once it is in force, every later step leaves it so
            intro b hb hv
            obtain ⟨s, _, hs, honly, _, hb⟩ := Consumer.forall_reports
              (P := fun s => s.adopted = v) hrogue
              (fun s now selected honly hs => (step_loyal honly).elim (·.trans hs) id)
              hnext hloyal.2 (hshown ▸ hv) b hb
            rw [hb]
            exact (step_loyal honly).elim (·.trans hs) id
          · -- the first evaluation starts the timer of the value, if nothing has before
            intro b hb hapart hlivea hliveb
            obtain ⟨s, _, hs, _, hselected, hb⟩ := Consumer.forall_reports
              (P := fun s => s.SeenBy v now) hrogue (fun s now selected _ hs => hs.step)
              hnext hloyal.2 (by rw [hstate, hlive hlivea]; exact hnow.seenBy) b hb
            rw [hb, hselected hliveb]
            exact hs.adopted hapart

end Settles

theorem Consumer.settles_new (defaultTTL : Int) (hcfg : (newEvaluator cfg).cfg = cfg)
    (hrogue : (rogue.length : Int) < cfg.quorum) (field : VotedField cfg K) {events : List Event}
    (hordered : ((Consumer.new defaultTTL cfg).reports checksum events).Pairwise
      fun a b => a.now ≤ b.now)
    (hloyal : ∀ event ∈ events, Loyal checksum rogue field.announced v event) :
    Settles field.shown (field.state (newEvaluator cfg)).adopted v cfg.hysteresis
      (LoyalQuorum cfg.quorum rogue field.announced v)
      ((Consumer.new defaultTTL cfg).reports checksum events) := by
  have hguarded : (Consumer.new defaultTTL cfg).Guarded cfg rogue field.announced v := by
    refine ⟨hcfg, List.forall_mem_nil _, ?_⟩
    intro r hr
    rw [mem_snapshot] at hr
    cases hr
  have htimed : ∀ clock, (field.state (Consumer.new defaultTTL cfg).evaluator).TimedBy clock := by
    intro clock w first hfirst
    rw [field.untimed _ w (fun _ => rfl)] at hfirst
    cases hfirst
  obtain ⟨clock, hclock⟩ : ∃ clock, ∀ r ∈ (Consumer.new defaultTTL cfg).reports checksum events,
      clock ≤ r.now := by
    cases hreports : (Consumer.new defaultTTL cfg).reports checksum events with
    | nil => exact ⟨0, List.forall_mem_nil _⟩
    | cons first rest =>
        rw [hreports, List.pairwise_cons] at hordered
        exact ⟨first.now, List.forall_mem_cons.mpr ⟨le_refl _, hordered.1⟩⟩
  exact hguarded.settles hrogue hloyal (htimed clock) hclock hordered (Or.inl rfl)

/-- Whatever value the announcers that are not rogue have in common, the reports settle on it. -/
def FollowsLoyal (checksum : Bytes → UInt32) (quorum window : Int) (rogue : List EntryKey)
    (events : List Event) (reports : List Report) (announced : Entry → Option K)
    (shown : Adopted → K) (initial : K) : Prop :=
  ∀ v, (∀ event ∈ events, Loyal checksum rogue announced v event) →
    Settles shown initial v window (LoyalQuorum quorum rogue announced v) reports

/-- Fewer rogue announcers than the quorum, whatever they send and when, leave every consumer on the
values that all the other authorities announce, at the top level and in each plane. -/
theorem minority_cannot_steer (checksum : Bytes → UInt32) (defaultTTL : Int)
    {quorum hysteresis : Int} {rogue : List EntryKey} (hrogue : (rogue.length : Int) < quorum)
    (hwindow : 0 < hysteresis) {events : List Event} {reports : List Report}
    (hreports : reports =
      (Consumer.new defaultTTL (unpinned quorum hysteresis)).reports checksum events)
    (hordered : reports.Pairwise fun a b => a.now ≤ b.now) :
    FollowsLoyal checksum quorum hysteresis rogue events reports
      (fun en => some en.shardBits) (·.shardBits) 0 ∧
    FollowsLoyal checksum quorum hysteresis rogue events reports
      (fun en => some en.sourceModeSSM) (·.sourceModeSSM) false ∧
    ∀ id, id ≠ 0 →
      FollowsLoyal checksum quorum hysteresis rogue events reports
        (fun en => (en.descriptor? id).bind fun d => some d.shardBits)
        (fun view => (view.plane id).shardBits) 0 ∧
      FollowsLoyal checksum quorum hysteresis rogue events reports
        (fun en => (en.descriptor? id).bind fun d => some (hasFlag d.flags domainFlagSourceModeSSM))
        (fun view => (view.plane id).sourceModeSSM) false := by
  have hcfg : (newEvaluator (unpinned quorum hysteresis)).cfg = unpinned quorum hysteresis :=
    if_neg (show ¬ quorum ≤ 0 by omega)
  subst hreports
  refine ⟨?_, ?_, ?_⟩
  · intro v hloyal
    exact Consumer.settles_new defaultTTL hcfg hrogue (VotedField.shardBits rfl hwindow) hordered
      hloyal
  · intro v hloyal
    exact Consumer.settles_new defaultTTL hcfg hrogue (VotedField.sourceMode rfl hwindow) hordered
      hloyal
  · intro id hid
    constructor
    · intro v hloyal
      exact Consumer.settles_new defaultTTL hcfg hrogue (VotedField.domainShardBits hid rfl hwindow)
        hordered hloyal
    · intro v hloyal
      exact Consumer.settles_new defaultTTL hcfg hrogue
        (VotedField.domainSourceMode hid rfl hwindow) hordered hloyal

/-- A pilot with another width. -/
def rogueManifest : ShardManifest := { pilotManifest with shardBits := 9 }

theorem wellFormed_rogueManifest : WellFormed rogueManifest :=
  checkManifest_ok.mp (show (checkManifest rogueManifest).outcome = .ok () by decide +kernel)

def pilotAddr (last : UInt8) : Addr := .v6 (.copy 16 [0x20, 0x01, last]) ""

/-- Two pilots and a rogue one are heard, and evaluated twice. -/
def rogueEvents : List Event :=
  [.datagram (pilotAddr 1) (sentDatagram crc32c pilotManifest ++ []) 0,
    .datagram (pilotAddr 3) (sentDatagram crc32c rogueManifest ++ []) 0,
    .datagram (pilotAddr 2) (sentDatagram crc32c pilotManifest ++ []) 0,
    .evaluate 0 storedOrders, .evaluate 1 storedOrders]

theorem loyal_pilot (rogue : List EntryKey) (src : Addr) (now : Int) :
    Loyal crc32c rogue (fun en => some en.shardBits) 8
      (.datagram src (sentDatagram crc32c pilotManifest ++ []) now) := by
  intro m hm _ _ w hw
  rw [decode_sentDatagram crc32c wellFormed_pilotManifest []] at hm
  cases hm
  cases hw
  rfl

theorem minority_cannot_steer_pilots : ∃ reports,
    reports = (Consumer.new 90 (unpinned 2 1)).reports crc32c rogueEvents ∧ reports.length = 2 ∧
      Settles (·.shardBits) 0 8 1
        (LoyalQuorum 2 [⟨pilotAddr 3, 7⟩] (fun en => some en.shardBits) 8) reports := by
  refine ⟨_, rfl, rfl, (minority_cannot_steer crc32c 90 (by decide) (by decide) rfl ?_).1 8 ?_⟩
  · exact List.pairwise_pair.mpr (show (0 : Int) ≤ 1 by decide)
  · intro event hevent
    simp only [rogueEvents, List.mem_cons, List.not_mem_nil, or_false] at hevent
    rcases hevent with rfl | rfl | rfl | rfl | rfl
    · exact loyal_pilot _ _ _
    · intro m hm hloyal
      rw [decode_sentDatagram crc32c wellFormed_rogueManifest []] at hm
      cases hm
      exact absurd (List.mem_singleton.mpr rfl) hloyal
    · exact loyal_pilot _ _ _
    · trivial
    · trivial

end ShardCommon.Manifest
