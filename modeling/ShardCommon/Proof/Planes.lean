import ShardCommon.Proof.ManifestRoundTrip
import ShardCommon.Proof.ShardEngine

/-!
# Planes of a manifest

Accepted descriptors reserve disjoint runs of slots, and the active range of a plane lies inside its
reservation. The decoder's rules therefore agree with those of the shard package, and indices of
different planes never meet. A successor is held against the control plane only: it may outgrow the
reservation, and the rule that a descriptor of the transactions repeats the top level does not reach
it.
-/

namespace ShardCommon.Frame

open Go Shard

variable {checksum : Bytes → UInt32} {buf : Bytes} {m : ShardManifest} {a b d : DomainDescriptor}

/-! ## Reservations -/

def DomainDescriptor.Reserves (d : DomainDescriptor) (slot : Nat) : Prop :=
  d.domainID.toNat ≤ slot ∧ slot < d.domainID.toNat + d.slotSpan.toNat

/-- Slots are marked at most once, so a run of slots is reserved only where all of it is free. -/
theorem reserveSlots_ok {slots next : List UInt8} {slot span : Nat}
    (hmarks : ∀ o ∈ slots, o ≤ 1)
    (h : (reserveSlots slots slot span).outcome = .ok next) :
    (∀ i, slot ≤ i → i < slot + span → slots[i]? = some 0) ∧ (∀ o ∈ next, o ≤ 1) ∧
      ∀ i, next[i]? = if slot ≤ i ∧ i < slot + span then some 1 else slots[i]? := by
  induction span generalizing slots slot with
  | zero =>
      cases h
      refine ⟨fun i hlow hhigh => by omega, hmarks, fun i => ?_⟩
      rw [if_neg (by omega)]
  | succ span ih =>
      simp only [reserveSlots, Run.bind_outcome_ok, Run.index_outcome_ok, reject_ok] at h
      obtain ⟨owners, howners, -, hfree, hrest⟩ := h
      have hzero : owners = 0 := by
        have hle := UInt8.le_iff_toNat_le.mp (hmarks owners (List.mem_of_getElem? howners))
        rw [UInt8.lt_iff_toNat_lt, UInt8.toNat_add] at hfree
        apply UInt8.toNat_inj.mp
        simp only [UInt8.reduceToNat] at hle hfree ⊢
        omega
      subst hzero
      have hset : ∀ i, (slots.set slot (0 + 1))[i]? = if slot = i then some 1 else slots[i]? := by
        intro i
        have hlt : slot < slots.length := (List.getElem?_eq_some_iff.mp howners).1
        rw [List.getElem?_set]
        simp only [if_pos hlt]
        rfl
      have hmarks' : ∀ o ∈ slots.set slot (0 + 1), o ≤ 1 := by
        intro o ho
        rcases List.mem_or_eq_of_mem_set ho with ho | rfl
        · exact hmarks o ho
        · exact UInt8.le_refl 1
      obtain ⟨hrange, hbound, hnext⟩ := ih hmarks' hrest
      refine ⟨?_, hbound, ?_⟩
      · intro i hlow hhigh
        by_cases heq : slot = i
        · exact heq ▸ howners
        · have hi := hrange i (by omega) (by omega)
          rwa [hset, if_neg heq] at hi
      · intro i
        rw [hnext, hset]
        split
        · rw [if_pos (by omega)]
        · split
          · rw [if_pos (by omega)]
          · rw [if_neg (by omega)]

theorem foldlM_validateDomain_reserves {topShardBits : UInt8} {topGeneration : FixedBytes 16}
    {authoritative : Bool} {ds : List DomainDescriptor} {scan stop : PlaneScan}
    (hmarks : ∀ o ∈ scan.slots, o ≤ 1)
    (h : (ds.foldlM (validateDomain topShardBits topGeneration authoritative) scan).outcome =
      .ok stop) :
    (∀ d ∈ ds, ∀ slot, d.Reserves slot → scan.slots[slot]? = some 0) ∧
      ds.Pairwise fun a b => ∀ slot, a.Reserves slot → ¬ b.Reserves slot := by
  induction ds generalizing scan with
  | nil => exact ⟨by nofun, List.Pairwise.nil⟩
  | cons d ds ih =>
      rw [List.foldlM_cons, Run.bind_outcome_ok] at h
      obtain ⟨next, hd, hrest⟩ := h
      obtain ⟨-, -, -, hreserve⟩ := validateDomain_ok hd
      obtain ⟨hfree, hmarks', hnext⟩ := reserveSlots_ok hmarks hreserve
      obtain ⟨hlater, hpairwise⟩ := ih hmarks' hrest
      -- a slot that is free after this descriptor was free before it and is none of its own
      have hother : ∀ d' ∈ ds, ∀ slot, d'.Reserves slot →
          ¬ d.Reserves slot ∧ scan.slots[slot]? = some 0 := by
        intro d' hd' slot hslot
        have hzero := hlater d' hd' slot hslot
        rw [hnext] at hzero
        split at hzero
        · cases hzero
        · next hout => exact ⟨hout, hzero⟩
      refine ⟨List.forall_mem_cons.mpr ⟨fun slot hslot => hfree slot hslot.1 hslot.2,
        fun d' hd' slot hslot => (hother d' hd' slot hslot).2⟩, List.pairwise_cons.mpr ⟨?_, hpairwise⟩⟩
      intro d' hd' slot hslot hslot'
      exact (hother d' hd' slot hslot').1 hslot

/-- The descriptors of a well-formed manifest meet the rules, and no slot has two owners. -/
theorem planes_of_wellFormed (hm : WellFormed m) :
    (∀ d ∈ m.domains, PlaneRules m.shardBits m.generationID (hasFlag m.flags flagAuthoritative) d) ∧
      ∀ a ∈ m.domains, ∀ b ∈ m.domains, a ≠ b → ∀ slot, a.Reserves slot → ¬ b.Reserves slot := by
  rcases domains_scan_of_wellFormed hm with hnil | ⟨stop, hscan⟩
  · rw [hnil]
    exact ⟨by nofun, by nofun⟩
  · have hmarks : ∀ o ∈ List.replicate (maxDomainID.toNat + 1) (0 : UInt8), o ≤ 1 := by
      intro o ho
      rw [List.eq_of_mem_replicate ho]
      decide
    have hrules : ∀ scan d next, (validateDomain m.shardBits m.generationID
        (hasFlag m.flags flagAuthoritative) scan d).outcome = .ok next →
        PlaneRules m.shardBits m.generationID (hasFlag m.flags flagAuthoritative) d :=
      fun scan d next hd => (validateDomain_ok hd).1
    have hpairwise := (foldlM_validateDomain_reserves hmarks hscan).2
    have hsymm : Std.Symm fun a b : DomainDescriptor =>
        ∀ slot, a.Reserves slot → ¬ b.Reserves slot :=
      ⟨fun a b hab slot hb ha => hab slot ha hb⟩
    refine ⟨Run.forall_mem_of_foldlM_ok hrules hscan, ?_⟩
    intro a ha b hb hne
    exact hpairwise.forall ha hb hne

/-! ## The descriptor of the transactions -/

/-- One of the two directions accepts the manifest. -/
def Accepted (checksum : Bytes → UInt32) (m : ShardManifest) : Prop :=
  (∃ buf sent, (encodeShardManifest checksum m buf).outcome = .ok sent) ∨
    ∃ buf, (decodeShardManifest checksum buf).outcome = .ok m

theorem Accepted.wellFormed (h : Accepted checksum m) : WellFormed m := by
  rcases h with ⟨buf, sent, hsent⟩ | ⟨buf, hm⟩
  · exact (encodeShardManifest_ok.mp hsent).1
  · exact wellFormed_of_decode hm

/-- The descriptor repeats the top-level width, generation and Successor block. -/
def DomainDescriptor.Repeats (d : DomainDescriptor) (m : ShardManifest) : Prop :=
  d.shardBits = m.shardBits ∧ d.generationID = m.generationID ∧ d.successor = m.successor

/-- The SuccessorValid flags of the descriptor and of the manifest agree, and where they are set the
two blocks are the same. -/
def SameTransition (d : DomainDescriptor) (m : ShardManifest) : Prop :=
  hasFlag d.flags domainFlagSuccessorValid = hasFlag m.flags flagSuccessorValid ∧
    (hasFlag m.flags flagSuccessorValid = true → d.successor = m.successor)

/-- Width and generation of a descriptor of the transactions are held against the top level; its
successor is not. -/
theorem repeats_iff_sameTransition (h : Accepted checksum m) (hd : d ∈ m.domains)
    (hzero : d.domainID = 0) : d.Repeats m ↔ SameTransition d m := by
  have hm := h.wellFormed
  have hrules := (planes_of_wellFormed hm).1 d hd
  obtain ⟨hbits, hgeneration⟩ := hrules.top hzero
  have hflagged : d.successor.isSome = hasFlag d.flags domainFlagSuccessorValid := hrules.flagged
  constructor
  · rintro ⟨-, -, hsame⟩
    exact ⟨by rw [← hflagged, hsame, hm.successorFlag], fun _ => hsame⟩
  · rintro ⟨hflags, hblocks⟩
    refine ⟨hbits, hgeneration, ?_⟩
    by_cases hvalid : hasFlag m.flags flagSuccessorValid = true
    · exact hblocks hvalid
    · have hnone : d.successor = none := by
        rw [← Option.not_isSome_iff_eq_none, hflagged, hflags]
        exact hvalid
      have htop : m.successor = none := by
        rwa [← Option.not_isSome_iff_eq_none, ← hm.successorFlag]
      rw [hnone, htop]

theorem accepted_of_check (h : (checkManifest m).outcome = .ok ()) : Accepted checksum m :=
  .inr ⟨_, decode_sentDatagram checksum (checkManifest_ok.mp h) []⟩

/-- An authority of width 8 that announces the given planes and no transition of its own. -/
def planesManifest (domains : List DomainDescriptor) : ShardManifest where
  flags := flagAuthoritative ||| flagDomainsValid
  srcIPv6 := .copy 16 [0x20, 0x01]
  instanceID := 7
  epoch := 1700000000
  ttl := 90
  announceInterval := 30
  shardBits := 8
  roleHint := 5
  generationID := .copy 16 [1]
  groups := []
  bitmap := []
  sources := []
  successor := none
  domains := domains

def transactionsPlane : DomainDescriptor := ⟨0, 8, 1, 0, 0, .copy 16 [1], none⟩

theorem repeats_transactionsPlane :
    Accepted crc32c (planesManifest [transactionsPlane]) ∧
      transactionsPlane.Repeats (planesManifest [transactionsPlane]) := by
  have haccepted : Accepted crc32c (planesManifest [transactionsPlane]) :=
    accepted_of_check (by decide +kernel)
  refine ⟨haccepted, (repeats_iff_sameTransition haccepted List.mem_cons_self rfl).mpr ?_⟩
  exact ⟨by decide, by decide⟩

/-- The transactions' plane in a transition of which the top level knows nothing. -/
def movingTransactionsPlane : DomainDescriptor :=
  ⟨0, 8, 1, domainFlagSuccessorValid, 0, .copy 16 [1], some ⟨.copy 16 [2], 9, 0, 1700003600⟩⟩

theorem movingTransactionsPlane_accepted :
    Accepted crc32c (planesManifest [movingTransactionsPlane]) ∧
      movingTransactionsPlane.domainID = 0 ∧
      ¬ movingTransactionsPlane.Repeats (planesManifest [movingTransactionsPlane]) := by
  refine ⟨accepted_of_check (by decide +kernel), rfl, ?_⟩
  rintro ⟨-, -, hsame⟩
  cases hsame

/-! ## Ranges of indices -/

/-- The index belongs to the plane of this domain at this width. -/
def InPlane (id bits : UInt8) (idx : Nat) : Prop := id.toNat <<< 12 ≤ idx ∧ idx < planeEnd id bits

/-- The index is used by the active generation of the plane or by the one that is to follow. -/
def DomainDescriptor.Uses (d : DomainDescriptor) (idx : Nat) : Prop :=
  InPlane d.domainID d.shardBits idx ∨
    ∃ s, d.successor = some s ∧ InPlane d.domainID s.shardBits idx

/-- A range of at most fifteen bits in whole slots. -/
theorem width_le_iff {bits : UInt8} (h : bits ≤ maxPlaneShardBits) (slots : Nat) :
    1 <<< bits.toNat ≤ slots * 4096 ↔ (impliedSpan bits).toNat ≤ slots := by
  have hle : bits.toNat ≤ 15 := UInt8.le_iff_toNat_le.mp h
  by_cases hwide : 12 < bits
  · have hlow : 12 < bits.toNat := UInt8.lt_iff_toNat_lt.mp hwide
    have hcases : bits = 13 ∨ bits = 14 ∨ bits = 15 := by
      simp only [← UInt8.toNat_inj, UInt8.reduceToNat]
      omega
    rcases hcases with rfl | rfl | rfl <;> simp only [impliedSpan, if_pos hwide] <;>
      simp [Nat.shiftLeft_eq] <;> omega
  · have hnarrow : bits.toNat ≤ 12 := by
      rw [UInt8.lt_iff_toNat_lt] at hwide
      exact Nat.le_of_not_lt hwide
    have hpow : 2 ^ bits.toNat ≤ 2 ^ 12 := Nat.pow_le_pow_right (by decide) hnarrow
    have hpos : 0 < 2 ^ bits.toNat := Nat.two_pow_pos _
    rw [impliedSpan, if_neg hwide, Nat.shiftLeft_eq, Nat.one_mul, UInt8.toNat_one]
    omega

theorem impliedSpan_pos {bits : UInt8} (h : bits ≤ maxPlaneShardBits) :
    0 < (impliedSpan bits).toNat := by
  have hwidth := width_le_iff h 0
  have hpos := Nat.two_pow_pos bits.toNat
  rw [Nat.shiftLeft_eq, Nat.one_mul] at hwidth
  omega

/-- A range reaches the first index of a slot exactly when its span covers the slot. -/
theorem slot_lt_planeEnd_iff {id bits : UInt8} (h : bits ≤ maxPlaneShardBits) (slot : Nat) :
    slot <<< 12 < planeEnd id bits ↔ slot < id.toNat + (impliedSpan bits).toNat := by
  have hwidth := width_le_iff h (slot - id.toNat)
  have hpos : 0 < 1 <<< bits.toNat := by
    rw [Nat.shiftLeft_eq, Nat.one_mul]
    exact Nat.two_pow_pos _
  simp only [planeEnd, Nat.shiftLeft_eq slot, Nat.shiftLeft_eq id.toNat]
  generalize 1 <<< bits.toNat = width at *
  omega

theorem slot_of_inPlane {id bits : UInt8} {idx : Nat} (hbits : bits ≤ maxPlaneShardBits)
    (h : InPlane id bits idx) :
    id.toNat ≤ idx / 4096 ∧ idx / 4096 < id.toNat + (impliedSpan bits).toNat := by
  obtain ⟨hlow, hhigh⟩ := h
  rw [Nat.shiftLeft_eq] at hlow
  refine ⟨by omega, (slot_lt_planeEnd_iff hbits _).mp ?_⟩
  rw [Nat.shiftLeft_eq]
  omega

theorem domainMaxBits_le (id : UInt8) : domainMaxBits id ≤ maxPlaneShardBits := by
  rw [domainMaxBits]
  split <;> decide

/-- The two packages compute the same span. -/
theorem slotSpan_eq_impliedSpan {bits : UInt8} (h : bits ≤ maxPlaneShardBits) :
    slotSpan bits.toUInt64 = impliedSpan bits := by
  have hle : bits.toNat ≤ 15 := UInt8.le_iff_toNat_le.mp h
  have hcases : bits ≤ 12 ∨ bits = 13 ∨ bits = 14 ∨ bits = 15 := by
    simp only [UInt8.le_iff_toNat_le, ← UInt8.toNat_inj, UInt8.reduceToNat]
    omega
  rcases hcases with hnarrow | rfl | rfl | rfl
  · have hwide : bits.toUInt64 ≤ 12 := by
      rw [UInt64.le_iff_toNat_le, UInt8.toNat_toUInt64]
      exact UInt8.le_iff_toNat_le.mp hnarrow
    rw [slotSpan, if_pos hwide, impliedSpan, if_neg (UInt8.not_lt.mpr hnarrow)]
  all_goals rfl

section Rules

variable {topShardBits : UInt8} {topGeneration : FixedBytes 16} {authoritative : Bool}
  (h : PlaneRules topShardBits topGeneration authoritative d)

include h

theorem PlaneRules.activeBits : d.shardBits ≤ maxPlaneShardBits :=
  UInt8.le_trans h.shardBits (domainMaxBits_le _)

theorem PlaneRules.successorBits {s : SuccessorBlock} (hs : d.successor = some s) :
    s.shardBits ≤ maxPlaneShardBits :=
  UInt8.le_trans (h.successor s hs).2.1 (domainMaxBits_le _)

theorem PlaneRules.reserves_active {idx : Nat} (hidx : InPlane d.domainID d.shardBits idx) :
    d.Reserves (idx / 4096) := by
  obtain ⟨hlow, hhigh⟩ := slot_of_inPlane h.activeBits hidx
  exact ⟨hlow, Nat.lt_of_lt_of_le hhigh (Nat.add_le_add_left (UInt8.le_iff_toNat_le.mp h.span) _)⟩

theorem PlaneRules.reserves_first : d.Reserves d.domainID.toNat := by
  have hone := impliedSpan_pos h.activeBits
  have hspan := UInt8.le_iff_toNat_le.mp h.span
  exact ⟨Nat.le_refl _, by omega⟩

end Rules

/-- The slots of a successor's width end before the next domain of the manifest. -/
def SuccessorsFit (m : ShardManifest) : Prop :=
  ∀ a ∈ m.domains, ∀ b ∈ m.domains, ∀ s, a.successor = some s → a.domainID < b.domainID →
    a.domainID.toNat + (slotSpan s.shardBits.toUInt64).toNat ≤ b.domainID.toNat

/-- What a plane uses ends before the base of the next one. -/
theorem uses_lt_of_successorsFit (hm : WellFormed m) (hfit : SuccessorsFit m) (ha : a ∈ m.domains)
    (hb : b ∈ m.domains) (hlt : a.domainID < b.domainID) {idx : Nat} (hidx : a.Uses idx) :
    idx / 4096 < b.domainID.toNat := by
  obtain ⟨hrules, hapart⟩ := planes_of_wellFormed hm
  have hne : a ≠ b := by
    rintro rfl
    exact UInt8.lt_irrefl _ hlt
  have hbase := UInt8.lt_iff_toNat_lt.mp hlt
  rcases hidx with hactive | ⟨s, hs, hsuccessor⟩
  · -- otherwise the reservation of the active range would hold the other plane's first slot
    by_contra hge
    obtain ⟨-, hhigh⟩ := (hrules a ha).reserves_active hactive
    exact hapart a ha b hb hne b.domainID.toNat ⟨by omega, by omega⟩ (hrules b hb).reserves_first
  · have hspan := slotSpan_eq_impliedSpan ((hrules a ha).successorBits hs)
    obtain ⟨-, hhigh⟩ := slot_of_inPlane ((hrules a ha).successorBits hs) hsuccessor
    have hend := hfit a ha b hb s hs hlt
    rw [hspan] at hend
    omega

theorem slot_of_uses (hm : WellFormed m) (hd : d ∈ m.domains) {idx : Nat} (hidx : d.Uses idx) :
    d.domainID.toNat ≤ idx / 4096 := by
  have hrules := (planes_of_wellFormed hm).1 d hd
  rcases hidx with hactive | ⟨s, hs, hsuccessor⟩
  · exact (slot_of_inPlane hrules.activeBits hactive).1
  · exact (slot_of_inPlane (hrules.successorBits hs) hsuccessor).1

/-- No index belongs to two planes of an accepted manifest, now or after a transition, exactly when
no successor's span reaches the next domain. -/
theorem planes_apart_iff_successorsFit (h : (decodeShardManifest checksum buf).outcome = .ok m) :
    (∀ a ∈ m.domains, ∀ b ∈ m.domains, a ≠ b → ∀ idx, a.Uses idx → ¬ b.Uses idx) ↔
      SuccessorsFit m := by
  have hm := wellFormed_of_decode h
  obtain ⟨hrules, hapart⟩ := planes_of_wellFormed hm
  constructor
  · intro huses a ha b hb s hs hlt
    by_contra hreach
    have hne : a ≠ b := by
      rintro rfl
      exact UInt8.lt_irrefl _ hlt
    have hbits := (hrules a ha).successorBits hs
    rw [slotSpan_eq_impliedSpan hbits, Nat.not_le, ← slot_lt_planeEnd_iff hbits] at hreach
    have hbase := UInt8.lt_iff_toNat_lt.mp hlt
    -- the first index of `b` lies in the widened range of `a`
    refine huses a ha b hb hne (b.domainID.toNat <<< 12) (.inr ⟨s, hs, ?_, hreach⟩) (.inl ⟨le_rfl, ?_⟩)
    · rw [Nat.shiftLeft_eq, Nat.shiftLeft_eq]
      omega
    · have hactive := (hrules b hb).activeBits
      exact (slot_lt_planeEnd_iff hactive _).mpr (Nat.lt_add_of_pos_right (impliedSpan_pos hactive))
  · intro hfit a ha b hb hne idx hidx hidx'
    rcases Nat.lt_trichotomy a.domainID.toNat b.domainID.toNat with hlt | heq | hgt
    · have hstop := uses_lt_of_successorsFit hm hfit ha hb (UInt8.lt_iff_toNat_lt.mpr hlt) hidx
      have hstart := slot_of_uses hm hb hidx'
      omega
    · have hfirst := (hrules a ha).reserves_first
      exact hapart a ha b hb hne _ hfirst (heq ▸ (hrules b hb).reserves_first)
    · have hstop := uses_lt_of_successorsFit hm hfit hb ha (UInt8.lt_iff_toNat_lt.mpr hgt) hidx'
      have hstart := slot_of_uses hm ha hidx
      omega

def beefPlane : DomainDescriptor := ⟨1, 12, 1, 0, 0, .copy 16 [3], none⟩

def nextPlane : DomainDescriptor := ⟨2, 4, 1, 0, 0, .copy 16 [4], none⟩

theorem decodes_planesManifest {domains : List DomainDescriptor}
    (h : (checkManifest (planesManifest domains)).outcome = .ok ()) :
    ∃ buf, (decodeShardManifest crc32c buf).outcome = .ok (planesManifest domains) :=
  ⟨_, decode_sentDatagram crc32c (checkManifest_ok.mp h) []⟩

theorem planes_apart_two : ∃ buf,
    (decodeShardManifest crc32c buf).outcome = .ok (planesManifest [beefPlane, nextPlane]) ∧
      ∀ idx, beefPlane.Uses idx → ¬ nextPlane.Uses idx := by
  obtain ⟨buf, hdecode⟩ := @decodes_planesManifest [beefPlane, nextPlane] (by decide +kernel)
  refine ⟨buf, hdecode, (planes_apart_iff_successorsFit hdecode).mpr ?_ beefPlane List.mem_cons_self
    nextPlane (List.mem_cons_of_mem _ List.mem_cons_self) (by decide)⟩
  intro a ha b _ s hs
  rcases List.mem_pair.mp ha with rfl | rfl <;> cases hs

/-- Plane 1 is about to double from all of slot 1 into slot 2, which is plane 2's. -/
def wideningPlane : DomainDescriptor :=
  ⟨1, 12, 1, domainFlagSuccessorValid, 0, .copy 16 [3], some ⟨.copy 16 [5], 13, 0, 1700003600⟩⟩

theorem wideningPlane_collides : ∃ buf,
    (decodeShardManifest crc32c buf).outcome = .ok (planesManifest [wideningPlane, nextPlane]) ∧
      wideningPlane ≠ nextPlane ∧ wideningPlane.Uses 0x2000 ∧ nextPlane.Uses 0x2000 := by
  obtain ⟨buf, hdecode⟩ := @decodes_planesManifest [wideningPlane, nextPlane] (by decide +kernel)
  refine ⟨buf, hdecode, by decide, ?_, ?_⟩
  · exact .inr ⟨_, rfl, by decide, by decide⟩
  · exact .inl ⟨by decide, by decide⟩

/-! ## Indices of keys -/

theorem inPlane_iff {id bits : UInt8} {idx : Nat} :
    InPlane id bits idx ↔ id.toNat * 4096 ≤ idx ∧ idx < id.toNat * 4096 + 2 ^ bits.toNat := by
  rw [InPlane, planeEnd, Nat.shiftLeft_eq, Nat.shiftLeft_eq, Nat.one_mul]

/-- An accepted descriptor is a plane of the shard package, of the span that it reserves at least. -/
theorem PlaneRules.validatePlane_ok {topShardBits : UInt8} {topGeneration : FixedBytes 16}
    {authoritative : Bool} (h : PlaneRules topShardBits topGeneration authoritative d) :
    (validatePlane d.domainID d.shardBits.toUInt64).outcome = .ok () ∧
      slotSpan d.shardBits.toUInt64 ≤ d.slotSpan := by
  rw [slotSpan_eq_impliedSpan h.activeBits]
  refine ⟨Shard.validatePlane_ok.mpr ⟨h.domainID, ?_, ?_, ?_⟩, h.span⟩
  · rw [UInt64.le_iff_toNat_le, UInt8.toNat_toUInt64]
    exact UInt8.le_iff_toNat_le.mp h.activeBits
  · intro htx
    have hbits := h.shardBits
    rw [htx] at hbits
    rw [UInt64.le_iff_toNat_le, UInt8.toNat_toUInt64]
    exact UInt8.le_iff_toNat_le.mp hbits
  · have hrange := h.range
    rw [planeEnd, Nat.shiftLeft_eq, Nat.shiftLeft_eq, Nat.one_mul] at hrange
    rwa [UInt8.toNat_toUInt64]

/-- The descriptors of an accepted manifest are planes of the shard package inside their reservations;
indices of keys lie in a slot reserved by their descriptor and below the control plane, are never
shared by two planes, and are no transaction's unless the plane is that of the transactions. -/
theorem manifest_planes_agree (h : (decodeShardManifest checksum buf).outcome = .ok m) :
    (∀ d ∈ m.domains, (validatePlane d.domainID d.shardBits.toUInt64).outcome = .ok () ∧
      slotSpan d.shardBits.toUInt64 ≤ d.slotSpan) ∧
    (∀ d ∈ m.domains, ∀ mcPrefix groupID, ∃ p : PlaneEngine,
      (newPlane mcPrefix groupID d.shardBits.toUInt64 d.domainID).outcome = .ok p ∧
        ∀ key, d.Reserves (planeOf (p.groupIndex key).toUInt16).toNat ∧ p.groupIndex key < 0xF800 ∧
          (d.domainID ≠ 0 → ∀ mcPrefix groupID txid,
            p.groupIndex key ≠ (new mcPrefix groupID m.shardBits.toUInt64).groupIndex txid)) ∧
    ∀ a ∈ m.domains, ∀ b ∈ m.domains, a ≠ b → ∀ mcPrefix groupID mcPrefix' groupID' p q,
      (newPlane mcPrefix groupID a.shardBits.toUInt64 a.domainID).outcome = .ok p →
      (newPlane mcPrefix' groupID' b.shardBits.toUInt64 b.domainID).outcome = .ok q →
        ∀ key key', p.groupIndex key ≠ q.groupIndex key' := by
  have hm := wellFormed_of_decode h
  obtain ⟨hrules, hapart⟩ := planes_of_wellFormed hm
  have hslot : ∀ d ∈ m.domains, ∀ mcPrefix groupID p,
      (newPlane mcPrefix groupID d.shardBits.toUInt64 d.domainID).outcome = .ok p →
        ∀ key, d.Reserves ((p.groupIndex key).toNat / 4096) := by
    intro d hd mcPrefix groupID p hp key
    obtain ⟨hlow, hhigh, -⟩ := newPlane_ok hp key
    rw [UInt8.toNat_toUInt64] at hhigh
    exact (hrules d hd).reserves_active (inPlane_iff.mpr ⟨hlow, hhigh⟩)
  refine ⟨fun d hd => (hrules d hd).validatePlane_ok, ?_, ?_⟩
  · intro d hd mcPrefix groupID
    have hp : (newPlane mcPrefix groupID d.shardBits.toUInt64 d.domainID).outcome =
        .ok ⟨new mcPrefix groupID d.shardBits.toUInt64, planeBase d.domainID⟩ :=
      Run.bind_outcome_ok.mpr ⟨(), (hrules d hd).validatePlane_ok.1, rfl⟩
    refine ⟨_, hp, fun key => ?_⟩
    obtain ⟨hlow, hhigh, hcontrol⟩ := newPlane_ok hp key
    refine ⟨?_, UInt32.lt_iff_toNat_lt.mpr hcontrol, ?_⟩
    · rw [toNat_planeOf hcontrol]
      exact hslot d hd mcPrefix groupID _ hp key
    · intro hzero mcPrefix' groupID' txid heq
      have htop := UInt8.le_iff_toNat_le.mp hm.shardBits
      have hwidth : m.shardBits.toUInt64 ≤ 32 := by
        rw [UInt64.le_iff_toNat_le, UInt8.toNat_toUInt64]
        exact Nat.le_trans htop (by decide)
      have hlt := groupIndex_lt mcPrefix' groupID' hwidth txid
      have hpow : 2 ^ m.shardBits.toNat ≤ 2 ^ 12 := Nat.pow_le_pow_right (by decide) htop
      have hpos : 0 < d.domainID.toNat := Nat.pos_of_ne_zero fun hnat => hzero (UInt8.toNat_inj.mp hnat)
      rw [← heq, UInt8.toNat_toUInt64] at hlt
      omega
  · intro a ha b hb hne mcPrefix groupID mcPrefix' groupID' p q hp hq key key' heq
    have hother := hslot b hb mcPrefix' groupID' q hq key'
    rw [← heq] at hother
    exact hapart a ha b hb hne _ (hslot a ha mcPrefix groupID p hp key) hother

theorem manifest_planes_agree_two : ∃ buf p q,
    (decodeShardManifest crc32c buf).outcome = .ok (planesManifest [beefPlane, nextPlane]) ∧
      (newPlane 0xFF05 0x000B 12 1).outcome = .ok p ∧ (newPlane 0xFF05 0x000B 4 2).outcome = .ok q ∧
      ∀ key key', p.groupIndex key ≠ q.groupIndex key' := by
  obtain ⟨buf, hdecode⟩ := @decodes_planesManifest [beefPlane, nextPlane] (by decide +kernel)
  have hbeef : beefPlane ∈ [beefPlane, nextPlane] := List.mem_cons_self
  have hnext : nextPlane ∈ [beefPlane, nextPlane] := List.mem_cons_of_mem _ List.mem_cons_self
  obtain ⟨-, hplanes, hapart⟩ := manifest_planes_agree hdecode
  obtain ⟨p, hp, -⟩ := hplanes beefPlane hbeef 0xFF05 0x000B
  obtain ⟨q, hq, -⟩ := hplanes nextPlane hnext 0xFF05 0x000B
  exact ⟨buf, p, q, hdecode, hp, hq, hapart beefPlane hbeef nextPlane hnext (by decide) _ _ _ _ p q hp hq⟩

end ShardCommon.Frame
