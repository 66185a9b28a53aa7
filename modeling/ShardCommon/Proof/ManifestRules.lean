import ShardCommon.Proof.ManifestLayout

/-!
# Well-formed manifests

The encoder's checks on a manifest, and the decoder's on counts and sections, come down to one
predicate.
-/

namespace ShardCommon.Frame

open Go

variable {m : ShardManifest}

/-- The coherence rules between the flags of a manifest and its sections. -/
structure WellFormed (m : ShardManifest) : Prop where
  shardBits : m.shardBits ≤ maxShardBits
  groupsFlag : hasFlag m.flags flagGroupsValid = true ↔ m.groups ≠ [] ∨ m.bitmap ≠ []
  oneForm : m.groups = [] ∨ m.bitmap = []
  groupsSorted : m.groups.IsChain (· < ·)
  groupsLength : m.groups.length ≤ 0xFFFF
  bitmapLength : m.bitmap.length ≤ 0xFFFF
  sourcesFlag : hasFlag m.flags flagSourcesValid = true ↔ m.sources ≠ []
  sourcesLength : m.sources.length ≤ 0xFFFF
  pilotOnly : hasFlag m.flags flagPilotOnly = true → hasFlag m.flags flagAuthoritative = true
  successorFlag : hasFlag m.flags flagSuccessorValid = m.successor.isSome
  successorAuthoritative :
    hasFlag m.flags flagSuccessorValid = true → hasFlag m.flags flagAuthoritative = true
  successorBits : ∀ s, m.successor = some s →
    s.shardBits ≤ maxShardBits ∧ withinOneBit m.shardBits s.shardBits = true
  domainsFlag : hasFlag m.flags flagDomainsValid = true ↔ m.domains ≠ []
  domains : m.domains ≠ [] →
    (validateDomains m.domains m.shardBits m.generationID
      (hasFlag m.flags flagAuthoritative)).outcome = .ok ()

theorem reject_ok {bad : Prop} [Decidable bad] {sentinel : ShardManifestSentinel} {detail : String}
    {u : Unit} : (reject bad sentinel detail).outcome = .ok u ↔ ¬ bad := Run.failIf_outcome_ok

theorem validateFlags_ok {flags : UInt8} {u : Unit} :
    (validateFlags flags).outcome = .ok u ↔
      (hasFlag flags flagPilotOnly = true → hasFlag flags flagAuthoritative = true) := by
  rw [validateFlags, reject_ok, not_and, not_not]

theorem checkSorted_ok {i : Nat} {gs : List UInt16} {u : Unit} :
    (checkSorted i gs).outcome = .ok u ↔ gs.IsChain (· < ·) := by
  induction gs generalizing i with
  | nil => simp [checkSorted]
  | cons g gs ih =>
      cases gs with
      | nil => simp [checkSorted]
      | cons g' gs =>
          simp only [checkSorted, Run.bind_outcome_ok, reject_ok, ih, List.isChain_cons_cons,
            UInt16.not_le, exists_and_left, exists_const]

theorem checkGroups_ok {u : Unit} :
    (checkGroups m).outcome = .ok u ↔
      (hasFlag m.flags flagGroupsValid = true ↔ m.groups ≠ [] ∨ m.bitmap ≠ []) ∧
      (m.groups = [] ∨ m.bitmap = []) ∧ m.groups.IsChain (· < ·) ∧
      m.groups.length ≤ 0xFFFF ∧ m.bitmap.length ≤ 0xFFFF := by
  rw [checkGroups]
  cases hflag : hasFlag m.flags flagGroupsValid <;> cases hgroups : m.groups <;>
    cases hbitmap : m.bitmap <;>
    simp [Run.bind_outcome_ok, reject_ok, checkSorted_ok]

theorem checkSources_ok {u : Unit} :
    (checkSources m).outcome = .ok u ↔
      (hasFlag m.flags flagSourcesValid = true ↔ m.sources ≠ []) ∧ m.sources.length ≤ 0xFFFF := by
  rw [checkSources]
  cases hflag : hasFlag m.flags flagSourcesValid <;> cases hsources : m.sources <;>
    simp [Run.bind_outcome_ok, reject_ok]

theorem checkSuccessorBits_ok {s : SuccessorBlock} {u : Unit} :
    (checkSuccessorBits m s).outcome = .ok u ↔
      s.shardBits ≤ maxShardBits ∧ withinOneBit m.shardBits s.shardBits = true := by
  simp [checkSuccessorBits, Run.bind_outcome_ok, reject_ok]

theorem checkSuccessor_ok {u : Unit} :
    (checkSuccessor m).outcome = .ok u ↔
      hasFlag m.flags flagSuccessorValid = m.successor.isSome ∧
      (hasFlag m.flags flagSuccessorValid = true → hasFlag m.flags flagAuthoritative = true) ∧
      ∀ s, m.successor = some s →
        s.shardBits ≤ maxShardBits ∧ withinOneBit m.shardBits s.shardBits = true := by
  rw [checkSuccessor]
  cases hflag : hasFlag m.flags flagSuccessorValid <;> cases hsuccessor : m.successor <;>
    simp [Run.bind_outcome_ok, reject_ok, checkSuccessorBits_ok]

theorem checkDomains_ok {u : Unit} :
    (checkDomains m).outcome = .ok u ↔
      (hasFlag m.flags flagDomainsValid = true ↔ m.domains ≠ []) ∧
      (m.domains ≠ [] → (validateDomains m.domains m.shardBits m.generationID
        (hasFlag m.flags flagAuthoritative)).outcome = .ok ()) := by
  rw [checkDomains]
  cases hflag : hasFlag m.flags flagDomainsValid <;> cases hdomains : m.domains <;>
    simp [Run.bind_outcome_ok, reject_ok]

/-- The encoder accepts exactly the well-formed manifests. -/
theorem checkManifest_ok {u : Unit} : (checkManifest m).outcome = .ok u ↔ WellFormed m := by
  simp only [checkManifest, Run.bind_outcome_ok, reject_ok, checkGroups_ok, checkSources_ok,
    validateFlags_ok, checkSuccessor_ok, checkDomains_ok, exists_and_left, exists_const, UInt8.not_lt]
  constructor
  · rintro ⟨hbits, ⟨hflag, hform, hsorted, hgroups, hbitmap⟩, ⟨hsources, hlength⟩, hpilot,
      ⟨hsuccessor, hauthoritative, hshift⟩, hdomains, hvalid⟩
    exact ⟨hbits, hflag, hform, hsorted, hgroups, hbitmap, hsources, hlength, hpilot, hsuccessor,
      hauthoritative, hshift, hdomains, hvalid⟩
  · intro h
    exact ⟨h.shardBits,
      ⟨h.groupsFlag, h.oneForm, h.groupsSorted, h.groupsLength, h.bitmapLength⟩,
      ⟨h.sourcesFlag, h.sourcesLength⟩, h.pilotOnly,
      ⟨h.successorFlag, h.successorAuthoritative, h.successorBits⟩, h.domainsFlag, h.domains⟩

/-- The decoder's rules on the counts of a header. -/
theorem checkCounts_ok {flags : UInt8} {groupCount bitmapBytes sourceCount : UInt16} {u : Unit} :
    (checkCounts flags groupCount bitmapBytes sourceCount).outcome = .ok u ↔
      (hasFlag flags flagGroupsValid = true ↔ groupCount ≠ 0 ∨ bitmapBytes ≠ 0) ∧
      (groupCount = 0 ∨ bitmapBytes = 0) ∧
      (hasFlag flags flagSourcesValid = true ↔ sourceCount ≠ 0) ∧
      (hasFlag flags flagPilotOnly = true → hasFlag flags flagAuthoritative = true) ∧
      (hasFlag flags flagSuccessorValid = true → hasFlag flags flagAuthoritative = true) := by
  have hpos : ∀ v : UInt16, 0 < v ↔ v ≠ 0 := fun v => UInt16.pos_iff_ne_zero
  rw [checkCounts]
  cases hgroups : hasFlag flags flagGroupsValid <;> cases hsources : hasFlag flags flagSourcesValid <;>
    by_cases hcount : groupCount = 0 <;> by_cases hbytes : bitmapBytes = 0 <;>
    simp [Run.bind_outcome_ok, reject_ok, validateFlags_ok, hpos, hcount, hbytes]

/-! ## What the rules on planes give -/

section Planes

variable {topShardBits : UInt8} {topGeneration : FixedBytes 16} {authoritative : Bool}
  {d : DomainDescriptor} {ds : List DomainDescriptor} {scan next stop : PlaneScan}

/-- The rules on a descriptor alone, without those on the other descriptors. -/
structure PlaneRules (topShardBits : UInt8) (topGeneration : FixedBytes 16) (authoritative : Bool)
    (d : DomainDescriptor) : Prop where
  domainID : d.domainID ≤ maxDomainID
  shardBits : d.shardBits ≤ domainMaxBits d.domainID
  range : planeEnd d.domainID d.shardBits ≤ domainControlBase
  span : impliedSpan d.shardBits ≤ d.slotSpan
  slots : d.domainID.toNat + d.slotSpan.toNat ≤ maxDomainID.toNat + 1
  top : d.domainID = 0 → d.shardBits = topShardBits ∧ d.generationID = topGeneration
  flagged : SuccessorFlagged d
  successor : ∀ s, d.successor = some s → authoritative = true ∧
    s.shardBits ≤ domainMaxBits d.domainID ∧ withinOneBit d.shardBits s.shardBits = true ∧
    planeEnd d.domainID s.shardBits ≤ domainControlBase

theorem validateDomainSuccessor_ok {s : SuccessorBlock} {u : Unit} :
    (validateDomainSuccessor d authoritative s).outcome = .ok u ↔ authoritative = true ∧
      s.shardBits ≤ domainMaxBits d.domainID ∧ withinOneBit d.shardBits s.shardBits = true ∧
      planeEnd d.domainID s.shardBits ≤ domainControlBase := by
  simp [validateDomainSuccessor, Run.bind_outcome_ok, reject_ok]

/-- An accepted descriptor meets the rules, names a plane not seen before and reserves its slots. -/
theorem validateDomain_ok
    (h : (validateDomain topShardBits topGeneration authoritative scan d).outcome = .ok next) :
    PlaneRules topShardBits topGeneration authoritative d ∧
      scan.seen[d.domainID.toNat]? = some false ∧
      next.seen = scan.seen.set d.domainID.toNat true ∧
      (reserveSlots scan.slots d.domainID.toNat d.slotSpan.toNat).outcome = .ok next.slots := by
  simp only [validateDomain, Run.bind_outcome_ok, reject_ok] at h
  obtain ⟨-, hid, seen, hseen, -, hfresh, -, hbits, -, hrange, -, hspan, -, hslots, slots, hreserve,
    -, htop, -, hflag, hnext⟩ := h
  rw [Run.index_outcome_ok] at hseen
  rw [hseen, Bool.eq_false_of_not_eq_true hfresh]
  have hagree : d.domainID = 0 → d.shardBits = topShardBits ∧ d.generationID = topGeneration := by
    intro hzero
    by_contra hne
    exact htop ⟨hzero, Classical.not_and_iff_not_or_not.mp hne⟩
  have hrules := @PlaneRules.mk topShardBits topGeneration authoritative d (UInt8.not_lt.mp hid)
    (UInt8.not_lt.mp hbits) (Nat.le_of_not_lt hrange) (UInt8.not_lt.mp hspan)
    (Nat.le_of_not_lt hslots) hagree (not_not.mp hflag)
  cases hsucc : d.successor with
  | none =>
      rw [hsucc] at hnext hrules
      cases hnext
      exact ⟨hrules (by rintro _ ⟨⟩), rfl, rfl, hreserve⟩
  | some s =>
      rw [hsucc] at hnext hrules
      obtain ⟨_, hsuccessor, hpure⟩ := Run.bind_outcome_ok.mp hnext
      cases hpure
      refine ⟨hrules ?_, rfl, rfl, hreserve⟩
      rintro s' ⟨⟩
      exact validateDomainSuccessor_ok.mp hsuccessor

/-- The scan marks each plane it has seen, so an accepted list names no plane twice. -/
theorem foldlM_validateDomain_nodup
    (h : (ds.foldlM (validateDomain topShardBits topGeneration authoritative) scan).outcome =
      .ok stop) :
    (ds.map (·.domainID)).Nodup ∧ ∀ d ∈ ds, scan.seen[d.domainID.toNat]? = some false := by
  induction ds generalizing scan with
  | nil => exact ⟨List.nodup_nil, by nofun⟩
  | cons d ds ih =>
      rw [List.foldlM_cons, Run.bind_outcome_ok] at h
      obtain ⟨next, hd, hrest⟩ := h
      obtain ⟨-, hfresh, hmark, -⟩ := validateDomain_ok hd
      obtain ⟨hnodup, hunseen⟩ := ih hrest
      have hother : ∀ d' ∈ ds, d.domainID.toNat ≠ d'.domainID.toNat ∧
          scan.seen[d'.domainID.toNat]? = some false := by
        intro d' hd'
        have hunseen' := hunseen d' hd'
        rw [hmark, List.getElem?_set] at hunseen'
        split at hunseen'
        · split at hunseen' <;> cases hunseen'
        · next hne => exact ⟨hne, hunseen'⟩
      refine ⟨?_, List.forall_mem_cons.mpr ⟨hfresh, fun d' hd' => (hother d' hd').2⟩⟩
      rw [List.map_cons, List.nodup_cons]
      refine ⟨fun hmem => ?_, hnodup⟩
      obtain ⟨d', hd', heq⟩ := List.mem_map.mp hmem
      exact (hother d' hd').1 (congrArg UInt8.toNat heq.symm)

/-- An accepted section is a scan over one to fifteen descriptors. -/
theorem validateDomains_scan {u : Unit}
    (h : (validateDomains ds topShardBits topGeneration authoritative).outcome = .ok u) :
    ds ≠ [] ∧ ds.length ≤ maxDomainDescriptors ∧
      ∃ stop, (ds.foldlM (validateDomain topShardBits topGeneration authoritative)
        ⟨List.replicate (maxDomainID.toNat + 1) false,
          List.replicate (maxDomainID.toNat + 1) 0⟩).outcome = .ok stop := by
  simp only [validateDomains, Run.bind_outcome_ok, reject_ok] at h
  obtain ⟨-, hcount, stop, hscan, -⟩ := h
  obtain ⟨hnonempty, hmax⟩ := not_or.mp hcount
  exact ⟨fun hnil => hnonempty (List.length_eq_zero_iff.mpr hnil), not_lt.mp hmax, stop, hscan⟩

/-- Accepted descriptors number at most fifteen, and their flags tell which have a successor. -/
theorem validateDomains_ok {u : Unit}
    (h : (validateDomains ds topShardBits topGeneration authoritative).outcome = .ok u) :
    ds ≠ [] ∧ ds.length ≤ maxDomainDescriptors ∧ ∀ d ∈ ds, SuccessorFlagged d := by
  obtain ⟨hne, hmax, stop, hscan⟩ := validateDomains_scan h
  refine ⟨hne, hmax, Run.forall_mem_of_foldlM_ok ?_ hscan⟩
  intro scan d next hd
  exact (validateDomain_ok hd).1.flagged

end Planes

/-- A well-formed manifest without planes, or the scan that accepted them. -/
theorem domains_scan_of_wellFormed (hm : WellFormed m) :
    m.domains = [] ∨ ∃ stop, (m.domains.foldlM (validateDomain m.shardBits m.generationID
      (hasFlag m.flags flagAuthoritative)) ⟨List.replicate (maxDomainID.toNat + 1) false,
        List.replicate (maxDomainID.toNat + 1) 0⟩).outcome = .ok stop := by
  by_cases hnil : m.domains = []
  · exact .inl hnil
  · exact .inr (validateDomains_scan (hm.domains hnil)).2.2

theorem nodup_domainID_of_wellFormed (hm : WellFormed m) : (m.domains.map (·.domainID)).Nodup := by
  rcases domains_scan_of_wellFormed hm with hnil | ⟨stop, hscan⟩
  · rw [hnil]
    exact List.nodup_nil
  · exact (foldlM_validateDomain_nodup hscan).1

end ShardCommon.Frame
