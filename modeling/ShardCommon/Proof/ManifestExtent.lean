import ShardCommon.Lib.FrontReads
import ShardCommon.Proof.ManifestRoundTrip

/-!
# The extent of a manifest datagram

`DecodeShardManifest` measures a datagram from its counts and flags, and then reads its sections
without looking at the length again. Every read of the second pass stays below the extent the first
pass found, so decoding never leaves the buffer and depends on nothing that follows the extent.
-/

namespace ShardCommon.Frame

open Go

/-! ## The checks do not panic -/

theorem neverPanics_reject (bad : Prop) [Decidable bad] (sentinel : ShardManifestSentinel)
    (detail : String) : (reject bad sentinel detail).NeverPanics :=
  Run.neverPanics_failIf bad _

theorem neverPanics_checkCounts (flags : UInt8) (groupCount bitmapBytes sourceCount : UInt16) :
    (checkCounts flags groupCount bitmapBytes sourceCount).NeverPanics := by
  rw [checkCounts]
  dsimp only
  split
  · refine Run.NeverPanics.check fun _ => ?_
    split <;> exact Run.NeverPanics.check fun _ => Run.NeverPanics.check fun _ =>
      neverPanics_reject _ _ _
  · refine Run.NeverPanics.check fun _ => Run.NeverPanics.check fun _ => ?_
    split <;> exact Run.NeverPanics.check fun _ => Run.NeverPanics.check fun _ =>
      neverPanics_reject _ _ _

theorem neverPanics_checkSuccessorBits (m : ShardManifest) (s : SuccessorBlock) :
    (checkSuccessorBits m s).NeverPanics :=
  Run.NeverPanics.check fun _ => neverPanics_reject _ _ _

/-- The slots an accepted span reserves lie in the array of slots. -/
theorem neverPanics_reserveSlots {slots : List UInt8} {slot span : Nat}
    (h : slot + span ≤ slots.length) : (reserveSlots slots slot span).NeverPanics := by
  induction span generalizing slots slot with
  | zero => exact Run.neverPanics_pure slots
  | succ span ih =>
      rw [reserveSlots]
      refine (Run.neverPanics_index (by omega)).bind fun owners _ => ?_
      refine Run.NeverPanics.check fun _ => ih ?_
      rw [List.length_set]
      omega

theorem reserveSlots_length {slots slots' : List UInt8} {slot span : Nat}
    (h : (reserveSlots slots slot span).outcome = .ok slots') : slots'.length = slots.length := by
  induction span generalizing slots slot with
  | zero =>
      cases h
      rfl
  | succ span ih =>
      simp only [reserveSlots, Run.bind_outcome_ok] at h
      obtain ⟨owners, -, -, -, hrest⟩ := h
      rw [ih hrest, List.length_set]

/-- Both arrays of the scan have an entry for every plane but the forbidden one. -/
def PlaneScan.Sized (scan : PlaneScan) : Prop :=
  scan.seen.length = maxDomainID.toNat + 1 ∧ scan.slots.length = maxDomainID.toNat + 1

variable {topShardBits : UInt8} {topGeneration : FixedBytes 16} {authoritative : Bool}

theorem neverPanics_validateDomain {scan : PlaneScan} (hscan : scan.Sized) (d : DomainDescriptor) :
    (validateDomain topShardBits topGeneration authoritative scan d).NeverPanics := by
  rw [validateDomain]
  refine Run.NeverPanics.check fun hid => ?_
  have hseen : d.domainID.toNat < scan.seen.length := by
    rw [hscan.1]
    exact Nat.lt_succ_of_le (UInt8.le_iff_toNat_le.mp (UInt8.not_lt.mp hid))
  refine (Run.neverPanics_index hseen).bind fun seen _ => ?_
  refine Run.NeverPanics.check fun _ => Run.NeverPanics.check fun _ => Run.NeverPanics.check fun _ =>
    Run.NeverPanics.check fun _ => Run.NeverPanics.check fun hspan => ?_
  have hslots : d.domainID.toNat + d.slotSpan.toNat ≤ scan.slots.length := by
    rw [hscan.2]
    exact Nat.le_of_not_lt hspan
  refine (neverPanics_reserveSlots hslots).bind fun slots _ => ?_
  refine Run.NeverPanics.check fun _ => Run.NeverPanics.check fun _ => ?_
  cases d.successor with
  | none => exact Run.neverPanics_pure _
  | some s =>
      refine Run.NeverPanics.bind ?_ fun _ _ => Run.neverPanics_pure _
      exact Run.NeverPanics.check fun _ => Run.NeverPanics.check fun _ =>
        Run.NeverPanics.check fun _ => neverPanics_reject _ _ _

theorem validateDomain_sized {scan next : PlaneScan} {d : DomainDescriptor} (hscan : scan.Sized)
    (h : (validateDomain topShardBits topGeneration authoritative scan d).outcome = .ok next) :
    next.Sized := by
  obtain ⟨-, -, hseen, hslots⟩ := validateDomain_ok h
  constructor
  · rw [hseen, List.length_set, hscan.1]
  · rw [reserveSlots_length hslots, hscan.2]

theorem neverPanics_validateDomains (ds : List DomainDescriptor) :
    (validateDomains ds topShardBits topGeneration authoritative).NeverPanics := by
  rw [validateDomains]
  refine Run.NeverPanics.check fun _ => ?_
  refine Run.NeverPanics.bind ?_ fun _ _ => Run.neverPanics_pure _
  apply Run.NeverPanics.foldlM (fun scan d hscan => neverPanics_validateDomain hscan d)
    (fun scan d next hscan => validateDomain_sized hscan)
  exact ⟨List.length_replicate, List.length_replicate⟩

/-! ## The reads of the second pass -/

section Reads

variable {buf : Bytes} {n off : Nat}

theorem readsBelow_byteAt {ε : Type} (hn : n ≤ buf.length) {i : Nat} (hi : i < n) :
    ReadsBelow n buf fun b => (byteAt b i : Run ε UInt8) := readsBelow_index hn hi

theorem readsBelow_bytesAt {ε : Type} (hn : n ≤ buf.length) {low high : Nat} (hlow : low ≤ high)
    (hhigh : high ≤ n) : ReadsBelow n buf fun b => (bytesAt b low high : Run ε Bytes) :=
  readsBelow_slice hn hlow hhigh

theorem readsBelow_decodeHeader (hn : n ≤ buf.length) (hsize : shardManifestHeaderSize ≤ n) :
    ReadsBelow n buf decodeHeader := by
  have hfield : ∀ low high, low ≤ high → high ≤ shardManifestHeaderSize →
      ReadsBelow n buf fun b => (bytesAt b low high : ManifestRun Bytes) :=
    fun low high hlow hhigh => readsBelow_bytesAt hn hlow (hhigh.trans hsize)
  have hbyte : ∀ i, i < shardManifestHeaderSize →
      ReadsBelow n buf fun b => (byteAt b i : ManifestRun UInt8) :=
    fun i hi => readsBelow_byteAt hn (Nat.lt_of_lt_of_le hi hsize)
  unfold decodeHeader
  refine (readsBelow_room hn hsize _).bind fun _ _ => ?_
  refine ((hfield 0 4 (by decide) (by decide)).map _).bind fun magic _ => ?_
  refine ReadsBelow.check fun _ => ?_
  refine (hbyte 6 (by decide)).bind fun msgType _ => ?_
  refine ReadsBelow.check fun _ => ?_
  refine (hbyte 7 (by decide)).bind fun flags _ => ?_
  refine ((hfield 24 28 (by decide) (by decide)).map _).bind fun instanceID _ => ?_
  refine ((hfield 28 32 (by decide) (by decide)).map _).bind fun epoch _ => ?_
  refine ((hfield 32 34 (by decide) (by decide)).map _).bind fun ttl _ => ?_
  refine ((hfield 34 36 (by decide) (by decide)).map _).bind fun announceInterval _ => ?_
  refine (hbyte 36 (by decide)).bind fun shardBits _ => ?_
  refine (hbyte 37 (by decide)).bind fun roleHint _ => ?_
  refine ((hfield 8 24 (by decide) (by decide)).map _).bind fun srcIPv6 _ => ?_
  refine ((hfield 48 64 (by decide) (by decide)).map _).bind fun generationID _ => ?_
  refine ReadsBelow.check fun _ => ?_
  refine ((hfield 38 40 (by decide) (by decide)).map _).bind fun groupCount _ => ?_
  refine ((hfield 40 42 (by decide) (by decide)).map _).bind fun bitmapBytes _ => ?_
  refine ((hfield 42 44 (by decide) (by decide)).map _).bind fun sourceCount _ => ?_
  exact (readsBelow_of_neverPanics (neverPanics_checkCounts _ _ _ _)).bind fun _ _ => readsBelow_pure _

theorem readsBelow_decodeGroups (hn : n ≤ buf.length) {count i : Nat} {prev : UInt16}
    (hend : off + 2 * count ≤ n) : ReadsBelow n buf fun b => decodeGroups b count i prev off := by
  induction count generalizing i prev off with
  | zero => exact readsBelow_pure _
  | succ count ih =>
      simp only [decodeGroups]
      refine ((readsBelow_bytesAt hn (by omega) (by omega)).map _).bind fun g _ => ?_
      refine ReadsBelow.check fun _ => ?_
      exact (ih (by omega)).bind fun _ _ => readsBelow_pure _

theorem readsBelow_decodeSources (hn : n ≤ buf.length) {count : Nat}
    (hend : off + 16 * count ≤ n) : ReadsBelow n buf fun b => decodeSources b count off := by
  induction count generalizing off with
  | zero => exact readsBelow_pure _
  | succ count ih =>
      simp only [decodeSources]
      refine ((readsBelow_bytesAt hn (by omega) (by omega)).map _).bind fun src _ => ?_
      exact (ih (by omega)).bind fun _ _ => readsBelow_pure _

theorem readsBelow_decodeSuccessor (hn : n ≤ buf.length) (hend : off + successorBlockSize ≤ n) :
    ReadsBelow n buf fun b => decodeSuccessor b off := by
  rw [successorBlockSize] at hend
  unfold decodeSuccessor
  refine (readsBelow_byteAt hn (by omega)).bind fun shardBits _ => ?_
  refine (readsBelow_byteAt hn (by omega)).bind fun flags _ => ?_
  refine ((readsBelow_bytesAt hn (by omega) (by omega)).map _).bind fun transitionEpoch _ => ?_
  refine ((readsBelow_bytesAt hn (by omega) (by omega)).map _).bind fun generationID _ => ?_
  exact readsBelow_pure _

theorem readsBelow_make {ε : Type} {width count : Nat}
    (h : (count : Int) ≤ maxInt ∧ count * width < 2 ^ 64) :
    ReadsBelow n buf fun _ => (Run.make width count : Run ε Unit) :=
  readsBelow_of_neverPanics (Run.neverPanics_make h)

theorem readsBelow_decodeGroupsSection {h : ManifestHeader} (hn : n ≤ buf.length)
    (hend : off + groupsLen h ≤ n) : ReadsBelow n buf fun b => decodeGroupsSection h b off := by
  rw [groupsLen] at hend
  unfold decodeGroupsSection
  by_cases hbitmap : 0 < h.bitmapBytes
  · rw [if_neg (UInt16.pos_iff_ne_zero.mp hbitmap)] at hend
    simp only [if_pos hbitmap]
    refine (readsBelow_bytesAt hn (by omega) (by omega)).bind fun bitmap _ => ?_
    exact readsBelow_pure _
  · rw [if_pos (not_not.mp fun hne => hbitmap (UInt16.pos_iff_ne_zero.mpr hne))] at hend
    simp only [if_neg hbitmap]
    split
    · refine (readsBelow_make (make_uint16 _ (by decide))).bind fun _ _ => ?_
      exact (readsBelow_decodeGroups hn hend).bind fun _ _ => readsBelow_pure _
    · exact readsBelow_pure _

theorem readsBelow_decodeSourcesSection {h : ManifestHeader} {m : ShardManifest}
    (hn : n ≤ buf.length) (hend : off + 16 * h.sourceCount.toNat ≤ n) :
    ReadsBelow n buf fun b => decodeSourcesSection h b m off := by
  unfold decodeSourcesSection
  split
  · refine (readsBelow_make (make_uint16 _ (by decide))).bind fun _ _ => ?_
    exact (readsBelow_decodeSources hn hend).bind fun _ _ => readsBelow_pure _
  · exact readsBelow_pure _

theorem readsBelow_decodeSuccessorSection {m : ShardManifest} (hn : n ≤ buf.length)
    (hend : off + successorLen m.flags ≤ n) :
    ReadsBelow n buf fun b => decodeSuccessorSection b m off := by
  rw [successorLen] at hend
  unfold decodeSuccessorSection
  split
  · next hflag =>
      rw [if_pos hflag] at hend
      refine (readsBelow_decodeSuccessor hn hend).bind fun s _ => ?_
      refine (readsBelow_of_neverPanics (neverPanics_checkSuccessorBits m s)).bind fun _ _ => ?_
      exact readsBelow_pure _
  · exact readsBelow_pure _

/-! ## The pre-scan -/

theorem readsBelow_decodeDescriptor (hn : n ≤ buf.length) {flags : UInt8}
    (hflags : (byteAt buf (off + 3) : ManifestRun UInt8).outcome = .ok flags)
    (hend : off + scanStep flags ≤ n) : ReadsBelow n buf fun b => decodeDescriptor b off := by
  rw [scanStep, ← Nat.add_assoc] at hend
  have hfixed : off + 24 ≤ n := by
    rw [domainDescriptorSize] at hend
    omega
  unfold decodeDescriptor
  refine (readsBelow_byteAt hn (by omega)).bind fun domainID _ => ?_
  refine (readsBelow_byteAt hn (by omega)).bind fun shardBits _ => ?_
  refine (readsBelow_byteAt hn (by omega)).bind fun slotSpan _ => ?_
  refine (readsBelow_byteAt hn (by omega)).bind_of_ok hflags ?_
  refine (readsBelow_byteAt hn (by omega)).bind fun version _ => ?_
  refine ((readsBelow_bytesAt hn (by omega) (by omega)).map _).bind fun generationID _ => ?_
  split
  · next hset =>
      rw [if_pos hset] at hend
      exact (readsBelow_decodeSuccessor hn hend).bind fun _ _ => readsBelow_pure _
  · exact readsBelow_pure _

theorem scanStep_le (flags : UInt8) : scanStep flags ≤ 48 := by
  rw [scanStep, domainDescriptorSize, successorBlockSize]
  split <;> omega

theorem scanDescriptors_bounds {count scan total : Nat}
    (h : (scanDescriptors buf count scan).outcome = .ok total) :
    scan ≤ total ∧ total ≤ buf.length ∧ total ≤ scan + 48 * count := by
  induction count generalizing scan with
  | zero =>
      obtain ⟨_, hroom, heq⟩ := Run.bind_outcome_ok.mp h
      cases heq
      exact ⟨le_rfl, Nat.le_of_not_lt (Run.failIf_outcome_ok.mp hroom), le_rfl⟩
  | succ count ih =>
      obtain ⟨-, flags, -, hrest⟩ := scanDescriptors_succ_ok.mp h
      obtain ⟨hlow, hlength, hhigh⟩ := ih hrest
      have hstep := scanStep_le flags
      exact ⟨by omega, hlength, by omega⟩

theorem neverPanics_scanDescriptors (count scan : Nat) :
    (scanDescriptors buf count scan).NeverPanics := by
  induction count generalizing scan with
  | zero => exact Run.NeverPanics.check fun _ => Run.neverPanics_pure _
  | succ count ih =>
      rw [scanDescriptors]
      refine Run.NeverPanics.check fun hroom => ?_
      rw [domainDescriptorSize] at hroom
      exact (Run.neverPanics_index (by omega)).bind fun flags _ => ih _

/-- A scan that ends at `total` has looked at nothing after it. -/
theorem readsBelow_scanDescriptors {count scan total : Nat}
    (h : (scanDescriptors buf count scan).outcome = .ok total) :
    ReadsBelow total buf fun b => scanDescriptors b count scan := by
  obtain ⟨-, hn, -⟩ := scanDescriptors_bounds h
  induction count generalizing scan with
  | zero =>
      obtain ⟨hlow, -⟩ := scanDescriptors_bounds h
      simp only [scanDescriptors]
      exact (readsBelow_room hn hlow _).bind fun _ _ => readsBelow_pure _
  | succ count ih =>
      obtain ⟨-, flags, hflags, hrest⟩ := scanDescriptors_succ_ok.mp h
      obtain ⟨hlow, -⟩ := scanDescriptors_bounds hrest
      have hread := ih hrest
      rw [scanStep, domainDescriptorSize] at hlow
      simp only [scanDescriptors]
      refine (readsBelow_room hn (by rw [domainDescriptorSize]; omega) _).bind fun _ _ => ?_
      refine (readsBelow_byteAt hn (by omega)).bind_of_ok hflags ?_
      rw [scanStep, ← Nat.add_assoc] at hread
      exact hread

/-- The second pass takes the descriptors in the steps of the scan. -/
theorem readsBelow_decodeDescriptors {count scan total : Nat}
    (h : (scanDescriptors buf count scan).outcome = .ok total) :
    ReadsBelow total buf fun b => decodeDescriptors b count scan := by
  obtain ⟨-, hn, -⟩ := scanDescriptors_bounds h
  induction count generalizing scan with
  | zero => exact readsBelow_pure _
  | succ count ih =>
      obtain ⟨-, flags, hflags, hrest⟩ := scanDescriptors_succ_ok.mp h
      obtain ⟨hlow, -⟩ := scanDescriptors_bounds hrest
      simp only [decodeDescriptors]
      refine (readsBelow_decodeDescriptor hn hflags hlow).bind fun d hd => ?_
      -- the descriptor read has the flags that the scan saw, so it ends where the scan went on
      obtain ⟨d, stop⟩ := d
      obtain ⟨-, rfl, slack, hstands⟩ := decodeDescriptor_ok.mp hd
      obtain rfl : d.flags = flags :=
        List.singleton_inj.mp ((standsAt_flags hstands).unique (byteAt_ok.mp hflags) rfl)
      exact (ih hrest).bind fun _ _ => readsBelow_pure _

/-! ## The first pass -/

/-- The bytes before the Domains section. -/
def fixedExtent (h : ManifestHeader) : Nat :=
  shardManifestHeaderSize + groupsLen h + 16 * h.sourceCount.toNat + successorLen h.manifest.flags

theorem fixedExtent_le (h : ManifestHeader) : fixedExtent h ≤ 2 ^ 21 := by
  have hgroups := h.groupCount.toNat_lt
  have hbitmap := h.bitmapBytes.toNat_lt
  have hsources := h.sourceCount.toNat_lt
  rw [fixedExtent, shardManifestHeaderSize, groupsLen, successorLen, successorBlockSize]
  split <;> split <;> omega

theorem manifestExtent_inv {h : ManifestHeader} {total : Nat}
    (hextent : (manifestExtent h buf).outcome = .ok total) :
    fixedExtent h ≤ buf.length ∧
      (¬ hasFlag h.manifest.flags flagDomainsValid = true → total = fixedExtent h) ∧
      (hasFlag h.manifest.flags flagDomainsValid = true → ∃ count,
        (byteAt buf (fixedExtent h) : ManifestRun UInt8).outcome = .ok count ∧
        (scanDescriptors buf count.toNat (fixedExtent h + 1)).outcome = .ok total) := by
  obtain ⟨_, hroom, hrest⟩ := Run.bind_outcome_ok.mp hextent
  refine ⟨Nat.le_of_not_lt (Run.failIf_outcome_ok.mp hroom), fun hclear => ?_, fun hset => ?_⟩
  · rw [if_neg hclear] at hrest
    cases hrest
    rfl
  · simp only [if_pos hset, Run.bind_outcome_ok] at hrest
    obtain ⟨-, -, count, hcount, -, -, hscan⟩ := hrest
    exact ⟨count, hcount, hscan⟩

theorem manifestExtent_bounds {h : ManifestHeader} {total : Nat}
    (hextent : (manifestExtent h buf).outcome = .ok total) :
    fixedExtent h ≤ total ∧ total ≤ buf.length ∧ (total : Int) ≤ maxInt := by
  obtain ⟨hroom, hclear, hset⟩ := manifestExtent_inv hextent
  have hsmall := fixedExtent_le h
  rw [maxInt]
  by_cases hflag : hasFlag h.manifest.flags flagDomainsValid = true
  · obtain ⟨count, -, hscan⟩ := hset hflag
    obtain ⟨hlow, hlength, hhigh⟩ := scanDescriptors_bounds hscan
    have hcount := count.toNat_lt
    exact ⟨by omega, hlength, by omega⟩
  · obtain rfl := hclear hflag
    exact ⟨le_rfl, hroom, by omega⟩

theorem headerSize_le_extent {h : ManifestHeader} {total : Nat}
    (hextent : (manifestExtent h buf).outcome = .ok total) : shardManifestHeaderSize ≤ total := by
  obtain ⟨hlow, -⟩ := manifestExtent_bounds hextent
  rw [fixedExtent] at hlow
  omega

theorem neverPanics_manifestExtent (h : ManifestHeader) : (manifestExtent h buf).NeverPanics := by
  rw [manifestExtent]
  refine Run.NeverPanics.check fun _ => ?_
  split
  · refine Run.NeverPanics.check fun hroom => ?_
    refine (Run.neverPanics_index (by omega)).bind fun count _ => ?_
    exact Run.NeverPanics.check fun _ => neverPanics_scanDescriptors _ _
  · exact Run.neverPanics_pure _

theorem readsBelow_manifestExtent {h : ManifestHeader} {total : Nat}
    (hextent : (manifestExtent h buf).outcome = .ok total) :
    ReadsBelow total buf (manifestExtent h) := by
  obtain ⟨-, hclear, hset⟩ := manifestExtent_inv hextent
  obtain ⟨hfixed, hn, -⟩ := manifestExtent_bounds hextent
  unfold manifestExtent
  refine (readsBelow_room hn hfixed _).bind fun _ _ => ?_
  split
  · next hflag =>
      obtain ⟨count, hcount, hscan⟩ := hset hflag
      obtain ⟨hlow, -⟩ := scanDescriptors_bounds hscan
      refine (readsBelow_room hn hlow _).bind fun _ _ => ?_
      refine (readsBelow_byteAt hn hlow).bind_of_ok hcount ?_
      exact ReadsBelow.check fun _ => readsBelow_scanDescriptors hscan
  · exact readsBelow_pure _

theorem readsBelow_verifyCRC (checksum : Bytes → UInt32) (hn : n ≤ buf.length)
    (hsize : shardManifestHeaderSize ≤ n) (hsmall : (n : Int) ≤ maxInt) :
    ReadsBelow n buf fun b => verifyCRC checksum b n := by
  rw [shardManifestHeaderSize] at hsize
  unfold verifyCRC
  refine ((readsBelow_bytesAt hn (by decide) (by omega)).map _).bind fun wantCRC _ => ?_
  refine (readsBelow_make (Run.bytes_fit hsmall)).bind fun _ _ => ?_
  refine (readsBelow_bytesAt hn (Nat.zero_le n) le_rfl).bind fun tmp htmp => ?_
  obtain ⟨-, hlength⟩ := bytesAt_ok.mp htmp
  have hzero : (Run.putAll tmp [(44, [0]), (45, [0]), (46, [0]), (47, [0])] :
      ManifestRun Bytes).NeverPanics := by
    apply neverPanics_putAll
    · exact ⟨rfl, rfl, rfl, rfl, trivial⟩
    · simp only [written, List.flatMap_cons, List.flatMap_nil, List.length_append,
        List.length_singleton, List.length_nil]
      omega
  refine (readsBelow_of_neverPanics hzero).bind fun zeroed _ => ?_
  exact readsBelow_of_neverPanics (neverPanics_reject _ _ _)

theorem readsBelow_decodeDomainsSection {m : ShardManifest} {total : Nat} (hn : total ≤ buf.length)
    (hset : hasFlag m.flags flagDomainsValid = true → ∃ count,
      (byteAt buf off : ManifestRun UInt8).outcome = .ok count ∧
      (scanDescriptors buf count.toNat (off + 1)).outcome = .ok total) :
    ReadsBelow total buf fun b => decodeDomainsSection b m off := by
  unfold decodeDomainsSection
  split
  · next hflag =>
      obtain ⟨count, hcount, hscan⟩ := hset hflag
      obtain ⟨hlow, -⟩ := scanDescriptors_bounds hscan
      refine (readsBelow_byteAt hn hlow).bind_of_ok hcount ?_
      have hsmall : (count.toNat : Int) ≤ maxInt ∧ count.toNat * 32 < 2 ^ 64 := by
        have := count.toNat_lt
        rw [maxInt]
        omega
      refine (readsBelow_make hsmall).bind fun _ _ => ?_
      refine (readsBelow_decodeDescriptors hscan).bind fun domains _ => ?_
      refine (readsBelow_of_neverPanics (neverPanics_validateDomains _)).bind fun _ _ => ?_
      exact readsBelow_pure _
  · exact readsBelow_pure _

/-! ## The two passes together -/

variable {h : ManifestHeader} {total : Nat}

theorem decodeHeader_form (hheader : (decodeHeader buf).outcome = .ok h) :
    shardManifestHeaderSize ≤ buf.length ∧ h.manifest = h.manifest.fixedFields ∧
      (h.groupCount = 0 ∨ h.bitmapBytes = 0) := by
  obtain ⟨hfixed, -, hcounts, version, crc, hstands⟩ := decodeHeader_ok.mp hheader
  have hroom := hstands.length_le
  rw [length_headerLayout, Nat.zero_add] at hroom
  exact ⟨hroom, hfixed, (checkCounts_ok.mp hcounts).2.1⟩

theorem readsBelow_decodeSections (hheader : (decodeHeader buf).outcome = .ok h)
    (hextent : (manifestExtent h buf).outcome = .ok total) :
    ReadsBelow total buf (decodeSections h) := by
  obtain ⟨hroom, hfixed, hform⟩ := decodeHeader_form hheader
  obtain ⟨-, -, hset⟩ := manifestExtent_inv hextent
  obtain ⟨hlow, hn, -⟩ := manifestExtent_bounds hextent
  have hsourcesNil : h.manifest.sources = [] := congrArg ShardManifest.sources hfixed
  have hsuccessorNone : h.manifest.successor = none := congrArg ShardManifest.successor hfixed
  rw [fixedExtent] at hlow hset
  -- every section starts where the one before it ended, as the arithmetic of the first pass has it
  unfold decodeSections
  refine (readsBelow_decodeGroupsSection hn (by omega)).bind fun r₁ h₁ => ?_
  obtain ⟨m₁, off₁⟩ := r₁
  obtain ⟨heq₁, -, -, -, rfl, -⟩ := (decodeGroupsSection_ok hroom hfixed hform).mp h₁
  refine (readsBelow_decodeSourcesSection hn (by omega)).bind fun r₂ h₂ => ?_
  obtain ⟨m₂, off₂⟩ := r₂
  have hsources : m₁.sources = [] := by rw [heq₁, hsourcesNil]
  obtain ⟨heq₂, -, rfl, -⟩ := (decodeSourcesSection_ok (by omega) hsources).mp h₂
  have hflags₂ : m₂.flags = h.manifest.flags := by rw [heq₂, heq₁]
  have hsuccessor : m₂.successor = none := by rw [heq₂, heq₁, hsuccessorNone]
  rw [← hflags₂] at hlow hset
  refine (readsBelow_decodeSuccessorSection hn hlow).bind fun r₃ h₃ => ?_
  obtain ⟨m₃, off₃⟩ := r₃
  obtain ⟨heq₃, -, -, rfl, -⟩ := (decodeSuccessorSection_ok (by omega) hsuccessor).mp h₃
  have hflags₃ : m₃.flags = m₂.flags := by rw [heq₃]
  exact readsBelow_decodeDomainsSection hn (by rwa [hflags₃])

theorem decodeSections_stop {m : ShardManifest} {stop : Nat}
    (hheader : (decodeHeader buf).outcome = .ok h)
    (hextent : (manifestExtent h buf).outcome = .ok total)
    (hsections : (decodeSections h buf).outcome = .ok (m, stop)) : stop = total := by
  obtain ⟨hroom, hfixed, hform⟩ := decodeHeader_form hheader
  obtain ⟨hs, hstop, reserved, slacks, hpayload⟩ :=
    (decodeSections_ok hroom hfixed hform).mp hsections
  rw [hstop, (manifestExtent_ok hform hs hpayload).mp hextent]

/-- Once a datagram is there in full, decoding it looks at nothing else. -/
theorem readsBelow_decodeShardManifest (checksum : Bytes → UInt32)
    (hheader : (decodeHeader buf).outcome = .ok h)
    (hextent : (manifestExtent h buf).outcome = .ok total) :
    ReadsBelow total buf (decodeShardManifest checksum) := by
  obtain ⟨-, hn, hsmall⟩ := manifestExtent_bounds hextent
  have hsize := headerSize_le_extent hextent
  unfold decodeShardManifest
  refine (readsBelow_decodeHeader hn hsize).bind_of_ok hheader ?_
  refine (readsBelow_manifestExtent hextent).bind_of_ok hextent ?_
  refine (readsBelow_verifyCRC checksum hn hsize hsmall).bind fun _ _ => ?_
  exact (readsBelow_decodeSections hheader hextent).bind fun _ _ => readsBelow_pure _

theorem neverPanics_decodeHeader : (decodeHeader buf).NeverPanics := by
  by_cases hsize : shardManifestHeaderSize ≤ buf.length
  · exact (readsBelow_decodeHeader le_rfl hsize).safe
  · rw [decodeHeader]
    exact Run.NeverPanics.check fun hroom => absurd (Nat.le_of_not_lt hroom) hsize

theorem neverPanics_decodeShardManifest (checksum : Bytes → UInt32) :
    (decodeShardManifest checksum buf).NeverPanics := by
  rw [decodeShardManifest]
  refine neverPanics_decodeHeader.bind fun h hheader => ?_
  refine (neverPanics_manifestExtent h).bind fun total hextent => ?_
  obtain ⟨-, hn, hsmall⟩ := manifestExtent_bounds hextent
  have hsize := headerSize_le_extent hextent
  refine (readsBelow_verifyCRC checksum hn hsize hsmall).safe.bind fun _ _ => ?_
  exact (readsBelow_decodeSections hheader hextent).safe.bind fun _ _ => Run.neverPanics_pure _

/-- A datagram cut short of the extent fails: its header, read again, asks for the same bytes. -/
theorem decodeShardManifest_take_fails (checksum : Bytes → UInt32)
    (hheader : (decodeHeader buf).outcome = .ok h)
    (hextent : (manifestExtent h buf).outcome = .ok total) {k : Nat} (hk : k < total) :
    (decodeShardManifest checksum (buf.take k)).Fails := by
  cases hcut : (decodeShardManifest checksum (buf.take k)).outcome with
  | panic cause => exact absurd hcut (neverPanics_decodeShardManifest checksum cause)
  | fail error => exact ⟨error, hcut⟩
  | ok m =>
      obtain ⟨h', hheader', hrest⟩ := Run.bind_outcome_ok.mp hcut
      obtain ⟨total', hextent', -⟩ := Run.bind_outcome_ok.mp hrest
      -- an accepted cut has an extent of its own, and the whole buffer has the same
      obtain ⟨-, hn, -⟩ := manifestExtent_bounds hextent'
      have hsize := headerSize_le_extent hextent'
      have hshort : total' ≤ k := hn.trans (List.length_take_le k buf)
      have hsame : buf.take total' = (buf.take k).take total' := by
        rw [List.take_take, Nat.min_eq_left hshort]
      rw [(readsBelow_decodeHeader hn hsize).front buf hsame, hheader'] at hheader
      cases hheader
      rw [(readsBelow_manifestExtent hextent').front buf hsame, hextent'] at hextent
      cases hextent
      omega

end Reads

/-- Decoding stays in the buffer. The extent found by the first pass is there in full and is where
the second pass ends, other bytes after it change nothing, and without all of it decoding fails. -/
theorem decodeShardManifest_extent (checksum : Bytes → UInt32) (buf : Bytes) :
    (decodeShardManifest checksum buf).NeverPanics ∧
    ∀ h total, (decodeHeader buf).outcome = .ok h → (manifestExtent h buf).outcome = .ok total →
      total ≤ buf.length ∧
      (∀ m stop, (decodeSections h buf).outcome = .ok (m, stop) → stop = total) ∧
      (∀ trailing, decodeShardManifest checksum (buf.take total ++ trailing) =
        decodeShardManifest checksum buf) ∧
      ∀ k < total, (decodeShardManifest checksum (buf.take k)).Fails := by
  refine ⟨neverPanics_decodeShardManifest checksum, fun h total hheader hextent => ?_⟩
  obtain ⟨-, hn, -⟩ := manifestExtent_bounds hextent
  refine ⟨hn, fun m stop => decodeSections_stop hheader hextent, fun trailing => ?_, fun k => ?_⟩
  · exact (readsBelow_decodeShardManifest checksum hheader hextent).append hn trailing
  · exact decodeShardManifest_take_fails checksum hheader hextent

/-- The datagram of a manifest with all four sections takes up its 157 bytes. -/
theorem decodeShardManifest_extent_pilot : ∃ h,
    (decodeHeader (sentDatagram crc32c pilotManifest)).outcome = .ok h ∧
    (manifestExtent h (sentDatagram crc32c pilotManifest)).outcome = .ok 157 ∧
    ∀ k < 157, (decodeShardManifest crc32c ((sentDatagram crc32c pilotManifest).take k)).Fails := by
  have hchecks : (checkManifest pilotManifest).outcome = .ok () := by decide +kernel
  have hsize : shardManifestSize pilotManifest = 157 := by decide +kernel
  have hm := checkManifest_ok.mp hchecks
  have hdecode := decode_sentDatagram crc32c hm []
  rw [List.append_nil] at hdecode
  obtain ⟨h, hheader, hrest⟩ := Run.bind_outcome_ok.mp hdecode
  obtain ⟨total, hextent, -⟩ := Run.bind_outcome_ok.mp hrest
  obtain ⟨hlength, -, hfront, hcut⟩ :=
    (decodeShardManifest_extent crc32c (sentDatagram crc32c pilotManifest)).2 h total hheader hextent
  rw [length_sentDatagram crc32c hm, hsize] at hlength
  have hall : 157 ≤ total := by
    have hagain := hdecode
    rw [← hfront [], List.append_nil] at hagain
    obtain ⟨-, slack, hstands⟩ := decodeShardManifest_ok.mp hagain
    have hroom := hstands.length_le
    rw [length_manifestLayout_eq_size hm, hsize, Nat.zero_add] at hroom
    exact hroom.trans (List.length_take_le _ _)
  obtain rfl : total = 157 := by omega
  exact ⟨h, hheader, hextent, hcut⟩

end ShardCommon.Frame
