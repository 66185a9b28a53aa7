import Mathlib.Data.List.Chain
import ShardCommon.ShardManifest

/-!
# The layout of a manifest

The bytes of a datagram as one concatenation, with the bytes that decoding ignores left open. The
decoder reads a section off a buffer exactly when the section's layout stands at the current offset.
-/

namespace ShardCommon.Frame

open Go

variable {buf : Bytes} {off : Nat}

/-- The bytes of one descriptor that decoding ignores. -/
structure DescriptorSlack where
  reserved : FixedBytes 3
  successor : FixedBytes 2

/-- The bytes of a datagram, apart from the CRC, that decoding ignores. -/
structure Slack where
  protoVer : FixedBytes 2
  successor : FixedBytes 2
  domains : List DescriptorSlack

def successorLayout (reserved : FixedBytes 2) (s : SuccessorBlock) : Bytes :=
  s.generationID.val ++ ([s.shardBits] ++ ([s.flags] ++ (reserved.val ++
    putUint32 s.transitionEpoch)))

def descriptorLayout (slack : DescriptorSlack) (d : DomainDescriptor) : Bytes :=
  [d.domainID] ++ ([d.shardBits] ++ ([d.slotSpan] ++ ([d.flags] ++ ([d.version] ++
    (slack.reserved.val ++ (d.generationID.val ++
      match d.successor with
      | some s => successorLayout slack.successor s
      | none => []))))))

@[simp] theorem length_successorLayout (reserved : FixedBytes 2) (s : SuccessorBlock) :
    (successorLayout reserved s).length = successorBlockSize := by
  simp [successorLayout, successorBlockSize]

theorem decodeSuccessor_ok {s : SuccessorBlock} :
    (decodeSuccessor buf off).outcome = .ok s ↔
      ∃ reserved, StandsAt buf off (successorLayout reserved s) := by
  rw [decodeSuccessor]
  simp only [Run.bind_outcome_ok, byteAt_ok, uint32At_ok, copyAt_ok, Run.pure_outcome,
    successorLayout, standsAt_append_iff, FixedBytes.length_val, List.length_singleton,
    Nat.add_assoc, Nat.reduceAdd]
  constructor
  · rintro ⟨bits, hbits, flags, hflags, epoch, hepoch, generation, hgeneration, heq⟩
    cases heq
    have hroom : off + 18 + 2 ≤ buf.length := by
      have := hepoch.length_le
      omega
    obtain ⟨reserved, hreserved⟩ := exists_fixedBytes hroom
    exact ⟨reserved, hgeneration, hbits, hflags, hreserved, hepoch⟩
  · rintro ⟨reserved, hgeneration, hbits, hflags, -, hepoch⟩
    exact ⟨_, hbits, _, hflags, _, hepoch, _, hgeneration, rfl⟩

/-- The descriptor carries a Successor block exactly when its flag says so. -/
def SuccessorFlagged (d : DomainDescriptor) : Prop :=
  d.successor.isSome = hasFlag d.flags domainFlagSuccessorValid

theorem length_descriptorLayout {d : DomainDescriptor} (h : SuccessorFlagged d)
    (slack : DescriptorSlack) : (descriptorLayout slack d).length = descriptorSize d := by
  rw [SuccessorFlagged] at h
  cases hs : d.successor with
  | none =>
      rw [hs] at h
      simp [descriptorLayout, descriptorSize, domainDescriptorSize, hs, ← h]
  | some s =>
      rw [hs] at h
      simp [descriptorLayout, descriptorSize, domainDescriptorSize, hs, ← h]
      omega

theorem decodeDescriptor_ok {d : DomainDescriptor} {stop : Nat} :
    (decodeDescriptor buf off).outcome = .ok (d, stop) ↔
      SuccessorFlagged d ∧ stop = off + descriptorSize d ∧
        ∃ slack, StandsAt buf off (descriptorLayout slack d) := by
  rw [decodeDescriptor]
  simp only [Run.bind_outcome_ok, byteAt_ok, copyAt_ok, descriptorLayout, standsAt_append_iff,
    FixedBytes.length_val, List.length_singleton, Nat.add_assoc, Nat.reduceAdd]
  constructor
  · rintro ⟨id, hid, bits, hbits, span, hspan, flags, hflags, version, hversion, generation,
      hgeneration, hrest⟩
    have hroom : off + 5 + 3 ≤ buf.length := by
      have := hgeneration.length_le
      omega
    obtain ⟨reserved, hreserved⟩ := exists_fixedBytes hroom
    split at hrest
    · next hflag =>
        rw [Run.bind_outcome_ok] at hrest
        obtain ⟨s, hs, heq⟩ := hrest
        cases heq
        obtain ⟨successor, hsuccessor⟩ := decodeSuccessor_ok.mp hs
        refine ⟨hflag.symm, ?_, ⟨reserved, successor⟩, hid, hbits, hspan, hflags, hversion,
          hreserved, hgeneration, hsuccessor⟩
        simp [descriptorSize, hflag]
    · next hflag =>
        cases hrest
        have hend := hgeneration.length_le
        rw [FixedBytes.length_val] at hend
        refine ⟨(Bool.eq_false_iff.mpr hflag).symm, ?_, ⟨reserved, .copy 2 []⟩, hid, hbits, hspan,
          hflags, hversion, hreserved, hgeneration, standsAt_nil_iff.mpr hend⟩
        simp [descriptorSize, hflag]
  · obtain ⟨id, bits, span, flags, version, generation, successor⟩ := d
    rintro ⟨hflag, rfl, slack, hid, hbits, hspan, hflags, hversion, -, hgeneration, hsuccessor⟩
    refine ⟨id, hid, bits, hbits, span, hspan, flags, hflags, version, hversion, generation,
      hgeneration, ?_⟩
    cases successor with
    | none =>
        have hclear : ¬ hasFlag flags domainFlagSuccessorValid = true := by
          rw [← hflag]
          nofun
        rw [if_neg hclear]
        simp [descriptorSize, hclear]
    | some s =>
        have hset : hasFlag flags domainFlagSuccessorValid = true := hflag.symm
        rw [if_pos hset, Run.bind_outcome_ok]
        refine ⟨s, decodeSuccessor_ok.mpr ⟨slack.successor, hsuccessor⟩, ?_⟩
        simp [descriptorSize, hset]

/-! ## Loops -/

instance : Inhabited DescriptorSlack := ⟨⟨.copy 3 [], .copy 2 []⟩⟩

/-- Descriptors without slack of their own have zero bytes there. -/
def descriptorsLayout : List DescriptorSlack → List DomainDescriptor → Bytes
  | _, [] => []
  | slacks, d :: ds => descriptorLayout slacks.headI d ++ descriptorsLayout slacks.tail ds

def descriptorsSize (ds : List DomainDescriptor) : Nat := (ds.map descriptorSize).sum

theorem length_descriptorsLayout {ds : List DomainDescriptor} (h : ∀ d ∈ ds, SuccessorFlagged d)
    (slacks : List DescriptorSlack) :
    (descriptorsLayout slacks ds).length = descriptorsSize ds := by
  induction ds generalizing slacks with
  | nil => rfl
  | cons d ds ih =>
      rw [List.forall_mem_cons] at h
      rw [descriptorsLayout, List.length_append, length_descriptorLayout h.1, ih h.2]
      rfl

theorem decodeDescriptors_ok {count stop : Nat} {ds : List DomainDescriptor}
    (hoff : off ≤ buf.length) :
    (decodeDescriptors buf count off).outcome = .ok (ds, stop) ↔
      ds.length = count ∧ (∀ d ∈ ds, SuccessorFlagged d) ∧ stop = off + descriptorsSize ds ∧
        ∃ slacks, StandsAt buf off (descriptorsLayout slacks ds) := by
  induction count generalizing off ds stop with
  | zero =>
      simp only [decodeDescriptors, Run.pure_outcome, Outcome.ok.injEq, Prod.mk.injEq]
      constructor
      · rintro ⟨rfl, rfl⟩
        exact ⟨rfl, by nofun, rfl, [], standsAt_nil_iff.mpr hoff⟩
      · rintro ⟨hlength, -, rfl, -⟩
        obtain rfl := List.length_eq_zero_iff.mp hlength
        exact ⟨rfl, rfl⟩
  | succ count ih =>
      simp only [decodeDescriptors, Run.bind_outcome_ok, Run.pure_outcome]
      constructor
      · rintro ⟨⟨d, next⟩, hd, ⟨rest, stop'⟩, hrest, heq⟩
        cases heq
        obtain ⟨hflag, rfl, slack, hstands⟩ := decodeDescriptor_ok.mp hd
        have hnext : off + descriptorSize d ≤ buf.length := by
          rw [← length_descriptorLayout hflag slack]
          exact hstands.length_le
        obtain ⟨hlength, hflags, rfl, slacks, htail⟩ := (ih hnext).mp hrest
        refine ⟨by simp [hlength], List.forall_mem_cons.mpr ⟨hflag, hflags⟩, ?_, slack :: slacks, ?_⟩
        · simp [descriptorsSize, Nat.add_assoc]
        · rw [descriptorsLayout, standsAt_append_iff]
          rw [← length_descriptorLayout hflag slack] at htail
          exact ⟨hstands, htail⟩
      · cases ds with
        | nil =>
            rintro ⟨hlength, -⟩
            cases hlength
        | cons d ds =>
            rintro ⟨hlength, hflags, rfl, slacks, hstands⟩
            obtain ⟨hflag, hflags⟩ := List.forall_mem_cons.mp hflags
            rw [descriptorsLayout, standsAt_append_iff, length_descriptorLayout hflag] at hstands
            have hnext : off + descriptorSize d ≤ buf.length := by
              have := hstands.2.length_le
              omega
            refine ⟨(d, off + descriptorSize d),
              decodeDescriptor_ok.mpr ⟨hflag, rfl, slacks.headI, hstands.1⟩,
              (ds, off + descriptorSize d + descriptorsSize ds),
              (ih hnext).mpr ⟨by simpa using hlength, hflags, rfl, slacks.tail, hstands.2⟩, ?_⟩
            simp [descriptorsSize, Nat.add_assoc]

theorem standsAt_flags {d : DomainDescriptor} {slack : DescriptorSlack}
    (h : StandsAt buf off (descriptorLayout slack d)) : StandsAt buf (off + 3) [d.flags] := by
  simp only [descriptorLayout, standsAt_append_iff, List.length_singleton, Nat.add_assoc,
    Nat.reduceAdd] at h
  exact h.2.2.2.1

/-- The step of the pre-scan over a descriptor with these flags. -/
def scanStep (flags : UInt8) : Nat :=
  domainDescriptorSize +
    if hasFlag flags domainFlagSuccessorValid then successorBlockSize else 0

theorem scanDescriptors_succ_ok {count scan total : Nat} :
    (scanDescriptors buf (count + 1) scan).outcome = .ok total ↔
      scan + domainDescriptorSize ≤ buf.length ∧
      ∃ flags, (byteAt buf (scan + 3) : ManifestRun UInt8).outcome = .ok flags ∧
        (scanDescriptors buf count (scan + scanStep flags)).outcome = .ok total := by
  simp only [scanDescriptors, Run.bind_outcome_ok, Run.failIf_outcome_ok, scanStep,
    Nat.add_assoc, Nat.not_lt, exists_and_left, exists_const]

/-- The pre-scan ends where the descriptors end. -/
theorem scanDescriptors_ok {ds : List DomainDescriptor} (hflags : ∀ d ∈ ds, SuccessorFlagged d)
    {slacks : List DescriptorSlack} (h : StandsAt buf off (descriptorsLayout slacks ds)) {stop : Nat} :
    (scanDescriptors buf ds.length off).outcome = .ok stop ↔ stop = off + descriptorsSize ds := by
  induction ds generalizing off slacks with
  | nil =>
      have hoff : off ≤ buf.length := standsAt_nil_iff.mp h
      simp only [List.length_nil, scanDescriptors, Run.bind_outcome_ok, Run.failIf_outcome_ok,
        Run.pure_outcome, Outcome.ok.injEq]
      constructor
      · rintro ⟨-, -, rfl⟩
        rfl
      · rintro rfl
        exact ⟨(), by omega, rfl⟩
  | cons d ds ih =>
      obtain ⟨hflag, hflags⟩ := List.forall_mem_cons.mp hflags
      rw [descriptorsLayout, standsAt_append_iff, length_descriptorLayout hflag] at h
      have hroom : off + domainDescriptorSize ≤ buf.length := by
        have := h.1.length_le
        rw [length_descriptorLayout hflag, descriptorSize] at this
        omega
      have hread : (byteAt buf (off + 3) : ManifestRun UInt8).outcome = .ok d.flags :=
        byteAt_ok.mpr (standsAt_flags h.1)
      have hrest : (scanDescriptors buf ds.length (off + scanStep d.flags)).outcome = .ok stop ↔
          stop = off + descriptorSize d + descriptorsSize ds := ih hflags h.2
      have hsum : off + descriptorsSize (d :: ds) = off + descriptorSize d + descriptorsSize ds := by
        simp [descriptorsSize, Nat.add_assoc]
      rw [List.length_cons, scanDescriptors_succ_ok, hsum, ← hrest]
      constructor
      · rintro ⟨-, flags, hflags', hscan⟩
        obtain rfl : d.flags = flags := Outcome.ok.inj (hread.symm.trans hflags')
        exact hscan
      · intro hscan
        exact ⟨hroom, d.flags, hread, hscan⟩

def groupsLayout (groups : List UInt16) : Bytes := groups.flatMap putUint16

def sourcesLayout (sources : List (FixedBytes 16)) : Bytes := sources.flatMap (·.val)

@[simp] theorem length_groupsLayout (groups : List UInt16) :
    (groupsLayout groups).length = 2 * groups.length := by
  induction groups with
  | nil => rfl
  | cons g groups ih =>
      rw [groupsLayout, List.flatMap_cons, List.length_append, length_putUint16, ← groupsLayout, ih,
        List.length_cons]
      omega

@[simp] theorem length_sourcesLayout (sources : List (FixedBytes 16)) :
    (sourcesLayout sources).length = 16 * sources.length := by
  induction sources with
  | nil => rfl
  | cons src sources ih =>
      rw [sourcesLayout, List.flatMap_cons, List.length_append, FixedBytes.length_val, ← sourcesLayout,
        ih, List.length_cons]
      omega

/-- After the first round every group is compared with the one before it. -/
theorem decodeGroups_ok {count i stop : Nat} {prev : UInt16} {gs : List UInt16}
    (hoff : off ≤ buf.length) :
    (decodeGroups buf count i prev off).outcome = .ok (gs, stop) ↔
      gs.length = count ∧ (0 < i → ∀ g ∈ gs.head?, prev < g) ∧ gs.IsChain (· < ·) ∧
        stop = off + 2 * count ∧ StandsAt buf off (groupsLayout gs) := by
  induction count generalizing off i prev gs stop with
  | zero =>
      simp only [decodeGroups, Run.pure_outcome, Outcome.ok.injEq, Prod.mk.injEq]
      constructor
      · rintro ⟨rfl, rfl⟩
        exact ⟨rfl, by nofun, .nil, rfl, standsAt_nil_iff.mpr hoff⟩
      · rintro ⟨hlength, -, -, rfl, -⟩
        obtain rfl := List.length_eq_zero_iff.mp hlength
        exact ⟨rfl, rfl⟩
  | succ count ih =>
      simp only [decodeGroups, Run.bind_outcome_ok, uint16At_ok, reject, Run.failIf_outcome_ok,
        Run.pure_outcome]
      constructor
      · rintro ⟨g, hg, -, hsorted, ⟨rest, stop'⟩, hrest, heq⟩
        cases heq
        have hnext : off + 2 ≤ buf.length := by simpa using hg.length_le
        obtain ⟨hlength, hhead, hchain, rfl, htail⟩ := (ih hnext).mp hrest
        refine ⟨by simp [hlength], ?_, ?_, by omega, ?_⟩
        · intro hi g' hg'
          cases hg'
          exact UInt16.not_le.mp fun hle => hsorted ⟨hi, hle⟩
        · exact List.isChain_cons.mpr ⟨hhead (Nat.succ_pos i), hchain⟩
        · rw [groupsLayout, List.flatMap_cons, standsAt_append_iff, length_putUint16]
          exact ⟨hg, htail⟩
      · cases gs with
        | nil =>
            rintro ⟨hlength, -⟩
            cases hlength
        | cons g gs =>
            rintro ⟨hlength, hhead, hchain, rfl, hstands⟩
            rw [groupsLayout, List.flatMap_cons, standsAt_append_iff, length_putUint16] at hstands
            obtain ⟨hnext, hchain⟩ := List.isChain_cons.mp hchain
            have hroom : off + 2 ≤ buf.length := by simpa using hstands.1.length_le
            refine ⟨g, hstands.1, (), ?_, (gs, off + 2 + 2 * count),
              (ih hroom).mpr ⟨by simpa using hlength, fun _ => hnext, hchain, rfl, hstands.2⟩, ?_⟩
            · rintro ⟨hi, hle⟩
              exact absurd (hhead hi g rfl) (UInt16.not_lt.mpr hle)
            · rw [Nat.mul_succ]
              congr 2
              omega

theorem decodeSources_ok {count stop : Nat} {sources : List (FixedBytes 16)}
    (hoff : off ≤ buf.length) :
    (decodeSources buf count off).outcome = .ok (sources, stop) ↔
      sources.length = count ∧ stop = off + 16 * count ∧ StandsAt buf off (sourcesLayout sources) := by
  induction count generalizing off sources stop with
  | zero =>
      simp only [decodeSources, Run.pure_outcome, Outcome.ok.injEq, Prod.mk.injEq]
      constructor
      · rintro ⟨rfl, rfl⟩
        exact ⟨rfl, rfl, standsAt_nil_iff.mpr hoff⟩
      · rintro ⟨hlength, rfl, -⟩
        obtain rfl := List.length_eq_zero_iff.mp hlength
        exact ⟨rfl, rfl⟩
  | succ count ih =>
      simp only [decodeSources, Run.bind_outcome_ok, copyAt_ok, Run.pure_outcome]
      constructor
      · rintro ⟨src, hsrc, ⟨rest, stop'⟩, hrest, heq⟩
        cases heq
        have hnext : off + 16 ≤ buf.length := by simpa using hsrc.length_le
        obtain ⟨hlength, rfl, htail⟩ := (ih hnext).mp hrest
        refine ⟨by simp [hlength], by omega, ?_⟩
        rw [sourcesLayout, List.flatMap_cons, standsAt_append_iff, FixedBytes.length_val]
        exact ⟨hsrc, htail⟩
      · cases sources with
        | nil =>
            rintro ⟨hlength, -⟩
            cases hlength
        | cons src sources =>
            rintro ⟨hlength, rfl, hstands⟩
            rw [sourcesLayout, List.flatMap_cons, standsAt_append_iff, FixedBytes.length_val] at hstands
            have hroom : off + 16 ≤ buf.length := by simpa using hstands.1.length_le
            refine ⟨src, hstands.1, (sources, off + 16 + 16 * count),
              (ih hroom).mpr ⟨by simpa using hlength, rfl, hstands.2⟩, ?_⟩
            rw [Nat.mul_succ]
            congr 2
            omega

/-! ## The header -/

def headerLayout (version : FixedBytes 2) (crc : UInt32) (m : ShardManifest)
    (groupCount bitmapBytes sourceCount : UInt16) : Bytes :=
  putUint32 magicBSV ++ (version.val ++ ([msgTypeShardManifest] ++ ([m.flags] ++ (m.srcIPv6.val ++
    (putUint32 m.instanceID ++ (putUint32 m.epoch ++ (putUint16 m.ttl ++
      (putUint16 m.announceInterval ++ ([m.shardBits] ++ ([m.roleHint] ++ (putUint16 groupCount ++
        (putUint16 bitmapBytes ++ (putUint16 sourceCount ++ (putUint32 crc ++
          m.generationID.val))))))))))))))

@[simp] theorem length_headerLayout (version : FixedBytes 2) (crc : UInt32) (m : ShardManifest)
    (groupCount bitmapBytes sourceCount : UInt16) :
    (headerLayout version crc m groupCount bitmapBytes sourceCount).length =
      shardManifestHeaderSize := by
  simp [headerLayout, shardManifestHeaderSize]

/-- The header stands at the start of a buffer piece by piece. -/
theorem standsAt_headerLayout {version : FixedBytes 2} {crc : UInt32} {m : ShardManifest}
    {groupCount bitmapBytes sourceCount : UInt16} :
    StandsAt buf 0 (headerLayout version crc m groupCount bitmapBytes sourceCount) ↔
      StandsAt buf 0 (putUint32 magicBSV) ∧ StandsAt buf 4 version.val ∧
      StandsAt buf 6 [msgTypeShardManifest] ∧ StandsAt buf 7 [m.flags] ∧
      StandsAt buf 8 m.srcIPv6.val ∧ StandsAt buf 24 (putUint32 m.instanceID) ∧
      StandsAt buf 28 (putUint32 m.epoch) ∧ StandsAt buf 32 (putUint16 m.ttl) ∧
      StandsAt buf 34 (putUint16 m.announceInterval) ∧ StandsAt buf 36 [m.shardBits] ∧
      StandsAt buf 37 [m.roleHint] ∧ StandsAt buf 38 (putUint16 groupCount) ∧
      StandsAt buf 40 (putUint16 bitmapBytes) ∧ StandsAt buf 42 (putUint16 sourceCount) ∧
      StandsAt buf 44 (putUint32 crc) ∧ StandsAt buf 48 m.generationID.val := by
  simp only [headerLayout, standsAt_append_iff, length_putUint16, length_putUint32,
    FixedBytes.length_val, List.length_singleton, Nat.reduceAdd]

/-- The manifest without its payload sections. -/
def ShardManifest.fixedFields (m : ShardManifest) : ShardManifest :=
  { m with groups := [], bitmap := [], sources := [], successor := none, domains := [] }

theorem decodeHeader_ok {h : ManifestHeader} :
    (decodeHeader buf).outcome = .ok h ↔
      h.manifest = h.manifest.fixedFields ∧ h.manifest.shardBits ≤ maxShardBits ∧
      (checkCounts h.manifest.flags h.groupCount h.bitmapBytes h.sourceCount).outcome = .ok () ∧
      ∃ version crc, StandsAt buf 0
        (headerLayout version crc h.manifest h.groupCount h.bitmapBytes h.sourceCount) := by
  rw [decodeHeader]
  simp only [Run.bind_outcome_ok, byteAt_ok, uint16At_ok, uint32At_ok, copyAt_ok, reject,
    Run.failIf_outcome_ok, Run.pure_outcome, Nat.reduceAdd, standsAt_headerLayout]
  constructor
  · rintro ⟨-, hlength, magic, hmagic, -, hmagicBSV, msgType, hmsgType, -, hmanifest, flags, hflags,
      instanceID, hinstanceID, epoch, hepoch, ttl, httl, interval, hinterval, bits, hbits, role, hrole,
      src, hsrc, generation, hgeneration, -, hmax, groups, hgroups, bitmap, hbitmap, sources, hsources,
      ⟨⟩, hcounts, heq⟩
    cases heq
    obtain rfl := not_not.mp hmagicBSV
    obtain rfl := not_not.mp hmanifest
    rw [shardManifestHeaderSize] at hlength
    have hroom : 4 + 2 ≤ buf.length := by omega
    have hroomCRC : 44 + 4 ≤ buf.length := by omega
    obtain ⟨version, hversion⟩ := exists_fixedBytes hroom
    obtain ⟨crc, hcrc⟩ := exists_uint32 hroomCRC
    exact ⟨rfl, UInt8.not_lt.mp hmax, hcounts, version, crc, hmagic, hversion, hmsgType, hflags, hsrc,
      hinstanceID, hepoch, httl, hinterval, hbits, hrole, hgroups, hbitmap, hsources, hcrc,
      hgeneration⟩
  · obtain ⟨m, groupCount, bitmapBytes, sourceCount⟩ := h
    rintro ⟨hfixed, hmax, hcounts, version, crc, hmagic, -, hmsgType, hflags, hsrc, hinstanceID,
      hepoch, httl, hinterval, hbits, hrole, hgroups, hbitmap, hsources, -, hgeneration⟩
    have hlength : ¬ buf.length < shardManifestHeaderSize := by
      have := hgeneration.length_le
      rw [FixedBytes.length_val] at this
      rw [shardManifestHeaderSize]
      omega
    refine ⟨(), hlength, _, hmagic, (), not_not.mpr rfl, _, hmsgType, (), not_not.mpr rfl, _, hflags, _,
      hinstanceID, _, hepoch, _, httl, _, hinterval, _, hbits, _, hrole, _, hsrc, _, hgeneration, (),
      UInt8.not_lt.mpr hmax, _, hgroups, _, hbitmap, _, hsources, (), hcounts, ?_⟩
    rw [Outcome.ok.injEq, ManifestHeader.mk.injEq]
    exact ⟨hfixed.symm, rfl, rfl, rfl⟩

end ShardCommon.Frame
