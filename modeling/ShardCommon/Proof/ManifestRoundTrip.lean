import ShardCommon.Proof.ManifestEncode

/-!
# The manifest codec is a round trip

Encoding and decoding meet in the layout: the encoder leaves one behind, and the decoder accepts
exactly the buffers that start with one. Two layouts of one manifest differ only in the bytes that
decoding ignores.
-/

namespace ShardCommon.Frame

open Go

variable {m : ShardManifest} {buf : Bytes}

theorem encodeShardManifest_ok {checksum : Bytes → UInt32} {n : Nat} {out : Bytes} :
    (encodeShardManifest checksum m buf).outcome = .ok (n, out) ↔
      WellFormed m ∧ shardManifestSize m ≤ buf.length ∧ n = shardManifestSize m ∧
        out = sentDatagram checksum m ++ buf.drop (shardManifestSize m) := by
  constructor
  · intro h
    have hencode := h
    simp only [encodeShardManifest, Run.bind_outcome_ok, Run.failIf_outcome_ok] at hencode
    obtain ⟨⟨⟩, hchecks, -, hroom, -⟩ := hencode
    have hm := checkManifest_ok.mp hchecks
    rw [encodeShardManifest_of_wellFormed checksum hm (not_lt.mp hroom)] at h
    cases h
    exact ⟨hm, not_lt.mp hroom, rfl, rfl⟩
  · rintro ⟨hm, hroom, rfl, rfl⟩
    exact encodeShardManifest_of_wellFormed checksum hm hroom

/-! ## The bytes that decoding ignores -/

/-- The reserved bytes of a Successor block at `off`. -/
def SuccessorReserved (off i : Nat) : Prop := off + 18 ≤ i ∧ i < off + 20

/-- The reserved bytes of the descriptors at `off`, those of their Successor blocks included. -/
def DescriptorsReserved : Nat → List DomainDescriptor → Nat → Prop
  | _, [], _ => False
  | off, d :: ds, i =>
    (off + 5 ≤ i ∧ i < off + 8) ∨
      (d.successor.isSome ∧ SuccessorReserved (off + domainDescriptorSize) i) ∨
      DescriptorsReserved (off + descriptorSize d) ds i

/-- Where the top-level Successor block of a manifest starts. -/
def successorOffset (m : ShardManifest) : Nat :=
  shardManifestHeaderSize + m.bitmap.length + 2 * m.groups.length + 16 * m.sources.length

/-- The ProtoVer field, the CRC and the reserved bytes of a manifest's datagram. -/
def Ignored (m : ShardManifest) (i : Nat) : Prop :=
  (4 ≤ i ∧ i < 6) ∨ (44 ≤ i ∧ i < 48) ∨
    (m.successor.isSome ∧ SuccessorReserved (successorOffset m) i) ∨
    DescriptorsReserved (successorOffset m + successorLen m.flags + 1) m.domains i

theorem agreeOff_headerLayout (m : ShardManifest) (version version' : FixedBytes 2)
    (crc crc' : UInt32) (groupCount bitmapBytes sourceCount : UInt16) :
    AgreeOff (Ignored m) 0 (headerLayout version crc m groupCount bitmapBytes sourceCount)
      (headerLayout version' crc' m groupCount bitmapBytes sourceCount) := by
  have hsame := fun base (x : Bytes) => AgreeOff.refl (Ignored m) base x
  rw [headerLayout, headerLayout]
  refine (hsame _ _).append (.append ?_ ((hsame _ _).append ((hsame _ _).append ((hsame _ _).append
    ((hsame _ _).append ((hsame _ _).append ((hsame _ _).append ((hsame _ _).append
      ((hsame _ _).append ((hsame _ _).append ((hsame _ _).append ((hsame _ _).append
        ((hsame _ _).append (.append ?_ (hsame _ _)))))))))))))))
  · apply agreeOff_of_free (by simp)
    intro i hi
    left
    simp only [length_putUint32, FixedBytes.length_val] at hi ⊢
    omega
  · apply agreeOff_of_free (by simp)
    intro i hi
    right
    left
    simp only [length_putUint16, length_putUint32, FixedBytes.length_val, List.length_singleton] at hi ⊢
    omega

theorem agreeOff_successorLayout {free : Nat → Prop} {off : Nat} (s : SuccessorBlock)
    (reserved reserved' : FixedBytes 2) (hfree : ∀ i, SuccessorReserved off i → free i) :
    AgreeOff free off (successorLayout reserved s) (successorLayout reserved' s) := by
  rw [successorLayout, successorLayout]
  refine (AgreeOff.refl ..).append ((AgreeOff.refl ..).append ((AgreeOff.refl ..).append
    (.append ?_ (AgreeOff.refl ..))))
  apply agreeOff_of_free (by simp)
  intro i hi
  apply hfree
  simp only [FixedBytes.length_val, List.length_singleton] at hi ⊢
  constructor <;> omega

theorem agreeOff_descriptorsLayout {free : Nat → Prop} {off : Nat} {ds : List DomainDescriptor}
    (slacks slacks' : List DescriptorSlack) (hflags : ∀ d ∈ ds, SuccessorFlagged d)
    (hfree : ∀ i, DescriptorsReserved off ds i → free i) :
    AgreeOff free off (descriptorsLayout slacks ds) (descriptorsLayout slacks' ds) := by
  induction ds generalizing off slacks slacks' with
  | nil => exact AgreeOff.refl ..
  | cons d ds ih =>
      obtain ⟨hflag, hflags⟩ := List.forall_mem_cons.mp hflags
      rw [descriptorsLayout, descriptorsLayout]
      apply AgreeOff.append
      · rw [descriptorLayout, descriptorLayout]
        refine (AgreeOff.refl ..).append ((AgreeOff.refl ..).append ((AgreeOff.refl ..).append
          ((AgreeOff.refl ..).append ((AgreeOff.refl ..).append (.append ?_
            ((AgreeOff.refl ..).append ?_))))))
        · apply agreeOff_of_free (by simp)
          intro i hi
          apply hfree
          left
          simp only [FixedBytes.length_val, List.length_singleton] at hi ⊢
          omega
        · cases hs : d.successor with
          | none => exact AgreeOff.refl ..
          | some s =>
              apply agreeOff_successorLayout
              intro i hi
              apply hfree
              right
              left
              rw [hs]
              simpa [Nat.add_assoc, domainDescriptorSize] using hi
      · apply ih _ _ hflags
        intro i hi
        apply hfree
        right
        right
        rwa [length_descriptorLayout hflag] at hi

/-- Two layouts of one manifest agree on every byte that decoding looks at. -/
theorem agreeOff_manifestLayout (hm : WellFormed m) (slack slack' : Slack) (crc crc' : UInt32) :
    AgreeOff (Ignored m) 0 (manifestLayout slack crc m) (manifestLayout slack' crc' m) := by
  have hoffset : 0 + shardManifestHeaderSize + (groupsSection m).length +
      (sourcesLayout m.sources).length = successorOffset m := by
    rw [groupsSection, List.length_append, length_groupsLayout, length_sourcesLayout,
      successorOffset]
    omega
  rw [manifestLayout, manifestLayout, payloadLayout, payloadLayout]
  refine (agreeOff_headerLayout ..).append ((AgreeOff.refl ..).append ((AgreeOff.refl ..).append
    (.append ?_ ?_)))
  · rw [length_headerLayout, hoffset, successorSection, successorSection]
    cases hs : m.successor with
    | none => exact AgreeOff.refl ..
    | some s =>
        apply agreeOff_successorLayout
        intro i hi
        right
        right
        left
        rw [hs]
        exact ⟨rfl, hi⟩
  · rw [length_headerLayout, hoffset, length_successorSection _ hm.successorFlag, domainsSection,
      domainsSection]
    split
    · exact AgreeOff.refl ..
    · next hne =>
        refine (AgreeOff.refl ..).append ?_
        apply agreeOff_descriptorsLayout _ _ (validateDomains_ok (hm.domains hne)).2.2
        intro i hi
        right
        right
        right
        exact hi

/-! ## Round trips -/

theorem decode_sentDatagram (checksum : Bytes → UInt32) (hm : WellFormed m) (trailing : Bytes) :
    (decodeShardManifest checksum (sentDatagram checksum m ++ trailing)).outcome = .ok m :=
  decodeShardManifest_ok.mpr ⟨hm, .sent, standsAt_zero_self.append_right trailing⟩

theorem length_sentDatagram (checksum : Bytes → UInt32) (hm : WellFormed m) :
    (sentDatagram checksum m).length = shardManifestSize m :=
  length_manifestLayout_eq_size hm _ _

/-- What is encoded decodes to itself whatever follows it, and what is decoded encodes to the same
bytes up to those that decoding ignores. -/
theorem shardManifest_roundTrip (checksum : Bytes → UInt32) :
    (∀ m buf n out, (encodeShardManifest checksum m buf).outcome = .ok (n, out) →
      n = shardManifestSize m ∧
        ∀ trailing, (decodeShardManifest checksum (out.take n ++ trailing)).outcome = .ok m) ∧
    (∀ b m, (decodeShardManifest checksum b).outcome = .ok m →
      ∀ buf : Bytes, buf.length = shardManifestSize m →
        ∃ out, (encodeShardManifest checksum m buf).outcome = .ok (shardManifestSize m, out) ∧
          (decodeShardManifest checksum out).outcome = .ok m ∧
          AgreeOff (Ignored m) 0 out (b.take (shardManifestSize m))) := by
  constructor
  · intro m buf n out h
    obtain ⟨hm, -, rfl, rfl⟩ := encodeShardManifest_ok.mp h
    refine ⟨rfl, fun trailing => ?_⟩
    rw [← length_sentDatagram checksum hm, List.take_left]
    exact decode_sentDatagram checksum hm trailing
  · intro b m h buf hlength
    obtain ⟨hm, slack, hstands⟩ := decodeShardManifest_ok.mp h
    refine ⟨sentDatagram checksum m, ?_, ?_, ?_⟩
    · apply encodeShardManifest_ok.mpr
      refine ⟨hm, hlength.ge, rfl, ?_⟩
      rw [← hlength, List.drop_length, List.append_nil]
    · simpa using decode_sentDatagram checksum hm []
    · rw [← length_manifestLayout_eq_size hm slack _, hstands.take_eq]
      exact agreeOff_manifestLayout hm ..

/-- A pilot's manifest with all four sections; plane 1 is about to grow from 10 to 11 bits. -/
def pilotManifest : ShardManifest where
  flags := flagGroupsValid ||| flagAuthoritative ||| flagSourcesValid ||| flagPilotOnly |||
    flagSuccessorValid ||| flagDomainsValid
  srcIPv6 := .copy 16 [0x20, 0x01]
  instanceID := 7
  epoch := 1700000000
  ttl := 90
  announceInterval := 30
  shardBits := 8
  roleHint := 5
  generationID := .copy 16 [1]
  groups := [3, 200]
  bitmap := []
  sources := [.copy 16 [0x20, 0x02]]
  successor := some ⟨.copy 16 [2], 9, 0, 1700003600⟩
  domains := [⟨1, 10, 1, domainFlagSuccessorValid, 0, .copy 16 [3], some ⟨.copy 16 [4], 11, 0, 9⟩⟩]

theorem shardManifest_roundTrip_pilot : ∃ out,
    (encodeShardManifest crc32c pilotManifest (List.replicate 157 0xAA)).outcome = .ok (157, out) ∧
    (decodeShardManifest crc32c (out.take 157 ++ [1, 2, 3])).outcome = .ok pilotManifest ∧
    ∃ again, (encodeShardManifest crc32c pilotManifest (List.replicate 157 0)).outcome =
      .ok (157, again) ∧ (decodeShardManifest crc32c again).outcome = .ok pilotManifest := by
  have hchecks : (checkManifest pilotManifest).outcome = .ok () := by decide +kernel
  have hsize : shardManifestSize pilotManifest = 157 := by decide +kernel
  obtain ⟨out, hencode⟩ : ∃ out, (encodeShardManifest crc32c pilotManifest
      (List.replicate 157 0xAA)).outcome = .ok (157, out) := by
    refine ⟨_, encodeShardManifest_ok.mpr ⟨checkManifest_ok.mp hchecks, ?_, hsize.symm, rfl⟩⟩
    rw [hsize, List.length_replicate]
  have hdecode := ((shardManifest_roundTrip crc32c).1 _ _ _ _ hencode).2 [1, 2, 3]
  obtain ⟨again, hagain, hsame, -⟩ := (shardManifest_roundTrip crc32c).2 _ _ hdecode
    (List.replicate 157 0) (by rw [List.length_replicate, hsize])
  rw [hsize] at hagain
  exact ⟨out, hencode, hdecode, again, hagain, hsame⟩

end ShardCommon.Frame
