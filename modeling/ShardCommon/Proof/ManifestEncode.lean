import ShardCommon.Proof.ManifestDecode

/-!
# What the encoder writes

Each step of the encoder appends its part at the cursor and leaves everything else of the buffer as
it was, so a successful call leaves the layout of the manifest, with its CRC, in front of the old
contents.
-/

namespace ShardCommon.Frame

open Go

variable {m : ShardManifest} {buf : Bytes}

/-- The ignored bytes as the encoder sends them. -/
def Slack.sent : Slack := ⟨.copy 2 (putUint16 Frame.protoVer), .copy 2 [], []⟩

theorem puts_putNext (part : Bytes) : Puts (putNext · part) part := Go.puts_putNext part

theorem puts_putSuccessor (s : SuccessorBlock) :
    Puts (putSuccessor · s) (successorLayout (.copy 2 []) s) := by
  have hcontiguous : ∀ off, Contiguous off (successorWrites off s) := by
    intro off
    simp [successorWrites, Contiguous]
  have hwritten : ∀ off, written (successorWrites off s) = successorLayout (.copy 2 []) s := by
    intro off
    simp [successorWrites, written, successorLayout, FixedBytes.copy]
  have hputs := @puts_putAll _ ShardManifestError _ _ hcontiguous hwritten
  rwa [length_successorLayout] at hputs

theorem puts_putDescriptor (d : DomainDescriptor) :
    Puts (putDescriptor · d) (descriptorLayout default d) := by
  have hcontiguous : ∀ off, Contiguous off (descriptorWrites off d) := by
    intro off
    simp [descriptorWrites, Contiguous]
  have hwritten : ∀ off, written (descriptorWrites off d) =
      [d.domainID, d.shardBits, d.slotSpan, d.flags, d.version, 0, 0, 0] ++ d.generationID.val := by
    intro off
    simp [descriptorWrites, written]
  have hcore := @puts_putAll _ ShardManifestError _ _ hcontiguous hwritten
  have hlength : ([d.domainID, d.shardBits, d.slotSpan, d.flags, d.version, 0, 0, 0] ++
      d.generationID.val).length = domainDescriptorSize := by simp [domainDescriptorSize]
  rw [hlength] at hcore
  cases hs : d.successor with
  | none =>
      have hlayout : descriptorLayout default d =
          [d.domainID, d.shardBits, d.slotSpan, d.flags, d.version, 0, 0, 0] ++ d.generationID.val ++
            [] := by
        simp [descriptorLayout, hs, default, FixedBytes.copy]
      rw [hlayout]
      have hboth := hcore.andThen puts_pure
      simpa [putDescriptor, hs] using hboth
  | some s =>
      have hlayout : descriptorLayout default d =
          [d.domainID, d.shardBits, d.slotSpan, d.flags, d.version, 0, 0, 0] ++ d.generationID.val ++
            successorLayout (.copy 2 []) s := by
        simp [descriptorLayout, hs, default, FixedBytes.copy]
      rw [hlayout]
      have hboth := hcore.andThen (puts_putSuccessor s)
      simpa [putDescriptor, hs] using hboth

theorem descriptorsLayout_nil (ds : List DomainDescriptor) :
    descriptorsLayout [] ds = ds.flatMap (descriptorLayout default) := by
  induction ds with
  | nil => rfl
  | cons d ds ih => rw [descriptorsLayout, List.tail_nil, ih, List.flatMap_cons]; rfl

theorem puts_putGroups (hm : WellFormed m) : Puts (putGroups m) (groupsSection m) := by
  rcases hm.oneForm with hnil | hnil
  · by_cases hbitmap : m.bitmap = []
    · have hstep : putGroups m = pure := by
        funext c
        simp [putGroups, hnil, hbitmap]
      have hpart : groupsSection m = [] := by simp [groupsSection, groupsLayout, hnil, hbitmap]
      rw [hstep, hpart]
      exact puts_pure
    · have hstep : putGroups m = (putNext · m.bitmap) := by
        funext c
        simp [putGroups, List.length_pos_iff, hbitmap]
      have hpart : groupsSection m = m.bitmap := by simp [groupsSection, groupsLayout, hnil]
      rw [hstep, hpart]
      exact puts_putNext m.bitmap
  · have hstep : putGroups m = fun c => m.groups.foldlM (fun c g => putNext c (putUint16 g)) c := by
      funext c
      cases hgroups : m.groups <;> simp [putGroups, hnil, hgroups]
    rw [hstep, groupsSection, hnil, List.nil_append]
    exact puts_foldlM fun g _ => puts_putNext (putUint16 g)

theorem puts_putSources (m : ShardManifest) : Puts (putSources m) (sourcesLayout m.sources) :=
  puts_foldlM fun src _ => puts_putNext src.val

theorem puts_putSuccessorSection (hm : WellFormed m) :
    Puts (putSuccessorSection m) (successorSection Slack.sent.successor m) := by
  cases hs : m.successor with
  | none =>
      have hstep : putSuccessorSection m = pure := by
        funext c
        simp [putSuccessorSection, hm.successorFlag, hs]
      rw [hstep, successorSection, hs]
      exact puts_pure
  | some s =>
      have hstep : putSuccessorSection m = (putSuccessor · s) := by
        funext c
        simp [putSuccessorSection, hm.successorFlag, hs]
      rw [hstep, successorSection, hs]
      exact puts_putSuccessor s

theorem puts_putDomainsSection (hm : WellFormed m) :
    Puts (putDomainsSection m) (domainsSection Slack.sent.domains m) := by
  by_cases hnil : m.domains = []
  · have hstep : putDomainsSection m = pure := by
      funext c
      exact if_neg fun hset => hm.domainsFlag.mp hset hnil
    rw [hstep, domainsSection, if_pos hnil]
    exact puts_pure
  · have hstep : putDomainsSection m = fun c =>
        putNext c [UInt8.ofNat m.domains.length] >>= m.domains.foldlM putDescriptor := by
      funext c
      exact if_pos (hm.domainsFlag.mpr hnil)
    have hslack : Slack.sent.domains = [] := rfl
    rw [hstep, domainsSection, if_neg hnil, hslack, descriptorsLayout_nil]
    exact (puts_putNext _).andThen (puts_foldlM fun d _ => puts_putDescriptor d)

/-- Everything after the header. -/
theorem puts_putSections (hm : WellFormed m) :
    Puts (putSections m) (payloadLayout Slack.sent.successor Slack.sent.domains m) :=
  (puts_putGroups hm).andThen ((puts_putSources m).andThen
    ((puts_putSuccessorSection hm).andThen (puts_putDomainsSection hm)))

/-- `ShardManifestSize` counts the bytes of the layout. -/
theorem length_manifestLayout_eq_size (hm : WellFormed m) (slack : Slack) (crc : UInt32) :
    (manifestLayout slack crc m).length = shardManifestSize m := by
  have hgroups : groupsLen (headerOf m) = if hasFlag m.flags flagGroupsValid then
      if 0 < m.bitmap.length then m.bitmap.length else 2 * m.groups.length else 0 := by
    have hc := coherent_headerOf hm
    rw [← length_groupsSection hc.form hc.sections.bitmap hc.sections.groups, groupsSection,
      List.length_append, length_groupsLayout]
    by_cases hflag : hasFlag m.flags flagGroupsValid = true
    · rw [if_pos hflag]
      rcases hm.oneForm with hnil | hnil
      · rw [hnil]
        split <;> simp_all
      · rw [hnil]
        simp
    · have hnone := not_or.mp fun h => hflag (hm.groupsFlag.mpr h)
      rw [if_neg hflag, not_not.mp hnone.1, not_not.mp hnone.2]
      rfl
  have hdomains : domainsLen m =
      if hasFlag m.flags flagDomainsValid then 1 + (m.domains.map descriptorSize).sum else 0 := by
    by_cases hnil : m.domains = []
    · rw [domainsLen, if_pos hnil, if_neg fun hset => hm.domainsFlag.mp hset hnil]
    · rw [domainsLen, if_neg hnil, if_pos (hm.domainsFlag.mpr hnil), descriptorsSize]
  rw [length_manifestLayout hm, shardManifestSize, hgroups, hdomains, successorLen,
    ← (coherent_headerOf hm).sections.sources]

theorem putAll_headerWrites (hroom : shardManifestHeaderSize ≤ buf.length) :
    Run.putAll buf (headerWrites m) =
      (pure (headerLayout Slack.sent.protoVer 0 m (groupCount m) (bitmapBytes m)
        (UInt16.ofNat m.sources.length) ++ buf.drop shardManifestHeaderSize) : ManifestRun Bytes) := by
  have hcontiguous : Contiguous ([] : Bytes).length (headerWrites m) := by
    simp [headerWrites, Contiguous]
  have hwritten : written (headerWrites m) = headerLayout Slack.sent.protoVer 0 m (groupCount m)
      (bitmapBytes m) (UInt16.ofNat m.sources.length) := by
    have hversion : Slack.sent.protoVer.val = putUint16 protoVer :=
      FixedBytes.copy_val (length_putUint16 _)
    rw [headerLayout, hversion]
    simp [headerWrites, written, putUint32, BigEndian.ofNat]
  have hput : (Run.putAll ([] ++ buf) (headerWrites m) : ManifestRun Bytes) = _ :=
    putAll_append hcontiguous (by rwa [hwritten, length_headerLayout])
  rw [hwritten, length_headerLayout] at hput
  simpa using hput

/-- The datagram that the encoder produces. -/
def sentDatagram (checksum : Bytes → UInt32) (m : ShardManifest) : Bytes :=
  manifestLayout .sent (checksum (manifestLayout .sent 0 m)) m

theorem encodeShardManifest_of_wellFormed (checksum : Bytes → UInt32) (hm : WellFormed m)
    (hroom : shardManifestSize m ≤ buf.length) :
    (encodeShardManifest checksum m buf).outcome =
      .ok (shardManifestSize m, sentDatagram checksum m ++ buf.drop (shardManifestSize m)) := by
  set total := shardManifestSize m with htotal
  have hlength : ∀ crc, (manifestLayout .sent crc m).length = total :=
    length_manifestLayout_eq_size hm .sent
  have hsplit : shardManifestHeaderSize +
      (payloadLayout Slack.sent.successor Slack.sent.domains m).length = total := by
    rw [← hlength 0, manifestLayout, List.length_append, length_headerLayout]
  have hheader := putAll_headerWrites (m := m) (show shardManifestHeaderSize ≤ buf.length by omega)
  have hsections := puts_putSections hm (headerLayout Slack.sent.protoVer 0 m (groupCount m)
    (bitmapBytes m) (UInt16.ofNat m.sources.length)) (buf.drop shardManifestHeaderSize)
    (by rw [List.length_drop]; omega)
  rw [length_headerLayout, List.drop_drop, hsplit, ← manifestLayout] at hsections
  have hcovered : (bytesAt (manifestLayout .sent 0 m ++ buf.drop total) 0 total : ManifestRun Bytes) =
      pure (manifestLayout .sent 0 m) := by
    rw [bytesAt, Run.slice_of_le (Nat.zero_le _) (by rw [List.length_append, hlength]; omega),
      List.drop_zero, Nat.sub_zero, List.take_left' (hlength 0)]
  have hcrc : ∀ crc, (Run.put (manifestLayout .sent 0 m ++ buf.drop total) 44 (putUint32 crc) :
      ManifestRun Bytes) = pure (manifestLayout .sent crc m ++ buf.drop total) := by
    intro crc
    rw [manifestLayout_eq, List.append_assoc,
      put_append (length_layoutFront _ m).symm (by simp), length_putUint32, manifestLayout_eq]
    simp
  have hchecks : (checkManifest m).outcome = .ok () := checkManifest_ok.mpr hm
  rw [encodeShardManifest, Run.bind_outcome_ok]
  refine ⟨(), hchecks, ?_⟩
  dsimp only
  rw [Run.failIf_neg (by omega), pure_bind, hheader, pure_bind, hsections, pure_bind]
  dsimp only
  rw [hcovered, pure_bind, hcrc, pure_bind, Run.pure_outcome, sentDatagram]

end ShardCommon.Frame
