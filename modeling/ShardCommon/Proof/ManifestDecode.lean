import ShardCommon.Proof.ManifestRules

/-!
# What the decoder accepts

A buffer decodes to a manifest exactly when the manifest is well formed and its layout, with the
matching CRC, stands at the start of the buffer.
-/

namespace ShardCommon.Frame

open Go

variable {m : ShardManifest} {buf : Bytes} {off stop : Nat} {h : ManifestHeader}

def groupsSection (m : ShardManifest) : Bytes := m.bitmap ++ groupsLayout m.groups

def successorSection (reserved : FixedBytes 2) (m : ShardManifest) : Bytes :=
  match m.successor with
  | some s => successorLayout reserved s
  | none => []

def domainsSection (slacks : List DescriptorSlack) (m : ShardManifest) : Bytes :=
  if m.domains = [] then []
  else [UInt8.ofNat m.domains.length] ++ descriptorsLayout slacks m.domains

def payloadLayout (reserved : FixedBytes 2) (slacks : List DescriptorSlack) (m : ShardManifest) :
    Bytes :=
  groupsSection m ++ (sourcesLayout m.sources ++
    (successorSection reserved m ++ domainsSection slacks m))

/-- The datagram of a manifest with the given CRC field. -/
def manifestLayout (slack : Slack) (crc : UInt32) (m : ShardManifest) : Bytes :=
  headerLayout slack.protoVer crc m (groupCount m) (bitmapBytes m) (UInt16.ofNat m.sources.length) ++
    payloadLayout slack.successor slack.domains m

theorem make_uint16 (v : UInt16) {width : Nat} (hwidth : width ≤ 32) :
    (v.toNat : Int) ≤ maxInt ∧ v.toNat * width < 2 ^ 64 := by
  have hcount := v.toNat_lt
  have hsize : v.toNat * width ≤ v.toNat * 32 := Nat.mul_le_mul_left _ hwidth
  rw [maxInt]
  omega

/-! ## Sections -/

theorem decodeGroupsSection_ok {m' : ShardManifest} (hoff : off ≤ buf.length)
    (hfixed : h.manifest = h.manifest.fixedFields) (hform : h.groupCount = 0 ∨ h.bitmapBytes = 0) :
    (decodeGroupsSection h buf off).outcome = .ok (m', stop) ↔
      m' = { h.manifest with groups := m'.groups, bitmap := m'.bitmap } ∧
      m'.bitmap.length = h.bitmapBytes.toNat ∧ m'.groups.length = h.groupCount.toNat ∧
      m'.groups.IsChain (· < ·) ∧ stop = off + groupsLen h ∧
      StandsAt buf off (groupsSection m') := by
  have hgroups : h.manifest.groups = [] := congrArg ShardManifest.groups hfixed
  have hbitmap : h.manifest.bitmap = [] := congrArg ShardManifest.bitmap hfixed
  rw [decodeGroupsSection, groupsLen, groupsSection]
  split
  · next hbytes =>
      have hne : h.bitmapBytes ≠ 0 := UInt16.pos_iff_ne_zero.mp hbytes
      have hcount : h.groupCount = 0 := hform.resolve_right hne
      simp only [Run.bind_outcome_ok, bytesAt_ok, Run.pure_outcome, if_neg hne, hcount]
      constructor
      · rintro ⟨bitmap, ⟨hstands, hlength⟩, heq⟩
        cases heq
        dsimp only
        rw [hgroups]
        exact ⟨rfl, by omega, rfl, .nil, rfl, by simpa [groupsLayout] using hstands⟩
      · rintro ⟨heq, hlength, hnil, -, rfl, hstands⟩
        obtain hnil := List.length_eq_zero_iff.mp hnil
        rw [hnil] at heq hstands
        refine ⟨m'.bitmap, ⟨by simpa [groupsLayout] using hstands, by omega⟩, ?_⟩
        rw [heq]
        simp only [hgroups]
  · next hbytes =>
      have hzero : h.bitmapBytes = 0 := by
        by_contra hne
        exact hbytes (UInt16.pos_iff_ne_zero.mpr hne)
      rw [hzero, if_pos rfl]
      split
      · simp only [Run.bind_outcome_ok, Run.make_outcome_ok_iff, Run.pure_outcome]
        constructor
        · rintro ⟨-, -, ⟨gs, stop'⟩, hgs, heq⟩
          cases heq
          obtain ⟨hlength, -, hsorted, rfl, hstands⟩ := (decodeGroups_ok hoff).mp hgs
          dsimp only
          rw [hbitmap]
          exact ⟨rfl, rfl, hlength, hsorted, rfl, hstands⟩
        · rintro ⟨heq, hnil, hlength, hsorted, rfl, hstands⟩
          obtain hnil := List.length_eq_zero_iff.mp hnil
          rw [hnil] at heq hstands
          refine ⟨(), make_uint16 _ (by decide), (m'.groups, off + 2 * h.groupCount.toNat),
            (decodeGroups_ok hoff).mpr ⟨hlength, by rintro ⟨⟩, hsorted, rfl, hstands⟩, ?_⟩
          rw [heq]
          simp only [hbitmap]
      · next hcount =>
          have hnone : h.groupCount = 0 := by
            by_contra hne
            exact hcount (UInt16.pos_iff_ne_zero.mpr hne)
          simp only [Run.pure_outcome, Outcome.ok.injEq, Prod.mk.injEq, hnone]
          constructor
          · rintro ⟨rfl, rfl⟩
            rw [hgroups, hbitmap]
            refine ⟨by rw [← hgroups, ← hbitmap], rfl, rfl, .nil, rfl, standsAt_nil_iff.mpr hoff⟩
          · rintro ⟨heq, hbytes, hlist, -, rfl, -⟩
            rw [heq, List.length_eq_zero_iff.mp hbytes, List.length_eq_zero_iff.mp hlist]
            refine ⟨?_, rfl⟩
            rw [← hgroups, ← hbitmap]

theorem decodeSourcesSection_ok {m' : ShardManifest} (hoff : off ≤ buf.length)
    (hsources : m.sources = []) :
    (decodeSourcesSection h buf m off).outcome = .ok (m', stop) ↔
      m' = { m with sources := m'.sources } ∧ m'.sources.length = h.sourceCount.toNat ∧
      stop = off + 16 * h.sourceCount.toNat ∧ StandsAt buf off (sourcesLayout m'.sources) := by
  rw [decodeSourcesSection]
  split
  · simp only [Run.bind_outcome_ok, Run.make_outcome_ok_iff, Run.pure_outcome]
    constructor
    · rintro ⟨-, -, ⟨sources, stop'⟩, hdecode, heq⟩
      cases heq
      obtain ⟨hlength, rfl, hstands⟩ := (decodeSources_ok hoff).mp hdecode
      exact ⟨rfl, hlength, rfl, hstands⟩
    · rintro ⟨heq, hlength, rfl, hstands⟩
      refine ⟨(), make_uint16 _ (by decide), (m'.sources, off + 16 * h.sourceCount.toNat),
        (decodeSources_ok hoff).mpr ⟨hlength, rfl, hstands⟩, ?_⟩
      rw [← heq]
  · next hcount =>
      have hnone : h.sourceCount = 0 := by
        by_contra hne
        exact hcount (UInt16.pos_iff_ne_zero.mpr hne)
      simp only [Run.pure_outcome, Outcome.ok.injEq, Prod.mk.injEq, hnone]
      constructor
      · rintro ⟨rfl, rfl⟩
        refine ⟨rfl, by rw [hsources]; rfl, rfl, ?_⟩
        rw [hsources]
        exact standsAt_nil_iff.mpr hoff
      · rintro ⟨heq, hlength, rfl, -⟩
        rw [List.length_eq_zero_iff.mp hlength, ← hsources] at heq
        exact ⟨heq.symm, rfl⟩

theorem decodeSuccessorSection_ok {m' : ShardManifest} (hoff : off ≤ buf.length)
    (hsuccessor : m.successor = none) :
    (decodeSuccessorSection buf m off).outcome = .ok (m', stop) ↔
      m' = { m with successor := m'.successor } ∧
      hasFlag m.flags flagSuccessorValid = m'.successor.isSome ∧
      (∀ s, m'.successor = some s →
        s.shardBits ≤ maxShardBits ∧ withinOneBit m.shardBits s.shardBits = true) ∧
      stop = off + successorLen m.flags ∧
      ∃ reserved, StandsAt buf off (successorSection reserved m') := by
  rw [decodeSuccessorSection, successorLen]
  split
  · next hflag =>
      simp only [Run.bind_outcome_ok, decodeSuccessor_ok, checkSuccessorBits_ok, Run.pure_outcome]
      constructor
      · rintro ⟨s, ⟨reserved, hstands⟩, -, hbits, heq⟩
        cases heq
        refine ⟨rfl, hflag, ?_, rfl, reserved, hstands⟩
        rintro s' hs'
        cases hs'
        exact hbits
      · rintro ⟨heq, hsome, hbits, rfl, reserved, hstands⟩
        rw [hflag] at hsome
        obtain ⟨s, hs⟩ := Option.isSome_iff_exists.mp hsome.symm
        rw [successorSection, hs] at hstands
        refine ⟨s, ⟨reserved, hstands⟩, (), hbits s hs, ?_⟩
        rw [heq, hs]
  · next hflag =>
      have hclear := Bool.eq_false_iff.mpr hflag
      simp only [Run.pure_outcome, Outcome.ok.injEq, Prod.mk.injEq, hclear]
      constructor
      · rintro ⟨rfl, rfl⟩
        refine ⟨rfl, by rw [hsuccessor]; rfl, by rw [hsuccessor]; nofun, rfl, .copy 2 [], ?_⟩
        rw [successorSection, hsuccessor]
        exact standsAt_nil_iff.mpr hoff
      · rintro ⟨heq, hnone, -, rfl, -⟩
        rw [Option.isSome_eq_false_iff.mp hnone.symm |> Option.isNone_iff_eq_none.mp, ← hsuccessor]
          at heq
        exact ⟨heq.symm, rfl⟩

def domainsLen (m : ShardManifest) : Nat := if m.domains = [] then 0 else 1 + descriptorsSize m.domains

theorem decodeDomainsSection_ok {m' : ShardManifest} (hoff : off ≤ buf.length)
    (hdomains : m.domains = []) :
    (decodeDomainsSection buf m off).outcome = .ok (m', stop) ↔
      m' = { m with domains := m'.domains } ∧
      (hasFlag m.flags flagDomainsValid = true ↔ m'.domains ≠ []) ∧
      (m'.domains ≠ [] → (validateDomains m'.domains m.shardBits m.generationID
        (hasFlag m.flags flagAuthoritative)).outcome = .ok ()) ∧
      stop = off + domainsLen m' ∧
      ∃ slacks, StandsAt buf off (domainsSection slacks m') := by
  rw [decodeDomainsSection]
  split
  · next hflag =>
      simp only [Run.bind_outcome_ok, byteAt_ok, Run.make_outcome_ok_iff, Run.pure_outcome]
      constructor
      · rintro ⟨count, hcount, -, -, ⟨ds, stop'⟩, hds, ⟨⟩, hvalid, heq⟩
        cases heq
        have hroom : off + 1 ≤ buf.length := by simpa using hcount.length_le
        obtain ⟨hlength, -, rfl, slacks, hstands⟩ := (decodeDescriptors_ok hroom).mp hds
        obtain ⟨hne, -, -⟩ := validateDomains_ok hvalid
        refine ⟨rfl, iff_of_true hflag hne, fun _ => hvalid, ?_, slacks, ?_⟩
        · simp [domainsLen, hne, Nat.add_assoc]
        · have hbyte : UInt8.ofNat ds.length = count := by rw [hlength, UInt8.ofNat_toNat]
          simp only [domainsSection, if_neg hne, standsAt_append_iff, hbyte]
          exact ⟨hcount, hstands⟩
      · rintro ⟨heq, hiff, hvalid, rfl, slacks, hstands⟩
        have hne := hiff.mp hflag
        obtain ⟨-, hmax, hflags⟩ := validateDomains_ok (hvalid hne)
        rw [maxDomainDescriptors] at hmax
        have hlength : (UInt8.ofNat m'.domains.length).toNat = m'.domains.length := by
          rw [UInt8.toNat_ofNat']
          omega
        simp only [domainsSection, if_neg hne, standsAt_append_iff] at hstands
        have hroom : off + 1 ≤ buf.length := by simpa using hstands.1.length_le
        refine ⟨_, hstands.1, (), ?_, (m'.domains, off + 1 + descriptorsSize m'.domains), ?_, (),
          hvalid hne, ?_⟩
        · rw [hlength, maxInt]
          omega
        · rw [hlength]
          exact (decodeDescriptors_ok hroom).mpr ⟨rfl, hflags, rfl, slacks, hstands.2⟩
        · simp only [domainsLen, if_neg hne, ← heq, Nat.add_assoc]
  · next hflag =>
      simp only [Run.pure_outcome, Outcome.ok.injEq, Prod.mk.injEq]
      constructor
      · rintro ⟨rfl, rfl⟩
        refine ⟨rfl, iff_of_false hflag (not_not.mpr hdomains), fun hne => absurd hdomains hne, ?_, [],
          ?_⟩
        · rw [domainsLen, if_pos hdomains]
          rfl
        · rw [domainsSection, if_pos hdomains]
          exact standsAt_nil_iff.mpr hoff
      · rintro ⟨heq, hiff, -, rfl, -⟩
        have hnil : m'.domains = [] := not_not.mp fun hne => hflag (hiff.mpr hne)
        rw [domainsLen, if_pos hnil]
        rw [hnil, ← hdomains] at heq
        exact ⟨heq.symm, rfl⟩

/-! ## The second pass -/

theorem length_successorSection (reserved : FixedBytes 2)
    (hflag : hasFlag m.flags flagSuccessorValid = m.successor.isSome) :
    (successorSection reserved m).length = successorLen m.flags := by
  rw [successorSection, successorLen, hflag]
  cases m.successor with
  | none => rfl
  | some s => exact length_successorLayout reserved s

theorem length_groupsSection (hform : h.groupCount = 0 ∨ h.bitmapBytes = 0)
    (hbitmap : m.bitmap.length = h.bitmapBytes.toNat)
    (hgroups : m.groups.length = h.groupCount.toNat) :
    (groupsSection m).length = groupsLen h := by
  rw [groupsSection, List.length_append, length_groupsLayout, hbitmap, hgroups, groupsLen]
  split
  · next hzero =>
      rw [hzero]
      simp
  · next hne =>
      rw [hform.resolve_right hne]
      simp

/-- The sections that a header announces, as the second pass finds them. -/
structure HasSections (h : ManifestHeader) (m : ShardManifest) : Prop where
  fixed : m.fixedFields = h.manifest
  bitmap : m.bitmap.length = h.bitmapBytes.toNat
  groups : m.groups.length = h.groupCount.toNat
  groupsSorted : m.groups.IsChain (· < ·)
  sources : m.sources.length = h.sourceCount.toNat
  successorFlag : hasFlag m.flags flagSuccessorValid = m.successor.isSome
  successorBits : ∀ s, m.successor = some s →
    s.shardBits ≤ maxShardBits ∧ withinOneBit m.shardBits s.shardBits = true
  domainsFlag : hasFlag m.flags flagDomainsValid = true ↔ m.domains ≠ []
  domains : m.domains ≠ [] → (validateDomains m.domains m.shardBits m.generationID
    (hasFlag m.flags flagAuthoritative)).outcome = .ok ()

/-- The payload of such a manifest stands at an offset section by section. -/
theorem standsAt_payloadLayout {reserved : FixedBytes 2} {slacks : List DescriptorSlack}
    (hform : h.groupCount = 0 ∨ h.bitmapBytes = 0) (hs : HasSections h m) :
    StandsAt buf off (payloadLayout reserved slacks m) ↔
      StandsAt buf off (groupsSection m) ∧
      StandsAt buf (off + groupsLen h) (sourcesLayout m.sources) ∧
      StandsAt buf (off + groupsLen h + 16 * h.sourceCount.toNat) (successorSection reserved m) ∧
      StandsAt buf (off + groupsLen h + 16 * h.sourceCount.toNat + successorLen m.flags)
        (domainsSection slacks m) := by
  rw [payloadLayout, standsAt_append_iff, standsAt_append_iff, standsAt_append_iff,
    length_groupsSection hform hs.bitmap hs.groups,
    length_sourcesLayout, hs.sources, length_successorSection reserved hs.successorFlag]

/-- Each step starts where the one before ended, and fills in what the ones before left empty. -/
theorem hasSections_of_decode (hroom : shardManifestHeaderSize ≤ buf.length)
    (hfixed : h.manifest = h.manifest.fixedFields) (hform : h.groupCount = 0 ∨ h.bitmapBytes = 0)
    (hdecoded : (decodeSections h buf).outcome = .ok (m, stop)) :
    HasSections h m ∧
      stop = shardManifestHeaderSize + groupsLen h + 16 * h.sourceCount.toNat +
        successorLen m.flags + domainsLen m ∧
      ∃ reserved slacks, StandsAt buf shardManifestHeaderSize (payloadLayout reserved slacks m) := by
  have hsourcesNil : h.manifest.sources = [] := congrArg ShardManifest.sources hfixed
  have hsuccessorNone : h.manifest.successor = none := congrArg ShardManifest.successor hfixed
  have hdomainsNil : h.manifest.domains = [] := congrArg ShardManifest.domains hfixed
  simp only [decodeSections, Run.bind_outcome_ok] at hdecoded
  obtain ⟨⟨m₁, off₁⟩, h₁, ⟨m₂, off₂⟩, h₂, ⟨m₃, off₃⟩, h₃, h₄⟩ := hdecoded
  obtain ⟨heq₁, hbitmap, hgroups, hsorted, rfl, hat₁⟩ :=
    (decodeGroupsSection_ok hroom hfixed hform).mp h₁
  have hend₁ := hat₁.length_le
  have hlen₁ := length_groupsSection hform hbitmap hgroups
  rw [hlen₁] at hend₁
  have hnone₁ : m₁.sources = [] := by rw [heq₁, hsourcesNil]
  obtain ⟨heq₂, hsources, rfl, hat₂⟩ := (decodeSourcesSection_ok hend₁ hnone₁).mp h₂
  have hend₂ := hat₂.length_le
  rw [length_sourcesLayout, hsources] at hend₂
  have hnone₂ : m₂.successor = none := by rw [heq₂, heq₁, hsuccessorNone]
  obtain ⟨heq₃, hflag, hbits, rfl, reserved, hat₃⟩ :=
    (decodeSuccessorSection_ok hend₂ hnone₂).mp h₃
  have hflags₃ : m₃.flags = m₂.flags := by rw [heq₃]
  have hend₃ := hat₃.length_le
  have hlen₃ := length_successorSection reserved (hflags₃ ▸ hflag)
  rw [hlen₃, hflags₃] at hend₃
  have hnone₃ : m₃.domains = [] := by rw [heq₃, heq₂, heq₁, hdomainsNil]
  obtain ⟨heq₄, hiff, hvalid, rfl, slacks, hat₄⟩ := (decodeDomainsSection_ok hend₃ hnone₃).mp h₄
  -- the records of the four steps, spelled out over the header
  obtain ⟨bitmap, groups, rfl⟩ : ∃ bitmap groups,
      m₁ = { h.manifest with groups := groups, bitmap := bitmap } := ⟨_, _, heq₁⟩
  obtain ⟨sources, rfl⟩ : ∃ sources, m₂ = { h.manifest with
      groups := groups, bitmap := bitmap, sources := sources } := ⟨_, heq₂⟩
  obtain ⟨successor, rfl⟩ : ∃ successor, m₃ = { h.manifest with
      groups := groups, bitmap := bitmap, sources := sources, successor := successor } :=
    ⟨_, heq₃⟩
  obtain ⟨domains, rfl⟩ : ∃ domains, m = { h.manifest with
      groups := groups, bitmap := bitmap, sources := sources, successor := successor,
      domains := domains } := ⟨_, heq₄⟩
  have hs : HasSections h { h.manifest with
      groups := groups, bitmap := bitmap, sources := sources, successor := successor,
      domains := domains } :=
    ⟨hfixed.symm, hbitmap, hgroups, hsorted, hsources, hflag, hbits, hiff, hvalid⟩
  exact ⟨hs, rfl, reserved, slacks,
    (standsAt_payloadLayout hform hs).mpr ⟨hat₁, hat₂, hat₃, hat₄⟩⟩

theorem decodeSections_of_standsAt {reserved : FixedBytes 2} {slacks : List DescriptorSlack}
    (hroom : shardManifestHeaderSize ≤ buf.length)
    (hfixed : h.manifest = h.manifest.fixedFields) (hform : h.groupCount = 0 ∨ h.bitmapBytes = 0)
    (hs : HasSections h m)
    (hstands : StandsAt buf shardManifestHeaderSize (payloadLayout reserved slacks m)) :
    (decodeSections h buf).outcome = .ok (m, shardManifestHeaderSize + groupsLen h +
      16 * h.sourceCount.toNat + successorLen m.flags + domainsLen m) := by
  simp only [decodeSections, Run.bind_outcome_ok]
  obtain ⟨hat₁, hat₂, hat₃, hat₄⟩ := (standsAt_payloadLayout hform hs).mp hstands
  have hend₁ := hat₁.length_le
  rw [length_groupsSection hform hs.bitmap hs.groups] at hend₁
  have hend₂ := hat₂.length_le
  rw [length_sourcesLayout, hs.sources] at hend₂
  have hend₃ := hat₃.length_le
  rw [length_successorSection reserved hs.successorFlag] at hend₃
  obtain ⟨manifest, count, bytes, sources⟩ := h
  obtain rfl : m.fixedFields = manifest := hs.fixed
  refine ⟨({ m with sources := [], successor := none, domains := [] }, _),
    (decodeGroupsSection_ok hroom hfixed hform).mpr
      ⟨rfl, hs.bitmap, hs.groups, hs.groupsSorted, rfl, hat₁⟩,
    ({ m with successor := none, domains := [] }, _),
    (decodeSourcesSection_ok hend₁ rfl).mpr ⟨rfl, hs.sources, rfl, hat₂⟩,
    ({ m with domains := [] }, _),
    (decodeSuccessorSection_ok hend₂ rfl).mpr
      ⟨rfl, hs.successorFlag, hs.successorBits, rfl, reserved, hat₃⟩,
    (decodeDomainsSection_ok hend₃ rfl).mpr
      ⟨rfl, hs.domainsFlag, hs.domains, rfl, slacks, hat₄⟩⟩

theorem decodeSections_ok (hroom : shardManifestHeaderSize ≤ buf.length)
    (hfixed : h.manifest = h.manifest.fixedFields) (hform : h.groupCount = 0 ∨ h.bitmapBytes = 0) :
    (decodeSections h buf).outcome = .ok (m, stop) ↔
      HasSections h m ∧
      stop = shardManifestHeaderSize + groupsLen h + 16 * h.sourceCount.toNat +
        successorLen m.flags + domainsLen m ∧
      ∃ reserved slacks, StandsAt buf shardManifestHeaderSize (payloadLayout reserved slacks m) := by
  refine ⟨hasSections_of_decode hroom hfixed hform, ?_⟩
  rintro ⟨hs, rfl, reserved, slacks, hstands⟩
  exact decodeSections_of_standsAt hroom hfixed hform hs hstands

/-! ## The first pass -/

/-- The extent found by the pre-scan is where the second pass ends. -/
theorem manifestExtent_ok {reserved : FixedBytes 2} {slacks : List DescriptorSlack} {total : Nat}
    (hform : h.groupCount = 0 ∨ h.bitmapBytes = 0) (hs : HasSections h m)
    (hstands : StandsAt buf shardManifestHeaderSize (payloadLayout reserved slacks m)) :
    (manifestExtent h buf).outcome = .ok total ↔
      total = shardManifestHeaderSize + groupsLen h + 16 * h.sourceCount.toNat +
        successorLen m.flags + domainsLen m := by
  have hflags : h.manifest.flags = m.flags := by rw [← hs.fixed]; rfl
  obtain ⟨-, -, -, hat⟩ := (standsAt_payloadLayout hform hs).mp hstands
  have hroom := hat.length_le
  simp only [manifestExtent, Run.bind_outcome_ok, Run.failIf_outcome_ok, hflags]
  generalize shardManifestHeaderSize + groupsLen h + 16 * h.sourceCount.toNat +
    successorLen m.flags = start at *
  have hlong : ¬ buf.length < start := by omega
  by_cases hdomains : m.domains = []
  · have hclear : ¬ hasFlag m.flags flagDomainsValid = true :=
      fun hset => hs.domainsFlag.mp hset hdomains
    rw [if_neg hclear, domainsLen, if_pos hdomains]
    simp only [Run.pure_outcome, Outcome.ok.injEq, Nat.add_zero]
    constructor
    · rintro ⟨-, -, heq⟩
      exact heq.symm
    · intro heq
      exact ⟨(), hlong, heq.symm⟩
  · have hset := hs.domainsFlag.mpr hdomains
    obtain ⟨-, hmax, hflagged⟩ := validateDomains_ok (hs.domains hdomains)
    have hcount : (UInt8.ofNat m.domains.length).toNat = m.domains.length := by
      rw [UInt8.toNat_ofNat']
      rw [maxDomainDescriptors] at hmax
      omega
    have hpos := List.length_pos_iff.mpr hdomains
    rw [domainsSection, if_neg hdomains, standsAt_append_iff, List.length_singleton] at hat
    have hbyte := hat.1.length_le
    rw [List.length_singleton] at hbyte
    have hscan : (scanDescriptors buf m.domains.length (start + 1)).outcome = .ok total ↔
        total = start + 1 + descriptorsSize m.domains := scanDescriptors_ok hflagged hat.2
    rw [if_pos hset, domainsLen, if_neg hdomains, ← Nat.add_assoc]
    simp only [Run.bind_outcome_ok, Run.failIf_outcome_ok, byteAt_ok, reject_ok]
    constructor
    · rintro ⟨-, -, -, -, count, hread, -, -, hend⟩
      obtain rfl : UInt8.ofNat m.domains.length = count :=
        List.singleton_inj.mp (hat.1.unique hread rfl)
      rw [hcount] at hend
      exact hscan.mp hend
    · intro heq
      refine ⟨(), hlong, (), by omega, _, hat.1, (), ?_, ?_⟩
      · rw [hcount]
        omega
      · rw [hcount]
        exact hscan.mpr heq

/-! ## The CRC -/

def layoutFront (slack : Slack) (m : ShardManifest) : Bytes :=
  putUint32 magicBSV ++ (slack.protoVer.val ++ ([msgTypeShardManifest] ++ ([m.flags] ++
    (m.srcIPv6.val ++ (putUint32 m.instanceID ++ (putUint32 m.epoch ++ (putUint16 m.ttl ++
      (putUint16 m.announceInterval ++ ([m.shardBits] ++ ([m.roleHint] ++ (putUint16 (groupCount m) ++
        (putUint16 (bitmapBytes m) ++ putUint16 (UInt16.ofNat m.sources.length)))))))))))))

def layoutBack (slack : Slack) (m : ShardManifest) : Bytes :=
  m.generationID.val ++ payloadLayout slack.successor slack.domains m

theorem manifestLayout_eq (slack : Slack) (crc : UInt32) (m : ShardManifest) :
    manifestLayout slack crc m = layoutFront slack m ++ (putUint32 crc ++ layoutBack slack m) := by
  simp only [manifestLayout, headerLayout, layoutFront, layoutBack, List.append_assoc]

@[simp] theorem length_layoutFront (slack : Slack) (m : ShardManifest) :
    (layoutFront slack m).length = 44 := by
  simp [layoutFront]

theorem verifyCRC_ok {checksum : Bytes → UInt32} {slack : Slack} {crc : UInt32}
    (hstands : StandsAt buf 0 (manifestLayout slack crc m))
    (hsmall : ((manifestLayout slack crc m).length : Int) ≤ maxInt) :
    (verifyCRC checksum buf (manifestLayout slack crc m).length).outcome = .ok () ↔
      crc = checksum (manifestLayout slack 0 m) := by
  have hcrc : StandsAt buf 44 (putUint32 crc) := by
    rw [manifestLayout_eq, standsAt_append_iff, standsAt_append_iff, length_layoutFront] at hstands
    exact hstands.2.1
  have hzeroed : (Run.putAll (manifestLayout slack crc m) [(44, [0]), (45, [0]), (46, [0]), (47, [0])] :
      ManifestRun Bytes) = pure (manifestLayout slack 0 m) := by
    rw [manifestLayout_eq, manifestLayout_eq, putAll_append]
    · simp [written, putUint32, BigEndian.ofNat]
    · simp [Contiguous]
    · simp [written]
  simp only [verifyCRC, Run.bind_outcome_ok, Run.make_outcome_ok_iff, reject_ok, bytesAt_ok, uint32At_ok,
    Nat.reduceAdd]
  constructor
  · rintro ⟨want, hwant, -, -, tmp, ⟨htmp, hlength⟩, zeroed, hzero, hmatch⟩
    obtain rfl : tmp = manifestLayout slack crc m := htmp.unique hstands (by omega)
    rw [hzeroed] at hzero
    cases hzero
    have hsame : putUint32 want = putUint32 crc := hwant.unique hcrc (by simp)
    rw [not_not.mp hmatch, ← uint32_putUint32 want, hsame, uint32_putUint32]
  · intro hmatch
    refine ⟨crc, hcrc, (), Run.bytes_fit hsmall, _, ⟨hstands, by simp⟩, manifestLayout slack 0 m, ?_, ?_⟩
    · rw [hzeroed]
      rfl
    · exact not_not.mpr hmatch.symm

/-! ## Accepted datagrams -/

/-- The header of a manifest's datagram. -/
def headerOf (m : ShardManifest) : ManifestHeader :=
  ⟨m.fixedFields, groupCount m, bitmapBytes m, UInt16.ofNat m.sources.length⟩

/-- What the header checks and the second pass find out together. -/
structure Coherent (h : ManifestHeader) (m : ShardManifest) : Prop where
  shardBits : h.manifest.shardBits ≤ maxShardBits
  counts : (checkCounts h.manifest.flags h.groupCount h.bitmapBytes h.sourceCount).outcome = .ok ()
  sections : HasSections h m

theorem Coherent.form (hc : Coherent h m) : h.groupCount = 0 ∨ h.bitmapBytes = 0 :=
  (checkCounts_ok.mp hc.counts).2.1

theorem uint16_ne_zero_iff {α : Type} {l : List α} {v : UInt16} (h : l.length = v.toNat) :
    v ≠ 0 ↔ l ≠ [] := by
  rw [not_iff_not, ← List.length_eq_zero_iff, h, ← UInt16.toNat_inj]
  rfl

theorem length_le_of_uint16 {α : Type} {l : List α} {v : UInt16} (h : l.length = v.toNat) :
    l.length ≤ 0xFFFF := by
  have := v.toNat_lt
  omega

theorem Coherent.header_eq (hc : Coherent h m) : h = headerOf m := by
  obtain ⟨manifest, count, bytes, sources⟩ := h
  have hs := hc.sections
  have hbytes : bytes = bitmapBytes m := by
    rw [bitmapBytes, hs.bitmap, UInt16.ofNat_toNat]
  have hcount : count = groupCount m := by
    rw [groupCount]
    split
    · next hpos =>
        refine hc.form.resolve_right ?_
        exact (uint16_ne_zero_iff hs.bitmap).mpr (List.length_pos_iff.mp hpos)
    · rw [hs.groups, UInt16.ofNat_toNat]
  have hsources : sources = UInt16.ofNat m.sources.length := by rw [hs.sources, UInt16.ofNat_toNat]
  rw [headerOf, ManifestHeader.mk.injEq]
  exact ⟨hs.fixed.symm, hcount, hbytes, hsources⟩

theorem Coherent.wellFormed (hc : Coherent h m) : WellFormed m := by
  obtain ⟨hgroups, hform, hsources, hpilot, hauthoritative⟩ := checkCounts_ok.mp hc.counts
  have hs := hc.sections
  have hfixed := hs.fixed
  obtain ⟨manifest, count, bytes, sources⟩ := h
  obtain rfl : m.fixedFields = manifest := hfixed
  have hbytesIff := uint16_ne_zero_iff hs.bitmap
  have hcountIff := uint16_ne_zero_iff hs.groups
  refine ⟨hc.shardBits, ?_, ?_, hs.groupsSorted, length_le_of_uint16 hs.groups,
    length_le_of_uint16 hs.bitmap, ?_, length_le_of_uint16 hs.sources, hpilot, hs.successorFlag,
    hauthoritative, hs.successorBits, hs.domainsFlag, hs.domains⟩
  · exact hgroups.trans (or_congr hcountIff hbytesIff)
  · rcases hform with hzero | hzero
    · exact .inl (not_not.mp fun hne => hcountIff.mpr hne hzero)
    · exact .inr (not_not.mp fun hne => hbytesIff.mpr hne hzero)
  · exact hsources.trans (uint16_ne_zero_iff hs.sources)

theorem coherent_headerOf (hm : WellFormed m) : Coherent (headerOf m) m := by
  have hbitmap : m.bitmap.length = (bitmapBytes m).toNat := by
    have := hm.bitmapLength
    rw [bitmapBytes, UInt16.toNat_ofNat']
    omega
  have hgroups : m.groups.length = (groupCount m).toNat := by
    have := hm.groupsLength
    rw [groupCount]
    split
    · next hpos =>
        rw [hm.oneForm.resolve_right (List.length_pos_iff.mp hpos)]
        rfl
    · rw [UInt16.toNat_ofNat']
      omega
  have hsources : m.sources.length = (UInt16.ofNat m.sources.length).toNat := by
    have := hm.sourcesLength
    rw [UInt16.toNat_ofNat']
    omega
  have hbytesIff := uint16_ne_zero_iff hbitmap
  have hcountIff := uint16_ne_zero_iff hgroups
  refine ⟨hm.shardBits, ?_, ⟨rfl, hbitmap, hgroups, hm.groupsSorted, hsources, hm.successorFlag,
    hm.successorBits, hm.domainsFlag, hm.domains⟩⟩
  refine checkCounts_ok.mpr ⟨?_, ?_, ?_, hm.pilotOnly, hm.successorAuthoritative⟩
  · exact hm.groupsFlag.trans (or_congr hcountIff hbytesIff).symm
  · rcases hm.oneForm with hnil | hnil
    · exact .inl (not_not.mp fun hne => hcountIff.mp hne hnil)
    · exact .inr (not_not.mp fun hne => hbytesIff.mp hne hnil)
  · exact hm.sourcesFlag.trans (uint16_ne_zero_iff hsources).symm

/-- The layout has the size the encoder computes, which is also the extent the decoder computes. -/
theorem length_manifestLayout (hm : WellFormed m) (slack : Slack) (crc : UInt32) :
    (manifestLayout slack crc m).length =
      shardManifestHeaderSize + groupsLen (headerOf m) + 16 * (headerOf m).sourceCount.toNat +
        successorLen m.flags + domainsLen m := by
  have hs := (coherent_headerOf hm).sections
  have hdomains : (domainsSection slack.domains m).length = domainsLen m := by
    rw [domainsSection, domainsLen]
    split
    · rfl
    · next hne =>
        rw [List.length_append, List.length_singleton,
          length_descriptorsLayout (validateDomains_ok (hm.domains hne)).2.2]
  rw [manifestLayout, payloadLayout]
  simp only [List.length_append, length_headerLayout, length_sourcesLayout, hdomains]
  rw [length_groupsSection (coherent_headerOf hm).form hs.bitmap hs.groups, hs.sources,
    length_successorSection _ hm.successorFlag]
  omega

theorem descriptorsSize_le (ds : List DomainDescriptor) : descriptorsSize ds ≤ 48 * ds.length := by
  induction ds with
  | nil => exact Nat.le_refl 0
  | cons d ds ih =>
      have hone : descriptorSize d ≤ 48 := by
        simp only [descriptorSize, domainDescriptorSize, successorBlockSize]
        split <;> omega
      rw [descriptorsSize, List.map_cons, List.sum_cons, ← descriptorsSize, List.length_cons]
      omega

theorem domainsLen_le (hm : WellFormed m) : domainsLen m ≤ 1 + 48 * 15 := by
  rw [domainsLen]
  split
  · omega
  · next hne =>
      have hmax := (validateDomains_ok (hm.domains hne)).2.1
      have hsize := descriptorsSize_le m.domains
      rw [maxDomainDescriptors] at hmax
      omega

theorem length_manifestLayout_le (hm : WellFormed m) (slack : Slack) (crc : UInt32) :
    ((manifestLayout slack crc m).length : Int) ≤ maxInt := by
  have hdomains := domainsLen_le hm
  have hsuccessor : successorLen m.flags ≤ 24 := by
    rw [successorLen, successorBlockSize]
    split <;> omega
  have hsources := (headerOf m).sourceCount.toNat_lt
  have hgroups : groupsLen (headerOf m) ≤ 2 * 65536 := by
    have := (headerOf m).groupCount.toNat_lt
    have := (headerOf m).bitmapBytes.toNat_lt
    rw [groupsLen]
    split <;> omega
  rw [length_manifestLayout hm, shardManifestHeaderSize, maxInt]
  omega

/-- The datagrams that decode to `m` are those that start with a layout of `m` and its CRC. -/
theorem decodeShardManifest_ok {checksum : Bytes → UInt32} :
    (decodeShardManifest checksum buf).outcome = .ok m ↔
      WellFormed m ∧ ∃ slack,
        StandsAt buf 0 (manifestLayout slack (checksum (manifestLayout slack 0 m)) m) := by
  simp only [decodeShardManifest, Run.bind_outcome_ok, Run.pure_outcome]
  constructor
  · rintro ⟨h, hheader, total, htotal, ⟨⟩, hcrc, ⟨m', stop⟩, hsections, heq⟩
    cases heq
    obtain ⟨hfixed, hbits, hcounts, version, crc, hstands⟩ := decodeHeader_ok.mp hheader
    have hform := (checkCounts_ok.mp hcounts).2.1
    have hroom := hstands.length_le
    rw [length_headerLayout, Nat.zero_add] at hroom
    obtain ⟨hs, -, reserved, slacks, hpayload⟩ := (decodeSections_ok hroom hfixed hform).mp hsections
    have hc : Coherent h m' := ⟨hbits, hcounts, hs⟩
    have hm := hc.wellFormed
    have hextent := (manifestExtent_ok hform hs hpayload).mp htotal
    obtain rfl := hc.header_eq
    have hlayout : StandsAt buf 0 (manifestLayout ⟨version, reserved, slacks⟩ crc m') := by
      rw [manifestLayout, standsAt_append_iff, length_headerLayout]
      exact ⟨hstands, hpayload⟩
    rw [hextent, ← length_manifestLayout hm ⟨version, reserved, slacks⟩ crc] at hcrc
    have hmatch := (verifyCRC_ok hlayout (length_manifestLayout_le hm _ _)).mp hcrc
    exact ⟨hm, ⟨version, reserved, slacks⟩, hmatch ▸ hlayout⟩
  · rintro ⟨hm, slack, hlayout⟩
    have hc := coherent_headerOf hm
    have hcrc := (verifyCRC_ok hlayout (length_manifestLayout_le hm _ _)).mpr rfl
    rw [length_manifestLayout hm] at hcrc
    rw [manifestLayout, standsAt_append_iff, length_headerLayout, Nat.zero_add] at hlayout
    have hroom := hlayout.1.length_le
    rw [length_headerLayout, Nat.zero_add] at hroom
    refine ⟨headerOf m, decodeHeader_ok.mpr ⟨rfl, hm.shardBits, hc.counts, _, _, hlayout.1⟩, _,
      (manifestExtent_ok hc.form hc.sections hlayout.2).mpr rfl, (), hcrc, (m, _),
      (decodeSections_ok hroom rfl hc.form).mpr ⟨hc.sections, rfl, _, _, hlayout.2⟩, rfl⟩

theorem wellFormed_of_decode {checksum : Bytes → UInt32}
    (h : (decodeShardManifest checksum buf).outcome = .ok m) : WellFormed m :=
  (decodeShardManifest_ok.mp h).1

end ShardCommon.Frame
