import ShardCommon.GroupAddr
import ShardCommon.Proof.PlaneGroups
import ShardCommon.Proof.Planes

/-!
# Who is addressed

The address of a group is read back to its three parts, so two groups share an address only if they
share the prefix, the group id and the index. The indices of an accepted manifest's planes are apart
and end below the network services. So those who joined the groups of a plane get the frames of that
plane and no others.
-/

namespace ShardCommon.Shard

open Go ShardCommon.Frame

variable {mcPrefix mcPrefix' groupID groupID' idx idx' : UInt16} {p q : PlaneEngine}

theorem putUint16_inj {v w : UInt16} (h : putUint16 v = putUint16 w) : v = w := by
  rw [← uint16_putUint16 v, h, uint16_putUint16]

theorem groupAddr_val : (groupAddr mcPrefix groupID idx).val =
    putUint16 mcPrefix ++ List.replicate 10 0 ++ putUint16 groupID ++ putUint16 idx := by
  apply FixedBytes.copy_val
  simp

theorem groupAddr_inj (h : groupAddr mcPrefix groupID idx = groupAddr mcPrefix' groupID' idx') :
    mcPrefix = mcPrefix' ∧ groupID = groupID' ∧ idx = idx' := by
  have hval := congrArg Subtype.val h
  rw [groupAddr_val, groupAddr_val] at hval
  obtain ⟨hval, hidx⟩ := List.append_inj' hval (by simp)
  obtain ⟨hval, hid⟩ := List.append_inj' hval (by simp)
  obtain ⟨hscope, -⟩ := List.append_inj' hval rfl
  exact ⟨putUint16_inj hscope, putUint16_inj hid, putUint16_inj hidx⟩

theorem scopePrefix_inj {mode mode' : SourceMode} {scope scope' : Scope}
    (h : scopePrefix mode scope = .ok mcPrefix) (h' : scopePrefix mode' scope' = .ok mcPrefix) :
    mode = mode' ∧ scope = scope' := by
  unfold scopePrefix at h h'
  split at h <;> cases h <;> split at h' <;> cases h' <;> exact ⟨rfl, rfl⟩

theorem newPlane_engine {bits : UInt64} {domain : UInt8}
    (h : (newPlane mcPrefix groupID bits domain).outcome = .ok p) :
    p.engine = new mcPrefix groupID bits := by
  obtain ⟨-, -, hp⟩ := Run.bind_outcome_ok.mp h
  cases hp
  rfl

/-- The address that a frame of this key is sent to, as the address of a group that is joined. -/
theorem exists_addr_eq {bits : UInt64} {domain : UInt8}
    (h : (newPlane mcPrefix groupID bits domain).outcome = .ok p) (key : FixedBytes 32) (port : Int) :
    ∃ g ∈ p.groups, p.groupIndex key = g.toUInt32 ∧
      p.engine.addr (p.groupIndex key) port = ⟨groupAddr mcPrefix groupID g, port⟩ := by
  obtain ⟨g, hg, heq⟩ := (newPlane_spans h).2.groupIndex_mem key
  refine ⟨g, hg, heq.symm, ?_⟩
  rw [Engine.addr, newPlane_engine h, ← heq, UInt16.toUInt16_toUInt32]
  rfl

end ShardCommon.Shard

namespace ShardCommon.Frame

open Go Shard

variable {checksum : Bytes → UInt32} {buf : Bytes} {m : ShardManifest} {a b : DomainDescriptor}
  {mode mode' : SourceMode} {scope scope' : Scope} {mcPrefix mcPrefix' groupID groupID' : UInt16}
  {p q : PlaneEngine}

theorem groups_inPlane {d : DomainDescriptor}
    (h : (newPlane mcPrefix groupID d.shardBits.toUInt64 d.domainID).outcome = .ok p) {g : UInt16}
    (hg : g ∈ p.groups) : InPlane d.domainID d.shardBits g.toNat ∧ g < controlBase := by
  obtain ⟨hbase, hspans⟩ := newPlane_spans h
  obtain ⟨⟨⟩, hvalid, -⟩ := Run.bind_outcome_ok.mp h
  have hstop := hspans.stop_le
  have hmem := hspans.mem_groups.mp hg
  rw [hbase, toNat_planeBase (validatePlane_ok.mp hvalid).1, UInt8.toNat_toUInt64] at hmem hstop
  exact ⟨inPlane_iff.mpr hmem, UInt16.lt_iff_toNat_lt.mpr (by omega)⟩

/-- No group belongs to two planes of an accepted manifest. -/
theorem eq_of_mem_groups (h : (decodeShardManifest checksum buf).outcome = .ok m)
    (ha : a ∈ m.domains) (hb : b ∈ m.domains)
    (hp : (newPlane mcPrefix groupID a.shardBits.toUInt64 a.domainID).outcome = .ok p)
    (hq : (newPlane mcPrefix' groupID' b.shardBits.toUInt64 b.domainID).outcome = .ok q)
    {g : UInt16} (hgp : g ∈ p.groups) (hgq : g ∈ q.groups) : a = b := by
  obtain ⟨hrules, hapart⟩ := planes_of_wellFormed (wellFormed_of_decode h)
  by_contra hne
  exact hapart a ha b hb hne _ ((hrules a ha).reserves_active (groups_inPlane hp hgp).1)
    ((hrules b hb).reserves_active (groups_inPlane hq hgq).1)

/-- **Frames reach those who joined their plane.** For planes of one accepted manifest, each with a
mode, a scope and a group id: the address of a frame is that of a group of the receiver's plane
exactly when these are the same and so is the plane. Two frames share an address exactly when, beside
that, their keys agree in the bits that the plane cuts by. And the address is never that of a network
service, at any scope. -/
theorem joined_hears_own_plane (h : (decodeShardManifest checksum buf).outcome = .ok m)
    (ha : a ∈ m.domains) (hb : b ∈ m.domains) (hmode : scopePrefix mode scope = .ok mcPrefix)
    (hmode' : scopePrefix mode' scope' = .ok mcPrefix')
    (hp : (newPlane mcPrefix groupID a.shardBits.toUInt64 a.domainID).outcome = .ok p)
    (hq : (newPlane mcPrefix' groupID' b.shardBits.toUInt64 b.domainID).outcome = .ok q)
    (key : FixedBytes 32) (port : Int) :
    ((∃ g ∈ q.groups, p.engine.addr (p.groupIndex key) port = ⟨groupAddr mcPrefix' groupID' g, port⟩) ↔
      mode = mode' ∧ scope = scope' ∧ groupID = groupID' ∧ a = b) ∧
    (∀ key', p.engine.addr (p.groupIndex key) port = q.engine.addr (q.groupIndex key') port ↔
      (mode = mode' ∧ scope = scope' ∧ groupID = groupID' ∧ a = b) ∧
        firstWord key / 2 ^ (32 - a.shardBits.toNat) = firstWord key' / 2 ^ (32 - a.shardBits.toNat)) ∧
    ∀ anyPrefix anyID idx, controlBase ≤ idx →
      (p.engine.addr (p.groupIndex key) port).ip ≠ groupAddr anyPrefix anyID idx := by
  obtain ⟨g, hg, hindex, haddr⟩ := exists_addr_eq hp key port
  have hshared : ∀ {g'}, g' ∈ q.groups →
      groupAddr mcPrefix groupID g = groupAddr mcPrefix' groupID' g' →
      g = g' ∧ mode = mode' ∧ scope = scope' ∧ groupID = groupID' ∧ a = b := by
    intro g' hg' heq
    obtain ⟨rfl, rfl, rfl⟩ := groupAddr_inj heq
    obtain ⟨hmodes, hscopes⟩ := scopePrefix_inj hmode hmode'
    exact ⟨rfl, hmodes, hscopes, rfl, eq_of_mem_groups h ha hb hp hq hg hg'⟩
  refine ⟨⟨?_, ?_⟩, fun key' => ⟨?_, ?_⟩, ?_⟩
  · rintro ⟨g', hg', heq⟩
    rw [haddr] at heq
    exact (hshared hg' (congrArg UDPAddr.ip heq)).2
  · rintro ⟨rfl, rfl, rfl, rfl⟩
    obtain rfl : mcPrefix = mcPrefix' := Except.ok.inj (hmode.symm.trans hmode')
    obtain rfl : p = q := Outcome.ok.inj (hp.symm.trans hq)
    exact ⟨g, hg, haddr⟩
  · intro heq
    obtain ⟨g', hg', hindex', haddr'⟩ := exists_addr_eq hq key' port
    rw [haddr, haddr'] at heq
    obtain ⟨rfl, hsame⟩ := hshared hg' (congrArg UDPAddr.ip heq)
    refine ⟨hsame, ?_⟩
    obtain ⟨-, -, -, rfl⟩ := hsame
    obtain ⟨hbase, hspans⟩ := newPlane_spans hp
    obtain ⟨hbase', hspans'⟩ := newPlane_spans hq
    have hkey := hspans.groupIndex_eq key
    have hkey' := hspans'.groupIndex_eq key'
    rw [hindex, hbase] at hkey
    rw [hindex', hbase'] at hkey'
    rw [UInt8.toNat_toUInt64] at hkey hkey'
    omega
  · rintro ⟨⟨rfl, rfl, rfl, rfl⟩, hbits⟩
    obtain rfl : mcPrefix = mcPrefix' := Except.ok.inj (hmode.symm.trans hmode')
    obtain rfl : p = q := Outcome.ok.inj (hp.symm.trans hq)
    have hspans := (newPlane_spans hp).2
    have hsame : p.groupIndex key = p.groupIndex key' := by
      rw [← UInt32.toNat_inj, hspans.groupIndex_eq, hspans.groupIndex_eq, UInt8.toNat_toUInt64, hbits]
    rw [hsame]
  · intro anyPrefix anyID idx hcontrol heq
    rw [haddr] at heq
    obtain ⟨-, -, rfl⟩ := groupAddr_inj heq
    exact absurd (groups_inPlane hp hg).2 (UInt16.not_lt.mpr hcontrol)

theorem joined_hears_own_plane_two : ∃ buf p q,
    (decodeShardManifest crc32c buf).outcome = .ok (planesManifest [beefPlane, nextPlane]) ∧
    (newPlane 0xFF05 0x000B 12 1).outcome = .ok p ∧ (newPlane 0xFF05 0x000B 4 2).outcome = .ok q ∧
    (∃ g ∈ p.groups, p.engine.addr (p.groupIndex (.copy 32 [0xAB])) 9000 =
      ⟨groupAddr 0xFF05 0x000B g, 9000⟩) ∧
    ¬ ∃ g ∈ q.groups, p.engine.addr (p.groupIndex (.copy 32 [0xAB])) 9000 =
      ⟨groupAddr 0xFF05 0x000B g, 9000⟩ := by
  obtain ⟨buf, hdecode⟩ := @decodes_planesManifest [beefPlane, nextPlane] (by decide +kernel)
  have hbeef : beefPlane ∈ (planesManifest [beefPlane, nextPlane]).domains := List.mem_cons_self
  have hnext : nextPlane ∈ (planesManifest [beefPlane, nextPlane]).domains :=
    List.mem_cons_of_mem _ List.mem_cons_self
  have hsite : scopePrefix .asm .site = .ok 0xFF05 := rfl
  have hp : (newPlane 0xFF05 0x000B beefPlane.shardBits.toUInt64 beefPlane.domainID).outcome =
      .ok ⟨new 0xFF05 0x000B 12, planeBase 1⟩ := rfl
  have hq : (newPlane 0xFF05 0x000B nextPlane.shardBits.toUInt64 nextPlane.domainID).outcome =
      .ok ⟨new 0xFF05 0x000B 4, planeBase 2⟩ := rfl
  refine ⟨buf, _, _, hdecode, hp, hq, ?_, ?_⟩
  · exact (joined_hears_own_plane hdecode hbeef hbeef hsite hsite hp hp _ _).1.mpr ⟨rfl, rfl, rfl, rfl⟩
  · intro hheard
    obtain ⟨-, -, -, heq⟩ :=
      (joined_hears_own_plane hdecode hbeef hnext hsite hsite hp hq _ _).1.mp hheard
    exact absurd heq (by decide)

end ShardCommon.Frame
