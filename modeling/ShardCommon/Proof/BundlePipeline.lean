import ShardCommon.Proof.Coalesce
import ShardCommon.Proof.ShardEngine

/-!
# Transactions through the bundle pipeline

Bucketing, packing, the wire and the split are together a permutation of the transactions, and so is
a second round at another shard width. The groups of the second round are children of the first.
-/

namespace ShardCommon.Bundles

open Go ShardCommon.Frame Keyed Shard

/-- What a consumer identifies a transaction by. -/
def contents (f : Frame.Frame) : FixedBytes 32 × FixedBytes 32 × Bytes :=
  (f.txID, f.subtreeID, f.payload)

/-- The ids are carried, or they are the hashes that the receiver recomputes. -/
def Coalescer.Identifies (sha256 : Bytes → FixedBytes 32) (c : Coalescer)
    (frames : List Frame.Frame) : Prop :=
  c.carryTxID = true ∨ ∀ f ∈ frames, f.txID = txID sha256 f.payload

/-- A coalescer on an engine whose groups fit 16 bits, with the limit that the constructor clamps. -/
structure Coalescer.Built (c : Coalescer) : Prop where
  eng : c.eng.Fits
  count : c.maxCount ≤ maxMembers

theorem built_newCoalescer {eng : Engine} (heng : eng.Fits) (maxBytes maxCount : Int)
    (carryTxID : Bool) : (newCoalescer eng maxBytes maxCount carryTxID).Built := by
  refine ⟨heng, ?_⟩
  have hcount := Coalescer.maxCount_newCoalescer eng maxBytes maxCount carryTxID
  split at hcount <;> omega

/-- Calls move counters only. -/
theorem Coalescer.Built.coalesce {c : Coalescer} (hc : c.Built) (xxh64 : Bytes → UInt64)
    (sender : FixedBytes 16) (frames : List Frame.Frame) :
    (c.coalesce xxh64 sender frames).2.Built := by
  rw [Coalescer.coalesce_eq]
  exact ⟨hc.eng, hc.count⟩

variable {c : Coalescer} {xxh64 : Bytes → UInt64} {sha256 : Bytes → FixedBytes 32}
  {sender : FixedBytes 16} {frames : List Frame.Frame} {b : Bundle}

/-! ## The wire -/

theorem txIDsPresent_carried (b : Bundle) : b.carried.txIDsPresent = b.txIDsPresent := rfl

/-- What the wire drops is what the split does not look at. -/
theorem decoalesce_carried (b : Bundle) : decoalesce sha256 b.carried = decoalesce sha256 b := by
  have hmembers : b.carried.members = b.members.map (Member.carried b.txIDsPresent) := rfl
  rw [decoalesce, decoalesce, hmembers, List.map_map, txIDsPresent_carried]
  apply List.map_congr_left
  intro m _
  rw [Function.comp_apply, Member.carried]
  cases b.txIDsPresent <;> rfl

theorem encodable_of_mem_coalesce (hcount : c.maxCount ≤ maxMembers)
    (hframes : ∀ f ∈ frames, f.payload.length ≤ maxMemberTxLen)
    (hb : b ∈ (c.coalesce xxh64 sender frames).1) : Encodable b := by
  have hpacks := c.packs_coalesce xxh64 ⟨sender, frames⟩
  refine ⟨(hpacks.count b hb).trans hcount, fun m hm => ?_⟩
  obtain ⟨f, hf, -, rfl⟩ := hpacks.ofFlow b hb m hm
  exact hframes f hf

/-- A bundle goes over the wire and comes back as the wire carries it. -/
theorem decode_encode (hb : Encodable b) (hlt : b.memberSectionLen < 2 ^ 32) :
    b.encode.outcome = .ok (bundleLayout sentProto 0 b) ∧
      (decode (bundleLayout sentProto 0 b)).outcome = .ok b.carried := by
  have hsum : headerSize + b.memberSectionLen < 2 ^ 63 := by
    rw [headerSize]
    omega
  exact ⟨encode_ok hb hsum, decode_bundleLayout hb hlt standsAt_zero_self⟩

/-- A budget below `2 ^ 32` bytes bounds the member section. -/
theorem memberSectionLen_lt (hbytes : c.maxBytes < 2 ^ 32)
    (hframes : ∀ f ∈ frames, f.payload.length ≤ maxMemberTxLen)
    (hb : b ∈ (c.coalesce xxh64 sender frames).1) : b.memberSectionLen < 2 ^ 32 := by
  have hpacks := c.packs_coalesce xxh64 ⟨sender, frames⟩
  rcases hpacks.size b hb with hone | hfits
  · obtain ⟨m, hmembers⟩ := List.length_eq_one_iff.mp hone
    obtain ⟨f, hf, -, hmember⟩ := hpacks.ofFlow b hb m (hmembers ▸ List.mem_singleton_self m)
    have hlen : m.tx.length ≤ maxMemberTxLen := hmember ▸ hframes f hf
    have hoverhead : memberOverhead b.txIDsPresent ≤ 34 := by
      cases b.txIDsPresent <;> decide
    rw [maxMemberTxLen] at hlen
    rw [Bundle.memberSectionLen, hmembers, List.map_singleton, List.sum_singleton,
      List.length_singleton]
    omega
  · rw [Bundle.encodedLen] at hfits
    omega

/-! ## The split -/

theorem flags_of_mem_coalesce (hb : b ∈ (c.coalesce xxh64 sender frames).1) :
    b.txIDsPresent = c.carryTxID := by
  obtain ⟨chunk, n, -, heq⟩ := c.mem_coalesce xxh64 hb
  rw [heq, Coalescer.txIDsPresent_bundle]

theorem shardBits_of_mem_coalesce (hb : b ∈ (c.coalesce xxh64 sender frames).1) :
    b.shardBits = c.eng.shardBits.toUInt8 := by
  obtain ⟨chunk, n, -, heq⟩ := c.mem_coalesce xxh64 hb
  rw [heq]
  rfl

/-- A member of a coalesced bundle keeps the id of its frame. -/
theorem id_of_mem_coalesce (hids : c.Identifies sha256 frames)
    (hb : b ∈ (c.coalesce xxh64 sender frames).1) {m : Member} (hm : m ∈ b.members) :
    (if b.txIDsPresent then m.txID else txID sha256 m.tx) = m.txID := by
  rw [flags_of_mem_coalesce hb]
  split
  · rfl
  · next hcarry =>
      obtain ⟨f, hf, -, rfl⟩ := (c.packs_coalesce xxh64 ⟨sender, frames⟩).ofFlow b hb m hm
      exact ((hids.resolve_left hcarry) f hf).symm

/-- A member under its flow, as a consumer identifies it. -/
def memberContents (item : FlowKey × Member) : FixedBytes 32 × FixedBytes 32 × Bytes :=
  (item.2.txID, item.1.subtree, item.2.tx)

theorem contents_decoalesce (hids : c.Identifies sha256 frames)
    (hb : b ∈ (c.coalesce xxh64 sender frames).1) :
    (decoalesce sha256 b).map contents =
      (b.members.map fun m => (b.flow sender, m)).map memberContents := by
  rw [decoalesce, List.map_map, List.map_map]
  apply List.map_congr_left
  intro m hm
  exact congrArg (·, b.subtreeID, m.tx) (id_of_mem_coalesce hids hb hm)

/-- Flow by flow the bundles hold the frames of the call. -/
theorem perm_keyed (c : Coalescer) (xxh64 : Bytes → UInt64) (sender : FixedBytes 16)
    (frames : List Frame.Frame) :
    ((c.coalesce xxh64 sender frames).1.flatMap fun b =>
      b.members.map fun m => (b.flow sender, m)).Perm (c.keyed sender frames) := by
  apply perm_of_items
  intro k
  rw [items_flatMap k (fun b : Bundle => b.flow sender), Coalescer.items_keyed]
  exact c.conserves_coalesce xxh64 sender frames k

theorem perm_contents (hids : c.Identifies sha256 frames) :
    (((c.coalesce xxh64 sender frames).1.flatMap (decoalesce sha256)).map contents).Perm
      (frames.map contents) := by
  have hsplit : ((c.coalesce xxh64 sender frames).1.flatMap (decoalesce sha256)).map contents =
      ((c.coalesce xxh64 sender frames).1.flatMap fun b =>
        b.members.map fun m => (b.flow sender, m)).map memberContents := by
    rw [List.map_flatMap, List.map_flatMap]
    exact List.flatMap_congr fun b hb => contents_decoalesce hids hb
  have hframes : (c.keyed sender frames).map memberContents = frames.map contents := by
    rw [Coalescer.keyed, List.map_map]
    rfl
  rw [hsplit, ← hframes]
  exact (perm_keyed c xxh64 sender frames).map memberContents

/-! ## Groups -/

theorem groupIdx_of_mem_coalesce (hb : b ∈ (c.coalesce xxh64 sender frames).1) {m : Member}
    (hm : m ∈ b.members) : b.groupIdx = (c.eng.groupIndex m.txID).toUInt16 := by
  obtain ⟨f, -, hflow, rfl⟩ := (c.packs_coalesce xxh64 ⟨sender, frames⟩).ofFlow b hb m hm
  exact (congrArg FlowKey.group hflow).symm

/-- What comes out of a split has the group of the bundle. -/
theorem group_of_mem_decoalesce (hids : c.Identifies sha256 frames)
    (hb : b ∈ (c.coalesce xxh64 sender frames).1) {f : Frame.Frame}
    (hf : f ∈ decoalesce sha256 b) : b.groupIdx = (c.eng.groupIndex f.txID).toUInt16 := by
  obtain ⟨m, hm, rfl⟩ := List.mem_map.mp hf
  have hid := id_of_mem_coalesce hids hb hm
  exact (groupIdx_of_mem_coalesce hb hm).trans (congrArg _ (congrArg _ hid.symm))

theorem childGroup (hc : c.eng.Fits) (hids : c.Identifies sha256 frames)
    (hb : b ∈ (c.coalesce xxh64 sender frames).1) {wide : Coalescer} (hwide : wide.eng.Fits)
    (hle : b.shardBits.toNat ≤ wide.eng.shardBits.toNat) {sender' : FixedBytes 16} {out : Bundle}
    (hout : out ∈ (rebucket xxh64 sha256 wide sender' b).1) :
    out.groupIdx.toNat >>> (wide.eng.shardBits.toNat - b.shardBits.toNat) = b.groupIdx.toNat := by
  have hbits : b.shardBits.toNat = c.eng.shardBits.toNat := by
    have hfits := hc.toNat_bits
    rw [shardBits_of_mem_coalesce hb, UInt64.toNat_toUInt8]
    exact Nat.mod_eq_of_lt (show c.eng.shardBits.toNat < 256 by omega)
  have hpacks := wide.packs_coalesce xxh64 ⟨sender', decoalesce sha256 b⟩
  obtain ⟨m, hm⟩ := List.exists_mem_of_ne_nil _ (hpacks.nonempty out hout)
  obtain ⟨f, hf, -, rfl⟩ := hpacks.ofFlow out hout m hm
  have hid : (asMember f).txID = f.txID := rfl
  rw [groupIdx_of_mem_coalesce hout hm, hid, group_of_mem_decoalesce hids hb hf, hwide.toNat_group,
    hc.toNat_group, hbits]
  rw [hbits] at hle
  exact hc.groupIndex_shift hwide hle f.txID

/-! ## The pipeline -/

/-- Every transaction survives the wire, and survives a second round at any other width. -/
theorem bundles_keep_transactions (xxh64 : Bytes → UInt64) (sha256 : Bytes → FixedBytes 32)
    (c : Coalescer) (hc : c.Built) (sender : FixedBytes 16) (frames : List Frame.Frame)
    (hframes : ∀ f ∈ frames, f.payload.length ≤ maxMemberTxLen)
    (hids : c.Identifies sha256 frames)
    (hsection : ∀ b ∈ (c.coalesce xxh64 sender frames).1, b.memberSectionLen < 2 ^ 32) :
    (∃ wires received,
      List.Forall₂ (fun b wire => b.encode.outcome = .ok wire)
        (c.coalesce xxh64 sender frames).1 wires ∧
      List.Forall₂ (fun wire b => (decode wire).outcome = .ok b) wires received ∧
      ((received.flatMap (decoalesce sha256)).map contents).Perm (frames.map contents)) ∧
    ∀ b ∈ (c.coalesce xxh64 sender frames).1, ∀ (target : Coalescer) (sender' : FixedBytes 16),
      target.Identifies sha256 (decoalesce sha256 b) →
      (((rebucket xxh64 sha256 target sender' b).1.flatMap (decoalesce sha256)).map contents).Perm
        ((decoalesce sha256 b).map contents) ∧
      (target.eng.Fits → ∀ out ∈ (rebucket xxh64 sha256 target sender' b).1,
        (∀ m ∈ out.members, out.groupIdx.toNat = (target.eng.groupIndex m.txID).toNat) ∧
        (b.shardBits.toNat ≤ target.eng.shardBits.toNat →
          out.groupIdx.toNat >>> (target.eng.shardBits.toNat - b.shardBits.toNat) =
            b.groupIdx.toNat)) := by
  refine ⟨?_, ?_⟩
  · let bundles := (c.coalesce xxh64 sender frames).1
    have hwire : ∀ b ∈ bundles, b.encode.outcome = .ok (bundleLayout sentProto 0 b) ∧
        (decode (bundleLayout sentProto 0 b)).outcome = .ok b.carried := fun b hb =>
      decode_encode (encodable_of_mem_coalesce hc.count hframes hb) (hsection b hb)
    refine ⟨bundles.map (bundleLayout sentProto 0), bundles.map Bundle.carried, ?_, ?_, ?_⟩
    · rw [List.forall₂_map_right_iff, List.forall₂_same]
      exact fun b hb => (hwire b hb).1
    · rw [List.forall₂_map_left_iff, List.forall₂_map_right_iff, List.forall₂_same]
      exact fun b hb => (hwire b hb).2
    · rw [List.flatMap_map]
      simp only [decoalesce_carried]
      exact perm_contents hids
  · intro b hb target sender' htarget
    refine ⟨perm_contents htarget, fun hfits out hout => ⟨fun m hm => ?_, fun hle => ?_⟩⟩
    · rw [groupIdx_of_mem_coalesce hout hm, hfits.toNat_group]
    · exact childGroup hc.eng hids hb hfits hle hout

/-- Two transactions of one group of four bits, in the two groups of five bits below it. -/
def siblings : List Frame.Frame :=
  [⟨frameVerV2, .copy 32 [0x10, 1], 0, 0, .copy 32 [0xAA], [5, 5, 5]⟩,
    ⟨frameVerV2, .copy 32 [0x18, 2], 0, 0, .copy 32 [0xAA], []⟩]

theorem siblings_kept :
    let xxh64 : Bytes → UInt64 := fun b => UInt64.ofNat b.length
    let sha256 : Bytes → FixedBytes 32 := FixedBytes.copy 32
    let c := newCoalescer (new 0xFF05 0x000B 4) 9000 1000 true
    let target := newCoalescer (new 0xFF05 0x000B 5) 9000 1000 true
    let sender : FixedBytes 16 := .copy 16 [1]
    (∃ wires received,
      List.Forall₂ (fun b wire => b.encode.outcome = .ok wire)
        (c.coalesce xxh64 sender siblings).1 wires ∧
      List.Forall₂ (fun wire b => (decode wire).outcome = .ok b) wires received ∧
      ((received.flatMap (decoalesce sha256)).map contents).Perm (siblings.map contents)) ∧
    ∀ b ∈ (c.coalesce xxh64 sender siblings).1,
      ∀ out ∈ (rebucket xxh64 sha256 target sender b).1,
        out.groupIdx.toNat >>> 1 = b.groupIdx.toNat := by
  intro xxh64 sha256 c target sender
  have hframes : ∀ f ∈ siblings, f.payload.length ≤ maxMemberTxLen := by decide
  have hsource : (new 0xFF05 0x000B 4).Fits := ⟨rfl, by decide⟩
  have htarget : target.eng.Fits := ⟨rfl, by decide⟩
  obtain ⟨hwire, hrebucket⟩ := bundles_keep_transactions xxh64 sha256 c
    (built_newCoalescer hsource 9000 1000 true) sender siblings hframes (.inl rfl)
    (fun b hb => memberSectionLen_lt (by decide) hframes hb)
  refine ⟨hwire, fun b hb out hout => ?_⟩
  have hbits : b.shardBits = 4 := shardBits_of_mem_coalesce hb
  have hchild := ((hrebucket b hb target sender (.inl rfl)).2 htarget out hout).2
  rw [hbits] at hchild
  exact hchild (by decide)

end ShardCommon.Bundles
