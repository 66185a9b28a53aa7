import ShardCommon.Bundle

/-!
# The layout of a bundle

The encoder accepts the bundles whose counts and lengths fit their fields and writes their layout;
the decoder reads the bundle back from any buffer that starts with it, except for ids that were not
carried.
-/

namespace ShardCommon.Bundles

open Go ShardCommon.Frame

variable {b : Bundle} {buf : Bytes} {withTxID : Bool} {off stop : Nat}

def memberLayout (withTxID : Bool) (m : Member) : Bytes :=
  putUint16 (UInt16.ofNat m.tx.length) ++ ((if withTxID then m.txID.val else []) ++ m.tx)

def membersLayout (b : Bundle) : Bytes := b.members.flatMap (memberLayout b.txIDsPresent)

def bundleHeader (proto : FixedBytes 2) (reserved : UInt8) (b : Bundle) : Bytes :=
  putUint32 magicBSV ++ (proto.val ++ ([frameVerBundle] ++ ([b.flags] ++ (b.subtreeID.val ++
    (putUint64 b.hashKey ++ (putUint64 b.seqNum ++ (putUint16 b.groupIdx ++ ([b.shardBits] ++
      ([reserved] ++ (putUint16 (UInt16.ofNat b.members.length) ++
        putUint32 (UInt32.ofNat b.memberSectionLen)))))))))))

def bundleLayout (proto : FixedBytes 2) (reserved : UInt8) (b : Bundle) : Bytes :=
  bundleHeader proto reserved b ++ membersLayout b

/-- The protocol version as the encoder sends it. -/
def sentProto : FixedBytes 2 := .copy 2 (putUint16 protoVer)

/-- What the length fields of the wire format can express. -/
structure Encodable (b : Bundle) : Prop where
  count : b.members.length ≤ maxMembers
  members : ∀ m ∈ b.members, m.tx.length ≤ maxMemberTxLen

theorem length_memberLayout (withTxID : Bool) (m : Member) :
    (memberLayout withTxID m).length = memberOverhead withTxID + m.tx.length := by
  cases withTxID with
  | false => simp [memberLayout, memberOverhead, memberLenSize]
  | true =>
      simp [memberLayout, memberOverhead, memberLenSize, memberTxIDSize]
      omega

theorem length_membersLayout (b : Bundle) : (membersLayout b).length = b.memberSectionLen := by
  rw [membersLayout, Bundle.memberSectionLen]
  induction b.members with
  | nil => simp
  | cons m ms ih =>
      rw [List.flatMap_cons, List.length_append, ih, length_memberLayout, List.length_cons,
        List.map_cons, List.sum_cons, Nat.mul_succ]
      omega

theorem length_bundleHeader (proto : FixedBytes 2) (reserved : UInt8) (b : Bundle) :
    (bundleHeader proto reserved b).length = headerSize := by
  simp [bundleHeader, headerSize]

theorem length_bundleLayout (proto : FixedBytes 2) (reserved : UInt8) (b : Bundle) :
    (bundleLayout proto reserved b).length = headerSize + b.memberSectionLen := by
  rw [bundleLayout, List.length_append, length_bundleHeader, length_membersLayout]

/-! ## Encoding -/

theorem headerWrites_layout (b : Bundle) :
    Contiguous 0 (headerWrites b b.memberSectionLen) ∧
      written (headerWrites b b.memberSectionLen) = bundleHeader sentProto 0 b := by
  have hproto : sentProto.val = putUint16 protoVer := FixedBytes.copy_val (length_putUint16 _)
  constructor
  · simp [headerWrites, Contiguous]
  · simp [written, headerWrites, bundleHeader, hproto]

theorem puts_putMember {m : Member} (hlen : m.tx.length ≤ maxMemberTxLen) :
    Puts (putMember withTxID · m) (memberLayout withTxID m) := by
  have hid : Puts (putTxID withTxID m) (if withTxID then m.txID.val else []) := by
    cases withTxID with
    | true => exact Go.puts_putNext m.txID.val
    | false => exact puts_pure
  have hputs := (Go.puts_putNext (putUint16 (UInt16.ofNat m.tx.length))).andThen
    (hid.andThen (Go.puts_putNext m.tx))
  intro done rest hroom
  have hfits : ¬ maxMemberTxLen < m.tx.length := Nat.not_lt.mpr hlen
  dsimp only
  rw [putMember, Run.failIf_neg hfits, pure_bind]
  exact hputs done rest hroom

theorem encode_ok (hb : Encodable b) (hsum : headerSize + b.memberSectionLen < 2 ^ 63) :
    b.encode.outcome = .ok (bundleLayout sentProto 0 b) := by
  obtain ⟨hcontiguous, hwritten⟩ := headerWrites_layout b
  have hheader := length_bundleHeader sentProto 0 b
  let buf : Bytes := List.replicate (headerSize + b.memberSectionLen) 0
  have hroom : (membersLayout b).length ≤ (buf.drop headerSize).length := by
    rw [length_membersLayout, List.length_drop, List.length_replicate]
    omega
  have hput : (Run.putAll buf (headerWrites b b.memberSectionLen) : BundleRun Bytes) =
      pure (bundleHeader sentProto 0 b ++ buf.drop headerSize) := by
    rw [putAll_front hcontiguous (by rw [hwritten, hheader, List.length_replicate]; omega), hwritten,
      hheader]
  have hmembers := puts_foldlM (fun m hm => puts_putMember (hb.members m hm))
    (bundleHeader sentProto 0 b) (buf.drop headerSize) hroom
  have hrest : (buf.drop headerSize).drop (membersLayout b).length = [] := by
    apply List.drop_of_length_le
    rw [List.length_drop, List.length_replicate, length_membersLayout]
    omega
  rw [← membersLayout, hrest, List.append_nil, hheader] at hmembers
  rw [Bundle.encode]
  dsimp only
  rw [Run.failIf_neg (Nat.not_lt.mpr hb.count), pure_bind, Run.add_of_lt hsum, pure_bind,
    Run.make_of_le (by rw [maxInt]; omega)]
  refine Run.bind_outcome_ok.mpr ⟨(), rfl, ?_⟩
  rw [hput, pure_bind]
  exact Run.bind_outcome_ok.mpr ⟨_, congrArg Run.outcome hmembers, rfl⟩

/-- A bundle that was encoded fits its fields. -/
theorem encodable_of_encode (h : b.encode.outcome = .ok buf) :
    Encodable b ∧ headerSize + b.memberSectionLen < 2 ^ 63 := by
  obtain ⟨⟨⟩, hcount, h⟩ := Run.bind_outcome_ok.mp h
  obtain ⟨size, hsize, h⟩ := Run.bind_outcome_ok.mp h
  obtain ⟨⟨⟩, -, h⟩ := Run.bind_outcome_ok.mp h
  obtain ⟨start, -, h⟩ := Run.bind_outcome_ok.mp h
  obtain ⟨c, hc, -⟩ := Run.bind_outcome_ok.mp h
  have hmembers : ∀ m ∈ b.members, m.tx.length ≤ maxMemberTxLen := by
    refine Run.forall_mem_of_foldlM_ok (fun c m c' hput => ?_) hc
    obtain ⟨⟨⟩, hfits, -⟩ := Run.bind_outcome_ok.mp hput
    exact Nat.le_of_not_lt (Run.failIf_outcome_ok.mp hfits)
  exact ⟨⟨Nat.le_of_not_lt (Run.failIf_outcome_ok.mp hcount), hmembers⟩,
    (Run.add_outcome_ok.mp hsize).1⟩

theorem length_encode (h : b.encode.outcome = .ok buf) :
    buf.length = headerSize + b.memberSectionLen := by
  obtain ⟨hb, hsum⟩ := encodable_of_encode h
  rw [encode_ok hb hsum] at h
  rw [← Outcome.ok.inj h, length_bundleLayout]

/-! ## Decoding -/

/-- The member as a bundle carries it. -/
def Member.carried (withTxID : Bool) (m : Member) : Member :=
  if withTxID then m else ⟨.copy 32 [], m.tx⟩

/-- The bundle as the wire carries it. -/
def Bundle.carried (b : Bundle) : Bundle :=
  { b with members := b.members.map (Member.carried b.txIDsPresent) }

theorem decodeMember_ok {m : Member} (hlen : m.tx.length ≤ maxMemberTxLen)
    (h : StandsAt buf off (memberLayout withTxID m))
    (hstop : off + (memberLayout withTxID m).length ≤ stop) (done : List Member) :
    (decodeMember withTxID buf stop (done, off)).outcome =
      .ok (done ++ [m.carried withTxID], off + (memberLayout withTxID m).length) := by
  obtain ⟨hcount, hrest⟩ := standsAt_append_iff.mp h
  obtain ⟨hid, htx⟩ := standsAt_append_iff.mp hrest
  rw [length_putUint16] at hid htx
  have hvalue : (UInt16.ofNat m.tx.length).toNat = m.tx.length := by
    apply UInt16.toNat_ofNat_of_lt'
    rw [maxMemberTxLen] at hlen
    exact Nat.lt_of_le_of_lt hlen (by decide)
  rw [length_memberLayout] at hstop ⊢
  have hoverhead : memberLenSize ≤ memberOverhead withTxID := by cases withTxID <;> decide
  have hfirst : ¬ stop < off + memberLenSize := by omega
  have hdecodeID : (decodeTxID withTxID buf (off + memberLenSize) stop).outcome =
      .ok ((m.carried withTxID).txID, off + memberOverhead withTxID) := by
    cases withTxID with
    | false => rfl
    | true =>
        have hcarried : memberOverhead true = 34 := rfl
        have hroom : ¬ stop < off + 2 + 32 := by omega
        refine Run.bind_outcome_ok.mpr ⟨(), Run.failIf_outcome_ok.mpr hroom, ?_⟩
        exact Run.bind_outcome_ok.mpr ⟨m.txID, (copyAt_ok rfl).mpr hid, rfl⟩
  have htx' : StandsAt buf (off + memberOverhead withTxID) m.tx := by
    cases withTxID with
    | false => simpa [memberOverhead, memberLenSize] using htx
    | true => simpa [memberOverhead, memberLenSize, memberTxIDSize] using htx
  have hmember : (⟨(m.carried withTxID).txID, m.tx⟩ : Member) = m.carried withTxID := by
    cases withTxID <;> rfl
  refine Run.bind_outcome_ok.mpr ⟨(), Run.failIf_outcome_ok.mpr hfirst, ?_⟩
  refine Run.bind_outcome_ok.mpr ⟨_, (uint16At_ok rfl).mpr hcount, ?_⟩
  refine Run.bind_outcome_ok.mpr ⟨_, hdecodeID, ?_⟩
  dsimp only
  rw [hvalue, Run.failIf_neg (by omega), pure_bind]
  refine Run.bind_outcome_ok.mpr ⟨m.tx, bytesAt_ok.mpr ⟨htx', rfl⟩, ?_⟩
  rw [hmember, Nat.add_assoc]
  rfl

theorem decodeMembers_ok {ms : List Member} (hlen : ∀ m ∈ ms, m.tx.length ≤ maxMemberTxLen) :
    ∀ {off done}, StandsAt buf off (ms.flatMap (memberLayout withTxID)) →
      off + (ms.flatMap (memberLayout withTxID)).length ≤ stop →
      (Run.iterate (decodeMember withTxID buf stop) ms.length (done, off)).outcome =
        .ok (done ++ ms.map (Member.carried withTxID),
          off + (ms.flatMap (memberLayout withTxID)).length) := by
  induction ms with
  | nil =>
      intro off done _ _
      simp [Run.iterate]
  | cons m ms ih =>
      intro off done h hstop
      obtain ⟨hm, hms⟩ := List.forall_mem_cons.mp hlen
      rw [List.flatMap_cons, standsAt_append_iff] at h
      rw [List.flatMap_cons, List.length_append] at hstop ⊢
      have hstop' : off + (memberLayout withTxID m).length ≤ stop := by omega
      have hfirst := decodeMember_ok hm h.1 hstop' done
      have hrest := @ih hms (off + (memberLayout withTxID m).length) (done ++ [m.carried withTxID])
        h.2 (by omega)
      rw [List.length_cons, Run.iterate]
      refine Run.bind_outcome_ok.mpr ⟨_, hfirst, ?_⟩
      rw [hrest, List.map_cons, List.append_assoc, List.singleton_append, Nat.add_assoc]

theorem decode_bundleLayout {proto : FixedBytes 2} {reserved : UInt8} (hb : Encodable b)
    (hlt : b.memberSectionLen < 2 ^ 32) (h : StandsAt buf 0 (bundleLayout proto reserved b)) :
    (decode buf).outcome = .ok b.carried := by
  have hlength := h.length_le
  rw [length_bundleLayout, Nat.zero_add] at hlength
  obtain ⟨hheader, hmembers⟩ := standsAt_append_iff.mp h
  rw [length_bundleHeader, Nat.zero_add] at hmembers
  simp only [bundleHeader, standsAt_append_iff, length_putUint32, length_putUint64, length_putUint16,
    FixedBytes.length_val, List.length_singleton, Nat.zero_add, Nat.reduceAdd] at hheader
  obtain ⟨hmagic, -, hver, hflags, hsubtree, hkey, hseq, hgroup, hbits, -, hcount, hpay⟩ := hheader
  have hcountValue : (UInt16.ofNat b.members.length).toNat = b.members.length := by
    apply UInt16.toNat_ofNat_of_lt'
    exact Nat.lt_of_le_of_lt hb.count (by decide)
  have hpayValue : (UInt32.ofNat b.memberSectionLen).toNat = b.memberSectionLen :=
    UInt32.toNat_ofNat_of_lt' hlt
  have hmake : (Run.make 56 (b.members.length : Nat) : BundleRun Unit).outcome = .ok () := by
    have hmax := hb.count
    rw [maxMembers] at hmax
    rw [Run.make_of_le (by rw [maxInt]; omega)]
  have hloop := @decodeMembers_ok buf b.txIDsPresent (headerSize + b.memberSectionLen) b.members
    hb.members headerSize [] hmembers (by rw [← membersLayout, length_membersLayout])
  rw [← membersLayout, length_membersLayout, List.nil_append] at hloop
  refine Run.bind_outcome_ok.mpr ⟨(), Run.failIf_outcome_ok.mpr (by omega), ?_⟩
  refine Run.bind_outcome_ok.mpr ⟨_, (uint32At_ok rfl).mpr hmagic, ?_⟩
  refine Run.bind_outcome_ok.mpr ⟨(), Run.failIf_outcome_ok.mpr (not_not.mpr rfl), ?_⟩
  refine Run.bind_outcome_ok.mpr ⟨_, byteAt_ok.mpr hver, ?_⟩
  refine Run.bind_outcome_ok.mpr ⟨(), Run.failIf_outcome_ok.mpr (not_not.mpr rfl), ?_⟩
  refine Run.bind_outcome_ok.mpr ⟨_, byteAt_ok.mpr hflags, ?_⟩
  refine Run.bind_outcome_ok.mpr ⟨_, (copyAt_ok rfl).mpr hsubtree, ?_⟩
  refine Run.bind_outcome_ok.mpr ⟨_, (uint64At_ok rfl).mpr hkey, ?_⟩
  refine Run.bind_outcome_ok.mpr ⟨_, (uint64At_ok rfl).mpr hseq, ?_⟩
  refine Run.bind_outcome_ok.mpr ⟨_, (uint16At_ok rfl).mpr hgroup, ?_⟩
  refine Run.bind_outcome_ok.mpr ⟨_, byteAt_ok.mpr hbits, ?_⟩
  refine Run.bind_outcome_ok.mpr ⟨_, (uint16At_ok rfl).mpr hcount, ?_⟩
  refine Run.bind_outcome_ok.mpr ⟨_, (uint32At_ok rfl).mpr hpay, ?_⟩
  rw [hcountValue, hpayValue]
  refine Run.bind_outcome_ok.mpr ⟨(), Run.failIf_outcome_ok.mpr (by omega), ?_⟩
  refine Run.bind_outcome_ok.mpr ⟨(), hmake, ?_⟩
  refine Run.bind_outcome_ok.mpr ⟨_, hloop, ?_⟩
  exact Run.bind_outcome_ok.mpr ⟨(), Run.failIf_outcome_ok.mpr (not_not.mpr rfl), rfl⟩

end ShardCommon.Bundles
