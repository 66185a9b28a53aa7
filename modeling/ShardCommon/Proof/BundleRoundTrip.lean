import ShardCommon.Proof.BundleCodec

/-!
# Bundles there and back

The decoder accepts exactly the buffers in front of which a bundle is laid out, in the form in which
the wire carries it. Both round trips follow: what is encoded decodes to itself, and what is decoded
encodes to the bytes it came from, but for those that decoding does not read.
-/

namespace ShardCommon.Bundles

open Go Run ShardCommon.Frame

variable {b : Bundle} {buf : Bytes} {withTxID : Bool} {off stop : Nat}

/-! ## What was decoded stands there -/

/-- An id that is not carried is read as zero. -/
def CarriedID (withTxID : Bool) (id : FixedBytes 32) : Prop := withTxID = true ∨ id = .copy 32 []

theorem carried_eq_self_iff {m : Member} :
    m.carried withTxID = m ↔ CarriedID withTxID m.txID := by
  cases withTxID with
  | true => simp [Member.carried, CarriedID]
  | false =>
      constructor
      · intro h
        exact .inr (congrArg Member.txID h).symm
      · rintro (h | h)
        · cases h
        · rw [Member.carried, if_neg (by decide), ← h]

theorem decodeTxID_inv {r : FixedBytes 32 × Nat}
    (h : (decodeTxID withTxID buf off stop).outcome = .ok r) (hoff : off ≤ stop)
    (hstop : stop ≤ buf.length) :
    CarriedID withTxID r.1 ∧ StandsAt buf off (if withTxID then r.1.val else []) ∧
      r.2 = off + (if withTxID then r.1.val else []).length ∧ r.2 ≤ stop := by
  cases withTxID with
  | false =>
      cases h
      exact ⟨.inr rfl, standsAt_nil_iff.mpr (by omega), rfl, hoff⟩
  | true =>
      simp only [decodeTxID, if_true, bind_outcome_ok, failIf_outcome_ok,
        copyAt_ok (show off + memberTxIDSize = off + 32 from rfl)] at h
      obtain ⟨-, hroom, id, hid, hr⟩ := h
      cases hr
      exact ⟨.inl rfl, hid, by simp [memberTxIDSize], Nat.le_of_not_lt hroom⟩

theorem decodeMember_inv {state next : List Member × Nat}
    (h : (decodeMember withTxID buf stop state).outcome = .ok next) (hstop : stop ≤ buf.length) :
    ∃ m : Member, CarriedID withTxID m.txID ∧ m.tx.length ≤ maxMemberTxLen ∧
      StandsAt buf state.2 (memberLayout withTxID m) ∧ next.1 = state.1 ++ [m] ∧
      next.2 = state.2 + (memberLayout withTxID m).length ∧ next.2 ≤ stop := by
  simp only [decodeMember, bind_outcome_ok, failIf_outcome_ok, uint16At_ok, bytesAt_ok] at h
  obtain ⟨-, hroom, txLen, hlen, id, hid, -, hfits, tx, ⟨htx, hend⟩, hnext⟩ := h
  cases hnext
  rw [memberLenSize] at hroom hid
  obtain ⟨hcarried, hstands, hoff, -⟩ := decodeTxID_inv hid (Nat.le_of_not_lt hroom) hstop
  have hlength : tx.length = txLen.toNat := by omega
  have hword := txLen.toNat_lt
  refine ⟨⟨id.1, tx⟩, hcarried, ?_, ?_, rfl, ?_, Nat.le_of_not_lt hfits⟩
  · rw [maxMemberTxLen]
    dsimp only
    omega
  · rw [memberLayout, hlength, UInt16.ofNat_toNat, standsAt_append_iff, standsAt_append_iff,
      length_putUint16, ← hoff]
    exact ⟨hlen, hstands, htx⟩
  · rw [memberLayout, List.length_append, List.length_append, length_putUint16]
    dsimp only
    omega

theorem decodeMembers_inv (hstop : stop ≤ buf.length) (count : Nat) :
    ∀ {state last : List Member × Nat}, state.2 ≤ stop →
      (Run.iterate (decodeMember withTxID buf stop) count state).outcome = .ok last →
      ∃ ms : List Member, ms.length = count ∧
        (∀ m ∈ ms, CarriedID withTxID m.txID ∧ m.tx.length ≤ maxMemberTxLen) ∧
        StandsAt buf state.2 (ms.flatMap (memberLayout withTxID)) ∧ last.1 = state.1 ++ ms ∧
        last.2 = state.2 + (ms.flatMap (memberLayout withTxID)).length := by
  induction count with
  | zero =>
      intro state last hoff h
      cases h
      exact ⟨[], rfl, by nofun, standsAt_nil_iff.mpr (by omega), (List.append_nil _).symm, rfl⟩
  | succ count ih =>
      intro state last hoff h
      obtain ⟨next, hnext, hrest⟩ := bind_outcome_ok.mp h
      obtain ⟨m, hid, hlen, hstands, hmembers, hend, hle⟩ := decodeMember_inv hnext hstop
      obtain ⟨ms, hcount, hms, hstands', hmembers', hend'⟩ := ih hle hrest
      refine ⟨m :: ms, congrArg Nat.succ hcount, List.forall_mem_cons.mpr ⟨⟨hid, hlen⟩, hms⟩, ?_, ?_, ?_⟩
      · rw [List.flatMap_cons, standsAt_append_iff, ← hend]
        exact ⟨hstands, hstands'⟩
      · rw [hmembers', hmembers, List.append_assoc, List.singleton_append]
      · rw [hend', hend, List.flatMap_cons, List.length_append, Nat.add_assoc]

/-- The ids that are not carried are zero. -/
def Bundle.IDsCarried (b : Bundle) : Prop := ∀ m ∈ b.members, CarriedID b.txIDsPresent m.txID

theorem carried_eq_self (h : b.IDsCarried) : b.carried = b := by
  have hmembers : b.members.map (Member.carried b.txIDsPresent) = b.members := by
    rw [List.map_congr_left (fun m hm => carried_eq_self_iff.mpr (h m hm)), List.map_id']
  rw [Bundle.carried, hmembers]

/-- The decoder accepts what starts with the layout of a bundle, and nothing else. -/
theorem decode_ok : (decode buf).outcome = .ok b ↔ Encodable b ∧ b.memberSectionLen < 2 ^ 32 ∧
    b.IDsCarried ∧ ∃ proto reserved, StandsAt buf 0 (bundleLayout proto reserved b) := by
  constructor
  · intro h
    simp only [decode, bind_outcome_ok, failIf_outcome_ok, uint32At_ok, byteAt_ok, copyAt_ok,
      uint64At_ok, uint16At_ok, not_not, Nat.not_lt] at h
    obtain ⟨-, hheader, magic, hmagic, -, rfl, version, hversion, -, rfl, flags, hflags, subtree,
      hsubtree, key, hkey, seq, hseq, group, hgroup, bits, hbits, count, hcount, payLen, hpay, -, hroom,
      -, -, state, hstate, -, hconsumed, hb⟩ := h
    have hstop : headerSize + payLen.toNat ≤ buf.length := by omega
    rw [headerSize] at hheader
    obtain ⟨ms, hlength, hms, hstands, hmembers, hend⟩ :=
      decodeMembers_inv hstop count.toNat (Nat.le_add_right _ _) hstate
    rw [List.nil_append] at hmembers
    cases hb
    rw [hmembers]
    let b : Bundle := ⟨flags, subtree, key, seq, group, bits, ms⟩
    have hsection : b.memberSectionLen = payLen.toNat := by
      rw [← length_membersLayout]
      exact Nat.add_left_cancel (hend.symm.trans hconsumed)
    have hcountLt := count.toNat_lt
    refine ⟨⟨?_, fun m hm => (hms m hm).2⟩, ?_, fun m hm => (hms m hm).1, ?_⟩
    · rw [maxMembers]
      exact hlength.le.trans (by omega)
    · exact hsection ▸ payLen.toNat_lt
    · obtain ⟨proto, hproto⟩ := @exists_fixedBytes buf 4 2 (by omega)
      obtain ⟨reserved, hreserved⟩ := @exists_standsAt _ buf 59 1 (by omega)
      obtain ⟨byte, rfl⟩ := List.length_eq_one_iff.mp hreserved.1
      refine ⟨proto, byte, standsAt_append_iff.mpr ⟨?_, ?_⟩⟩
      · have hcountField : UInt16.ofNat ms.length = count := by rw [hlength, UInt16.ofNat_toNat]
        have hpayField : UInt32.ofNat b.memberSectionLen = payLen := by
          rw [hsection, UInt32.ofNat_toNat]
        simp only [bundleHeader, standsAt_append_iff, length_putUint32, length_putUint64,
          length_putUint16, FixedBytes.length_val, List.length_singleton, Nat.zero_add, Nat.reduceAdd]
        rw [hcountField, hpayField]
        exact ⟨hmagic, hproto, hversion, hflags, hsubtree, hkey, hseq, hgroup, hbits, hreserved.2,
          hcount, hpay⟩
      · rw [length_bundleHeader]
        exact hstands
  · rintro ⟨hb, hlt, hids, proto, reserved, hstands⟩
    rw [decode_bundleLayout hb hlt hstands, carried_eq_self hids]

/-! ## No access out of range -/

theorem neverPanics_decodeMember (hstop : stop ≤ buf.length) (state : List Member × Nat) :
    (decodeMember withTxID buf stop state).NeverPanics := by
  refine NeverPanics.check fun hroom => ?_
  rw [memberLenSize] at hroom
  refine ((neverPanics_slice (by omega) (by omega)).map _).bind fun txLen _ => ?_
  have hid : (decodeTxID withTxID buf (state.2 + memberLenSize) stop).NeverPanics := by
    cases withTxID with
    | false => exact neverPanics_pure _
    | true =>
        refine NeverPanics.check fun hfits => ?_
        exact ((neverPanics_slice (by omega) (by omega)).map _).bind fun id _ => neverPanics_pure _
  refine hid.bind fun id hid => .check fun hfits => ?_
  exact (neverPanics_slice (by omega) (by omega)).bind fun tx _ => neverPanics_pure _

theorem neverPanics_decode (buf : Bytes) : (decode buf).NeverPanics := by
  refine .check fun hheader => ?_
  rw [headerSize] at hheader
  have hfield : ∀ {ν : Type} (read : Bytes → ν) (low high : Nat), low ≤ high → high ≤ 66 →
      (read <$> (bytesAt buf low high : BundleRun Bytes)).NeverPanics :=
    fun read low high hlow hhigh => (neverPanics_slice hlow (by omega)).map read
  have hbyte : ∀ i : Nat, i < 66 → (byteAt buf i : BundleRun UInt8).NeverPanics :=
    fun i hi => neverPanics_index (by omega)
  refine (hfield _ 0 4 (by decide) (by decide)).bind fun magic _ => .check fun _ => ?_
  refine (hbyte 6 (by decide)).bind fun version _ => .check fun _ => ?_
  refine (hbyte 7 (by decide)).bind fun flags _ => ?_
  refine (hfield _ 8 40 (by decide) (by decide)).bind fun subtree _ => ?_
  refine (hfield _ 40 48 (by decide) (by decide)).bind fun key _ => ?_
  refine (hfield _ 48 56 (by decide) (by decide)).bind fun seq _ => ?_
  refine (hfield _ 56 58 (by decide) (by decide)).bind fun group _ => ?_
  refine (hbyte 58 (by decide)).bind fun bits _ => ?_
  refine (hfield _ 60 62 (by decide) (by decide)).bind fun count _ => ?_
  refine (hfield _ 62 66 (by decide) (by decide)).bind fun payLen _ => .check fun hroom => ?_
  have hcount := count.toNat_lt
  refine (neverPanics_make (by rw [maxInt]; omega)).bind fun _ _ => ?_
  have hstop : headerSize + payLen.toNat ≤ buf.length := by
    rw [headerSize] at hroom ⊢
    omega
  exact (NeverPanics.iterate (neverPanics_decodeMember hstop) count.toNat _).bind fun state _ =>
    .check fun _ => neverPanics_pure _

/-! ## Round trips -/

/-- The PayloadLen field. -/
def declaredLen (buf : Bytes) : Nat := (uint32 ((buf.drop 62).take 4)).toNat

/-- The TxCount field. -/
def declaredCount (buf : Bytes) : Nat := (uint16 ((buf.drop 60).take 2)).toNat

def declaresTxIDs (buf : Bytes) : Bool := buf.getD 7 0 &&& flagTxIDsPresent != 0

/-- The declared number of members fills the declared length exactly. -/
def Consumed (buf : Bytes) : Prop :=
  ∃ ms : List Member, ms.length = declaredCount buf ∧
    (∀ m ∈ ms, m.tx.length ≤ maxMemberTxLen) ∧
    ms.flatMap (memberLayout (declaresTxIDs buf)) = (buf.drop headerSize).take (declaredLen buf)

/-- The fields of the header that the statements above read. -/
theorem declared_of_layout {proto : FixedBytes 2} {reserved : UInt8}
    (h : StandsAt buf 0 (bundleLayout proto reserved b)) (hb : Encodable b)
    (hlt : b.memberSectionLen < 2 ^ 32) :
    declaresTxIDs buf = b.txIDsPresent ∧ declaredCount buf = b.members.length ∧
      declaredLen buf = b.memberSectionLen := by
  obtain ⟨hheader, -⟩ := standsAt_append_iff.mp h
  simp only [bundleHeader, standsAt_append_iff, length_putUint32, length_putUint64, length_putUint16,
    FixedBytes.length_val, List.length_singleton, Nat.zero_add, Nat.reduceAdd] at hheader
  obtain ⟨-, -, -, hflags, -, -, -, -, -, -, hcount, hpay⟩ := hheader
  have hflag : buf.getD 7 0 = b.flags := by
    rw [List.getD_eq_getElem?_getD, standsAt_singleton_iff.mp hflags]
    rfl
  have hcount' := hcount.eq_take
  have hpay' := hpay.eq_take
  rw [length_putUint16] at hcount'
  rw [length_putUint32] at hpay'
  refine ⟨by rw [declaresTxIDs, hflag, Bundle.txIDsPresent], ?_, ?_⟩
  · rw [declaredCount, ← hcount', uint16_putUint16]
    exact UInt16.toNat_ofNat_of_lt' (Nat.lt_of_le_of_lt hb.count (by decide))
  · rw [declaredLen, ← hpay', uint32_putUint32]
    exact UInt32.toNat_ofNat_of_lt' hlt

/-- ProtoVer and the reserved byte, which decoding does not read. -/
def Unread (i : Nat) : Prop := (4 ≤ i ∧ i < 6) ∨ i = 59

theorem agreeOff_bundleLayout (proto proto' : FixedBytes 2) (reserved reserved' : UInt8)
    (b : Bundle) :
    AgreeOff Unread 0 (bundleLayout proto reserved b) (bundleLayout proto' reserved' b) := by
  have hsame := fun base (x : Bytes) => AgreeOff.refl Unread base x
  refine AgreeOff.append ?_ (hsame _ _)
  refine (hsame _ _).append (.append ?_ ((hsame _ _).append ((hsame _ _).append ((hsame _ _).append
    ((hsame _ _).append ((hsame _ _).append ((hsame _ _).append ((hsame _ _).append
      (.append ?_ (hsame _ _))))))))))
  · apply agreeOff_of_free (by simp)
    intro i hi
    left
    simp only [length_putUint32, FixedBytes.length_val] at hi ⊢
    omega
  · apply agreeOff_of_free (by simp)
    intro i hi
    right
    simp only [length_putUint16, length_putUint32, length_putUint64, FixedBytes.length_val,
      List.length_singleton] at hi ⊢
    omega

/-- What is encoded decodes to itself whatever follows it; what is decoded encodes to the bytes it
came from, up to those that are not read; and a buffer is never read out of range nor accepted when
its members do not fill the declared length. -/
theorem bundle_roundTrip :
    (∀ b out, b.encode.outcome = .ok out → b.memberSectionLen < 2 ^ 32 →
      (b.txIDsPresent = false → ∀ m ∈ b.members, m.txID = .copy 32 []) →
      ∀ trailing, (decode (out ++ trailing)).outcome = .ok b) ∧
    (∀ buf b, (decode buf).outcome = .ok b → ∃ out, b.encode.outcome = .ok out ∧
      out.length = 66 + declaredLen buf ∧
      AgreeOff Unread 0 out (buf.take (66 + declaredLen buf))) ∧
    ∀ buf, (∀ cause, (decode buf).outcome ≠ .panic cause) ∧
      (¬ Consumed buf → ∃ e, (decode buf).outcome = .fail e) := by
  refine ⟨?_, ?_, fun buf => ⟨neverPanics_decode buf, ?_⟩⟩
  · intro b out hout hlt hids trailing
    obtain ⟨hb, hsum⟩ := encodable_of_encode hout
    rw [encode_ok hb hsum] at hout
    cases hout
    refine decode_ok.mpr ⟨hb, hlt, fun m hm => ?_, sentProto, 0, standsAt_zero_self.append_right trailing⟩
    cases hflag : b.txIDsPresent with
    | true => exact .inl rfl
    | false => exact .inr (hids hflag m hm)
  · intro buf b h
    obtain ⟨hb, hlt, -, proto, reserved, hstands⟩ := decode_ok.mp h
    obtain ⟨-, -, hlen⟩ := declared_of_layout hstands hb hlt
    have hlength : (bundleLayout proto reserved b).length = 66 + declaredLen buf := by
      rw [length_bundleLayout, hlen, headerSize]
    refine ⟨bundleLayout sentProto 0 b, encode_ok hb (by rw [headerSize]; omega), ?_, ?_⟩
    · rw [length_bundleLayout, hlen, headerSize]
    · rw [← hlength, hstands.take_eq]
      exact agreeOff_bundleLayout ..
  · intro hunfilled
    cases h : (decode buf).outcome with
    | fail e => exact ⟨e, rfl⟩
    | panic cause => exact absurd h (neverPanics_decode buf cause)
    | ok b =>
        obtain ⟨hb, hlt, -, proto, reserved, hstands⟩ := decode_ok.mp h
        obtain ⟨hflag, hcount, hlen⟩ := declared_of_layout hstands hb hlt
        have hmembers := (standsAt_append_iff.mp hstands).2.eq_take
        rw [length_bundleHeader, length_membersLayout, Nat.zero_add] at hmembers
        refine absurd ⟨b.members, hcount.symm, hb.members, ?_⟩ hunfilled
        rw [hflag, hlen]
        exact hmembers

/-- Two members without ids. -/
def pairBundle : Bundle :=
  ⟨0, .copy 32 [9], 1, 2, 3, 4, [⟨.copy 32 [], [0xAA]⟩, ⟨.copy 32 [], [0xBB, 0xCC]⟩]⟩

theorem bundle_roundTrip_pair : ∃ out, pairBundle.encode.outcome = .ok out ∧
    (decode (out ++ [7, 7])).outcome = .ok pairBundle ∧
    ∃ again, pairBundle.encode.outcome = .ok again ∧
      AgreeOff Unread 0 again ((out ++ [7, 7]).take (66 + declaredLen (out ++ [7, 7]))) := by
  have hb : Encodable pairBundle := by
    refine ⟨by decide, ?_⟩
    simp [pairBundle, maxMemberTxLen]
  have hout := encode_ok hb (by decide)
  have hdecode := bundle_roundTrip.1 _ _ hout (by decide)
    (fun _ m hm => by rcases List.mem_pair.mp hm with rfl | rfl <;> rfl) [7, 7]
  obtain ⟨again, hagain, -, hagree⟩ := bundle_roundTrip.2.1 _ _ hdecode
  exact ⟨_, hout, hdecode, again, hagain, hagree⟩

end ShardCommon.Bundles
