import ShardCommon.Proof.BEEFDelivery

/-!
# Objects across the fabric

An object is cut from the stream of its publisher, wrapped into a frame, stamped in place on its way,
and unwrapped at the edge into the stream of a consumer. Every wrap ends in one layout, in which the
stamps have fields of their own, and no unwrap looks at them.
-/

namespace ShardCommon.Objfmt

open Go ShardCommon.Frame

variable {sha256 : Bytes → FixedBytes 32} {obj mcast payload : Bytes} {h : FrameHeader}
  {proto : FixedBytes 2}

/-- The frame of a pushed object; a submission record has a wrap of its own. -/
def pushFrame (sha256 : Bytes → FixedBytes 32) (deliverCount : Int) (c : Class) (obj : Bytes) :
    WrapRun Bytes :=
  match c with
  | .beef => beefMulticastRecord sha256 obj deliverCount
  | c => multicastBytes sha256 c obj

/-! ## Layouts of the wraps -/

/-- What comes out of an encoder on a buffer of just the size, whatever the length of the payload. -/
theorem layout_of_encoded (hok : (encoded (encodeFrame h payload) payload).outcome = .ok mcast) :
    mcast = frameLayout sentProto h payload := by
  obtain ⟨size, hsize, hok⟩ := Run.bind_outcome_ok.mp hok
  obtain ⟨hsum, rfl⟩ := Run.add_outcome_ok.mp hsize
  obtain ⟨⟨⟩, -, hok⟩ := Run.bind_outcome_ok.mp hok
  obtain ⟨written, hwritten, hok⟩ := Run.bind_outcome_ok.mp hok
  have hroom : (List.replicate (headerSize + payload.length) (0 : UInt8)).length =
      headerSize + payload.length := List.length_replicate
  rw [Run.mapError_outcome_ok, encodeFrame_eq hsum (Nat.le_of_eq hroom.symm),
    List.drop_of_length_le (Nat.le_of_eq hroom), List.append_nil] at hwritten
  cases hwritten
  obtain ⟨hstands, hlength⟩ := bytesAt_ok.mp hok
  have htake := hstands.take_eq
  rw [Nat.zero_add, ← length_frameLayout sentProto h payload] at hlength
  rw [← hlength, List.take_length] at htake
  exact htake.symm

/-- The header that the wraps of a class write. -/
def Class.Wraps : Class → FrameHeader → Prop
  | .tx, h => h.version = frameVerV2
  | .subtree, h => h.version = frameVerV5 ∧ h.byte7 = subtreeMsgHashesOnly
  | .block, h => h.version = frameVerV4 ∧ h.byte7 = blockMsgAnnounce
  | .beef, h => h.version = frameVerV9
  | _, _ => False

theorem pushFrame_layout {c : Class} {deliverCount : Int}
    (hok : (pushFrame sha256 deliverCount c obj).outcome = .ok mcast) :
    ∃ h payload, mcast = frameLayout sentProto h payload ∧ c.Wraps h := by
  cases c with
  | tx =>
      obtain ⟨f, -, hok⟩ := Run.bind_outcome_ok.mp hok
      exact ⟨_, _, layout_of_encoded hok, rfl⟩
  | subtree =>
      obtain ⟨n, -, hok⟩ := Run.bind_outcome_ok.mp hok
      obtain ⟨body, -, hok⟩ := Run.bind_outcome_ok.mp hok
      obtain ⟨root, -, hok⟩ := Run.bind_outcome_ok.mp hok
      obtain ⟨count, -, hok⟩ := Run.bind_outcome_ok.mp hok
      obtain ⟨-, -, hok⟩ := Run.bind_outcome_ok.mp hok
      obtain ⟨nodes, -, hok⟩ := Run.bind_outcome_ok.mp hok
      obtain ⟨payload, -, hok⟩ := Run.bind_outcome_ok.mp hok
      exact ⟨_, _, layout_of_encoded hok, rfl, rfl⟩
  | block =>
      obtain ⟨n, -, hok⟩ := Run.bind_outcome_ok.mp hok
      obtain ⟨body, -, hok⟩ := Run.bind_outcome_ok.mp hok
      obtain ⟨header, -, hok⟩ := Run.bind_outcome_ok.mp hok
      exact ⟨_, _, layout_of_encoded hok, rfl, rfl⟩
  | beef =>
      obtain ⟨decoded, -, hok⟩ := Run.bind_outcome_ok.mp hok
      obtain ⟨-, -, hok⟩ := Run.bind_outcome_ok.mp hok
      obtain ⟨first, -, hok⟩ := Run.bind_outcome_ok.mp hok
      exact ⟨_, _, layout_of_encoded hok, rfl⟩
  | _ => cases hok

/-! ## Stamps -/

/-- A decoder that reads the stamps and an unwrap that does not look at them. -/
theorem unstamped_bind {φ : Type} {decoder : Bytes → FrameRun φ} {frame : UInt64 → UInt64 → φ}
    {layout : UInt64 → UInt64 → Bytes} {next : φ → WrapRun Bytes} {hashKey seqNum : UInt64}
    (hdecode : ∀ hashKey seqNum, (decoder (layout hashKey seqNum)).outcome = .ok (frame hashKey seqNum))
    (hnext : ∀ hashKey' seqNum', next (frame hashKey seqNum) = next (frame hashKey' seqNum'))
    (hashKey' seqNum' : UInt64) :
    ((decoder (layout hashKey seqNum)).mapError .frame >>= next).outcome =
      ((decoder (layout hashKey' seqNum')).mapError .frame >>= next).outcome := by
  rw [Run.bind_outcome_of_ok (Run.mapError_outcome_ok.mpr (hdecode hashKey seqNum)),
    Run.bind_outcome_of_ok (Run.mapError_outcome_ok.mpr (hdecode hashKey' seqNum')),
    hnext hashKey' seqNum']

/-- No unwrap depends on the stamps, and the decoder reads them back. -/
theorem Class.Wraps.stamped {c : Class} (hwraps : c.Wraps h) (hlt : payload.length < 2 ^ 32)
    (hashKey seqNum : UInt64) :
    (stripBytes c (stamp (frameLayout sentProto h payload) hashKey seqNum)).outcome =
        (stripBytes c (frameLayout sentProto h payload)).outcome ∧
      (stamps c (stamp (frameLayout sentProto h payload) hashKey seqNum)).outcome =
        .ok (hashKey, seqNum) := by
  rw [stamp_frameLayout]
  obtain ⟨version, byte7, id, hashKey', seqNum', field56⟩ := h
  cases c with
  | tx =>
      obtain rfl : version = frameVerV2 := hwraps
      have hdecode : ∀ hashKey seqNum, (decode (frameLayout sentProto
          ⟨frameVerV2, byte7, id, hashKey, seqNum, field56⟩ payload)).outcome =
          .ok ⟨frameVerV2, id, hashKey, seqNum, field56, payload⟩ :=
        fun hashKey seqNum => decode_frameLayout rfl hlt standsAt_zero_self
      exact ⟨unstamped_bind hdecode (fun _ _ => rfl) _ _, Run.bind_outcome_ok.mpr
        ⟨_, Run.mapError_outcome_ok.mpr (hdecode hashKey seqNum), rfl⟩⟩
  | subtree =>
      obtain ⟨rfl, rfl⟩ := hwraps
      have hdecode : ∀ hashKey seqNum, (decodeSubtreeData (frameLayout sentProto
          ⟨frameVerV5, subtreeMsgHashesOnly, id, hashKey, seqNum, field56⟩ payload)).outcome =
          .ok ⟨subtreeMsgHashesOnly, id, hashKey, seqNum, payload⟩ :=
        fun hashKey seqNum =>
          decodeSubtreeData_ok.mpr ⟨.inl rfl, hlt, sentProto, field56, standsAt_zero_self⟩
      exact ⟨unstamped_bind hdecode (fun _ _ => rfl) _ _, Run.bind_outcome_ok.mpr
        ⟨_, Run.mapError_outcome_ok.mpr (hdecode hashKey seqNum), rfl⟩⟩
  | block =>
      obtain ⟨rfl, rfl⟩ := hwraps
      have hdecode : ∀ hashKey seqNum, (decodeBlock (frameLayout sentProto
          ⟨frameVerV4, blockMsgAnnounce, id, hashKey, seqNum, field56⟩ payload)).outcome =
          .ok ⟨blockMsgAnnounce, id, hashKey, seqNum, payload⟩ :=
        fun hashKey seqNum =>
          decodeBlock_ok.mpr ⟨.inl rfl, hlt, sentProto, field56, standsAt_zero_self⟩
      exact ⟨unstamped_bind hdecode (fun _ _ => rfl) _ _, Run.bind_outcome_ok.mpr
        ⟨_, Run.mapError_outcome_ok.mpr (hdecode hashKey seqNum), rfl⟩⟩
  | beef =>
      obtain rfl : version = frameVerV9 := hwraps
      have hdecode : ∀ hashKey seqNum, (decodeBEEF (frameLayout sentProto
          ⟨frameVerV9, byte7, id, hashKey, seqNum, field56⟩ payload)).outcome =
          .ok ⟨id, hashKey, seqNum, field56, byte7, payload⟩ :=
        fun hashKey seqNum => decodeBEEF_ok.mpr ⟨hlt, sentProto, standsAt_zero_self⟩
      exact ⟨unstamped_bind hdecode (fun _ _ => rfl) _ _, Run.bind_outcome_ok.mpr
        ⟨_, Run.mapError_outcome_ok.mpr (hdecode hashKey seqNum), rfl⟩⟩
  | _ => cases hwraps

/-! ## Lanes -/

/-- The wrap of a whole object of a push class and the way back. -/
theorem pushFrame_carries {c : Class} (deliverCount : Int)
    (hc : c ∈ [Class.tx, .subtree, .block, .beef]) {max : Int} (hwhole : Whole c max obj)
    (hlt : payloadLength c obj.length < 2 ^ 32) :
    ∃ mcast, (pushFrame sha256 deliverCount c obj).outcome = .ok mcast ∧
      mcast.length = headerSize + payloadLength c obj.length ∧
      (stripBytes c mcast).outcome = .ok obj := by
  have hsize := hwhole.size_eq
  have hall : obj.take obj.length = obj := List.take_length
  simp only [List.mem_cons, List.not_mem_nil, or_false] at hc
  rcases hc with rfl | rfl | rfl | rfl
  · obtain ⟨mcast, hmcast, hlength, hcarries⟩ := @multicast_tx sha256 _ _ hsize hlt
    exact ⟨mcast, hmcast, hlength, hall ▸ hcarries.strip⟩
  · obtain ⟨mcast, hmcast, hlength, hcarries⟩ := @multicast_subtree sha256 _ _ hsize hlt
    exact ⟨mcast, hmcast, hlength, hall ▸ hcarries.strip⟩
  · obtain ⟨mcast, hmcast, hlength, hcarries⟩ := @multicast_block sha256 _ _ hsize hlt
    exact ⟨mcast, hmcast, hlength, hall ▸ hcarries.strip⟩
  · obtain ⟨mcast, hmcast, hlength, hcarries⟩ := @multicast_beef sha256 _ deliverCount hsize hlt
    exact ⟨mcast, hmcast, hlength, hcarries.strip⟩

/-- **Objects cross the fabric.** However the reads of a lane fall, its reader returns the objects in
order; each has a frame; and whatever is stamped into the frame on its way, the decoder of its class
reads the stamps, and the edge strips it to the object, byte for byte. -/
theorem objects_cross_fabric (sha256 : Bytes → FixedBytes 32) (deliverCount : Int) {c : Class}
    (hc : c ∈ [Class.tx, .subtree, .block, .beef]) {max : Int} (hmax : 1 ≤ max)
    (hint : max + 4096 ≤ maxInt) {objects : List Bytes}
    (hobjects : ∀ object ∈ objects, Whole c max object ∧ payloadLength c object.length < 2 ^ 32) :
    (∀ script eofWithLast, Reassembles c max objects [] script eofWithLast) ∧
    ∀ object ∈ objects, ∃ mcast, (pushFrame sha256 deliverCount c object).outcome = .ok mcast ∧
      ∀ hashKey seqNum,
        (stamps c (stamp mcast hashKey seqNum)).outcome = .ok (hashKey, seqNum) ∧
        (stripBytes c (stamp mcast hashKey seqNum)).outcome = .ok object := by
  have hregistered : c.Registered := by
    simp only [List.mem_cons, List.not_mem_nil, or_false] at hc
    rcases hc with rfl | rfl | rfl | rfl <;> rintro _ ⟨⟩
  refine ⟨reassembles_of_bound hregistered hmax hint (fun object ho => (hobjects object ho).1)
    (Or.inl rfl), ?_⟩
  intro object hobject
  obtain ⟨hwhole, hlt⟩ := hobjects object hobject
  obtain ⟨mcast, hmcast, hlength, hstrip⟩ := @pushFrame_carries sha256 object c deliverCount hc max hwhole hlt
  obtain ⟨h, payload, rfl, hwraps⟩ := pushFrame_layout hmcast
  have hpayload : payload.length < 2 ^ 32 := by
    rw [length_frameLayout] at hlength
    omega
  refine ⟨_, hmcast, fun hashKey seqNum => ?_⟩
  obtain ⟨hsame, hstamps⟩ := hwraps.stamped hpayload hashKey seqNum
  exact ⟨hstamps, hsame.trans hstrip⟩

theorem objects_cross_fabric_subtree : ∃ mcast,
    (pushFrame (.copy 32) 1 .subtree smallSubtree).outcome = .ok mcast ∧
      (stripBytes .subtree (stamp mcast 5 7)).outcome = .ok smallSubtree := by
  have hwhole : ∀ object ∈ [smallSubtree, smallSubtree],
      Whole .subtree 100 object ∧ payloadLength .subtree object.length < 2 ^ 32 := by
    have hone : Whole .subtree 100 smallSubtree := ⟨by decide +kernel, by decide⟩
    rw [List.forall_mem_cons, List.forall_mem_singleton]
    exact ⟨⟨hone, by decide⟩, hone, by decide⟩
  obtain ⟨-, hframes⟩ := objects_cross_fabric (.copy 32) 1 (by simp) (by decide) (by decide) hwhole
  obtain ⟨mcast, hmcast, hstamped⟩ := hframes smallSubtree List.mem_cons_self
  exact ⟨mcast, hmcast, (hstamped 5 7).2⟩

end ShardCommon.Objfmt
