import ShardCommon.BEEFDelivery
import ShardCommon.Proof.BEEFTopics
import ShardCommon.Proof.ObjectReader

/-!
# From submission to delivery

A submission is wrapped into a frame and stamped on its way. A listener matches one of the topics that
the frame may be delivered for and writes a delivery record, and a lane carries one record after
another. However the lane is cut into reads, its reader returns the records, and each of them leads
back to the object, to every name it was submitted under, and from the identifier that matched to one
of those names.
-/

namespace ShardCommon.Objfmt

open Go ShardCommon.Frame

/-! ## Delivery records -/

section Records

variable {buf object : Bytes} {id : FixedBytes 32} {n : Nat}

def deliveryLayout (id : FixedBytes 32) (object : Bytes) : Bytes := id.val ++ objectLayout object

theorem length_deliveryLayout (id : FixedBytes 32) (object : Bytes) :
    (deliveryLayout id object).length = beefDeliveryHeaderSize + object.length := by
  rw [deliveryLayout, List.length_append, FixedBytes.length_val, length_objectLayout,
    beefDeliveryHeaderSize]
  omega

theorem standsAt_deliveryLayout : StandsAt buf 0 (deliveryLayout id object) ↔
    StandsAt buf 0 id.val ∧ StandsAt buf 32 (putUint32 (UInt32.ofNat object.length)) ∧
      StandsAt buf 36 object := by
  rw [deliveryLayout, standsAt_append_iff, standsAt_objectLayout, FixedBytes.length_val]

theorem encodeBEEFDelivery_ok (h : beefDeliveryHeaderSize + object.length < 2 ^ 63) :
    (encodeBEEFDelivery id object).outcome = .ok (deliveryLayout id object) := by
  have hmake : (Run.make 1 (beefDeliveryHeaderSize + object.length : Nat) : SizeRun Unit).outcome =
      .ok () := by
    rw [Run.make_of_le (by rw [maxInt]; omega)]
  rw [encodeBEEFDelivery, Run.add_of_lt h, pure_bind]
  refine Run.bind_outcome_ok.mpr ⟨(), hmake, ?_⟩
  rw [deliveryLayout, objectLayout, List.append_assoc]
  rfl

theorem beefDeliverySize_ok : (beefDeliverySize buf).outcome = .ok n ↔
    ∃ object : Bytes, (0 < object.length ∧ object.length < 2 ^ 32) ∧
      StandsAt buf 32 (putUint32 (UInt32.ofNat object.length)) ∧ StandsAt buf 36 object ∧
      n = beefDeliveryHeaderSize + object.length := by
  simp only [beefDeliverySize, Run.bind_outcome_ok, Run.failIf_outcome_ok, Run.add_outcome_ok,
    Run.pure_outcome, uint32At_ok, Outcome.ok.injEq]
  have hheader : beefDeliveryHeaderSize = 36 := rfl
  have hint : mathMaxInt = 2 ^ 63 - 1 := rfl
  constructor
  · rintro ⟨-, -, len, hlen, -, hzero, -, -, total, ⟨-, rfl⟩, -, hreach, rfl⟩
    obtain ⟨object, hlength, hobject⟩ := @exists_standsAt _ buf 36 len.toNat (by omega)
    have hpos : len.toNat ≠ 0 := fun h => hzero (UInt32.toNat_inj.mp h)
    have hlt := len.toNat_lt
    refine ⟨object, ⟨by omega, by omega⟩, ?_, hobject, by rw [hlength]⟩
    rwa [hlength, UInt32.ofNat_toNat]
  · rintro ⟨object, ⟨hpos, hlt⟩, hlen, hobject, rfl⟩
    have hreach := hobject.length_le
    have hvalue := toNat_objectLen hlt
    have hzero : UInt32.ofNat object.length ≠ 0 := by
      intro hzero
      rw [hzero] at hvalue
      exact absurd hvalue (Nat.ne_of_lt hpos)
    refine ⟨(), ?_, _, hlen, (), hzero, (), ?_, beefDeliveryHeaderSize + object.length, ⟨?_, ?_⟩, (),
      ?_, rfl⟩ <;> omega

/-- What is decoded is what a delivery record in front of the buffer was made of. -/
theorem decodeBEEFDelivery_ok :
    (decodeBEEFDelivery buf).outcome = .ok (id, object, n) ↔
      (0 < object.length ∧ object.length < 2 ^ 32) ∧ StandsAt buf 0 (deliveryLayout id object) ∧
        n = beefDeliveryHeaderSize + object.length := by
  simp only [decodeBEEFDelivery, Run.bind_outcome_ok, beefDeliverySize_ok, Run.pure_outcome,
    bytesAt_ok, copyAt_ok, standsAt_deliveryLayout, Outcome.ok.injEq, Prod.mk.injEq]
  constructor
  · rintro ⟨total, ⟨object', hbounds, hlen, hobject', rfl⟩, topic, hid, part, ⟨hpart, hlength⟩, rfl, rfl, rfl⟩
    obtain rfl : part = object' := hpart.unique hobject' (Nat.add_left_cancel hlength).symm
    exact ⟨hbounds, ⟨hid, hlen, hobject'⟩, rfl⟩
  · rintro ⟨hbounds, ⟨hid, hlen, hobject⟩, rfl⟩
    exact ⟨_, ⟨object, hbounds, hlen, hobject, rfl⟩, id, hid, object, ⟨hobject, rfl⟩, rfl, rfl, rfl⟩

/-- A record of a delivery lane. -/
theorem whole_deliveryLayout {max : Int} (hbounds : 0 < object.length ∧ object.length < 2 ^ 32)
    (hmax : ((beefDeliveryHeaderSize + object.length : Nat) : Int) ≤ max) :
    Whole .beefDelivery max (deliveryLayout id object) := by
  have hlength := length_deliveryLayout id object
  have hstands := standsAt_deliveryLayout.mp (@standsAt_zero_self _ (deliveryLayout id object))
  refine ⟨beefDeliverySize_ok.mpr ⟨object, hbounds, hstands.2.1, hstands.2.2, hlength⟩, ?_⟩
  rwa [hlength]

/-! ## Bare objects -/

theorem exists_four (h : 4 ≤ object.length) : ∃ a b c d rest, object = a :: b :: c :: d :: rest := by
  match object, h with
  | a :: b :: c :: d :: rest, _ => exact ⟨a, b, c, d, rest, rfl⟩

/-- The first byte of an object that passes the marker gate. -/
theorem first_of_isBEEFObject (h : isBEEFObject object = true) :
    ∃ first second rest, object = first :: second :: rest ∧ first ≠ 0xBE := by
  rw [isBEEFObject, beefVersionWord] at h
  by_cases hshort : object.length < 4
  · rw [if_pos hshort] at h
    cases h
  rw [if_neg hshort] at h
  obtain ⟨a, b, c, d, rest, rfl⟩ := exists_four (Nat.not_lt.mp hshort)
  refine ⟨a, b, c :: d :: rest, rfl, ?_⟩
  rintro rfl
  have hword : (uintLE [0xBE, b, c, d]).toUInt32.toNat % 256 = 0xBE := by
    simp [uintLE, BigEndian.toNat]
  simp only [List.take_succ_cons, List.take_zero, Bool.or_eq_true, beq_iff_eq] at h
  rcases h with (h | h) | h <;> rw [h] at hword <;> exact absurd hword (by decide)

/-- No object that passes the marker gate starts like a record. -/
theorem splitBEEFPayload_bare (h : isBEEFObject object = true) :
    (splitBEEFPayload object).outcome = .ok (object, []) := by
  obtain ⟨first, second, rest, rfl, hne⟩ := first_of_isBEEFObject h
  rw [splitBEEFPayload, if_neg]
  · rfl
  · rintro ⟨-, htag⟩
    apply hne
    have hbytes := congrArg putUint16 htag
    rw [putUint16_uint16 rfl] at hbytes
    exact (List.cons.inj hbytes).1

end Records

/-! ## Stamped frames -/

/-- The proxy's in-place stamps, `HashKey` at 40 and `SeqNum` at 48. -/
def stamp (mcast : Bytes) (hashKey seqNum : UInt64) : Bytes :=
  mcast.take 40 ++ (putUint64 hashKey ++ (putUint64 seqNum ++ mcast.drop 56))

theorem stamp_frameLayout (proto : FixedBytes 2) (h : FrameHeader) (payload : Bytes)
    (hashKey seqNum : UInt64) :
    stamp (frameLayout proto h payload) hashKey seqNum =
      frameLayout proto { h with hashKey := hashKey, seqNum := seqNum } payload := by
  have hfront : (putUint32 magicBSV ++ (proto.val ++ ([h.version] ++ ([h.byte7] ++ h.id.val)))).length
      = 40 := by simp
  have hfields : (putUint64 h.hashKey ++ putUint64 h.seqNum).length = 16 := by simp
  have hsplit : frameLayout proto h payload =
      (putUint32 magicBSV ++ (proto.val ++ ([h.version] ++ ([h.byte7] ++ h.id.val)))) ++
        ((putUint64 h.hashKey ++ putUint64 h.seqNum) ++ (h.field56.val ++
          (putUint32 (UInt32.ofNat payload.length) ++ payload))) := by
    simp only [frameLayout, List.append_assoc]
  rw [stamp, hsplit, List.take_left' hfront,
    show (56 : Nat) = 40 + 16 from rfl, ← List.drop_drop, List.drop_left' hfront,
    List.drop_left' hfields]
  simp only [frameLayout, List.append_assoc]

/-! ## Submissions -/

/-- A record under its names, of which the first ones are deliverable, or a bare object for one
topic. -/
inductive Submission where
  | record (topics : List Bytes) (object : Bytes) (deliverCount : Int)
  | bare (topic : FixedBytes 32) (object : Bytes)

namespace Submission

def object : Submission → Bytes
  | record _ object _ => object
  | bare _ object => object

def topics : Submission → List Bytes
  | record topics _ _ => topics
  | bare _ _ => []

/-- The payload of the frame. -/
def payload (quote : Bytes → String) : Submission → SizeRun Bytes
  | record topics object _ => encodeBEEFRecord quote topics object
  | bare _ object => pure object

def frame (sha256 : Bytes → FixedBytes 32) (quote : Bytes → String) : Submission → WrapRun Bytes
  | record topics object deliverCount => do
    let rec ← (encodeBEEFRecord quote topics object).mapError .objfmt
    beefMulticastRecord sha256 rec deliverCount
  | bare topic object => beefMulticastBytes sha256 topic object

/-- The identifiers a listener may match on. -/
def matched (sha256 : Bytes → FixedBytes 32) : Submission → List (FixedBytes 32)
  | record topics _ deliverCount =>
    (topics.take (max 1 (min deliverCount topics.length)).toNat).map (topicID sha256)
  | bare topic _ => [topic]

/-- The submission is accepted by the encoders, and a bare object by the marker gate. -/
structure Accepted (quote : Bytes → String) (s : Submission) (payload : Bytes) : Prop where
  encoded : (s.payload quote).outcome = .ok payload
  length_lt : payload.length < 2 ^ 32
  gated : ∀ topic, s = bare topic payload → isBEEFObject payload = true

variable {sha256 : Bytes → FixedBytes 32} {quote : Bytes → String} {s : Submission} {payload : Bytes}

/-- What a frame carries, whatever its stamps. -/
structure Arrives (sha256 : Bytes → FixedBytes 32) (s : Submission) (payload mcast : Bytes) : Prop where
  decoded : ∀ hashKey seqNum, ∃ bf, (decodeBEEF (stamp mcast hashKey seqNum)).outcome = .ok bf ∧
    bf.payload = payload ∧ (beefDeliverableTopicIDs sha256 bf).outcome = .ok (s.matched sha256)
  split : (splitBEEFPayload payload).outcome = .ok (s.object, s.topics)
  nonempty : 0 < payload.length

theorem decodeBEEF_stamp (h : FrameHeader) (hversion : h.version = frameVerV9)
    (hlt : payload.length < 2 ^ 32) (hashKey seqNum : UInt64) :
    (decodeBEEF (stamp (frameLayout sentProto h payload) hashKey seqNum)).outcome =
      .ok ⟨h.id, hashKey, seqNum, h.field56, h.byte7, payload⟩ := by
  rw [stamp_frameLayout]
  refine decodeBEEF_ok.mpr ⟨hlt, sentProto, ?_⟩
  rw [← hversion]
  exact standsAt_zero_self

theorem Accepted.record_arrives {topics : List Bytes} {object : Bytes} {deliverCount : Int}
    (h : (record topics object deliverCount).Accepted quote payload) :
    ∃ mcast, ((record topics object deliverCount).frame sha256 quote).outcome = .ok mcast ∧
      (record topics object deliverCount).Arrives sha256 payload mcast := by
  obtain ⟨hr, -, rfl⟩ := (@encodeBEEFRecord_ok quote ⟨topics, object⟩ payload).mp h.encoded
  obtain ⟨first, rest, rfl⟩ := List.exists_cons_of_length_pos hr.count.1
  have hcount := hr.count
  rw [beefMaxTopics] at hcount
  obtain ⟨m, hm⟩ : ∃ m, (max 1 (min deliverCount (first :: rest).length)).toNat = m + 1 :=
    Nat.exists_eq_succ_of_ne_zero (by omega)
  refine ⟨_, Run.bind_outcome_ok.mpr ⟨_, Run.mapError_outcome_ok.mpr h.encoded,
    beefMulticastRecord_ok deliverCount hr rfl h.length_lt⟩, ?_, splitBEEFPayload_layout hr, ?_⟩
  · intro hashKey seqNum
    refine ⟨_, decodeBEEF_stamp _ rfl h.length_lt hashKey seqNum, rfl, ?_⟩
    rw [beefDeliverableTopicIDs_of_record hr rfl, deliverable_clamp hcount.1 (by omega) rfl, hm,
      List.take_succ_cons, matched, hm, List.take_succ_cons]
    rfl
  · rw [length_layout, beefRecordMin]
    omega

theorem Accepted.bare_arrives {topic : FixedBytes 32} {object : Bytes}
    (h : (bare topic object).Accepted quote payload) :
    ∃ mcast, ((bare topic object).frame sha256 quote).outcome = .ok mcast ∧
      (bare topic object).Arrives sha256 payload mcast := by
  obtain rfl : object = payload := Outcome.ok.inj h.encoded
  have hgate := h.gated topic rfl
  obtain ⟨first, second, rest, rfl, -⟩ := first_of_isBEEFObject hgate
  refine ⟨_, Run.bind_outcome_ok.mpr ⟨(), Run.failIf_outcome_ok.mpr (Nat.succ_ne_zero _),
    encoded_ok _ h.length_lt⟩, ?_, splitBEEFPayload_bare hgate, Nat.succ_pos _⟩
  intro hashKey seqNum
  exact ⟨_, decodeBEEF_stamp _ rfl h.length_lt hashKey seqNum, rfl, rfl⟩

theorem Accepted.arrives (h : s.Accepted quote payload) :
    ∃ mcast, (s.frame sha256 quote).outcome = .ok mcast ∧ s.Arrives sha256 payload mcast := by
  cases s with
  | record topics object deliverCount => exact h.record_arrives
  | bare topic object => exact h.bare_arrives

end Submission

/-! ## The lane -/

/-- A submission, the stamps of its frame and which of its deliverable topics matched. -/
structure Match where
  submission : Submission
  hashKey : UInt64
  seqNum : UInt64
  pick : Nat

namespace Match

variable (sha256 : Bytes → FixedBytes 32) (quote : Bytes → String)

/-- The delivery record a listener writes. -/
def Delivers (m : Match) (delivery : Bytes) : Prop :=
  ∃ mcast bf ids id, (m.submission.frame sha256 quote).outcome = .ok mcast ∧
    (decodeBEEF (stamp mcast m.hashKey m.seqNum)).outcome = .ok bf ∧
    (beefDeliverableTopicIDs sha256 bf).outcome = .ok ids ∧ ids[m.pick]? = some id ∧
    (encodeBEEFDelivery id bf.payload).outcome = .ok delivery

/-- What a consumer makes of a delivery record: the object, all the names, and the topic among those
that the publisher let be matched. -/
def Received (m : Match) (delivery : Bytes) : Prop :=
  ∃ id payload, (decodeBEEFDelivery delivery).outcome = .ok (id, payload, delivery.length) ∧
    (splitBEEFPayload payload).outcome = .ok (m.submission.object, m.submission.topics) ∧
    (m.submission.matched sha256)[m.pick]? = some id

/-- The submission is accepted, one of its topics matched, and the record fits the lane. -/
def Possible (max : Int) (m : Match) : Prop :=
  ∃ payload, m.submission.Accepted quote payload ∧
    m.pick < (m.submission.matched sha256).length ∧
    ((beefDeliveryHeaderSize + payload.length : Nat) : Int) ≤ max

variable {sha256 quote} {max : Int} {m : Match}

theorem Possible.delivered (h : m.Possible sha256 quote max) :
    ∃ delivery, m.Delivers sha256 quote delivery ∧ m.Received sha256 delivery ∧
      Whole .beefDelivery max delivery := by
  obtain ⟨payload, haccepted, hpick, hmax⟩ := h
  obtain ⟨mcast, hframe, harrives⟩ := @Submission.Accepted.arrives sha256 _ _ _ haccepted
  obtain ⟨bf, hdecode, rfl, hids⟩ := harrives.decoded m.hashKey m.seqNum
  obtain ⟨id, hid⟩ : ∃ id, (m.submission.matched sha256)[m.pick]? = some id :=
    ⟨_, List.getElem?_eq_getElem hpick⟩
  have hlt := haccepted.length_lt
  have hbounds := And.intro harrives.nonempty hlt
  have hencode := @encodeBEEFDelivery_ok bf.payload id (by rw [beefDeliveryHeaderSize]; omega)
  refine ⟨deliveryLayout id bf.payload, ⟨mcast, bf, _, id, hframe, hdecode, hids, hid, hencode⟩,
    ⟨id, bf.payload, ?_, harrives.split, hid⟩, whole_deliveryLayout hbounds hmax⟩
  exact decodeBEEFDelivery_ok.mpr ⟨hbounds, standsAt_zero_self, length_deliveryLayout id bf.payload⟩

end Match

/-- Every match becomes a delivery record, the reader of the lane returns the records in order however
its reads fall, and each record leads back to the submission. A record is decoded to what it was made
of exactly when its object has a length of 32 bits that is not zero. -/
theorem deliveries_lead_back (sha256 : Bytes → FixedBytes 32) (quote : Bytes → String) {max : Int}
    (hmax : 1 ≤ max) (hint : max + 4096 ≤ maxInt) :
    (∀ {sent : List Match}, (∀ m ∈ sent, m.Possible sha256 quote max) → ∃ deliveries,
      sent.Forall₂ (fun m delivery => m.Delivers sha256 quote delivery ∧
        m.Received sha256 delivery) deliveries ∧
      ∀ script eofWithLast, Reassembles .beefDelivery max deliveries [] script eofWithLast) ∧
    ∀ id object delivery, (encodeBEEFDelivery id object).outcome = .ok delivery →
      ((decodeBEEFDelivery delivery).outcome = .ok (id, object, delivery.length) ↔
        0 < object.length ∧ object.length < 2 ^ 32) := by
  constructor
  · intro sent hsent
    have hmade : ∃ deliveries, sent.Forall₂ (fun m delivery => (m.Delivers sha256 quote delivery ∧
        m.Received sha256 delivery) ∧ Whole .beefDelivery max delivery) deliveries := by
      induction sent with
      | nil => exact ⟨[], .nil⟩
      | cons m sent ih =>
          rw [List.forall_mem_cons] at hsent
          obtain ⟨deliveries, hrest⟩ := ih hsent.2
          obtain ⟨delivery, hdelivers, hreceived, hwhole⟩ := hsent.1.delivered
          exact ⟨delivery :: deliveries, .cons ⟨⟨hdelivers, hreceived⟩, hwhole⟩ hrest⟩
    obtain ⟨deliveries, hmade⟩ := hmade
    refine ⟨deliveries, hmade.imp fun _ _ h => h.1, ?_⟩
    have hwhole : ∀ delivery ∈ deliveries, Whole .beefDelivery max delivery := by
      intro delivery hdelivery
      obtain ⟨i, hi, rfl⟩ := List.getElem_of_mem hdelivery
      exact ((List.forall₂_iff_get.mp hmade).2 i (hmade.length_eq ▸ hi) hi).2
    exact reassembles_of_bound (by rintro _ ⟨⟩) hmax hint hwhole (Or.inl rfl)
  · intro id object delivery hencode
    have hsize : beefDeliveryHeaderSize + object.length < 2 ^ 63 := by
      obtain ⟨size, hsize, -⟩ := Run.bind_outcome_ok.mp hencode
      exact (Run.add_outcome_ok.mp hsize).1
    rw [encodeBEEFDelivery_ok hsize] at hencode
    cases hencode
    rw [decodeBEEFDelivery_ok, length_deliveryLayout]
    exact ⟨fun h => h.1, fun h => ⟨h, standsAt_zero_self, rfl⟩⟩

/-- The second name of a record of two, and a bare object of nothing but its marker. -/
def pairMatches : List Match :=
  [⟨.record [[97], [98]] [1] 2, 5, 1, 1⟩, ⟨.bare (.copy 32 [9]) [0x01, 0x00, 0xBE, 0xEF], 5, 2, 0⟩]

theorem deliveries_lead_back_pair : ∃ deliveries,
    pairMatches.Forall₂ (fun m delivery => m.Delivers (.copy 32) (fun _ => "") delivery ∧
      m.Received (.copy 32) delivery) deliveries ∧
    Reassembles .beefDelivery 49 deliveries [] [1, 30] true := by
  have hpossible : ∀ m ∈ pairMatches, m.Possible (.copy 32) (fun _ => "") 49 := by
    rw [pairMatches, List.forall_mem_cons, List.forall_mem_singleton]
    refine ⟨⟨pairRecord.layout, ⟨encode_pairRecord, by decide, ?_⟩, by decide, by decide⟩,
      ⟨_, ⟨rfl, by decide, ?_⟩, by decide, by decide⟩⟩
    · intro topic hbare
      cases hbare
    · intro topic _
      decide
  obtain ⟨deliveries, hmade, hlane⟩ :=
    (deliveries_lead_back (.copy 32) (fun _ => "") (by decide) (by decide)).1 hpossible
  exact ⟨deliveries, hmade, hlane [1, 30] true⟩

end ShardCommon.Objfmt
