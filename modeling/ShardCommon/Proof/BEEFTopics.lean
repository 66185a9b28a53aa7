import ShardCommon.BEEFTopics
import ShardCommon.Proof.Multicast

/-!
# Topics travel end to end

A record is written, wrapped, decoded and split into what was submitted. What a listener may match on
is the topic of the header and the names that follow the first one in a record, as far as the frame
declares them deliverable; the other names are never hashed.
-/

namespace ShardCommon.Objfmt

open Go ShardCommon.Frame

variable {sha256 : Bytes → FixedBytes 32} {quote : Bytes → String} {payload : Bytes} {r : BEEFRecord}
  {bf : BEEFFrame}

/-! ## Encoding -/

theorem foldl_topicLayout (topics : List Bytes) (out : Bytes) :
    topics.foldl (fun out t => out ++ [UInt8.ofNat t.length] ++ t) out =
      out ++ topics.flatMap topicLayout := by
  simp only [List.append_assoc]
  exact List.foldl_append_eq_append

theorem topicSize_ok {size next : Nat} {t : Bytes} :
    (topicSize quote size t).outcome = .ok next ↔
      TopicBounds t ∧ validString t = true ∧ next = size + (topicLayout t).length ∧ next < 2 ^ 63 := by
  simp only [topicSize, Run.bind_outcome_ok, Run.failIf_outcome_ok, Run.add_outcome_ok, TopicBounds,
    length_topicLayout, not_or, Bool.not_eq_false]
  constructor
  · rintro ⟨-, ⟨hlow, hhigh, hvalid⟩, hsum, rfl⟩
    exact ⟨by omega, hvalid, rfl, hsum⟩
  · rintro ⟨⟨hlow, hhigh⟩, hvalid, rfl, hsum⟩
    exact ⟨(), ⟨by omega, by omega, hvalid⟩, hsum, rfl⟩

theorem foldlM_topicSize {topics : List Bytes} {size : Nat}
    (h : ∀ t ∈ topics, TopicBounds t ∧ validString t = true)
    (hsum : size + (topics.flatMap topicLayout).length < 2 ^ 63) :
    (topics.foldlM (topicSize quote) size).outcome =
      .ok (size + (topics.flatMap topicLayout).length) := by
  induction topics generalizing size with
  | nil => rfl
  | cons t topics ih =>
      obtain ⟨⟨hbounds, hvalid⟩, hrest⟩ := List.forall_mem_cons.mp h
      rw [List.flatMap_cons, List.length_append, ← Nat.add_assoc] at hsum ⊢
      rw [List.foldlM_cons]
      exact Run.bind_outcome_ok.mpr
        ⟨_, topicSize_ok.mpr ⟨hbounds, hvalid, rfl, by omega⟩, ih hrest hsum⟩

/-- The encoder takes the records whose names are text and writes their layout. -/
theorem encodeBEEFRecord_ok {rec : Bytes} :
    (encodeBEEFRecord quote r.topics r.object).outcome = .ok rec ↔
      r.Valid ∧ (∀ t ∈ r.topics, validString t = true) ∧ rec = r.layout := by
  simp only [encodeBEEFRecord, encodeBEEFRecordHeader, Run.bind_outcome_ok, Run.failIf_outcome_ok,
    Run.pure_outcome, Outcome.ok.injEq, foldl_topicLayout, Int.toNat_natCast, Run.add_outcome_ok,
    Run.make_outcome_ok_iff]
  have hlayout : putUint16 beefRecordTag ++ [beefRecordVer, UInt8.ofNat r.topics.length] ++
      r.topics.flatMap topicLayout ++ putUint32 (UInt32.ofNat r.object.length) ++ r.object =
        r.layout := by
    rw [BEEFRecord.layout, objectLayout]
    simp only [List.append_assoc, List.cons_append, List.nil_append]
  constructor
  · rintro ⟨hdr, ⟨-, hcount, -, hpos, -, hlt, size, hsize, -, -, -, -, rfl⟩, -, -, -, -, rfl⟩
    have hnames : ∀ t ∈ r.topics, TopicBounds t ∧ validString t = true := by
      refine Run.forall_mem_of_foldlM_ok ?_ hsize
      intro state t next hround
      obtain ⟨hbounds, hvalid, -⟩ := topicSize_ok.mp hround
      exact ⟨hbounds, hvalid⟩
    exact ⟨⟨by omega, fun t ht => (hnames t ht).1, by omega⟩, fun t ht => (hnames t ht).2, hlayout⟩
  · rintro ⟨hr, hvalid, rfl⟩
    obtain ⟨hcount, hnames, hobject⟩ := hr
    have hshort := length_layout_lt ⟨hcount, hnames, hobject⟩
    have htotal := congrArg List.length hlayout
    rw [List.length_append] at htotal
    have hsize := length_layout r
    rw [length_objectLayout] at hsize
    refine ⟨_, ⟨(), by omega, (), by omega, (), by omega, _,
      foldlM_topicSize (fun t ht => ⟨hnames t ht, hvalid t ht⟩) (by omega), _, ⟨by omega, rfl⟩, (),
      by rw [maxInt]; omega, rfl⟩, _, ⟨by omega, rfl⟩, (), by rw [maxInt]; omega, hlayout⟩

/-! ## Splitting -/

theorem splitBEEFPayload_layout (hr : r.Valid) :
    (splitBEEFPayload r.layout).outcome = .ok (r.object, r.topics) := by
  have htag : 2 ≤ r.layout.length ∧ uint16 (r.layout.take 2) = beefRecordTag := by
    obtain ⟨htag, -⟩ := (standsAt_layout (r := r)).mp standsAt_zero_self
    have hreach := htag.length_le
    have htake := htag.take_eq
    rw [length_putUint16] at hreach htake
    rw [htake, uint16_putUint16]
    exact ⟨by omega, rfl⟩
  rw [splitBEEFPayload, if_pos htag]
  refine Run.bind_outcome_ok.mpr ⟨_, decodeBEEFRecord_of_layout hr standsAt_zero_self, ?_⟩
  rw [Run.failIf_neg (not_not.mpr rfl)]
  rfl

/-- Names come from a payload that is one record. -/
theorem splitBEEFPayload_ok {object : Bytes} {topics : List Bytes}
    (h : (splitBEEFPayload payload).outcome = .ok (object, topics)) :
    topics = [] ∨ (BEEFRecord.mk topics object).Valid ∧ payload = (BEEFRecord.mk topics object).layout := by
  rw [splitBEEFPayload] at h
  split at h
  · right
    obtain ⟨⟨r, n⟩, hdecoded, h⟩ := Run.bind_outcome_ok.mp h
    obtain ⟨⟨⟩, hwhole, h⟩ := Run.bind_outcome_ok.mp h
    cases h
    obtain ⟨hr, hstands, rfl⟩ := decodeBEEFRecord_ok.mp hdecoded
    have hlength : r.layout.length = payload.length := not_not.mp (Run.failIf_outcome_ok.mp hwhole)
    refine ⟨hr, ?_⟩
    rw [← hstands.take_eq, hlength, List.take_length]
  · cases h
    exact .inl rfl

theorem neverPanics_splitBEEFPayload (payload : Bytes) : (splitBEEFPayload payload).NeverPanics := by
  rw [splitBEEFPayload]
  split
  · exact (neverPanics_decodeBEEFRecord payload).bind fun decoded _ => .check fun _ =>
      Run.neverPanics_pure _
  · exact Run.neverPanics_pure _

/-! ## Deliverable topics -/

theorem beefDeliverableTopicIDs_of_record (hr : r.Valid) (h : bf.payload = r.layout) :
    (beefDeliverableTopicIDs sha256 bf).outcome =
      .ok (bf.topicID :: ((r.topics.take bf.deliverable).drop 1).map (topicID sha256)) := by
  rw [beefDeliverableTopicIDs]
  by_cases hone : bf.deliverable ≤ 1
  · have hnone : (r.topics.take bf.deliverable).drop 1 = [] := by
      rw [List.drop_eq_nil_iff, List.length_take]
      omega
    rw [if_pos hone, hnone]
    rfl
  · rw [if_neg hone, h]
    refine Run.bind_outcome_ok.mpr ⟨_, Run.attempt_outcome_of_ok (splitBEEFPayload_layout hr), ?_⟩
    dsimp only
    by_cases hfew : r.topics.length < 2
    · have hnone : (r.topics.take bf.deliverable).drop 1 = [] := by
        rw [List.drop_eq_nil_iff, List.length_take]
        omega
      rw [if_pos hfew, hnone]
      rfl
    · have hwant : (if r.topics.length < bf.deliverable then r.topics.length else bf.deliverable) =
          min r.topics.length bf.deliverable := by split <;> omega
      have hslice : (Run.slice r.topics 1 (min r.topics.length bf.deliverable : Nat) :
          SizeRun (List Bytes)) = pure ((r.topics.take bf.deliverable).drop 1) := by
        have htake : (r.topics.take bf.deliverable).drop 1 =
            (r.topics.drop 1).take (min r.topics.length bf.deliverable - 1) := by
          rw [List.drop_take, List.take_eq_take_iff, List.length_drop]
          omega
        have hlow : 1 ≤ min r.topics.length bf.deliverable := by omega
        rw [htake]
        exact Run.slice_of_le hlow (Nat.min_le_left ..)
      rw [if_neg hfew, hwant, hslice, pure_bind]
      rfl

theorem beefDeliverableTopicIDs_of_bare (h : ∀ r : BEEFRecord, r.Valid → bf.payload ≠ r.layout) :
    (beefDeliverableTopicIDs sha256 bf).outcome = .ok [bf.topicID] := by
  rw [beefDeliverableTopicIDs]
  split
  · rfl
  · cases hsplit : (splitBEEFPayload bf.payload).outcome with
    | panic cause => exact absurd hsplit (neverPanics_splitBEEFPayload bf.payload cause)
    | fail error =>
        exact Run.bind_outcome_ok.mpr ⟨_, Run.attempt_outcome_of_fail hsplit, rfl⟩
    | ok parts =>
        obtain ⟨object, topics⟩ := parts
        refine Run.bind_outcome_ok.mpr ⟨_, Run.attempt_outcome_of_ok hsplit, ?_⟩
        rcases splitBEEFPayload_ok hsplit with rfl | ⟨hr, hpayload⟩
        · rfl
        · exact absurd hpayload (h _ hr)

theorem deliverable_clamp {count : Nat} {deliverCount : Int} (hpos : 1 ≤ count) (hlt : count < 256)
    (h : bf.deliverCount = clampDeliverCount count deliverCount) :
    bf.deliverable = (max 1 (min deliverCount count)).toNat := by
  have hclamp : clampDeliverCount count deliverCount =
      UInt8.ofNat (max 1 (min deliverCount count)).toNat := by
    rw [clampDeliverCount]
    congr 2
    omega
  have htoNat : bf.deliverCount.toNat = (max 1 (min deliverCount count)).toNat := by
    rw [h, hclamp]
    exact UInt8.toNat_ofNat_of_lt' (show _ < 256 by omega)
  rw [BEEFFrame.deliverable, if_neg, htoNat]
  intro hzero
  rw [hzero] at htoNat
  change 0 = _ at htoNat
  omega

/-- Everything submitted arrives, and nothing else is matched on. -/
theorem beef_topics_travel (sha256 : Bytes → FixedBytes 32) (quote : Bytes → String) :
    (∀ topics object rec, (encodeBEEFRecord quote topics object).outcome = .ok rec →
      rec.length < 2 ^ 32 → ∀ deliverCount trailing,
      ∃ mcast bf, (beefMulticastRecord sha256 rec deliverCount).outcome = .ok mcast ∧
        (decodeBEEF (mcast ++ trailing)).outcome = .ok bf ∧
        bf.contentID = sha256 (sha256 rec).val ∧ topics.head?.map sha256 = some bf.topicID ∧
        (splitBEEFPayload bf.payload).outcome = .ok (object, topics) ∧
        (beefDeliverableTopicIDs sha256 bf).outcome =
          .ok ((topics.take (max 1 (min deliverCount topics.length)).toNat).map sha256)) ∧
    ∀ bf : BEEFFrame, ∃ further,
      (beefDeliverableTopicIDs sha256 bf).outcome = .ok (bf.topicID :: further) ∧
      ∀ i id, further[i]? = some id → i + 1 < bf.deliverable ∧
        ∃ r : BEEFRecord, r.Valid ∧ bf.payload = r.layout ∧
          r.topics[i + 1]?.map sha256 = some id := by
  constructor
  · intro topics object rec hencode hlt deliverCount trailing
    obtain ⟨hr, -, rfl⟩ := (@encodeBEEFRecord_ok quote ⟨topics, object⟩ rec).mp hencode
    obtain ⟨first, rest, rfl⟩ := List.exists_cons_of_length_pos hr.count.1
    set r : BEEFRecord := ⟨first :: rest, object⟩
    let h := beefHeader sha256 r first deliverCount
    let bf : BEEFFrame := ⟨h.id, 0, 0, h.field56, h.byte7, r.layout⟩
    have hdecode : (decodeBEEF (frameLayout sentProto h r.layout ++ trailing)).outcome = .ok bf :=
      decodeBEEF_ok.mpr ⟨hlt, sentProto, standsAt_zero_self.append_right trailing⟩
    refine ⟨_, bf, beefMulticastRecord_ok deliverCount hr rfl hlt, hdecode, rfl, rfl,
      splitBEEFPayload_layout hr, ?_⟩
    have hcount := hr.count
    rw [beefMaxTopics] at hcount
    have hdeliverable := @deliverable_clamp bf r.topics.length deliverCount hcount.1 (by omega) rfl
    obtain ⟨m, hm⟩ : ∃ m, (max 1 (min deliverCount r.topics.length)).toNat = m + 1 :=
      Nat.exists_eq_succ_of_ne_zero (by omega)
    rw [beefDeliverableTopicIDs_of_record hr rfl, hdeliverable, hm, List.take_succ_cons]
    rfl
  · intro bf
    by_cases hrecord : ∃ r : BEEFRecord, r.Valid ∧ bf.payload = r.layout
    · obtain ⟨r, hr, hpayload⟩ := hrecord
      refine ⟨_, beefDeliverableTopicIDs_of_record hr hpayload, ?_⟩
      intro i id hid
      rw [List.getElem?_map, List.getElem?_drop, List.getElem?_take, Nat.add_comm 1] at hid
      split at hid
      · exact ⟨‹_›, r, hr, hpayload, hid⟩
      · cases hid
    · refine ⟨[], beefDeliverableTopicIDs_of_bare ?_, ?_⟩
      · exact fun r hr hpayload => hrecord ⟨r, hr, hpayload⟩
      · intro i id hid
        cases hid

/-- An object of one byte under the topics `a` and `b`. -/
def pairRecord : BEEFRecord := ⟨[[97], [98]], [1]⟩

theorem encode_pairRecord :
    (encodeBEEFRecord (fun _ => "") pairRecord.topics pairRecord.object).outcome =
      .ok pairRecord.layout := by
  decide

theorem beef_topics_travel_pair :
    ∃ mcast bf, (beefMulticastRecord (.copy 32) pairRecord.layout 1).outcome = .ok mcast ∧
      (decodeBEEF (mcast ++ [7])).outcome = .ok bf ∧
      (splitBEEFPayload bf.payload).outcome = .ok ([1], [[97], [98]]) ∧
      (beefDeliverableTopicIDs (.copy 32) bf).outcome = .ok [.copy 32 [97]] := by
  obtain ⟨mcast, bf, hmcast, hdecode, -, -, hsplit, hids⟩ :=
    (beef_topics_travel (.copy 32) fun _ => "").1 _ _ _ encode_pairRecord (by decide) 1 [7]
  exact ⟨mcast, bf, hmcast, hdecode, hsplit, hids⟩

/-! ## Canonical records -/

/-- A decoded record is encoded to the bytes it was read from, unless one of its names is not text:
the decoder takes any bytes for a name. -/
theorem decodeBEEFRecord_canonical_iff (quote : Bytes → String) {buf : Bytes} {n : Nat}
    (h : (decodeBEEFRecord buf).outcome = .ok (r, n)) :
    (encodeBEEFRecord quote r.topics r.object).outcome = .ok (buf.take n) ↔
      ∀ t ∈ r.topics, validString t = true := by
  obtain ⟨hr, hstands, rfl⟩ := decodeBEEFRecord_ok.mp h
  rw [encodeBEEFRecord_ok, hstands.take_eq]
  constructor
  · rintro ⟨-, hvalid, -⟩
    exact hvalid
  · intro hvalid
    exact ⟨hr, hvalid, rfl⟩

theorem decodeBEEFRecord_canonical_pair :
    (decodeBEEFRecord (pairRecord.layout ++ [7])).outcome = .ok (pairRecord, 13) ∧
    (encodeBEEFRecord (fun _ => "") [[97], [98]] [1]).outcome = .ok pairRecord.layout := by
  have hdecode : (decodeBEEFRecord (pairRecord.layout ++ [7])).outcome = .ok (pairRecord, 13) := by
    decide
  have hvalid : ∀ t ∈ pairRecord.topics, validString t = true := by decide
  exact ⟨hdecode, (decodeBEEFRecord_canonical_iff (fun _ => "") hdecode).mpr hvalid⟩

/-- A record whose only name is the byte `FF` is decoded and not encoded. -/
theorem decodeBEEFRecord_takes_invalid_name :
    (decodeBEEFRecord [0xBE, 0xEF, 1, 1, 1, 0xFF, 0, 0, 0, 1, 5]).outcome =
      .ok (⟨[[0xFF]], [5]⟩, 11) ∧
    ∀ quote, (encodeBEEFRecord quote [[0xFF]] [5]).outcome =
      .fail (.malformed ("invalid topic " ++ quote [0xFF])) := by
  exact ⟨by decide, fun quote => rfl⟩

end ShardCommon.Objfmt
