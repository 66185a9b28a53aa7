import ShardCommon.FrameCodec

/-!
# What stands in a frame

An encoder leaves the layout of its frame in front of the buffer, and a decoder accepts a buffer
exactly when the layout of a frame of its version stands there, whatever the bytes are that it does
not read.
-/

namespace ShardCommon.Frame

open Go

variable {buf payload : Bytes} {h : FrameHeader}

def frameLayout (proto : FixedBytes 2) (h : FrameHeader) (payload : Bytes) : Bytes :=
  putUint32 magicBSV ++ (proto.val ++ ([h.version] ++ ([h.byte7] ++ (h.id.val ++
    (putUint64 h.hashKey ++ (putUint64 h.seqNum ++ (h.field56.val ++
      (putUint32 (UInt32.ofNat payload.length) ++ payload))))))))

/-- The protocol version as the encoders send it. -/
def sentProto : FixedBytes 2 := .copy 2 (putUint16 protoVer)

theorem length_frameLayout (proto : FixedBytes 2) (h : FrameHeader) (payload : Bytes) :
    (frameLayout proto h payload).length = headerSize + payload.length := by
  simp only [frameLayout, List.length_append, length_putUint32, length_putUint64,
    FixedBytes.length_val, List.length_singleton, headerSize]
  omega

theorem standsAt_frameLayout {proto : FixedBytes 2} :
    StandsAt buf 0 (frameLayout proto h payload) ↔
      StandsAt buf 0 (putUint32 magicBSV) ∧ StandsAt buf 4 proto.val ∧ StandsAt buf 6 [h.version] ∧
      StandsAt buf 7 [h.byte7] ∧ StandsAt buf 8 h.id.val ∧ StandsAt buf 40 (putUint64 h.hashKey) ∧
      StandsAt buf 48 (putUint64 h.seqNum) ∧ StandsAt buf 56 h.field56.val ∧
      StandsAt buf 88 (putUint32 (UInt32.ofNat payload.length)) ∧ StandsAt buf 92 payload := by
  simp only [frameLayout, standsAt_append_iff, length_putUint32, length_putUint64,
    FixedBytes.length_val, List.length_singleton, Nat.zero_add, Nat.reduceAdd]

theorem written_frameWrites (h : FrameHeader) (payload : Bytes) :
    written (frameWrites h payload) = frameLayout sentProto h payload := by
  have hproto : sentProto.val = putUint16 protoVer := FixedBytes.copy_val (length_putUint16 _)
  simp only [written, frameWrites, List.flatMap_cons, List.flatMap_nil, List.append_nil,
    frameLayout, hproto]

theorem contiguous_frameWrites (h : FrameHeader) (payload : Bytes) :
    Contiguous 0 (frameWrites h payload) := by
  simp [frameWrites, Contiguous]

theorem encodeFrame_eq (hsum : headerSize + payload.length < 2 ^ 63)
    (hroom : headerSize + payload.length ≤ buf.length) :
    encodeFrame h payload buf = pure (headerSize + payload.length,
      frameLayout sentProto h payload ++ buf.drop (headerSize + payload.length)) := by
  have hlength := length_frameLayout sentProto h payload
  have hfit : (written (frameWrites h payload)).length ≤ buf.length := by
    rwa [written_frameWrites, hlength]
  rw [encodeFrame, Run.add_of_lt hsum, pure_bind, Run.failIf_neg (Nat.not_lt.mpr hroom), pure_bind,
    putAll_front (contiguous_frameWrites h payload) hfit, written_frameWrites, hlength, pure_bind]

/-! ## Decoders -/

theorem framePayload_ok {size : Nat} (hsize : 4 ≤ size) :
    (framePayload size buf).outcome = .ok payload ↔ payload.length < 2 ^ 32 ∧
      StandsAt buf (size - 4) (putUint32 (UInt32.ofNat payload.length)) ∧
      StandsAt buf size payload := by
  have hstart : size = size - 4 + 4 := by omega
  simp only [framePayload, Run.bind_outcome_ok, uint32At_ok hstart, Run.failIf_outcome_ok, bytesAt_ok]
  constructor
  · rintro ⟨payLen, hlen, -, -, hpayload, heq⟩
    have hlength : payload.length = payLen.toNat := by omega
    refine ⟨hlength ▸ payLen.toNat_lt, ?_, hpayload⟩
    rwa [hlength, UInt32.ofNat_toNat]
  · rintro ⟨hlt, hlen, hpayload⟩
    have hvalue : (UInt32.ofNat payload.length).toNat = payload.length :=
      UInt32.toNat_ofNat_of_lt' hlt
    have hreach := hpayload.length_le
    exact ⟨_, hlen, (), by omega, hpayload, by rw [hvalue]⟩

theorem openFrame_ok {version : UInt8} {u : Unit} :
    (openFrame version buf).outcome = .ok u ↔ headerSize ≤ buf.length ∧
      StandsAt buf 0 (putUint32 magicBSV) ∧ StandsAt buf 6 [version] := by
  simp only [openFrame, Run.bind_outcome_ok, uint32At_ok, Run.failIf_outcome_ok, byteAt_ok, not_lt,
    not_not]
  constructor
  · rintro ⟨-, -, magic, hmagic, -, rfl, fver, hfver, -, rfl, hlength⟩
    exact ⟨hlength, hmagic, hfver⟩
  · rintro ⟨hlength, hmagic, hver⟩
    have hlegacy : headerSizeLegacy ≤ buf.length := Nat.le_trans (by decide) hlength
    exact ⟨(), hlegacy, _, hmagic, (), rfl, _, hver, (), rfl, hlength⟩

theorem headerSize_le_of_layout {proto : FixedBytes 2}
    (hframe : StandsAt buf 0 (frameLayout proto h payload)) : headerSize ≤ buf.length := by
  have hlength := hframe.length_le
  rw [length_frameLayout] at hlength
  omega

/-- A layout from the fields that a decoder reads; the protocol version and the field at 56 are
whatever stands there. -/
theorem exists_frameLayout {version byte7 : UInt8} {id : FixedBytes 32} {hashKey seqNum : UInt64} :
    (∃ proto field56, StandsAt buf 0 (frameLayout proto
      ⟨version, byte7, id, hashKey, seqNum, field56⟩ payload)) ↔
      headerSize ≤ buf.length ∧ StandsAt buf 0 (putUint32 magicBSV) ∧ StandsAt buf 6 [version] ∧
      StandsAt buf 7 [byte7] ∧ StandsAt buf 8 id.val ∧ StandsAt buf 40 (putUint64 hashKey) ∧
      StandsAt buf 48 (putUint64 seqNum) ∧
      StandsAt buf 88 (putUint32 (UInt32.ofNat payload.length)) ∧ StandsAt buf 92 payload := by
  constructor
  · rintro ⟨proto, field56, hframe⟩
    obtain ⟨hmagic, -, hver, hbyte7, hid, hkey, hseq, -, hlen, hpayload⟩ :=
      standsAt_frameLayout.mp hframe
    exact ⟨headerSize_le_of_layout hframe, hmagic, hver, hbyte7, hid, hkey, hseq, hlen, hpayload⟩
  · rintro ⟨hlength, hmagic, hver, hbyte7, hid, hkey, hseq, hlen, hpayload⟩
    rw [headerSize] at hlength
    obtain ⟨proto, hproto⟩ := @exists_fixedBytes buf 4 2 (by omega)
    obtain ⟨field56, hfield⟩ := @exists_fixedBytes buf 56 32 (by omega)
    refine ⟨proto, field56, standsAt_frameLayout.mpr ?_⟩
    exact ⟨hmagic, hproto, hver, hbyte7, hid, hkey, hseq, hfield, hlen, hpayload⟩

theorem decodeV2_ok {f : Frame} :
    (decodeV2 buf).outcome = .ok f ↔ f.version = frameVerV2 ∧ headerSize ≤ buf.length ∧
      StandsAt buf 8 f.txID.val ∧ StandsAt buf 40 (putUint64 f.hashKey) ∧
      StandsAt buf 48 (putUint64 f.seqNum) ∧ StandsAt buf 56 f.subtreeID.val ∧
      f.payload.length < 2 ^ 32 ∧ StandsAt buf 88 (putUint32 (UInt32.ofNat f.payload.length)) ∧
      StandsAt buf 92 f.payload := by
  simp only [decodeV2, Run.bind_outcome_ok, Run.failIf_outcome_ok, not_lt,
    framePayload_ok (show 4 ≤ headerSize by decide), copyAt_ok, uint64At_ok, Run.pure_outcome]
  constructor
  · rintro ⟨-, hlength, payload, ⟨hlt, hlen, hpayload⟩, id, hid, key, hkey, seq, hseq, field, hfield,
      heq⟩
    cases heq
    exact ⟨rfl, hlength, hid, hkey, hseq, hfield, hlt, hlen, hpayload⟩
  · rintro ⟨hver, hlength, hid, hkey, hseq, hfield, hlt, hlen, hpayload⟩
    refine ⟨(), hlength, _, ⟨hlt, hlen, hpayload⟩, _, hid, _, hkey, _, hseq, _, hfield, ?_⟩
    rw [← hver]

/-- A transaction frame, read back. -/
theorem decode_frameLayout {proto : FixedBytes 2} {byte7 : UInt8} {f : Frame}
    (hver : f.version = frameVerV2) (hlt : f.payload.length < 2 ^ 32)
    (hframe : StandsAt buf 0 (frameLayout proto
      ⟨f.version, byte7, f.txID, f.hashKey, f.seqNum, f.subtreeID⟩ f.payload)) :
    (decode buf).outcome = .ok f := by
  have hheader := headerSize_le_of_layout hframe
  obtain ⟨hmagic, -, hversion, -, hid, hkey, hseq, hfield, hlen, hpayload⟩ :=
    standsAt_frameLayout.mp hframe
  have hlegacy : headerSizeLegacy ≤ buf.length := Nat.le_trans (by decide) hheader
  simp only [decode, Run.bind_outcome_ok, Run.failIf_outcome_ok, not_lt, uint32At_ok, byteAt_ok,
    not_not]
  refine ⟨(), hlegacy, _, hmagic, (), rfl, _, hversion, ?_⟩
  dsimp only
  rw [hver, if_neg (by decide), if_pos rfl]
  exact decodeV2_ok.mpr ⟨hver, hheader, hid, hkey, hseq, hfield, hlt, hlen, hpayload⟩

theorem decodeTyped_ok {φ : Type} {version first second : UInt8} {badMsg : UInt8 → FrameError}
    {frame : UInt8 → FixedBytes 32 → UInt64 → UInt64 → Bytes → φ} {f : φ} :
    (decodeTyped version first second badMsg frame buf).outcome = .ok f ↔
      ∃ msgType id hashKey seqNum payload, (msgType = first ∨ msgType = second) ∧
        payload.length < 2 ^ 32 ∧ (∃ proto field56, StandsAt buf 0 (frameLayout proto
          ⟨version, msgType, id, hashKey, seqNum, field56⟩ payload)) ∧
        frame msgType id hashKey seqNum payload = f := by
  simp only [exists_frameLayout, decodeTyped, Run.bind_outcome_ok, openFrame_ok, byteAt_ok,
    Run.failIf_outcome_ok, framePayload_ok (show 4 ≤ headerSize by decide), uint64At_ok, copyAt_ok,
    Run.pure_outcome, Outcome.ok.injEq, not_and_or, not_not]
  constructor
  · rintro ⟨-, ⟨hlength, hmagic, hver⟩, msgType, htype, -, hallowed, payload, ⟨hlt, hlen, hpayload⟩,
      key, hkey, seq, hseq, id, hid, heq⟩
    exact ⟨msgType, id, key, seq, payload, hallowed, hlt,
      ⟨hlength, hmagic, hver, htype, hid, hkey, hseq, hlen, hpayload⟩, heq⟩
  · rintro ⟨msgType, id, key, seq, payload, hallowed, hlt,
      ⟨hlength, hmagic, hver, htype, hid, hkey, hseq, hlen, hpayload⟩, heq⟩
    exact ⟨(), ⟨hlength, hmagic, hver⟩, msgType, htype, (), hallowed, payload,
      ⟨hlt, hlen, hpayload⟩, key, hkey, seq, hseq, id, hid, heq⟩

theorem decodeSubtreeData_ok {f : SubtreeDataFrame} :
    (decodeSubtreeData buf).outcome = .ok f ↔
      (f.msgType = subtreeMsgHashesOnly ∨ f.msgType = subtreeMsgFullNodes) ∧
      f.payload.length < 2 ^ 32 ∧ ∃ proto field56, StandsAt buf 0 (frameLayout proto
        ⟨frameVerV5, f.msgType, f.subtreeID, f.hashKey, f.seqNum, field56⟩ f.payload) := by
  rw [decodeSubtreeData, decodeTyped_ok]
  constructor
  · rintro ⟨msgType, id, key, seq, payload, hallowed, hlt, hframe, rfl⟩
    exact ⟨hallowed, hlt, hframe⟩
  · rintro ⟨hallowed, hlt, hframe⟩
    exact ⟨_, _, _, _, _, hallowed, hlt, hframe, rfl⟩

theorem decodeBlock_ok {f : BlockFrame} :
    (decodeBlock buf).outcome = .ok f ↔
      (f.msgType = blockMsgAnnounce ∨ f.msgType = blockMsgCoinbase) ∧
      f.payload.length < 2 ^ 32 ∧ ∃ proto field56, StandsAt buf 0 (frameLayout proto
        ⟨frameVerV4, f.msgType, f.contentID, f.hashKey, f.seqNum, field56⟩ f.payload) := by
  rw [decodeBlock, decodeTyped_ok]
  constructor
  · rintro ⟨msgType, id, key, seq, payload, hallowed, hlt, hframe, rfl⟩
    exact ⟨hallowed, hlt, hframe⟩
  · rintro ⟨hallowed, hlt, hframe⟩
    exact ⟨_, _, _, _, _, hallowed, hlt, hframe, rfl⟩

theorem decodeBEEF_ok {f : BEEFFrame} :
    (decodeBEEF buf).outcome = .ok f ↔
      f.payload.length < 2 ^ 32 ∧ ∃ proto, StandsAt buf 0 (frameLayout proto
        ⟨frameVerV9, f.deliverCount, f.contentID, f.hashKey, f.seqNum, f.topicID⟩ f.payload) := by
  simp only [decodeBEEF, Run.bind_outcome_ok, openFrame_ok, byteAt_ok,
    framePayload_ok (show 4 ≤ headerSize by decide), uint64At_ok, copyAt_ok, Run.pure_outcome]
  constructor
  · rintro ⟨-, ⟨hlength, hmagic, hver⟩, payload, ⟨hlt, hlen, hpayload⟩, key, hkey, seq, hseq,
      count, hcount, id, hid, topic, htopic, heq⟩
    cases heq
    rw [headerSize] at hlength
    obtain ⟨proto, hproto⟩ := @exists_fixedBytes buf 4 2 (by omega)
    exact ⟨hlt, proto, standsAt_frameLayout.mpr
      ⟨hmagic, hproto, hver, hcount, hid, hkey, hseq, htopic, hlen, hpayload⟩⟩
  · rintro ⟨hlt, proto, hframe⟩
    obtain ⟨hmagic, -, hver, hcount, hid, hkey, hseq, htopic, hlen, hpayload⟩ :=
      standsAt_frameLayout.mp hframe
    exact ⟨(), ⟨headerSize_le_of_layout hframe, hmagic, hver⟩, _, ⟨hlt, hlen, hpayload⟩,
      _, hkey, _, hseq, _, hcount, _, hid, _, htopic, rfl⟩

end ShardCommon.Frame
