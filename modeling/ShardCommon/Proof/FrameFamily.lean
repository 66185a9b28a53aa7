import ShardCommon.Bundle
import ShardCommon.Proof.FrameCodec
import ShardCommon.ShardManifest
import ShardCommon.SubtreeGroupAnnounce

/-!
# The frame family

Ten decoders read datagrams that open alike. Byte 6 names the one decoder that may accept a datagram;
the others reject it, whatever it holds. What an encoder leaves in front of a buffer is the layout of
its fields, and its decoder reads them back.
-/

namespace ShardCommon.Frame

open Go Run

variable {buf payload : Bytes} {h : FrameHeader}

/-! ## Byte 6 -/

inductive Decoder where
  | frame
  | fragment
  | block
  | subtreeData
  | anchor
  | blockHeader
  | beef
  | bundle
  | shardManifest
  | subtreeGroupAnnounce
  deriving DecidableEq

namespace Decoder

def verdict (checksum : Bytes → UInt32) (buf : Bytes) : Decoder → Verdict
  | frame => (decode buf).outcome.verdict
  | fragment => (decodeFragment buf).outcome.verdict
  | block => (decodeBlock buf).outcome.verdict
  | subtreeData => (decodeSubtreeData buf).outcome.verdict
  | anchor => (decodeAnchor buf).outcome.verdict
  | blockHeader => (decodeBlockHeader buf).outcome.verdict
  | beef => (decodeBEEF buf).outcome.verdict
  | bundle => (Bundles.decode buf).outcome.verdict
  | shardManifest => (decodeShardManifest checksum buf).outcome.verdict
  | subtreeGroupAnnounce => (decodeSubtreeGroupAnnounce buf).outcome.verdict

/-- The values of byte 6 that a decoder accepts. -/
def byte6 : Decoder → List UInt8
  | frame => [frameVerV1, frameVerV2]
  | fragment => [frameVerV3]
  | block => [frameVerV4]
  | subtreeData => [frameVerV5]
  | anchor => [frameVerV6]
  | blockHeader => [frameVerV7]
  | bundle => [frameVerV8]
  | beef => [frameVerV9]
  | shardManifest => [msgTypeShardManifest]
  | subtreeGroupAnnounce => [msgTypeSubtreeGroupAnnounce]

/-- The decoder that a value of byte 6 names. -/
def named (v : UInt8) : Option Decoder :=
  [frame, fragment, block, subtreeData, anchor, blockHeader, beef, bundle, shardManifest,
    subtreeGroupAnnounce].find? fun d => v ∈ d.byte6

theorem named_of_mem (d : Decoder) : ∀ v ∈ d.byte6, named v = some d := by
  intro v hv
  cases d with
  | frame => rcases List.mem_pair.mp hv with rfl | rfl <;> rfl
  | _ =>
      obtain rfl := List.mem_singleton.mp hv
      rfl

theorem byte6_apart {d d' : Decoder} {v : UInt8} (h : v ∈ d.byte6) (h' : v ∈ d'.byte6) : d = d' :=
  Option.some.inj ((named_of_mem d v h).symm.trans (named_of_mem d' v h'))

end Decoder

/-- Every decoder opens so: a length, the magic and a look at byte 6. -/
theorem fails_opening {ε α : Type} {size : Nat} (hsize : 7 ≤ size) {tooShort : ε}
    {badMagic : UInt32 → ε} {next : UInt8 → Run ε α}
    (h : ∀ v, buf[6]? = some v → (next v).Fails) :
    (Run.failIf (buf.length < size) tooShort >>= fun _ =>
      (uint32 <$> (bytesAt buf 0 4 : Run ε Bytes)) >>= fun magic =>
      Run.failIf (magic ≠ magicBSV) (badMagic magic) >>= fun _ =>
      (byteAt buf 6 : Run ε UInt8) >>= next).Fails := by
  refine .check fun hlength => .bind ((neverPanics_slice (by omega) (by omega)).map _) fun magic _ => ?_
  refine .check fun _ => .bind (neverPanics_index (by omega)) fun v hv => h v ?_
  exact standsAt_singleton_iff.mp (byteAt_ok.mp hv)

/-- Most decoders then compare byte 6 with the one value they take. -/
theorem fails_wrongByte6 {ε α : Type} {size : Nat} (hsize : 7 ≤ size) {tooShort : ε}
    {badMagic : UInt32 → ε} {bad : UInt8 → ε} {rest : UInt8 → Unit → Run ε α} {version : UInt8}
    (h : buf[6]? ≠ some version) :
    (Run.failIf (buf.length < size) tooShort >>= fun _ =>
      (uint32 <$> (bytesAt buf 0 4 : Run ε Bytes)) >>= fun magic =>
      Run.failIf (magic ≠ magicBSV) (badMagic magic) >>= fun _ =>
      (byteAt buf 6 : Run ε UInt8) >>= fun v => Run.failIf (v ≠ version) (bad v) >>= rest v).Fails := by
  refine fails_opening hsize fun v hv => (fails_failIf ?_ _).andThen _
  rintro rfl
  exact h hv

theorem fails_openFrame {version : UInt8} (h : buf[6]? ≠ some version) :
    (openFrame version buf).Fails := fails_wrongByte6 (by decide) h

theorem fails_decode (h1 : buf[6]? ≠ some frameVerV1) (h2 : buf[6]? ≠ some frameVerV2) :
    (decode buf).Fails := by
  refine fails_opening (by decide) fun v hv => ?_
  rw [if_neg (by rintro rfl; exact h1 hv), if_neg (by rintro rfl; exact h2 hv)]
  exact ⟨_, rfl⟩

theorem fails_decodeFragment (h : buf[6]? ≠ some frameVerV3) : (decodeFragment buf).Fails :=
  fails_wrongByte6 (by decide) h

theorem fails_bundle (h : buf[6]? ≠ some frameVerV8) : (Bundles.decode buf).Fails :=
  fails_wrongByte6 (by decide) h

theorem fails_decodeShardManifest {checksum : Bytes → UInt32}
    (h : buf[6]? ≠ some msgTypeShardManifest) : (decodeShardManifest checksum buf).Fails := by
  have hheader : (decodeHeader buf).Fails := fails_wrongByte6 (by decide) h
  exact hheader.andThen _

theorem fails_decodeSubtreeGroupAnnounce (h : buf[6]? ≠ some msgTypeSubtreeGroupAnnounce) :
    (decodeSubtreeGroupAnnounce buf).Fails :=
  fails_wrongByte6 (show 7 ≤ subtreeGroupAnnounceSize by decide) h

namespace Decoder

variable {checksum : Bytes → UInt32} {d : Decoder}

theorem rejected_of_byte6 (h : ∀ v ∈ d.byte6, buf[6]? ≠ some v) :
    d.verdict checksum buf = .rejected := by
  cases d with
  | frame => exact (fails_decode (h _ (by decide)) (h _ (by decide))).verdict
  | fragment => exact (fails_decodeFragment (h _ (by decide))).verdict
  | block => exact ((fails_openFrame (h _ (by decide))).andThen _).verdict
  | subtreeData => exact ((fails_openFrame (h _ (by decide))).andThen _).verdict
  | anchor => exact ((fails_openFrame (h _ (by decide))).andThen _).verdict
  | blockHeader => exact ((fails_openFrame (h _ (by decide))).andThen _).verdict
  | beef => exact ((fails_openFrame (h _ (by decide))).andThen _).verdict
  | bundle => exact (fails_bundle (h _ (by decide))).verdict
  | shardManifest => exact (fails_decodeShardManifest (h _ (by decide))).verdict
  | subtreeGroupAnnounce => exact (fails_decodeSubtreeGroupAnnounce (h _ (by decide))).verdict

theorem byte6_of_accepted (h : d.verdict checksum buf = .accepted) :
    ∃ v ∈ d.byte6, buf[6]? = some v := by
  by_contra hnone
  have hrejected : d.verdict checksum buf = .rejected :=
    rejected_of_byte6 fun v hv hget => hnone ⟨v, hv, hget⟩
  rw [h] at hrejected
  cases hrejected

theorem eq_of_accepted {d' : Decoder} (h : d.verdict checksum buf = .accepted)
    (h' : d'.verdict checksum buf = .accepted) : d = d' := by
  obtain ⟨v, hv, hget⟩ := byte6_of_accepted h
  obtain ⟨v', hv', hget'⟩ := byte6_of_accepted h'
  obtain rfl : v = v' := Option.some.inj (hget.symm.trans hget')
  exact byte6_apart hv hv'

end Decoder

/-! ## Round trips -/

/-- Into any buffer with room, and with anything behind it: what is written decodes to the fields, its
detector sees it and no other decoder takes it. -/
def RoundTrips {ε ε' φ : Type} (checksum : Bytes → UInt32) (d : Decoder) (size : Nat)
    (encoder : Bytes → Run ε (Nat × Bytes)) (decoder : Bytes → Run ε' φ) (fields : φ)
    (detector : Bytes → Bool) : Prop :=
  ∀ buf trailing : Bytes, size ≤ buf.length →
    ∃ out, (encoder buf).outcome = .ok (size, out) ∧
      (decoder (out.take size ++ trailing)).outcome = .ok fields ∧
      detector (out.take size ++ trailing) = true ∧
      ∀ d' ≠ d, d'.verdict checksum (out.take size ++ trailing) = .rejected

theorem roundTrips_of_layout {ε ε' φ : Type} {checksum : Bytes → UInt32} {d : Decoder} {size : Nat}
    {encoder : Bytes → Run ε (Nat × Bytes)} {decoder : Bytes → Run ε' φ} {fields : φ}
    {detector : Bytes → Bool} {layout : Bytes} {version : UInt8} (hlength : layout.length = size)
    (hversion : version ∈ d.byte6) (hbyte6 : StandsAt layout 6 [version])
    (hencode : ∀ buf : Bytes, size ≤ buf.length →
      (encoder buf).outcome = .ok (size, layout ++ buf.drop size))
    (hdecode : ∀ buf, StandsAt buf 0 layout → (decoder buf).outcome = .ok fields)
    (hdetect : ∀ buf, StandsAt buf 0 layout → detector buf = true) :
    RoundTrips checksum d size encoder decoder fields detector := by
  intro buf trailing hroom
  have htake : (layout ++ buf.drop size).take size = layout := List.take_left' hlength
  have hstands : StandsAt (layout ++ trailing) 0 layout := standsAt_zero_self.append_right trailing
  refine ⟨layout ++ buf.drop size, hencode buf hroom, ?_⟩
  rw [htake]
  refine ⟨hdecode _ hstands, hdetect _ hstands, fun d' hd' => ?_⟩
  apply Decoder.rejected_of_byte6
  intro v hv hget
  have hsame := standsAt_singleton_iff.mp (hbyte6.append_right trailing)
  obtain rfl : v = version := Option.some.inj (hget.symm.trans hsame)
  exact hd' (Decoder.byte6_apart hv hversion)

theorem isVersion_of_standsAt {version : UInt8} (hlength : headerSizeLegacy ≤ buf.length)
    (hmagic : StandsAt buf 0 (putUint32 magicBSV)) (hversion : StandsAt buf 6 [version]) :
    isVersion version buf = true := by
  have htake := hmagic.take_eq
  rw [length_putUint32] at htake
  rw [isVersion, if_neg (Nat.not_lt.mpr hlength), htake, uint32_putUint32, if_neg (not_not.mpr rfl),
    List.getD_eq_getElem?_getD, standsAt_singleton_iff.mp hversion]
  exact beq_self_eq_true version

/-- The frames with the common header. -/
theorem roundTrips_frame {ε' φ : Type} {checksum : Bytes → UInt32} {d : Decoder}
    {decoder : Bytes → Run ε' φ} {fields : φ} {detector : Bytes → Bool}
    (hversion : h.version ∈ d.byte6) (hlt : payload.length < 2 ^ 32)
    (hdecode : ∀ buf, StandsAt buf 0 (frameLayout sentProto h payload) →
      (decoder buf).outcome = .ok fields)
    (hdetect : ∀ buf, isVersion h.version buf = true → detector buf = true) :
    RoundTrips checksum d (headerSize + payload.length) (encodeFrame h payload) decoder fields
      detector := by
  refine roundTrips_of_layout (length_frameLayout sentProto h payload) hversion ?_ ?_ hdecode ?_
  · exact (standsAt_frameLayout.mp standsAt_zero_self).2.2.1
  · intro buf hroom
    have hsum : headerSize + payload.length < 2 ^ 63 := by
      rw [headerSize]
      omega
    rw [encodeFrame_eq hsum hroom]
    rfl
  · intro buf hstands
    have hheader := headerSize_le_of_layout hstands
    obtain ⟨hmagic, -, hver, -⟩ := standsAt_frameLayout.mp hstands
    exact hdetect buf (isVersion_of_standsAt (Nat.le_trans (by decide) hheader) hmagic hver)

/-! ## Fragments -/

section Fragment

variable {f : FragFrame}

/-- A fragment as `EncodeFragment` writes it. -/
def sentFragment (f : FragFrame) : List (Nat × Bytes) :=
  fragmentWrites ⟨frameVerV3, 0, f.txID, f.hashKey, f.seqNum, f.subtreeID⟩ f.origPayloadLen f.fragIndex
    f.fragTotal f.origFrameVer f.fragData

theorem contiguous_sentFragment (f : FragFrame) : Contiguous 0 (sentFragment f) := by
  simp [sentFragment, fragmentWrites, Contiguous]

theorem length_sentFragment (f : FragFrame) :
    (written (sentFragment f)).length = headerSizeV3 + f.fragData.length := by
  simp only [sentFragment, fragmentWrites, written, List.flatMap_cons, List.flatMap_nil,
    List.length_append, length_putUint16, length_putUint32, length_putUint64, FixedBytes.length_val,
    List.length_singleton, List.length_nil, headerSizeV3]
  omega

theorem decodeFragment_of_layout (hfrag : f.fragIndex < f.fragTotal)
    (hlt : f.fragData.length < 2 ^ 32) (hstands : StandsAt buf 0 (written (sentFragment f))) :
    (decodeFragment buf).outcome = .ok { f with msgType := 0 } := by
  have hlength := hstands.length_le
  rw [length_sentFragment, headerSizeV3] at hlength
  have hfields := standsAt_of_mem_writes (contiguous_sentFragment f) hstands
  simp only [sentFragment, fragmentWrites, List.forall_mem_cons] at hfields
  obtain ⟨hmagic, -, hver, hmsg, hid, hkey, hseq, hsub, hlen, horig, hindex, htotal, hversion, -, -, -,
    hdata, -⟩ := hfields
  have hword : (UInt32.ofNat f.fragData.length).toNat = f.fragData.length :=
    UInt32.toNat_ofNat_of_lt' hlt
  simp only [decodeFragment, bind_outcome_ok, failIf_outcome_ok, uint32At_ok, uint16At_ok, uint64At_ok,
    copyAt_ok, byteAt_ok, bytesAt_ok, not_not]
  refine ⟨(), by rw [headerSizeLegacy]; omega, _, hmagic, (), rfl, _, hver, (), rfl, (),
    by rw [headerSizeV3]; omega, _, hlen, (), by rw [hword, headerSizeV3]; omega, _, hindex, _, htotal,
    (), ?_, _, hkey, _, hseq, _, horig, _, hversion, _, hmsg, _, ⟨hdata, by rw [hword]⟩, _, hid, _, hsub,
    rfl⟩
  rw [UInt16.lt_iff_toNat_lt] at hfrag
  rintro (hzero | hle)
  · rw [hzero] at hfrag
    exact Nat.not_lt_zero _ hfrag
  · exact Nat.not_le_of_lt hfrag (UInt16.le_iff_toNat_le.mp hle)

theorem roundTrips_fragment (checksum : Bytes → UInt32) (hfrag : f.fragIndex < f.fragTotal)
    (hlt : f.fragData.length < 2 ^ 32) :
    RoundTrips checksum .fragment (headerSizeV3 + f.fragData.length)
      (encodeFragment f.txID f.subtreeID f.hashKey f.seqNum f.origPayloadLen f.fragIndex f.fragTotal
        f.origFrameVer f.fragData) decodeFragment { f with msgType := 0 } isFragment := by
  have hlength := length_sentFragment f
  have hfields := fun buf (hstands : StandsAt buf 0 (written (sentFragment f))) =>
    standsAt_of_mem_writes (contiguous_sentFragment f) hstands
  simp only [sentFragment, fragmentWrites, List.forall_mem_cons] at hfields
  refine roundTrips_of_layout hlength (List.mem_singleton_self frameVerV3) ?_ ?_
    (fun buf => decodeFragment_of_layout hfrag hlt) ?_
  · exact (hfields _ standsAt_zero_self).2.2.1
  · intro buf hroom
    have hsum : headerSizeV3 + f.fragData.length < 2 ^ 63 := by
      rw [headerSizeV3]
      omega
    have hput := @putAll_front _ FrameError _ buf (contiguous_sentFragment f) (by omega)
    rw [encodeFragment, Run.add_of_lt hsum, pure_bind, Run.failIf_neg (Nat.not_lt.mpr hroom),
      pure_bind, ← sentFragment, hput, hlength]
    rfl
  · intro buf hstands
    have hreach := hstands.length_le
    obtain ⟨hmagic, -, hver, -⟩ := hfields buf hstands
    refine isVersion_of_standsAt ?_ hmagic hver
    rw [hlength, headerSizeV3] at hreach
    rw [headerSizeLegacy]
    omega

theorem decodeFragment_bounds (h : (decodeFragment buf).outcome = .ok f) :
    f.fragIndex < f.fragTotal ∧ f.fragData.length < 2 ^ 32 := by
  simp only [decodeFragment, bind_outcome_ok, failIf_outcome_ok, bytesAt_ok] at h
  obtain ⟨-, -, -, -, -, -, -, -, -, -, -, -, dataLen, -, -, -, index, -, total, -, -, hfrag, _, -, _, -,
    _, -, _, -, _, -, data, ⟨-, hlength⟩, _, -, _, -, heq⟩ := h
  cases heq
  have hlt : data.length < 2 ^ 32 := by
    have := dataLen.toNat_lt
    omega
  exact ⟨UInt16.not_le.mp fun hle => hfrag (.inr hle), hlt⟩

/-- A received fragment, encoded again from its fields: the encoder has no parameter for the message
type and writes zero, so a fragment of a block or of subtree data loses it. -/
theorem fragment_reencoded_iff {raw : Bytes} (h : (decodeFragment raw).outcome = .ok f)
    (hroom : headerSizeV3 + f.fragData.length ≤ buf.length) (trailing : Bytes) :
    (∃ n out, (encodeFragment f.txID f.subtreeID f.hashKey f.seqNum f.origPayloadLen f.fragIndex
        f.fragTotal f.origFrameVer f.fragData buf).outcome = .ok (n, out) ∧
      (decodeFragment (out.take n ++ trailing)).outcome = .ok f) ↔ f.msgType = 0 := by
  obtain ⟨hfrag, hlt⟩ := decodeFragment_bounds h
  obtain ⟨out, hencode, hdecode, -⟩ := roundTrips_fragment (fun _ => 0) hfrag hlt buf trailing hroom
  constructor
  · rintro ⟨n, out', hencode', hdecode'⟩
    cases hencode.symm.trans hencode'
    have hsame := Outcome.ok.inj (hdecode.symm.trans hdecode')
    exact (congrArg FragFrame.msgType hsame).symm
  · intro hzero
    refine ⟨_, out, hencode, ?_⟩
    rw [hdecode, ← hzero]

/-- A fragment of one byte. -/
def tinyFragment (msgType : UInt8) : Bytes :=
  putUint32 magicBSV ++ putUint16 protoVer ++ [frameVerV3, msgType] ++ List.replicate 32 1 ++
    putUint64 3 ++ putUint64 4 ++ List.replicate 32 2 ++ putUint32 1 ++ putUint32 5 ++ putUint16 0 ++
    putUint16 1 ++ [frameVerV4, 0, 0, 0] ++ [7]

def tinyFields (msgType : UInt8) : FragFrame :=
  ⟨.copy 32 (List.replicate 32 1), 3, 4, .copy 32 (List.replicate 32 2), 5, 0, 1, frameVerV4, msgType,
    [7]⟩

theorem fragment_reencoded_plain :
    (decodeFragment (tinyFragment 0)).outcome = .ok (tinyFields 0) ∧
    ∃ n out, (encodeFragment (tinyFields 0).txID (tinyFields 0).subtreeID 3 4 5 0 1 frameVerV4 [7]
        (List.replicate 105 0)).outcome = .ok (n, out) ∧
      (decodeFragment (out.take n ++ [9])).outcome = .ok (tinyFields 0) := by
  have hdecode : (decodeFragment (tinyFragment 0)).outcome = .ok (tinyFields 0) := by decide +kernel
  refine ⟨hdecode, (fragment_reencoded_iff hdecode ?_ [9]).mpr rfl⟩
  rw [List.length_replicate]
  decide

/-- A fragment of a block announce comes back without its message type. -/
theorem fragment_loses_msgType :
    (decodeFragment (tinyFragment blockMsgAnnounce)).outcome = .ok (tinyFields blockMsgAnnounce) ∧
    (encodeFragment (tinyFields blockMsgAnnounce).txID (tinyFields blockMsgAnnounce).subtreeID 3 4 5 0 1
      frameVerV4 [7] (List.replicate 105 0)).outcome = .ok (105, tinyFragment 0) ∧
    (decodeFragment (tinyFragment 0)).outcome = .ok (tinyFields 0) ∧
    tinyFields 0 ≠ tinyFields blockMsgAnnounce := by
  decide +kernel

end Fragment

/-! ## Block headers -/

theorem decodeBlockHeader_of_layout {blockHash field56 : FixedBytes 32} {hashKey seqNum : UInt64}
    (hlen80 : payload.length = blockHeaderSize)
    (hstands : StandsAt buf 0 (frameLayout sentProto
      ⟨frameVerV7, 0, blockHash, hashKey, seqNum, field56⟩ payload)) :
    (decodeBlockHeader buf).outcome =
      .ok ⟨frameVerV7, blockHash, hashKey, seqNum, .copy 32 [], payload⟩ := by
  have hheader := headerSize_le_of_layout hstands
  have hreach := hstands.length_le
  rw [length_frameLayout, hlen80] at hreach
  obtain ⟨hmagic, -, hver, -, hid, hkey, hseq, -, hlen, hpayload⟩ := standsAt_frameLayout.mp hstands
  have hword : (UInt32.ofNat payload.length).toNat = blockHeaderSize := by
    rw [hlen80]
    rfl
  simp only [decodeBlockHeader, bind_outcome_ok, openFrame_ok, failIf_outcome_ok, uint32At_ok,
    uint64At_ok, copyAt_ok, bytesAt_ok, not_not]
  exact ⟨(), ⟨hheader, hmagic, hver⟩, _, hlen, (), hword, (), by rw [blockHeaderFrameSize]; omega, _,
    hid, _, hkey, _, hseq, _, ⟨hpayload, by rw [hlen80, blockHeaderFrameSize]⟩, rfl⟩

theorem roundTrips_blockHeader (checksum : Bytes → UInt32) (blockHash : FixedBytes 32)
    (hashKey seqNum : UInt64) {header80 : Bytes} (hlen80 : header80.length = blockHeaderSize) :
    RoundTrips checksum .blockHeader blockHeaderFrameSize
      (encodeBlockHeader blockHash hashKey seqNum header80) decodeBlockHeader
      ⟨frameVerV7, blockHash, hashKey, seqNum, .copy 32 [], header80⟩ isBlockHeaderFrame := by
  let h : FrameHeader := ⟨frameVerV7, 0, blockHash, hashKey, seqNum, layoutPad32⟩
  have hlength : (frameLayout sentProto h header80).length = blockHeaderFrameSize := by
    rw [length_frameLayout, hlen80, blockHeaderFrameSize]
  refine roundTrips_of_layout hlength (List.mem_singleton_self frameVerV7) ?_ ?_
    (fun buf => decodeBlockHeader_of_layout hlen80) ?_
  · exact (standsAt_frameLayout.mp standsAt_zero_self).2.2.1
  · intro buf hroom
    have hfit : (written (frameWrites h header80)).length ≤ buf.length := by
      rwa [written_frameWrites, hlength]
    have hput := @putAll_front _ FrameError _ buf (contiguous_frameWrites h header80) hfit
    rw [encodeBlockHeader, Run.failIf_neg (not_not.mpr hlen80), pure_bind,
      Run.failIf_neg (Nat.not_lt.mpr hroom), pure_bind, hput, written_frameWrites, hlength]
    rfl
  · intro buf hstands
    have hheader := headerSize_le_of_layout hstands
    obtain ⟨hmagic, -, hver, -⟩ := standsAt_frameLayout.mp hstands
    exact isVersion_of_standsAt (Nat.le_trans (by decide) hheader) hmagic hver

/-! ## Subtree group announcements -/

section Announce

variable {a : SubtreeGroupAnnounce}

theorem contiguous_announceWrites (a : SubtreeGroupAnnounce) : Contiguous 0 (announceWrites a) := by
  simp [announceWrites, Contiguous]

theorem length_announceWrites (a : SubtreeGroupAnnounce) :
    (written (announceWrites a)).length = subtreeGroupAnnounceSize := by
  simp [announceWrites, written, subtreeGroupAnnounceSize]

theorem roundTrips_announce (checksum : Bytes → UInt32) (a : SubtreeGroupAnnounce) :
    RoundTrips checksum .subtreeGroupAnnounce subtreeGroupAnnounceSize (encodeSubtreeGroupAnnounce a)
      decodeSubtreeGroupAnnounce a fun _ => true := by
  have hlength := length_announceWrites a
  have hfields := fun buf (hstands : StandsAt buf 0 (written (announceWrites a))) =>
    standsAt_of_mem_writes (contiguous_announceWrites a) hstands
  simp only [announceWrites, List.forall_mem_cons] at hfields
  refine roundTrips_of_layout hlength (List.mem_singleton_self msgTypeSubtreeGroupAnnounce) ?_ ?_ ?_
    fun _ _ => rfl
  · exact (hfields _ standsAt_zero_self).2.2.1
  · intro buf hroom
    have hput := @putAll_front _ AnnounceError _ buf (contiguous_announceWrites a) (by omega)
    rw [encodeSubtreeGroupAnnounce, Run.failIf_neg (Nat.not_lt.mpr hroom), pure_bind, hput, hlength]
    rfl
  · intro buf hstands
    have hreach := hstands.length_le
    rw [hlength, Nat.zero_add] at hreach
    obtain ⟨hmagic, -, htype, -, hsub, hgroup, hepoch, httl, -⟩ := hfields buf hstands
    simp only [decodeSubtreeGroupAnnounce, bind_outcome_ok, failIf_outcome_ok, uint32At_ok, uint16At_ok,
      copyAt_ok, byteAt_ok, not_not]
    exact ⟨(), Nat.not_lt.mpr hreach, _, hmagic, (), rfl, _, htype, (), rfl, _, hepoch, _, httl, _, hsub,
      _, hgroup, rfl⟩

end Announce

/-! ## The family -/

theorem frame_family_apart (checksum : Bytes → UInt32) :
    (∀ f : Frame, f.payload.length < 2 ^ 32 →
      RoundTrips checksum .frame (headerSize + f.payload.length) (encode f) decode
        { f with version := frameVerV2 } fun _ => true) ∧
    (∀ f : FragFrame, f.fragIndex < f.fragTotal → f.fragData.length < 2 ^ 32 →
      RoundTrips checksum .fragment (headerSizeV3 + f.fragData.length)
        (encodeFragment f.txID f.subtreeID f.hashKey f.seqNum f.origPayloadLen f.fragIndex f.fragTotal
          f.origFrameVer f.fragData) decodeFragment { f with msgType := 0 } isFragment) ∧
    (∀ f : BlockFrame, f.msgType = blockMsgAnnounce ∨ f.msgType = blockMsgCoinbase →
      f.payload.length < 2 ^ 32 →
      RoundTrips checksum .block (headerSize + f.payload.length) (encodeBlock f) decodeBlock f
        isBlockFrame) ∧
    (∀ f : SubtreeDataFrame, f.msgType = subtreeMsgHashesOnly ∨ f.msgType = subtreeMsgFullNodes →
      f.payload.length < 2 ^ 32 →
      RoundTrips checksum .subtreeData (headerSize + f.payload.length) (encodeSubtreeData f)
        decodeSubtreeData f isSubtreeDataFrame) ∧
    (∀ blockHash hashKey seqNum header80, header80.length = blockHeaderSize →
      RoundTrips checksum .blockHeader blockHeaderFrameSize
        (encodeBlockHeader blockHash hashKey seqNum header80) decodeBlockHeader
        ⟨frameVerV7, blockHash, hashKey, seqNum, .copy 32 [], header80⟩ isBlockHeaderFrame) ∧
    (∀ f : BEEFFrame, f.payload.length < 2 ^ 32 →
      RoundTrips checksum .beef (headerSize + f.payload.length) (encodeBEEF f) decodeBEEF f
        isBEEFFrame) ∧
    (∀ a, RoundTrips checksum .subtreeGroupAnnounce subtreeGroupAnnounceSize
      (encodeSubtreeGroupAnnounce a) decodeSubtreeGroupAnnounce a fun _ => true) ∧
    ∀ buf (d d' : Decoder), d.verdict checksum buf = .accepted →
      d'.verdict checksum buf = .accepted → d = d' := by
  refine ⟨?_, ?_, ?_, ?_, ?_, ?_, roundTrips_announce checksum, ?_⟩
  · intro f hlt
    refine roundTrips_frame (List.mem_cons_of_mem _ (List.mem_singleton_self frameVerV2)) hlt
      (fun buf hstands => ?_) fun _ _ => rfl
    exact @decode_frameLayout buf sentProto 0 { f with version := frameVerV2 } rfl hlt hstands
  · intro f hfrag hlt
    exact roundTrips_fragment checksum hfrag hlt
  · intro f htype hlt
    refine roundTrips_frame (List.mem_singleton_self _) hlt (fun buf hstands => ?_) fun _ h => h
    exact decodeBlock_ok.mpr ⟨htype, hlt, sentProto, layoutPad32, hstands⟩
  · intro f htype hlt
    refine roundTrips_frame (List.mem_singleton_self _) hlt (fun buf hstands => ?_) fun _ h => h
    exact decodeSubtreeData_ok.mpr ⟨htype, hlt, sentProto, layoutPad32, hstands⟩
  · intro blockHash hashKey seqNum header80 hlen80
    exact roundTrips_blockHeader checksum blockHash hashKey seqNum hlen80
  · intro f hlt
    refine roundTrips_frame (List.mem_singleton_self _) hlt (fun buf hstands => ?_) fun _ h => h
    exact decodeBEEF_ok.mpr ⟨hlt, sentProto, hstands⟩
  · intro buf d d' h h'
    exact Decoder.eq_of_accepted h h'

/-- A fragment written over a dirty buffer, with a byte behind it. -/
theorem frame_family_apart_fragment :
    ∃ out, (encodeFragment (.copy 32 [1]) (.copy 32 [2]) 3 4 5 0 1 2 [7]
        (List.replicate 200 255)).outcome = .ok (105, out) ∧
      (decodeFragment (out.take 105 ++ [9])).outcome =
        .ok ⟨.copy 32 [1], 3, 4, .copy 32 [2], 5, 0, 1, 2, 0, [7]⟩ ∧
      isFragment (out.take 105 ++ [9]) = true ∧
      Decoder.verdict (fun _ => 0) (out.take 105 ++ [9]) .frame = .rejected := by
  obtain ⟨out, hencode, hdecode, hdetect, hothers⟩ :=
    (frame_family_apart fun _ => 0).2.1 ⟨.copy 32 [1], 3, 4, .copy 32 [2], 5, 0, 1, 2, 0, [7]⟩
      (by decide) (by decide) (List.replicate 200 255) [9] (by rw [List.length_replicate]; decide)
  exact ⟨out, hencode, hdecode, hdetect, hothers .frame (by decide)⟩

end ShardCommon.Frame
