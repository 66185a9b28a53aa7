import ShardCommon.Proof.FrameFamily
import ShardCommon.TeeWire

/-!
# Envelopes and frames on one socket

An envelope is its fixed header and the datagram, and is read back with the address in its sixteen
bytes, so what survives is an IPv6 address without a zone. Every frame decoder looks at the magic
before anything else, and the two magics differ, so nothing is both an envelope and a frame.
-/

namespace ShardCommon.Teewire

open Go Go.Run Netip
open ShardCommon.Frame

variable {b payload : Bytes} {src : AddrPort} {flags : UInt8}

/-! ## The layout -/

/-- An envelope with these flags. -/
def envelope (flags : UInt8) (src : AddrPort) (payload : Bytes) : Bytes :=
  putUint32 magic ++ [version] ++ [flags] ++ src.addr.as16.val ++ putUint16 src.port ++ payload

theorem appendEncap_eq (dst : Bytes) (src : AddrPort) (payload : Bytes) :
    appendEncap dst src payload = dst ++ envelope 0 src payload := by
  rw [appendEncap, envelope, List.append_assoc]

theorem length_envelope : (envelope flags src payload).length = headerSize + payload.length := by
  simp only [envelope, List.length_append, length_putUint32, length_putUint16, FixedBytes.length_val,
    List.length_singleton, headerSize]

/-- The fields at their offsets, and nothing behind the payload. -/
theorem eq_envelope_iff :
    b = envelope flags src payload ↔
      StandsAt b 0 (putUint32 magic) ∧ StandsAt b 4 [version] ∧ StandsAt b 5 [flags] ∧
        StandsAt b 6 src.addr.as16.val ∧ StandsAt b 22 (putUint16 src.port) ∧
        StandsAt b headerSize payload ∧ b.length = headerSize + payload.length := by
  have hfields : StandsAt b 0 (envelope flags src payload) ↔
      StandsAt b 0 (putUint32 magic) ∧ StandsAt b 4 [version] ∧ StandsAt b 5 [flags] ∧
        StandsAt b 6 src.addr.as16.val ∧ StandsAt b 22 (putUint16 src.port) ∧
        StandsAt b headerSize payload := by
    simp only [envelope, standsAt_append_iff, List.length_append, length_putUint32, length_putUint16,
      FixedBytes.length_val, List.length_singleton, headerSize, Nat.zero_add, Nat.reduceAdd, and_assoc]
  constructor
  · rintro rfl
    obtain ⟨hmagic, hversion, hflags, haddr, hport, hpayload⟩ := hfields.mp standsAt_zero_self
    exact ⟨hmagic, hversion, hflags, haddr, hport, hpayload, length_envelope⟩
  · rintro ⟨hmagic, hversion, hflags, haddr, hport, hpayload, hlength⟩
    have hstands := hfields.mpr ⟨hmagic, hversion, hflags, haddr, hport, hpayload⟩
    have htake := hstands.take_eq
    rw [length_envelope, ← hlength, List.take_length] at htake
    exact htake

theorem from16_as16_iff {addr : Addr} :
    Addr.from16 addr.as16 = addr ↔ ∃ bytes, addr = .v6 bytes "" := by
  constructor
  · intro h
    exact ⟨addr.as16, h.symm⟩
  · rintro ⟨bytes, rfl⟩
    rfl

theorem decap_ok :
    (decap b).outcome = .ok (src, payload) ↔
      Addr.from16 src.addr.as16 = src.addr ∧ ∃ flags, b = envelope flags src payload := by
  simp only [decap, bind_outcome_ok, failIf_outcome_ok, not_lt, not_not, uint32At_ok, uint16At_ok,
    byteAt_ok, copyAt_ok, bytesAt_ok, pure_outcome, Outcome.ok.injEq, Prod.mk.injEq]
  constructor
  · rintro ⟨-, hroom, _, hmagic, -, rfl, _, hversion, -, rfl, a16, haddr, port, hport, _, ⟨hpayload, hlength⟩,
      rfl, rfl⟩
    obtain ⟨part, hpart, hflags⟩ := @exists_standsAt _ b 5 1 (by rw [headerSize] at hroom; omega)
    obtain ⟨flags, rfl⟩ := List.length_eq_one_iff.mp hpart
    exact ⟨rfl, flags, eq_envelope_iff.mpr ⟨hmagic, hversion, hflags, haddr, hport, hpayload, hlength⟩⟩
  · rintro ⟨haddr, flags, heq⟩
    obtain ⟨hmagic, hversion, -, ha16, hport, hpayload, hlength⟩ := eq_envelope_iff.mp heq
    refine ⟨(), by omega, _, hmagic, (), rfl, _, hversion, (), rfl, _, ha16, _, hport, _,
      ⟨hpayload, hlength⟩, ?_, rfl⟩
    rw [haddr]

/-- Whatever its flags, an envelope is read back, with the address that its bytes stand for. -/
theorem decap_envelope (flags : UInt8) (src : AddrPort) (payload : Bytes) :
    (decap (envelope flags src payload)).outcome =
      .ok (⟨.from16 src.addr.as16, src.port⟩, payload) := decap_ok.mpr ⟨rfl, flags, rfl⟩

/-! ## Two magics -/

theorem isEncap_iff : isEncap b = true ↔ StandsAt b 0 (putUint32 magic) := by
  rw [isEncap, Bool.and_eq_true, decide_eq_true_iff, beq_iff_eq]
  constructor
  · rintro ⟨hlength, hword⟩
    rw [← hword, putUint32_uint32 (List.length_take_of_le hlength)]
    have hfront : StandsAt b 0 ((b.drop 0).take 4) := standsAt_take (by omega)
    exact hfront
  · intro h
    have hlength := h.length_le
    have htake := h.take_eq
    rw [length_putUint32] at hlength htake
    rw [htake, uint32_putUint32]
    exact ⟨by omega, rfl⟩

/-- Every frame decoder opens with a length and the magic. -/
theorem fails_foreign {ε α : Type} {size : Nat} (hsize : 4 ≤ size) {tooShort : ε}
    {badMagic : UInt32 → ε} {next : UInt32 → Unit → Run ε α} (h : isEncap b = true) :
    (Run.failIf (b.length < size) tooShort >>= fun _ =>
      (uint32 <$> (bytesAt b 0 4 : Run ε Bytes)) >>= fun word =>
      Run.failIf (word ≠ magicBSV) (badMagic word) >>= next word).Fails := by
  refine .check fun hlength => .bind ((neverPanics_slice (by omega) (by omega)).map _) fun word hword => ?_
  refine (fails_failIf ?_ _).andThen _
  rintro rfl
  have hsame := (isEncap_iff.mp h).unique ((uint32At_ok rfl).mp hword) rfl
  exact absurd hsame (by decide)

theorem rejected_of_isEncap {checksum : Bytes → UInt32} (h : isEncap b = true) (d : Decoder) :
    d.verdict checksum b = .rejected := by
  have hopen : ∀ {version : UInt8}, (openFrame version b).Fails := fails_foreign (by decide) h
  cases d with
  | frame => exact (show (decode b).Fails from fails_foreign (by decide) h).verdict
  | fragment => exact (show (decodeFragment b).Fails from fails_foreign (by decide) h).verdict
  | block => exact (hopen.andThen _).verdict
  | subtreeData => exact (hopen.andThen _).verdict
  | anchor => exact (hopen.andThen _).verdict
  | blockHeader => exact (hopen.andThen _).verdict
  | beef => exact (hopen.andThen _).verdict
  | bundle => exact (show (Bundles.decode b).Fails from fails_foreign (by decide) h).verdict
  | shardManifest =>
      have hheader : (decodeHeader b).Fails := fails_foreign (by decide) h
      exact (hheader.andThen _).verdict
  | subtreeGroupAnnounce =>
      exact (show (decodeSubtreeGroupAnnounce b).Fails from
        fails_foreign (show 4 ≤ subtreeGroupAnnounceSize by decide) h).verdict

/-! ## The shared socket -/

/-- **The tee.** An envelope appended to a buffer is recognised and read back to the datagram and its
source, which comes back unchanged exactly when it is an IPv6 address without a zone; no frame decoder
takes it. What is read as an envelope is the envelope of what was read, up to the flags. And no
datagram that a frame decoder takes is recognised or read as an envelope. -/
theorem tee_carries (checksum : Bytes → UInt32) :
    (∀ dst src payload, ∃ sent, appendEncap dst src payload = dst ++ sent ∧ isEncap sent = true ∧
      (∃ src', (decap sent).outcome = .ok (src', payload) ∧
        (src' = src ↔ ∃ bytes, src.addr = .v6 bytes "")) ∧
      ∀ d : Decoder, d.verdict checksum sent = .rejected) ∧
    (∀ b src payload, (decap b).outcome = .ok (src, payload) →
      isEncap b = true ∧ b.set 5 0 = appendEncap [] src payload) ∧
    ∀ (d : Decoder) b, d.verdict checksum b = .accepted →
      isEncap b = false ∧ ∀ src payload, (decap b).outcome ≠ .ok (src, payload) := by
  have henvelope : ∀ flags src payload, isEncap (envelope flags src payload) = true :=
    fun flags src payload => isEncap_iff.mpr (eq_envelope_iff.mp rfl).1
  have hrejects : ∀ (d : Decoder) b, d.verdict checksum b = .accepted → isEncap b = false := by
    intro d b haccepted
    cases hencap : isEncap b with
    | false => rfl
    | true =>
        rw [rejected_of_isEncap hencap d] at haccepted
        cases haccepted
  refine ⟨?_, ?_, ?_⟩
  · intro dst src payload
    refine ⟨envelope 0 src payload, appendEncap_eq dst src payload, henvelope 0 src payload,
      ⟨_, decap_envelope 0 src payload, ?_⟩, rejected_of_isEncap (henvelope 0 src payload)⟩
    rw [← from16_as16_iff]
    exact ⟨congrArg AddrPort.addr, fun h => by rw [h]⟩
  · intro b src payload hdecap
    obtain ⟨-, flags, rfl⟩ := decap_ok.mp hdecap
    exact ⟨henvelope flags src payload, (appendEncap_eq [] src payload).symm⟩
  · intro d b haccepted
    have hencap := hrejects d b haccepted
    refine ⟨hencap, fun src payload hdecap => ?_⟩
    obtain ⟨-, flags, rfl⟩ := decap_ok.mp hdecap
    rw [henvelope flags src payload] at hencap
    cases hencap

/-- A transaction frame with nothing in it. -/
def plainFrame : Bytes := [0xE3, 0xE1, 0xF3, 0xE8, 0x02, 0xBF, 0x02, 0x00] ++ List.replicate 84 0

theorem tee_carries_frame :
    isEncap plainFrame = false ∧
      isEncap (appendEncap [] ⟨.v6 (.copy 16 [0xfd]) "", 9000⟩ plainFrame) = true := by
  obtain ⟨sent, hsent, hencap, -⟩ :=
    (tee_carries crc32c).1 [] ⟨.v6 (.copy 16 [0xfd]) "", 9000⟩ plainFrame
  rw [hsent]
  exact ⟨((tee_carries crc32c).2.2 .frame plainFrame (by decide +kernel)).1, hencap⟩

end ShardCommon.Teewire
