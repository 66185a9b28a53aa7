import ShardCommon.BlockPayload
import ShardCommon.Proof.Multicast
import ShardCommon.Proof.SizeLaw

/-!
# What a block frame strips to

A block frame is stripped when its payload is a whole block push object, and the frame's message
type plays no part in that. The payload of a native announce and a coinbase transaction have bytes
of their own choosing where a block has its counts, so both can be laid out as a block.
-/

namespace ShardCommon.Objfmt

open Go ShardCommon.Frame

/-- A block push object. -/
structure BlockBody where
  header : FixedBytes 80
  transactionCount : FixedBytes 8
  sizeInBytes : FixedBytes 8
  roots : List (FixedBytes 32)
  coinbase : Bytes
  height : FixedBytes 8
  bump : Bytes
  coinbase_whole : (txSize coinbase).outcome = .ok coinbase.length

/-- The height, the length of the BUMP and the BUMP. -/
def tailLayout (height : FixedBytes 8) (bump : Bytes) : Bytes :=
  height.val ++ (putUint64 (UInt64.ofNat bump.length) ++ bump)

def BlockBody.bytes (b : BlockBody) : Bytes :=
  b.header.val ++ (b.transactionCount.val ++ (b.sizeInBytes.val ++
    (putUint64 (UInt64.ofNat b.roots.length) ++ (b.roots.flatMap (·.val) ++
      (b.coinbase ++ tailLayout b.height b.bump)))))

def IsBlockBody (payload : Bytes) : Prop := ∃ b : BlockBody, b.bytes = payload

variable {buf payload : Bytes} {off n : Nat}

theorem length_tailLayout (height : FixedBytes 8) (bump : Bytes) :
    (tailLayout height bump).length = 16 + bump.length := by
  rw [tailLayout, List.length_append, List.length_append, FixedBytes.length_val, length_putUint64,
    ← Nat.add_assoc]

theorem length_roots (roots : List (FixedBytes 32)) :
    (roots.flatMap (·.val)).length = roots.length * 32 :=
  length_flatMap_of_width FixedBytes.length_val roots

theorem BlockBody.length_bytes (b : BlockBody) : b.bytes.length =
    104 + b.roots.length * 32 + b.coinbase.length + 16 + b.bump.length := by
  simp only [BlockBody.bytes, List.length_append, FixedBytes.length_val, length_putUint64,
    length_roots, length_tailLayout]
  omega

/-! ## Blocks are recognised -/

theorem blockTailSize_ok (hbuf : buf.length < 2 ^ 62) (hoff : off ≤ buf.length) :
    (blockTailSize buf off).outcome = .ok n ↔ ∃ height bump,
      StandsAt buf off (tailLayout height bump) ∧ n = off + 16 + bump.length := by
  simp only [blockTailSize, Run.add_of_lt (show off + 16 < 2 ^ 63 by omega), pure_bind,
    Run.bind_outcome_ok, Run.failIf_outcome_ok, uint64At_ok (show off + 16 = off + 8 + 8 by omega),
    Run.add_outcome_ok, Run.pure_outcome, Outcome.ok.injEq, tailLayout, standsAt_append_iff,
    FixedBytes.length_val, length_putUint64]
  rw [mathMaxInt]
  constructor
  · rintro ⟨-, hroom, l, hl, -, -, total, ⟨-, rfl⟩, -, hreach, rfl⟩
    obtain ⟨height, hheight⟩ := @exists_fixedBytes buf off 8 (by omega)
    obtain ⟨bump, hlength, hbump⟩ := @exists_standsAt _ buf (off + 8 + 8) l.toNat (by omega)
    refine ⟨height, bump, ⟨hheight, ?_, hbump⟩, ?_⟩
    · rwa [hlength, UInt64.ofNat_toNat]
    · rw [hlength]
  · rintro ⟨height, bump, ⟨-, hl, hbump⟩, rfl⟩
    have hreach := hbump.length_le
    have hvalue : (UInt64.ofNat bump.length).toNat = bump.length :=
      UInt64.toNat_ofNat_of_lt' (by rw [UInt64.size]; omega)
    exact ⟨(), by omega, _, hl, (), by omega, _, ⟨by omega, rfl⟩, (), by omega, by omega⟩

theorem standsAt_blockBody {b : BlockBody} :
    StandsAt buf 0 b.bytes ↔ StandsAt buf 0 b.header.val ∧ StandsAt buf 80 b.transactionCount.val ∧
      StandsAt buf 88 b.sizeInBytes.val ∧
      StandsAt buf 96 (putUint64 (UInt64.ofNat b.roots.length)) ∧
      StandsAt buf 104 (b.roots.flatMap (·.val)) ∧
      StandsAt buf (104 + b.roots.length * 32) b.coinbase ∧
      StandsAt buf (104 + b.roots.length * 32 + b.coinbase.length) (tailLayout b.height b.bump) := by
  simp only [BlockBody.bytes, standsAt_append_iff, FixedBytes.length_val, length_putUint64,
    length_roots, Nat.reduceAdd]

/-- The object at the front of the buffer is the block that stands there. -/
theorem blockSize_ok (hbuf : buf.length < 2 ^ 62) :
    (blockSize buf).outcome = .ok n ↔
      ∃ b : BlockBody, StandsAt buf 0 b.bytes ∧ n = b.bytes.length := by
  have htx : Delimits .short txSize := size_delimits (show Class.tx.Registered by nofun)
  simp only [blockSize, Run.bind_outcome_ok, Run.failIf_outcome_ok, uint64At_ok, Run.mul_outcome_ok,
    Run.add_outcome_ok, bytesAt_ok, Nat.reduceAdd]
  rw [blockPrefixSize, blockRootSize, mathMaxInt]
  constructor
  · rintro ⟨-, hprefix, m, hm, -, -, _, ⟨-, rfl⟩, _, ⟨-, rfl⟩, -, hroots, size, ⟨rest, ⟨hrest, hlength⟩,
      hsize⟩, _, ⟨-, rfl⟩, htail⟩
    obtain ⟨hfit, hwhole⟩ := htx.take hsize
    obtain ⟨height, bump, hbump, rfl⟩ := (blockTailSize_ok hbuf (by omega)).mp htail
    obtain ⟨header, hheader⟩ := @exists_fixedBytes buf 0 80 (by omega)
    obtain ⟨count, hcount⟩ := @exists_fixedBytes buf 80 8 (by omega)
    obtain ⟨bytes, hbytes⟩ := @exists_fixedBytes buf 88 8 (by omega)
    obtain ⟨part, hpart, hstands⟩ := @exists_standsAt _ buf 104 (m.toNat * 32) (by omega)
    obtain ⟨roots, hrootCount, rfl⟩ := FixedBytes.exists_split hpart
    rw [← List.take_append_drop size rest, standsAt_append_iff] at hrest
    obtain ⟨coinbase, hcoinbase, rfl⟩ : ∃ coinbase, rest.take size = coinbase ∧
        coinbase.length = size := ⟨_, rfl, List.length_take_of_le hfit⟩
    rw [hcoinbase] at hwhole hrest
    refine ⟨⟨header, count, bytes, roots, coinbase, height, bump, hwhole⟩, ?_, ?_⟩
    · rw [standsAt_blockBody, hrootCount, UInt64.ofNat_toNat]
      exact ⟨hheader, hcount, hbytes, hm, hstands, hrest.1, hbump⟩
    · rw [BlockBody.length_bytes, hrootCount]
  · rintro ⟨b, hstands, rfl⟩
    obtain ⟨-, -, -, hm, hroots, hcoinbase, htail⟩ := standsAt_blockBody.mp hstands
    have hreach := htail.length_le
    rw [length_tailLayout] at hreach
    have hvalue : (UInt64.ofNat b.roots.length).toNat = b.roots.length :=
      UInt64.toNat_ofNat_of_lt' (by rw [UInt64.size]; omega)
    obtain ⟨rest, hrest, hlength⟩ := hcoinbase.to_end
    refine ⟨(), by omega, _, hm, (), by omega, _, ⟨by omega, rfl⟩, _, ⟨by omega, rfl⟩, (), by omega,
      b.coinbase.length, ⟨b.coinbase ++ rest, ⟨?_, by omega⟩, htx.append b.coinbase_whole rest⟩, _,
      ⟨by omega, rfl⟩, ?_⟩
    · rwa [hvalue]
    · rw [hvalue, BlockBody.length_bytes]
      exact (blockTailSize_ok hbuf (by omega)).mpr ⟨b.height, b.bump, htail, rfl⟩

/-- A payload is a whole block when the size found is its own. -/
theorem isBlockBody_iff (hlt : payload.length < 2 ^ 62) :
    (blockSize payload).outcome = .ok payload.length ↔ IsBlockBody payload := by
  rw [blockSize_ok hlt]
  constructor
  · rintro ⟨b, hstands, hlength⟩
    refine ⟨b, ?_⟩
    rw [← hstands.take_eq, ← hlength, List.take_length]
  · rintro ⟨b, rfl⟩
    exact ⟨b, standsAt_zero_self, rfl⟩

/-! ## Stripping -/

/-- Stripping a block frame looks at the size of its payload alone. -/
theorem blockStrip_outcome {mcast : Bytes} {bf : BlockFrame}
    (hframe : (decodeBlock mcast).outcome = .ok bf) :
    (stripBytes .block mcast).outcome =
      if (blockSize bf.payload).outcome = .ok bf.payload.length then .ok bf.payload
      else .fail .notStrippable := by
  have hlt := (decodeBlock_ok.mp hframe).2.1
  have hdecode : ((decodeBlock mcast).mapError WrapError.frame).outcome = .ok bf :=
    Run.mapError_outcome_ok.mpr hframe
  rw [stripBytes, blockStrip, Run.bind_outcome_of_ok hdecode]
  cases hsize : (blockSize bf.payload).outcome with
  | ok n =>
      have hmapped : ((blockSize bf.payload).mapError fun _ => WrapError.notStrippable).outcome =
          .ok n := Run.mapError_outcome_ok.mpr hsize
      rw [Run.bind_outcome_of_ok hmapped, Run.failIf]
      by_cases heq : n = bf.payload.length
      · rw [if_neg (not_not.mpr heq), if_pos (congrArg _ heq)]
        rfl
      · rw [if_pos heq, if_neg (fun hok => heq (Outcome.ok.inj hok))]
        rfl
  | fail error =>
      rw [if_neg (by rintro ⟨⟩)]
      refine Run.bind_outcome_fail.mpr (.inl ?_)
      rw [Run.mapError, hsize]
  | panic cause =>
      exact absurd hsize (neverPanics_blockSize (by rw [addressable]; omega) cause)

theorem blockStrip_fails_iff {mcast : Bytes} {bf : BlockFrame}
    (hframe : (decodeBlock mcast).outcome = .ok bf) :
    (stripBytes .block mcast).outcome = .fail .notStrippable ↔ ¬ IsBlockBody bf.payload := by
  have hlt := (decodeBlock_ok.mp hframe).2.1
  rw [blockStrip_outcome hframe, ← isBlockBody_iff (by omega)]
  split
  · next hwhole => exact iff_of_false (by rintro ⟨⟩) (not_not.mpr hwhole)
  · next hother => exact iff_of_true rfl hother

/-! ## Announces -/

def announceLayout (a : BlockAnnouncePayload) : Bytes :=
  a.header.val ++ (a.coinbaseTxID.val ++ (putUint32 (UInt32.ofNat a.subtreeHashes.length) ++
    a.subtreeHashes.flatMap (·.val)))

theorem length_announceLayout (a : BlockAnnouncePayload) :
    (announceLayout a).length = blockAnnounceMinPayload + a.subtreeHashes.length * 32 := by
  rw [announceLayout, List.length_append, List.length_append, List.length_append, length_roots,
    FixedBytes.length_val, FixedBytes.length_val, length_putUint32, blockAnnounceMinPayload,
    Frame.blockHeaderSize]
  omega

theorem blockAnnounceWrites_layout (a : BlockAnnouncePayload) :
    Contiguous 0 (blockAnnounceWrites a) ∧ written (blockAnnounceWrites a) = announceLayout a := by
  have hone : ∀ off (h : FixedBytes 32), Contiguous off [(off, h.val)] := fun _ _ => ⟨rfl, trivial⟩
  have hval : ∀ off (h : FixedBytes 32), written [(off, h.val)] = h.val := by simp [written]
  obtain ⟨hhashes, hwritten⟩ := contiguous_items hone hval FixedBytes.length_val 116 a.subtreeHashes
  constructor
  · refine Contiguous.append (by simp [Contiguous]) ?_
    simpa [written] using hhashes
  · rw [blockAnnounceWrites, written_append, hwritten]
    simp [written, announceLayout]

theorem encodeBlockAnnounce_ok {ε : Type} {a : BlockAnnouncePayload}
    (h : (encodeBlockAnnounce a : Run ε Bytes).outcome = .ok payload) :
    payload = announceLayout a := by
  obtain ⟨hcontiguous, hwritten⟩ := blockAnnounceWrites_layout a
  obtain ⟨_, hmul, h⟩ := Run.bind_outcome_ok.mp h
  obtain ⟨-, rfl⟩ := Run.mul_outcome_ok.mp hmul
  obtain ⟨_, hadd, h⟩ := Run.bind_outcome_ok.mp h
  obtain ⟨-, rfl⟩ := Run.add_outcome_ok.mp hadd
  obtain ⟨-, -, h⟩ := Run.bind_outcome_ok.mp h
  rw [putAll_fill hcontiguous (by rw [hwritten, length_announceLayout, List.length_replicate]),
    hwritten] at h
  exact (Outcome.ok.inj h).symm

/-! ## The smallest block -/

theorem TxOut.length_bytes (output : TxOut) : 9 ≤ output.bytes.length := by
  have hpos := output.script.size.pos
  rw [TxOut.bytes, Script.bytes, List.length_append, List.length_append, FixedBytes.length_val]
  omega

theorem TxIn.length_bytes (input : TxIn) : 41 ≤ input.bytes.length := by
  have hpos := input.script.size.pos
  rw [TxIn.bytes, Script.bytes, List.length_append, List.length_append, List.length_append,
    FixedBytes.length_val, FixedBytes.length_val]
  omega

theorem Counted.length_bytes {ι : Type} {item : ι → Bytes} {width : Nat}
    (hitem : ∀ i, width ≤ (item i).length) (vector : Counted ι) :
    1 + width ≤ (vector.bytes item).length := by
  have hpos := vector.count.pos
  rw [Counted.bytes, List.length_append]
  cases hitems : vector.items with
  | nil =>
      have hzero := vector.length_items
      rw [hitems] at hzero
      exact absurd (UInt64.toNat_inj.mp hzero.symm) vector.nonempty
  | cons first rest =>
      have hfirst := hitem first
      rw [List.flatMap_cons, List.length_append]
      omega

theorem Tx.length_body {ι : Type} {item : ι → Bytes} (hitem : ∀ i, 41 ≤ (item i).length)
    (tx : Tx ι) : 56 ≤ (tx.body item).length := by
  have hinputs := tx.inputs.length_bytes hitem
  have houtputs := tx.outputs.length_bytes TxOut.length_bytes
  rw [Tx.body, List.length_append, List.length_append, FixedBytes.length_val]
  omega

theorem Derivable.length_bytes {bytes : Bytes} (h : Derivable bytes) : 60 ≤ bytes.length := by
  cases h with
  | standard tx _ =>
      have hbody := tx.length_body TxIn.length_bytes
      rw [Tx.standardBytes, List.length_append, FixedBytes.length_val]
      omega
  | extended tx =>
      have hinput : ∀ i, 41 ≤ (extendedInput i).length := by
        intro i
        have hin := i.1.length_bytes
        rw [extendedInput, List.length_append]
        omega
      have hbody := tx.length_body hinput
      rw [Tx.extendedBytes, List.length_append, List.length_append, FixedBytes.length_val]
      omega

theorem IsBlockBody.length_payload (h : IsBlockBody payload) : 180 ≤ payload.length := by
  obtain ⟨b, rfl⟩ := h
  obtain ⟨-, -, hderivable⟩ := txSize_sound b.coinbase_whole
  rw [List.take_length] at hderivable
  have hcoinbase := hderivable.length_bytes
  rw [b.length_bytes]
  omega

/-- An announce of fewer than two subtrees is too short to be laid out as a block. -/
theorem strip_refuses_short_announce {a : BlockAnnouncePayload} {mcast : Bytes} {bf : BlockFrame}
    (hframe : (decodeBlock mcast).outcome = .ok bf)
    (hpayload : (encodeBlockAnnounce a : WrapRun Bytes).outcome = .ok bf.payload)
    (hfew : a.subtreeHashes.length < 2) :
    (stripBytes .block mcast).outcome = .fail .notStrippable := by
  refine (blockStrip_fails_iff hframe).mpr fun hbody => ?_
  have hlength := hbody.length_payload
  rw [encodeBlockAnnounce_ok hpayload, length_announceLayout, blockAnnounceMinPayload,
    Frame.blockHeaderSize] at hlength
  omega

/-! ## Announces and coinbases -/

theorem encoded_block {msgType : UInt8} (htype : msgType = blockMsgAnnounce ∨ msgType = blockMsgCoinbase)
    (contentID : FixedBytes 32) (hlt : payload.length < 2 ^ 32) :
    ∃ mcast, (encoded (encodeBlock ⟨msgType, contentID, 0, 0, payload⟩) payload).outcome = .ok mcast ∧
      (decodeBlock mcast).outcome = .ok ⟨msgType, contentID, 0, 0, payload⟩ :=
  ⟨_, encoded_ok ⟨frameVerV4, msgType, contentID, 0, 0, layoutPad32⟩ hlt,
    decodeBlock_ok.mpr ⟨htype, hlt, sentProto, layoutPad32, standsAt_zero_self⟩⟩

/-- A native announce and a coinbase are refused unless they are laid out as a block themselves. -/
theorem strip_refuses_iff {mcast : Bytes} {bf : BlockFrame}
    (hframe : (decodeBlock mcast).outcome = .ok bf) :
    (∀ a, bf.msgType = blockMsgAnnounce →
      (encodeBlockAnnounce a : WrapRun Bytes).outcome = .ok bf.payload →
      ((stripBytes .block mcast).outcome = .fail .notStrippable ↔ ¬ IsBlockBody bf.payload)) ∧
    (bf.msgType = blockMsgCoinbase → (txSize bf.payload).outcome = .ok bf.payload.length →
      ((stripBytes .block mcast).outcome = .fail .notStrippable ↔ ¬ IsBlockBody bf.payload)) :=
  ⟨fun _ _ _ => blockStrip_fails_iff hframe, fun _ _ => blockStrip_fails_iff hframe⟩

/-- An announce without subtrees, and a coinbase frame with a small transaction. -/
theorem strip_refuses_iff_small :
    (∃ payload mcast, (encodeBlockAnnounce ⟨.copy 80 [], .copy 32 [], []⟩ :
        WrapRun Bytes).outcome = .ok payload ∧
      (encoded (encodeBlock ⟨blockMsgAnnounce, .copy 32 [], 0, 0, payload⟩) payload).outcome =
        .ok mcast ∧
      (stripBytes .block mcast).outcome = .fail .notStrippable) ∧
    ∃ mcast, (encoded (encodeBlock ⟨blockMsgCoinbase, .copy 32 [], 0, 0, smallTx⟩) smallTx).outcome =
        .ok mcast ∧
      (stripBytes .block mcast).outcome = .fail .notStrippable := by
  constructor
  · have hencode : (encodeBlockAnnounce ⟨.copy 80 [], .copy 32 [], []⟩ : WrapRun Bytes).outcome =
        .ok (List.replicate 116 0) := by decide +kernel
    obtain ⟨mcast, hmcast, hframe⟩ := @encoded_block (List.replicate 116 0) _ (.inl rfl) (.copy 32 [])
      (by decide)
    refine ⟨_, mcast, hencode, hmcast, ((strip_refuses_iff hframe).1 _ rfl hencode).mpr ?_⟩
    intro hbody
    exact absurd hbody.length_payload (by decide)
  · have hsize : (txSize smallTx).outcome = .ok smallTx.length := by decide +kernel
    obtain ⟨mcast, hmcast, hframe⟩ := @encoded_block smallTx _ (.inr rfl) (.copy 32 []) (by decide)
    refine ⟨mcast, hmcast, ((strip_refuses_iff hframe).2 rfl hsize).mpr ?_⟩
    intro hbody
    exact absurd hbody.length_payload (by decide)

/-- An announce of two subtrees. The end of its TxID, the count and the hashes spell a transaction
of 60 bytes, a height and an empty BUMP. -/
def announceLookalike : BlockAnnouncePayload where
  header := .copy 80 []
  coinbaseTxID := .copy 32 (List.replicate 24 0 ++ [1, 0, 0, 0, 1, 7, 7, 7])
  subtreeHashes := [.copy 32 (List.replicate 29 7 ++ [0, 0xFF, 0xFF]), .copy 32 [0xFF, 0xFF, 1]]

/-- A transaction whose script, from its 62nd byte on, holds a transaction, a height and the length
of what follows the script. -/
def coinbaseLookalike : Bytes :=
  [1, 0, 0, 0] ++ [1] ++ List.replicate 36 7 ++ [138] ++
    (List.replicate 62 0 ++ smallTx ++ List.replicate 8 0 ++ [0, 0, 0, 0, 0, 0, 0, 18]) ++
    [0xFF, 0xFF, 0xFF, 0xFF] ++ [1] ++ List.replicate 8 0 ++ [0] ++ [0, 0, 0, 0]

/-- Both are stripped, as if they were blocks. -/
theorem lookalikes_stripped :
    (∃ payload mcast, (encodeBlockAnnounce announceLookalike : WrapRun Bytes).outcome = .ok payload ∧
      (encoded (encodeBlock ⟨blockMsgAnnounce, .copy 32 [], 0, 0, payload⟩) payload).outcome =
        .ok mcast ∧
      (stripBytes .block mcast).outcome = .ok payload) ∧
    (txSize coinbaseLookalike).outcome = .ok coinbaseLookalike.length ∧
    ∃ mcast, (encoded (encodeBlock ⟨blockMsgCoinbase, .copy 32 [], 0, 0, coinbaseLookalike⟩)
        coinbaseLookalike).outcome = .ok mcast ∧
      (stripBytes .block mcast).outcome = .ok coinbaseLookalike := by
  refine ⟨?_, by decide +kernel, ?_⟩
  · have hencode : (encodeBlockAnnounce announceLookalike : WrapRun Bytes).outcome =
        .ok (announceLayout announceLookalike) := by decide +kernel
    have hsize : (blockSize (announceLayout announceLookalike)).outcome =
        .ok (announceLayout announceLookalike).length := by decide +kernel
    obtain ⟨mcast, hmcast, hframe⟩ := @encoded_block (announceLayout announceLookalike) _ (.inl rfl)
      (.copy 32 []) (by rw [length_announceLayout]; decide)
    refine ⟨_, mcast, hencode, hmcast, ?_⟩
    rw [blockStrip_outcome hframe, if_pos hsize]
  · have hsize : (blockSize coinbaseLookalike).outcome = .ok coinbaseLookalike.length := by
      decide +kernel
    obtain ⟨mcast, hmcast, hframe⟩ := @encoded_block coinbaseLookalike _ (.inr rfl) (.copy 32 [])
      (by decide +kernel)
    refine ⟨mcast, hmcast, ?_⟩
    rw [blockStrip_outcome hframe, if_pos hsize]

end ShardCommon.Objfmt
