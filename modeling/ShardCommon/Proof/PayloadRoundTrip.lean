import ShardCommon.Proof.BlockStrip
import ShardCommon.Proof.SubtreeDataLayout

/-!
# Subtree data and block announce payloads, there and back

Both decoders read back what the encoders wrote, whatever follows it, and what they accept is the
encoding of the value they return. A hashes-only payload does not carry fees and sizes.
-/

namespace ShardCommon.Frame

open Go Objfmt

variable {payload part : Bytes} {msgType : UInt8} {stride off : Nat}

/-! ## Subtree data -/

/-- Every string of a node's width is a node. -/
theorem exists_node (hstride : nodeStride? msgType = some stride) (h : part.length = stride) :
    ∃ node, nodeLayout msgType node = part ∧ node.carried msgType = node := by
  rcases stride_cases hstride with ⟨rfl, rfl⟩ | ⟨rfl, rfl⟩
  · refine ⟨⟨⟨part, h⟩, 0, 0⟩, ?_, rfl⟩
    exact List.append_nil part
  · have hhash : (part.take 32).length = 32 := by rw [List.length_take, h]; rfl
    have hfee : ((part.drop 32).take 8).length = 8 := by
      rw [List.length_take, List.length_drop, h]; rfl
    have hsize : (part.drop 40).length = 8 := by rw [List.length_drop, h]
    refine ⟨⟨⟨part.take 32, hhash⟩, uint64 ((part.drop 32).take 8), uint64 (part.drop 40)⟩, ?_, rfl⟩
    have hrest : part.drop 40 = (part.drop 32).drop 8 := by rw [List.drop_drop]
    rw [nodeLayout, if_pos rfl, putUint64_uint64 hfee, putUint64_uint64 hsize, hrest,
      List.take_append_drop, List.take_append_drop]

theorem standsAt_uint64 (h : off + 8 ≤ payload.length) :
    StandsAt payload off (putUint64 (uint64 ((payload.drop off).take 8))) := by
  rw [putUint64_uint64 (by rw [List.length_take, List.length_drop]; omega)]
  exact standsAt_take h

/-- A payload that holds what it declares starts with the layout of some value. -/
theorem exists_subtreeDataLayout (hstride : nodeStride? msgType = some stride)
    (h : conflictsEnd payload stride ≤ payload.length) :
    ∃ p : SubtreeDataPayload, p.nodes.map (SubtreeNode.carried msgType) = p.nodes ∧
      StandsAt payload 0 (subtreeDataLayout p msgType) := by
  have hends := nodesEnd_le_conflictsEnd payload stride
  have hnodesEnd : nodesEnd payload stride = 24 + declaredNodes payload * stride := rfl
  have hconflictsEnd : conflictsEnd payload stride =
    nodesEnd payload stride + 8 + declaredConflicts payload stride * 32 := rfl
  obtain ⟨nodePart, hnodeLength, hnodePart⟩ :=
    @exists_standsAt _ payload 24 (declaredNodes payload * stride) (by omega)
  obtain ⟨nodes, hnodes, hcarried, rfl⟩ := exists_items (fun _ => exists_node hstride) hnodeLength
  obtain ⟨hashPart, hhashLength, hhashPart⟩ := @exists_standsAt _ payload
    (nodesEnd payload stride + 8) (declaredConflicts payload stride * 32) (by omega)
  obtain ⟨hashes, hhashes, rfl⟩ := FixedBytes.exists_split hhashLength
  refine ⟨⟨uint64 ((payload.drop 0).take 8), uint64 ((payload.drop 8).take 8), nodes, hashes⟩, ?_, ?_⟩
  · exact (List.map_congr_left hcarried).trans (List.map_id _)
  · have hcount : UInt64.ofNat (declaredNodes payload) = uint64 ((payload.drop 16).take 8) :=
      UInt64.ofNat_toNat
    have hcount' : UInt64.ofNat (declaredConflicts payload stride) =
        uint64 ((payload.drop (nodesEnd payload stride)).take 8) := UInt64.ofNat_toNat
    simp only [subtreeDataLayout, standsAt_append_iff, length_putUint64, List.length_append,
      length_flatMap_of_width (length_nodeLayout hstride), Nat.zero_add, Nat.reduceAdd, hnodes,
      hhashes, hcount, hcount', ← hnodesEnd]
    exact ⟨⟨standsAt_uint64 (by omega), standsAt_uint64 (by omega), standsAt_uint64 (by omega)⟩,
      hnodePart, standsAt_uint64 (by omega), hhashPart⟩

/-- What is sent and read again, with anything behind it. -/
theorem subtreeData_there_and_back {p : SubtreeDataPayload}
    (hstride : nodeStride? msgType = some stride)
    (hsize : 24 + p.nodes.length * stride + 8 + p.conflictHashes.length * 32 < 2 ^ 62)
    (t : Bytes) : ∃ out, (encodeSubtreeDataPayload p msgType).outcome = .ok out ∧
      (decodeSubtreeDataPayload (out ++ t) msgType).outcome =
        .ok { p with nodes := p.nodes.map (SubtreeNode.carried msgType) } := by
  have hsum : (subtreeDataLayout p msgType).length < 2 ^ 63 := by
    rw [length_subtreeDataLayout hstride, subtreeDataPayloadHeaderSize]
    omega
  exact ⟨_, encodeSubtreeDataPayload_ok hstride hsum,
    decodeSubtreeDataPayload_layout hstride hsum (standsAt_zero_self.append_right t)⟩

/-- What is read and sent again. -/
theorem subtreeData_reencodes {p : SubtreeDataPayload} (hlen : payload.length < 2 ^ 63)
    (hstride : nodeStride? msgType = some stride)
    (hp : (decodeSubtreeDataPayload payload msgType).outcome = .ok p)
    (hfits : conflictsEnd payload stride ≤ payload.length) :
    ∃ out, (encodeSubtreeDataPayload p msgType).outcome = .ok out ∧ out <+: payload := by
  obtain ⟨q, hcarried, hq⟩ := exists_subtreeDataLayout hstride hfits
  have hsum : (subtreeDataLayout q msgType).length < 2 ^ 63 := by
    have hle := hq.length_le
    omega
  have hdecoded := decodeSubtreeDataPayload_layout hstride hsum hq
  rw [hp, hcarried] at hdecoded
  cases hdecoded
  exact ⟨_, encodeSubtreeDataPayload_ok hstride hsum, standsAt_zero_iff.mp hq⟩

/-! ## Block announces -/

theorem encodeBlockAnnounce_eq {ε : Type} {a : BlockAnnouncePayload}
    (h : a.subtreeHashes.length < 2 ^ 32) :
    (encodeBlockAnnounce a : Run ε Bytes).outcome = .ok (announceLayout a) := by
  obtain ⟨hcontiguous, hwritten⟩ := blockAnnounceWrites_layout a
  have hmin : blockAnnounceMinPayload = 116 := rfl
  rw [encodeBlockAnnounce, Run.mul_of_lt (by omega), pure_bind, Run.add_of_lt (by omega), pure_bind,
    Run.make_of_le (by rw [maxInt]; omega),
    putAll_fill hcontiguous (by rw [hwritten, length_announceLayout, List.length_replicate]),
    hwritten]
  rfl

theorem collect_subtreeHashes {hashes : List (FixedBytes 32)}
    (h : StandsAt payload 116 (hashes.flatMap (·.val))) :
    Run.collect (decodeSubtreeHash payload) 0 hashes.length = pure hashes := by
  have hlength := h.length_le
  rw [length_roots] at hlength
  have hround : ∀ i, 0 ≤ i → i < 0 + hashes.length → decodeSubtreeHash payload i =
      pure (.copy 32 ((payload.drop (116 + i * 32)).take 32)) := by
    intro i _ hi
    rw [decodeSubtreeHash, bytesAt, Run.slice_of_le (by omega) (by omega), Nat.add_sub_cancel_left]
    rfl
  rw [Run.collect_pure hround,
    map_range_of_items h FixedBytes.length_val (fun _ _ => copy_of_standsAt), List.map_id']

theorem decodeBlockAnnounce_layout {a : BlockAnnouncePayload}
    (hlt : a.subtreeHashes.length < 2 ^ 32) (h : StandsAt payload 0 (announceLayout a)) :
    (decodeBlockAnnounce payload).outcome = .ok a := by
  have hlength := h.length_le
  rw [length_announceLayout] at hlength
  have hcount : (UInt32.ofNat a.subtreeHashes.length).toNat = a.subtreeHashes.length :=
    UInt32.toNat_ofNat_of_lt' hlt
  simp only [announceLayout, standsAt_append_iff, FixedBytes.length_val, length_putUint32,
    Nat.reduceAdd] at h
  obtain ⟨hheader, hcoinbase, hdeclared, hhashes⟩ := h
  simp only [decodeBlockAnnounce, Run.bind_outcome_ok, Run.failIf_outcome_ok, uint32At_ok, copyAt_ok,
    Nat.reduceAdd]
  refine ⟨(), by omega, _, hdeclared, (), by omega, _, hheader, _, hcoinbase, ?_⟩
  rw [hcount, collect_subtreeHashes hhashes, Run.make_of_le (by rw [maxInt]; omega)]
  split
  · rfl
  · next hzero =>
      rw [UInt32.lt_iff_toNat_lt, hcount] at hzero
      have hnil : a.subtreeHashes = [] := List.length_eq_zero_iff.mp (Nat.eq_zero_of_not_pos hzero)
      rw [Run.pure_outcome, ← hnil]

/-- An announce is accepted exactly when it stands at the front of the payload. -/
theorem decodeBlockAnnounce_ok {a : BlockAnnouncePayload} :
    (decodeBlockAnnounce payload).outcome = .ok a ↔
      a.subtreeHashes.length < 2 ^ 32 ∧ StandsAt payload 0 (announceLayout a) := by
  refine ⟨fun ha => ?_, fun h => decodeBlockAnnounce_layout h.1 h.2⟩
  have hmin : blockAnnounceMinPayload = 116 := rfl
  have hfound := ha
  simp only [decodeBlockAnnounce, Run.bind_outcome_ok, Run.failIf_outcome_ok, uint32At_ok, copyAt_ok,
    Nat.reduceAdd] at hfound
  obtain ⟨-, hroom, count, hcount, -, hheld, header, hheader, coinbase, hcoinbase, -⟩ := hfound
  obtain ⟨hashPart, hlength, hhashPart⟩ :=
    @exists_standsAt _ payload 116 (count.toNat * 32) (by omega)
  obtain ⟨hashes, hhashes, rfl⟩ := FixedBytes.exists_split hlength
  have hlt : hashes.length < 2 ^ 32 := by
    rw [hhashes]
    exact count.toNat_lt
  have hstands : StandsAt payload 0 (announceLayout ⟨header, coinbase, hashes⟩) := by
    simp only [announceLayout, standsAt_append_iff, FixedBytes.length_val, length_putUint32,
      Nat.reduceAdd, hhashes, UInt32.ofNat_toNat]
    exact ⟨hheader, hcoinbase, hcount, hhashPart⟩
  have hdecoded := decodeBlockAnnounce_layout hlt hstands
  rw [ha] at hdecoded
  cases hdecoded
  exact ⟨hlt, hstands⟩

/-! ## Both -/

/-- What the encoders write is read back, whatever follows it, and what the decoders accept starts
with the encoding of the value they return; a Go slice is never longer than `2 ^ 63 - 1`. -/
theorem payloads_there_and_back :
    (∀ (p : SubtreeDataPayload) (t : Bytes),
      (24 + p.nodes.length * 48 + 8 + p.conflictHashes.length * 32 < 2 ^ 62 →
        ∃ out, (encodeSubtreeDataPayload p subtreeMsgFullNodes).outcome = .ok out ∧
          (decodeSubtreeDataPayload (out ++ t) subtreeMsgFullNodes).outcome = .ok p) ∧
      (24 + p.nodes.length * 32 + 8 + p.conflictHashes.length * 32 < 2 ^ 62 →
        ∃ out, (encodeSubtreeDataPayload p subtreeMsgHashesOnly).outcome = .ok out ∧
          (decodeSubtreeDataPayload (out ++ t) subtreeMsgHashesOnly).outcome =
            .ok { p with nodes := p.nodes.map fun node => { node with fee := 0, size := 0 } })) ∧
    (∀ (a : BlockAnnouncePayload) (t : Bytes), a.subtreeHashes.length < 2 ^ 32 →
      ∃ out, (encodeBlockAnnounce a : Run BlockAnnounceError Bytes).outcome = .ok out ∧
        (decodeBlockAnnounce (out ++ t)).outcome = .ok a) ∧
    (∀ (payload : Bytes) (msgType : UInt8) (stride : Nat) (p : SubtreeDataPayload),
      payload.length < 2 ^ 63 → nodeStride? msgType = some stride →
      (decodeSubtreeDataPayload payload msgType).outcome = .ok p →
      conflictsEnd payload stride ≤ payload.length →
      ∃ out, (encodeSubtreeDataPayload p msgType).outcome = .ok out ∧ out <+: payload) ∧
    ∀ (payload : Bytes) (a : BlockAnnouncePayload), (decodeBlockAnnounce payload).outcome = .ok a →
      ∃ out, (encodeBlockAnnounce a : Run BlockAnnounceError Bytes).outcome = .ok out ∧
        out <+: payload := by
  refine ⟨?_, ?_, ?_, ?_⟩
  · intro p t
    refine ⟨fun hsize => ?_, fun hsize => subtreeData_there_and_back rfl hsize t⟩
    obtain ⟨out, hout, hread⟩ := @subtreeData_there_and_back subtreeMsgFullNodes 48 p rfl hsize t
    have hcarried : p.nodes.map (SubtreeNode.carried subtreeMsgFullNodes) = p.nodes := List.map_id _
    rw [hcarried] at hread
    exact ⟨out, hout, hread⟩
  · intro a t hlt
    exact ⟨_, encodeBlockAnnounce_eq hlt,
      decodeBlockAnnounce_layout hlt (standsAt_zero_self.append_right t)⟩
  · intro payload msgType stride p hlen hstride hp hfits
    exact subtreeData_reencodes hlen hstride hp hfits
  · intro payload a ha
    obtain ⟨hlt, hstands⟩ := decodeBlockAnnounce_ok.mp ha
    exact ⟨_, encodeBlockAnnounce_eq hlt, standsAt_zero_iff.mp hstands⟩

/-- Two nodes and a conflict, sent with fees and sizes and without them. -/
theorem payloads_there_and_back_two :
    (∃ out, (encodeSubtreeDataPayload
        ⟨9, 700, [⟨.copy 32 [1], 4, 300⟩, ⟨.copy 32 [2], 5, 400⟩], [.copy 32 [3]]⟩
        subtreeMsgHashesOnly).outcome = .ok out ∧
      (decodeSubtreeDataPayload (out ++ [7]) subtreeMsgHashesOnly).outcome =
        .ok ⟨9, 700, [⟨.copy 32 [1], 0, 0⟩, ⟨.copy 32 [2], 0, 0⟩], [.copy 32 [3]]⟩) ∧
    (∃ out, (encodeBlockAnnounce ⟨.copy 80 [1], .copy 32 [2], [.copy 32 [3]]⟩ :
        Run BlockAnnounceError Bytes).outcome = .ok out ∧
      (decodeBlockAnnounce (out ++ [7])).outcome =
        .ok ⟨.copy 80 [1], .copy 32 [2], [.copy 32 [3]]⟩) ∧
    ∃ out, (encodeSubtreeDataPayload ⟨0, 0, [], []⟩ subtreeMsgFullNodes).outcome = .ok out ∧
      out <+: List.replicate 33 0 :=
  ⟨(payloads_there_and_back.1 _ [7]).2 (by decide), payloads_there_and_back.2.1 _ [7] (by decide),
    payloads_there_and_back.2.2.1 _ subtreeMsgFullNodes 48 _ (by decide) rfl (by decide +kernel)
      (by decide +kernel)⟩

end ShardCommon.Frame
