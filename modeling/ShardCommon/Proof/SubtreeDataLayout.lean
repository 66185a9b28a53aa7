import ShardCommon.Proof.SubtreeDataPayload

/-!
# The layout of a subtree data payload

The encoder writes the layout of its payload, and the decoder reads the payload back from a buffer
that starts with the layout, up to the fees and sizes that a hashes-only payload does not carry.
-/

namespace ShardCommon.Frame

open Go

variable {payload : Bytes} {msgType : UInt8} {stride : Nat} {p : SubtreeDataPayload}

def nodeLayout (msgType : UInt8) (node : SubtreeNode) : Bytes :=
  node.txHash.val ++
    if msgType = subtreeMsgFullNodes then putUint64 node.fee ++ putUint64 node.size else []

def subtreeDataLayout (p : SubtreeDataPayload) (msgType : UInt8) : Bytes :=
  (putUint64 p.totalFees ++ (putUint64 p.totalSizeBytes ++
    putUint64 (UInt64.ofNat p.nodes.length))) ++ (p.nodes.flatMap (nodeLayout msgType) ++
      (putUint64 (UInt64.ofNat p.conflictHashes.length) ++ p.conflictHashes.flatMap (·.val)))

/-- The node as a payload of the type carries it. -/
def SubtreeNode.carried (msgType : UInt8) (node : SubtreeNode) : SubtreeNode :=
  if msgType = subtreeMsgFullNodes then node else ⟨node.txHash, 0, 0⟩

theorem length_nodeLayout (hstride : nodeStride? msgType = some stride) (node : SubtreeNode) :
    (nodeLayout msgType node).length = stride := by
  rcases stride_cases hstride with ⟨rfl, rfl⟩ | ⟨rfl, rfl⟩ <;>
    simp [nodeLayout, subtreeMsgHashesOnly, subtreeMsgFullNodes]

theorem length_subtreeDataLayout (hstride : nodeStride? msgType = some stride) :
    (subtreeDataLayout p msgType).length =
      subtreeDataPayloadHeaderSize + p.nodes.length * stride + 8 + p.conflictHashes.length * 32 := by
  have hhashes : (p.conflictHashes.flatMap (·.val)).length = p.conflictHashes.length * 32 :=
    length_flatMap_of_width FixedBytes.length_val _
  simp only [subtreeDataLayout, List.length_append, length_putUint64, hhashes,
    length_flatMap_of_width (length_nodeLayout hstride), subtreeDataPayloadHeaderSize]
  omega

/-! ## Encoding -/

theorem written_nodeWrites (msgType : UInt8) (off : Nat) (node : SubtreeNode) :
    written (nodeWrites msgType off node) = nodeLayout msgType node := by
  rw [nodeWrites, nodeLayout]
  split <;> simp [written]

theorem contiguous_nodeWrites (msgType : UInt8) (off : Nat) (node : SubtreeNode) :
    Contiguous off (nodeWrites msgType off node) := by
  rw [nodeWrites]
  split <;> simp [Contiguous]

theorem payloadWrites_layout (hstride : nodeStride? msgType = some stride) :
    Contiguous 0 (payloadWrites p msgType stride) ∧
      written (payloadWrites p msgType stride) = subtreeDataLayout p msgType := by
  obtain ⟨hnodes, hnodesWritten⟩ := contiguous_items (contiguous_nodeWrites msgType)
    (written_nodeWrites msgType) (length_nodeLayout hstride) subtreeDataPayloadHeaderSize p.nodes
  have hone : ∀ off (h : FixedBytes 32), Contiguous off [(off, h.val)] := fun _ _ => ⟨rfl, trivial⟩
  have hval : ∀ off (h : FixedBytes 32), written [(off, h.val)] = h.val := by simp [written]
  obtain ⟨hconflicts, hconflictsWritten⟩ := contiguous_items hone hval FixedBytes.length_val
    (subtreeDataPayloadHeaderSize + p.nodes.length * stride + 8) p.conflictHashes
  have hlength := length_flatMap_of_width (length_nodeLayout hstride) p.nodes
  constructor
  · refine Contiguous.append (Contiguous.append (Contiguous.append ?_ ?_) ?_) ?_
    · simp [Contiguous]
    · simpa [written, subtreeDataPayloadHeaderSize] using hnodes
    · refine ⟨?_, trivial⟩
      rw [written_append, hnodesWritten, List.length_append, hlength]
      simp [written, subtreeDataPayloadHeaderSize]
    · rw [written_append, written_append, hnodesWritten, List.length_append, List.length_append,
        hlength]
      simpa [written, subtreeDataPayloadHeaderSize] using hconflicts
  · rw [payloadWrites, written_append, written_append, written_append, hnodesWritten,
      hconflictsWritten]
    simp [written, subtreeDataLayout]

theorem encodeSubtreeDataPayload_ok (hstride : nodeStride? msgType = some stride)
    (hsum : (subtreeDataLayout p msgType).length < 2 ^ 63) :
    (encodeSubtreeDataPayload p msgType).outcome = .ok (subtreeDataLayout p msgType) := by
  obtain ⟨hcontiguous, hwritten⟩ := @payloadWrites_layout msgType stride p hstride
  have hlength := @length_subtreeDataLayout msgType stride p hstride
  rw [hlength] at hsum
  generalize hsize : subtreeDataPayloadHeaderSize + p.nodes.length * stride + 8 +
    p.conflictHashes.length * 32 = size at hsum hlength
  have hfill : (Run.putAll (List.replicate size 0) (payloadWrites p msgType stride) :
      Run SubtreeDataError Bytes) = pure (subtreeDataLayout p msgType) := by
    rw [putAll_fill hcontiguous (by rw [hwritten, hlength, List.length_replicate]), hwritten]
  rw [encodeSubtreeDataPayload, hstride]
  dsimp only
  rw [Run.mul_of_lt (by omega), pure_bind, Run.add_of_lt (by omega), pure_bind,
    Run.add_of_lt (by omega), pure_bind, Run.mul_of_lt (by omega), pure_bind,
    Run.add_of_lt (by omega), pure_bind, hsize, hfill, Run.make_of_le (by rw [maxInt]; omega)]
  rfl

/-! ## Decoding -/

theorem uint64_of_standsAt {off : Nat} {v : UInt64} (h : StandsAt payload off (putUint64 v)) :
    uint64 ((payload.drop off).take 8) = v := by
  have heq := h.eq_take
  rw [length_putUint64] at heq
  rw [← heq, uint64_putUint64]

theorem copy_of_standsAt {off : Nat} {array : FixedBytes 32} (h : StandsAt payload off array.val) :
    FixedBytes.copy 32 ((payload.drop off).take 32) = array := by
  have heq := h.eq_take
  rw [FixedBytes.length_val] at heq
  rw [← heq, FixedBytes.copy_self]

theorem nodeAt_of_standsAt {off : Nat} {node : SubtreeNode}
    (h : StandsAt payload off (nodeLayout msgType node)) :
    nodeAt payload msgType off = node.carried msgType := by
  obtain ⟨hhash, hrest⟩ := standsAt_append_iff.mp h
  rw [FixedBytes.length_val] at hrest
  rw [nodeAt, SubtreeNode.carried, copy_of_standsAt hhash]
  split
  · next hfull =>
      rw [if_pos hfull] at hrest
      obtain ⟨hfee, hsize⟩ := standsAt_append_iff.mp hrest
      rw [length_putUint64] at hsize
      rw [uint64_of_standsAt hfee, uint64_of_standsAt hsize]
  · rfl

/-- Items of one width, read back by their index. -/
theorem map_range_of_items {β γ : Type} {layout : β → Bytes} {width off : Nat} {items : List β}
    {read : Nat → γ} {value : β → γ} (h : StandsAt payload off (items.flatMap layout))
    (hwidth : ∀ b, (layout b).length = width)
    (hread : ∀ at' b, StandsAt payload at' (layout b) → read at' = value b) :
    (List.range' 0 items.length).map (fun i => read (off + i * width)) = items.map value := by
  apply List.ext_getElem
  · simp
  · intro i hi hi'
    rw [List.length_map, List.length_range'] at hi
    simp only [List.getElem_map, List.getElem_range', Nat.zero_add, Nat.one_mul]
    exact hread _ _ (h.item hwidth hi)

theorem decodeSubtreeDataPayload_layout (hstride : nodeStride? msgType = some stride)
    (hsum : (subtreeDataLayout p msgType).length < 2 ^ 63)
    (h : StandsAt payload 0 (subtreeDataLayout p msgType)) :
    (decodeSubtreeDataPayload payload msgType).outcome =
      .ok { p with nodes := p.nodes.map (SubtreeNode.carried msgType) } := by
  have hlength := @length_subtreeDataLayout msgType stride p hstride
  have hheld := h.length_le
  rw [subtreeDataPayloadHeaderSize] at hlength
  have hcounts : p.nodes.length * 32 ≤ p.nodes.length * stride :=
    Nat.mul_le_mul_left _ (stride_le hstride)
  have hnodeCount : (UInt64.ofNat p.nodes.length).toNat = p.nodes.length :=
    UInt64.toNat_ofNat_of_lt' (show p.nodes.length < 2 ^ 64 by omega)
  have hconflictCount : (UInt64.ofNat p.conflictHashes.length).toNat = p.conflictHashes.length :=
    UInt64.toNat_ofNat_of_lt' (show p.conflictHashes.length < 2 ^ 64 by omega)
  simp only [subtreeDataLayout, standsAt_append_iff, length_putUint64, List.length_append,
    length_flatMap_of_width (length_nodeLayout hstride), Nat.zero_add, Nat.reduceAdd] at h
  obtain ⟨⟨hfees, hsize, hcount⟩, hnodes, hconflicts, hhashes⟩ := h
  have hdeclared : declaredNodes payload = p.nodes.length := by
    rw [declaredNodes, uint64_of_standsAt hcount, hnodeCount]
  have hend : nodesEnd payload stride = 24 + p.nodes.length * stride := by
    rw [nodesEnd, hdeclared, subtreeDataPayloadHeaderSize]
  have hdeclared' : declaredConflicts payload stride = p.conflictHashes.length := by
    rw [declaredConflicts, hend, uint64_of_standsAt hconflicts, hconflictCount]
  have hends : conflictsEnd payload stride = (subtreeDataLayout p msgType).length := by
    rw [conflictsEnd, hend, hdeclared', hlength]
  have hfees' := uint64_of_standsAt hfees
  rw [List.drop_zero] at hfees'
  rw [decode_of_fits hstride (by omega) (by omega), hfees', uint64_of_standsAt hsize, hdeclared, hdeclared', hend,
    subtreeDataPayloadHeaderSize,
    map_range_of_items hnodes (length_nodeLayout hstride) (fun _ _ => nodeAt_of_standsAt),
    map_range_of_items hhashes FixedBytes.length_val (fun _ _ => copy_of_standsAt), List.map_id']

end ShardCommon.Frame
