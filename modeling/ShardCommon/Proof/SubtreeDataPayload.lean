import ShardCommon.SubtreeDataPayload

/-!
# What the subtree data decoder accepts

The decoder compares the payload's length with two sizes computed from declared counts. Both sizes
are right up to a multiple of `2 ^ 64`, so the decoder is exact as long as that multiple hides no
shortfall, and a payload with a hidden shortfall always breaks it.
-/

namespace ShardCommon.Frame

open Go

variable {payload : Bytes} {msgType : UInt8} {stride : Nat}

/-! ## The declared sizes, in unbounded arithmetic -/

def declaredNodes (payload : Bytes) : Nat := (uint64 ((payload.drop 16).take 8)).toNat

def nodesEnd (payload : Bytes) (stride : Nat) : Nat :=
  subtreeDataPayloadHeaderSize + declaredNodes payload * stride

def declaredConflicts (payload : Bytes) (stride : Nat) : Nat :=
  (uint64 ((payload.drop (nodesEnd payload stride)).take 8)).toNat

def conflictsEnd (payload : Bytes) (stride : Nat) : Nat :=
  nodesEnd payload stride + 8 + declaredConflicts payload stride * 32

/-- The decoder as its callers need it: no panic, no more memory than the payload accounts for, and
a value exactly for the payloads that hold what they declare. -/
structure DecodesExactly (payload : Bytes) (msgType : UInt8) (stride : Nat) : Prop where
  noPanic : ∀ cause, (decodeSubtreeDataPayload payload msgType).outcome ≠ .panic cause
  makes : (decodeSubtreeDataPayload payload msgType).made.length ≤ 2
  nodesHeld : ∀ count, (decodeSubtreeDataPayload payload msgType).made[0]? = some count →
    count * stride ≤ payload.length
  conflictsHeld : ∀ count, (decodeSubtreeDataPayload payload msgType).made[1]? = some count →
    count * 32 ≤ payload.length
  accepts : (∃ value, (decodeSubtreeDataPayload payload msgType).outcome = .ok value) ↔
    conflictsEnd payload stride ≤ payload.length
  counts : ∀ value, (decodeSubtreeDataPayload payload msgType).outcome = .ok value →
    value.nodes.length = declaredNodes payload ∧
      value.conflictHashes.length = declaredConflicts payload stride

/-- A declared size is harmless for a payload when it fits a signed 64-bit integer, or when what is
left of it modulo `2 ^ 64` does and still exceeds the payload. -/
def SizeHarmless (length size : Nat) : Prop :=
  size < 2 ^ 63 ∨ length < size % 2 ^ 64 ∧ size % 2 ^ 64 < 2 ^ 63

/-- Both declared sizes are harmless; the second one counts only when the first is held. -/
def SizesHarmless (payload : Bytes) (stride : Nat) : Prop :=
  SizeHarmless payload.length (nodesEnd payload stride + 8) ∧
    (nodesEnd payload stride + 8 ≤ payload.length →
      SizeHarmless payload.length (conflictsEnd payload stride))

/-- A harmless size is one whose shortfall the wrapped comparison still sees. -/
theorem sizeHarmless_iff {length : Nat} (hlen : length < 2 ^ 63) (size : Nat) :
    SizeHarmless length size ↔ (length < size → (length : Int) < wrap64 size) := by
  rw [SizeHarmless, wrap64]
  omega

theorem stride_cases (hstride : nodeStride? msgType = some stride) :
    msgType = subtreeMsgHashesOnly ∧ stride = 32 ∨ msgType = subtreeMsgFullNodes ∧ stride = 48 := by
  rw [nodeStride?] at hstride
  split at hstride
  · left
    exact ⟨by assumption, (Option.some.inj hstride).symm⟩
  · split at hstride
    · right
      exact ⟨by assumption, (Option.some.inj hstride).symm⟩
    · cases hstride

/-! ## The decoder after its header -/

/-- What is left to do once the header is read, with the wrapped sizes in closed form. -/
def decodeBody (payload : Bytes) (msgType : UInt8) (stride : Nat) :
    Run SubtreeDataError SubtreeDataPayload :=
  let nodesEnd64 := wrap64 (nodesEnd payload stride)
  if payload.length < wrap64 (nodesEnd payload stride + 8) then
    Run.fail (.tooShortForNodes (uint64 ((payload.drop 16).take 8)) payload.length
      (wrap64 (nodesEnd payload stride + 8)))
  else do
    Run.make 48 (declaredNodes payload)
    let nodes ← Run.collect (decodeNode payload msgType stride) 0 (declaredNodes payload)
    let conflictCount ← uint64 <$>
      Run.slice payload nodesEnd64 (wrap64 (nodesEnd payload stride + 8))
    let end64 := wrap64 (nodesEnd payload stride + 8 + conflictCount.toNat * 32)
    if payload.length < end64 then
      Run.fail (.tooShortForConflicts conflictCount payload.length end64)
    else
      Run.make 32 conflictCount.toNat
      let conflicts ← Run.collect (decodeConflict payload nodesEnd64) 0 conflictCount.toNat
      pure ⟨uint64 (payload.take 8), uint64 ((payload.drop 8).take 8), nodes, conflicts⟩

theorem decode_of_short (h : payload.length < subtreeDataPayloadHeaderSize) :
    decodeSubtreeDataPayload payload msgType = Run.fail (.tooShort payload.length) := by
  rw [decodeSubtreeDataPayload, if_pos h]

theorem slice_header (lo hi : Nat) (hlo : lo ≤ hi) (hhi : hi ≤ 24)
    (h : subtreeDataPayloadHeaderSize ≤ payload.length) :
    (Run.slice payload lo hi : Run SubtreeDataError Bytes) =
      pure ((payload.drop lo).take (hi - lo)) :=
  Run.slice_of_le hlo (Nat.le_trans hhi h)

theorem decode_of_header (h : subtreeDataPayloadHeaderSize ≤ payload.length)
    (hstride : nodeStride? msgType = some stride) :
    decodeSubtreeDataPayload payload msgType = decodeBody payload msgType stride := by
  have hfees := slice_header 0 8 (by decide) (by decide) h
  have hsize := slice_header 8 16 (by decide) (by decide) h
  have hcount := slice_header 16 24 (by decide) (by decide) h
  simp only [Nat.cast_ofNat, Nat.cast_zero] at hfees hsize hcount
  rw [decodeSubtreeDataPayload, if_neg (Nat.not_lt.mpr h), hfees, hsize, hcount]
  simp only [pure_bind, map_pure, hstride, wrap64_wrap64_mul, wrap64_add_wrap64, wrap64_wrap64_add,
    decodeBody, nodesEnd, declaredNodes, List.drop_zero, Nat.sub_zero, Nat.reduceSub,
    Nat.cast_add, Nat.cast_mul]

/-! ## Payloads that hold their nodes -/

def nodeAt (payload : Bytes) (msgType : UInt8) (off : Nat) : SubtreeNode :=
  if msgType = subtreeMsgFullNodes then
    ⟨.copy 32 ((payload.drop off).take 32), uint64 ((payload.drop (off + 32)).take 8),
      uint64 ((payload.drop (off + 40)).take 8)⟩
  else ⟨.copy 32 ((payload.drop off).take 32), 0, 0⟩

theorem wrap64_natCast {n : Nat} (h : n < 2 ^ 63) : wrap64 n = n := by
  apply wrap64_of_range <;> omega

theorem decodeNode_eq (hstride : nodeStride? msgType = some stride) {i : Nat}
    (hsize : subtreeDataPayloadHeaderSize + i * stride + stride < 2 ^ 63)
    (h : subtreeDataPayloadHeaderSize + i * stride + stride ≤ payload.length) :
    decodeNode payload msgType stride i =
      pure (nodeAt payload msgType (subtreeDataPayloadHeaderSize + i * stride)) := by
  have hoff : wrap64 (subtreeDataPayloadHeaderSize + wrap64 (wrap64 i * stride)) =
      (subtreeDataPayloadHeaderSize + i * stride : Nat) := by
    rw [wrap64_wrap64_mul, wrap64_add_wrap64]
    have hsmall : subtreeDataPayloadHeaderSize + i * stride < 2 ^ 63 := by omega
    simpa using wrap64_natCast hsmall
  rw [decodeNode, hoff]
  generalize subtreeDataPayloadHeaderSize + i * stride = off at hsize h
  -- the slices of a node end at most one stride behind its start
  have hadd : ∀ k : Nat, k ≤ stride → wrap64 ((off : Int) + k) = (off + k : Nat) := by
    intro k hk
    simpa using wrap64_natCast (n := off + k) (by omega)
  rcases stride_cases hstride with ⟨rfl, rfl⟩ | ⟨rfl, rfl⟩
  · have h32 := hadd 32 (by omega)
    simp only [Nat.cast_ofNat] at h32
    simp only [h32, nodeAt, subtreeMsgHashesOnly, subtreeMsgFullNodes]
    rw [Run.slice_of_le (by omega) (by omega)]
    simp
  · have h32 := hadd 32 (by omega)
    have h40 := hadd 40 (by omega)
    have h48 := hadd 48 (by omega)
    simp only [Nat.cast_ofNat] at h32 h40 h48
    simp only [h32, h40, h48, nodeAt, if_true]
    rw [Run.slice_of_le (by omega) (by omega), Run.slice_of_le (by omega) (by omega),
      Run.slice_of_le (by omega) (by omega)]
    simp

theorem decodeNodes_eq (hstride : nodeStride? msgType = some stride)
    (hsize : nodesEnd payload stride < 2 ^ 63) (h : nodesEnd payload stride ≤ payload.length) :
    Run.collect (decodeNode payload msgType stride) 0 (declaredNodes payload) =
      pure ((List.range' 0 (declaredNodes payload)).map fun i =>
        nodeAt payload msgType (subtreeDataPayloadHeaderSize + i * stride)) := by
  apply Run.collect_pure
  intro i _ hi
  have hmul : (i + 1) * stride ≤ declaredNodes payload * stride :=
    Nat.mul_le_mul_right stride (by omega)
  rw [Nat.succ_mul] at hmul
  rw [nodesEnd] at hsize h
  exact decodeNode_eq hstride (by omega) (by omega)

theorem decodeConflicts_eq {start count : Nat} (hsize : start + 8 + count * 32 < 2 ^ 63)
    (h : start + 8 + count * 32 ≤ payload.length) :
    Run.collect (decodeConflict payload start) 0 count =
      pure ((List.range' 0 count).map fun i =>
        FixedBytes.copy 32 ((payload.drop (start + 8 + i * 32)).take 32)) := by
  apply Run.collect_pure
  intro i _ hi
  have hoff : wrap64 (wrap64 ((start : Int) + 8) + wrap64 (wrap64 i * 32)) =
      (start + 8 + i * 32 : Nat) := by
    rw [wrap64_wrap64_mul, wrap64_add_wrap64, wrap64_wrap64_add]
    have hsmall : start + 8 + i * 32 < 2 ^ 63 := by omega
    simpa using wrap64_natCast hsmall
  have hend : wrap64 (((start + 8 + i * 32 : Nat) : Int) + 32) =
      (start + 8 + i * 32 + 32 : Nat) := by
    have hsmall : start + 8 + i * 32 + 32 < 2 ^ 63 := by omega
    simpa using wrap64_natCast hsmall
  simp only [decodeConflict, hoff, hend]
  rw [Run.slice_of_le (by omega) (by omega)]
  simp

/-- The size checks behind the nodes, once the nodes are known to fit. -/
theorem decodeBody_of_nodes (hstride : nodeStride? msgType = some stride)
    (hsize : nodesEnd payload stride + 8 < 2 ^ 63) (h : nodesEnd payload stride + 8 ≤ payload.length) :
    decodeBody payload msgType stride = (do
      Run.make 48 (declaredNodes payload)
      if payload.length < wrap64 (conflictsEnd payload stride) then
        Run.fail (.tooShortForConflicts (uint64 ((payload.drop (nodesEnd payload stride)).take 8))
          payload.length (wrap64 (conflictsEnd payload stride)))
      else
        Run.make 32 (declaredConflicts payload stride)
        let conflicts ← Run.collect (decodeConflict payload (nodesEnd payload stride)) 0
          (declaredConflicts payload stride)
        pure ⟨uint64 (payload.take 8), uint64 ((payload.drop 8).take 8),
          (List.range' 0 (declaredNodes payload)).map fun i =>
            nodeAt payload msgType (subtreeDataPayloadHeaderSize + i * stride), conflicts⟩) := by
  have hend : wrap64 (nodesEnd payload stride) = nodesEnd payload stride :=
    wrap64_natCast (by omega)
  have hend8 : wrap64 ((nodesEnd payload stride : Int) + 8) = (nodesEnd payload stride + 8 : Nat) := by
    simpa using wrap64_natCast (n := nodesEnd payload stride + 8) (by omega)
  rw [decodeBody, hend, hend8, if_neg (by omega), decodeNodes_eq hstride (by omega) (by omega),
    Run.slice_of_le (by omega) h]
  simp [conflictsEnd, declaredConflicts]

/-! ## The three ends of a call -/

theorem decode_of_nodes_missing (h : subtreeDataPayloadHeaderSize ≤ payload.length)
    (hstride : nodeStride? msgType = some stride)
    (hseen : (payload.length : Int) < wrap64 (nodesEnd payload stride + 8)) :
    ∃ error, decodeSubtreeDataPayload payload msgType = Run.fail error := by
  rw [decode_of_header h hstride, decodeBody]
  exact ⟨_, if_pos hseen⟩

/-- What takes up 32 bytes of the payload takes up at most 48 in memory. -/
theorem make_declared {count width : Nat} (hwidth : width ≤ 48) (hsize : count * 32 < 2 ^ 63) :
    (Run.make width count : Run SubtreeDataError Unit) = ⟨[count], .ok ()⟩ := by
  apply Run.make_of_le
  have hle : count * width ≤ count * 48 := Nat.mul_le_mul_left count hwidth
  rw [maxInt]
  omega

theorem stride_le (hstride : nodeStride? msgType = some stride) : 32 ≤ stride := by
  rcases stride_cases hstride with ⟨_, rfl⟩ | ⟨_, rfl⟩ <;> decide

theorem make_nodes (hstride : nodeStride? msgType = some stride)
    (hsize : nodesEnd payload stride + 8 < 2 ^ 63) :
    (Run.make 48 (declaredNodes payload) : Run SubtreeDataError Unit) =
      ⟨[declaredNodes payload], .ok ()⟩ := by
  apply make_declared (Nat.le_refl 48)
  have hle : declaredNodes payload * 32 ≤ declaredNodes payload * stride :=
    Nat.mul_le_mul_left _ (stride_le hstride)
  rw [nodesEnd] at hsize
  omega

theorem decode_of_conflicts_missing (hlen : payload.length < 2 ^ 63)
    (hstride : nodeStride? msgType = some stride)
    (h : nodesEnd payload stride + 8 ≤ payload.length)
    (hseen : (payload.length : Int) < wrap64 (conflictsEnd payload stride)) :
    ∃ error, decodeSubtreeDataPayload payload msgType =
      ⟨[declaredNodes payload], .fail error⟩ := by
  have hheader : subtreeDataPayloadHeaderSize ≤ payload.length := by
    rw [nodesEnd] at h
    omega
  rw [decode_of_header hheader hstride, decodeBody_of_nodes hstride (by omega) h,
    make_nodes hstride (by omega), if_pos hseen]
  exact ⟨_, rfl⟩

theorem nodesEnd_le_conflictsEnd (payload : Bytes) (stride : Nat) :
    nodesEnd payload stride + 8 ≤ conflictsEnd payload stride := by
  rw [conflictsEnd]
  omega

theorem decode_of_fits (hstride : nodeStride? msgType = some stride)
    (hsize : conflictsEnd payload stride < 2 ^ 63) (h : conflictsEnd payload stride ≤ payload.length) :
    decodeSubtreeDataPayload payload msgType =
      ⟨[declaredNodes payload, declaredConflicts payload stride], .ok
        ⟨uint64 (payload.take 8), uint64 ((payload.drop 8).take 8),
          (List.range' 0 (declaredNodes payload)).map fun i =>
            nodeAt payload msgType (subtreeDataPayloadHeaderSize + i * stride),
          (List.range' 0 (declaredConflicts payload stride)).map fun i =>
            .copy 32 ((payload.drop (nodesEnd payload stride + 8 + i * 32)).take 32)⟩⟩ := by
  have hends := nodesEnd_le_conflictsEnd payload stride
  have hheader : subtreeDataPayloadHeaderSize ≤ payload.length := by
    rw [nodesEnd] at hends
    omega
  have hseen : ¬ (payload.length : Int) < wrap64 (conflictsEnd payload stride) := by
    rw [wrap64_natCast hsize]
    omega
  have hmake : (Run.make 32 (declaredConflicts payload stride) : Run SubtreeDataError Unit) =
      ⟨[declaredConflicts payload stride], .ok ()⟩ := by
    apply make_declared (by decide)
    rw [conflictsEnd] at hsize
    omega
  rw [decode_of_header hheader hstride, decodeBody_of_nodes hstride (by omega) (by omega),
    make_nodes hstride (by omega), if_neg hseen, hmake]
  rw [conflictsEnd] at hsize h
  rw [decodeConflicts_eq hsize h]
  rfl

theorem decodesExactly_of_fail {made : List Nat} {error : SubtreeDataError}
    (hrun : decodeSubtreeDataPayload payload msgType = ⟨made, .fail error⟩)
    (hmakes : made.length ≤ 1)
    (hheld : ∀ count, made[0]? = some count → count * stride ≤ payload.length)
    (hshort : payload.length < conflictsEnd payload stride) :
    DecodesExactly payload msgType stride := by
  constructor <;> rw [hrun]
  · intro cause hcause
    cases hcause
  · exact Nat.le_succ_of_le hmakes
  · exact hheld
  · intro count hcount
    simp [List.getElem?_eq_none hmakes] at hcount
  · constructor
    · rintro ⟨value, hvalue⟩
      cases hvalue
    · omega
  · intro value hvalue
    cases hvalue

theorem decodesExactly_of_fits (hlen : payload.length < 2 ^ 63)
    (hstride : nodeStride? msgType = some stride)
    (h : conflictsEnd payload stride ≤ payload.length) :
    DecodesExactly payload msgType stride := by
  have hnodes : declaredNodes payload * stride ≤ payload.length := by
    rw [conflictsEnd, nodesEnd] at h
    omega
  have hconflicts : declaredConflicts payload stride * 32 ≤ payload.length := by
    rw [conflictsEnd] at h
    omega
  constructor <;> rw [decode_of_fits hstride (by omega) h]
  · intro cause hcause
    cases hcause
  · exact Nat.le_refl 2
  · rintro count ⟨⟩
    exact hnodes
  · rintro count ⟨⟩
    exact hconflicts
  · exact iff_of_true ⟨_, rfl⟩ h
  · rintro value ⟨⟩
    simp

theorem decodesExactly_of_harmless (hlen : payload.length < 2 ^ 63)
    (hstride : nodeStride? msgType = some stride) (hsizes : SizesHarmless payload stride) :
    DecodesExactly payload msgType stride := by
  have hends := nodesEnd_le_conflictsEnd payload stride
  by_cases hheader : payload.length < subtreeDataPayloadHeaderSize
  · apply decodesExactly_of_fail (decode_of_short hheader) (Nat.zero_le 1)
    · rintro count ⟨⟩
    · rw [nodesEnd] at hends
      omega
  by_cases hnodes : payload.length < nodesEnd payload stride + 8
  · obtain ⟨error, hrun⟩ := decode_of_nodes_missing (Nat.not_lt.mp hheader) hstride
      (by simpa using (sizeHarmless_iff hlen _).mp hsizes.1 hnodes)
    apply decodesExactly_of_fail hrun (Nat.zero_le 1)
    · rintro count ⟨⟩
    · omega
  by_cases hconflicts : payload.length < conflictsEnd payload stride
  · obtain ⟨error, hrun⟩ := decode_of_conflicts_missing hlen hstride (Nat.not_lt.mp hnodes)
      ((sizeHarmless_iff hlen _).mp (hsizes.2 (Nat.not_lt.mp hnodes)) hconflicts)
    apply decodesExactly_of_fail hrun (Nat.le_refl 1)
    · rintro count ⟨⟩
      rw [nodesEnd] at hnodes
      omega
    · exact hconflicts
  · exact decodesExactly_of_fits hlen hstride (Nat.not_lt.mp hconflicts)

/-! ## A hidden shortfall breaks the decoder -/

theorem DecodesExactly.fails (h : DecodesExactly payload msgType stride)
    (hshort : payload.length < conflictsEnd payload stride) :
    ∃ error, (decodeSubtreeDataPayload payload msgType).outcome = .fail error := by
  cases houtcome : (decodeSubtreeDataPayload payload msgType).outcome with
  | ok value => exact absurd (h.accepts.mp ⟨value, houtcome⟩) (Nat.not_le.mpr hshort)
  | fail error => exact ⟨error, rfl⟩
  | panic cause => exact absurd houtcome (h.noPanic cause)

theorem neverFails_decodeNode (payload : Bytes) (msgType : UInt8) (stride i : Nat) :
    (decodeNode payload msgType stride i).NeverFails := by
  rw [decodeNode]
  apply (Run.neverFails_slice _ _ _).bind
  intro txHash
  split
  · apply (Run.neverFails_slice _ _ _).bind
    intro fee
    apply (Run.neverFails_slice _ _ _).bind
    intro size
    apply Run.neverFails_pure
  · apply Run.neverFails_pure

theorem neverFails_decodeConflict (payload : Bytes) (start : Int) (i : Nat) :
    (decodeConflict payload start i).NeverFails := by
  rw [decodeConflict]
  apply (Run.neverFails_slice _ _ _).bind
  intro hash
  apply Run.neverFails_pure

/-- A header cut short spells a count too small to overflow anything. -/
theorem nodesEnd_of_short (hstride : nodeStride? msgType = some stride)
    (h : payload.length < subtreeDataPayloadHeaderSize) :
    nodesEnd payload stride + 8 < 2 ^ 63 := by
  have hlength : ((payload.drop 16).take 8).length ≤ 7 := by
    rw [subtreeDataPayloadHeaderSize] at h
    simp
    omega
  have hcount : declaredNodes payload < 256 ^ 7 := by
    calc declaredNodes payload
        ≤ BigEndian.toNat ((payload.drop 16).take 8) := by
          rw [declaredNodes, uint64, UInt64.toNat_ofNat']
          apply Nat.mod_le
      _ < 256 ^ ((payload.drop 16).take 8).length := BigEndian.toNat_lt _
      _ ≤ 256 ^ 7 := Nat.pow_le_pow_right (by decide) hlength
  rw [nodesEnd, subtreeDataPayloadHeaderSize]
  rcases stride_cases hstride with ⟨_, rfl⟩ | ⟨_, rfl⟩ <;> omega

theorem le_of_wrapped_slice {start length : Nat} (hlen : length < 2 ^ 63)
    (hsmall : start ≤ length + 24) (hlow : 0 ≤ wrap64 start)
    (horder : wrap64 start ≤ wrap64 ((start : Int) + 8))
    (hhigh : wrap64 ((start : Int) + 8) ≤ length) : start + 8 ≤ length := by
  simp only [wrap64] at hlow horder hhigh
  omega

/-- A call that gets past `make` and the node loop to an error has sliced out the conflict count. -/
theorem slice_of_fail {error : SubtreeDataError} {width count : Nat} {low high : Int} {β : Type}
    {round : Nat → Run SubtreeDataError SubtreeNode} (hround : ∀ i, (round i).NeverFails)
    {last : List SubtreeNode → UInt64 → Run SubtreeDataError β} {run : Run SubtreeDataError β}
    (hrun : run = (do
      Run.make width count
      let nodes ← Run.collect round 0 count
      let conflictCount ← uint64 <$> Run.slice payload low high
      last nodes conflictCount))
    (hfail : run.outcome = .fail error) :
    run.made[0]? = some count ∧ 0 ≤ low ∧ low ≤ high ∧ high ≤ payload.length := by
  subst hrun
  obtain ⟨_, hmake, hrest⟩ := (Run.neverFails_make _ _).ok_of_bind_fail hfail
  obtain ⟨_, _, hcount⟩ := (Run.neverFails_collect hround _ _).ok_of_bind_fail hrest
  obtain ⟨_, hslice, _⟩ := ((Run.neverFails_slice _ _ _).map _).ok_of_bind_fail hcount
  rw [← bind_pure_comp] at hslice
  obtain ⟨_, hpart, _⟩ := Run.bind_outcome_ok.mp hslice
  refine ⟨?_, Run.slice_outcome_ok hpart⟩
  rw [Run.bind_made_of_ok hmake, Run.make_outcome_ok hmake]
  simp

/-- Past the first check, the call can only return an error when the nodes were really there. -/
theorem nodes_held_of_fail {error : SubtreeDataError} (hlen : payload.length < 2 ^ 63)
    (h : DecodesExactly payload msgType stride)
    (hbody : decodeSubtreeDataPayload payload msgType = decodeBody payload msgType stride)
    (hpassed : ¬ (payload.length : Int) < wrap64 (nodesEnd payload stride + 8))
    (hfail : (decodeSubtreeDataPayload payload msgType).outcome = .fail error) :
    nodesEnd payload stride + 8 ≤ payload.length := by
  rw [decodeBody, if_neg hpassed] at hbody
  obtain ⟨hmade, hlow, horder, hhigh⟩ :=
    slice_of_fail (neverFails_decodeNode payload msgType stride) hbody hfail
  have hcount := h.nodesHeld (declaredNodes payload) hmade
  -- the slice was in range, so neither of its ends had wrapped
  apply le_of_wrapped_slice hlen _ hlow horder hhigh
  rw [nodesEnd, subtreeDataPayloadHeaderSize]
  omega

theorem sizesHarmless_of_exact (hlen : payload.length < 2 ^ 63)
    (hstride : nodeStride? msgType = some stride) (h : DecodesExactly payload msgType stride) :
    SizesHarmless payload stride := by
  have hends := nodesEnd_le_conflictsEnd payload stride
  constructor
  · rw [sizeHarmless_iff hlen, Nat.cast_add, Nat.cast_ofNat]
    intro hshort
    by_contra hpassed
    have hheader : subtreeDataPayloadHeaderSize ≤ payload.length := by
      by_contra hheader
      have hsmall := nodesEnd_of_short hstride (Nat.not_le.mp hheader)
      have hwrap : wrap64 ((nodesEnd payload stride : Int) + 8) = nodesEnd payload stride + 8 := by
        simpa using wrap64_natCast hsmall
      omega
    obtain ⟨error, hfail⟩ := h.fails (by omega)
    have := nodes_held_of_fail hlen h (decode_of_header hheader hstride) hpassed hfail
    omega
  · intro hnodes
    rw [sizeHarmless_iff hlen]
    intro hshort
    by_contra hpassed
    obtain ⟨error, hfail⟩ := h.fails hshort
    have hheader : subtreeDataPayloadHeaderSize ≤ payload.length := by
      rw [nodesEnd] at hnodes
      omega
    rw [decode_of_header hheader hstride, decodeBody_of_nodes hstride (by omega) hnodes,
      if_neg hpassed] at hfail
    -- nothing behind the second check returns an error
    refine absurd hfail (Run.NeverFails.bind (Run.neverFails_make _ _) (fun _ => ?_) error)
    apply (Run.neverFails_make _ _).bind
    intro _
    apply (Run.neverFails_collect (neverFails_decodeConflict payload _) _ _).bind
    intro conflicts
    apply Run.neverFails_pure

/-- The decoder is total and exact on precisely the payloads whose declared sizes are harmless; a Go
slice is never longer than `2 ^ 63 - 1`. -/
theorem decodesExactly_iff_sizesHarmless (hlen : payload.length < 2 ^ 63)
    (hstride : nodeStride? msgType = some stride) :
    DecodesExactly payload msgType stride ↔ SizesHarmless payload stride :=
  ⟨sizesHarmless_of_exact hlen hstride, decodesExactly_of_harmless hlen hstride⟩

theorem decodesExactly_empty_subtree :
    DecodesExactly (List.replicate 32 0) subtreeMsgHashesOnly 32 := by
  apply (decodesExactly_iff_sizesHarmless (by decide) (by decide)).mpr
  exact ⟨Or.inl (by decide), fun _ => Or.inl (by decide)⟩

/-- A 32-byte payload that declares `2 ^ 59` hashes: `2 ^ 59 * 32` wraps to zero, and as many nodes
have no size in memory. -/
def wrappedCountPayload : Bytes :=
  List.replicate 16 0 ++ [8, 0, 0, 0, 0, 0, 0, 0] ++ List.replicate 8 0

theorem decode_wrappedCountPayload_panics :
    decodeSubtreeDataPayload wrappedCountPayload subtreeMsgHashesOnly =
        Run.panic .makeLenOutOfRange ∧
      ¬ DecodesExactly wrappedCountPayload subtreeMsgHashesOnly 32 := by
  have hrun : decodeSubtreeDataPayload wrappedCountPayload subtreeMsgHashesOnly =
      Run.panic .makeLenOutOfRange := by
    have hcount : declaredNodes wrappedCountPayload = 2 ^ 59 := by decide
    have hmake : (Run.make 48 (2 ^ 59 : Nat) : Run SubtreeDataError Unit) =
        Run.panic .makeLenOutOfRange := by
      rw [Run.make, if_neg (by decide)]
    rw [decode_of_header (by decide) (by decide : nodeStride? _ = some 32), decodeBody,
      if_neg (by decide), hcount, hmake, Run.panic_bind]
  refine ⟨hrun, fun h => h.noPanic .makeLenOutOfRange ?_⟩
  rw [hrun]
  rfl

end ShardCommon.Frame
