import ShardCommon.Proof.BEEFRecord
import ShardCommon.Proof.FrameCodec
import ShardCommon.Proof.SubtreeDataLayout
import ShardCommon.Proof.TxForms

/-!
# Stripping undoes wrapping

A frame carries its object in the payload, verbatim except for subtrees, which pass through the
node list of a subtree data payload. Each class is followed up into the layout of its frame and back.
-/

namespace ShardCommon.Objfmt

open Go ShardCommon.Frame

/-- `HashKey` and `SeqNum`, as the decoder of the class's frames reads them. -/
def stamps (c : Class) (mcast : Bytes) : WrapRun (UInt64 × UInt64) :=
  match c with
  | .tx => do
    let f ← (decode mcast).mapError .frame
    pure (f.hashKey, f.seqNum)
  | .subtree => do
    let f ← (decodeSubtreeData mcast).mapError .frame
    pure (f.hashKey, f.seqNum)
  | .block => do
    let f ← (decodeBlock mcast).mapError .frame
    pure (f.hashKey, f.seqNum)
  | .beef => do
    let f ← (decodeBEEF mcast).mapError .frame
    pure (f.hashKey, f.seqNum)
  | _ => Run.fail (.objfmt .classNotRegistered)

/-- An unstamped frame that strips to the object. -/
structure Carries (c : Class) (mcast obj : Bytes) : Prop where
  strip : (stripBytes c mcast).outcome = .ok obj
  unstamped : (stamps c mcast).outcome = .ok (0, 0)

/-- The length of the frame payload for an object of `n` bytes. The header of a subtree has eight
bytes more than the two counts and totals that take its place. -/
def payloadLength : Class → Nat → Nat
  | .subtree, n => n - 8
  | _, n => n

variable {sha256 : Bytes → FixedBytes 32} {obj payload : Bytes} {n : Nat}

theorem encoded_ok (h : FrameHeader) (hlt : payload.length < 2 ^ 32) :
    (encoded (encodeFrame h payload) payload).outcome = .ok (frameLayout sentProto h payload) := by
  have hsum : headerSize + payload.length < 2 ^ 63 := by
    rw [headerSize]
    omega
  have hroom : (List.replicate (headerSize + payload.length) (0 : UInt8)).length =
      headerSize + payload.length := List.length_replicate
  have hwritten := @encodeFrame_eq _ payload h hsum (Nat.le_of_eq hroom.symm)
  rw [List.drop_of_length_le (Nat.le_of_eq hroom), List.append_nil] at hwritten
  have hmake : (Run.make 1 (headerSize + payload.length : Nat) : WrapRun Unit) =
      ⟨[headerSize + payload.length], .ok ()⟩ := Run.make_of_le (by rw [maxInt]; omega)
  rw [encoded, Run.add_of_lt hsum, pure_bind, hmake, hwritten]
  refine Run.bind_outcome_ok.mpr ⟨(), rfl, Run.bind_outcome_ok.mpr ⟨_, rfl, ?_⟩⟩
  refine bytesAt_ok.mpr ⟨standsAt_zero_self, ?_⟩
  rw [length_frameLayout, Nat.zero_add]

/-! ## Transactions -/

theorem txID_ok (hsize : (txSize obj).outcome = .ok n) : ∃ id, (txID sha256 obj).outcome = .ok id := by
  obtain ⟨-, -, hderivable⟩ := txSize_sound hsize
  generalize hbytes : obj.take n = bytes at hderivable
  cases hderivable with
  | standard tx _ => exact ⟨_, (walks_of_standard sha256 hsize hbytes).2⟩
  | extended tx => exact ⟨_, (walks_of_extended sha256 hsize hbytes).2⟩

theorem multicast_tx (hsize : (txSize obj).outcome = .ok n) (hlt : n < 2 ^ 32) :
    ∃ mcast, (multicastBytes sha256 .tx obj).outcome = .ok mcast ∧ mcast.length = headerSize + n ∧
      Carries .tx mcast (obj.take n) := by
  have htx : Class.tx.Registered := by nofun
  obtain ⟨hn, hcut⟩ := (size_delimits htx).take hsize
  have hlength : (obj.take n).length = n := List.length_take_of_le hn
  obtain ⟨id, hid⟩ := @txID_ok sha256 _ _ hcut
  have hframe : (multicastFrame sha256 .tx obj).outcome =
      .ok ⟨frameVerV2, id, 0, 0, .copy 32 [], obj.take n⟩ := by
    refine Run.bind_outcome_ok.mpr ⟨n, hsize, ?_⟩
    rw [bytesAt_front hn, pure_bind]
    exact Run.bind_outcome_ok.mpr ⟨id, hid, rfl⟩
  have hlt' : (obj.take n).length < 2 ^ 32 := by rwa [hlength]
  refine ⟨frameLayout sentProto ⟨frameVerV2, 0, id, 0, 0, .copy 32 []⟩ (obj.take n), ?_, ?_, ?_⟩
  · exact Run.bind_outcome_ok.mpr ⟨_, Run.mapError_outcome_ok.mpr hframe, encoded_ok _ hlt'⟩
  · rw [length_frameLayout, hlength]
  · have hdecode : (decode (frameLayout sentProto ⟨frameVerV2, 0, id, 0, 0, .copy 32 []⟩
        (obj.take n))).outcome = .ok ⟨frameVerV2, id, 0, 0, .copy 32 [], obj.take n⟩ :=
      decode_frameLayout rfl hlt' standsAt_zero_self
    exact ⟨Run.bind_outcome_ok.mpr ⟨_, Run.mapError_outcome_ok.mpr hdecode, rfl⟩,
      Run.bind_outcome_ok.mpr ⟨_, Run.mapError_outcome_ok.mpr hdecode, rfl⟩⟩

/-! ## Blocks -/

theorem multicast_block (hsize : (blockSize obj).outcome = .ok n) (hlt : n < 2 ^ 32) :
    ∃ mcast, (multicastBytes sha256 .block obj).outcome = .ok mcast ∧
      mcast.length = headerSize + n ∧ Carries .block mcast (obj.take n) := by
  have hblock : Class.block.Registered := by nofun
  obtain ⟨hn, hcut⟩ := (size_delimits hblock).take hsize
  have hlength : (obj.take n).length = n := List.length_take_of_le hn
  have hlt' : (obj.take n).length < 2 ^ 32 := by rwa [hlength]
  have hheader : blockHeaderBytes ≤ (obj.take n).length := by
    rw [hlength]
    obtain ⟨⟨⟩, hprefix, -⟩ := Run.bind_outcome_ok.mp hcut
    have hreach := Run.failIf_outcome_ok.mp hprefix
    rw [hlength, blockPrefixSize] at hreach
    rw [blockHeaderBytes]
    omega
  let id := sha256 (sha256 ((obj.take n).take blockHeaderBytes)).val
  let h : FrameHeader := ⟨frameVerV4, blockMsgAnnounce, id, 0, 0, layoutPad32⟩
  refine ⟨frameLayout sentProto h (obj.take n), ?_, ?_, ?_⟩
  · refine Run.bind_outcome_ok.mpr ⟨n, Run.mapError_outcome_ok.mpr hsize, ?_⟩
    rw [bytesAt_front hn, pure_bind, bytesAt_front hheader, pure_bind]
    exact encoded_ok h hlt'
  · rw [length_frameLayout, hlength]
  · have hdecode : (decodeBlock (frameLayout sentProto h (obj.take n))).outcome =
        .ok ⟨blockMsgAnnounce, id, 0, 0, obj.take n⟩ :=
      decodeBlock_ok.mpr ⟨.inl rfl, hlt', sentProto, layoutPad32, standsAt_zero_self⟩
    refine ⟨Run.bind_outcome_ok.mpr ⟨_, Run.mapError_outcome_ok.mpr hdecode, ?_⟩,
      Run.bind_outcome_ok.mpr ⟨_, Run.mapError_outcome_ok.mpr hdecode, rfl⟩⟩
    refine Run.bind_outcome_ok.mpr ⟨n, Run.mapError_outcome_ok.mpr hcut, ?_⟩
    rw [Run.failIf_neg (not_not.mpr hlength.symm)]
    rfl

/-! ## Subtrees -/

/-- A subtree push object. -/
def subtreeLayout (root : FixedBytes 32) (hashes : List (FixedBytes 32)) : Bytes :=
  root.val ++ (putUint64 (UInt64.ofNat hashes.length) ++ hashes.flatMap (·.val))

theorem length_subtreeLayout (root : FixedBytes 32) (hashes : List (FixedBytes 32)) :
    (subtreeLayout root hashes).length = subtreeHeaderSize + hashes.length * subtreeNodeSize := by
  have hhashes : (hashes.flatMap (·.val)).length = hashes.length * 32 :=
    length_flatMap_of_width FixedBytes.length_val hashes
  rw [subtreeLayout, List.length_append, List.length_append, hhashes, length_putUint64,
    FixedBytes.length_val, subtreeHeaderSize, subtreeNodeSize]
  omega

/-- The nodes of the payload that carries the hashes. -/
def hashNodes (hashes : List (FixedBytes 32)) : List SubtreeNode := hashes.map (⟨·, 0, 0⟩)

theorem exists_subtreeLayout (hsize : (subtreeSize obj).outcome = .ok n) (hn : obj.length = n) :
    ∃ root hashes, obj = subtreeLayout root hashes := by
  obtain ⟨⟨⟩, -, hsize⟩ := Run.bind_outcome_ok.mp hsize
  obtain ⟨count, hcount, hsize⟩ := Run.bind_outcome_ok.mp hsize
  obtain ⟨⟨⟩, -, hsize⟩ := Run.bind_outcome_ok.mp hsize
  obtain ⟨nodes, hnodes, hsize⟩ := Run.bind_outcome_ok.mp hsize
  obtain ⟨total, htotal, hsize⟩ := Run.bind_outcome_ok.mp hsize
  obtain ⟨⟨⟩, -, hsize⟩ := Run.bind_outcome_ok.mp hsize
  obtain rfl : total = n := Outcome.ok.inj hsize
  obtain ⟨-, rfl⟩ := Run.add_outcome_ok.mp htotal
  obtain ⟨-, rfl⟩ := Run.mul_outcome_ok.mp hnodes
  rw [subtreeHeaderSize, subtreeNodeSize] at hn
  have hcount' : StandsAt obj 32 (putUint64 count) := (uint64At_ok rfl).mp hcount
  obtain ⟨root, hroot⟩ := @exists_fixedBytes obj 0 32 (by omega)
  obtain ⟨rest, hlength, hrest⟩ := @exists_standsAt _ obj 40 (count.toNat * 32) (by omega)
  obtain ⟨hashes, hhashes, rfl⟩ := FixedBytes.exists_split hlength
  refine ⟨root, hashes, ?_⟩
  have hlayout : StandsAt obj 0 (subtreeLayout root hashes) := by
    rw [subtreeLayout, standsAt_append_iff, standsAt_append_iff, hhashes, UInt64.ofNat_toNat,
      FixedBytes.length_val, length_putUint64]
    exact ⟨hroot, hcount', hrest⟩
  have htake := hlayout.take_eq
  rw [length_subtreeLayout, hhashes, subtreeHeaderSize, subtreeNodeSize, ← hn,
    List.take_length] at htake
  exact htake

theorem subtreeNode_eq {i : Nat} (hi : subtreeHeaderSize + i * 32 + 32 ≤ obj.length) :
    subtreeNode obj i =
      pure ⟨.copy 32 ((obj.drop (subtreeHeaderSize + i * 32)).take 32), 0, 0⟩ := by
  rw [subtreeNode, subtreeNodeSize, bytesAt, Run.slice_of_le (by omega) hi, pure_bind,
    Nat.add_sub_cancel_left]

theorem standsAt_subtreeLayout (root : FixedBytes 32) (hashes : List (FixedBytes 32)) :
    StandsAt (subtreeLayout root hashes) 0 root.val ∧
      StandsAt (subtreeLayout root hashes) 32 (putUint64 (UInt64.ofNat hashes.length)) ∧
      StandsAt (subtreeLayout root hashes) 40 (hashes.flatMap (·.val)) := by
  have hself := @standsAt_zero_self _ (subtreeLayout root hashes)
  nth_rewrite 2 [subtreeLayout] at hself
  rwa [standsAt_append_iff, standsAt_append_iff, FixedBytes.length_val, length_putUint64] at hself

theorem collect_subtreeNode (root : FixedBytes 32) (hashes : List (FixedBytes 32)) :
    Run.collect (subtreeNode (subtreeLayout root hashes)) 0 hashes.length =
      pure (hashNodes hashes) := by
  have hlength := length_subtreeLayout root hashes
  rw [subtreeHeaderSize, subtreeNodeSize] at hlength
  rw [Run.collect_pure fun i _ hi => subtreeNode_eq (by rw [hlength, subtreeHeaderSize]; omega)]
  exact congrArg pure (map_range_of_items (standsAt_subtreeLayout root hashes).2.2
    FixedBytes.length_val fun off hash hat =>
      congrArg (fun h => SubtreeNode.mk h 0 0) (copy_of_standsAt hat))

/-- The subtree data payload that carries the hashes. -/
def hashesPayload (hashes : List (FixedBytes 32)) : Bytes :=
  subtreeDataLayout ⟨0, 0, hashNodes hashes, []⟩ subtreeMsgHashesOnly

theorem length_hashesPayload (hashes : List (FixedBytes 32)) :
    (hashesPayload hashes).length = 32 + hashes.length * 32 := by
  have hstride : nodeStride? subtreeMsgHashesOnly = some 32 := rfl
  rw [hashesPayload, length_subtreeDataLayout hstride, hashNodes, List.length_map,
    subtreeDataPayloadHeaderSize, List.length_nil]
  omega

def subtreeFrameHeader (root : FixedBytes 32) : FrameHeader :=
  ⟨frameVerV5, subtreeMsgHashesOnly, root, 0, 0, layoutPad32⟩

theorem subtreeMulticast_ok {root : FixedBytes 32} {hashes : List (FixedBytes 32)}
    (hsize : (subtreeSize obj).outcome = .ok n) (hn : n ≤ obj.length)
    (hobj : obj.take n = subtreeLayout root hashes) (hlt : (hashesPayload hashes).length < 2 ^ 32) :
    (subtreeMulticast obj).outcome =
      .ok (frameLayout sentProto (subtreeFrameHeader root) (hashesPayload hashes)) := by
  obtain ⟨hroot, hcount, -⟩ := standsAt_subtreeLayout root hashes
  have hlength := length_hashesPayload hashes
  have hvalue : (UInt64.ofNat hashes.length).toNat = hashes.length :=
    UInt64.toNat_ofNat_of_lt' (show hashes.length < 2 ^ 64 by omega)
  have hmake : (Run.make 48 (hashes.length : Nat) : WrapRun Unit).outcome = .ok () := by
    rw [Run.make_of_le (by rw [maxInt]; omega)]
  have hpayload : (encodeSubtreeDataPayload ⟨0, 0, hashNodes hashes, []⟩
      subtreeMsgHashesOnly).outcome = .ok (hashesPayload hashes) :=
    encodeSubtreeDataPayload_ok rfl (by rw [← hashesPayload]; omega)
  refine Run.bind_outcome_ok.mpr ⟨n, Run.mapError_outcome_ok.mpr hsize, ?_⟩
  rw [bytesAt_front hn, pure_bind, hobj]
  refine Run.bind_outcome_ok.mpr ⟨root, (copyAt_ok rfl).mpr hroot, ?_⟩
  refine Run.bind_outcome_ok.mpr ⟨_, (uint64At_ok rfl).mpr hcount, ?_⟩
  rw [hvalue]
  refine Run.bind_outcome_ok.mpr ⟨(), hmake, ?_⟩
  rw [collect_subtreeNode, pure_bind]
  refine Run.bind_outcome_ok.mpr ⟨_, Run.mapError_outcome_ok.mpr hpayload, ?_⟩
  exact encoded_ok (subtreeFrameHeader root) hlt

theorem subtreeWrites_layout (root : FixedBytes 32) (hashes : List (FixedBytes 32)) :
    Contiguous 0 (subtreeWrites root (hashNodes hashes)) ∧
      written (subtreeWrites root (hashNodes hashes)) = subtreeLayout root hashes := by
  have hone : ∀ off (node : SubtreeNode), Contiguous off [(off, node.txHash.val)] :=
    fun _ _ => ⟨rfl, trivial⟩
  have hval : ∀ off (node : SubtreeNode), written [(off, node.txHash.val)] = node.txHash.val := by
    simp [written]
  obtain ⟨hnodes, hwritten⟩ := contiguous_items hone hval (fun node => FixedBytes.length_val node.txHash)
    subtreeHeaderSize (hashNodes hashes)
  constructor
  · refine Contiguous.append (by simp [Contiguous]) ?_
    simpa [written, subtreeHeaderSize, subtreeNodeSize] using hnodes
  · have hhashes : (hashNodes hashes).flatMap (fun node => node.txHash.val) =
        hashes.flatMap (·.val) := List.flatMap_map ..
    rw [subtreeWrites, written_append, subtreeNodeSize, hwritten, hhashes]
    simp [written, subtreeLayout, hashNodes]

theorem carries_subtree (root : FixedBytes 32) {hashes : List (FixedBytes 32)}
    (hlt : (hashesPayload hashes).length < 2 ^ 32) :
    Carries .subtree (frameLayout sentProto (subtreeFrameHeader root) (hashesPayload hashes))
      (subtreeLayout root hashes) := by
  have hframe : (decodeSubtreeData (frameLayout sentProto (subtreeFrameHeader root)
      (hashesPayload hashes))).outcome =
      .ok ⟨subtreeMsgHashesOnly, root, 0, 0, hashesPayload hashes⟩ :=
    decodeSubtreeData_ok.mpr ⟨.inl rfl, hlt, sentProto, layoutPad32, standsAt_zero_self⟩
  have hcarried : (hashNodes hashes).map (SubtreeNode.carried subtreeMsgHashesOnly) =
      hashNodes hashes := by
    rw [hashNodes, List.map_map]
    rfl
  have hpayload : (decodeSubtreeDataPayload (hashesPayload hashes) subtreeMsgHashesOnly).outcome =
      .ok ⟨0, 0, hashNodes hashes, []⟩ := by
    have hdecode := @decodeSubtreeDataPayload_layout _ _ _ ⟨0, 0, hashNodes hashes, []⟩ rfl
      (Nat.lt_trans hlt (by decide)) (@standsAt_zero_self _ (hashesPayload hashes))
    rwa [hcarried] at hdecode
  have hcount : (hashNodes hashes).length = hashes.length := List.length_map ..
  have hlength := length_hashesPayload hashes
  have hsize : (Run.mul (hashNodes hashes).length subtreeNodeSize : WrapRun Nat) =
      pure (hashes.length * subtreeNodeSize) := by
    rw [hcount]
    exact Run.mul_of_lt (by rw [subtreeNodeSize]; omega)
  have hmake : (Run.make 1 (subtreeHeaderSize + hashes.length * subtreeNodeSize : Nat) :
      WrapRun Unit).outcome = .ok () := by
    rw [Run.make_of_le (by rw [subtreeHeaderSize, subtreeNodeSize, maxInt]; omega)]
  obtain ⟨hcontiguous, hwritten⟩ := subtreeWrites_layout root hashes
  refine ⟨Run.bind_outcome_ok.mpr ⟨_, Run.mapError_outcome_ok.mpr hframe, ?_⟩,
    Run.bind_outcome_ok.mpr ⟨_, Run.mapError_outcome_ok.mpr hframe, rfl⟩⟩
  refine Run.bind_outcome_ok.mpr ⟨_, Run.mapError_outcome_ok.mpr hpayload, ?_⟩
  rw [hsize, pure_bind, Run.add_of_lt (by rw [subtreeHeaderSize, subtreeNodeSize]; omega), pure_bind]
  refine Run.bind_outcome_ok.mpr ⟨(), hmake, ?_⟩
  rw [putAll_fill hcontiguous (by rw [hwritten, length_subtreeLayout, List.length_replicate]), hwritten]
  rfl

theorem multicast_subtree (hsize : (subtreeSize obj).outcome = .ok n) (hlt : n - 8 < 2 ^ 32) :
    ∃ mcast, (multicastBytes sha256 .subtree obj).outcome = .ok mcast ∧
      mcast.length = headerSize + (n - 8) ∧ Carries .subtree mcast (obj.take n) := by
  have hsubtree : Class.subtree.Registered := by nofun
  obtain ⟨hn, hcut⟩ := (size_delimits hsubtree).take hsize
  have hlength : (obj.take n).length = n := List.length_take_of_le hn
  obtain ⟨root, hashes, hobj⟩ := exists_subtreeLayout hcut hlength
  have hpayload : (hashesPayload hashes).length = n - 8 := by
    rw [hobj, length_subtreeLayout, subtreeHeaderSize, subtreeNodeSize] at hlength
    rw [length_hashesPayload]
    omega
  have hlt' : (hashesPayload hashes).length < 2 ^ 32 := by rwa [hpayload]
  refine ⟨_, subtreeMulticast_ok hsize hn hobj hlt', ?_, ?_⟩
  · rw [length_frameLayout, hpayload]
  · rw [hobj]
    exact carries_subtree root hlt'

/-! ## Submission records -/

/-- The header of a record's frame: its content, its first topic and how many are deliverable. -/
def beefHeader (sha256 : Bytes → FixedBytes 32) (r : BEEFRecord) (first : Bytes)
    (deliverCount : Int) : FrameHeader :=
  ⟨frameVerV9, clampDeliverCount r.topics.length deliverCount, contentID sha256 r.layout, 0, 0,
    topicID sha256 first⟩

theorem beefMulticastRecord_ok {r : BEEFRecord} {first : Bytes} (deliverCount : Int) (hr : r.Valid)
    (hfirst : r.topics[0]? = some first) (hlt : r.layout.length < 2 ^ 32) :
    (beefMulticastRecord sha256 r.layout deliverCount).outcome =
      .ok (frameLayout sentProto (beefHeader sha256 r first deliverCount) r.layout) := by
  have hrecord := decodeBEEFRecord_of_layout hr standsAt_zero_self
  have hindex : (Run.index r.topics (0 : Nat) : WrapRun Bytes).outcome = .ok first :=
    index_outcome_ok_iff.mpr (standsAt_singleton_iff.mpr hfirst)
  refine Run.bind_outcome_ok.mpr ⟨_, Run.mapError_outcome_ok.mpr hrecord, ?_⟩
  rw [Run.failIf_neg (not_not.mpr rfl), pure_bind]
  exact Run.bind_outcome_ok.mpr ⟨first, hindex, encoded_ok _ hlt⟩

theorem multicast_beef {rec : Bytes} (deliverCount : Int)
    (hsize : (beefRecordSize rec).outcome = .ok rec.length) (hlt : rec.length < 2 ^ 32) :
    ∃ mcast, (beefMulticastRecord sha256 rec deliverCount).outcome = .ok mcast ∧
      mcast.length = headerSize + rec.length ∧ Carries .beef mcast rec := by
  obtain ⟨r, hr, hstands, hlength⟩ := beefRecordSize_ok.mp hsize
  obtain rfl : rec = r.layout := by
    rw [← hstands.take_eq, ← hlength, List.take_length]
  have hpos : 0 < r.topics.length := hr.count.1
  have hfirst : r.topics[0]? = some r.topics[0] := List.getElem?_eq_getElem hpos
  let h := beefHeader sha256 r r.topics[0] deliverCount
  refine ⟨frameLayout sentProto h r.layout, beefMulticastRecord_ok deliverCount hr hfirst hlt,
    length_frameLayout .., ?_⟩
  let f : BEEFFrame := ⟨h.id, 0, 0, h.field56, h.byte7, r.layout⟩
  have hdecode : (decodeBEEF (frameLayout sentProto h r.layout)).outcome = .ok f :=
    decodeBEEF_ok.mpr ⟨hlt, sentProto, standsAt_zero_self⟩
  exact ⟨Run.bind_outcome_ok.mpr ⟨f, Run.mapError_outcome_ok.mpr hdecode, rfl⟩,
    Run.bind_outcome_ok.mpr ⟨f, Run.mapError_outcome_ok.mpr hdecode, rfl⟩⟩

/-! ## Every push class -/

theorem strip_undoes_multicast (sha256 : Bytes → FixedBytes 32) :
    (∀ c ∈ [Class.tx, .subtree, .block], ∀ obj n, (size c obj).outcome = .ok n →
      payloadLength c n < 2 ^ 32 →
      ∃ mcast, (multicastBytes sha256 c obj).outcome = .ok mcast ∧
        mcast.length = headerSize + payloadLength c n ∧ Carries c mcast (obj.take n)) ∧
    ∀ rec deliverCount, (beefRecordSize rec).outcome = .ok rec.length → rec.length < 2 ^ 32 →
      ∃ mcast, (beefMulticastRecord sha256 rec deliverCount).outcome = .ok mcast ∧
        mcast.length = headerSize + rec.length ∧ Carries .beef mcast rec := by
  constructor
  · intro c hc obj n hsize hlt
    simp only [List.mem_cons, List.not_mem_nil, or_false] at hc
    rcases hc with rfl | rfl | rfl
    · exact multicast_tx hsize hlt
    · exact multicast_subtree hsize hlt
    · exact multicast_block hsize hlt
  · intro rec deliverCount hsize hlt
    exact multicast_beef deliverCount hsize hlt

/-- A subtree of one node. -/
def smallSubtree : Bytes := List.replicate 32 7 ++ [0, 0, 0, 0, 0, 0, 0, 1] ++ List.replicate 32 9

theorem smallSubtree_stripped :
    (size .subtree (smallSubtree ++ [5])).outcome = .ok 72 ∧ payloadLength .subtree 72 < 2 ^ 32 ∧
      ∃ mcast, (multicastBytes (FixedBytes.copy 32) .subtree (smallSubtree ++ [5])).outcome =
        .ok mcast ∧ (stripBytes .subtree mcast).outcome = .ok smallSubtree := by
  have hsize : (size .subtree (smallSubtree ++ [5])).outcome = .ok 72 := by decide +kernel
  have hlt : payloadLength .subtree 72 < 2 ^ 32 := by decide
  obtain ⟨mcast, hmcast, -, hcarries⟩ := (strip_undoes_multicast (FixedBytes.copy 32)).1 .subtree
    (by simp) (smallSubtree ++ [5]) 72 hsize hlt
  exact ⟨hsize, hlt, mcast, hmcast, hcarries.strip⟩

end ShardCommon.Objfmt
