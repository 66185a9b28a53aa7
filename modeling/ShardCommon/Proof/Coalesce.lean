import ShardCommon.Proof.BundleCodec
import ShardCommon.Proof.ShardEngine

/-!
# Conservation, bounds and sequencing of the coalescer

A call is described flow by flow: the bundles of a flow are the greedy chunks of its frames, stamped
with the numbers that follow the flow's counter. Everything else is read off that description.

The coalescer tells flows apart by a `FlowKey`, which holds the low 16 bits of the group index. Up to
16 bits of width these are the flows of the group index itself; at 17 bits two groups share a key.
-/

namespace ShardCommon.Bundles

open Go ShardCommon.Frame Keyed

/-- The flow of a bundle that was emitted for a sender. -/
def Bundle.flow (b : Bundle) (sender : FixedBytes 16) : FlowKey :=
  ⟨sender, b.groupIdx, b.subtreeID⟩

def Bundle.encodedLen (b : Bundle) : Nat := headerSize + b.memberSectionLen

/-- The frame as a member. -/
def asMember (f : Frame.Frame) : Member := ⟨f.txID, f.payload⟩

/-- One call of `Coalesce`. -/
structure Call where
  sender : FixedBytes 16
  frames : List Frame.Frame

namespace Coalescer

variable (c : Coalescer) (xxh64 : Bytes → UInt64)

/-- The members of a call by their flows, in arrival order. -/
def keyed (sender : FixedBytes 16) (frames : List Frame.Frame) : List (FlowKey × Member) :=
  frames.map fun f => (c.flowKey sender f, asMember f)

/-- The chunks of a call by their flows, in the order in which they are emitted. -/
def chunked (sender : FixedBytes 16) (frames : List Frame.Frame) : List (FlowKey × List Member) :=
  (c.buckets sender frames).buckets.flatMap fun bucket =>
    (c.filler.chunks bucket.2).map fun chunk => (bucket.1, chunk)

theorem sorts_buckets (sender : FixedBytes 16) (frames : List Frame.Frame) :
    (c.buckets sender frames).Sorts (c.keyed sender frames) := by
  have hsorts := Buckets.sorts_foldl (c.keyed sender frames)
  rwa [keyed, List.foldl_map] at hsorts

theorem items_chunked (sender : FixedBytes 16) (frames : List Frame.Frame) (k : FlowKey) :
    items k (c.chunked sender frames) = c.filler.chunks (items k (c.keyed sender frames)) :=
  (c.sorts_buckets sender frames).items_flatMap c.filler.chunks_nil k

theorem items_keyed (sender : FixedBytes 16) (frames : List Frame.Frame) (k : FlowKey) :
    items k (c.keyed sender frames) =
      (frames.filter fun f => c.flowKey sender f = k).map asMember := by
  rw [items, keyed, List.filter_map, List.map_map]
  rfl

theorem foldl_emit (items : List (FlowKey × List Member)) :
    ∀ out seq, items.foldl (c.emit xxh64) (out, seq) =
      (out ++ (number seq items).map (fun item => c.bundle xxh64 item.1 item.2.1 item.2.2),
        bump seq items) := by
  induction items with
  | nil => simp [number, bump]
  | cons item items ih =>
      intro out seq
      rw [List.foldl_cons, emit, ih, number, List.map_cons, List.append_assoc, List.singleton_append]
      rfl

/-- A call numbers its chunks. -/
theorem coalesce_eq (sender : FixedBytes 16) (frames : List Frame.Frame) :
    c.coalesce xxh64 sender frames =
      ((number c.seq (c.chunked sender frames)).map
          (fun item => c.bundle xxh64 item.1 item.2.1 item.2.2),
        { c with seq := bump c.seq (c.chunked sender frames) }) := by
  have hfold : (c.buckets sender frames).buckets.foldl (fun state bucket =>
      (c.filler.chunks bucket.2).foldl (fun state chunk => c.emit xxh64 state (bucket.1, chunk)) state)
      ([], c.seq) = (c.chunked sender frames).foldl (c.emit xxh64) ([], c.seq) := by
    rw [chunked, List.foldl_flatMap]
    simp only [List.foldl_map]
  rw [coalesce, hfold, foldl_emit]
  rfl

/-- The bundles that a call emits for a flow. -/
def flowBundles (sender : FixedBytes 16) (frames : List Frame.Frame) (k : FlowKey) : List Bundle :=
  (c.coalesce xxh64 sender frames).1.filter fun b => b.flow sender = k

theorem sender_of_mem_chunked {sender : FixedBytes 16} {frames : List Frame.Frame}
    {item : FlowKey × List Member} (h : item ∈ c.chunked sender frames) : item.1.sender = sender := by
  have hchunks : item.2 ∈ c.filler.chunks (items item.1 (c.keyed sender frames)) := by
    rw [← items_chunked]
    exact mem_items.mpr h
  have hne : items item.1 (c.keyed sender frames) ≠ [] := by
    intro heq
    rw [heq, Filler.chunks_nil] at hchunks
    cases hchunks
  obtain ⟨m, hm⟩ := List.exists_mem_of_ne_nil _ hne
  obtain ⟨f, -, hf⟩ := List.mem_map.mp (mem_items.mp hm)
  rw [← (Prod.mk.inj hf).1]
  rfl

theorem flow_bundle (k : FlowKey) (members : List Member) (n : UInt64) :
    (c.bundle xxh64 k members n).flow k.sender = k := rfl

/-- The bundles of a flow are its chunks with the next numbers. -/
theorem flowBundles_eq (frames : List Frame.Frame) (k : FlowKey) :
    c.flowBundles xxh64 k.sender frames k =
      ((c.filler.chunks (items k (c.keyed k.sender frames))).zipIdx 1).map fun item =>
        c.bundle xxh64 k item.1 (c.seq k + UInt64.ofNat item.2) := by
  let emitted := number c.seq (c.chunked k.sender frames)
  have hflow : ∀ item ∈ emitted,
      ((c.bundle xxh64 item.1 item.2.1 item.2.2).flow k.sender = k ↔ item.1 = k) := by
    intro item hitem
    have hkey : item.1 ∈ (c.chunked k.sender frames).map Prod.fst := by
      rw [← map_fst_number c.seq]
      exact List.mem_map_of_mem hitem
    obtain ⟨chunk, hchunk, hkey⟩ := List.mem_map.mp hkey
    have hsender := c.sender_of_mem_chunked hchunk
    rw [hkey] at hsender
    rw [← hsender, flow_bundle]
  have hfilter : c.flowBundles xxh64 k.sender frames k =
      (emitted.filter fun item => item.1 = k).map
        fun item => c.bundle xxh64 item.1 item.2.1 item.2.2 := by
    rw [flowBundles, coalesce_eq, List.filter_map]
    refine congrArg _ (List.filter_congr ?_)
    intro item hitem
    exact decide_eq_decide.mpr (hflow item hitem)
  have hitems : (emitted.filter fun item => item.1 = k).map
      (fun item => c.bundle xxh64 item.1 item.2.1 item.2.2) =
        (items k emitted).map fun item => c.bundle xxh64 k item.1 item.2 := by
    rw [items, List.map_map]
    apply List.map_congr_left
    intro item hitem
    rw [Function.comp_apply, of_decide_eq_true (List.mem_filter.mp hitem).2]
  rw [hfilter, hitems, items_number, items_chunked, List.map_map]
  rfl

theorem flowBundles_of_ne {sender : FixedBytes 16} {k : FlowKey} (h : k.sender ≠ sender)
    (frames : List Frame.Frame) : c.flowBundles xxh64 sender frames k = [] := by
  rw [flowBundles, List.filter_eq_nil_iff]
  intro b _ hb
  exact h (congrArg FlowKey.sender (of_decide_eq_true hb)).symm

/-! ## The bundles of one call -/

/-- The encoded length of a bundle with these members. -/
def filledSize (chunk : List Member) : Nat :=
  headerSize + (memberOverhead c.carryTxID * chunk.length + (chunk.map (·.tx.length)).sum)

theorem filledSize_append (chunk : List Member) (m : Member) :
    c.filledSize (chunk ++ [m]) =
      c.filledSize chunk + (memberOverhead c.carryTxID + m.tx.length) := by
  rw [filledSize, filledSize, List.length_append, List.length_singleton, List.map_append,
    List.sum_append, List.map_singleton, List.sum_singleton, Nat.mul_succ]
  omega

theorem txIDsPresent_bundle (k : FlowKey) (members : List Member) (n : UInt64) :
    (c.bundle xxh64 k members n).txIDsPresent = c.carryTxID := by
  rw [Bundle.txIDsPresent, bundle]
  cases c.carryTxID <;> simp [flagTxIDsPresent]

theorem encodedLen_bundle (k : FlowKey) (members : List Member) (n : UInt64) :
    (c.bundle xxh64 k members n).encodedLen = c.filledSize members := by
  rw [Bundle.encodedLen, Bundle.memberSectionLen, txIDsPresent_bundle]
  rfl

/-- The state of the inner loop while it fills a bundle. -/
structure Filled (chunk : List Member) (state : Nat × Nat) : Prop where
  count : state.1 = chunk.length
  size : state.2 = c.filledSize chunk
  count_le : chunk.length ≤ c.maxCount
  size_le : chunk.length ≤ 1 ∨ (c.filledSize chunk : Int) ≤ c.maxBytes

theorem filled_start : c.Filled [] c.filler.start :=
  ⟨rfl, rfl, Nat.zero_le _, .inl (Nat.zero_le _)⟩

theorem accept_eq_some {state next : Nat × Nat} {m : Member} (h : c.accept state m = some next) :
    state.1 < c.maxCount ∧ (state.1 = 0 ∨
      ((state.2 + (memberOverhead c.carryTxID + m.tx.length) : Nat) : Int) ≤ c.maxBytes) ∧
      next = (state.1 + 1, state.2 + (memberOverhead c.carryTxID + m.tx.length)) := by
  rw [accept] at h
  split at h
  · next hcount =>
      dsimp only at h
      split at h
      · cases h
      · next hfits => exact ⟨hcount, by omega, (Option.some.inj h).symm⟩
  · cases h

theorem accept_eq_none {state : Nat × Nat} {m : Member} (h : c.accept state m = none) :
    c.maxCount ≤ state.1 ∨
      c.maxBytes < ((state.2 + (memberOverhead c.carryTxID + m.tx.length) : Nat) : Int) := by
  rw [accept] at h
  split at h
  · dsimp only at h
    split at h
    · next hfull => exact .inr hfull.2
    · cases h
  · next hcount => exact .inl (Nat.le_of_not_lt hcount)

theorem filled_step (chunk : List Member) (state : Nat × Nat) (m : Member) (next : Nat × Nat)
    (hfilled : c.Filled chunk state) (h : c.filler.accept state m = some next) :
    c.Filled (chunk ++ [m]) next := by
  obtain ⟨hcount, hfits, rfl⟩ := c.accept_eq_some h
  have hsize := c.filledSize_append chunk m
  have hstate := hfilled.count
  have hstate' := hfilled.size
  refine ⟨?_, ?_, ?_, ?_⟩
  · rw [List.length_append, List.length_singleton, hstate]
  · rw [hsize, hstate']
  · rw [List.length_append, List.length_singleton]
    omega
  · rw [hsize, List.length_append, List.length_singleton]
    omega

/-- What a call promises about the bundles that it returns, for frames and bundles that belong to
flows. -/
structure Packs {κ : Type} [DecidableEq κ] (frameFlow : FixedBytes 16 → Frame.Frame → κ)
    (bundleFlow : FixedBytes 16 → Bundle → κ) (call : Call) (bundles : List Bundle) : Prop where
  conserves : ∀ k, (bundles.filter fun b => bundleFlow call.sender b = k).flatMap (·.members) =
    (call.frames.filter fun f => frameFlow call.sender f = k).map asMember
  nonempty : ∀ b ∈ bundles, b.members ≠ []
  count : ∀ b ∈ bundles, b.members.length ≤ c.maxCount
  ofFlow : ∀ b ∈ bundles, ∀ m ∈ b.members, ∃ f ∈ call.frames,
    frameFlow call.sender f = bundleFlow call.sender b ∧ asMember f = m
  size : ∀ b ∈ bundles, b.members.length = 1 ∨ (b.encodedLen : Int) ≤ c.maxBytes
  encoded : ∀ b ∈ bundles, ∀ buf, b.encode.outcome = .ok buf → buf.length = b.encodedLen
  greedy : ∀ k, (bundles.filter fun b => bundleFlow call.sender b = k).IsChain fun b next =>
    ∀ m, next.members.head? = some m → c.maxCount < b.members.length + 1 ∨
      c.maxBytes < ({ b with members := b.members ++ [m] } : Bundle).encodedLen

theorem mem_coalesce {sender : FixedBytes 16} {frames : List Frame.Frame} {b : Bundle}
    (hb : b ∈ (c.coalesce xxh64 sender frames).1) :
    ∃ chunk n, chunk ∈ c.filler.chunks (items (b.flow sender) (c.keyed sender frames)) ∧
      b = c.bundle xxh64 (b.flow sender) chunk n := by
  have hflow : b ∈ c.flowBundles xxh64 sender frames (b.flow sender) :=
    List.mem_filter.mpr ⟨hb, decide_eq_true rfl⟩
  have hsender : (b.flow sender).sender = sender := rfl
  nth_rewrite 1 [← hsender] at hflow
  rw [flowBundles_eq] at hflow
  obtain ⟨⟨chunk, i⟩, hitem, heq⟩ := List.mem_map.mp hflow
  exact ⟨chunk, _, List.fst_mem_of_mem_zipIdx hitem, heq.symm⟩

theorem conserves_coalesce (sender : FixedBytes 16) (frames : List Frame.Frame) (k : FlowKey) :
    (c.flowBundles xxh64 sender frames k).flatMap (·.members) =
      (frames.filter fun f => c.flowKey sender f = k).map asMember := by
  by_cases hk : k.sender = sender
  · subst hk
    rw [flowBundles_eq, List.flatMap_map, ← items_keyed]
    have hmembers : (fun item : List Member × Nat =>
        (c.bundle xxh64 k item.1 (c.seq k + UInt64.ofNat item.2)).members) = Prod.fst := rfl
    rw [hmembers, List.flatMap, List.zipIdx_map_fst, Filler.flatten_chunks]
  · rw [flowBundles_of_ne c xxh64 hk]
    have hnone : (frames.filter fun f => c.flowKey sender f = k) = [] := by
      rw [List.filter_eq_nil_iff]
      intro f _ hf
      exact hk (congrArg FlowKey.sender (of_decide_eq_true hf)).symm
    rw [hnone]
    rfl

theorem greedy_coalesce (sender : FixedBytes 16) (frames : List Frame.Frame) (k : FlowKey) :
    (c.flowBundles xxh64 sender frames k).IsChain fun b next =>
      ∀ m, next.members.head? = some m → c.maxCount < b.members.length + 1 ∨
        c.maxBytes < ({ b with members := b.members ++ [m] } : Bundle).encodedLen := by
  by_cases hk : k.sender = sender
  · subst hk
    rw [flowBundles_eq, List.isChain_map]
    have hchunks := Filler.isChain_chunks c.filled_step c.filled_start
      (items k (c.keyed k.sender frames))
    rw [← List.zipIdx_map_fst 1 (c.filler.chunks _), List.isChain_map] at hchunks
    refine hchunks.imp ?_
    rintro ⟨chunk, i⟩ ⟨next, j⟩ ⟨state, hfilled, hrefused⟩ m hm
    rcases c.accept_eq_none (hrefused m hm) with hcount | hsize
    · rw [hfilled.count] at hcount
      exact .inl (Nat.lt_succ_of_le hcount)
    · rw [hfilled.size, ← filledSize_append] at hsize
      right
      rwa [← c.encodedLen_bundle xxh64 k _ (c.seq k + UInt64.ofNat i)] at hsize
  · rw [flowBundles_of_ne c xxh64 hk]
    exact .nil

theorem packs_coalesce (call : Call) :
    c.Packs c.flowKey (fun sender b => b.flow sender) call
      (c.coalesce xxh64 call.sender call.frames).1 := by
  have hfilled : ∀ b ∈ (c.coalesce xxh64 call.sender call.frames).1,
      ∃ chunk n state, c.Filled chunk state ∧ chunk ≠ [] ∧
        b = c.bundle xxh64 (b.flow call.sender) chunk n := by
    intro b hb
    obtain ⟨chunk, n, hchunk, heq⟩ := c.mem_coalesce xxh64 hb
    obtain ⟨state, hstate⟩ := Filler.filled_chunks c.filled_step c.filled_start _ chunk hchunk
    exact ⟨chunk, n, state, hstate, c.filler.ne_nil_of_mem_chunks _ chunk hchunk, heq⟩
  refine ⟨c.conserves_coalesce xxh64 call.sender call.frames, ?_, ?_, ?_, ?_, ?_,
    c.greedy_coalesce xxh64 call.sender call.frames⟩
  · intro b hb
    obtain ⟨chunk, n, state, -, hne, heq⟩ := hfilled b hb
    rw [heq]
    exact hne
  · intro b hb
    obtain ⟨chunk, n, state, hstate, -, heq⟩ := hfilled b hb
    rw [heq]
    exact hstate.count_le
  · intro b hb m hm
    have hmem : m ∈ (c.flowBundles xxh64 call.sender call.frames (b.flow call.sender)).flatMap
        (·.members) :=
      List.mem_flatMap.mpr ⟨b, List.mem_filter.mpr ⟨hb, decide_eq_true rfl⟩, hm⟩
    rw [conserves_coalesce] at hmem
    obtain ⟨f, hf, hmember⟩ := List.mem_map.mp hmem
    obtain ⟨hframe, hflow⟩ := List.mem_filter.mp hf
    exact ⟨f, hframe, of_decide_eq_true hflow, hmember⟩
  · intro b hb
    obtain ⟨chunk, n, state, hstate, hne, heq⟩ := hfilled b hb
    have hpos := List.length_pos_iff.mpr hne
    rw [heq, encodedLen_bundle]
    have hsize := hstate.size_le
    have hlength : (c.bundle xxh64 (b.flow call.sender) chunk n).members.length = chunk.length := rfl
    omega
  · intro b _ buf hbuf
    exact length_encode hbuf

/-! ## Whole runs -/

/-- What each call of a run returns. -/
def run (xxh64 : Bytes → UInt64) : Coalescer → List Call → List (List Bundle)
  | _, [] => []
  | c, call :: calls =>
    let r := c.coalesce xxh64 call.sender call.frames
    r.1 :: run xxh64 r.2 calls

/-- The bundles of a flow over a whole run, in the order in which they are emitted. -/
def runBundles (xxh64 : Bytes → UInt64) (k : FlowKey) : Coalescer → List Call → List Bundle
  | _, [] => []
  | c, call :: calls =>
    let r := c.coalesce xxh64 call.sender call.frames
    (r.1.filter fun b => b.flow call.sender = k) ++ runBundles xxh64 k r.2 calls

theorem seq_coalesce (sender : FixedBytes 16) (frames : List Frame.Frame) (k : FlowKey) :
    (c.coalesce xxh64 sender frames).2.seq k =
      c.seq k + UInt64.ofNat (c.flowBundles xxh64 sender frames k).length := by
  rw [coalesce_eq]
  dsimp only
  rw [bump_apply, items_chunked]
  by_cases hk : k.sender = sender
  · subst hk
    rw [flowBundles_eq, List.length_map, List.length_zipIdx]
  · rw [flowBundles_of_ne c xxh64 hk, ← items_chunked]
    have hnone : items k (c.chunked sender frames) = [] := by
      rw [List.eq_nil_iff_forall_not_mem]
      intro chunk hchunk
      exact hk (c.sender_of_mem_chunked (mem_items.mp hchunk))
    rw [hnone]
    rfl

theorem seqNum_flowBundles (sender : FixedBytes 16) (frames : List Frame.Frame) (k : FlowKey) :
    (c.flowBundles xxh64 sender frames k).map (·.seqNum) =
      (List.range' 1 (c.flowBundles xxh64 sender frames k).length).map
        fun i => c.seq k + UInt64.ofNat i := by
  by_cases hk : k.sender = sender
  · subst hk
    rw [flowBundles_eq, List.length_map, List.length_zipIdx, ← List.zipIdx_map_snd, List.map_map,
      List.map_map]
    rfl
  · rw [flowBundles_of_ne c xxh64 hk]
    rfl

theorem packs_run (calls : List Call) :
    List.Forall₂ (c.Packs c.flowKey fun sender b => b.flow sender) calls (run xxh64 c calls) := by
  suffices h : ∀ seq, List.Forall₂ (c.Packs c.flowKey fun sender b => b.flow sender) calls
    (run xxh64 { c with seq := seq } calls) from h c.seq
  induction calls with
  | nil => exact fun seq => .nil
  | cons call calls ih =>
      intro seq
      refine .cons ?_ ?_
      · -- the promise does not look at the counters
        have h := packs_coalesce { c with seq := seq } xxh64 call
        exact ⟨h.conserves, h.nonempty, h.count, h.ofFlow, h.size, h.encoded, h.greedy⟩
      · rw [coalesce_eq]
        exact ih _

/-- One call moves the counter of a flow by the number of its bundles, so that the next call goes on
where it stopped. -/
theorem seqNum_runBundles (k : FlowKey) (calls : List Call) :
    ((runBundles xxh64 k c calls).map (·.seqNum)) =
      (List.range' 1 (runBundles xxh64 k c calls).length).map fun i => c.seq k + UInt64.ofNat i := by
  induction calls generalizing c with
  | nil => rfl
  | cons call calls ih =>
      have hcall := c.seqNum_flowBundles xxh64 call.sender call.frames k
      have hseq := c.seq_coalesce xxh64 call.sender call.frames k
      have hrest := ih (c.coalesce xxh64 call.sender call.frames).2
      have hrun : runBundles xxh64 k c (call :: calls) =
          c.flowBundles xxh64 call.sender call.frames k ++
            runBundles xxh64 k (c.coalesce xxh64 call.sender call.frames).2 calls := rfl
      rw [hrun, List.map_append, hcall, hrest, hseq, List.length_append]
      generalize (c.flowBundles xxh64 call.sender call.frames k).length = first
      generalize (runBundles xxh64 k (c.coalesce xxh64 call.sender call.frames).2 calls).length = rest
      have hrange : List.range' 1 (first + rest) =
          List.range' 1 first ++ (List.range' 1 rest).map (first + ·) := by
        rw [List.map_add_range', Nat.add_comm first 1, List.range'_append_1]
      rw [hrange, List.map_append, List.map_map]
      refine congrArg _ (List.map_congr_left ?_)
      intro i _
      rw [Function.comp_apply, UInt64.ofNat_add, UInt64.add_assoc]

theorem maxCount_newCoalescer (eng : Shard.Engine) (maxBytes maxCount : Int) (carryTxID : Bool) :
    ((newCoalescer eng maxBytes maxCount carryTxID).maxCount : Int) =
      if maxCount ≤ 0 then (maxMembers : Int) else min maxCount maxMembers := by
  rw [newCoalescer]
  dsimp only
  split <;> split <;> omega

end Coalescer

/-- The numbers 1, 2, 3, ... in order. The counter is a 64-bit number and starts again at zero after
`2 ^ 64` bundles of one flow. -/
def Sequenced (bundles : List Bundle) : Prop :=
  bundles.map (·.seqNum) = (List.range' 1 bundles.length).map UInt64.ofNat ∧
    (bundles.length < 2 ^ 64 → bundles.map (·.seqNum.toNat) = List.range' 1 bundles.length)

theorem sequenced_of_ofNat {bundles : List Bundle}
    (h : bundles.map (·.seqNum) = (List.range' 1 bundles.length).map UInt64.ofNat) :
    Sequenced bundles := by
  refine ⟨h, fun hlt => ?_⟩
  have hid : ∀ i ∈ List.range' 1 bundles.length, (UInt64.toNat ∘ UInt64.ofNat) i = i := by
    intro i hi
    rw [List.mem_range'_1] at hi
    exact UInt64.toNat_ofNat_of_lt' (show i < 2 ^ 64 by omega)
  calc bundles.map (·.seqNum.toNat)
      = (bundles.map (·.seqNum)).map UInt64.toNat := by rw [List.map_map]; rfl
    _ = (List.range' 1 bundles.length).map (UInt64.toNat ∘ UInt64.ofNat) := by rw [h, List.map_map]
    _ = List.range' 1 bundles.length := by rw [List.map_congr_left hid, List.map_id']

theorem Coalescer.sequenced_runBundles (xxh64 : Bytes → UInt64) {c : Coalescer}
    (hfresh : c.seq = fun _ => 0) (k : FlowKey) (calls : List Call) :
    Sequenced (c.runBundles xxh64 k calls) := by
  have hseq := c.seqNum_runBundles xxh64 k calls
  simp only [hfresh, UInt64.zero_add] at hseq
  exact sequenced_of_ofNat hseq

/-! ## Flows by group index -/

/-- A flow by the group index that the engine computes. -/
structure Flow where
  sender : FixedBytes 16
  index : UInt32
  subtree : FixedBytes 32
  deriving DecidableEq

/-- The flow that the key of a bundle names. -/
def FlowKey.widen (k : FlowKey) : Flow := ⟨k.sender, k.group.toUInt32, k.subtree⟩

theorem FlowKey.widen_injective : Function.Injective FlowKey.widen := by
  rintro ⟨sender, group, subtree⟩ ⟨sender', group', subtree'⟩ h
  obtain ⟨hsender, hgroup, hsubtree⟩ := Flow.mk.inj h
  rw [FlowKey.mk.injEq]
  exact ⟨hsender, UInt16.toUInt32_inj.mp hgroup, hsubtree⟩

def Bundle.namedFlow (sender : FixedBytes 16) (b : Bundle) : Flow := (b.flow sender).widen

namespace Coalescer

variable {c : Coalescer}

def frameFlow (c : Coalescer) (sender : FixedBytes 16) (f : Frame.Frame) : Flow :=
  ⟨sender, c.eng.groupIndex f.txID, f.subtreeID⟩

/-- The bundles that name a flow over a whole run, in the order in which they are emitted. -/
def flowRun (xxh64 : Bytes → UInt64) (c : Coalescer) (k : Flow) (calls : List Call) : List Bundle :=
  (calls.zip (c.run xxh64 calls)).flatMap fun r =>
    r.2.filter fun b => b.namedFlow r.1.sender = k

/-- Flows that are named in another way, without taking two for one, are packed alike. -/
theorem Packs.map {κ κ' : Type} [DecidableEq κ] [DecidableEq κ'] {call : Call}
    {bundles : List Bundle} {frameFlow : FixedBytes 16 → Frame.Frame → κ}
    {bundleFlow : FixedBytes 16 → Bundle → κ} {name : κ → κ'} (hname : Function.Injective name)
    (h : c.Packs frameFlow bundleFlow call bundles) :
    c.Packs (fun sender f => name (frameFlow sender f)) (fun sender b => name (bundleFlow sender b))
      call bundles := by
  have hflows : ∀ k', (∃ k, ∀ x, name x = k' ↔ x = k) ∨ ∀ x, name x ≠ k' := by
    intro k'
    by_cases hk : ∃ k, name k = k'
    · obtain ⟨k, rfl⟩ := hk
      exact .inl ⟨k, fun x => hname.eq_iff⟩
    · exact .inr fun x hx => hk ⟨x, hx⟩
  refine ⟨fun k' => ?_, h.nonempty, h.count, ?_, h.size, h.encoded, fun k' => ?_⟩
  · rcases hflows k' with ⟨k, hk⟩ | hk
    · simp only [hk]
      exact h.conserves k
    · simp [hk]
  · intro b hb m hm
    obtain ⟨f, hf, hflow, hmember⟩ := h.ofFlow b hb m hm
    exact ⟨f, hf, congrArg name hflow, hmember⟩
  · rcases hflows k' with ⟨k, hk⟩ | hk
    · simp only [hk]
      exact h.greedy k
    · simp [hk]

/-- Up to 16 bits the key of a frame names its flow. -/
theorem widen_flowKey (heng : c.eng.Fits) (sender : FixedBytes 16) (f : Frame.Frame) :
    (c.flowKey sender f).widen = c.frameFlow sender f := by
  have hgroup : (c.eng.groupIndex f.txID).toUInt16.toUInt32 = c.eng.groupIndex f.txID := by
    apply UInt32.toNat_inj.mp
    rw [UInt16.toNat_toUInt32]
    exact heng.toNat_group f.txID
  rw [flowKey, FlowKey.widen, frameFlow]
  dsimp only
  rw [hgroup]

theorem packs_flows (xxh64 : Bytes → UInt64) (heng : c.eng.Fits) (calls : List Call) :
    List.Forall₂ (c.Packs c.frameFlow Bundle.namedFlow) calls (c.run xxh64 calls) := by
  refine (c.packs_run xxh64 calls).imp ?_
  intro call bundles h
  have hwide := h.map FlowKey.widen_injective
  simp only [widen_flowKey heng] at hwide
  exact hwide

theorem flowRun_widen (xxh64 : Bytes → UInt64) (c : Coalescer) (k : FlowKey) (calls : List Call) :
    c.flowRun xxh64 k.widen calls = c.runBundles xxh64 k calls := by
  induction calls generalizing c with
  | nil => rfl
  | cons call calls ih =>
      have hcall : ∀ b : Bundle, b.namedFlow call.sender = k.widen ↔ b.flow call.sender = k :=
        fun b => FlowKey.widen_injective.eq_iff
      rw [flowRun, run, List.zip_cons_cons, List.flatMap_cons, ← flowRun, ih, runBundles]
      simp only [hcall]

/-- A flow that no key names has no bundle. -/
theorem flowRun_eq_nil (xxh64 : Bytes → UInt64) (c : Coalescer) {k : Flow}
    (h : ∀ key : FlowKey, key.widen ≠ k) (calls : List Call) : c.flowRun xxh64 k calls = [] := by
  rw [flowRun, List.flatMap_eq_nil_iff]
  intro r _
  rw [List.filter_eq_nil_iff]
  intro b _ hb
  exact h _ (of_decide_eq_true hb)

theorem sequenced_flowRun (xxh64 : Bytes → UInt64) (hfresh : c.seq = fun _ => 0) (k : Flow)
    (calls : List Call) : Sequenced (c.flowRun xxh64 k calls) := by
  by_cases hk : ∃ key : FlowKey, key.widen = k
  · obtain ⟨key, rfl⟩ := hk
    rw [flowRun_widen]
    exact sequenced_runBundles xxh64 hfresh key calls
  · rw [flowRun_eq_nil xxh64 c fun key hkey => hk ⟨key, hkey⟩]
    exact sequenced_of_ofNat rfl

end Coalescer

/-- Every run of a coalescer, from its construction on, for an engine of at most 16 bits. -/
theorem coalescer_runs (xxh64 : Bytes → UInt64) (mcPrefix groupID : UInt16) {shardBits : UInt64}
    (hbits : shardBits ≤ 16) (maxBytes maxCount : Int) (carryTxID : Bool) (calls : List Call) :
    let c := newCoalescer (Shard.new mcPrefix groupID shardBits) maxBytes maxCount carryTxID
    (c.maxCount : Int) = (if maxCount ≤ 0 then (maxMembers : Int) else min maxCount maxMembers) ∧
      List.Forall₂ (c.Packs c.frameFlow Bundle.namedFlow) calls (c.run xxh64 calls) ∧
      ∀ k, Sequenced (c.flowRun xxh64 k calls) := by
  intro c
  refine ⟨Coalescer.maxCount_newCoalescer .., ?_, ?_⟩
  · exact Coalescer.packs_flows xxh64 ⟨rfl, hbits⟩ calls
  · intro k
    exact Coalescer.sequenced_flowRun xxh64 rfl k calls

/-- A transaction whose id starts with the given byte, in the zero subtree. -/
def idFrame (first : UInt8) : Frame.Frame :=
  ⟨frameVerV2, .copy 32 [first], 0, 0, .copy 32 [], [first]⟩

def coalescerOf (shardBits : UInt64) : Coalescer :=
  newCoalescer (Shard.new 0xFF05 0x000B shardBits) 1400 0 true

/-- The ids 00.. and 80.., one after the other. -/
def twoIDs : List Call :=
  [⟨.copy 16 [], [idFrame 0x00]⟩, ⟨.copy 16 [], [idFrame 0x80]⟩]

/-- At 16 bits the two ids are numbered apart. -/
theorem coalescer_runs_two_ids :
    let xxh64 : Bytes → UInt64 := fun b => UInt64.ofNat b.length
    let c := coalescerOf 16
    (c.run xxh64 twoIDs).map (fun bundles => bundles.map (·.seqNum)) = [[1], [1]] ∧
      List.Forall₂ (c.Packs c.frameFlow Bundle.namedFlow) twoIDs (c.run xxh64 twoIDs) ∧
      ∀ k, Sequenced (c.flowRun xxh64 k twoIDs) := by
  intro xxh64 c
  refine ⟨by decide +kernel, ?_⟩
  exact (coalescer_runs xxh64 0xFF05 0x000B (by decide : (16 : UInt64) ≤ 16) 1400 0 true twoIDs).2

/-- At 17 bits the groups 0 and 65536 have one key: their frames share a bundle, and in calls of their
own they share a series of numbers. -/
theorem wide_groups_share_flow :
    let xxh64 : Bytes → UInt64 := fun b => UInt64.ofNat b.length
    let c := coalescerOf 17
    let call : Call := ⟨.copy 16 [], [idFrame 0x00, idFrame 0x80]⟩
    call.frames.map (fun f => c.eng.groupIndex f.txID) = [0, 65536] ∧
      (c.coalesce xxh64 call.sender call.frames).1.map (·.members) = [call.frames.map asMember] ∧
      ¬ c.Packs c.frameFlow Bundle.namedFlow call (c.coalesce xxh64 call.sender call.frames).1 ∧
      (c.run xxh64 twoIDs).map (fun bundles => bundles.map (·.seqNum)) = [[1], [2]] := by
  intro xxh64 c call
  refine ⟨by decide +kernel, by decide +kernel, ?_, by decide +kernel⟩
  intro h
  exact absurd (h.conserves (c.frameFlow call.sender (idFrame 0x80))) (by decide +kernel)

end ShardCommon.Bundles
