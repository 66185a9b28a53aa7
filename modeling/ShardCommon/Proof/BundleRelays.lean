import ShardCommon.Lib.InOrder
import ShardCommon.Proof.BundlePipeline

/-!
# Bundles over relays

A relay splits the bundles it receives and packs their transactions again, at a width at least that
of the bundles. The frames of one flow of the relay come from one flow before it. A relay therefore
keeps their order if each flow that it receives is in order, however the flows are interleaved, and
so does any path of relays. A relay to a smaller width merges flows, and may not.
-/

namespace ShardCommon.Bundles

open Go ShardCommon.Frame Keyed Shard

/-- A transaction as a consumer identifies it: its id, its subtree and its bytes. -/
abbrev Contents := FixedBytes 32 × FixedBytes 32 × Bytes

def Contents.member (t : Contents) : Member := ⟨t.1, t.2.2⟩

/-- The flow of a transaction. -/
def Coalescer.route (c : Coalescer) (sender : FixedBytes 16) (t : Contents) : FlowKey :=
  ⟨sender, (c.eng.groupIndex t.1).toUInt16, t.2.1⟩

/-- The transactions of a run, in the order of its calls. -/
def stream (calls : List Call) : List Contents := (calls.flatMap (·.frames)).map contents

variable {c : Coalescer} {xxh64 : Bytes → UInt64} {sha256 : Bytes → FixedBytes 32}
  {sender : FixedBytes 16} {frames : List Frame.Frame} {calls : List Call} {k : FlowKey} {b : Bundle}
  {lossless : Bool}

/-! ## What a run emits -/

theorem filter_contents (frames : List Frame.Frame) :
    (frames.map contents).filter (fun t => c.route sender t = k) =
      (frames.filter fun f => c.flowKey sender f = k).map contents := List.filter_map

/-- A bundle is split into transactions of its own flow. -/
theorem route_decoalesce (hids : c.Identifies sha256 frames)
    (hb : b ∈ (c.coalesce xxh64 sender frames).1) :
    ∀ t ∈ (decoalesce sha256 b).map contents, c.route sender t = b.flow sender := by
  intro t ht
  obtain ⟨f, hf, rfl⟩ := List.mem_map.mp ht
  have hgroup := group_of_mem_decoalesce hids hb hf
  obtain ⟨m, -, rfl⟩ := List.mem_map.mp hf
  rw [Coalescer.route, Bundle.flow, hgroup]
  rfl

theorem contents_flowBundles (hids : c.Identifies sha256 frames) :
    (c.flowBundles xxh64 sender frames k).flatMap (fun b => (decoalesce sha256 b).map contents) =
      (frames.map contents).filter fun t => c.route sender t = k := by
  have hsplit : ∀ b ∈ c.flowBundles xxh64 sender frames k, (decoalesce sha256 b).map contents =
      b.members.map fun m => (m.txID, k.subtree, m.tx) := by
    intro b hb
    obtain ⟨hemitted, hflow⟩ := List.mem_filter.mp hb
    have hsubtree : b.subtreeID = k.subtree :=
      congrArg FlowKey.subtree (of_decide_eq_true hflow : b.flow sender = k)
    rw [contents_decoalesce hids hemitted, List.map_map, ← hsubtree]
    rfl
  rw [List.flatMap_congr hsplit, ← List.map_flatMap, Coalescer.conserves_coalesce, List.map_map,
    filter_contents]
  apply List.map_congr_left
  intro f hf
  have hflow : c.flowKey sender f = k := of_decide_eq_true (List.mem_filter.mp hf).2
  rw [← hflow]
  rfl

theorem filter_stream (p : Contents → Bool) :
    (stream calls).filter p = calls.flatMap fun call => (call.frames.map contents).filter p := by
  rw [stream, List.map_flatMap, List.filter_flatMap]

/-- What is made of the bundles of a flow, call by call. Calls move counters only. -/
theorem flatMap_runBundles {α : Type} {g : Bundle → List α} {out : Call → List α}
    (h : ∀ call ∈ calls, ∀ seq,
      (Coalescer.flowBundles { c with seq := seq } xxh64 call.sender call.frames k).flatMap g =
        out call) :
    (c.runBundles xxh64 k calls).flatMap g = calls.flatMap out := by
  induction calls generalizing c with
  | nil => rfl
  | cons call calls ih =>
      obtain ⟨hcall, hcalls⟩ := List.forall_mem_cons.mp h
      have hrun : c.runBundles xxh64 k (call :: calls) =
          c.flowBundles xxh64 call.sender call.frames k ++
            (c.coalesce xxh64 call.sender call.frames).2.runBundles xxh64 k calls := rfl
      rw [hrun, List.flatMap_append, List.flatMap_cons, hcall c.seq, Coalescer.coalesce_eq, ih]
      exact hcalls

/-- The bundles of a flow, split again, give its transactions in the order of the calls. -/
theorem contents_runBundles (hsender : ∀ call ∈ calls, call.sender = sender)
    (hids : ∀ call ∈ calls, c.Identifies sha256 call.frames) :
    (c.runBundles xxh64 k calls).flatMap (fun b => (decoalesce sha256 b).map contents) =
      (stream calls).filter fun t => c.route sender t = k := by
  rw [filter_stream]
  apply flatMap_runBundles
  intro call hcall seq
  rw [hsender call hcall]
  exact contents_flowBundles (hids call hcall)

theorem members_runBundles (hsender : ∀ call ∈ calls, call.sender = sender) :
    (c.runBundles xxh64 k calls).flatMap (·.members) =
      ((stream calls).filter fun t => c.route sender t = k).map Contents.member := by
  rw [filter_stream, List.map_flatMap]
  apply flatMap_runBundles
  intro call hcall seq
  rw [Coalescer.conserves_coalesce, hsender call hcall, filter_contents, List.map_map]
  rfl

theorem exists_call_of_mem_runBundles (hb : b ∈ c.runBundles xxh64 k calls) :
    ∃ call ∈ calls, ∃ seq,
      b ∈ (Coalescer.coalesce { c with seq := seq } xxh64 call.sender call.frames).1 := by
  induction calls generalizing c with
  | nil => cases hb
  | cons call calls ih =>
      rcases List.mem_append.mp hb with hb | hb
      · exact ⟨call, List.mem_cons_self, c.seq, (List.mem_filter.mp hb).1⟩
      · rw [Coalescer.coalesce_eq] at hb
        obtain ⟨call', hcall', seq, hseq⟩ := ih hb
        exact ⟨call', List.mem_cons_of_mem _ hcall', seq, hseq⟩

/-! ## One relay -/

/-- The flows arrive side by side in any interleaving, each in the order in which it was emitted, as
the wire carries its bundles. -/
def Arrive (lossless : Bool) (xxh64 : Bytes → UInt64) (c : Coalescer) (sender : FixedBytes 16)
    (calls : List Call) (arrivals : List Bundle) : Prop :=
  ∀ k, InOrder lossless (arrivals.filter fun b => b.flow sender = k)
    ((c.runBundles xxh64 k calls).map Bundle.carried)

/-- The calls of a relay: `Rebucket` for each bundle. -/
def relayCalls (sha256 : Bytes → FixedBytes 32) (sender : FixedBytes 16) (arrivals : List Bundle) :
    List Call :=
  arrivals.map fun b => ⟨sender, decoalesce sha256 b⟩

theorem sender_relayCalls {arrivals : List Bundle} :
    ∀ call ∈ relayCalls sha256 sender arrivals, call.sender = sender := by
  intro call hcall
  obtain ⟨b, -, rfl⟩ := List.mem_map.mp hcall
  rfl

theorem stream_relayCalls (arrivals : List Bundle) :
    stream (relayCalls sha256 sender arrivals) =
      arrivals.flatMap fun b => (decoalesce sha256 b).map contents := by
  rw [stream, relayCalls, List.flatMap_map, List.map_flatMap]

variable {arrivals : List Bundle}

theorem route_of_arrive (hsender : ∀ call ∈ calls, call.sender = sender)
    (hids : ∀ call ∈ calls, c.Identifies sha256 call.frames)
    (h : Arrive lossless xxh64 c sender calls arrivals) :
    ∀ b ∈ arrivals, ∀ t ∈ (decoalesce sha256 b).map contents, c.route sender t = b.flow sender := by
  intro b hb
  have hflow : b ∈ arrivals.filter fun b' => b'.flow sender = b.flow sender :=
    List.mem_filter.mpr ⟨hb, decide_eq_true rfl⟩
  obtain ⟨sent, hsent, rfl⟩ := List.mem_map.mp ((h (b.flow sender)).sublist.subset hflow)
  obtain ⟨call, hcall, seq, hemitted⟩ := exists_call_of_mem_runBundles hsent
  rw [hsender call hcall] at hemitted
  have hcounters : Coalescer.Identifies sha256 { c with seq := seq } call.frames := hids call hcall
  have hroute := route_decoalesce hcounters hemitted
  rw [decoalesce_carried]
  exact hroute

/-- Each flow of the emitter is in order in what the relay takes in. -/
theorem inOrder_relayCalls (hsender : ∀ call ∈ calls, call.sender = sender)
    (hids : ∀ call ∈ calls, c.Identifies sha256 call.frames)
    (h : Arrive lossless xxh64 c sender calls arrivals) (sender' : FixedBytes 16) (k : FlowKey) :
    InOrder lossless
      ((stream (relayCalls sha256 sender' arrivals)).filter fun t => c.route sender t = k)
      ((stream calls).filter fun t => c.route sender t = k) := by
  have hflow := (h k).flatMap fun b => (decoalesce sha256 b).map contents
  simp only [List.flatMap_map, decoalesce_carried] at hflow
  rw [contents_runBundles hsender hids] at hflow
  rwa [stream_relayCalls, filter_flatMap_of_key (route_of_arrive hsender hids h)]

/-- The flow at a width that a flow of a larger width comes from. -/
def FlowKey.parent (k : FlowKey) (sender : FixedBytes 16) (levels : Nat) : FlowKey :=
  ⟨sender, UInt16.ofNat (k.group.toNat >>> levels), k.subtree⟩

theorem route_parent {fine : Coalescer} (hc : c.eng.Fits) (hfine : fine.eng.Fits)
    (hle : c.eng.shardBits ≤ fine.eng.shardBits) {sender' : FixedBytes 16} {t : Contents}
    (h : fine.route sender' t = k) :
    c.route sender t = k.parent sender (fine.eng.shardBits.toNat - c.eng.shardBits.toNat) := by
  have hshift := hc.groupIndex_shift hfine (UInt64.le_iff_toNat_le.mp hle) t.1
  rw [← h, Coalescer.route, Coalescer.route, FlowKey.parent, hfine.toNat_group, hshift,
    ← hc.toNat_group, UInt16.ofNat_toNat]

/-! ## Paths -/

/-- The frames on a path: a sender coalesces them in any number of calls, and relays of no smaller
widths take in what they receive. Each of them carries ids, or the ids are the hashes that are
recomputed. -/
inductive Path (xxh64 : Bytes → UInt64) (sha256 : Bytes → FixedBytes 32) (lossless : Bool)
    (frames : List Frame.Frame) : Coalescer → FixedBytes 16 → List Call → Prop where
  | origin {eng : Engine} {carryTxID : Bool} (maxBytes maxCount : Int) (sender : FixedBytes 16)
      (batches : List (List Frame.Frame)) (heng : eng.Fits) (hframes : batches.flatten = frames)
      (hids : (newCoalescer eng maxBytes maxCount carryTxID).Identifies sha256 frames) :
      Path xxh64 sha256 lossless frames (newCoalescer eng maxBytes maxCount carryTxID) sender
        (batches.map fun batch => ⟨sender, batch⟩)
  | relay {c : Coalescer} {sender : FixedBytes 16} {calls : List Call} {eng : Engine}
      {carryTxID : Bool} {arrivals : List Bundle} (maxBytes maxCount : Int) (sender' : FixedBytes 16)
      (hpath : Path xxh64 sha256 lossless frames c sender calls) (heng : eng.Fits)
      (hfiner : c.eng.shardBits ≤ eng.shardBits)
      (harrive : Arrive lossless xxh64 c sender calls arrivals)
      (hids : (newCoalescer eng maxBytes maxCount carryTxID).Identifies sha256 frames) :
      Path xxh64 sha256 lossless frames (newCoalescer eng maxBytes maxCount carryTxID) sender'
        (relayCalls sha256 sender' arrivals)

/-- What holds of each coalescer on a path. -/
structure OnPath (sha256 : Bytes → FixedBytes 32) (lossless : Bool) (frames : List Frame.Frame)
    (c : Coalescer) (sender : FixedBytes 16) (calls : List Call) : Prop where
  eng : c.eng.Fits
  fresh : c.seq = fun _ => 0
  senders : ∀ call ∈ calls, call.sender = sender
  ids : c.Identifies sha256 frames
  inOrder : ∀ k, InOrder lossless ((stream calls).filter fun t => c.route sender t = k)
    ((frames.map contents).filter fun t => c.route sender t = k)

/-- Transactions on a path are those of the frames, so ids that can be recomputed at the sender can
be at each relay. -/
theorem OnPath.identifies (h : OnPath sha256 lossless frames c sender calls) :
    ∀ call ∈ calls, c.Identifies sha256 call.frames := by
  intro call hcall
  rcases h.ids with hcarry | hhashes
  · exact .inl hcarry
  · refine .inr fun f hf => ?_
    have hstream : contents f ∈ stream calls :=
      List.mem_map_of_mem (List.mem_flatMap.mpr ⟨call, hcall, hf⟩)
    obtain ⟨g, hg, hsame⟩ := List.mem_map.mp (InOrder.mem_of_key h.inOrder hstream)
    have hid : g.txID = f.txID := congrArg Prod.fst hsame
    have hpayload : g.payload = f.payload := congrArg (fun t => t.2.2) hsame
    rw [← hid, ← hpayload]
    exact hhashes g hg

theorem onPath_of_path (h : Path xxh64 sha256 lossless frames c sender calls) :
    OnPath sha256 lossless frames c sender calls := by
  induction h with
  | origin maxBytes maxCount sender batches heng hframes hids =>
      refine ⟨heng, rfl, ?_, hids, fun k => .of_eq ?_⟩
      · intro call hcall
        obtain ⟨batch, -, rfl⟩ := List.mem_map.mp hcall
        rfl
      · rw [stream, List.flatMap_map, ← hframes, List.flatMap_id']
  | @relay c sender calls eng carryTxID arrivals maxBytes maxCount sender' hpath heng hfiner harrive
      hids ih =>
      refine ⟨heng, rfl, sender_relayCalls, hids, fun k => ?_⟩
      -- a flow of the relay lies in one flow of the coalescer before it
      have hparent := fun t ht => @route_parent c sender k
        (newCoalescer eng maxBytes maxCount carryTxID) ih.eng heng hfiner sender' t
        (of_decide_eq_true ht)
      have hreceived := inOrder_relayCalls ih.senders ih.identifies harrive sender'
      exact ((hreceived _).trans (ih.inOrder _)).filter_of_key hparent

/-- Over any number of relays, each at least as fine as what it receives, the bundles of a flow hold
the sender's transactions of that flow in the order in which they were sent, all of them if nothing
is lost on the way, and are numbered 1, 2, 3, ... -/
theorem relays_keep_order (h : Path xxh64 sha256 lossless frames c sender calls) (k : FlowKey) :
    InOrder lossless ((c.runBundles xxh64 k calls).flatMap (·.members))
        ((frames.filter fun f => c.flowKey sender f = k).map asMember) ∧
      Sequenced (c.runBundles xxh64 k calls) := by
  have hpath := onPath_of_path h
  constructor
  · have hmembers := (hpath.inOrder k).map Contents.member
    rw [← members_runBundles hpath.senders, filter_contents, List.map_map] at hmembers
    exact hmembers
  · exact Coalescer.sequenced_runBundles xxh64 hpath.fresh k calls

/-! ### A finer and a coarser relay -/

theorem runBundles_eq_filter (h : ∀ call ∈ calls, call.sender = sender) :
    c.runBundles xxh64 k calls =
      (c.run xxh64 calls).flatten.filter fun b => b.flow sender = k := by
  induction calls generalizing c with
  | nil => rfl
  | cons call calls ih =>
      obtain ⟨hcall, hcalls⟩ := List.forall_mem_cons.mp h
      rw [Coalescer.runBundles, Coalescer.run, List.flatten_cons, List.filter_append, ih hcalls, hcall]

/-- The bundles of a run, those of one flow before all others. -/
def firstOf (xxh64 : Bytes → UInt64) (c : Coalescer) (calls : List Call) (sender : FixedBytes 16)
    (k : FlowKey) : List Bundle :=
  c.runBundles xxh64 k calls ++ (c.run xxh64 calls).flatten.filter fun b => b.flow sender ≠ k

theorem arrive_firstOf (h : ∀ call ∈ calls, call.sender = sender) (k : FlowKey) :
    Arrive lossless xxh64 c sender calls ((firstOf xxh64 c calls sender k).map Bundle.carried) := by
  intro k'
  have hcarried : ∀ l : List Bundle, (l.map Bundle.carried).filter (fun b => b.flow sender = k') =
      (l.filter fun b => b.flow sender = k').map Bundle.carried := fun l => List.filter_map
  rw [hcarried, firstOf, List.filter_append, runBundles_eq_filter h, runBundles_eq_filter h,
    List.filter_filter, List.filter_filter]
  apply InOrder.of_eq
  by_cases hk : k' = k
  · subst hk
    simp
  · have hfirst : ∀ b : Bundle, (decide (b.flow sender = k') && decide (b.flow sender = k)) = false := by
      intro b
      by_cases hb : b.flow sender = k' <;> simp [hb, hk]
    have hothers : ∀ b : Bundle, (decide (b.flow sender = k') && decide (b.flow sender ≠ k)) =
        decide (b.flow sender = k') := by
      intro b
      by_cases hb : b.flow sender = k' <;> simp [hb, hk]
    simp only [hfirst, hothers, List.filter_false, List.nil_append]

/-- Transactions of a subtree whose ids start with a zero, a one and a zero. -/
def alternating : List Frame.Frame :=
  [⟨frameVerV2, .copy 32 [0x00, 1], 0, 0, .copy 32 [0xAA], [1]⟩,
    ⟨frameVerV2, .copy 32 [0x80, 2], 0, 0, .copy 32 [0xAA], [2]⟩,
    ⟨frameVerV2, .copy 32 [0x00, 3], 0, 0, .copy 32 [0xAA], [3]⟩]

/-- A coalescer of the given width that carries ids. -/
def carrying (shardBits : UInt64) : Coalescer :=
  newCoalescer (new 0xFF05 0x000B shardBits) 9000 1000 true

def alternatingCalls : List Call := [⟨.copy 16 [1], alternating⟩]

theorem sender_alternatingCalls : ∀ call ∈ alternatingCalls, call.sender = .copy 16 [1] :=
  List.forall_mem_singleton.mpr rfl

/-- The flow of a group in the subtree. -/
def alternatingFlow (last : UInt8) (group : UInt16) : FlowKey :=
  ⟨.copy 16 [last], group, .copy 32 [0xAA]⟩

/-- What a relay emits in its first group when it receives one flow before all others. -/
def relayed (xxh64 : Bytes → UInt64) (sha256 : Bytes → FixedBytes 32) (c target : Coalescer)
    (k : FlowKey) : List Member :=
  (target.runBundles xxh64 (alternatingFlow 2 0) (relayCalls sha256 (.copy 16 [2])
    ((firstOf xxh64 c alternatingCalls (.copy 16 [1]) k).map Bundle.carried))).flatMap (·.members)

/-- A relay that merges two groups puts the flow that arrives first before the other one. -/
theorem coarser_relay_reorders (xxh64 : Bytes → UInt64) (sha256 : Bytes → FixedBytes 32) :
    ¬ InOrder true (relayed xxh64 sha256 (carrying 1) (carrying 0) (alternatingFlow 1 1))
      (alternating.map asMember) := by
  intro h
  have hids : ∀ call ∈ alternatingCalls, (carrying 1).Identifies sha256 call.frames :=
    fun _ _ => .inl rfl
  have hfirst : ((carrying 1).runBundles xxh64 (alternatingFlow 1 1) alternatingCalls).flatMap
      (fun b => (decoalesce sha256 b).map contents) =
        [(.copy 32 [0x80, 2], .copy 32 [0xAA], [2])] := by
    rw [contents_runBundles sender_alternatingCalls hids]
    decide +kernel
  have hroute : (carrying 0).route (.copy 16 [2]) (.copy 32 [0x80, 2], .copy 32 [0xAA], [2]) =
      alternatingFlow 2 0 := by decide +kernel
  have hmembers := h.complete rfl
  rw [relayed, members_runBundles sender_relayCalls, stream_relayCalls, firstOf] at hmembers
  simp only [List.flatMap_map, decoalesce_carried, List.flatMap_append, hfirst,
    List.singleton_append] at hmembers
  rw [List.filter_cons, if_pos (decide_eq_true hroute), List.map_cons] at hmembers
  exact absurd (List.cons.inj hmembers).1 (by decide +kernel)

/-- A finer relay keeps the order in each of its groups, also when one flow overtakes another; a
coarser one does not. -/
theorem relays_keep_order_split :
    let xxh64 : Bytes → UInt64 := fun b => UInt64.ofNat b.length
    let sha256 : Bytes → FixedBytes 32 := FixedBytes.copy 32
    relayed xxh64 sha256 (carrying 0) (carrying 1) (alternatingFlow 1 0) =
        (alternating.filter fun f =>
          (carrying 1).flowKey (.copy 16 [2]) f = alternatingFlow 2 0).map asMember ∧
      ¬ InOrder true (relayed xxh64 sha256 (carrying 1) (carrying 0) (alternatingFlow 1 1))
        (alternating.map asMember) := by
  intro xxh64 sha256
  have hfits : ∀ bits : UInt64, bits ≤ 16 → (new 0xFF05 0x000B bits).Fits := fun bits h => ⟨rfl, h⟩
  have horigin : Path xxh64 sha256 true alternating (carrying 0) (.copy 16 [1]) alternatingCalls :=
    .origin 9000 1000 (.copy 16 [1]) [alternating] (hfits 0 (by decide)) (List.append_nil _) (.inl rfl)
  have hrelay : Path xxh64 sha256 true alternating (carrying 1) (.copy 16 [2]) _ :=
    .relay 9000 1000 (.copy 16 [2]) horigin (hfits 1 (by decide)) (by decide)
      (arrive_firstOf sender_alternatingCalls (alternatingFlow 1 0)) (.inl rfl)
  exact ⟨(relays_keep_order hrelay (alternatingFlow 2 0)).1.complete rfl,
    coarser_relay_reorders xxh64 sha256⟩

end ShardCommon.Bundles
