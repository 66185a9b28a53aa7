import ShardCommon.Proof.CacheInvariant

/-!
# Every reachable shard is well represented

The operations keep the invariant, under any caps, from the empty shard on. The key cap is kept
beside it: a new key enters a full shard only after the room-making pass, and that pass cannot give
up while an entry is left, since every entry has an item to be popped.
-/

namespace ShardCommon.MemoryCache.Shard

variable {s t : Shard} {caps : Caps} {key : Bytes} {val : Slice} {ttl now : Int}
  {prev : Option Entry}

/-! ### The two room-making passes of `put` -/

theorem roomForKey_pops (s : Shard) (caps : Caps) (now : Int) (prev : Option Entry) :
    Pops (fun _ _ _ => True) s (s.roomForKey caps now prev) := by
  unfold roomForKey
  split
  · exact makeRoom_pops _ _ _
  · exact Relation.ReflTransGen.refl

theorem roomForBytes_pops (s : Shard) (caps : Caps) (key : Bytes) (val : Slice) (now : Int)
    (prev : Option Entry) :
    Pops (fun _ _ _ => True) s (s.roomForBytes caps key val now prev).1 := by
  unfold roomForBytes
  dsimp only
  split
  · exact makeRoomBytes_pops _ _ _
  · exact Relation.ReflTransGen.refl

/-- The first pass leaves the entry to be replaced where it is: it runs only when there is none. -/
theorem roomForKey_lookup (s : Shard) (caps : Caps) (key : Bytes) (now : Int) :
    (s.roomForKey caps now (s.data.lookup key)).data.lookup key = s.data.lookup key := by
  rcases (roomForKey_pops s caps now (s.data.lookup key)).lookup key with heq | hnone
  · exact heq
  · cases hlookup : s.data.lookup key with
    | none => rw [hlookup] at hnone; exact hnone
    | some e => simp [roomForKey, hlookup]

theorem roomForBytes_lookup (s : Shard) (caps : Caps) (key : Bytes) (val : Slice) (now : Int) :
    (s.roomForBytes caps key val now (s.data.lookup key)).2
      = (s.roomForBytes caps key val now (s.data.lookup key)).1.data.lookup key := by
  unfold roomForBytes
  dsimp only
  split <;> rfl

/-- The shard once `put` has made room for its value. -/
def roomFor (s : Shard) (caps : Caps) (key : Bytes) (val : Slice) (now : Int) : Shard :=
  let s := s.roomForKey caps now (s.data.lookup key)
  (s.roomForBytes caps key val now (s.data.lookup key)).1

theorem put_eq (s : Shard) (caps : Caps) (key : Bytes) (val : Slice) (ttl now : Int) :
    s.put caps key val ttl now (s.data.lookup key)
      = (s.roomFor caps key val now).store key val ttl now
          ((s.roomFor caps key val now).data.lookup key) := by
  have hlookup := roomForKey_lookup s caps key now
  unfold Shard.put roomFor
  dsimp only
  generalize s.roomForKey caps now (s.data.lookup key) = u at hlookup ⊢
  rw [← hlookup, roomForBytes_lookup u caps key val now]

theorem roomFor_pops (s : Shard) (caps : Caps) (key : Bytes) (val : Slice) (now : Int) :
    Pops (fun _ _ _ => True) s (s.roomFor caps key val now) :=
  (roomForKey_pops _ _ _ _).trans (roomForBytes_pops _ _ _ _ _ _)

/-! ### Storing a value -/

theorem enqueue_eq (s : Shard) (ref : QueueRef) (it : Item) (ttl now : Int) :
    (s.enqueue ref it ttl now).data = ((if expires ttl now then
      (expireQueue ref now writeExpireBudget (s.push ref it)).1 else s.push ref it)).data := by
  unfold enqueue
  dsimp only
  generalize (if expires ttl now then
    (expireQueue ref now writeExpireBudget (s.push ref it)).1 else s.push ref it) = u
  split <;> rfl

theorem Inv.upkeep {ref : QueueRef} {it : Item} (h : (s.push ref it).Inv now) :
    (s.enqueue ref it ttl now).Inv now := by
  have hexpired : (if expires ttl now then
      (expireQueue ref now writeExpireBudget (s.push ref it)).1 else s.push ref it).Inv now := by
    split
    · exact h.pops (expireQueue_pops _ _ _ _)
    · exact h
  unfold enqueue
  dsimp only
  generalize (if expires ttl now then
    (expireQueue ref now writeExpireBudget (s.push ref it)).1 else s.push ref it) = u at hexpired ⊢
  split
  · exact hexpired.compact
  · exact hexpired

theorem expires_iff : expires ttl now = true ↔ 0 < ttl ∧ now ≤ maxInt64 - ttl := by
  simp [expires]

/-- The shard as it stands when its item is about to be pushed. -/
def stored (s : Shard) (key : Bytes) (val : Slice) (deadline : Int) : Shard :=
  { s with
    bytes := s.bytes - ((s.data.lookup key).elim 0 fun e => e.value.len) + val.len
    data := s.data.insert key ⟨val, deadline⟩ }

theorem stored_push (s : Shard) (key : Bytes) (val : Slice) (deadline : Int) (ref : QueueRef)
    (it : Item) : (s.stored key val deadline).push ref it = (s.push ref it).stored key val deadline := by
  cases ref <;> rfl

theorem queueFor_stored (s : Shard) (bytes : Int) (ttl : Int) :
    ({ s with bytes := bytes } : Shard).queueFor ttl
      = ({ (s.queueFor ttl).1 with bytes := bytes }, (s.queueFor ttl).2) := by
  unfold queueFor
  dsimp only
  split <;> rfl

theorem store_of_expires (hexpires : expires ttl now = true) :
    s.store key val ttl now (s.data.lookup key)
      = let u := (s.queueFor ttl).1.stored key val (now + ttl)
        if (s.data.lookup key).any fun e => e.deadline == now + ttl then u
        else u.enqueue (.ttl (s.queueFor ttl).2) ⟨key, now + ttl⟩ ttl now := by
  unfold store place
  simp only [hexpires, if_true, queueFor_stored, stored, queueFor_data, queueFor_bytes]

theorem store_of_not_expires (hexpires : expires ttl now = false) :
    s.store key val ttl now (s.data.lookup key)
      = let u := ({ s with writes := s.writes + 1 } : Shard).stored key val (-(s.writes + 1))
        if (s.data.lookup key).any fun e => e.deadline == -(s.writes + 1) then u
        else u.enqueue .forever ⟨key, -(s.writes + 1)⟩ ttl now := by
  unfold store place
  simp [hexpires, stored]

theorem Inv.store (h : s.Inv now) (hnow : 0 ≤ now) :
    (s.store key val ttl now (s.data.lookup key)).Inv now := by
  cases hexpires : expires ttl now with
  | true =>
      obtain ⟨hopen, httl⟩ := queueFor_spec s ttl
      have hopenRef : ∀ index, QueueRef.ttl (s.queueFor ttl).2 = .ttl index →
          index < (s.queueFor ttl).1.ttlQueues.length := by
        rintro index heq
        cases heq
        exact hopen
      have hpositive : 0 < now + ttl := by
        have := (expires_iff.mp hexpires).1
        omega
      have hqueue := h.queueFor ttl
      rw [store_of_expires hexpires]
      dsimp only
      split
      · -- the earlier item carries this deadline too
        rename_i hsame
        obtain ⟨e, hlookup, hdeadline⟩ := (Option.any_eq_true _ _).mp hsame
        refine hqueue.insert ?_
        have hcovered := hqueue.covered key e (by rw [queueFor_data]; exact hlookup)
        rwa [eq_of_beq hdeadline] at hcovered
      · refine Inv.upkeep ?_
        rw [stored_push]
        refine (hqueue.pushTtl hopen hpositive (by rw [httl])).insert ?_
        refine ⟨.ttl (s.queueFor ttl).2, ?_, ?_⟩
        · simpa using hpositive
        · exact push_mem_rest _ _ _ hopenRef
  | false =>
      have hwrites := h.writes_nonneg
      rw [store_of_not_expires hexpires]
      dsimp only
      split
      · -- a fresh write number is no entry's deadline
        rename_i hsame
        exfalso
        obtain ⟨e, hlookup, hdeadline⟩ := (Option.any_eq_true _ _).mp hsame
        obtain ⟨home, hkind, hmem⟩ := h.covered key e hlookup
        rw [eq_of_beq hdeadline] at hkind hmem
        have hhome : home = .forever := hkind.mpr (by omega)
        rw [hhome] at hmem
        have := (h.foreverBounded _ hmem).1
        dsimp only at this
        omega
      · refine Inv.upkeep ?_
        rw [stored_push]
        refine (h.pushForever ⟨key, -(s.writes + 1)⟩ rfl).insert ?_
        refine ⟨.forever, ?_, ?_⟩
        · simp only [true_iff]
          omega
        · exact push_mem_rest _ _ _ (fun _ heq => nomatch heq)

theorem Inv.put (h : s.Inv now) (hnow : 0 ≤ now) :
    (s.put caps key val ttl now (s.data.lookup key)).Inv now := by
  rw [put_eq]
  exact (h.pops (roomFor_pops s caps key val now)).store hnow

theorem Inv.del (h : s.Inv now) : (s.del key).Inv now := by
  unfold Shard.del
  split
  · exact h
  · rename_i e hlookup
    refine ⟨h.items_eq, ?_, h.writes_nonneg, h.sorted, h.bounded, h.foreverSorted,
      h.foreverBounded, ?_⟩
    · have herase := AList.total_erase_of_lookup (w := fun e : Entry => e.value.len) hlookup
      have hbytes := h.bytes_eq
      dsimp only
      omega
    · intro other e' hother
      by_cases heq : other = key
      · subst heq
        simp at hother
      · simp only [AList.lookup_erase_ne heq] at hother
        exact h.covered other e' hother

theorem Inv.expirePass (h : s.Inv now) (at' : Int) : (s.expirePass at').1.Inv now := by
  have hpops := h.pops (expire_pops s at' expireBatch)
  unfold Shard.expirePass
  split
  · rename_i u heq
    rw [heq] at hpops
    exact hpops
  · rename_i u heq
    rw [heq] at hpops
    exact Inv.dropEmptyQueues hpops

/-! ### What the map of entries keeps -/

theorem enqueue_keeps {I : AList (fun _ : Bytes => Entry) → Prop}
    (herase : ∀ m key, I m → I (m.erase key)) (ref : QueueRef) (it : Item) (h : I s.data) :
    I (s.enqueue ref it ttl now).data := by
  have hpush : I (s.push ref it).data := by rwa [push_data]
  rw [enqueue_eq]
  split
  · exact (expireQueue_pops ref now writeExpireBudget (s.push ref it)).keeps herase hpush
  · exact hpush

/-- A write inserts its entry, and the upkeep after it only erases. -/
theorem store_keeps {I : AList (fun _ : Bytes => Entry) → Prop}
    (herase : ∀ m key, I m → I (m.erase key))
    (hinsert : ∀ deadline, I (s.data.insert key ⟨val, deadline⟩)) :
    I (s.store key val ttl now (s.data.lookup key)).data := by
  cases hexpires : expires ttl now with
  | true =>
      have hstored : I ((s.queueFor ttl).1.stored key val (now + ttl)).data := by
        simpa only [stored, queueFor_data] using hinsert (now + ttl)
      rw [store_of_expires hexpires]
      dsimp only
      split
      · exact hstored
      · exact enqueue_keeps herase _ _ hstored
  | false =>
      rw [store_of_not_expires hexpires]
      dsimp only
      split
      · exact hinsert _
      · exact enqueue_keeps herase _ _ (hinsert _)

theorem del_keeps {I : AList (fun _ : Bytes => Entry) → Prop}
    (herase : ∀ m key, I m → I (m.erase key)) (key : Bytes) (h : I s.data) :
    I (s.del key).data := by
  unfold Shard.del
  split
  · exact h
  · exact herase _ _ h

theorem expirePass_keeps {I : AList (fun _ : Bytes => Entry) → Prop}
    (herase : ∀ m key, I m → I (m.erase key)) (now : Int) (h : I s.data) :
    I (s.expirePass now).1.data := by
  have hpops := (expire_pops s now expireBatch).keeps herase h
  unfold Shard.expirePass
  split
  · rename_i u heq
    rwa [heq] at hpops
  · rename_i u heq
    rwa [heq] at hpops

theorem expireAllLoop_keeps {I : AList (fun _ : Bytes => Entry) → Prop}
    (herase : ∀ m key, I m → I (m.erase key)) (now : Int) (fuel : Nat) (h : I s.data) :
    I (expireAllLoop now fuel s).data := by
  induction fuel generalizing s with
  | zero => exact h
  | succ fuel ih =>
      have hpass := expirePass_keeps herase now h
      unfold expireAllLoop
      split
      · rename_i u heq
        rw [heq] at hpass
        exact ih hpass
      · rename_i u heq
        rwa [heq] at hpass

/-! ### The key cap -/

theorem Pops.size_erase_le {P : Shard → QueueRef → Item → Prop} (h : Pops P s t) (key : Bytes) :
    (t.data.erase key).size ≤ (s.data.erase key).size := by
  refine h.keeps (I := fun m => (m.erase key).size ≤ (s.data.erase key).size) ?_ (Nat.le_refl _)
  intro m other hm
  rw [AList.erase_erase]
  exact (AList.size_erase_le _ _).trans hm

theorem store_size_le (s : Shard) (key : Bytes) (val : Slice) (ttl now : Int) :
    (s.store key val ttl now (s.data.lookup key)).data.size ≤ (s.data.erase key).size + 1 :=
  store_keeps (I := fun m => m.size ≤ (s.data.erase key).size + 1)
    (fun m other hm => (AList.size_erase_le other m).trans hm)
    fun _ => Nat.le_of_eq (AList.size_insert _ _ _)

/-- A covered shard with nothing queued holds nothing. -/
theorem Inv.size_zero (h : s.Inv now) (hempty : ∀ ref, (s.queue ref).rest = []) :
    s.data.size = 0 := by
  refine AList.size_eq_zero_of_lookup ?_
  intro key
  cases hlookup : s.data.lookup key with
  | none => rfl
  | some e =>
      obtain ⟨home, _, hmem⟩ := h.covered key e hlookup
      rw [hempty home] at hmem
      cases hmem

theorem makeRoom_size (h : s.Inv now) (hcap : 0 < caps.perShard) :
    ((s.makeRoom now caps.perShard).data.size : Int) < caps.perShard := by
  have hroom := h.pops (makeRoom_pops s now caps.perShard)
  rcases (evictLoop_spec (fun s => caps.perShard ≤ s.data.size) (s.expire now maxInt).1).2
    with hexit | hempty
  · simpa [makeRoom] using hexit
  · have hzero := hroom.size_zero hempty
    omega

theorem roomForKey_size (key : Bytes) (h : s.Inv now) (hcap : 0 < caps.perShard)
    (hsize : (s.data.size : Int) ≤ caps.perShard) :
    (((s.roomForKey caps now (s.data.lookup key)).data.erase key).size : Int) + 1
      ≤ caps.perShard := by
  have herase := AList.size_erase_le key (s.roomForKey caps now (s.data.lookup key)).data
  cases hlookup : s.data.lookup key with
  | some e =>
      have hroom : s.roomForKey caps now (some e) = s := by simp [roomForKey]
      have hless := AList.size_erase_of_lookup hlookup
      rw [hroom]
      omega
  | none =>
      rw [hlookup] at herase
      by_cases hfull : caps.perShard ≤ s.data.size
      · have hroom : s.roomForKey caps now none = s.makeRoom now caps.perShard := by
          simp [roomForKey, hcap, hfull]
        have hless := makeRoom_size h hcap
        rw [hroom] at herase ⊢
        omega
      · have hroom : s.roomForKey caps now none = s := by simp [roomForKey, hfull]
        rw [hroom] at herase ⊢
        omega

theorem put_size (h : s.Inv now) (hcap : 0 < caps.perShard)
    (hsize : (s.data.size : Int) ≤ caps.perShard) :
    ((s.put caps key val ttl now (s.data.lookup key)).data.size : Int) ≤ caps.perShard := by
  have hroom := roomForKey_size key h hcap hsize
  have hstore := store_size_le (s.roomFor caps key val now) key val ttl now
  have hbytes : ((s.roomFor caps key val now).data.erase key).size
      ≤ ((s.roomForKey caps now (s.data.lookup key)).data.erase key).size :=
    (roomForBytes_pops _ caps key val now _).size_erase_le key
  rw [put_eq]
  omega

/-! ### Runs -/

inductive Op where
  | set (key : Bytes) (val : Slice) (ttl : Int)
  | setNX (key : Bytes) (val : Slice) (ttl : Int)
  | del (key : Bytes)
  | expirePass

def step (s : Shard) (caps : Caps) (now : Int) : Op → Shard
  | .set key val ttl => s.set caps key val ttl now
  | .setNX key val ttl => (s.setNX caps key val ttl now).1
  | .del key => s.del key
  | .expirePass => (s.expirePass now).1

/-- The shards reached from the empty one, each with the last clock reading: readings start at zero
or later and never go back. -/
inductive Reachable (caps : Caps) : Int → Shard → Prop where
  | init {now : Int} : 0 ≤ now → Reachable caps now Shard.empty
  | step {now later : Int} {s : Shard} (op : Op) :
      Reachable caps now s → now ≤ later → Reachable caps later (s.step caps later op)

structure CappedInv (caps : Caps) (now : Int) (s : Shard) : Prop where
  inv : s.Inv now
  size_le : 0 < caps.perShard → (s.data.size : Int) ≤ caps.perShard

theorem CappedInv.put (h : CappedInv caps now s) (hnow : 0 ≤ now) :
    CappedInv caps now (s.put caps key val ttl now (s.data.lookup key)) :=
  ⟨h.inv.put hnow, fun hcap => put_size h.inv hcap (h.size_le hcap)⟩

theorem CappedInv.step (h : CappedInv caps now s) (hnow : 0 ≤ now) (op : Op) :
    CappedInv caps now (s.step caps now op) := by
  cases op with
  | set key val ttl => exact h.put hnow
  | setNX key val ttl =>
      unfold Shard.step setNX
      dsimp only
      split
      · exact h
      · exact h.put hnow
  | del key =>
      refine ⟨h.inv.del, fun hcap => ?_⟩
      have hdel : (s.del key).data.size ≤ s.data.size :=
        del_keeps (I := fun m => m.size ≤ s.data.size)
          (fun m other hm => (AList.size_erase_le other m).trans hm) key (Nat.le_refl _)
      exact (Int.ofNat_le.mpr hdel).trans (h.size_le hcap)
  | expirePass =>
      refine ⟨h.inv.expirePass now, fun hcap => ?_⟩
      have hpass : (s.expirePass now).1.data.size ≤ s.data.size :=
        expirePass_keeps (I := fun m => m.size ≤ s.data.size)
          (fun m other hm => (AList.size_erase_le other m).trans hm) now (Nat.le_refl _)
      exact (Int.ofNat_le.mpr hpass).trans (h.size_le hcap)

theorem Reachable.capped (h : Reachable caps now s) : 0 ≤ now ∧ CappedInv caps now s := by
  induction h with
  | init hnow =>
      exact ⟨hnow, Inv.empty _, fun hcap => by simp only [Shard.empty, AList.size_empty]; omega⟩
  | step op _ hle ih =>
      obtain ⟨hnow, hcapped⟩ := ih
      have hlater := hnow.trans hle
      exact ⟨hlater, CappedInv.step ⟨hcapped.inv.mono hle, hcapped.size_le⟩ hlater op⟩

/-- **The shard's bookkeeping.** In every reachable state, under any caps, the counters are exact,
the queues are in order, every entry has an item of its own, and the key cap holds. -/
theorem reachable_representation (h : Reachable caps now s) :
    s.items = ((s.forever.rest.length + (s.ttlQueues.map fun q => q.rest.length).sum : Nat) : Int)
      ∧ s.bytes = ((s.data.entries.map fun e => e.2.value.len).sum : Nat)
      ∧ (∀ q ∈ s.ttlQueues, q.rest.Pairwise fun a b => a.deadline ≤ b.deadline)
      ∧ (s.forever.rest.Pairwise fun a b => -a.deadline < -b.deadline)
      ∧ (∀ key e, s.data.lookup key = some e →
          (0 < e.deadline → ∃ q ∈ s.ttlQueues, ⟨key, e.deadline⟩ ∈ q.rest)
          ∧ (e.deadline ≤ 0 → ⟨key, e.deadline⟩ ∈ s.forever.rest))
      ∧ (0 < caps.perShard → (s.data.size : Int) ≤ caps.perShard) := by
  obtain ⟨_, hinv, hcap⟩ := h.capped
  have hlen : Queue.len = fun q : Queue => q.rest.length := funext Queue.len_eq
  refine ⟨?_, hinv.bytes_eq, ?_, ?_, ?_, hcap⟩
  · rw [hinv.items_eq, queued, hlen]
  · exact (mem_queue_iff (by simp)).mpr hinv.sorted
  · exact hinv.foreverSorted.imp fun hlt => by omega
  · intro key e hlookup
    obtain ⟨home, hkind, hmem⟩ := hinv.covered key e hlookup
    constructor
    · intro hpositive
      cases home with
      | forever =>
          have := hkind.mp rfl
          omega
      | ttl index => exact exists_ttl_iff.mp ⟨index, hmem⟩
    · intro hnever
      rw [hkind.mpr hnever] at hmem
      exact hmem

theorem reachable_representation_two_writes :
    ((((Shard.empty.step ⟨1, 0⟩ 5 (.set [1] (some [7]) 10)).step ⟨1, 0⟩ 6
      (.set [2] (some [8]) 10)).data.size : Nat) : Int) ≤ 1 :=
  have hreached : Reachable ⟨1, 0⟩ 6 ((Shard.empty.step ⟨1, 0⟩ 5 (.set [1] (some [7]) 10)).step
      ⟨1, 0⟩ 6 (.set [2] (some [8]) 10)) :=
    .step _ (.step _ (.init (Int.le_refl 0)) (by decide)) (by decide)
  (reachable_representation hreached).2.2.2.2.2 (by decide)

end ShardCommon.MemoryCache.Shard
