import ShardCommon.Lib.TtlMap
import ShardCommon.Proof.CacheReachable

/-!
# The uncapped cache is a plain TTL map

With no cap nothing is evicted, so the only entries that leave a shard other than by a delete are
those whose item was popped past its deadline. Such an entry carries that deadline, so it had expired
by then and cannot be seen to go. The relation below says so key by key: what the map of the shard
holds is the last write, or nothing where the last write is over.
-/

namespace ShardCommon.MemoryCache

open TtlMap (Write)

theorem Entry.live_iff {e : Entry} {now : Int} :
    e.live now = true ↔ e.deadline ≤ 0 ∨ now < e.deadline := by
  simp [live]

namespace Shard

variable {s t : Shard} {caps : Caps} {key : Bytes} {val : Slice} {ttl now : Int}

/-- From `s` to `t` no entry changed, and those that went had expired. -/
def OnlyExpired (now : Int) (s t : Shard) : Prop :=
  ∀ key, t.data.lookup key = s.data.lookup key
    ∨ (t.data.lookup key = none ∧ ∃ e, s.data.lookup key = some e ∧ e.live now = false)

theorem OnlyExpired.refl (now : Int) (s : Shard) : OnlyExpired now s s := fun _ => Or.inl rfl

theorem OnlyExpired.of_data (hdata : t.data = s.data) : OnlyExpired now s t :=
  fun key => Or.inl (by rw [hdata])

theorem OnlyExpired.trans {u : Shard} (hst : OnlyExpired now s t) (htu : OnlyExpired now t u) :
    OnlyExpired now s u := by
  intro key
  rcases htu key with heq | ⟨hnone, e, hlookup, hdead⟩
  · rw [heq]
    exact hst key
  · rcases hst key with heq | ⟨hgone, _⟩
    · exact Or.inr ⟨hnone, e, by rw [← heq, hlookup], hdead⟩
    · rw [hgone] at hlookup
      cases hlookup

theorem OnlyExpired.lookup_of_live (h : OnlyExpired now s t) {e : Entry}
    (hlookup : s.data.lookup key = some e) (hlive : e.live now = true) :
    t.data.lookup key = some e := by
  rcases h key with heq | ⟨_, dead, hfound, hdead⟩
  · rw [heq, hlookup]
  · rw [hlookup] at hfound
    cases hfound
    rw [hlive] at hdead
    cases hdead

/-- The expirer's pops delete expired entries only: a TTL queue holds positive deadlines, and the
entry deleted carries the one that was due. -/
theorem OnlyExpired.of_pops {last : Int} (h : s.Inv last) (hpops : Pops (Due now) s t) :
    OnlyExpired now s t := by
  refine (hpops.preserves (I := fun u => u.Inv last ∧ OnlyExpired now s u)
    ⟨h, OnlyExpired.refl now s⟩ ?_).2
  rintro u ref it q hpop ⟨⟨index, rfl⟩, hdue⟩ ⟨hinv, hexpired⟩
  refine ⟨hinv.pop hpop, hexpired.trans ?_⟩
  intro key
  rw [pop_data hpop]
  split
  · rename_i hcurrent
    by_cases heq : key = it.key
    · right
      subst heq
      refine ⟨AList.lookup_erase _ _, ?_⟩
      obtain ⟨e, hlookup, hdeadline⟩ := (Option.any_eq_true _ _).mp hcurrent
      have hpositive := (hinv.bounded index it (by
        rw [(Queue.pop_spec hpop).1]
        exact List.mem_cons_self)).1
      have hsame : e.deadline = it.deadline := eq_of_beq hdeadline
      refine ⟨e, hlookup, ?_⟩
      rw [Bool.eq_false_iff, ne_eq, Entry.live_iff]
      omega
    · exact Or.inl (AList.lookup_erase_ne heq)
  · exact Or.inl rfl

theorem OnlyExpired.expirePass (h : s.Inv now) : OnlyExpired now s (s.expirePass now).1 := by
  have hexpire := OnlyExpired.of_pops h (expire_pops s now expireBatch)
  unfold Shard.expirePass
  split
  · rename_i u heq
    rwa [heq] at hexpire
  · rename_i u heq
    rw [heq] at hexpire
    exact hexpire.trans (OnlyExpired.of_data rfl)

theorem expireAllLoop_spec (fuel : Nat) (h : s.Inv now) :
    (expireAllLoop now fuel s).Inv now ∧ OnlyExpired now s (expireAllLoop now fuel s) := by
  induction fuel generalizing s with
  | zero => exact ⟨h, OnlyExpired.refl now s⟩
  | succ fuel ih =>
      have hinv := h.expirePass now
      have hexpired := OnlyExpired.expirePass h
      unfold expireAllLoop
      split
      · rename_i u heq
        rw [heq] at hinv hexpired
        obtain ⟨hrest, hrun⟩ := ih hinv
        exact ⟨hrest, hexpired.trans hrun⟩
      · rename_i u heq
        rw [heq] at hinv hexpired
        exact ⟨hinv, hexpired⟩

theorem expirePass_queued_lt (hmore : (s.expirePass now).2 = true) :
    (s.expirePass now).1.queued < s.queued := by
  have hspent := expireFrom_queued now (List.range s.ttlQueues.length) expireBatch s
  unfold Shard.expirePass expire at hmore ⊢
  generalize expireFrom now (List.range s.ttlQueues.length) expireBatch s = result at hmore hspent ⊢
  obtain ⟨u, more⟩ := result
  cases more with
  | true =>
      have hpositive : 0 < expireBatch := by decide
      have hqueued : u.queued + expireBatch = s.queued := hspent rfl
      dsimp only
      omega
  | false => cases hmore

theorem OnlyExpired.enqueue {ref : QueueRef} {it : Item} (h : (s.push ref it).Inv now)
    (hkind : expires ttl now = true → ∃ index, ref = .ttl index) :
    OnlyExpired now s (s.enqueue ref it ttl now) := by
  have hpush : OnlyExpired now s (s.push ref it) := OnlyExpired.of_data (push_data s ref it)
  refine hpush.trans (OnlyExpired.trans ?_ (OnlyExpired.of_data (enqueue_eq s ref it ttl now)))
  split
  · rename_i hexpires
    refine OnlyExpired.of_pops h ((expireQueue_pops ref now writeExpireBudget _).imp ?_)
    rintro _ _ _ ⟨rfl, hdue⟩
    exact ⟨hkind hexpires, hdue⟩
  · exact OnlyExpired.refl now _

/-- The deadline records the write: its end when it has one, a write number when it has none. -/
def Records (deadline : Int) (w : Write Slice) : Prop :=
  if expires w.ttl w.time then deadline = w.time + w.ttl ∧ 0 < deadline else deadline ≤ 0

/-- The deadline a write is stored under. -/
def deadlineFor (s : Shard) (ttl now : Int) : Int := (s.place ttl now).2.2

theorem deadlineFor_of_expires (hexpires : expires ttl now = true) :
    s.deadlineFor ttl now = now + ttl := by
  simp [deadlineFor, place, hexpires]

theorem deadlineFor_of_not_expires (hexpires : expires ttl now = false) :
    s.deadlineFor ttl now = -(s.writes + 1) := by
  simp [deadlineFor, place, hexpires]

/-- Pops of due items leave an entry alone whose deadline is to come. -/
theorem lookup_of_due_pops {e : Entry} (hpops : Pops (fun _ _ it => it.deadline ≤ now) s t)
    (hlookup : s.data.lookup key = some e) (hlater : now < e.deadline) :
    t.data.lookup key = some e := by
  refine hpops.preserves (I := fun u => u.data.lookup key = some e) hlookup ?_
  intro u ref it q hpop hdue hfound
  rw [pop_data hpop]
  split
  · rename_i hcurrent
    have hne : key ≠ it.key := by
      rintro rfl
      rw [current, hfound] at hcurrent
      have hsame : e.deadline = it.deadline := eq_of_beq hcurrent
      omega
    rwa [AList.lookup_erase_ne hne]
  · exact hfound

theorem enqueue_lookup {ref : QueueRef} {it : Item} {e : Entry}
    (hlookup : s.data.lookup key = some e) (hlater : expires ttl now = true → now < e.deadline) :
    (s.enqueue ref it ttl now).data.lookup key = some e := by
  have hpush : (s.push ref it).data.lookup key = some e := by rwa [push_data]
  rw [enqueue_eq]
  split
  · rename_i hexpires
    refine lookup_of_due_pops ((expireQueue_pops ref now writeExpireBudget _).imp ?_) hpush
      (hlater hexpires)
    exact fun _ _ _ h => h.2
  · exact hpush

/-- In every state of the shard, a write leaves its entry under its deadline. -/
theorem store_lookup_self (s : Shard) (key : Bytes) (val : Slice) (ttl now : Int) :
    (s.store key val ttl now (s.data.lookup key)).data.lookup key
      = some ⟨val, s.deadlineFor ttl now⟩ := by
  cases hexpires : expires ttl now with
  | true =>
      have httl := (expires_iff.mp hexpires).1
      rw [store_of_expires hexpires, deadlineFor_of_expires hexpires]
      dsimp only
      split
      · exact AList.lookup_insert _
      · refine enqueue_lookup (AList.lookup_insert _) fun _ => ?_
        dsimp only
        omega
  | false =>
      rw [store_of_not_expires hexpires, deadlineFor_of_not_expires hexpires]
      dsimp only
      split
      · exact AList.lookup_insert _
      · refine enqueue_lookup (AList.lookup_insert _) fun h => ?_
        rw [hexpires] at h
        cases h

theorem records_deadlineFor (h : s.Inv now) (hnow : 0 ≤ now) (val : Slice) (ttl : Int) :
    Records (s.deadlineFor ttl now) ⟨val, now, ttl⟩ := by
  have hwrites := h.writes_nonneg
  cases hexpires : expires ttl now with
  | true =>
      have httl := (expires_iff.mp hexpires).1
      rw [Records, if_pos hexpires, deadlineFor_of_expires hexpires]
      exact ⟨rfl, by omega⟩
  | false =>
      rw [Records, if_neg (by simp [hexpires]), deadlineFor_of_not_expires hexpires]
      omega

/-- Beyond inserting its entry, a write removes expired entries only. -/
theorem store_onlyExpired (key : Bytes) (val : Slice) (ttl : Int) (h : s.Inv now) (hnow : 0 ≤ now) :
    OnlyExpired now (s.stored key val (s.deadlineFor ttl now))
      (s.store key val ttl now (s.data.lookup key)) := by
  cases hexpires : expires ttl now with
  | true =>
      obtain ⟨hopen, httl⟩ := queueFor_spec s ttl
      have hpositive : 0 < now + ttl := by
        have := (expires_iff.mp hexpires).1
        omega
      have hpush : ((s.queueFor ttl).1.push (.ttl (s.queueFor ttl).2) ⟨key, now + ttl⟩).Inv now :=
        (h.queueFor ttl).pushTtl hopen hpositive (by rw [httl])
      have hdata : OnlyExpired now (s.stored key val (now + ttl))
          ((s.queueFor ttl).1.stored key val (now + ttl)) :=
        OnlyExpired.of_data (by simp [stored])
      rw [store_of_expires hexpires, deadlineFor_of_expires hexpires]
      dsimp only
      split
      · exact hdata
      · refine hdata.trans (OnlyExpired.enqueue ?_ fun _ => ⟨_, rfl⟩)
        rw [stored_push]
        refine hpush.insert ⟨.ttl (s.queueFor ttl).2, by simpa using hpositive, ?_⟩
        refine push_mem_rest _ _ _ ?_
        rintro index heq
        cases heq
        exact hopen
  | false =>
      have hwrites := h.writes_nonneg
      have hdata : OnlyExpired now (s.stored key val (-(s.writes + 1)))
          (({ s with writes := s.writes + 1 } : Shard).stored key val (-(s.writes + 1))) :=
        OnlyExpired.of_data rfl
      rw [store_of_not_expires hexpires, deadlineFor_of_not_expires hexpires]
      dsimp only
      split
      · exact hdata
      · refine hdata.trans (OnlyExpired.enqueue ?_ fun hcontra => by simp [hexpires] at hcontra)
        rw [stored_push]
        refine (h.pushForever ⟨key, -(s.writes + 1)⟩ rfl).insert
          ⟨.forever, by simp only [true_iff]; omega, ?_⟩
        exact push_mem_rest _ _ _ (by rintro _ ⟨⟩)

theorem put_uncapped (hkeys : caps.perShard ≤ 0) (hbytes : caps.perShardBytes ≤ 0)
    (prev : Option Entry) : s.put caps key val ttl now prev = s.store key val ttl now prev := by
  have hkeys' : ¬ 0 < caps.perShard := by omega
  have hbytes' : ¬ 0 < caps.perShardBytes := by omega
  simp [put, roomForKey, roomForBytes, hkeys', hbytes']

/-! ### The relation -/

/-- What a shard holds under a key against the last write of the key. -/
def Agree (now : Int) (found : Option Entry) : Option (Write Slice) → Prop
  | none => found = none
  | some w => (∃ deadline, found = some ⟨w.value, deadline⟩ ∧ Records deadline w)
      ∨ (found = none ∧ w.present maxInt64 now = false)

theorem live_eq_present {deadline : Int} {w : Write Slice} (hrecords : Records deadline w)
    (now : Int) : Entry.live ⟨w.value, deadline⟩ now = w.present maxInt64 now := by
  rw [Bool.eq_iff_iff, Entry.live_iff, Write.present_iff]
  dsimp only
  unfold Records at hrecords
  split at hrecords
  · rename_i hexpires
    rw [expires_iff] at hexpires
    omega
  · rename_i hexpires
    rw [expires_iff] at hexpires
    omega

theorem Agree.mono {later : Int} {found : Option Entry} {last : Option (Write Slice)}
    (h : Agree now found last) (hle : now ≤ later) : Agree later found last := by
  cases last with
  | none => exact h
  | some w =>
      rcases h with hstored | ⟨hnone, hover⟩
      · exact Or.inl hstored
      · exact Or.inr ⟨hnone, Write.not_present_of_le hle hover⟩

theorem Agree.onlyExpired {last : Option (Write Slice)} (h : Agree now (s.data.lookup key) last)
    (hexpired : OnlyExpired now s t) : Agree now (t.data.lookup key) last := by
  rcases hexpired key with heq | ⟨hnone, e, hlookup, hdead⟩
  · rwa [heq]
  · rw [hlookup] at h
    cases last with
    | none => cases h
    | some w =>
        rcases h with ⟨deadline, hfound, hrecords⟩ | ⟨hcontra, _⟩
        · cases hfound
          exact Or.inr ⟨hnone, by rw [← live_eq_present hrecords now, hdead]⟩
        · cases hcontra

theorem Agree.live {found : Option Entry} {last : Option (Write Slice)} (h : Agree now found last) :
    (found.any fun e => e.live now) = (last.any fun w => w.present maxInt64 now) := by
  cases last with
  | none => rw [show found = none from h]; rfl
  | some w =>
      rcases h with ⟨deadline, rfl, hrecords⟩ | ⟨rfl, hover⟩
      · exact live_eq_present hrecords now
      · simp [hover]

theorem Agree.get {m : Bytes → Option (Write Slice)} (h : Agree now (s.data.lookup key) (m key)) :
    s.get key now = (TtlMap.find maxInt64 m key now).join := by
  unfold Shard.get TtlMap.find
  cases hlast : m key with
  | none =>
      rw [hlast] at h
      rw [show s.data.lookup key = none from h]
      rfl
  | some w =>
      rw [hlast] at h
      rcases h with ⟨deadline, hfound, hrecords⟩ | ⟨hnone, hover⟩
      · rw [hfound]
        simp only [live_eq_present hrecords now, Option.bind_some]
        split <;> rfl
      · rw [hnone]
        simp [hover]

theorem Agree.written (h : s.Inv now) (hnow : 0 ≤ now) :
    Agree now ((s.store key val ttl now (s.data.lookup key)).data.lookup key)
      (some ⟨val, now, ttl⟩) := by
  refine Agree.onlyExpired ?_ (store_onlyExpired key val ttl h hnow)
  exact Or.inl ⟨_, AList.lookup_insert _, records_deadlineFor h hnow val ttl⟩

theorem Agree.unwritten {other : Bytes} {last : Option (Write Slice)} (h : s.Inv now)
    (hnow : 0 ≤ now) (hne : other ≠ key) (hagree : Agree now (s.data.lookup other) last) :
    Agree now ((s.store key val ttl now (s.data.lookup key)).data.lookup other) last := by
  refine Agree.onlyExpired ?_ (store_onlyExpired key val ttl h hnow)
  simpa [stored, AList.lookup_insert_ne hne] using hagree

end Shard

/-! ### Runs of the whole backend -/

inductive Call where
  | set (key : Bytes) (val : Slice) (ttl : Int)
  | setNX (key : Bytes) (val : Slice) (ttl : Int)
  | get (key : Bytes)
  | del (key : Bytes)
  | expirePass (index : Fin shardCount)
  | expireAll

inductive Reply where
  | done
  | won (verdict : Bool)
  | value (v : Slice)

def Backend.call (b : Backend) (now : Int) : Call → Backend × Reply
  | .set key val ttl => (b.set key val ttl now, .done)
  | .setNX key val ttl => ((b.setNX key val ttl now).1, .won (b.setNX key val ttl now).2)
  | .get key => (b, .value (b.get key now))
  | .del key => (b.del key, .done)
  | .expirePass index => (b.expirePass index now, .done)
  | .expireAll => (b.expireAll now, .done)

/-- The reference: a TTL map over all keys, on which the expirer has nothing to do. -/
def refCall (m : Bytes → Option (Write Slice)) (now : Int) :
    Call → (Bytes → Option (Write Slice)) × Reply
  | .set key val ttl => (TtlMap.set m key val ttl now, .done)
  | .setNX key val ttl =>
    ((TtlMap.setNX maxInt64 m key val ttl now).1, .won (TtlMap.setNX maxInt64 m key val ttl now).2)
  | .get key => (m, .value (TtlMap.find maxInt64 m key now).join)
  | .del key => (TtlMap.del m key, .done)
  | .expirePass _ => (m, .done)
  | .expireAll => (m, .done)

def Backend.replies (b : Backend) : List (Int × Call) → List Reply
  | [] => []
  | (now, c) :: rest => (b.call now c).2 :: (b.call now c).1.replies rest

def refReplies (m : Bytes → Option (Write Slice)) : List (Int × Call) → List Reply
  | [] => []
  | (now, c) :: rest => (refCall m now c).2 :: refReplies (refCall m now c).1 rest

structure Simulates (b : Backend) (m : Bytes → Option (Write Slice)) (now : Int) : Prop where
  nonneg : 0 ≤ now
  keys : b.perShard ≤ 0
  bytes : b.perShardBytes ≤ 0
  inv : ∀ index, (b.shards index).Inv now
  agree : ∀ key, Shard.Agree now ((b.shards (shardFor key)).data.lookup key) (m key)

namespace Simulates

variable {b : Backend} {m : Bytes → Option (Write Slice)} {now : Int}

theorem mono {later : Int} (h : Simulates b m now) (hle : now ≤ later) : Simulates b m later :=
  ⟨h.nonneg.trans hle, h.keys, h.bytes, fun index => (h.inv index).mono hle,
    fun key => (h.agree key).mono hle⟩

theorem setShard (h : Simulates b m now) {index : Fin shardCount} {s : Shard}
    {m' : Bytes → Option (Write Slice)} (hinv : s.Inv now)
    (hin : ∀ key, shardFor key = index → Shard.Agree now (s.data.lookup key) (m' key))
    (hout : ∀ key, shardFor key ≠ index → m' key = m key) :
    Simulates (b.setShard index s) m' now := by
  refine ⟨h.nonneg, h.keys, h.bytes, ?_, ?_⟩
  · intro other
    by_cases heq : other = index
    · subst heq
      simpa [Backend.setShard] using hinv
    · simpa [Backend.setShard, Function.update_of_ne heq] using h.inv other
  · intro key
    by_cases heq : shardFor key = index
    · subst heq
      simpa [Backend.setShard] using hin key rfl
    · rw [hout key heq]
      simpa [Backend.setShard, Function.update_of_ne heq] using h.agree key

theorem written (h : Simulates b m now) (key : Bytes) (val : Slice) (ttl : Int) :
    Simulates (b.setShard (shardFor key) ((b.shards (shardFor key)).put b.toCaps key val ttl now
      ((b.shards (shardFor key)).data.lookup key))) (TtlMap.set m key val ttl now) now := by
  have hinv := h.inv (shardFor key)
  rw [Shard.put_uncapped h.keys h.bytes]
  refine h.setShard (hinv.store h.nonneg) ?_ ?_
  · intro other hother
    unfold TtlMap.set
    by_cases heq : other = key
    · subst heq
      rw [Function.update_self]
      exact Shard.Agree.written hinv h.nonneg
    · rw [Function.update_of_ne heq]
      refine Shard.Agree.unwritten hinv h.nonneg heq ?_
      rw [← hother]
      exact h.agree other
  · intro other hother
    refine Function.update_of_ne ?_ _ _
    rintro rfl
    exact hother rfl

theorem set (h : Simulates b m now) (key : Bytes) (val : Slice) (ttl : Int) :
    Simulates (b.set key val ttl now) (TtlMap.set m key val ttl now) now :=
  h.written key val ttl

theorem setShard_self (h : Simulates b m now) (index : Fin shardCount) :
    Simulates (b.setShard index (b.shards index)) m now :=
  h.setShard (h.inv index) (fun key heq => heq ▸ h.agree key) fun _ _ => rfl

theorem setNX (h : Simulates b m now) (key : Bytes) (val : Slice) (ttl : Int) :
    (b.setNX key val ttl now).2 = (TtlMap.setNX maxInt64 m key val ttl now).2
      ∧ Simulates (b.setNX key val ttl now).1 (TtlMap.setNX maxInt64 m key val ttl now).1 now := by
  have hlive := (h.agree key).live
  unfold Backend.setNX Shard.setNX TtlMap.setNX
  dsimp only
  rw [hlive]
  split
  · exact ⟨rfl, h.setShard_self _⟩
  · exact ⟨rfl, h.written key val ttl⟩

theorem del (h : Simulates b m now) (key : Bytes) :
    Simulates (b.del key) (TtlMap.del m key) now := by
  refine h.setShard (h.inv _).del ?_ ?_
  · intro other hother
    unfold TtlMap.del
    by_cases heq : other = key
    · subst heq
      rw [Function.update_self]
      show (((b.shards (shardFor other)).del other).data.lookup other) = none
      unfold Shard.del
      split
      · assumption
      · exact AList.lookup_erase _ _
    · rw [Function.update_of_ne heq]
      have hsame : ((b.shards (shardFor key)).del key).data.lookup other
          = (b.shards (shardFor key)).data.lookup other := by
        unfold Shard.del
        split
        · rfl
        · exact AList.lookup_erase_ne heq
      rw [hsame, ← hother]
      exact h.agree other
  · intro other hother
    refine Function.update_of_ne ?_ _ _
    rintro rfl
    exact hother rfl

theorem expirePass (h : Simulates b m now) (index : Fin shardCount) :
    Simulates (b.expirePass index now) m now := by
  refine h.setShard ((h.inv index).expirePass now) ?_ fun _ _ => rfl
  intro key heq
  refine Shard.Agree.onlyExpired ?_ (Shard.OnlyExpired.expirePass (h.inv index))
  exact heq ▸ h.agree key

theorem expireAll (h : Simulates b m now) : Simulates (b.expireAll now) m now := by
  refine ⟨h.nonneg, h.keys, h.bytes, fun index => (Shard.expireAllLoop_spec _ (h.inv index)).1, ?_⟩
  intro key
  exact (h.agree key).onlyExpired (Shard.expireAllLoop_spec _ (h.inv (shardFor key))).2

theorem call (h : Simulates b m now) (c : Call) :
    (b.call now c).2 = (refCall m now c).2
      ∧ Simulates (b.call now c).1 (refCall m now c).1 now := by
  cases c with
  | set key val ttl => exact ⟨rfl, h.set key val ttl⟩
  | setNX key val ttl =>
      obtain ⟨hverdict, hnext⟩ := h.setNX key val ttl
      exact ⟨congrArg Reply.won hverdict, hnext⟩
  | get key => exact ⟨congrArg Reply.value (h.agree key).get, h⟩
  | del key => exact ⟨rfl, h.del key⟩
  | expirePass index => exact ⟨rfl, h.expirePass index⟩
  | expireAll => exact ⟨rfl, h.expireAll⟩

theorem replies (h : Simulates b m now) (calls : List (Int × Call))
    (hclock : (now :: calls.map Prod.fst).Pairwise (· ≤ ·)) :
    b.replies calls = refReplies m calls := by
  induction calls generalizing b m now with
  | nil => rfl
  | cons timed rest ih =>
      obtain ⟨later, c⟩ := timed
      rw [List.map_cons, List.pairwise_cons] at hclock
      obtain ⟨hreply, hnext⟩ := (h.mono (hclock.1 later List.mem_cons_self)).call c
      unfold Backend.replies refReplies
      rw [hreply, ih hnext hclock.2]

end Simulates

theorem newWithOptions_simulates {opts : Options} (hkeys : opts.maxKeys ≤ 0)
    (hbytes : opts.maxBytes ≤ 0) :
    Simulates (Backend.newWithOptions opts) (fun _ => none) 0 where
  nonneg := Int.le_refl 0
  keys := by simp [Backend.newWithOptions, Int.not_lt.mpr hkeys]
  bytes := by simp [Backend.newWithOptions, Int.not_lt.mpr hbytes]
  inv := fun _ => Shard.Inv.empty 0
  agree := fun _ => AList.lookup_empty _

/-- **The cache is a TTL map.** A backend with neither cap answers every call of every run, with the
expirer's passes anywhere in between, as the plain TTL map does. -/
theorem replies_eq_refReplies (opts : Options) (hkeys : opts.maxKeys ≤ 0)
    (hbytes : opts.maxBytes ≤ 0) (calls : List (Int × Call))
    (hclock : (0 :: calls.map Prod.fst).Pairwise (· ≤ ·)) :
    (Backend.newWithOptions opts).replies calls = refReplies (fun _ => none) calls :=
  (newWithOptions_simulates hkeys hbytes).replies calls hclock

theorem replies_eq_refReplies_expiry :
    (Backend.newWithOptions ⟨0, 0⟩).replies
        [(1, .set [1] (some [7]) 5), (3, .setNX [1] (some [8]) 5), (5, .get [1]), (6, .get [1])]
      = [.done, .won false, .value (some [7]), .value none] :=
  (replies_eq_refReplies ⟨0, 0⟩ (by decide) (by decide) _ (by decide)).trans rfl

end ShardCommon.MemoryCache
