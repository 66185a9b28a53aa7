import ShardCommon.Proof.CacheEviction

/-!
# What a pass of the expirer removes

The pass pops due heads in batches, each under a lock hold of its own that starts again from the
first queue, until a batch ends with budget to spare. What it pops is due, so the entries that go had
expired; and when it ends every queue has a head that is not due, so by the order of the queues
nothing due is left, and an expired entry would have an item there.
-/

namespace ShardCommon.MemoryCache

namespace Shard

variable {s t u : Shard} {now last : Int} {index budget : Nat}

/-! ### One lock hold -/

/-- No item of the queue is due. -/
def Drained (now : Int) (s : Shard) (index : Nat) : Prop :=
  ∀ it ∈ (s.queue (.ttl index)).rest, now < it.deadline

theorem Drained.pops {P : Shard → QueueRef → Item → Prop} (h : Drained now s index)
    (hpops : Pops P s t) : Drained now t index :=
  fun it hit => h it ((hpops.rest_suffix (.ttl index)).subset hit)

theorem Drained.of_peek (h : s.Inv last)
    (hpeek : ∀ it, (s.queue (.ttl index)).peek = some it → now < it.deadline) :
    Drained now s index := by
  intro it hit
  obtain ⟨head, hhead, hle⟩ := head_le_of_mem h hit
  have hlt := hpeek head (by rw [Queue.peek_eq, hhead])
  omega

/-- Budget to spare means that the queue stopped the loop. -/
theorem expireQueue_drained (h : s.Inv last)
    (hleft : (expireQueue (.ttl index) now budget s).2 ≠ 0) :
    Drained now (expireQueue (.ttl index) now budget s).1 index := by
  induction budget generalizing s with
  | zero => exact absurd rfl hleft
  | succ budget ih =>
      unfold expireQueue at hleft ⊢
      split at hleft
      · rename_i hnone
        refine Drained.of_peek h fun it hpeek => ?_
        rw [hnone] at hpeek
        cases hpeek
      · rename_i head hhead
        split at hleft
        · rename_i hdue
          obtain ⟨q, hpop⟩ := exists_pop_of_peek hhead
          simp only [hdue, if_true]
          exact ih (h.pop hpop) hleft
        · rename_i hdue
          simp only [hdue, if_false]
          refine Drained.of_peek h fun it hpeek => ?_
          rw [hhead] at hpeek
          cases hpeek
          omega

theorem expireFrom_drained {indices : List Nat} (h : s.Inv last)
    (hdone : (expireFrom now indices budget s).2 = false) :
    ∀ index ∈ indices, Drained now (expireFrom now indices budget s).1 index := by
  induction indices generalizing s budget with
  | nil =>
      intro index hindex
      cases hindex
  | cons first rest ih =>
      have hfirst := @expireQueue_drained s now last first budget h
      have hinv := h.pops (expireQueue_pops (.ttl first) now budget s)
      unfold expireFrom at hdone ⊢
      generalize expireQueue (.ttl first) now budget s = result at hdone hfirst hinv ⊢
      obtain ⟨v, left⟩ := result
      dsimp only at hdone hfirst hinv ⊢
      split at hdone
      · cases hdone
      · rename_i hleft
        rw [if_neg hleft]
        intro index hindex
        rcases List.mem_cons.mp hindex with rfl | hmem
        · exact (hfirst hleft).pops (expireFrom_pops now rest left v)
        · exact ih hinv hdone index hmem

theorem expire_drained (h : s.Inv last) (hdone : (s.expire now budget).2 = false) (index : Nat) :
    Drained now (s.expire now budget).1 index := by
  by_cases hlt : index < s.ttlQueues.length
  · exact expireFrom_drained h hdone index (List.mem_range.mpr hlt)
  · intro it hit
    have hopen := lt_of_mem_rest hit
    rw [(expire_pops s now budget).length_eq] at hopen
    exact absurd hopen hlt

/-! ### The loop -/

/-- `for more := true; more;` at a fixed clock: the lock holds of the expirer on one shard, the last
of which reports that its budget was enough. -/
inductive ExpireLoop (now : Int) : Shard → Shard → Prop where
  | done {s t : Shard} : s.expirePass now = (t, false) → ExpireLoop now s t
  | more {s u t : Shard} : s.expirePass now = (u, true) → ExpireLoop now u t → ExpireLoop now s t

/-- Every lock hold but the last spends its budget on items, so the loop ends. -/
theorem expireAllLoop_ends (fuel : Nat) (hfuel : s.queued < fuel) :
    ExpireLoop now s (expireAllLoop now fuel s) := by
  induction fuel generalizing s with
  | zero => omega
  | succ fuel ih =>
      have hless := @expirePass_queued_lt s now
      unfold expireAllLoop
      cases hpass : s.expirePass now with
      | mk u more =>
          rw [hpass] at hless
          cases more with
          | false => exact .done hpass
          | true =>
              have hqueued : u.queued < s.queued := hless rfl
              exact .more hpass (ih (by omega))

theorem expirePass_more (hmore : s.expirePass now = (u, true)) :
    s.expire now expireBatch = (u, true) := by
  unfold expirePass at hmore
  split at hmore
  · rename_i v heq
    rw [heq, hmore]
  · cases hmore

theorem expirePass_done (hdone : s.expirePass now = (t, false)) :
    ∃ u, s.expire now expireBatch = (u, false) ∧ t = u.dropEmptyQueues := by
  unfold expirePass at hdone
  split at hdone
  · cases hdone
  · rename_i v heq
    cases hdone
    exact ⟨v, heq, rfl⟩

/-- The whole loop: due items are popped until none is left, and then the empty queues go. -/
theorem ExpireLoop.spec (h : ExpireLoop now s t) (hinv : s.Inv last) :
    ∃ u, Pops (Due now) s u ∧ (∀ index, Drained now u index) ∧ t = u.dropEmptyQueues := by
  induction h with
  | @done s t hdone =>
      obtain ⟨u, hexpire, heq⟩ := expirePass_done hdone
      have hpops := expire_pops s now expireBatch
      have hdrained := @expire_drained s now last expireBatch hinv
      rw [hexpire] at hpops hdrained
      exact ⟨u, hpops, hdrained rfl, heq⟩
  | @more s v t hmore _ ih =>
      have hpops := expire_pops s now expireBatch
      rw [expirePass_more hmore] at hpops
      obtain ⟨u, hrest, hdrained, heq⟩ := ih (hinv.pops hpops)
      exact ⟨u, hpops.trans hrest, hdrained, heq⟩

/-! ### What is left -/

theorem drained_lookup (hinv : s.Inv last) (hpops : Pops (Due now) s u)
    (hdrained : ∀ index, Drained now u index) (key : Bytes) :
    u.data.lookup key = (s.data.lookup key).filter fun e => e.live now := by
  rcases OnlyExpired.of_pops hinv hpops key with heq | ⟨hnone, e, hlookup, hdead⟩
  · cases hlookup : s.data.lookup key with
    | none => rw [heq, hlookup]; rfl
    | some e =>
        -- the entry is still there, so its item is, and that is not due
        have hlive : e.live now = true := by
          rw [hlookup] at heq
          obtain ⟨home, hkind, hmem⟩ := (hinv.pops hpops).covered key e heq
          rw [Entry.live_iff]
          cases home with
          | forever => exact Or.inl (hkind.mp rfl)
          | ttl index => exact Or.inr (hdrained index _ hmem)
        rw [heq, hlookup, Option.filter_some, if_pos hlive]
  · rw [hnone, hlookup, Option.filter_some, if_neg (by simp [hdead])]

/-- Popping due items leaves the others where they are. -/
theorem drained_rest (hpops : Pops (Due now) s u) (hdrained : Drained now u index) :
    (u.queue (.ttl index)).rest
      = (s.queue (.ttl index)).rest.filter fun it => now < it.deadline := by
  have hfilter : (u.queue (.ttl index)).rest.filter (fun it => now < it.deadline)
      = (s.queue (.ttl index)).rest.filter fun it => now < it.deadline := by
    refine hpops.preserves (I := fun v => (v.queue (.ttl index)).rest.filter
      (fun it => now < it.deadline) = (s.queue (.ttl index)).rest.filter fun it => now < it.deadline)
      rfl ?_
    rintro v ref it q hpop ⟨-, hdue⟩ hv
    rw [pop_queue hpop]
    split
    · rename_i heq
      subst heq
      rw [← hv, (Queue.pop_spec hpop).1, List.filter_cons_of_neg (by simpa using hdue)]
    · exact hv
  rw [← hfilter]
  exact (List.filter_eq_self.mpr fun it hit => by simpa using hdrained it hit).symm

theorem drained_queued (hpops : Pops (Due now) s u) (hdrained : ∀ index, Drained now u index) :
    u.queued = s.forever.rest.length
      + (s.ttlQueues.map fun q => q.rest.countP fun it => now < it.deadline).sum := by
  have hforever : u.queue .forever = s.queue .forever :=
    hpops.queue_of_ne (by rintro _ _ _ ⟨⟨_, rfl⟩, -⟩ ⟨⟩)
  rw [queue_forever, queue_forever] at hforever
  have hlens : u.ttlQueues.map Queue.len
      = s.ttlQueues.map fun q => q.rest.countP fun it => now < it.deadline := by
    refine List.ext_getElem (by simp [hpops.length_eq]) fun index hleft hright => ?_
    rw [List.length_map] at hleft hright
    have hrest := drained_rest hpops (hdrained index)
    rw [queue_ttl_of_lt hleft, queue_ttl_of_lt hright] at hrest
    rw [List.getElem_map, List.getElem_map, Queue.len_eq, List.countP_eq_length_filter]
    exact congrArg List.length hrest
  rw [queued, hforever, hlens, Queue.len_eq]

end Shard

namespace Backend

variable {opts : Options} {log : List (Call × Reply)} {b : Backend} {last : Int}

/-- **A pass removes exactly what has expired.** From every reachable state and at any clock, the
expirer's loop over a shard ends; it leaves the live entries and no others, closes the queues that
have no item left, and has the counters follow. -/
theorem expireAll_exact (h : Run opts log last b) (now : Int) (index : Fin shardCount) :
    Shard.ExpireLoop now (b.shards index) ((b.expireAll now).shards index)
      ∧ (∀ key, ((b.expireAll now).shards index).data.lookup key
          = ((b.shards index).data.lookup key).filter fun e => e.live now)
      ∧ (∀ q ∈ ((b.expireAll now).shards index).ttlQueues, q.rest ≠ [])
      ∧ ((b.expireAll now).shards index).items
          = ((b.shards index).forever.rest.length + ((b.shards index).ttlQueues.map fun q =>
              q.rest.countP fun it => now < it.deadline).sum : Nat)
      ∧ ((b.expireAll now).shards index).bytes
          = ((((b.shards index).data.entries.filter fun e => e.2.live now).map fun e =>
              e.2.value.len).sum : Nat) := by
  have hinv := (h.inv index).2
  have hloop : Shard.ExpireLoop now (b.shards index) ((b.expireAll now).shards index) :=
    Shard.expireAllLoop_ends _ (Nat.lt_succ_self _)
  obtain ⟨u, hpops, hdrained, heq⟩ := hloop.spec hinv
  have hlookup := Shard.drained_lookup hinv hpops hdrained
  have hleft := hinv.pops hpops
  refine ⟨hloop, ?_⟩
  rw [heq]
  refine ⟨hlookup, ?_, ?_, ?_⟩
  · intro q hq hnil
    have hlen := (List.mem_filter.mp hq).2
    rw [Queue.len_eq, hnil] at hlen
    cases hlen
  · rw [← Shard.drained_queued hpops hdrained]
    exact hleft.items_eq
  · refine hleft.bytes_eq.trans ?_
    exact congrArg Nat.cast ((AList.entries_perm_filter _ hlookup).map _).sum_eq

theorem expireAll_exact_one_of_two :
    ((((newWithOptions ⟨0, 0⟩).call 1 (.set [1] (some [7]) 5)).1.call 1 (.set [65] (some [8, 8]) 20)).1
      |>.expireAll 6 |>.shards (shardFor [1])).bytes = 2 :=
  (expireAll_exact (.call (.set [65] (some [8, 8]) 20) (.call (.set [1] (some [7]) 5)
    (.init (Int.le_refl 0)) (by decide)) (by decide)) 6 (shardFor [1])).2.2.2.2.trans (by decide)

end Backend

end ShardCommon.MemoryCache
