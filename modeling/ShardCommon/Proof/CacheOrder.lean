import ShardCommon.Lib.FirstPlace
import ShardCommon.Proof.CacheInvariant

/-!
# The eviction order of a shard

Which of two entries an eviction takes first can be read off the shard before any of it runs: by
deadline, then by where their items stand in the queues, and last the entries that never expire, by
the number of their write. Pops leave this order among the entries that stay as it was, since they
take out items of other entries only, and an eviction takes the first entry of the order.
-/

namespace ShardCommon.MemoryCache.Shard

variable {s t : Shard} {ref : QueueRef} {it : Item} {q : Queue} {now : Int} {j k : Bytes} {a b : Entry}

/-- All items with a deadline, queue by queue. -/
def ttlItems (s : Shard) : List Item := s.ttlQueues.flatMap Queue.rest

/-- Where the item of an entry stands first. -/
def standing (s : Shard) (key : Bytes) (e : Entry) : Nat := s.ttlItems.idxOf ⟨key, e.deadline⟩

/-- Eviction takes the entry `a` of `j` before the entry `b` of `k`. -/
def GoesBefore (s : Shard) (j : Bytes) (a : Entry) (k : Bytes) (b : Entry) : Prop :=
  if 0 < a.deadline then
    0 < b.deadline → a.deadline < b.deadline
      ∨ a.deadline = b.deadline ∧ s.standing j a < s.standing k b
  else b.deadline < a.deadline

instance (s : Shard) (j : Bytes) (a : Entry) (k : Bytes) (b : Entry) :
    Decidable (s.GoesBefore j a k b) :=
  inferInstanceAs (Decidable (if 0 < a.deadline then
    0 < b.deadline → a.deadline < b.deadline
      ∨ a.deadline = b.deadline ∧ s.standing j a < s.standing k b
  else b.deadline < a.deadline))

theorem GoesBefore.asymm (h : s.GoesBefore j a k b) : ¬ s.GoesBefore k b j a := by
  unfold GoesBefore at h ⊢
  split at h <;> split <;> omega

/-! ### Pops keep the order -/

theorem ttlItems_split {index : Nat} (hopen : index < s.ttlQueues.length) (q : Queue) :
    ∃ post, s.ttlItems
        = (s.ttlQueues.take index).flatMap Queue.rest ++ ((s.queue (.ttl index)).rest ++ post)
      ∧ (s.setQueue (.ttl index) q).ttlItems
        = (s.ttlQueues.take index).flatMap Queue.rest ++ (q.rest ++ post) := by
  refine ⟨(s.ttlQueues.drop (index + 1)).flatMap Queue.rest, ?_, ?_⟩
  · have hcut : s.ttlQueues = s.ttlQueues.take index
        ++ s.ttlQueues.get ⟨index, hopen⟩ :: s.ttlQueues.drop (index + 1) := by
      simp
    rw [queue_ttl_of_lt hopen, ttlItems]
    conv_lhs => rw [hcut]
    rw [List.flatMap_append, List.flatMap_cons]
  · have hcut : s.ttlQueues.set index q
        = s.ttlQueues.take index ++ q :: s.ttlQueues.drop (index + 1) := by
      rw [List.set_eq_take_append_cons_drop, if_pos hopen]
    rw [setQueue, ttlItems, hcut, List.flatMap_append, List.flatMap_cons]

theorem ttlItems_pop (hpop : (s.queue ref).pop = some (it, q)) :
    (s.pop ref).ttlItems = (s.setQueue ref q).ttlItems := by
  rw [pop_eq hpop]
  split <;> rfl

theorem standing_lt_pop (hpop : (s.queue ref).pop = some (it, q)) (ha : it ≠ ⟨j, a.deadline⟩)
    (hb : it ≠ ⟨k, b.deadline⟩) :
    (s.pop ref).standing j a < (s.pop ref).standing k b ↔ s.standing j a < s.standing k b := by
  unfold standing
  rw [ttlItems_pop hpop]
  cases ref with
  | forever => rfl
  | ttl index =>
      obtain ⟨post, hbefore, hafter⟩ := ttlItems_split (open_of_pop hpop index rfl) q
      rw [hbefore, hafter, (Queue.pop_spec hpop).1, List.cons_append]
      exact (List.idxOf_lt_idxOf_of_removed ha hb).symm

/-- Among the entries that stay, the order stays. -/
theorem Pops.goesBefore_iff {P : Shard → QueueRef → Item → Prop} (h : Pops P s t)
    (hj : t.data.lookup j = some a) (hk : t.data.lookup k = some b) :
    t.GoesBefore j a k b ↔ s.GoesBefore j a k b := by
  refine h.preserves (I := fun u => u.data.lookup j = some a → u.data.lookup k = some b →
    (u.GoesBefore j a k b ↔ s.GoesBefore j a k b)) (fun _ _ => Iff.rfl) ?_ hj hk
  intro u ref it q hpop _ hu hj hk
  obtain ⟨hj, hnej⟩ := pop_lookup_some hpop hj
  obtain ⟨hk, hnek⟩ := pop_lookup_some hpop hk
  rw [← hu hj hk, GoesBefore, GoesBefore, standing_lt_pop hpop hnej hnek]

/-! ### An eviction takes the first entry -/

theorem head_le_of_mem (h : s.Inv now) {index : Nat} {it : Item}
    (hmem : it ∈ (s.queue (.ttl index)).rest) :
    ∃ head, (s.queue (.ttl index)).rest.head? = some head ∧ head.deadline ≤ it.deadline := by
  have hsorted := h.sorted index
  cases hrest : (s.queue (.ttl index)).rest with
  | nil =>
      rw [hrest] at hmem
      cases hmem
  | cons head tail =>
      rw [hrest] at hmem hsorted
      refine ⟨head, rfl, ?_⟩
      rcases List.mem_cons.mp hmem with rfl | htail
      · exact Int.le_refl _
      · exact List.rel_of_pairwise_cons hsorted htail

/-- The queues in front of the chosen one hold later deadlines only. -/
theorem lt_of_chosen (h : s.Inv now) {index found : Nat} {other : Item} (hchosen : s.Chosen it (.ttl found))
    (hmem : other ∈ (s.queue (.ttl index)).rest) :
    it.deadline < other.deadline ∨ it.deadline = other.deadline ∧ found ≤ index := by
  obtain ⟨head, hhead, hle⟩ := head_le_of_mem h hmem
  rcases hchosen index head hhead with hlt | ⟨heq, hfound⟩
  · left
    omega
  · omega

theorem standing_lt_of_chosen (h : s.Inv now) {found : Nat}
    (hpop : (s.queue (.ttl found)).pop = some (it, q)) (hchosen : s.Chosen it (.ttl found))
    (ha : a.deadline = it.deadline) (hb : b.deadline = it.deadline) (hne : k ≠ it.key) :
    s.standing it.key a < s.standing k b := by
  have hopen := open_of_pop hpop found rfl
  obtain ⟨post, hitems, _⟩ := ttlItems_split hopen q
  rw [(Queue.pop_spec hpop).1, List.cons_append] at hitems
  have hfront : (⟨k, b.deadline⟩ : Item) ∉ (s.ttlQueues.take found).flatMap Queue.rest := by
    intro hmem
    obtain ⟨queue, hqueue, hitem⟩ := List.mem_flatMap.mp hmem
    obtain ⟨index, hlt, hget⟩ := List.mem_take_iff_getElem.mp hqueue
    have hindex : (⟨k, b.deadline⟩ : Item) ∈ (s.queue (.ttl index)).rest := by
      rw [queue_ttl_of_lt (by omega), List.get_eq_getElem, hget]
      exact hitem
    rcases lt_of_chosen h hchosen hindex with hlater | ⟨_, hle⟩
    · dsimp only at hlater
      omega
    · omega
  unfold standing
  rw [hitems, ha]
  exact List.idxOf_lt_idxOf_of_notMem hfront fun heq => hne (congrArg Item.key heq).symm

/-- The entry of the item that eviction chooses comes before every other entry. -/
theorem goesBefore_of_chosen (h : s.Inv now) (hpop : (s.queue ref).pop = some (it, q))
    (hchosen : s.Chosen it ref) (ha : a.deadline = it.deadline) (hne : k ≠ it.key)
    (hk : s.data.lookup k = some b) : s.GoesBefore it.key a k b := by
  obtain ⟨home, hkind, hmem⟩ := h.covered k b hk
  have hcons := (Queue.pop_spec hpop).1
  cases ref with
  | ttl found =>
      have hpositive := (h.bounded found it (by rw [hcons]; exact List.mem_cons_self)).1
      rw [GoesBefore, if_pos (by omega)]
      intro hexpires
      cases home with
      | forever =>
          have := hkind.mp rfl
          omega
      | ttl index =>
          rcases lt_of_chosen h hchosen hmem with hlt | ⟨heq, _⟩
          · left
            dsimp only at hlt
            omega
          · right
            dsimp only at heq
            exact ⟨by omega, standing_lt_of_chosen h hpop hchosen ha heq.symm hne⟩
  | forever =>
      -- the TTL queues are empty, so the other item waits behind this one
      have hhome : home = .forever := by
        cases home with
        | forever => rfl
        | ttl index =>
            rw [hchosen index] at hmem
            cases hmem
      subst hhome
      have hnegative := (h.foreverBounded it (by
        rw [← queue_forever, hcons]
        exact List.mem_cons_self)).2
      have hsorted := h.foreverSorted
      rw [← queue_forever, hcons] at hsorted
      rw [hcons] at hmem
      rw [GoesBefore, if_neg (by omega), ha]
      rcases List.mem_cons.mp hmem with heq | htail
      · exact absurd (congrArg Item.key heq) hne
      · exact List.rel_of_pairwise_cons hsorted htail

/-- **One eviction.** Exactly one entry goes, the first of all in the order. -/
theorem evict_first (h : s.Inv now) (htrue : s.evict.2 = true) :
    ∃ key e, s.data.lookup key = some e ∧ s.evict.1.data = s.data.erase key
      ∧ ∀ other e', other ≠ key → s.data.lookup other = some e' → s.GoesBefore key e other e' := by
  obtain ⟨u, ref, it, q, hpops, hpop, hcurrent, heq, hchosen⟩ := evict_true htrue
  have hdata : u.data = s.data := hpops.data_eq_of_stale fun _ _ _ hstale => hstale
  obtain ⟨e, hlookup, hdeadline⟩ := (Option.any_eq_true _ _).mp hcurrent
  refine ⟨it.key, e, by rw [← hdata]; exact hlookup, ?_, ?_⟩
  · rw [heq, pop_data hpop, if_pos hcurrent, hdata]
  · intro other e' hne hother
    rw [← hdata] at hother
    exact (hpops.goesBefore_iff hlookup hother).mp
      (goesBefore_of_chosen (h.pops hpops) hpop hchosen (eq_of_beq hdeadline) hne hother)

end ShardCommon.MemoryCache.Shard
