import ShardCommon.Proof.CachePops

/-!
# The shard's representation invariant

The counters count what they say, each TTL queue is sorted by deadline, and every entry has an item
of its own in a queue of its kind. Nothing is asked of the other items: stale ones may sit anywhere,
which is what lets a rewrite or a delete leave them behind, and what lets a write be taken apart into
a push, which adds an item that is not current yet, and an insert, which makes it so.
-/

namespace ShardCommon.MemoryCache.Shard

variable {s t : Shard} {ref : QueueRef} {it : Item} {q : Queue} {key : Bytes} {now : Int}

/-- An item with this key and deadline is queued: in the forever queue when the deadline is a write
number, in a TTL queue when it is a time. -/
def Queued (s : Shard) (key : Bytes) (deadline : Int) : Prop :=
  ∃ ref, (ref = .forever ↔ deadline ≤ 0) ∧ ⟨key, deadline⟩ ∈ (s.queue ref).rest

/-- What holds of a shard whose clock has reached `now`. -/
structure Inv (s : Shard) (now : Int) : Prop where
  items_eq : s.items = s.queued
  bytes_eq : s.bytes = s.data.total fun e => e.value.len
  writes_nonneg : 0 ≤ s.writes
  sorted : ∀ index, (s.queue (.ttl index)).rest.Pairwise fun a b => a.deadline ≤ b.deadline
  bounded : ∀ index, ∀ it ∈ (s.queue (.ttl index)).rest,
    0 < it.deadline ∧ it.deadline ≤ now + (s.queue (.ttl index)).ttl
  foreverSorted : s.forever.rest.Pairwise fun a b => b.deadline < a.deadline
  foreverBounded : ∀ it ∈ s.forever.rest, -s.writes ≤ it.deadline ∧ it.deadline < 0
  covered : ∀ key e, s.data.lookup key = some e → s.Queued key e.deadline

theorem Inv.empty (now : Int) : Shard.empty.Inv now where
  items_eq := rfl
  bytes_eq := rfl
  writes_nonneg := Int.le_refl 0
  sorted := by simp [Shard.empty, queue]
  bounded := by simp [Shard.empty, queue]
  foreverSorted := List.Pairwise.nil
  foreverBounded := by simp [Shard.empty]
  covered := by simp [Shard.empty]

theorem Inv.mono {later : Int} (h : s.Inv now) (hle : now ≤ later) : s.Inv later :=
  { h with
    bounded := fun index it hit => ⟨(h.bounded index it hit).1,
      (h.bounded index it hit).2.trans (by omega)⟩ }

theorem current_of_lookup {e : Entry} (hlookup : s.data.lookup key = some e) :
    s.current ⟨key, e.deadline⟩ = true := by
  simp [current, hlookup]

/-! ### Pops -/

theorem pop_bytes_eq (hbytes : s.bytes = s.data.total fun e => e.value.len)
    (hpop : (s.queue ref).pop = some (it, q)) :
    (s.pop ref).bytes = (s.pop ref).data.total fun e => e.value.len := by
  rw [pop_bytes hpop, pop_data hpop]
  split
  · have herase := AList.total_erase_add (fun e : Entry => e.value.len) it.key s.data
    omega
  · exact hbytes

/-- An entry that is there after a pop was there before, and the item popped was not its own. -/
theorem pop_lookup_some {e : Entry} (hpop : (s.queue ref).pop = some (it, q))
    (hlookup : (s.pop ref).data.lookup key = some e) :
    s.data.lookup key = some e ∧ it ≠ ⟨key, e.deadline⟩ := by
  rw [pop_data hpop] at hlookup
  have hbefore : s.data.lookup key = some e := by
    split at hlookup
    · by_cases heq : key = it.key
      · subst heq
        simp at hlookup
      · rwa [AList.lookup_erase_ne heq] at hlookup
    · exact hlookup
  refine ⟨hbefore, ?_⟩
  rintro rfl
  rw [if_pos (current_of_lookup hbefore)] at hlookup
  simp at hlookup

/-- The popped item covered no entry but its own, and that one goes with it. -/
theorem pop_covered (hcovered : ∀ key e, s.data.lookup key = some e → s.Queued key e.deadline)
    (hpop : (s.queue ref).pop = some (it, q)) (key : Bytes) (e : Entry)
    (hlookup : (s.pop ref).data.lookup key = some e) : (s.pop ref).Queued key e.deadline := by
  obtain ⟨hbefore, hne⟩ := pop_lookup_some hpop hlookup
  obtain ⟨home, hkind, hmem⟩ := hcovered key e hbefore
  refine ⟨home, hkind, ?_⟩
  rw [pop_queue hpop]
  split
  · rename_i heq
    subst heq
    rw [(Queue.pop_spec hpop).1] at hmem
    exact (List.mem_cons.mp hmem).resolve_left hne.symm
  · exact hmem

theorem Inv.pop (h : s.Inv now) (hpop : (s.queue ref).pop = some (it, q)) : (s.pop ref).Inv now := by
  have hrest : ∀ other, ((s.pop ref).queue other).rest <:+ (s.queue other).rest := fun other =>
    Pops.rest_suffix (P := fun _ _ _ => True)
      (Relation.ReflTransGen.single ⟨ref, it, q, hpop, trivial, rfl⟩) other
  have httl : ∀ other, ((s.pop ref).queue other).ttl = (s.queue other).ttl := by
    intro other
    rw [pop_queue hpop]
    split
    · rename_i heq
      rw [heq, (Queue.pop_spec hpop).2]
    · rfl
  refine ⟨?_, pop_bytes_eq h.bytes_eq hpop, ?_, ?_, ?_, ?_, ?_, pop_covered h.covered hpop⟩
  · rw [pop_items hpop, h.items_eq]
    have := pop_queued hpop
    omega
  · rw [pop_writes]
    exact h.writes_nonneg
  · exact fun index => (h.sorted index).sublist (hrest _).sublist
  · intro index it hit
    rw [httl]
    exact h.bounded index it ((hrest _).subset hit)
  · exact h.foreverSorted.sublist (hrest .forever).sublist
  · intro it hit
    rw [pop_writes]
    exact h.foreverBounded it ((hrest .forever).subset hit)

theorem Inv.pops {P : Shard → QueueRef → Item → Prop} (h : s.Inv now) (hpops : Pops P s t) :
    t.Inv now :=
  hpops.preserves (I := fun u => u.Inv now) h fun _ _ _ _ hpop _ hu => Inv.pop hu hpop

/-! ### A write: a queue is found, an item pushed, an entry inserted -/

theorem queueFor_rest (s : Shard) (ttl : Int) (ref : QueueRef) :
    ((s.queueFor ttl).1.queue ref).rest = (s.queue ref).rest := by
  unfold queueFor
  split
  · rfl
  · cases ref with
    | forever => rfl
    | ttl index =>
        rcases Nat.lt_trichotomy index s.ttlQueues.length with hlt | heq | hgt
        · simp [queue, List.getD, List.getElem?_append_left hlt]
        · subst heq
          simp [queue, List.getD]
        · have hlong : (s.ttlQueues ++ [Queue.empty ttl]).length ≤ index := by
            rw [List.length_append, List.length_singleton]
            omega
          simp [queue, List.getD, List.getElem?_eq_none hlong,
            List.getElem?_eq_none (Nat.le_of_lt hgt)]

theorem queueFor_queue_of_lt (s : Shard) (ttl : Int) {index : Nat}
    (hlt : index < s.ttlQueues.length) :
    (s.queueFor ttl).1.queue (.ttl index) = s.queue (.ttl index) := by
  unfold queueFor
  split
  · rfl
  · simp [queue, List.getD, List.getElem?_append_left hlt]

theorem queueFor_spec (s : Shard) (ttl : Int) :
    (s.queueFor ttl).2 < (s.queueFor ttl).1.ttlQueues.length
      ∧ ((s.queueFor ttl).1.queue (.ttl (s.queueFor ttl).2)).ttl = ttl := by
  unfold queueFor
  split
  · rename_i index hfound
    obtain ⟨hlt, heq, _⟩ := List.findIdx?_eq_some_iff_getElem.mp hfound
    exact ⟨hlt, by simpa [queue, List.getD, hlt] using heq⟩
  · exact ⟨by simp, by simp [queue, List.getD, Queue.empty]⟩

@[simp]
theorem queueFor_data (s : Shard) (ttl : Int) : (s.queueFor ttl).1.data = s.data := by
  unfold queueFor
  split <;> rfl

@[simp]
theorem queueFor_bytes (s : Shard) (ttl : Int) : (s.queueFor ttl).1.bytes = s.bytes := by
  unfold queueFor
  split <;> rfl

theorem Inv.queueFor (h : s.Inv now) (ttl : Int) : (s.queueFor ttl).1.Inv now := by
  have hqueued : (s.queueFor ttl).1.queued = s.queued := by
    unfold Shard.queueFor
    split
    · rfl
    · simp [queued, Queue.empty, Queue.len]
  have hitems : (s.queueFor ttl).1.items = s.items ∧ (s.queueFor ttl).1.writes = s.writes
      ∧ (s.queueFor ttl).1.forever = s.forever := by
    unfold Shard.queueFor
    split <;> exact ⟨rfl, rfl, rfl⟩
  refine ⟨?_, ?_, ?_, ?_, ?_, ?_, ?_, ?_⟩
  · rw [hqueued, hitems.1, h.items_eq]
  · rw [queueFor_bytes, queueFor_data, h.bytes_eq]
  · rw [hitems.2.1]
    exact h.writes_nonneg
  · intro index
    rw [queueFor_rest]
    exact h.sorted index
  · intro index it hit
    rw [queueFor_rest] at hit
    rw [queueFor_queue_of_lt s ttl (lt_of_mem_rest hit)]
    exact h.bounded index it hit
  · rw [hitems.2.2]
    exact h.foreverSorted
  · rw [hitems.2.2, hitems.2.1]
    exact h.foreverBounded
  · intro key e hlookup
    rw [queueFor_data] at hlookup
    obtain ⟨home, hkind, hmem⟩ := h.covered key e hlookup
    exact ⟨home, hkind, by rwa [queueFor_rest]⟩

theorem push_queue (s : Shard) (ref other : QueueRef) (it : Item)
    (hopen : ∀ index, ref = .ttl index → index < s.ttlQueues.length) :
    (s.push ref it).queue other
      = if other = ref then (s.queue ref).push it else s.queue other := by
  rw [← queue_setQueue s ref other _ hopen]
  cases other <;> rfl

theorem push_mem_rest (s : Shard) (ref : QueueRef) (it : Item)
    (hopen : ∀ index, ref = .ttl index → index < s.ttlQueues.length) :
    it ∈ ((s.push ref it).queue ref).rest := by
  rw [push_queue s ref ref it hopen, if_pos rfl, Queue.rest_push]
  exact List.mem_append_right _ (List.mem_singleton.mpr rfl)

theorem push_queued (s : Shard) (ref : QueueRef) (it : Item)
    (hopen : ∀ index, ref = .ttl index → index < s.ttlQueues.length) :
    (s.push ref it).queued = s.queued + 1 := by
  have hset := queued_setQueue s ref ((s.queue ref).push it) hopen
  have hlen : ((s.queue ref).push it).len = (s.queue ref).len + 1 := by
    rw [Queue.len_eq, Queue.len_eq, Queue.rest_push, List.length_append, List.length_singleton]
  have hsame : (s.push ref it).queued = (s.setQueue ref ((s.queue ref).push it)).queued := rfl
  omega

@[simp]
theorem push_data (s : Shard) (ref : QueueRef) (it : Item) : (s.push ref it).data = s.data := by
  cases ref <;> rfl

@[simp]
theorem push_writes (s : Shard) (ref : QueueRef) (it : Item) :
    (s.push ref it).writes = s.writes := by
  cases ref <;> rfl

theorem Queued.push {deadline : Int} (h : s.Queued key deadline) (ref : QueueRef) (it : Item)
    (hopen : ∀ index, ref = .ttl index → index < s.ttlQueues.length) :
    (s.push ref it).Queued key deadline := by
  obtain ⟨home, hkind, hmem⟩ := h
  refine ⟨home, hkind, ?_⟩
  rw [push_queue s ref home it hopen]
  split
  · rename_i heq
    rw [Queue.rest_push]
    exact List.mem_append_left _ (heq ▸ hmem)
  · exact hmem

theorem Inv.pushTtl (h : s.Inv now) {index : Nat} (hopen : index < s.ttlQueues.length)
    (hpos : 0 < it.deadline) (hdeadline : it.deadline = now + (s.queue (.ttl index)).ttl) :
    (s.push (.ttl index) it).Inv now := by
  have hopen' : ∀ i, QueueRef.ttl index = .ttl i → i < s.ttlQueues.length := by
    rintro i heq
    cases heq
    exact hopen
  have hforever : (s.push (.ttl index) it).forever = s.forever := rfl
  refine ⟨?_, ?_, ?_, ?_, ?_, ?_, ?_, ?_⟩
  · have hitems : (s.push (.ttl index) it).items = s.items + 1 := rfl
    rw [hitems, push_queued s _ it hopen', h.items_eq]
    omega
  · exact h.bytes_eq
  · exact h.writes_nonneg
  · intro other
    rw [push_queue s _ _ it hopen']
    split
    · rw [Queue.rest_push]
      refine List.pairwise_append.mpr ⟨h.sorted index, List.pairwise_singleton _ _, ?_⟩
      intro a ha b hb
      rw [List.mem_singleton.mp hb, hdeadline]
      exact (h.bounded index a ha).2
    · exact h.sorted other
  · intro other a ha
    rw [push_queue s _ _ it hopen'] at ha ⊢
    split at ha
    · rename_i heq
      rw [if_pos heq, Queue.ttl_push]
      rw [Queue.rest_push] at ha
      rcases List.mem_append.mp ha with hold | hnew
      · exact h.bounded index a hold
      · rw [List.mem_singleton.mp hnew]
        exact ⟨hpos, Int.le_of_eq hdeadline⟩
    · rename_i hne
      rw [if_neg hne]
      exact h.bounded other a ha
  · rw [hforever]
    exact h.foreverSorted
  · rw [hforever, push_writes]
    exact h.foreverBounded
  · intro key e hlookup
    rw [push_data] at hlookup
    exact (h.covered key e hlookup).push _ it hopen'

theorem Inv.pushForever (h : s.Inv now) (it : Item) (hdeadline : it.deadline = -(s.writes + 1)) :
    (({ s with writes := s.writes + 1 } : Shard).push .forever it).Inv now := by
  have hwrites := h.writes_nonneg
  have hqueue : ∀ index, (({ s with writes := s.writes + 1 } : Shard).push .forever it).queue
      (.ttl index) = s.queue (.ttl index) := fun _ => rfl
  have hrest : (({ s with writes := s.writes + 1 } : Shard).push .forever it).forever.rest
      = s.forever.rest ++ [it] := Queue.rest_push _ _
  refine ⟨?_, h.bytes_eq, ?_, h.sorted, h.bounded, ?_, ?_, ?_⟩
  · have hpush := push_queued { s with writes := s.writes + 1 } .forever it (fun _ h => nomatch h)
    have hqueued : ({ s with writes := s.writes + 1 } : Shard).queued = s.queued := rfl
    have hitems : (({ s with writes := s.writes + 1 } : Shard).push .forever it).items
        = s.items + 1 := rfl
    rw [hpush, hqueued, hitems, h.items_eq]
    omega
  · rw [push_writes]
    show 0 ≤ s.writes + 1
    omega
  · rw [hrest]
    refine List.pairwise_append.mpr ⟨h.foreverSorted, List.pairwise_singleton _ _, ?_⟩
    intro a ha b hb
    rw [List.mem_singleton.mp hb, hdeadline]
    have := (h.foreverBounded a ha).1
    omega
  · intro a ha
    rw [push_writes]
    show -(s.writes + 1) ≤ a.deadline ∧ a.deadline < 0
    rw [hrest] at ha
    rcases List.mem_append.mp ha with hold | hnew
    · have := h.foreverBounded a hold
      omega
    · rw [List.mem_singleton.mp hnew, hdeadline]
      omega
  · intro key e hlookup
    rw [push_data] at hlookup
    exact Queued.push (s := { s with writes := s.writes + 1 }) (h.covered key e hlookup) _ it
      (fun _ h => nomatch h)

/-- An entry may be stored under any deadline that has an item queued. -/
theorem Inv.insert {val : Slice} {deadline : Int} (h : s.Inv now)
    (hqueued : s.Queued key deadline) :
    ({ s with
      bytes := s.bytes - ((s.data.lookup key).elim 0 fun e => e.value.len) + val.len
      data := s.data.insert key ⟨val, deadline⟩ } : Shard).Inv now := by
  refine ⟨h.items_eq, ?_, h.writes_nonneg, h.sorted, h.bounded, h.foreverSorted,
    h.foreverBounded, ?_⟩
  · have herase := AList.total_erase_add (fun e : Entry => e.value.len) key s.data
    have hbytes := h.bytes_eq
    simp only [AList.total_insert]
    omega
  · intro other e hlookup
    by_cases heq : other = key
    · subst heq
      simp only [AList.lookup_insert, Option.some.injEq] at hlookup
      subst hlookup
      exact hqueued
    · simp only [AList.lookup_insert_ne heq] at hlookup
      exact h.covered other e hlookup

/-! ### Upkeep -/

theorem compact_rest (s : Shard) (ref : QueueRef) :
    (s.compact.queue ref).rest = (s.queue ref).rest.filter fun it => s.current it := by
  cases ref with
  | forever => rfl
  | ttl index =>
      by_cases hlt : index < s.ttlQueues.length
      · simp [compact, queue, List.getD, hlt, keepCurrent, Queue.rest]
      · have hnone : s.ttlQueues[index]? = none := List.getElem?_eq_none (Nat.le_of_not_lt hlt)
        simp [compact, queue, List.getD, hnone]

theorem compact_ttl {index : Nat} (hlt : index < s.ttlQueues.length) :
    (s.compact.queue (.ttl index)).ttl = (s.queue (.ttl index)).ttl := by
  simp [compact, queue, List.getD, hlt, keepCurrent]

theorem Inv.compact (h : s.Inv now) : s.compact.Inv now := by
  have hsub : ∀ ref, (s.compact.queue ref).rest.Sublist (s.queue ref).rest := by
    intro ref
    rw [compact_rest]
    exact List.filter_sublist
  refine ⟨?_, h.bytes_eq, h.writes_nonneg, fun index => (h.sorted index).sublist (hsub _), ?_,
    h.foreverSorted.sublist (hsub .forever),
    fun it hit => h.foreverBounded it ((hsub .forever).subset hit), ?_⟩
  · simp [Shard.compact, queued]
  · intro index it hit
    have hmem := (hsub _).subset hit
    rw [compact_ttl (lt_of_mem_rest hmem)]
    exact h.bounded index it hmem
  · intro key e hlookup
    obtain ⟨home, hkind, hmem⟩ := h.covered key e hlookup
    refine ⟨home, hkind, ?_⟩
    rw [compact_rest]
    exact List.mem_filter.mpr ⟨hmem, current_of_lookup hlookup⟩

theorem exists_ttl_iff : (∃ index, it ∈ (s.queue (.ttl index)).rest)
    ↔ ∃ q ∈ s.ttlQueues, it ∈ q.rest := by
  constructor
  · rintro ⟨index, hmem⟩
    have hlt := lt_of_mem_rest hmem
    rw [queue_ttl_of_lt hlt] at hmem
    exact ⟨_, List.get_mem _ _, hmem⟩
  · rintro ⟨q, hq, hmem⟩
    obtain ⟨index, hindex⟩ := List.mem_iff_get.mp hq
    refine ⟨index, ?_⟩
    rw [queue_ttl_of_lt index.isLt]
    exact hindex ▸ hmem

private theorem sum_filter_len (l : List Queue) :
    ((l.filter fun q => 0 < q.len).map Queue.len).sum = (l.map Queue.len).sum := by
  induction l with
  | nil => rfl
  | cons q l ih =>
      by_cases hlen : 0 < q.len
      · simp [hlen, ih]
      · simp [ih, Nat.eq_zero_of_not_pos hlen]

theorem Inv.dropEmptyQueues (h : s.Inv now) : s.dropEmptyQueues.Inv now := by
  have hall : ∀ {P : Queue → Prop}, P (Queue.empty 0) → (∀ index, P (s.queue (.ttl index))) →
      ∀ index, P (s.dropEmptyQueues.queue (.ttl index)) := by
    intro P hempty hqueues
    refine (mem_queue_iff hempty).mp ?_
    intro q hq
    exact (mem_queue_iff hempty).mpr hqueues q (List.mem_of_mem_filter hq)
  refine ⟨?_, h.bytes_eq, h.writes_nonneg,
    hall (P := fun q => q.rest.Pairwise fun a b => a.deadline ≤ b.deadline) (by simp) h.sorted,
    hall (P := fun q => ∀ it ∈ q.rest, 0 < it.deadline ∧ it.deadline ≤ now + q.ttl) (by simp)
      h.bounded,
    h.foreverSorted, h.foreverBounded, ?_⟩
  · have hsum := sum_filter_len s.ttlQueues
    have hitems := h.items_eq
    simp only [Shard.dropEmptyQueues, queued] at hitems ⊢
    omega
  · intro key e hlookup
    obtain ⟨home, hkind, hmem⟩ := h.covered key e hlookup
    cases home with
    | forever => exact ⟨.forever, hkind, hmem⟩
    | ttl index =>
        obtain ⟨q, hq, hit⟩ := exists_ttl_iff.mp ⟨index, hmem⟩
        have hlen : 0 < q.len := by
          rw [Queue.len_eq]
          exact List.length_pos_of_mem hit
        obtain ⟨other, hother⟩ := (exists_ttl_iff (s := s.dropEmptyQueues)).mpr
          ⟨q, List.mem_filter.mpr ⟨hq, by simpa using hlen⟩, hit⟩
        exact ⟨.ttl other, by simpa using hkind, hother⟩

end ShardCommon.MemoryCache.Shard
