import ShardCommon.Proof.CacheRefinement

/-!
# What compaction leaves

Compaction keeps the current items, so it brings the queues down to the entry count as long as no
entry has two of them. A write adds a current item of its own; the only way to a second one is to
land on the deadline of an item its key has left behind, which is current again from then on.
-/

namespace ShardCommon.MemoryCache.Shard

variable {s t : Shard} {caps : Caps} {ref : QueueRef} {it : Item} {q : Queue} {key : Bytes}
  {val : Slice} {ttl now later : Int}

/-! ### The items of all queues -/

def inQueues (s : Shard) : List Item := s.forever.rest ++ s.ttlQueues.flatMap Queue.rest

theorem length_inQueues (s : Shard) : s.inQueues.length = s.queued := by
  rw [inQueues, List.length_append, List.length_flatMap, queued, Queue.len_eq]
  congr 3
  exact funext fun q => (Queue.len_eq q).symm

theorem mem_inQueues : it ∈ s.inQueues ↔ ∃ ref, it ∈ (s.queue ref).rest := by
  rw [inQueues, List.mem_append, List.mem_flatMap, ← exists_ttl_iff]
  constructor
  · rintro (hforever | ⟨index, hmem⟩)
    · exact ⟨.forever, hforever⟩
    · exact ⟨.ttl index, hmem⟩
  · rintro ⟨ref, hmem⟩
    cases ref with
    | forever => exact Or.inl hmem
    | ttl index => exact Or.inr ⟨index, hmem⟩

/-- One queue beside the items of all the others. -/
theorem inQueues_split (s : Shard) (ref : QueueRef)
    (hopen : ∀ index, ref = .ttl index → index < s.ttlQueues.length) :
    ∃ others, s.inQueues.Perm ((s.queue ref).rest ++ others)
      ∧ ∀ q, (s.setQueue ref q).inQueues.Perm (q.rest ++ others) := by
  cases ref with
  | forever => exact ⟨s.ttlQueues.flatMap Queue.rest, List.Perm.refl _, fun _ => List.Perm.refl _⟩
  | ttl index =>
      have hlt := hopen index rfl
      have hset : ∀ q, (s.ttlQueues.set index q).flatMap Queue.rest
          = (s.ttlQueues.take index).flatMap Queue.rest
            ++ (q.rest ++ (s.ttlQueues.drop (index + 1)).flatMap Queue.rest) := by
        intro q
        rw [List.set_eq_take_append_cons_drop, if_pos hlt, List.flatMap_append, List.flatMap_cons]
      have hself : s.ttlQueues.set index (s.queue (.ttl index)) = s.ttlQueues := by
        rw [queue_ttl_of_lt hlt]
        exact List.set_getElem_self hlt
      have hsplit : ∀ q, (s.setQueue (.ttl index) q).inQueues.Perm (q.rest ++ (s.forever.rest
          ++ ((s.ttlQueues.take index).flatMap Queue.rest
            ++ (s.ttlQueues.drop (index + 1)).flatMap Queue.rest))) := by
        intro q
        rw [inQueues]
        show (s.forever.rest ++ (s.ttlQueues.set index q).flatMap Queue.rest).Perm _
        rw [hset]
        exact ((List.perm_append_comm_assoc _ _ _).append_left _).trans
          (List.perm_append_comm_assoc _ _ _)
      refine ⟨_, ?_, hsplit⟩
      have hsame := hsplit (s.queue (.ttl index))
      rwa [show (s.setQueue (.ttl index) (s.queue (.ttl index))).inQueues = s.inQueues by
        simp only [setQueue, hself]] at hsame

theorem inQueues_pop (hpop : (s.queue ref).pop = some (it, q)) :
    s.inQueues.Perm (it :: (s.pop ref).inQueues) := by
  obtain ⟨others, hself, hset⟩ := inQueues_split s ref (open_of_pop hpop)
  have hafter : (s.pop ref).inQueues = (s.setQueue ref q).inQueues := by
    rw [pop_eq hpop]
    split <;> rfl
  rw [hafter]
  rw [(Queue.pop_spec hpop).1] at hself
  exact hself.trans ((hset q).symm.cons it)

theorem inQueues_push (s : Shard) (ref : QueueRef) (it : Item)
    (hopen : ∀ index, ref = .ttl index → index < s.ttlQueues.length) :
    (s.push ref it).inQueues.Perm (it :: s.inQueues) := by
  obtain ⟨others, hself, hset⟩ := inQueues_split s ref hopen
  have hpush := hset ((s.queue ref).push it)
  rw [Queue.rest_push, List.append_assoc] at hpush
  exact hpush.trans (List.perm_middle.trans (hself.symm.cons it))

@[simp]
theorem inQueues_queueFor (s : Shard) (ttl : Int) : (s.queueFor ttl).1.inQueues = s.inQueues := by
  unfold queueFor
  split
  · rfl
  · simp [inQueues]

theorem inQueues_compact (s : Shard) :
    s.compact.inQueues = s.inQueues.filter fun it => s.current it := by
  rw [inQueues, inQueues, List.filter_append, List.filter_flatMap]
  congr 1
  rw [compact, List.flatMap_map]
  rfl

theorem inQueues_dropEmptyQueues (s : Shard) : s.dropEmptyQueues.inQueues = s.inQueues := by
  rw [inQueues, inQueues]
  congr 1
  rw [dropEmptyQueues]
  induction s.ttlQueues with
  | nil => rfl
  | cons q queues ih =>
      by_cases hlen : 0 < q.len
      · simp [hlen, ih]
      · have hnil : q.rest = [] := by
          rw [Queue.len_eq] at hlen
          exact List.eq_nil_of_length_eq_zero (Nat.eq_zero_of_not_pos hlen)
        simp [hlen, hnil, ih]

/-! ### One current item per entry -/

/-- No item that is current is queued twice. -/
def Unrepeated (s : Shard) : Prop := ∀ it, s.current it = true → s.inQueues.count it ≤ 1

theorem current_iff :
    s.current it = true ↔ ∃ e, s.data.lookup it.key = some e ∧ e.deadline = it.deadline := by
  simp [current, Option.any_eq_true]

theorem eq_of_current {other : Item} (hcurrent : s.current it = true)
    (hother : s.current other = true) (hkey : it.key = other.key) : it = other := by
  obtain ⟨e, hlookup, hdeadline⟩ := current_iff.mp hcurrent
  obtain ⟨e', hlookup', hdeadline'⟩ := current_iff.mp hother
  rw [← hkey, hlookup] at hlookup'
  cases hlookup'
  cases it
  cases other
  simp_all

/-- The current items number no more than the entries: their keys are distinct and in the map. -/
theorem Unrepeated.length_current_le (h : s.Unrepeated) :
    (s.inQueues.filter fun it => s.current it).length ≤ s.data.size := by
  have hnodup : (s.inQueues.filter fun it => s.current it).Nodup := by
    rw [List.nodup_iff_count_le_one]
    intro it
    by_cases hcurrent : s.current it = true
    · rw [List.count_filter hcurrent]
      exact h it hcurrent
    · rw [List.count_eq_zero_of_not_mem fun hmem => hcurrent (List.mem_filter.mp hmem).2]
      exact Nat.zero_le 1
  have hkeys : ((s.inQueues.filter fun it => s.current it).map Item.key).Nodup := by
    refine hnodup.map_on ?_
    intro a ha b hb hkey
    exact eq_of_current (List.mem_filter.mp ha).2 (List.mem_filter.mp hb).2 hkey
  have hsubset : (s.inQueues.filter fun it => s.current it).map Item.key ⊆ s.data.keys := by
    intro key hmem
    obtain ⟨it, hit, rfl⟩ := List.mem_map.mp hmem
    obtain ⟨e, hlookup, _⟩ := current_iff.mp (List.mem_filter.mp hit).2
    exact AList.lookup_isSome.mp (by rw [hlookup]; rfl)
  have hlength := (List.subperm_of_subset hkeys hsubset).length_le
  rwa [List.length_map, AList.keys, List.keys, List.length_map] at hlength

/-- Losing items and entries repeats nothing. -/
theorem Unrepeated.shrink (h : s.Unrepeated)
    (hcount : ∀ it, t.inQueues.count it ≤ s.inQueues.count it)
    (hcurrent : ∀ it, t.current it = true → s.current it = true) : t.Unrepeated :=
  fun it hit => (hcount it).trans (h it (hcurrent it hit))

theorem current_of_erase
    (hlookup : t.data.lookup it.key = s.data.lookup it.key ∨ t.data.lookup it.key = none)
    (hcurrent : t.current it = true) : s.current it = true := by
  obtain ⟨e, hfound, hdeadline⟩ := current_iff.mp hcurrent
  rcases hlookup with heq | hnone
  · exact current_iff.mpr ⟨e, heq ▸ hfound, hdeadline⟩
  · rw [hnone] at hfound
    cases hfound

theorem Pops.count_le {P : Shard → QueueRef → Item → Prop} (h : Pops P s t) (it : Item) :
    t.inQueues.count it ≤ s.inQueues.count it := by
  refine h.preserves (I := fun u => u.inQueues.count it ≤ s.inQueues.count it) (Nat.le_refl _) ?_
  intro u ref popped q hpop _ hu
  have hcount := (inQueues_pop hpop).count_eq it
  rw [List.count_cons] at hcount
  omega

theorem Unrepeated.pops {P : Shard → QueueRef → Item → Prop} (h : s.Unrepeated)
    (hpops : Pops P s t) : t.Unrepeated :=
  h.shrink hpops.count_le fun _ => current_of_erase (hpops.lookup _)

/-- An item that is current and queued once stays so for as long as it is queued: whatever takes its
entry away takes the item first. -/
theorem Pops.current_of_mem {P : Shard → QueueRef → Item → Prop} (hpops : Pops P s t)
    (honce : s.inQueues.count it ≤ 1) (hcurrent : s.current it = true) (hmem : it ∈ t.inQueues) :
    t.current it = true := by
  refine (hpops.preserves
    (I := fun u => u.inQueues.count it ≤ 1 ∧ (it ∈ u.inQueues → u.current it = true))
    ⟨honce, fun _ => hcurrent⟩ ?_).2 hmem
  rintro u ref popped q hpop - ⟨hcount, hkept⟩
  have hperm := inQueues_pop hpop
  have hsplit := hperm.count_eq it
  rw [List.count_cons] at hsplit
  refine ⟨by omega, fun hleft => ?_⟩
  have hbefore := hkept (hperm.mem_iff.mpr (List.mem_cons_of_mem _ hleft))
  have hne : popped ≠ it := by
    rintro rfl
    have hpos := List.count_pos_iff.mpr hleft
    simp only [BEq.rfl, if_true] at hsplit
    omega
  rw [current, pop_data hpop]
  split
  · rename_i hpopped
    have hkey : it.key ≠ popped.key := fun hkey => hne (eq_of_current hpopped hbefore hkey.symm)
    rw [AList.lookup_erase_ne hkey]
    exact hbefore
  · exact hbefore

/-! ### Steps -/

theorem Unrepeated.compact (h : s.Unrepeated) : s.compact.Unrepeated := by
  refine h.shrink (fun it => ?_) fun _ hcurrent => hcurrent
  rw [inQueues_compact]
  exact List.filter_sublist.count_le it

theorem Unrepeated.del (h : s.Unrepeated) (key : Bytes) : (s.del key).Unrepeated := by
  unfold Shard.del
  split
  · exact h
  · refine h.shrink (fun _ => Nat.le_refl _) fun it => current_of_erase ?_
    by_cases heq : it.key = key
    · right
      rw [heq]
      exact AList.lookup_erase _ _
    · exact Or.inl (AList.lookup_erase_ne heq)

theorem Unrepeated.expirePass (h : s.Unrepeated) (now : Int) : (s.expirePass now).1.Unrepeated := by
  have hpops := h.pops (expire_pops s now expireBatch)
  unfold Shard.expirePass
  split
  · rename_i u heq
    rwa [heq] at hpops
  · rename_i u heq
    rw [heq] at hpops
    refine hpops.shrink (fun it => ?_) fun _ hcurrent => hcurrent
    rw [inQueues_dropEmptyQueues]

theorem stored_current (s : Shard) (val : Slice) (it : Item) (deadline : Int) :
    (s.stored key val deadline).current it
      = if it.key = key then deadline == it.deadline else s.current it := by
  by_cases heq : it.key = key
  · rw [if_pos heq, current, stored, heq, AList.lookup_insert]
    rfl
  · rw [if_neg heq, current, stored, AList.lookup_insert_ne heq]
    rfl

/-- Inserting an entry makes the items with its key and deadline current, and no others. -/
theorem Unrepeated.stored {deadline : Int} (h : s.Unrepeated) (val : Slice)
    (honce : s.inQueues.count ⟨key, deadline⟩ ≤ 1) : (s.stored key val deadline).Unrepeated := by
  intro it hcurrent
  rw [stored_current] at hcurrent
  split at hcurrent
  · rename_i hkey
    have hit : it = ⟨key, deadline⟩ := by
      cases it
      simp_all
    rw [hit]
    exact honce
  · exact h it hcurrent

theorem Unrepeated.push (h : s.Unrepeated)
    (hopen : ∀ index, ref = .ttl index → index < s.ttlQueues.length)
    (hstale : s.current it = false) : (s.push ref it).Unrepeated := by
  intro other hcurrent
  rw [current_congr (push_data s ref it)] at hcurrent
  have hne : it ≠ other := by
    rintro rfl
    rw [hstale] at hcurrent
    cases hcurrent
  rw [(inQueues_push s ref it hopen).count_eq, List.count_cons_of_ne hne]
  exact h other hcurrent

/-- A write's own share of expiry. -/
theorem Unrepeated.expireWrite (h : (s.push ref it).Unrepeated) (ttl now : Int) :
    (if expires ttl now then (expireQueue ref now writeExpireBudget (s.push ref it)).1
      else s.push ref it).Unrepeated := by
  split
  · exact h.pops (expireQueue_pops _ _ _ _)
  · exact h

/-- Where compaction ran, the items left are the current ones; where it did not, the bound was kept
already. -/
theorem enqueue_items_le (h : (s.push ref it).Unrepeated) :
    (s.enqueue ref it ttl now).items ≤ 2 * (s.enqueue ref it ttl now).data.size + compactSlack := by
  have hexpired := h.expireWrite ttl now
  unfold enqueue
  dsimp only
  generalize (if expires ttl now then
    (expireQueue ref now writeExpireBudget (s.push ref it)).1 else s.push ref it) = u at hexpired ⊢
  split
  · have hitems : u.compact.items = u.compact.queued := by simp [Shard.compact, queued]
    have hcurrent := hexpired.length_current_le
    rw [← inQueues_compact, length_inQueues] at hcurrent
    have hsize : u.compact.data.size = u.data.size := rfl
    have hslack : 0 ≤ compactSlack := by decide
    omega
  · omega

theorem Unrepeated.enqueue (h : (s.push ref it).Unrepeated) :
    (s.enqueue ref it ttl now).Unrepeated := by
  have hexpired := h.expireWrite ttl now
  unfold Shard.enqueue
  dsimp only
  generalize (if expires ttl now then
    (expireQueue ref now writeExpireBudget (s.push ref it)).1 else s.push ref it) = u at hexpired ⊢
  split
  · exact hexpired.compact
  · exact hexpired

@[simp]
theorem place_data (s : Shard) (ttl now : Int) : (s.place ttl now).1.data = s.data := by
  unfold place
  split <;> simp

@[simp]
theorem inQueues_place (s : Shard) (ttl now : Int) : (s.place ttl now).1.inQueues = s.inQueues := by
  unfold place
  split
  · exact inQueues_queueFor s ttl
  · rfl

theorem Unrepeated.place (h : s.Unrepeated) (ttl now : Int) : (s.place ttl now).1.Unrepeated := by
  intro it hcurrent
  rw [current_congr (place_data s ttl now)] at hcurrent
  rw [inQueues_place]
  exact h it hcurrent

theorem place_open (s : Shard) (ttl now : Int) (index : Nat)
    (href : (s.place ttl now).2.1 = .ttl index) : index < (s.place ttl now).1.ttlQueues.length := by
  unfold place at href ⊢
  split at href
  · rename_i hexpires
    rw [if_pos hexpires]
    cases href
    exact (queueFor_spec s ttl).1
  · cases href

/-- A write, whichever queue it turns to. -/
theorem store_eq (s : Shard) (key : Bytes) (val : Slice) (ttl now : Int) :
    s.store key val ttl now (s.data.lookup key)
      = let u := (s.place ttl now).1.stored key val (s.deadlineFor ttl now)
        if s.current ⟨key, s.deadlineFor ttl now⟩ then u
        else u.enqueue (s.place ttl now).2.1 ⟨key, s.deadlineFor ttl now⟩ ttl now := by
  cases hexpires : expires ttl now with
  | true =>
      rw [store_of_expires hexpires, deadlineFor_of_expires hexpires]
      simp only [place, hexpires, if_true, current]
  | false =>
      rw [store_of_not_expires hexpires, deadlineFor_of_not_expires hexpires]
      simp [place, hexpires, current]

/-- The item a write queues is alone when the key has left none behind at its deadline. -/
theorem Unrepeated.pushed (h : s.Unrepeated) (val : Slice)
    (hstale : s.current ⟨key, s.deadlineFor ttl now⟩ = false)
    (hfresh : ⟨key, s.deadlineFor ttl now⟩ ∉ s.inQueues) :
    (((s.place ttl now).1.stored key val (s.deadlineFor ttl now)).push (s.place ttl now).2.1
      ⟨key, s.deadlineFor ttl now⟩).Unrepeated := by
  rw [stored_push]
  refine ((h.place ttl now).push (place_open s ttl now) ?_).stored val ?_
  · rw [current_congr (place_data s ttl now)]
    exact hstale
  · rw [(inQueues_push _ _ _ (place_open s ttl now)).count_eq, inQueues_place, List.count_cons_self,
      List.count_eq_zero_of_not_mem hfresh]

theorem Unrepeated.store (h : s.Unrepeated)
    (hfresh : ⟨key, s.deadlineFor ttl now⟩ ∈ s.inQueues →
      s.current ⟨key, s.deadlineFor ttl now⟩ = true) :
    (s.store key val ttl now (s.data.lookup key)).Unrepeated := by
  rw [store_eq]
  dsimp only
  split
  · rename_i hcurrent
    exact (h.place ttl now).stored val (by rw [inQueues_place]; exact h _ hcurrent)
  · rename_i hstale
    exact (h.pushed val (by simpa using hstale) fun hmem => hstale (hfresh hmem)).enqueue

theorem store_items_le (h : s.Unrepeated)
    (hfresh : ⟨key, s.deadlineFor ttl now⟩ ∈ s.inQueues →
      s.current ⟨key, s.deadlineFor ttl now⟩ = true)
    (hqueues : s.current ⟨key, s.deadlineFor ttl now⟩ = false) :
    (s.store key val ttl now (s.data.lookup key)).items
      ≤ 2 * (s.store key val ttl now (s.data.lookup key)).data.size + compactSlack := by
  have hnew : ⟨key, s.deadlineFor ttl now⟩ ∉ s.inQueues := by
    intro hmem
    rw [hfresh hmem] at hqueues
    cases hqueues
  rw [store_eq, hqueues]
  exact enqueue_items_le (h.pushed val hqueues hnew)

/-! ### Runs -/

/-- The key has an item queued at the deadline the write gives it, and the item is stale. -/
def Revives (s : Shard) (key : Bytes) (ttl now : Int) : Prop :=
  ⟨key, s.deadlineFor ttl now⟩ ∈ s.inQueues ∧ s.current ⟨key, s.deadlineFor ttl now⟩ = false

/-- The write queues an item: once room is made, the key's entry does not carry the new deadline. -/
def QueuesItem (s : Shard) (caps : Caps) (key : Bytes) (val : Slice) (ttl now : Int) : Prop :=
  (s.roomFor caps key val now).current
    ⟨key, (s.roomFor caps key val now).deadlineFor ttl now⟩ = false

/-- A fresh write number is no item's deadline. -/
theorem Inv.deadlineFor_not_mem (h : s.Inv now) (hexpires : expires ttl now = false) :
    ⟨key, s.deadlineFor ttl now⟩ ∉ s.inQueues := by
  have hwrites := h.writes_nonneg
  rw [deadlineFor_of_not_expires hexpires, mem_inQueues]
  rintro ⟨ref, hmem⟩
  cases ref with
  | forever =>
      have hbound := (h.foreverBounded _ hmem).1
      dsimp only at hbound
      omega
  | ttl index =>
      have hpositive := (h.bounded index _ hmem).1
      dsimp only at hpositive
      omega

/-- Making room revives nothing: an item of the key that is still queued is still current. -/
theorem roomFor_fresh (hinv : s.Inv now) (h : s.Unrepeated) (hrevives : ¬ s.Revives key ttl now)
    (hmem : ⟨key, (s.roomFor caps key val now).deadlineFor ttl now⟩
      ∈ (s.roomFor caps key val now).inQueues) :
    (s.roomFor caps key val now).current
      ⟨key, (s.roomFor caps key val now).deadlineFor ttl now⟩ = true := by
  have hpops := roomFor_pops s caps key val now
  cases hexpires : expires ttl now with
  | false => exact absurd hmem ((hinv.pops hpops).deadlineFor_not_mem hexpires)
  | true =>
      rw [deadlineFor_of_expires hexpires] at hmem ⊢
      rw [Revives, deadlineFor_of_expires hexpires] at hrevives
      have hbefore : ⟨key, now + ttl⟩ ∈ s.inQueues :=
        List.count_pos_iff.mp (Nat.lt_of_lt_of_le (List.count_pos_iff.mpr hmem) (hpops.count_le _))
      have hcurrent : s.current ⟨key, now + ttl⟩ = true := by
        by_contra hstale
        exact hrevives ⟨hbefore, by simpa using hstale⟩
      exact hpops.current_of_mem (h _ hcurrent) hcurrent hmem

theorem Unrepeated.put (hinv : s.Inv now) (h : s.Unrepeated) (hrevives : ¬ s.Revives key ttl now) :
    (s.put caps key val ttl now (s.data.lookup key)).Unrepeated := by
  rw [put_eq]
  exact (h.pops (roomFor_pops s caps key val now)).store (roomFor_fresh hinv h hrevives)

/-- The write an operation makes, if it makes one: a `SetNX` that finds a live entry writes
nothing. -/
def writeOf (s : Shard) (now : Int) : Op → Option (Bytes × Slice × Int)
  | .set key val ttl => some (key, val, ttl)
  | .setNX key val ttl =>
    if (s.data.lookup key).any fun e => e.live now then none else some (key, val, ttl)
  | .del _ => none
  | .expirePass => none

theorem step_of_writeOf {op : Op} (hwrite : s.writeOf now op = some (key, val, ttl)) :
    s.step caps now op = s.put caps key val ttl now (s.data.lookup key) := by
  cases op with
  | set _ _ _ =>
      cases hwrite
      rfl
  | setNX k v d =>
      rw [writeOf] at hwrite
      split at hwrite
      · cases hwrite
      · rename_i hdead
        cases hwrite
        simp only [step, setNX, if_neg hdead]
  | del _ => cases hwrite
  | expirePass => cases hwrite

theorem Unrepeated.step (hinv : s.Inv now) (h : s.Unrepeated) (op : Op)
    (hrevives : ∀ key val ttl, s.writeOf now op = some (key, val, ttl) → ¬ s.Revives key ttl now) :
    (s.step caps now op).Unrepeated := by
  cases hwrite : s.writeOf now op with
  | some write =>
      obtain ⟨key, val, ttl⟩ := write
      rw [step_of_writeOf hwrite]
      exact h.put hinv (hrevives key val ttl hwrite)
  | none =>
      cases op with
      | set key val ttl => cases hwrite
      | setNX key val ttl =>
          rw [writeOf] at hwrite
          split at hwrite
          · rename_i hlive
            simpa only [Shard.step, setNX, if_pos hlive] using h
          · cases hwrite
      | del key => exact h.del key
      | expirePass => exact h.expirePass now

/-- The runs in which no write revives a stale item of its key, each with the last clock reading. -/
inductive Unrevived (caps : Caps) : Int → Shard → Prop where
  | init {now : Int} : 0 ≤ now → Unrevived caps now Shard.empty
  | step {now later : Int} {s : Shard} (op : Op) : Unrevived caps now s → now ≤ later →
      (∀ key val ttl, s.writeOf later op = some (key, val, ttl) → ¬ s.Revives key ttl later) →
      Unrevived caps later (s.step caps later op)

theorem Unrevived.reachable (h : Unrevived caps now s) : Reachable caps now s := by
  induction h with
  | init hnow => exact .init hnow
  | step op _ hle _ ih => exact .step op ih hle

theorem Unrevived.unrepeated (h : Unrevived caps now s) : s.Unrepeated := by
  induction h with
  | init _ =>
      intro it hcurrent
      cases hcurrent
  | step op hrun hle hrevives ih =>
      exact ih.step (hrun.reachable.capped.2.inv.mono hle) op hrevives

/-- **Stale items do not pile up.** In every run whose writes never land on the deadline of a stale
item of their key, a write that queues an item leaves no more than twice the entries and the slack. -/
theorem stale_items_bounded (h : Unrevived caps now s) (hle : now ≤ later) (op : Op)
    (hwrite : s.writeOf later op = some (key, val, ttl)) (hrevives : ¬ s.Revives key ttl later)
    (hqueues : s.QueuesItem caps key val ttl later) :
    (s.step caps later op).items ≤ 2 * (s.step caps later op).data.size + compactSlack := by
  have hinv := h.reachable.capped.2.inv.mono hle
  rw [step_of_writeOf hwrite, put_eq]
  exact store_items_le (h.unrepeated.pops (roomFor_pops s caps key val later))
    (roomFor_fresh hinv h.unrepeated hrevives) hqueues

theorem stale_items_bounded_rewrite :
    ((Shard.empty.step ⟨0, 0⟩ 5 (.set [1] none 10)).step ⟨0, 0⟩ 6 (.set [1] none 10)).items
      ≤ 2 * ((Shard.empty.step ⟨0, 0⟩ 5 (.set [1] none 10)).step ⟨0, 0⟩ 6
          (.set [1] none 10)).data.size + compactSlack := by
  refine stale_items_bounded (.step (.set [1] none 10) (.init (Int.le_refl 0)) (by decide) ?_)
    (by decide : (5 : Int) ≤ 6) (.set [1] none 10) rfl ?_ rfl
  · rintro _ _ _ - ⟨hmem, -⟩
    cases hmem
  · rintro ⟨hmem, -⟩
    revert hmem
    decide

/-- The shard after setting and deleting one key over and over within one clock tick. -/
def recreated : Nat → Shard
  | 0 => Shard.empty
  | n + 1 => ((recreated n).step ⟨0, 0⟩ 5 (.set [1] none 10)).step ⟨0, 0⟩ 5 (.del [1])

theorem recreated_reachable (n : Nat) : Reachable ⟨0, 0⟩ 5 (recreated n) := by
  induction n with
  | zero => exact .init (by decide)
  | succ n ih => exact .step _ (.step _ ih (Int.le_refl 5)) (Int.le_refl 5)

/-- A shard with one item queued over and over. -/
def piled (n : Nat) (data : AList (fun _ : Bytes => Entry)) : Shard :=
  ⟨data, [⟨10, List.replicate n ⟨[1], 15⟩, 0, Nat.zero_le _⟩], Queue.empty 0, 0, n, 0⟩

theorem piled_compact (n : Nat) :
    (piled n (AList.insert [1] ⟨none, 15⟩ ∅)).compact = piled n (AList.insert [1] ⟨none, 15⟩ ∅) := by
  have hqueues : (piled n (AList.insert [1] ⟨none, 15⟩ ∅)).ttlQueues
      = [⟨10, List.replicate n ⟨[1], 15⟩, 0, Nat.zero_le _⟩] := rfl
  have hkeep : (piled n (AList.insert [1] ⟨none, 15⟩ ∅)).keepCurrent
        ⟨10, List.replicate n ⟨[1], 15⟩, 0, Nat.zero_le _⟩
      = ⟨10, List.replicate n ⟨[1], 15⟩, 0, Nat.zero_le _⟩ := by
    rw [keepCurrent]
    congr 1
    exact List.filter_replicate_of_pos rfl
  rw [compact, hqueues, List.map_singleton, hkeep]
  simp [piled, keepCurrent, Queue.len, Queue.rest, Queue.empty]

/-- The new entry makes every item of the pile current, so compaction has nothing to drop. -/
theorem piled_set (n : Nat) :
    (piled n ∅).step ⟨0, 0⟩ 5 (.set [1] none 10) = piled (n + 1) (AList.insert [1] ⟨none, 15⟩ ∅) := by
  have hpush : (piled n (AList.insert [1] ⟨none, 15⟩ ∅)).push (.ttl 0) ⟨[1], 15⟩
      = piled (n + 1) (AList.insert [1] ⟨none, 15⟩ ∅) := by
    simp only [push, piled, setQueue, queue, List.getD_cons_zero, Queue.push, List.set_cons_zero,
      ← List.replicate_succ']
    rfl
  have hexpire : expireQueue (.ttl 0) 5 writeExpireBudget
        (piled (n + 1) (AList.insert [1] ⟨none, 15⟩ ∅))
      = (piled (n + 1) (AList.insert [1] ⟨none, 15⟩ ∅), 2) := by
    rw [writeExpireBudget, expireQueue]
    rfl
  show (piled n ∅).put ⟨0, 0⟩ [1] none 10 5 none = _
  rw [put_uncapped (by decide) (by decide)]
  refine (@store_of_expires (piled n ∅) [1] none 10 5 rfl).trans ?_
  show (piled n (AList.insert [1] ⟨none, 15⟩ ∅)).enqueue (.ttl 0) ⟨[1], 15⟩ 10 5 = _
  rw [enqueue, hpush, hexpire]
  exact (if_congr Iff.rfl (piled_compact (n + 1)) rfl).trans (ite_self _)

theorem recreated_eq (n : Nat) : recreated (n + 1) = piled (n + 1) ∅ := by
  induction n with
  | zero => rfl
  | succ n ih =>
      rw [recreated, ih, piled_set]
      rfl

/-- One key, set and deleted 1026 times within one clock tick and set once more: 1027 items are
queued for its one entry, and compaction drops none of them. -/
theorem revived_items_pile_up :
    Reachable ⟨0, 0⟩ 5 (recreated 1026)
      ∧ (recreated 1026).writeOf 5 (.set [1] none 10) = some ([1], none, 10)
      ∧ (recreated 1026).QueuesItem ⟨0, 0⟩ [1] none 10 5
      ∧ 2 * ((recreated 1026).step ⟨0, 0⟩ 5 (.set [1] none 10)).data.size + compactSlack
          < ((recreated 1026).step ⟨0, 0⟩ 5 (.set [1] none 10)).items := by
  refine ⟨recreated_reachable 1026, rfl, ?_, ?_⟩
  · rw [recreated_eq]
    rfl
  · rw [recreated_eq, piled_set]
    decide

end ShardCommon.MemoryCache.Shard
