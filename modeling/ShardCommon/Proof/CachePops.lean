import ShardCommon.MemoryCache
import Mathlib.Logic.Relation
import Mathlib.Tactic.Linarith

/-!
# Everything that removes is a run of pops

Expiry, eviction and the room-making passes differ in which queue they turn to and in when they
stop. What they do to a shard is one thing, repeated: take the head item off a queue and delete its
entry while the item is current. An invariant of one pop is therefore an invariant of all of them,
and what a loop removed is read off the condition under which it popped.
-/

namespace ShardCommon.MemoryCache

namespace Queue

theorem len_eq (q : Queue) : q.len = q.rest.length := by
  simp [len, rest]

theorem peek_eq (q : Queue) : q.peek = q.rest.head? := by
  simp [peek, rest, List.head?_drop]

@[simp]
theorem rest_empty (ttl : Int) : (empty ttl).rest = [] := rfl

@[simp]
theorem rest_push (q : Queue) (it : Item) : (q.push it).rest = q.rest ++ [it] :=
  List.drop_append_of_le_length q.head_le

@[simp]
theorem ttl_push (q : Queue) (it : Item) : (q.push it).ttl = q.ttl := rfl

theorem rest_compact (q : Queue) : q.compact.rest = q.rest := by
  simp [compact, rest]

theorem pop_eq_none_iff {q : Queue} : q.pop = none ↔ q.rest = [] := by
  simp [pop, rest]

theorem pop_spec {q next : Queue} {it : Item} (hpop : q.pop = some (it, next)) :
    q.rest = it :: next.rest ∧ next.ttl = q.ttl := by
  unfold pop at hpop
  split at hpop
  · rename_i hlt
    simp only [Option.some.injEq, Prod.mk.injEq] at hpop
    obtain ⟨rfl, rfl⟩ := hpop
    have hcons : q.rest = q.items.get ⟨q.head, hlt⟩ :: q.items.drop (q.head + 1) := by
      simp [rest]
    split
    · exact ⟨by rw [hcons, rest_compact]; rfl, rfl⟩
    · exact ⟨by rw [hcons]; rfl, rfl⟩
  · cases hpop

theorem exists_pop_of_rest {q : Queue} {it : Item} {tail : List Item} (hrest : q.rest = it :: tail) :
    ∃ next, q.pop = some (it, next) := by
  cases hpop : q.pop with
  | none =>
      rw [pop_eq_none_iff.mp hpop] at hrest
      cases hrest
  | some found =>
      obtain ⟨it', next⟩ := found
      have hspec := (pop_spec hpop).1
      rw [hrest] at hspec
      exact ⟨next, by rw [(List.cons.inj hspec).1]⟩

end Queue

namespace Shard

variable {s : Shard} {ref : QueueRef} {it : Item} {q : Queue}

@[simp]
theorem queue_forever (s : Shard) : s.queue .forever = s.forever := rfl

theorem queue_ttl_of_lt {index : Nat} (hlt : index < s.ttlQueues.length) :
    s.queue (.ttl index) = s.ttlQueues.get ⟨index, hlt⟩ := by
  simp [queue, List.getD, hlt]

theorem rest_queue_of_le {index : Nat} (hle : s.ttlQueues.length ≤ index) :
    (s.queue (.ttl index)).rest = [] := by
  simp [queue, List.getD, List.getElem?_eq_none hle]

theorem lt_of_mem_rest {index : Nat} (hmem : it ∈ (s.queue (.ttl index)).rest) :
    index < s.ttlQueues.length := by
  by_contra hge
  rw [rest_queue_of_le (Nat.le_of_not_lt hge)] at hmem
  cases hmem

theorem mem_queue_iff {P : Queue → Prop} (hempty : P (Queue.empty 0)) :
    (∀ q ∈ s.ttlQueues, P q) ↔ ∀ index, P (s.queue (.ttl index)) := by
  constructor
  · intro hall index
    by_cases hlt : index < s.ttlQueues.length
    · rw [queue_ttl_of_lt hlt]
      exact hall _ (List.get_mem _ _)
    · simpa [queue, List.getD, List.getElem?_eq_none (Nat.le_of_not_lt hlt)] using hempty
  · intro hall q hq
    obtain ⟨index, hindex⟩ := List.mem_iff_get.mp hq
    have hget := hall index
    rw [queue_ttl_of_lt index.isLt] at hget
    exact hindex ▸ hget

theorem queue_setQueue (s : Shard) (ref other : QueueRef) (q : Queue)
    (hopen : ∀ index, ref = .ttl index → index < s.ttlQueues.length) :
    (s.setQueue ref q).queue other = if other = ref then q else s.queue other := by
  cases ref with
  | forever =>
      cases other with
      | forever => simp [setQueue]
      | ttl index => simp [setQueue, queue]
  | ttl target =>
      cases other with
      | forever => simp [setQueue]
      | ttl index =>
          by_cases heq : index = target
          · subst heq
            simp [setQueue, queue, List.getD, hopen index rfl]
          · have hne : target ≠ index := fun h => heq h.symm
            simp [setQueue, queue, List.getD, List.getElem?_set_ne hne, heq]

@[simp]
theorem setQueue_data (s : Shard) (ref : QueueRef) (q : Queue) :
    (s.setQueue ref q).data = s.data := by
  cases ref <;> rfl

@[simp]
theorem setQueue_bytes (s : Shard) (ref : QueueRef) (q : Queue) :
    (s.setQueue ref q).bytes = s.bytes := by
  cases ref <;> rfl

@[simp]
theorem setQueue_writes (s : Shard) (ref : QueueRef) (q : Queue) :
    (s.setQueue ref q).writes = s.writes := by
  cases ref <;> rfl

@[simp]
theorem setQueue_length (s : Shard) (ref : QueueRef) (q : Queue) :
    (s.setQueue ref q).ttlQueues.length = s.ttlQueues.length := by
  cases ref <;> simp [setQueue]

private theorem sum_map_set (l : List Queue) (index : Nat) (hlt : index < l.length) (q : Queue) :
    ((l.set index q).map Queue.len).sum + (l.get ⟨index, hlt⟩).len
      = (l.map Queue.len).sum + q.len := by
  induction l generalizing index with
  | nil => simp at hlt
  | cons head tail ih =>
      cases index with
      | zero => simp only [List.set_cons_zero, List.map_cons, List.sum_cons, List.get]; omega
      | succ index =>
          have htail := ih index (by simpa using hlt)
          simp only [List.set_cons_succ, List.map_cons, List.sum_cons, List.get]
          omega

theorem queued_setQueue (s : Shard) (ref : QueueRef) (q : Queue)
    (hopen : ∀ index, ref = .ttl index → index < s.ttlQueues.length) :
    (s.setQueue ref q).queued + (s.queue ref).len = s.queued + q.len := by
  cases ref with
  | forever =>
      simp only [queued, setQueue, queue_forever]
      omega
  | ttl index =>
      have hlt := hopen index rfl
      have hsum := sum_map_set s.ttlQueues index hlt q
      rw [queue_ttl_of_lt hlt]
      simp only [queued, setQueue]
      omega

/-! ### One pop -/

theorem open_of_pop (hpop : (s.queue ref).pop = some (it, q)) :
    ∀ index, ref = .ttl index → index < s.ttlQueues.length := by
  rintro index rfl
  have hmem : it ∈ (s.queue (.ttl index)).rest := by
    rw [(Queue.pop_spec hpop).1]
    exact List.mem_cons_self
  exact lt_of_mem_rest hmem

theorem pop_eq (hpop : (s.queue ref).pop = some (it, q)) :
    s.pop ref = if s.current it then
      { s.setQueue ref q with
        items := s.items - 1
        bytes := s.bytes - (s.data.lookup it.key).elim 0 fun e => e.value.len
        data := s.data.erase it.key }
    else
      { s.setQueue ref q with items := s.items - 1 } := by
  unfold pop
  rw [hpop]
  simp only [current, setQueue_data, setQueue_bytes]

theorem pop_queue (hpop : (s.queue ref).pop = some (it, q)) (other : QueueRef) :
    (s.pop ref).queue other = if other = ref then q else s.queue other := by
  rw [← queue_setQueue s ref other q (open_of_pop hpop), pop_eq hpop]
  split <;> cases other <;> rfl

theorem pop_data (hpop : (s.queue ref).pop = some (it, q)) :
    (s.pop ref).data = if s.current it then s.data.erase it.key else s.data := by
  rw [pop_eq hpop]
  split <;> simp

theorem pop_bytes (hpop : (s.queue ref).pop = some (it, q)) :
    (s.pop ref).bytes = if s.current it then
      s.bytes - (s.data.lookup it.key).elim 0 fun e => e.value.len else s.bytes := by
  rw [pop_eq hpop]
  split <;> simp

theorem pop_items (hpop : (s.queue ref).pop = some (it, q)) :
    (s.pop ref).items = s.items - 1 := by
  rw [pop_eq hpop]
  split <;> rfl

theorem pop_writes (s : Shard) (ref : QueueRef) : (s.pop ref).writes = s.writes := by
  unfold pop
  split
  · rfl
  · dsimp only
    split <;> simp

theorem pop_length (s : Shard) (ref : QueueRef) :
    (s.pop ref).ttlQueues.length = s.ttlQueues.length := by
  unfold pop
  split
  · rfl
  · dsimp only
    split <;> simp

theorem pop_queued (hpop : (s.queue ref).pop = some (it, q)) :
    (s.pop ref).queued + 1 = s.queued := by
  have hset := queued_setQueue s ref q (open_of_pop hpop)
  have hlen : (s.queue ref).len = q.len + 1 := by
    rw [Queue.len_eq, Queue.len_eq, (Queue.pop_spec hpop).1, List.length_cons]
  have hsame : (s.pop ref).queued = (s.setQueue ref q).queued := by
    rw [pop_eq hpop]
    split <;> rfl
  omega

/-- Dropping a stale head is a pop: there is no entry to delete. -/
theorem dropHead_eq_pop (hpop : (s.queue ref).pop = some (it, q)) (hstale : s.current it = false) :
    s.dropHead ref = s.pop ref := by
  rw [pop_eq hpop, hstale]
  unfold dropHead
  rw [hpop]
  rfl

theorem exists_pop_of_peek (hpeek : (s.queue ref).peek = some it) :
    ∃ q, (s.queue ref).pop = some (it, q) := by
  rw [Queue.peek_eq] at hpeek
  obtain ⟨tail, htail⟩ : ∃ tail, (s.queue ref).rest = it :: tail := by
    cases hrest : (s.queue ref).rest with
    | nil => simp [hrest] at hpeek
    | cons head tail => exact ⟨tail, by simp_all⟩
  exact Queue.exists_pop_of_rest htail

/-! ### Runs of pops -/

def PopStep (P : Shard → QueueRef → Item → Prop) (s t : Shard) : Prop :=
  ∃ ref it q, (s.queue ref).pop = some (it, q) ∧ P s ref it ∧ t = s.pop ref

/-- Any number of pops, each of an item that meets the condition in the state it was popped in. -/
abbrev Pops (P : Shard → QueueRef → Item → Prop) : Shard → Shard → Prop :=
  Relation.ReflTransGen (PopStep P)

variable {P Q : Shard → QueueRef → Item → Prop} {t : Shard}

theorem Pops.imp (h : Pops P s t) (himp : ∀ s ref it, P s ref it → Q s ref it) : Pops Q s t :=
  Relation.ReflTransGen.mono (fun _ _ ⟨ref, it, q, hpop, hP, heq⟩ =>
    ⟨ref, it, q, hpop, himp _ _ _ hP, heq⟩) _ _ h

/-- **The pop rule.** What one pop preserves, every run of pops preserves. -/
theorem Pops.preserves {I : Shard → Prop} (h : Pops P s t) (hs : I s)
    (hstep : ∀ s ref it q, (s.queue ref).pop = some (it, q) → P s ref it → I s → I (s.pop ref)) :
    I t := by
  induction h with
  | refl => exact hs
  | tail _ hlast ih =>
      obtain ⟨ref, it, q, hpop, hP, rfl⟩ := hlast
      exact hstep _ ref it q hpop hP ih

theorem Pops.length_eq (h : Pops P s t) : t.ttlQueues.length = s.ttlQueues.length :=
  h.preserves (I := fun u => u.ttlQueues.length = s.ttlQueues.length) rfl
    fun u ref _ _ _ _ hu => (pop_length u ref).trans hu

theorem Pops.queued_le (h : Pops P s t) : t.queued ≤ s.queued :=
  h.preserves (I := fun u => u.queued ≤ s.queued) (Nat.le_refl _)
    fun u ref it q hpop _ hu => by
      have := pop_queued hpop
      omega

/-- What erasing an entry cannot break, no run of pops breaks. -/
theorem Pops.keeps {I : AList (fun _ : Bytes => Entry) → Prop} (h : Pops P s t)
    (herase : ∀ m key, I m → I (m.erase key)) (hs : I s.data) : I t.data := by
  refine h.preserves (I := fun u => I u.data) hs ?_
  intro u ref it q hpop _ hu
  rw [pop_data hpop]
  split
  · exact herase _ _ hu
  · exact hu

theorem Pops.lookup (h : Pops P s t) (key : Bytes) :
    t.data.lookup key = s.data.lookup key ∨ t.data.lookup key = none := by
  refine h.keeps (I := fun m => m.lookup key = s.data.lookup key ∨ m.lookup key = none) ?_
    (Or.inl rfl)
  intro m other hm
  by_cases heq : key = other
  · subst heq
    exact Or.inr (AList.lookup_erase _ _)
  · rwa [AList.lookup_erase_ne heq]

/-! ### The loops -/

theorem expireQueue_pops (ref : QueueRef) (now : Int) (budget : Nat) (s : Shard) :
    Pops (fun _ r it => r = ref ∧ it.deadline ≤ now) s (expireQueue ref now budget s).1 := by
  induction budget generalizing s with
  | zero => exact Relation.ReflTransGen.refl
  | succ budget ih =>
      unfold expireQueue
      split
      · exact Relation.ReflTransGen.refl
      · rename_i it hpeek
        split
        · rename_i hdue
          obtain ⟨q, hpop⟩ := exists_pop_of_peek hpeek
          exact Relation.ReflTransGen.head ⟨ref, it, q, hpop, ⟨rfl, hdue⟩, rfl⟩ (ih _)
        · exact Relation.ReflTransGen.refl

/-- The condition under which the expirer pops: the head of a TTL queue, past its deadline. -/
def Due (now : Int) (_ : Shard) (ref : QueueRef) (it : Item) : Prop :=
  (∃ index, ref = .ttl index) ∧ it.deadline ≤ now

theorem expireFrom_pops (now : Int) (indices : List Nat) (budget : Nat) (s : Shard) :
    Pops (Due now) s (expireFrom now indices budget s).1 := by
  induction indices generalizing budget s with
  | nil => exact Relation.ReflTransGen.refl
  | cons index rest ih =>
      have hfirst : Pops (Due now) s (expireQueue (.ttl index) now budget s).1 :=
        (expireQueue_pops (.ttl index) now budget s).imp
          fun _ _ _ hdue => ⟨⟨index, hdue.1⟩, hdue.2⟩
      unfold expireFrom
      dsimp only
      split
      · exact hfirst
      · exact hfirst.trans (ih _ _)

theorem expire_pops (s : Shard) (now : Int) (budget : Nat) :
    Pops (Due now) s (s.expire now budget).1 :=
  expireFrom_pops now _ budget s

/-- The budget is spent on items: what is left of it and what is left queued add up. -/
theorem expireQueue_queued (ref : QueueRef) (now : Int) (budget : Nat) (s : Shard) :
    (expireQueue ref now budget s).1.queued + budget
      = s.queued + (expireQueue ref now budget s).2 := by
  induction budget generalizing s with
  | zero => rfl
  | succ budget ih =>
      unfold expireQueue
      split
      · rfl
      · rename_i it hpeek
        split
        · obtain ⟨q, hpop⟩ := exists_pop_of_peek hpeek
          have hone := pop_queued hpop
          have hrest := ih (s.pop ref)
          omega
        · rfl

theorem expireFrom_queued (now : Int) (indices : List Nat) (budget : Nat) (s : Shard)
    (hmore : (expireFrom now indices budget s).2 = true) :
    (expireFrom now indices budget s).1.queued + budget = s.queued := by
  induction indices generalizing budget s with
  | nil => cases hmore
  | cons index rest ih =>
      have hfirst := expireQueue_queued (.ttl index) now budget s
      unfold expireFrom at hmore ⊢
      dsimp only at hmore ⊢
      split at hmore
      · rename_i hzero
        rw [if_pos hzero]
        dsimp only
        omega
      · rename_i hleft
        rw [if_neg hleft]
        have hrest := ih _ _ hmore
        omega

theorem dropStaleLoop_pops (ref : QueueRef) (fuel : Nat) (s : Shard) :
    Pops (fun s r it => r = ref ∧ s.current it = false) s (dropStaleLoop ref fuel s) := by
  induction fuel generalizing s with
  | zero => exact Relation.ReflTransGen.refl
  | succ fuel ih =>
      unfold dropStaleLoop
      split
      · exact Relation.ReflTransGen.refl
      · rename_i it hpeek
        split
        · exact Relation.ReflTransGen.refl
        · rename_i hcurrent
          have hstale : s.current it = false := by simpa using hcurrent
          obtain ⟨q, hpop⟩ := exists_pop_of_peek hpeek
          rw [dropHead_eq_pop hpop hstale]
          exact Relation.ReflTransGen.head ⟨ref, it, q, hpop, ⟨rfl, hstale⟩, rfl⟩ (ih _)

theorem dropStale_pops (s : Shard) (ref : QueueRef) :
    Pops (fun s r it => r = ref ∧ s.current it = false) s (s.dropStale ref) :=
  dropStaleLoop_pops ref _ s

theorem evictScan_pops (indices : List Nat) (s : Shard) (first : Option Nat) :
    Pops (fun s _ it => s.current it = false) s (evictScan indices s first).1 := by
  induction indices generalizing s first with
  | nil => exact Relation.ReflTransGen.refl
  | cons index rest ih =>
      unfold evictScan
      exact ((dropStale_pops s (.ttl index)).imp fun _ _ _ h => h.2).trans (ih _ _)

/-! ### Eviction

Scanning the queues for the earliest head drops only stale items, so the entry that goes is the one
whose current item is popped at the end, and it is always there to be popped. -/

theorem Pops.rest_suffix (h : Pops P s t) (ref : QueueRef) :
    (t.queue ref).rest <:+ (s.queue ref).rest := by
  refine h.preserves (I := fun u => (u.queue ref).rest <:+ (s.queue ref).rest)
    (List.suffix_refl _) ?_
  intro u other it q hpop _ hu
  rw [pop_queue hpop]
  split
  · rename_i heq
    subst heq
    refine List.IsSuffix.trans ?_ hu
    rw [(Queue.pop_spec hpop).1]
    exact List.suffix_cons _ _
  · exact hu

theorem Pops.rest_nil (h : Pops P s t) (hnil : (s.queue ref).rest = []) :
    (t.queue ref).rest = [] := by
  have hsuffix := h.rest_suffix ref
  rw [hnil] at hsuffix
  exact List.eq_nil_of_suffix_nil hsuffix

theorem Pops.data_eq_of_stale (h : Pops P s t)
    (hstale : ∀ s ref it, P s ref it → s.current it = false) : t.data = s.data := by
  refine h.preserves (I := fun u => u.data = s.data) rfl ?_
  intro u ref it q hpop hP hu
  rw [pop_data hpop, hstale u ref it hP, ← hu]
  rfl

theorem Pops.queue_of_ne (h : Pops P s t) {other : QueueRef}
    (hne : ∀ s ref it, P s ref it → ref ≠ other) : t.queue other = s.queue other := by
  refine h.preserves (I := fun u => u.queue other = s.queue other) rfl ?_
  intro u ref it q hpop hP hu
  rw [pop_queue hpop, if_neg (Ne.symm (hne u ref it hP)), hu]

theorem current_congr {t : Shard} (hdata : t.data = s.data) (it : Item) :
    t.current it = s.current it := by
  simp [current, hdata]

def HeadCurrent (s : Shard) (ref : QueueRef) : Prop :=
  ∃ it, (s.queue ref).rest.head? = some it ∧ s.current it = true

theorem dropStale_data (s : Shard) (ref : QueueRef) : (s.dropStale ref).data = s.data :=
  (dropStale_pops s ref).data_eq_of_stale fun _ _ _ h => h.2

/-- One turn per item is enough: the loop ends at a current head or with nothing left. -/
theorem dropStaleLoop_head (ref : QueueRef) (fuel : Nat) (s : Shard)
    (hfuel : (s.queue ref).rest.length ≤ fuel) :
    ((dropStaleLoop ref fuel s).queue ref).rest = [] ∨ (dropStaleLoop ref fuel s).HeadCurrent ref := by
  induction fuel generalizing s with
  | zero =>
      left
      exact List.eq_nil_of_length_eq_zero (Nat.le_zero.mp hfuel)
  | succ fuel ih =>
      unfold dropStaleLoop
      split
      · rename_i hpeek
        left
        rw [Queue.peek_eq] at hpeek
        exact List.head?_eq_none_iff.mp hpeek
      · rename_i it hpeek
        split
        · rename_i hcurrent
          exact Or.inr ⟨it, by rw [← Queue.peek_eq, hpeek], hcurrent⟩
        · rename_i hcurrent
          obtain ⟨q, hpop⟩ := exists_pop_of_peek hpeek
          rw [dropHead_eq_pop hpop (by simpa using hcurrent)]
          refine ih _ ?_
          rw [pop_queue hpop, if_pos rfl]
          rw [(Queue.pop_spec hpop).1, List.length_cons] at hfuel
          omega

theorem dropStale_head (s : Shard) (ref : QueueRef) :
    ((s.dropStale ref).queue ref).rest = [] ∨ (s.dropStale ref).HeadCurrent ref :=
  dropStaleLoop_head ref _ s (Nat.le_of_eq (Queue.len_eq _).symm)

/-- A current head stays where it is while stale items are dropped. -/
theorem head_dropStale (hhead : (s.queue ref).rest.head? = some it) (hcurrent : s.current it = true)
    (other : QueueRef) : ((s.dropStale other).queue ref).rest.head? = some it := by
  by_cases heq : other = ref
  · subst heq
    have hstop : s.dropStale other = s := by
      unfold Shard.dropStale
      cases hlen : (s.queue other).len with
      | zero => rfl
      | succ n =>
          unfold dropStaleLoop
          rw [Queue.peek_eq, hhead]
          simp [hcurrent]
    rw [hstop]
    exact hhead
  · rw [(dropStale_pops s other).queue_of_ne fun _ _ _ h => h.1 ▸ heq]
    exact hhead

theorem HeadCurrent.dropStale (h : s.HeadCurrent ref) (other : QueueRef) :
    (s.dropStale other).HeadCurrent ref := by
  obtain ⟨it, hhead, hcurrent⟩ := h
  refine ⟨it, head_dropStale hhead hcurrent other, ?_⟩
  rw [current_congr (dropStale_data s other)]
  exact hcurrent

theorem head_evictScan (hhead : (s.queue ref).rest.head? = some it) (hcurrent : s.current it = true)
    (indices : List Nat) (first : Option Nat) :
    ((evictScan indices s first).1.queue ref).rest.head? = some it := by
  induction indices generalizing s first with
  | nil => exact hhead
  | cons index rest ih =>
      unfold evictScan
      refine ih (head_dropStale hhead hcurrent _) ?_ _
      rw [current_congr (dropStale_data s _)]
      exact hcurrent

theorem evictScan_none {indices : List Nat} {first : Option Nat}
    (hnone : (evictScan indices s first).2 = none) :
    first = none ∧ ∀ index ∈ indices, ((evictScan indices s first).1.queue (.ttl index)).rest = [] := by
  induction indices generalizing s first with
  | nil => exact ⟨hnone, by simp⟩
  | cons index rest ih =>
      unfold evictScan at hnone ⊢
      obtain ⟨hfirst, hrest⟩ := ih hnone
      have hnot : (0 < ((s.dropStale (.ttl index)).queue (.ttl index)).len
          && first.all fun best => (s.dropStale (.ttl index)).earlier index best) = false := by
        by_contra hbetter
        rw [if_pos (by simpa using hbetter)] at hfirst
        cases hfirst
      rw [hnot] at hfirst
      have hnil : first = none := hfirst
      subst hnil
      refine ⟨rfl, ?_⟩
      intro other hother
      rcases List.mem_cons.mp hother with heq | hmem
      · subst heq
        refine (evictScan_pops rest _ _).rest_nil ?_
        simpa [Queue.len_eq] using hnot
      · exact hrest other hmem

/-- The queue the scan turns to next, once it has dropped the stale head of `index`. -/
def candidate (s : Shard) (index : Nat) (first : Option Nat) : Option Nat :=
  if 0 < (s.queue (.ttl index)).len && first.all fun best => s.earlier index best then some index
  else first

theorem evictScan_cons (index : Nat) (rest : List Nat) (s : Shard) (first : Option Nat) :
    evictScan (index :: rest) s first
      = evictScan rest (s.dropStale (.ttl index))
          ((s.dropStale (.ttl index)).candidate index first) := rfl

theorem HeadCurrent.candidate {index found : Nat} {first : Option Nat}
    (hfirst : ∀ index, first = some index → s.HeadCurrent (.ttl index))
    (hcandidate : (s.dropStale (.ttl index)).candidate index first = some found) :
    (s.dropStale (.ttl index)).HeadCurrent (.ttl found) := by
  rw [Shard.candidate] at hcandidate
  split at hcandidate
  · rename_i hbetter
    cases hcandidate
    have hpos : 0 < ((s.dropStale (.ttl index)).queue (.ttl index)).rest.length := by
      rw [← Queue.len_eq]
      simp only [Bool.and_eq_true, decide_eq_true_eq] at hbetter
      exact hbetter.1
    refine (dropStale_head s (.ttl index)).resolve_left ?_
    intro hnil
    simp [hnil] at hpos
  · exact (hfirst found hcandidate).dropStale _

theorem evictScan_some {indices : List Nat} {first : Option Nat} {found : Nat}
    (hfirst : ∀ index, first = some index → s.HeadCurrent (.ttl index))
    (hsome : (evictScan indices s first).2 = some found) :
    (evictScan indices s first).1.HeadCurrent (.ttl found) := by
  induction indices generalizing s first with
  | nil => exact hfirst found hsome
  | cons index rest ih =>
      rw [evictScan_cons] at hsome ⊢
      exact ih (fun _ hcandidate => HeadCurrent.candidate hfirst hcandidate) hsome

theorem earlier_iff {index first : Nat} {best : Item}
    (hhead : (s.queue (.ttl index)).rest.head? = some it)
    (hbest : (s.queue (.ttl first)).rest.head? = some best) :
    s.earlier index first = true ↔ it.deadline < best.deadline := by
  simp [earlier, Queue.peek_eq, hhead, hbest]

/-- The head `best` of queue `found` is no later than the head `it` of queue `index`: of two heads with
the same deadline, the one of the first queue counts as earlier. -/
def NoLater (best : Item) (found : Nat) (it : Item) (index : Nat) : Prop :=
  best.deadline < it.deadline ∨ best.deadline = it.deadline ∧ found ≤ index

theorem NoLater.refl (it : Item) (index : Nat) : NoLater it index it index :=
  Or.inr ⟨rfl, Nat.le_refl _⟩

theorem NoLater.trans {a b c : Item} {i j k : Nat} (hab : NoLater a i b j) (hbc : NoLater b j c k) :
    NoLater a i c k := by
  unfold NoLater at hab hbc ⊢
  omega

/-- One turn of the scan, seen from the head it uncovered: the candidate's head is no later. -/
theorem candidate_of_head {index : Nat} {first : Option Nat}
    (hfirst : ∀ index, first = some index → s.HeadCurrent (.ttl index))
    (hbelow : ∀ old, first = some old → old < index)
    (hhead : (s.queue (.ttl index)).rest.head? = some it) :
    ∃ found best, s.candidate index first = some found
      ∧ (s.queue (.ttl found)).rest.head? = some best ∧ NoLater best found it index := by
  have hpos : 0 < (s.queue (.ttl index)).len := by
    rw [Queue.len_eq]
    exact List.length_pos_of_mem (List.mem_of_mem_head? hhead)
  rw [candidate]
  split
  · exact ⟨index, it, rfl, hhead, .refl it index⟩
  · rename_i hworse
    cases first with
    | none => simp [hpos] at hworse
    | some old =>
        obtain ⟨best, hbest, _⟩ := hfirst old rfl
        have hlt := hbelow old rfl
        refine ⟨old, best, rfl, hbest, ?_⟩
        simp only [hpos, decide_true, Bool.true_and, Option.all_some] at hworse
        rw [earlier_iff hhead hbest] at hworse
        unfold NoLater
        omega

/-- The same turn, seen from the queue chosen before it. -/
theorem candidate_of_first {index old : Nat}
    (hhead : (s.queue (.ttl old)).rest.head? = some it) :
    ∃ found best, s.candidate index (some old) = some found
      ∧ (s.queue (.ttl found)).rest.head? = some best ∧ NoLater best found it old := by
  rw [candidate]
  split
  · rename_i hbetter
    simp only [Bool.and_eq_true, Option.all_some, decide_eq_true_eq] at hbetter
    cases hbest : (s.queue (.ttl index)).rest.head? with
    | none =>
        rw [Queue.len_eq, List.head?_eq_none_iff.mp hbest] at hbetter
        cases hbetter.1
    | some best =>
        exact ⟨index, best, rfl, hbest, Or.inl ((earlier_iff hbest hhead).mp hbetter.2)⟩
  · exact ⟨old, it, rfl, hhead, .refl it old⟩

theorem candidate_lt {index found later : Nat} {first : Option Nat}
    (hbelow : ∀ old, first = some old → old < later) (hindex : index < later)
    (h : s.candidate index first = some found) : found < later := by
  rw [candidate] at h
  split at h
  · cases h
    exact hindex
  · exact hbelow found h

/-- The scan ends at a queue whose head is the earliest of all heads it has seen. -/
theorem evictScan_least {indices : List Nat} {first : Option Nat} {found : Nat} {best : Item}
    (hfirst : ∀ index, first = some index → s.HeadCurrent (.ttl index))
    (hsorted : indices.Pairwise (· < ·))
    (hbelow : ∀ old, first = some old → ∀ index ∈ indices, old < index)
    (hsome : (evictScan indices s first).2 = some found)
    (hbest : ((evictScan indices s first).1.queue (.ttl found)).rest.head? = some best) :
    (∀ index ∈ indices, ∀ it, ((evictScan indices s first).1.queue (.ttl index)).rest.head? = some it →
        NoLater best found it index)
      ∧ ∀ index, first = some index → ∀ it, (s.queue (.ttl index)).rest.head? = some it →
          NoLater best found it index := by
  induction indices generalizing s first with
  | nil =>
      refine ⟨by simp, fun index hindex it hit => ?_⟩
      obtain rfl : index = found := Option.some.inj (hindex.symm.trans hsome)
      obtain rfl : it = best := Option.some.inj (hit.symm.trans hbest)
      exact .refl it index
  | cons index rest ih =>
      rw [evictScan_cons] at hsome hbest ⊢
      obtain ⟨hindex, hsorted⟩ := List.pairwise_cons.mp hsorted
      obtain ⟨hrest, hchosen⟩ :=
        ih (fun _ hcandidate => HeadCurrent.candidate hfirst hcandidate) hsorted
          (fun found hcandidate later hlater => candidate_lt
            (fun old hold => hbelow old hold later (List.mem_cons_of_mem _ hlater))
            (hindex later hlater) hcandidate) hsome hbest
      refine ⟨fun other hother it hit => ?_, fun old hold it hit => ?_⟩
      · rcases List.mem_cons.mp hother with heq | hmem
        · subst heq
          rcases dropStale_head s (.ttl other) with hnil | ⟨head, hhead, hcurrent⟩
          · rw [(evictScan_pops rest _ _).rest_nil hnil] at hit
            cases hit
          · rw [head_evictScan hhead hcurrent] at hit
            cases hit
            obtain ⟨next, nextBest, hnext, hnextBest, hle⟩ := candidate_of_head
              (fun old hold => (hfirst old hold).dropStale _)
              (fun old hold => hbelow old hold other List.mem_cons_self) hhead
            exact (hchosen next hnext nextBest hnextBest).trans hle
        · exact hrest other hmem it hit
      · subst hold
        obtain ⟨head, hhead, hcurrent⟩ := hfirst old rfl
        rw [hit] at hhead
        cases hhead
        obtain ⟨next, nextBest, hnext, hnextBest, hle⟩ :=
          candidate_of_first (head_dropStale hit hcurrent (.ttl index))
        exact (hchosen next hnext nextBest hnextBest).trans hle

def Stale (s : Shard) (_ : QueueRef) (it : Item) : Prop := s.current it = false

/-- What eviction pops: the earliest head of the TTL queues or, once these are all empty, the head of
the forever queue. -/
def Chosen (s : Shard) (it : Item) : QueueRef → Prop
  | .ttl found => ∀ index other, (s.queue (.ttl index)).rest.head? = some other →
      NoLater it found other index
  | .forever => ∀ index, (s.queue (.ttl index)).rest = []

/-- Eviction in one sentence: stale items, then one current item, the first in order. -/
theorem evict_true (htrue : s.evict.2 = true) :
    ∃ u ref it q, Pops Stale s u ∧ (u.queue ref).pop = some (it, q) ∧ u.current it = true
      ∧ s.evict.1 = u.pop ref ∧ u.Chosen it ref := by
  have hscan := evictScan_pops (List.range s.ttlQueues.length) s none
  have hsome := @evictScan_some s (List.range s.ttlQueues.length) none
  have hleast := @evictScan_least s (List.range s.ttlQueues.length) none
  have hnone := @evictScan_none s (List.range s.ttlQueues.length) none
  unfold evict at htrue ⊢
  generalize evictScan (List.range s.ttlQueues.length) s none = scan
    at hscan hsome hleast hnone htrue ⊢
  obtain ⟨u, found⟩ := scan
  have hopen : ∀ {index}, (u.queue (.ttl index)).rest ≠ [] → index ∈ List.range s.ttlQueues.length := by
    intro index hne
    obtain ⟨it, hit⟩ := List.exists_mem_of_ne_nil _ hne
    rw [List.mem_range, ← hscan.length_eq]
    exact lt_of_mem_rest hit
  cases found with
  | some first =>
      obtain ⟨it, hhead, hcurrent⟩ := hsome (by rintro _ ⟨⟩) rfl
      obtain ⟨q, hpop⟩ := exists_pop_of_peek (by rw [Queue.peek_eq, hhead])
      refine ⟨u, .ttl first, it, q, hscan, hpop, hcurrent, rfl, ?_⟩
      intro index other hother
      refine (hleast (by rintro _ ⟨⟩) List.pairwise_lt_range (by rintro _ ⟨⟩) rfl hhead).1 index
        (hopen ?_) other hother
      exact List.ne_nil_of_mem (List.mem_of_mem_head? hother)
  | none =>
      dsimp only at htrue ⊢
      split at htrue
      · cases htrue
      · rename_i hlen
        have hdrop := dropStale_pops u .forever
        have hpops : Pops Stale s (u.dropStale .forever) :=
          hscan.trans (hdrop.imp fun _ _ _ h => h.2)
        obtain ⟨it, hhead, hcurrent⟩ := (dropStale_head u .forever).resolve_left
          fun hnil => hlen (by rw [← queue_forever, Queue.len_eq, hnil]; rfl)
        obtain ⟨q, hpop⟩ := exists_pop_of_peek (by rw [Queue.peek_eq, hhead])
        refine ⟨_, .forever, it, q, hpops, hpop, hcurrent, by rw [if_neg hlen], ?_⟩
        intro index
        refine hdrop.rest_nil ?_
        by_contra hne
        exact hne ((hnone rfl).2 index (hopen hne))

theorem evict_false (hfalse : s.evict.2 = false) :
    Pops Stale s s.evict.1 ∧ ∀ ref, (s.evict.1.queue ref).rest = [] := by
  have hscan := evictScan_pops (List.range s.ttlQueues.length) s none
  have hnone := @evictScan_none s (List.range s.ttlQueues.length) none
  unfold evict at hfalse ⊢
  generalize evictScan (List.range s.ttlQueues.length) s none = scan at hscan hnone hfalse ⊢
  obtain ⟨u, found⟩ := scan
  cases found with
  | some first => cases hfalse
  | none =>
      dsimp only at hfalse ⊢
      split at hfalse
      · rename_i hlen
        rw [if_pos hlen]
        have hdrop := dropStale_pops u .forever
        refine ⟨hscan.trans (hdrop.imp fun _ _ _ h => h.2), ?_⟩
        intro ref
        cases ref with
        | forever => exact List.eq_nil_of_length_eq_zero (by rw [← Queue.len_eq]; exact hlen)
        | ttl index =>
            by_cases hlt : index < s.ttlQueues.length
            · exact hdrop.rest_nil ((hnone rfl).2 index (List.mem_range.mpr hlt))
            · refine rest_queue_of_le ?_
              rw [hdrop.length_eq, hscan.length_eq]
              exact Nat.le_of_not_lt hlt
      · cases hfalse

theorem evict_pops (s : Shard) : Pops (fun _ _ _ => True) s s.evict.1 := by
  cases hevict : s.evict.2 with
  | true =>
      obtain ⟨u, ref, it, q, hpops, hpop, _, heq, _⟩ := evict_true hevict
      rw [heq]
      exact (hpops.imp fun _ _ _ _ => trivial).tail ⟨ref, it, q, hpop, trivial, rfl⟩
  | false => exact (evict_false hevict).1.imp fun _ _ _ _ => trivial

theorem evict_queued_lt (htrue : s.evict.2 = true) : s.evict.1.queued < s.queued := by
  obtain ⟨u, ref, it, q, hpops, hpop, _, heq, _⟩ := evict_true htrue
  have hle := hpops.queued_le
  have hlt := pop_queued hpop
  rw [heq]
  omega

theorem rest_nil_of_queued (hzero : s.queued = 0) (ref : QueueRef) : (s.queue ref).rest = [] := by
  have hforever : s.forever.len = 0 := by
    unfold queued at hzero
    omega
  have hsum : (s.ttlQueues.map Queue.len).sum = 0 := by
    unfold queued at hzero
    omega
  cases ref with
  | forever => exact List.eq_nil_of_length_eq_zero (by rw [← Queue.len_eq]; exact hforever)
  | ttl index =>
      by_cases hlt : index < s.ttlQueues.length
      · rw [queue_ttl_of_lt hlt]
        refine List.eq_nil_of_length_eq_zero ?_
        rw [← Queue.len_eq]
        exact List.sum_eq_zero_iff_forall_eq_nat.mp hsum _ (List.mem_map_of_mem (List.get_mem _ _))
      · exact rest_queue_of_le (Nat.le_of_not_lt hlt)

/-- The loop leaves when its condition fails or when nothing is queued any more: the fuel never
runs out first. -/
theorem evictWhile_spec (exceeds : Shard → Bool) (fuel : Nat) (s : Shard) (hfuel : s.queued ≤ fuel) :
    Pops (fun _ _ _ => True) s (evictWhile exceeds fuel s)
      ∧ (exceeds (evictWhile exceeds fuel s) = false
        ∨ ∀ ref, ((evictWhile exceeds fuel s).queue ref).rest = []) := by
  induction fuel generalizing s with
  | zero => exact ⟨Relation.ReflTransGen.refl, Or.inr (rest_nil_of_queued (Nat.le_zero.mp hfuel))⟩
  | succ fuel ih =>
      have hpops := evict_pops s
      have hlt := @evict_queued_lt s
      have hempty := @evict_false s
      unfold evictWhile
      generalize s.evict = result at hpops hlt hempty ⊢
      obtain ⟨u, done⟩ := result
      by_cases hexceeds : exceeds s = true
      · rw [if_pos hexceeds]
        cases done with
        | true =>
            have hless : u.queued < s.queued := hlt rfl
            obtain ⟨hrun, hexit⟩ := ih u (by omega)
            exact ⟨hpops.trans hrun, hexit⟩
        | false => exact ⟨hpops, Or.inr (hempty rfl).2⟩
      · rw [if_neg hexceeds]
        exact ⟨Relation.ReflTransGen.refl, Or.inl (by simpa using hexceeds)⟩

theorem evictLoop_spec (exceeds : Shard → Bool) (s : Shard) :
    Pops (fun _ _ _ => True) s (evictLoop exceeds s)
      ∧ (exceeds (evictLoop exceeds s) = false ∨ ∀ ref, ((evictLoop exceeds s).queue ref).rest = []) :=
  evictWhile_spec exceeds s.queued s (Nat.le_refl _)

theorem makeRoom_pops (s : Shard) (now limit : Int) :
    Pops (fun _ _ _ => True) s (s.makeRoom now limit) :=
  ((expire_pops s now maxInt).imp fun _ _ _ _ => trivial).trans (evictLoop_spec _ _).1

theorem makeRoomBytes_pops (s : Shard) (now limit : Int) :
    Pops (fun _ _ _ => True) s (s.makeRoomBytes now limit) :=
  ((expire_pops s now maxInt).imp fun _ _ _ _ => trivial).trans (evictLoop_spec _ _).1

end Shard

end ShardCommon.MemoryCache
