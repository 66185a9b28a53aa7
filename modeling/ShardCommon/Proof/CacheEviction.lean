import ShardCommon.Proof.CacheBackend
import ShardCommon.Proof.CacheOrder

/-!
# What a write evicts

Passes compose, since what an earlier eviction removed came before everything that stayed, whatever
is removed after it. So the live entries that a write removes come before all that it leaves: no
later deadline, and no write that never expires while a deadline is left. The number that stands for
the deadline of an entry that never expires counts such writes, so it dates the entry's last write.
-/

namespace ShardCommon.MemoryCache

/-- The eviction order within a shard: entries with a deadline first and by deadline, then those that
never expire by the number of their write. -/
def Entry.Precedes (a b : Entry) : Prop :=
  if 0 < a.deadline then 0 < b.deadline → a.deadline ≤ b.deadline else b.deadline < a.deadline

/-- An entry that follows a live one has not expired. -/
theorem Entry.Precedes.live {a b : Entry} {now : Int} (h : a.Precedes b) (hlive : a.live now = true) :
    b.live now = true := by
  rw [Entry.live_iff] at hlive ⊢
  rw [Precedes] at h
  split at h <;> omega

namespace Shard

variable {s t u : Shard} {caps : Caps} {key : Bytes} {val : Slice} {ttl now : Int}

theorem GoesBefore.precedes {j k : Bytes} {a b : Entry} (h : s.GoesBefore j a k b) : a.Precedes b := by
  unfold GoesBefore at h
  unfold Entry.Precedes
  split at h <;> split <;> omega

/-! ### Passes -/

/-- From `s` to `t` entries only left. -/
def Kept (s t : Shard) : Prop :=
  ∀ key, t.data.lookup key = s.data.lookup key ∨ t.data.lookup key = none

theorem Kept.refl (s : Shard) : Kept s s := fun _ => Or.inl rfl

theorem Kept.trans (hst : Kept s t) (htu : Kept t u) : Kept s u := by
  intro key
  rcases htu key with heq | hnone
  · rw [heq]
    exact hst key
  · exact Or.inr hnone

theorem Kept.lookup_some (h : Kept s t) {e : Entry} (hlookup : t.data.lookup key = some e) :
    s.data.lookup key = some e := by
  rcases h key with heq | hnone
  · rw [← heq, hlookup]
  · rw [hnone] at hlookup
    cases hlookup

theorem kept_erase (s : Shard) (m : AList (fun _ : Bytes => Entry)) (key : Bytes)
    (h : ∀ other, m.lookup other = s.data.lookup other ∨ m.lookup other = none) (other : Bytes) :
    (m.erase key).lookup other = s.data.lookup other ∨ (m.erase key).lookup other = none := by
  by_cases heq : other = key
  · subst heq
    exact Or.inr (AList.lookup_erase _ _)
  · rw [AList.lookup_erase_ne heq]
    exact h other

/-- From `s` to `t` items were popped, and no live entry with them. -/
structure Lapsed (now : Int) (s t : Shard) : Prop where
  pops : Pops (fun _ _ _ => True) s t
  onlyExpired : OnlyExpired now s t

theorem Lapsed.refl (now : Int) (s : Shard) : Lapsed now s s := ⟨.refl, OnlyExpired.refl now s⟩

theorem Lapsed.trans (hst : Lapsed now s t) (htu : Lapsed now t u) : Lapsed now s u :=
  ⟨hst.pops.trans htu.pops, hst.onlyExpired.trans htu.onlyExpired⟩

theorem Lapsed.of_stale (h : Pops Stale s t) : Lapsed now s t :=
  ⟨h.imp fun _ _ _ _ => trivial, OnlyExpired.of_data (h.data_eq_of_stale fun _ _ _ hstale => hstale)⟩

theorem Lapsed.of_due (h : s.Inv now) (hpops : Pops (Due now) s t) : Lapsed now s t :=
  ⟨hpops.imp fun _ _ _ _ => trivial, OnlyExpired.of_pops h hpops⟩

/-- From `s` to `t` entries only left, the live ones among them before all that stayed. -/
structure Ordered (now : Int) (s t : Shard) : Prop where
  pops : Pops (fun _ _ _ => True) s t
  before : ∀ key e, s.data.lookup key = some e → t.data.lookup key = none → e.live now = true →
    ∀ other e', t.data.lookup other = some e' → s.GoesBefore key e other e'

theorem Ordered.kept (h : Ordered now s t) : Kept s t := h.pops.lookup

theorem Ordered.of_lapsed (h : Lapsed now s t) : Ordered now s t where
  pops := h.pops
  before := by
    intro key e hlookup hnone hlive
    rw [h.onlyExpired.lookup_of_live hlookup hlive] at hnone
    cases hnone

theorem Ordered.refl (now : Int) (s : Shard) : Ordered now s s := .of_lapsed (.refl now s)

theorem Ordered.trans (hst : Ordered now s t) (htu : Ordered now t u) : Ordered now s u where
  pops := hst.pops.trans htu.pops
  before := by
    intro key e hlookup hnone hlive other e' hother
    have hbetween := htu.kept.lookup_some hother
    rcases hst.kept key with heq | hgone
    · have hkey : t.data.lookup key = some e := heq.trans hlookup
      exact (hst.pops.goesBefore_iff hkey hbetween).mp
        (htu.before key e hkey hnone hlive other e' hother)
    · exact hst.before key e hlookup hgone hlive other e' hbetween

theorem Ordered.evict (h : s.Inv now) : Ordered now s s.evict.1 := by
  cases hevict : s.evict.2 with
  | false => exact .of_lapsed (.of_stale (evict_false hevict).1)
  | true =>
      obtain ⟨key, e, hlookup, hdata, hfirst⟩ := evict_first h hevict
      refine ⟨evict_pops s, fun other e₁ hfound hgone _ third e₂ hthird => ?_⟩
      have hself : other = key := by
        by_contra hne
        rw [hdata, AList.lookup_erase_ne hne, hfound] at hgone
        cases hgone
      have hne : third ≠ key := by
        rintro rfl
        rw [hdata, AList.lookup_erase] at hthird
        cases hthird
      subst hself
      rw [hlookup] at hfound
      cases hfound
      rw [hdata, AList.lookup_erase_ne hne] at hthird
      exact hfirst third e₂ hne hthird

theorem Ordered.evictWhile (exceeds : Shard → Bool) (fuel : Nat) (h : s.Inv now) :
    Ordered now s (evictWhile exceeds fuel s) := by
  induction fuel generalizing s with
  | zero => exact .refl now s
  | succ fuel ih =>
      have hstep := Ordered.evict h
      have hinv := h.pops (evict_pops s)
      unfold Shard.evictWhile
      generalize s.evict = result at hstep hinv ⊢
      obtain ⟨u, done⟩ := result
      split
      · cases done with
        | true => exact hstep.trans (ih hinv)
        | false => exact hstep
      · exact .refl now s

theorem Ordered.evictLoop_expire (exceeds : Shard → Bool) (h : s.Inv now) :
    Ordered now s (evictLoop exceeds (s.expire now maxInt).1) := by
  have hexpire := expire_pops s now maxInt
  exact (Ordered.of_lapsed (.of_due h hexpire)).trans (Ordered.evictWhile exceeds _ (h.pops hexpire))

theorem Ordered.roomFor (h : s.Inv now) : Ordered now s (s.roomFor caps key val now) := by
  have hfirst : Ordered now s (s.roomForKey caps now (s.data.lookup key)) := by
    rw [roomForKey]
    split
    · exact Ordered.evictLoop_expire _ h
    · exact .refl now s
  have hinv := h.pops (roomForKey_pops s caps now (s.data.lookup key))
  refine hfirst.trans ?_
  unfold Shard.roomFor roomForBytes
  dsimp only
  split
  · exact Ordered.evictLoop_expire _ hinv
  · exact .refl now _

/-! ### A write -/

theorem deadlineFor_live (h : s.Inv now) (val : Slice) (ttl : Int) :
    Entry.live ⟨val, s.deadlineFor ttl now⟩ now = true := by
  have hwrites := h.writes_nonneg
  rw [Entry.live_iff]
  dsimp only
  cases hexpires : expires ttl now with
  | true =>
      have httl := (expires_iff.mp hexpires).1
      rw [deadlineFor_of_expires hexpires]
      omega
  | false =>
      rw [deadlineFor_of_not_expires hexpires]
      omega

/-- A write that never expires gets the latest place in the order. -/
theorem deadlineFor_lt (h : s.Inv now) (hnow : 0 ≤ now) (hnever : s.deadlineFor ttl now ≤ 0)
    {e : Entry} (hlookup : s.data.lookup key = some e) : s.deadlineFor ttl now < e.deadline := by
  cases hexpires : expires ttl now with
  | true =>
      have httl := (expires_iff.mp hexpires).1
      rw [deadlineFor_of_expires hexpires] at hnever
      omega
  | false =>
      have hwrites := h.writes_nonneg
      obtain ⟨home, hkind, hmem⟩ := h.covered key e hlookup
      rw [deadlineFor_of_not_expires hexpires]
      by_cases hpositive : 0 < e.deadline
      · omega
      · rw [hkind.mpr (by omega)] at hmem
        have := (h.foreverBounded _ hmem).1
        dsimp only at this
        omega

theorem put_lookup_self :
    (s.put caps key val ttl now (s.data.lookup key)).data.lookup key
      = some ⟨val, (s.roomFor caps key val now).deadlineFor ttl now⟩ := by
  rw [put_eq]
  exact store_lookup_self ..

/-- Of the other entries, only expired ones go once room has been made. -/
theorem put_lookup_other (h : s.Inv now) (hnow : 0 ≤ now) {other : Bytes} (hne : other ≠ key) :
    (s.put caps key val ttl now (s.data.lookup key)).data.lookup other
        = (s.roomFor caps key val now).data.lookup other
      ∨ ((s.put caps key val ttl now (s.data.lookup key)).data.lookup other = none
        ∧ ∃ e, (s.roomFor caps key val now).data.lookup other = some e ∧ e.live now = false) := by
  have hroom := h.pops (roomFor_pops s caps key val now)
  have hstored : ((s.roomFor caps key val now).stored key val
      ((s.roomFor caps key val now).deadlineFor ttl now)).data.lookup other
        = (s.roomFor caps key val now).data.lookup other := AList.lookup_insert_ne hne
  have hexpired := store_onlyExpired key val ttl hroom hnow other
  rw [hstored] at hexpired
  rw [put_eq]
  exact hexpired

theorem put_lookup_some (h : s.Inv now) (hnow : 0 ≤ now) {other : Bytes} {e : Entry} (hne : other ≠ key)
    (hlookup : (s.put caps key val ttl now (s.data.lookup key)).data.lookup other = some e) :
    (s.roomFor caps key val now).data.lookup other = some e ∧ s.data.lookup other = some e := by
  rcases put_lookup_other h hnow hne with heq | ⟨hnone, _⟩
  · rw [hlookup] at heq
    exact ⟨heq.symm, (Ordered.roomFor h).kept.lookup_some heq.symm⟩
  · rw [hnone] at hlookup
    cases hlookup

/-- A live entry that a write removed went while room was made. -/
theorem roomFor_lookup_none (h : s.Inv now) (hnow : 0 ≤ now) {other : Bytes} {e : Entry}
    (hne : other ≠ key) (hlookup : s.data.lookup other = some e) (hlive : e.live now = true)
    (hgone : (s.put caps key val ttl now (s.data.lookup key)).data.lookup other = none) :
    (s.roomFor caps key val now).data.lookup other = none := by
  rcases put_lookup_other h hnow hne with heq | ⟨_, dead, hfound, hdead⟩
  · rw [← heq, hgone]
  · rw [(Ordered.roomFor h).kept.lookup_some hfound] at hlookup
    cases hlookup
    rw [hlive] at hdead
    cases hdead

/-- A live entry that a write removed comes before all others that it left. -/
theorem put_precedes (h : s.Inv now) (hnow : 0 ≤ now) {other third : Bytes} {e e' : Entry}
    (hother : other ≠ key) (hlookup : s.data.lookup other = some e) (hlive : e.live now = true)
    (hgone : (s.put caps key val ttl now (s.data.lookup key)).data.lookup other = none)
    (hthird : third ≠ key)
    (hstays : (s.put caps key val ttl now (s.data.lookup key)).data.lookup third = some e') :
    e.Precedes e' :=
  ((Ordered.roomFor h).before other e hlookup
    (roomFor_lookup_none h hnow hother hlookup hlive hgone) hlive third e'
    (put_lookup_some h hnow hthird hstays).1).precedes

end Shard

/-! ### Runs -/

namespace Backend

variable {opts : Options} {log : List (Call × Reply)} {b : Backend} {now later ttl : Int}
  {index : Fin shardCount} {key : Bytes} {val : Slice} {c : Call}

/-- The number of the call that wrote the key last, counting from one. -/
def lastWrite : List (Call × Reply) → Bytes → Nat
  | [], _ => 0
  | (c, reply) :: log, key =>
    if (c.written reply).any fun w => w.1 == key then log.length + 1 else lastWrite log key

theorem lastWrite_le (log : List (Call × Reply)) (key : Bytes) : lastWrite log key ≤ log.length := by
  induction log with
  | nil => exact Nat.le_refl 0
  | cons event log ih =>
      rw [lastWrite, List.length_cons]
      split <;> omega

theorem lastWrite_self {reply : Reply} (hwrite : c.written reply = some (key, val, ttl)) :
    lastWrite ((c, reply) :: log) key = log.length + 1 := by
  simp [lastWrite, hwrite]

theorem lastWrite_other {reply : Reply} {other : Bytes}
    (hwrite : ∀ val ttl, c.written reply ≠ some (other, val, ttl)) :
    lastWrite ((c, reply) :: log) other = lastWrite log other := by
  rw [lastWrite, if_neg]
  intro hany
  obtain ⟨⟨found, val, ttl⟩, hfound, heq⟩ := (Option.any_eq_true _ _).mp hany
  obtain rfl : found = other := eq_of_beq heq
  exact hwrite val ttl hfound

theorem kept_setShard (b : Backend) {target : Fin shardCount} {s : Shard}
    (h : Shard.Kept (b.shards target) s) (index : Fin shardCount) :
    Shard.Kept (b.shards index) ((b.setShard target s).shards index) := by
  rw [setShard_shards]
  split
  · rename_i heq
    subst heq
    exact h
  · exact Shard.Kept.refl _

/-- What a call does to the entries: it writes one key, or entries only leave. -/
theorem call_cases (b : Backend) (now : Int) (c : Call) :
    (c.written (b.call now c).2 = none
        ∧ ∀ index, Shard.Kept (b.shards index) ((b.call now c).1.shards index))
      ∨ ∃ key val ttl, c.written (b.call now c).2 = some (key, val, ttl)
        ∧ (b.call now c).1 = b.setShard (shardFor key) ((b.shards (shardFor key)).put b.toCaps key val
            ttl now ((b.shards (shardFor key)).data.lookup key)) := by
  cases c with
  | set key val ttl => exact Or.inr ⟨key, val, ttl, rfl, rfl⟩
  | setNX key val ttl =>
      unfold Backend.call Backend.setNX Shard.setNX
      dsimp only
      split
      · exact Or.inl ⟨rfl, kept_setShard b (Shard.Kept.refl _)⟩
      · exact Or.inr ⟨key, val, ttl, rfl, rfl⟩
  | get key => exact Or.inl ⟨rfl, fun _ => Shard.Kept.refl _⟩
  | del key =>
      exact Or.inl ⟨rfl, kept_setShard b (Shard.del_keeps (Shard.kept_erase _) key (Shard.Kept.refl _))⟩
  | expirePass target =>
      exact Or.inl ⟨rfl, kept_setShard b (Shard.expirePass_keeps (Shard.kept_erase _) now (Shard.Kept.refl _))⟩
  | expireAll =>
      exact Or.inl ⟨rfl, fun _ => Shard.expireAllLoop_keeps (Shard.kept_erase _) now _ (Shard.Kept.refl _)⟩

theorem call_of_written (hwrite : c.written (b.call now c).2 = some (key, val, ttl)) :
    (b.call now c).1 = b.setShard (shardFor key) ((b.shards (shardFor key)).put b.toCaps key val
      ttl now ((b.shards (shardFor key)).data.lookup key)) := by
  rcases call_cases b now c with ⟨hnone, _⟩ | ⟨key', val', ttl', hwrite', heq⟩
  · rw [hnone] at hwrite
    cases hwrite
  · rw [hwrite'] at hwrite
    cases hwrite
    exact heq

theorem Run.placed (h : Run opts log now b) (index : Fin shardCount) {e : Entry}
    (hlookup : (b.shards index).data.lookup key = some e) : shardFor key = index := by
  induction h with
  | init _ => cases hlookup
  | @call log now later b c hrun hle ih =>
      rcases call_cases b later c with ⟨_, hkept⟩ | ⟨written, val, ttl, _, heq⟩
      · exact ih ((hkept index).lookup_some hlookup)
      · rw [heq, setShard_shards] at hlookup
        split at hlookup
        · rename_i htarget
          subst htarget
          by_cases hkey : key = written
          · rw [hkey]
          · obtain ⟨hnonneg, hinv⟩ := hrun.inv (shardFor written)
            exact ih (Shard.put_lookup_some (hinv.mono hle) (hnonneg.trans hle) hkey hlookup).2
        · exact ih hlookup

/-- Write numbers date the writes: of two entries that never expire, the one with the later number
was written later. -/
def Dated (log : List (Call × Reply)) (s : Shard) : Prop :=
  ∀ j k a b, s.data.lookup j = some a → s.data.lookup k = some b → a.deadline ≤ 0 →
    b.deadline < a.deadline → lastWrite log j < lastWrite log k

theorem Dated.kept {s t : Shard} (h : Dated log s) (hkept : Shard.Kept s t) : Dated log t := by
  intro j k a b hj hk
  exact h j k a b (hkept.lookup_some hj) (hkept.lookup_some hk)

theorem Dated.congr {log' : List (Call × Reply)} {s : Shard} (h : Dated log s)
    (hlog : ∀ key e, s.data.lookup key = some e → lastWrite log' key = lastWrite log key) :
    Dated log' s := by
  intro j k a b hj hk
  rw [hlog j a hj, hlog k b hk]
  exact h j k a b hj hk

/-- The entry just written gets the latest number and the latest date. -/
theorem Dated.put {s : Shard} {caps : Caps} {reply : Reply} (h : Dated log s) (hinv : s.Inv now)
    (hnow : 0 ≤ now) (hwrite : c.written reply = some (key, val, ttl)) :
    Dated ((c, reply) :: log) (s.put caps key val ttl now (s.data.lookup key)) := by
  have hother : ∀ other, other ≠ key → lastWrite ((c, reply) :: log) other = lastWrite log other := by
    intro other hne
    refine lastWrite_other fun val' ttl' hwritten => hne ?_
    rw [hwrite] at hwritten
    cases hwritten
    rfl
  intro j k a b hj hk hnever hlt
  by_cases hjkey : j = key
  · subst hjkey
    rw [Shard.put_lookup_self] at hj
    cases hj
    dsimp only at hnever hlt
    exfalso
    by_cases hkkey : k = j
    · subst hkkey
      rw [Shard.put_lookup_self] at hk
      cases hk
      exact Int.lt_irrefl _ hlt
    · have hroom := hinv.pops (Shard.roomFor_pops s caps j val now)
      have hyoungest := Shard.deadlineFor_lt hroom hnow hnever
        (Shard.put_lookup_some hinv hnow hkkey hk).1
      omega
  · rw [hother j hjkey]
    by_cases hkkey : k = key
    · subst hkkey
      rw [lastWrite_self hwrite]
      exact Nat.lt_succ_of_le (lastWrite_le log j)
    · rw [hother k hkkey]
      exact h j k a b (Shard.put_lookup_some hinv hnow hjkey hj).2
        (Shard.put_lookup_some hinv hnow hkkey hk).2 hnever hlt

theorem Run.dated (h : Run opts log now b) (index : Fin shardCount) : Dated log (b.shards index) := by
  induction h with
  | init _ =>
      rintro j k a b ⟨⟩
  | @call log now later b c hrun hle ih =>
      rcases call_cases b later c with ⟨hnone, hkept⟩ | ⟨key, val, ttl, hwrite, heq⟩
      · refine (ih.congr fun key _ _ => lastWrite_other ?_).kept (hkept index)
        intro val ttl hwritten
        rw [hnone] at hwritten
        cases hwritten
      · obtain ⟨hnonneg, hinv⟩ := hrun.inv index
        rw [heq, setShard_shards]
        split
        · rename_i htarget
          subst htarget
          exact ih.put (hinv.mono hle) (hnonneg.trans hle) hwrite
        · rename_i helsewhere
          refine ih.congr fun other e hlookup => lastWrite_other ?_
          intro val' ttl' hwritten
          rw [hwrite] at hwritten
          cases hwritten
          exact helsewhere (hrun.placed index hlookup).symm

/-- The eviction order of a run: entry `a` under `j` goes before entry `b` under `k`. -/
def Before (log : List (Call × Reply)) (j : Bytes) (a : Entry) (k : Bytes) (b : Entry) : Prop :=
  (0 < a.deadline ∧ b.deadline ≤ 0)
    ∨ (0 < a.deadline ∧ 0 < b.deadline ∧ a.deadline ≤ b.deadline)
    ∨ (a.deadline ≤ 0 ∧ b.deadline ≤ 0 ∧ lastWrite log j < lastWrite log k)

theorem Dated.before {s : Shard} {j k : Bytes} {a b : Entry} (h : Dated log s)
    (hj : s.data.lookup j = some a) (hk : s.data.lookup k = some b) (hprecedes : a.Precedes b) :
    Before log j a k b := by
  rw [Entry.Precedes] at hprecedes
  split at hprecedes
  · by_cases hexpires : 0 < b.deadline
    · exact Or.inr (Or.inl ⟨by assumption, hexpires, hprecedes hexpires⟩)
    · exact Or.inl ⟨by assumption, by omega⟩
  · exact Or.inr (Or.inr ⟨by omega, by omega, h j k a b hj hk (by omega) hprecedes⟩)

/-- A write of `key` at `now`, from `b` to `b'`, removed the live entry `e` of another key `j`. -/
def Evicts (b b' : Backend) (key : Bytes) (now : Int) (j : Bytes) (e : Entry) : Prop :=
  j ≠ key ∧ (b.shards (shardFor key)).data.lookup j = some e ∧ e.live now = true
    ∧ (b'.shards (shardFor key)).data.lookup j = none

/-- **Eviction.** In every run, under any caps, the live entries that a write removes come before all
that it leaves, by deadline and then by last write; if there are any, no expired entry is left; the
other shards are as they were, and the key holds the new value. -/
theorem evicts_in_order (h : Run opts log now b) (hle : now ≤ later) (c : Call)
    (hwrite : c.written (b.call later c).2 = some (key, val, ttl)) :
    (∀ j e, Evicts b (b.call later c).1 key later j e →
        (∀ k e', k ≠ key →
          ((b.call later c).1.shards (shardFor key)).data.lookup k = some e' → Before log j e k e')
        ∧ ∀ k e', ((b.call later c).1.shards (shardFor key)).data.lookup k = some e' →
          e'.live later = true)
      ∧ (∀ index, index ≠ shardFor key → (b.call later c).1.shards index = b.shards index)
      ∧ ∃ e, ((b.call later c).1.shards (shardFor key)).data.lookup key = some e ∧ e.value = val
        ∧ e.live later = true := by
  obtain ⟨hnonneg, hshard⟩ := h.inv (shardFor key)
  have hinv := hshard.mono hle
  have hnow := hnonneg.trans hle
  have hshards : ∀ index, (b.call later c).1.shards index = if index = shardFor key then
      (b.shards (shardFor key)).put b.toCaps key val ttl later
        ((b.shards (shardFor key)).data.lookup key) else b.shards index := by
    intro index
    rw [call_of_written hwrite, setShard_shards]
  have hself : (b.call later c).1.shards (shardFor key)
      = (b.shards (shardFor key)).put b.toCaps key val ttl later
          ((b.shards (shardFor key)).data.lookup key) := by
    rw [hshards, if_pos rfl]
  have hlive : Entry.live ⟨val, ((b.shards (shardFor key)).roomFor b.toCaps key val later).deadlineFor
      ttl later⟩ later = true :=
    Shard.deadlineFor_live (hinv.pops (Shard.roomFor_pops _ _ _ _ _)) val ttl
  rw [hself]
  refine ⟨?_, fun index hne => by rw [hshards, if_neg hne], _, Shard.put_lookup_self, rfl,
    hlive⟩
  rintro j e ⟨hj, hlookup, hlivej, hgone⟩
  rw [hself] at hgone
  have hprecedes : ∀ k e', k ≠ key → ((b.shards (shardFor key)).put b.toCaps key val ttl later
      ((b.shards (shardFor key)).data.lookup key)).data.lookup k = some e' → e.Precedes e' :=
    fun k e' hk hstays => Shard.put_precedes hinv hnow hj hlookup hlivej hgone hk hstays
  constructor
  · intro k e' hk hstays
    exact (h.dated (shardFor key)).before hlookup (Shard.put_lookup_some hinv hnow hk hstays).2
      (hprecedes k e' hk hstays)
  · intro k e' hstays
    by_cases hk : k = key
    · subst hk
      rw [Shard.put_lookup_self] at hstays
      cases hstays
      exact hlive
    · exact (hprecedes k e' hk hstays).live hlivej

theorem evicts_in_order_full_shard :
    Before [(.set [65] (some [8]) 20, .done), (.set [1] (some [7]) 10, .done)]
      [1] ⟨some [7], 15⟩ [65] ⟨some [8], 25⟩ := by
  have hrun : Run ⟨128, 0⟩ _ 5 (((newWithOptions ⟨128, 0⟩).call 5 (.set [1] (some [7]) 10)).1.call 5
      (.set [65] (some [8]) 20)).1 :=
    .call _ (.call _ (.init (Int.le_refl 0)) (by decide)) (by decide)
  exact ((evicts_in_order hrun (by decide : (5 : Int) ≤ 6) (.set [129] none 5) rfl).1 [1]
    ⟨some [7], 15⟩ ⟨by decide, rfl, rfl, rfl⟩).1 [65] ⟨some [8], 25⟩ (by decide) rfl

end Backend

end ShardCommon.MemoryCache
