import ShardCommon.Proof.CacheByteCap
import ShardCommon.Proof.CacheEviction

/-!
# How much a write evicts

A write evicts one entry at a time while its limit is exceeded, so each eviction has a shard it was
made in, and the limit says why. For the last of them nothing but the written key itself can still
have gone afterwards, so putting its entry back beside the final contents gives that shard again with
the old value replaced by the new one. The limit of the byte pass counts the old value of the key
beside the new one, and that is where a rewrite evicts more than the new value needs.
-/

namespace ShardCommon.MemoryCache

namespace Shard

variable {s t u m : Shard} {caps : Caps} {key k : Bytes} {val : Slice} {ttl now : Int} {e : Entry}
  {ms ms' : List Shard}

/-! ### The evictions of a write -/

/-- The shards in which the loop evicted an entry, in turn. -/
def evictions (exceeds : Shard → Bool) : Nat → Shard → List Shard
  | 0, _ => []
  | fuel + 1, s =>
    if exceeds s then
      match s.evict with
      | (t, true) => s :: evictions exceeds fuel t
      | (_, false) => []
    else
      []

def passEvictions (exceeds : Shard → Bool) (s : Shard) (now : Int) : List Shard :=
  evictions exceeds (s.expire now maxInt).1.queued (s.expire now maxInt).1

/-- Those of `roomForKey`. -/
def keyEvictions (s : Shard) (caps : Caps) (now : Int) (prev : Option Entry) : List Shard :=
  if prev.isNone && 0 < caps.perShard && caps.perShard ≤ s.data.size then
    passEvictions (fun s => caps.perShard ≤ s.data.size) s now
  else
    []

/-- Those of `roomForBytes`. -/
def byteEvictions (s : Shard) (caps : Caps) (val : Slice) (now : Int) (prev : Option Entry) :
    List Shard :=
  let need : Int := val.len - (prev.elim 0 fun e => e.value.len)
  if 0 < caps.perShardBytes && 0 < need && caps.perShardBytes < s.bytes + need then
    passEvictions (fun s => caps.perShardBytes - val.len < s.bytes) s now
  else
    []

def putEvictions (s : Shard) (caps : Caps) (key : Bytes) (val : Slice) (now : Int) : List Shard :=
  let u := s.roomForKey caps now (s.data.lookup key)
  s.keyEvictions caps now (s.data.lookup key) ++ u.byteEvictions caps val now (u.data.lookup key)

/-- In `m` the live entry `e` of `k` is evicted, and `k` is not the key being written. -/
def EvictsOther (key : Bytes) (now : Int) (m : Shard) (k : Bytes) (e : Entry) : Prop :=
  k ≠ key ∧ m.data.lookup k = some e ∧ e.live now = true ∧ m.evict.1.data.lookup k = none

def LastEvicted (key : Bytes) (now : Int) (ms : List Shard) (k : Bytes) (e : Entry) : Prop :=
  ∃ before m after, ms = before ++ m :: after ∧ EvictsOther key now m k e
    ∧ ∀ m' ∈ after, ∀ k' e', ¬ EvictsOther key now m' k' e'

/-- One more entry `e` would put the shard over a cap. -/
def Overfull (caps : Caps) (s : Shard) (e : Entry) : Prop :=
  (0 < caps.perShard ∧ caps.perShard < (s.data.size + 1 : Nat))
    ∨ (0 < caps.perShardBytes ∧ caps.perShardBytes < (bytesOf s.data + e.value.len : Nat))

/-! ### Trails -/

/-- From `s` to `t` by the evictions made in `ms`, with nothing but expiry in between. -/
inductive Trail (now : Int) : Shard → List Shard → Shard → Prop where
  | done {s t : Shard} : Lapsed now s t → Trail now s [] t
  | evict {s m t : Shard} {ms : List Shard} : Lapsed now s m → m.Inv now → m.evict.2 = true →
      Trail now m.evict.1 ms t → Trail now s (m :: ms) t

theorem Trail.lapse (h : Trail now t ms u) (hlapsed : Lapsed now s t) : Trail now s ms u := by
  cases h with
  | done hdone => exact .done (hlapsed.trans hdone)
  | evict hfirst hinv htrue hrest => exact .evict (hlapsed.trans hfirst) hinv htrue hrest

theorem Trail.append (h : Trail now s ms t) (h' : Trail now t ms' u) : Trail now s (ms ++ ms') u := by
  induction h with
  | done hdone => exact h'.lapse hdone
  | evict hfirst hinv htrue _ ih => exact .evict hfirst hinv htrue (ih h')

theorem Trail.evictions (exceeds : Shard → Bool) (fuel : Nat) (h : s.Inv now) :
    Trail now s (evictions exceeds fuel s) (evictWhile exceeds fuel s) := by
  induction fuel generalizing s with
  | zero => exact .done (.refl now s)
  | succ fuel ih =>
      have hinv := h.pops (evict_pops s)
      have hfalse := @evict_false s
      have htrue := @Trail.evict now s s
      unfold Shard.evictions evictWhile
      split
      · generalize s.evict = result at hinv hfalse htrue ⊢
        obtain ⟨u, done⟩ := result
        cases done with
        | true => exact htrue (.refl now s) h rfl (ih hinv)
        | false => exact .done (.of_stale (hfalse rfl).1)
      · exact .done (.refl now s)

theorem Trail.pass (exceeds : Shard → Bool) (h : s.Inv now) :
    Trail now s (passEvictions exceeds s now) (evictLoop exceeds (s.expire now maxInt).1) := by
  have hexpire := expire_pops s now maxInt
  exact (Trail.evictions exceeds _ (h.pops hexpire)).lapse (.of_due h hexpire)

theorem Trail.put (h : s.Inv now) :
    Trail now s (s.putEvictions caps key val now) (s.roomFor caps key val now) := by
  have hinv := h.pops (roomForKey_pops s caps now (s.data.lookup key))
  refine Trail.append (t := s.roomForKey caps now (s.data.lookup key)) ?_ ?_
  · rw [keyEvictions, roomForKey]
    split
    · exact Trail.pass _ h
    · exact .done (.refl now s)
  · unfold byteEvictions roomFor roomForBytes
    dsimp only
    split
    · exact Trail.pass _ hinv
    · exact .done (.refl now _)

/-- The live entries that left on a trail up to one of its shards come before those found there. -/
theorem Trail.ordered (h : Trail now s ms t) : Ordered now s t ∧ ∀ m ∈ ms, Ordered now s m := by
  induction h with
  | done hdone => exact ⟨.of_lapsed hdone, by simp⟩
  | @evict s m t ms hfirst hinv _ _ ih =>
      have hstep := (Ordered.of_lapsed hfirst).trans (Ordered.evict hinv)
      refine ⟨hstep.trans ih.1, fun m' hm' => ?_⟩
      rcases List.mem_cons.mp hm' with rfl | hrest
      · exact .of_lapsed hfirst
      · exact hstep.trans (ih.2 m' hrest)

theorem Trail.kept (h : Trail now s ms t) : Kept s t ∧ ∀ m ∈ ms, Kept s m :=
  ⟨h.ordered.1.kept, fun m hm => (h.ordered.2 m hm).kept⟩

theorem Trail.split {before after : List Shard} (h : Trail now s (before ++ m :: after) t) :
    m.Inv now ∧ m.evict.2 = true ∧ Trail now m.evict.1 after t := by
  induction before generalizing s with
  | nil =>
      cases h with
      | evict _ hinv htrue hrest => exact ⟨hinv, htrue, hrest⟩
  | cons first before ih =>
      cases h with
      | evict _ _ _ hrest => exact ih hrest

theorem Trail.evict_of_mem (h : Trail now s ms t) (hm : m ∈ ms) : m.Inv now ∧ m.evict.2 = true := by
  obtain ⟨before, after, rfl⟩ := List.append_of_mem hm
  exact ⟨h.split.1, h.split.2.1⟩

/-- Later shards of a trail hold no more than earlier ones. -/
theorem Trail.pairwise (h : Trail now s ms t) : ms.Pairwise Kept := by
  induction h with
  | done _ => exact List.Pairwise.nil
  | evict _ hinv _ hrest ih =>
      exact List.pairwise_cons.mpr
        ⟨fun m' hm' => (Ordered.evict hinv).kept.trans (hrest.kept.2 m' hm'), ih⟩

def AllLive (now : Int) (s : Shard) : Prop :=
  ∀ key e, s.data.lookup key = some e → e.live now = true

theorem AllLive.kept (h : AllLive now s) (hkept : Kept s t) : AllLive now t :=
  fun key e hlookup => h key e (hkept.lookup_some hlookup)

theorem AllLive.lookup_eq (h : AllLive now s) (hlapsed : Lapsed now s t) (key : Bytes) :
    t.data.lookup key = s.data.lookup key := by
  rcases hlapsed.onlyExpired key with heq | ⟨_, e, hlookup, hdead⟩
  · exact heq
  · rw [h key e hlookup] at hdead
    cases hdead

/-- Where everything is live and no other key's entry is evicted, only the key's own can go. -/
theorem Trail.lookup_other (h : Trail now s ms t) (hlive : AllLive now s)
    (hnone : ∀ m ∈ ms, ∀ k e, ¬ EvictsOther key now m k e) {other : Bytes} (hne : other ≠ key) :
    t.data.lookup other = s.data.lookup other := by
  induction h with
  | done hdone => exact hlive.lookup_eq hdone other
  | @evict s m t ms hfirst hinv _ _ ih =>
      have hlive' := hlive.kept hfirst.pops.lookup
      have hkept := (Ordered.evict hinv).kept
      rw [ih (hlive'.kept hkept) fun m' hm' => hnone m' (List.mem_cons_of_mem m hm'),
        ← hlive.lookup_eq hfirst other]
      rcases hkept other with heq | hgone
      · exact heq
      · cases hlookup : m.data.lookup other with
        | none => exact hgone
        | some e =>
            exact absurd ⟨hne, hlookup, hlive' other e hlookup, hgone⟩
              (hnone m List.mem_cons_self other e)

/-- A trail accounts for every live entry that left. -/
theorem Trail.gone_iff (h : Trail now s ms t) (hne : k ≠ key) (hlookup : s.data.lookup k = some e)
    (hlive : e.live now = true) :
    t.data.lookup k = none ↔ ∃ m ∈ ms, EvictsOther key now m k e := by
  induction h with
  | @done s t hdone =>
      constructor
      · intro hgone
        rw [hdone.onlyExpired.lookup_of_live hlookup hlive] at hgone
        cases hgone
      · rintro ⟨m, ⟨⟩, _⟩
  | @evict s m t ms hfirst hinv _ hrest ih =>
      have hfound := hfirst.onlyExpired.lookup_of_live hlookup hlive
      rcases (Ordered.evict hinv).kept k with hstays | hgone
      · rw [ih (hstays.trans hfound)]
        constructor
        · rintro ⟨m', hm', hevicts⟩
          exact ⟨m', List.mem_cons_of_mem m hm', hevicts⟩
        · rintro ⟨m', hm', hevicts⟩
          rcases List.mem_cons.mp hm' with rfl | hlater
          · have hleft := hevicts.2.2.2
            rw [hstays, hfound] at hleft
            cases hleft
          · exact ⟨m', hlater, hevicts⟩
      · refine iff_of_true ?_ ⟨m, List.mem_cons_self, hne, hfound, hlive, hgone⟩
        rcases hrest.kept.1 k with heq | hnone
        · rw [heq, hgone]
        · exact hnone

/-! ### The last eviction -/

theorem EvictsOther.data (h : EvictsOther key now m k e) (hinv : m.Inv now) (htrue : m.evict.2 = true) :
    m.evict.1.data = m.data.erase k := by
  obtain ⟨victim, _, _, hdata, _⟩ := evict_first hinv htrue
  obtain ⟨_, hlookup, _, hgone⟩ := h
  rw [hdata]
  by_cases heq : k = victim
  · rw [heq]
  · rw [hdata, AList.lookup_erase_ne heq, hlookup] at hgone
    cases hgone

theorem EvictsOther.allLive (h : EvictsOther key now m k e) (hinv : m.Inv now) :
    AllLive now m.evict.1 := by
  obtain ⟨_, hlookup, hlive, hgone⟩ := h
  intro other e' hother
  exact ((Ordered.evict hinv).before k e hlookup hgone hlive other e' hother).precedes.live hlive

/-- After the last eviction in `m` the write leaves what `m` holds, less the evicted entry, with the
new value under the key. -/
theorem put_lookup_of_last (h : s.Inv now) (hnow : 0 ≤ now) {before after : List Shard}
    (hsplit : s.putEvictions caps key val now = before ++ m :: after)
    (hevicts : EvictsOther key now m k e)
    (hlast : ∀ m' ∈ after, ∀ k' e', ¬ EvictsOther key now m' k' e') :
    ∃ deadline, ∀ other, (s.put caps key val ttl now (s.data.lookup key)).data.lookup other
      = ((m.data.erase k).insert key ⟨val, deadline⟩).lookup other := by
  have htrail : Trail now s (s.putEvictions caps key val now) (s.roomFor caps key val now) :=
    Trail.put h
  rw [hsplit] at htrail
  obtain ⟨hinv, htrue, hrest⟩ := htrail.split
  have hlive := hevicts.allLive hinv
  have hdata := hevicts.data hinv htrue
  refine ⟨(s.roomFor caps key val now).deadlineFor ttl now, fun other => ?_⟩
  by_cases heq : other = key
  · subst heq
    rw [put_lookup_self, AList.lookup_insert]
  · have hroom : (s.roomFor caps key val now).data.lookup other = m.evict.1.data.lookup other :=
      hrest.lookup_other hlive hlast heq
    rw [AList.lookup_insert_ne heq, ← hdata, ← hroom]
    rcases put_lookup_other h hnow heq with hsame | ⟨_, dead, hfound, hdead⟩
    · exact hsame
    · rw [hroom] at hfound
      rw [hlive other dead hfound] at hdead
      cases hdead

/-- Putting the last evicted entry back gives the shard it was evicted in, with the key's value
replaced. -/
theorem overfull_iff_of_last (h : s.Inv now) (hnow : 0 ≤ now) {before after : List Shard}
    (hsplit : s.putEvictions caps key val now = before ++ m :: after)
    (hevicts : EvictsOther key now m k e)
    (hlast : ∀ m' ∈ after, ∀ k' e', ¬ EvictsOther key now m' k' e') :
    Overfull caps (s.put caps key val ttl now (s.data.lookup key)) e
      ↔ (0 < caps.perShard ∧ caps.perShard < ((m.data.erase key).size + 1 : Nat))
        ∨ (0 < caps.perShardBytes ∧ caps.perShardBytes < (bytesOf (m.data.erase key) + val.len : Nat)) := by
  obtain ⟨deadline, hlookup⟩ : ∃ deadline, ∀ other,
      (s.put caps key val ttl now (s.data.lookup key)).data.lookup other
        = ((m.data.erase k).insert key ⟨val, deadline⟩).lookup other :=
    put_lookup_of_last h hnow hsplit hevicts hlast
  have hkey : (m.data.erase key).lookup k = some e := by
    rw [AList.lookup_erase_ne hevicts.1, hevicts.2.1]
  have hsize : (s.put caps key val ttl now (s.data.lookup key)).data.size = (m.data.erase key).size := by
    rw [AList.size_eq_total, AList.total_congr_of_lookup _ hlookup, ← AList.size_eq_total,
      AList.size_insert, AList.erase_erase, AList.size_erase_of_lookup hkey]
  have hbytes : bytesOf (s.put caps key val ttl now (s.data.lookup key)).data + e.value.len
      = bytesOf (m.data.erase key) + val.len := by
    have hback : bytesOf ((m.data.erase key).erase k) + e.value.len = bytesOf (m.data.erase key) :=
      AList.total_erase_of_lookup hkey
    have hput : bytesOf (s.put caps key val ttl now (s.data.lookup key)).data
        = val.len + bytesOf ((m.data.erase key).erase k) := by
      rw [bytesOf, AList.total_congr_of_lookup _ hlookup, AList.erase_erase]
      exact bytesOf_insert _ _
    omega
  rw [Overfull, hsize, hbytes]

/-! ### Why an eviction was made -/

theorem exceeds_of_mem {exceeds : Shard → Bool} {fuel : Nat} (hmem : m ∈ evictions exceeds fuel s) :
    exceeds m = true := by
  induction fuel generalizing s with
  | zero => cases hmem
  | succ fuel ih =>
      unfold evictions at hmem
      split at hmem
      · rename_i hexceeds
        split at hmem
        · rcases List.mem_cons.mp hmem with rfl | hrest
          · exact hexceeds
          · exact ih hrest
        · cases hmem
      · cases hmem

theorem keyEvictions_spec {prev : Option Entry} (hmem : m ∈ s.keyEvictions caps now prev) :
    prev = none ∧ 0 < caps.perShard ∧ caps.perShard ≤ m.data.size := by
  rw [keyEvictions] at hmem
  split at hmem
  · rename_i hfull
    simp only [Bool.and_eq_true, Option.isNone_iff_eq_none, decide_eq_true_eq] at hfull
    exact ⟨hfull.1.1, hfull.1.2, by simpa using exceeds_of_mem hmem⟩
  · cases hmem

theorem byteEvictions_spec {prev : Option Entry} (hmem : m ∈ s.byteEvictions caps val now prev) :
    0 < caps.perShardBytes ∧ caps.perShardBytes - val.len < m.bytes := by
  unfold byteEvictions at hmem
  dsimp only at hmem
  split at hmem
  · rename_i hgrows
    simp only [Bool.and_eq_true, decide_eq_true_eq] at hgrows
    exact ⟨hgrows.1.1, by simpa using exceeds_of_mem hmem⟩
  · cases hmem

/-- In `m` there is no room for the new value: the key has no entry left, or the value does not fit
even in that entry's place. -/
def NeedsRoom (caps : Caps) (key : Bytes) (val : Slice) (m : Shard) : Prop :=
  m.data.lookup key = none ∨ caps.perShardBytes < (bytesOf (m.data.erase key) + val.len : Nat)

theorem bytesOf_erase_of_none (hnone : m.data.lookup key = none) :
    bytesOf (m.data.erase key) = bytesOf m.data := by
  simpa [hnone] using bytesOf_erase_add key m.data

/-- What each pass knows of a shard it evicts in. -/
theorem putEvictions_spec (h : s.Inv now) (hmem : m ∈ s.putEvictions caps key val now) :
    Kept s m
      ∧ ((s.data.lookup key = none ∧ 0 < caps.perShard ∧ caps.perShard ≤ m.data.size)
        ∨ (0 < caps.perShardBytes ∧ caps.perShardBytes - val.len < m.bytes)) := by
  refine ⟨(Trail.put h).kept.2 m hmem, ?_⟩
  rcases List.mem_append.mp hmem with hkeys | hbytes
  · exact Or.inl (keyEvictions_spec hkeys)
  · exact Or.inr (byteEvictions_spec hbytes)

theorem Kept.lookup_none (h : Kept s t) (hnone : s.data.lookup key = none) :
    t.data.lookup key = none := by
  rcases h key with heq | hgone
  · rw [heq, hnone]
  · exact hgone

theorem overfull_iff_needsRoom (h : s.Inv now) (hnow : 0 ≤ now)
    (hsize : 0 < caps.perShard → (s.data.size : Int) ≤ caps.perShard) {before after : List Shard}
    (hsplit : s.putEvictions caps key val now = before ++ m :: after)
    (hevicts : EvictsOther key now m k e)
    (hlast : ∀ m' ∈ after, ∀ k' e', ¬ EvictsOther key now m' k' e') :
    Overfull caps (s.put caps key val ttl now (s.data.lookup key)) e ↔ NeedsRoom caps key val m := by
  have hmem : m ∈ s.putEvictions caps key val now := by
    rw [hsplit]
    exact List.mem_append_right _ List.mem_cons_self
  have htrail := @Trail.put s caps key val now h
  rw [hsplit] at htrail
  have hbytes : m.bytes = bytesOf m.data := htrail.split.1.bytes_eq
  obtain ⟨hkept, hreason⟩ := putEvictions_spec h hmem
  rw [overfull_iff_of_last h hnow hsplit hevicts hlast, NeedsRoom]
  cases hlookup : m.data.lookup key with
  | none =>
      have herase := AList.size_erase_of_none hlookup
      have hsame := bytesOf_erase_of_none hlookup
      refine iff_of_true ?_ (Or.inl rfl)
      rcases hreason with ⟨_, hcap, hfull⟩ | ⟨hcap, hover⟩
      · left
        omega
      · right
        omega
  | some old =>
      -- the key is still there, so this is the byte pass and the shard is within its key cap
      have hpresent := hkept.lookup_some hlookup
      have hsmaller : m.data.size ≤ s.data.size := by
        rw [AList.size_eq_total, AList.size_eq_total]
        exact AList.total_le_of_lookup _ fun _ _ hfound => hkept.lookup_some hfound
      have herase := AList.size_erase_of_lookup hlookup
      rcases hreason with ⟨habsent, _, _⟩ | ⟨hcap, _⟩
      · rw [hpresent] at habsent
        cases habsent
      · constructor
        · rintro (⟨hkeys, hless⟩ | ⟨_, hless⟩)
          · have := hsize hkeys
            omega
          · exact Or.inr hless
        · rintro (hnone | hless)
          · cases hnone
          · exact Or.inr ⟨hcap, hless⟩

private theorem exists_last {P : Shard → Prop} (hmem : m ∈ ms) (hm : P m) :
    ∃ before last after, ms = before ++ last :: after ∧ P last ∧ (∀ x ∈ after, ¬ P x)
      ∧ (last = m ∨ m ∈ before) := by
  induction ms generalizing m with
  | nil => cases hmem
  | cons first rest ih =>
      by_cases hlater : ∃ x ∈ rest, P x
      · obtain ⟨x, hx, hPx⟩ : ∃ x ∈ rest, P x ∧ (m = first ∨ x = m) := by
          rcases List.mem_cons.mp hmem with heq | hrest
          · obtain ⟨x, hx, hPx⟩ := hlater
            exact ⟨x, hx, hPx, Or.inl heq⟩
          · exact ⟨m, hrest, hm, Or.inr rfl⟩
        obtain ⟨before, last, after, rfl, hlast, hnone, hplace⟩ := ih hx hPx.1
        refine ⟨first :: before, last, after, rfl, hlast, hnone, ?_⟩
        rcases hPx.2 with rfl | rfl
        · exact Or.inr List.mem_cons_self
        · exact hplace.imp id (List.mem_cons_of_mem first)
      · obtain rfl : m = first := (List.mem_cons.mp hmem).resolve_right
          fun hrest => hlater ⟨m, hrest, hm⟩
        exact ⟨[], m, rest, rfl, hm, fun x hx hPx => hlater ⟨x, hx, hPx⟩, Or.inl rfl⟩

theorem Kept.bytesOf_erase_le (h : Kept s t) (key : Bytes) :
    bytesOf (t.data.erase key) ≤ bytesOf (s.data.erase key) := by
  refine AList.total_le_of_lookup _ fun other e hlookup => ?_
  by_cases heq : other = key
  · rw [heq, AList.lookup_erase] at hlookup
    cases hlookup
  · rw [AList.lookup_erase_ne heq] at hlookup ⊢
    exact h.lookup_some hlookup

/-- Where the value fitted in the place of the old one, it still fits at a later eviction. -/
theorem NeedsRoom.of_later (h : s.Inv now) {before after : List Shard} {last : Shard}
    (hsplit : s.putEvictions caps key val now = before ++ last :: after) (hbefore : m ∈ before)
    (hroom : NeedsRoom caps key val last) : NeedsRoom caps key val m := by
  have htrail : Trail now s (s.putEvictions caps key val now) (s.roomFor caps key val now) :=
    Trail.put h
  have hpair := htrail.pairwise
  rw [hsplit] at htrail hpair
  have hkept : Kept m last :=
    (List.pairwise_append.mp hpair).2.2 m hbefore last List.mem_cons_self
  have hbytes := hkept.bytesOf_erase_le key
  have hexact : last.bytes = bytesOf last.data := htrail.split.1.bytes_eq
  have hreason := (@putEvictions_spec s last caps key val now h (by rw [hsplit]; simp)).2
  rcases hroom with habsent | hless
  · rcases hreason with ⟨hnew, _, _⟩ | ⟨_, hover⟩
    · exact Or.inl ((htrail.kept.2 m (List.mem_append_left _ hbefore)).lookup_none hnew)
    · right
      rw [bytesOf_erase_of_none habsent] at hbytes
      omega
  · right
    omega

/-- The entries a write evicts beyond need are those evicted where the new value would have fitted in
the place of the old one. -/
theorem minimal_iff (h : s.Inv now) (hnow : 0 ≤ now)
    (hsize : 0 < caps.perShard → (s.data.size : Int) ≤ caps.perShard) :
    (∀ k e, LastEvicted key now (s.putEvictions caps key val now) k e →
        Overfull caps (s.put caps key val ttl now (s.data.lookup key)) e)
      ↔ ∀ m ∈ s.putEvictions caps key val now, ∀ k e, EvictsOther key now m k e →
          NeedsRoom caps key val m := by
  constructor
  · intro hoverfull m hmem k e hevicts
    obtain ⟨before, last, after, hsplit, ⟨k', e', hlastEvicts⟩, hnone, hplace⟩ :=
      exists_last (P := fun m => ∃ k e, EvictsOther key now m k e) hmem ⟨k, e, hevicts⟩
    have hnone' : ∀ m' ∈ after, ∀ k e, ¬ EvictsOther key now m' k e :=
      fun m' hm' k e hevicts' => hnone m' hm' ⟨k, e, hevicts'⟩
    have hroom := (overfull_iff_needsRoom h hnow hsize hsplit hlastEvicts hnone').mp
      (hoverfull k' e' ⟨before, last, after, hsplit, hlastEvicts, hnone'⟩)
    rcases hplace with rfl | hbefore
    · exact hroom
    · exact hroom.of_later h hsplit hbefore
  · rintro hroom k e ⟨before, m, after, hsplit, hevicts, hlast⟩
    refine (overfull_iff_needsRoom h hnow hsize hsplit hevicts hlast).mpr (hroom m ?_ k e hevicts)
    rw [hsplit]
    exact List.mem_append_right _ List.mem_cons_self

end Shard

namespace Backend

open Shard

variable {opts : Options} {log : List (Call × Reply)} {b : Backend} {now later ttl : Int}
  {key : Bytes} {val : Slice}

/-- The live entries that a write removed are those evicted on its trail. -/
theorem evicts_iff_putEvictions (h : Run opts log now b) (hle : now ≤ later) (c : Call)
    (hwrite : c.written (b.call later c).2 = some (key, val, ttl)) (k : Bytes) (e : Entry) :
    Evicts b (b.call later c).1 key later k e
      ↔ ∃ m ∈ (b.shards (shardFor key)).putEvictions b.toCaps key val later,
          EvictsOther key later m k e := by
  obtain ⟨hnonneg, hshard⟩ := h.inv (shardFor key)
  have hinv := hshard.mono hle
  have htrail := @Trail.put _ b.toCaps key val later hinv
  rw [Evicts, call_of_written hwrite, setShard_shards, if_pos rfl]
  constructor
  · rintro ⟨hne, hlookup, hlive, hgone⟩
    exact (htrail.gone_iff hne hlookup hlive).mp
      (roomFor_lookup_none hinv (hnonneg.trans hle) hne hlookup hlive hgone)
  · rintro ⟨m, hmem, hevicts⟩
    have hlookup := (htrail.kept.2 m hmem).lookup_some hevicts.2.1
    refine ⟨hevicts.1, hlookup, hevicts.2.2.1, ?_⟩
    have hgone := (htrail.gone_iff hevicts.1 hlookup hevicts.2.2.1).mpr ⟨m, hmem, hevicts⟩
    rcases put_lookup_other hinv (hnonneg.trans hle) hevicts.1 with heq | ⟨hnone, _⟩
    · rw [heq, hgone]
    · exact hnone

end Backend

end ShardCommon.MemoryCache
