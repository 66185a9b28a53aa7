import ShardCommon.Proof.CacheMinimal

/-!
# Where a rewrite evicts beyond need

The byte pass takes entries in the eviction order of the shard as it is before the write, so what is
left when it comes to an entry is known beforehand: the live entries that do not go before it. The
pass stops where these fit together with the old and the new value of the key, though they would
have fitted with the new one alone. The two tests differ only for a rewrite, and only as long as the
old value is there to be counted.
-/

namespace ShardCommon.MemoryCache

namespace Shard

variable {s m : Shard} {caps : Caps} {key k : Bytes} {val : Slice} {ttl now : Int} {e old : Entry}

/-- The live entries of keys other than `key` that do not go before the entry `e` of `k`: what
eviction finds there when it comes to `k`, the entry itself included. -/
def leftAt (s : Shard) (key : Bytes) (now : Int) (k : Bytes) (e : Entry) :
    AList (fun _ : Bytes => Entry) :=
  s.data.restrict fun j a => j ≠ key ∧ a.live now = true ∧ ¬ s.GoesBefore j a k e

/-- Writing `val` over the live entry `old` brings the byte pass about. -/
def Overgrows (s : Shard) (caps : Caps) (val : Slice) (old : Entry) : Prop :=
  0 < caps.perShardBytes ∧ old.value.len < val.len
    ∧ caps.perShardBytes < (bytesOf s.data + (val.len - old.value.len) : Nat)

/-- Where a rewrite makes room, every entry in front of the old one that does not fit beside the old
and the new value does not fit beside the new value either. -/
def RewriteNeedsRoom (s : Shard) (caps : Caps) (key : Bytes) (val : Slice) (now : Int) : Prop :=
  ∀ old, s.data.lookup key = some old → old.live now = true → s.Overgrows caps val old →
    ∀ k e, k ≠ key → s.data.lookup k = some e → e.live now = true → ¬ s.GoesBefore key old k e →
      caps.perShardBytes < (bytesOf (s.leftAt key now k e) + old.value.len + val.len : Nat) →
        caps.perShardBytes < (bytesOf (s.leftAt key now k e) + val.len : Nat)

theorem lookup_leftAt {j : Bytes} {a : Entry} :
    (s.leftAt key now k e).lookup j = some a
      ↔ s.data.lookup j = some a ∧ j ≠ key ∧ a.live now = true ∧ ¬ s.GoesBefore j a k e := by
  rw [leftAt, AList.lookup_restrict, decide_eq_true_eq]

/-! ### What is left at an eviction -/

/-- Where `k` is evicted, every other entry found there is live and comes after it. -/
theorem EvictsOther.after (h : EvictsOther key now m k e) (hinv : m.Inv now) (htrue : m.evict.2 = true)
    {j : Bytes} {a : Entry} (hne : j ≠ k) (hj : m.data.lookup j = some a) :
    a.live now = true ∧ m.GoesBefore k e j a := by
  have hstays : m.evict.1.data.lookup j = some a := by
    rw [h.data hinv htrue, AList.lookup_erase_ne hne, hj]
  exact ⟨h.allLive hinv j a hstays,
    (Ordered.evict hinv).before k e h.2.1 h.2.2.2 h.2.2.1 j a hstays⟩

/-- The same order in the shard before the write. -/
theorem not_goesBefore_of_evictsOther (h : s.Inv now) (hm : m ∈ s.putEvictions caps key val now)
    (hevicts : EvictsOther key now m k e) {j : Bytes} {a : Entry} (hj : m.data.lookup j = some a) :
    a.live now = true ∧ ¬ s.GoesBefore j a k e := by
  have htrail : Trail now s (s.putEvictions caps key val now) (s.roomFor caps key val now) :=
    Trail.put h
  obtain ⟨hinv, htrue⟩ := htrail.evict_of_mem hm
  by_cases heq : j = k
  · subst heq
    rw [hevicts.2.1] at hj
    cases hj
    exact ⟨hevicts.2.2.1, fun hself => hself.asymm hself⟩
  · obtain ⟨hlive, hafter⟩ := hevicts.after hinv htrue heq hj
    exact ⟨hlive, GoesBefore.asymm
      (((htrail.ordered.2 m hm).pops.goesBefore_iff hevicts.2.1 hj).mp hafter)⟩

/-- A live entry that does not go before `k` is there as long as `k` is. -/
theorem Ordered.lookup_of_not_goesBefore {t : Shard} (h : Ordered now s t)
    (hk : t.data.lookup k = some e) {j : Bytes} {a : Entry} (hj : s.data.lookup j = some a)
    (hlive : a.live now = true) (hnot : ¬ s.GoesBefore j a k e) : t.data.lookup j = some a := by
  rcases h.kept j with heq | hgone
  · rw [heq, hj]
  · exact absurd (h.before j a hj hgone hlive k e hk) hnot

theorem bytesOf_leftAt (h : s.Inv now) (hm : m ∈ s.putEvictions caps key val now)
    (hevicts : EvictsOther key now m k e) :
    bytesOf (s.leftAt key now k e) = bytesOf (m.data.erase key) := by
  have hordered : Ordered now s m := (Trail.put h).ordered.2 m hm
  refine AList.total_congr_of_lookup _ fun j => Option.ext fun a => ?_
  rw [lookup_leftAt]
  by_cases heq : j = key
  · subst heq
    simp
  · rw [AList.lookup_erase_ne heq]
    constructor
    · rintro ⟨hj, _, hlive, hnot⟩
      exact hordered.lookup_of_not_goesBefore hevicts.2.1 hj hlive hnot
    · intro hj
      exact ⟨hordered.kept.lookup_some hj, heq, not_goesBefore_of_evictsOther h hm hevicts hj⟩

/-! ### The byte pass of a rewrite -/

/-- A rewrite skips the key pass, and `Overgrows` is the test of the byte pass. -/
theorem overgrows_iff (h : s.Inv now) :
    s.Overgrows caps val old ↔ (0 < caps.perShardBytes && 0 < (val.len - old.value.len : Int)
      && caps.perShardBytes < s.bytes + (val.len - old.value.len : Int)) = true := by
  have hbytes : s.bytes = bytesOf s.data := h.bytes_eq
  simp only [Overgrows, Bool.and_eq_true, decide_eq_true_eq]
  omega

theorem roomForKey_of_lookup (hkey : s.data.lookup key = some old) (caps : Caps) (now : Int) :
    s.roomForKey caps now (s.data.lookup key) = s
      ∧ s.keyEvictions caps now (s.data.lookup key) = [] := by
  rw [hkey]
  exact ⟨rfl, rfl⟩

theorem overgrows_of_mem (h : s.Inv now) (hkey : s.data.lookup key = some old)
    (hm : m ∈ s.putEvictions caps key val now) :
    s.Overgrows caps val old ∧ caps.perShardBytes - val.len < m.bytes := by
  obtain ⟨hroom, hkeys⟩ := roomForKey_of_lookup hkey caps now
  rw [putEvictions, hkeys, hroom, hkey, List.nil_append] at hm
  refine ⟨(overgrows_iff h).mpr ?_, (byteEvictions_spec hm).2⟩
  by_contra hfits
  unfold byteEvictions at hm
  dsimp only [Option.elim] at hm
  rw [if_neg hfits] at hm
  cases hm

theorem roomFor_of_overgrows (h : s.Inv now) (hkey : s.data.lookup key = some old)
    (hgrows : s.Overgrows caps val old) :
    s.roomFor caps key val now = s.makeRoomBytes now (caps.perShardBytes - val.len) := by
  unfold roomFor roomForBytes
  dsimp only
  rw [(roomForKey_of_lookup hkey caps now).1, hkey]
  exact congrArg Prod.fst (if_pos ((overgrows_iff h).mp hgrows))

/-- The pass goes on until the old and the new value fit beside what is left. -/
theorem gone_of_overgrows (h : s.Inv now) (hkey : s.data.lookup key = some old)
    (holdLive : old.live now = true) (hgrows : s.Overgrows caps val old)
    (hk : s.data.lookup k = some e) (hnot : ¬ s.GoesBefore key old k e)
    (hover : caps.perShardBytes < (bytesOf (s.leftAt key now k e) + old.value.len + val.len : Nat)) :
    (s.roomFor caps key val now).data.lookup k = none := by
  have hordered : Ordered now s (s.roomFor caps key val now) := Ordered.roomFor h
  rcases hordered.kept k with hsame | hgone
  · exfalso
    rw [hk] at hsame
    have hstays := hordered.lookup_of_not_goesBefore hsame hkey holdLive hnot
    have hinv := h.pops hordered.pops
    have hbytes : (s.roomFor caps key val now).bytes = bytesOf (s.roomFor caps key val now).data :=
      hinv.bytes_eq
    have hleft : bytesOf (s.leftAt key now k e)
        ≤ bytesOf ((s.roomFor caps key val now).data.erase key) := by
      refine AList.total_le_of_lookup _ fun j a hj => ?_
      obtain ⟨hj, hne, hlive, hlater⟩ := lookup_leftAt.mp hj
      rw [AList.lookup_erase_ne hne]
      exact hordered.lookup_of_not_goesBefore hsame hj hlive hlater
    have herase : bytesOf ((s.roomFor caps key val now).data.erase key) + old.value.len
        = bytesOf (s.roomFor caps key val now).data := AList.total_erase_of_lookup hstays
    obtain ⟨home, _, hmem⟩ := hinv.covered k e hsame
    rw [roomFor_of_overgrows h hkey hgrows] at hbytes hleft herase hmem
    -- the loop has ended, and not for want of items
    rcases (evictLoop_spec (fun s => caps.perShardBytes - val.len < s.bytes) (s.expire now maxInt).1).2
      with hfits | hempty
    · rw [decide_eq_false_iff_not] at hfits
      unfold makeRoomBytes at hbytes hleft herase
      omega
    · unfold makeRoomBytes at hmem
      rw [hempty home] at hmem
      cases hmem
  · exact hgone

/-- Whether each eviction of a write was made in a shard that needed the room can be told before the
write. -/
theorem needsRoom_iff (h : s.Inv now) :
    (∀ m ∈ s.putEvictions caps key val now, ∀ k e, EvictsOther key now m k e →
        NeedsRoom caps key val m)
      ↔ s.RewriteNeedsRoom caps key val now := by
  have htrail : Trail now s (s.putEvictions caps key val now) (s.roomFor caps key val now) :=
    Trail.put h
  constructor
  · intro hroom old hkey holdLive hgrows k e hne hk hlive hnot hover
    have hgone := gone_of_overgrows h hkey holdLive hgrows hk hnot hover
    obtain ⟨m, hm, hevicts⟩ := (htrail.gone_iff hne hk hlive).mp hgone
    have hpresent : m.data.lookup key = some old :=
      (htrail.ordered.2 m hm).lookup_of_not_goesBefore hevicts.2.1 hkey holdLive hnot
    rw [bytesOf_leftAt h hm hevicts]
    rcases hroom m hm k e hevicts with hnone | hless
    · rw [hpresent] at hnone
      cases hnone
    · exact hless
  · intro hrewrite m hm k e hevicts
    cases hpresent : m.data.lookup key with
    | none => exact Or.inl hpresent
    | some old =>
        have hordered := htrail.ordered.2 m hm
        have hkey := hordered.kept.lookup_some hpresent
        obtain ⟨hgrows, hover⟩ := overgrows_of_mem h hkey hm
        obtain ⟨holdLive, hnot⟩ := not_goesBefore_of_evictsOther h hm hevicts hpresent
        have hbytes : m.bytes = bytesOf m.data := (htrail.evict_of_mem hm).1.bytes_eq
        have herase : bytesOf (m.data.erase key) + old.value.len = bytesOf m.data :=
          AList.total_erase_of_lookup hpresent
        have hleft := bytesOf_leftAt h hm hevicts
        have hless := hrewrite old hkey holdLive hgrows k e hevicts.1
          (hordered.kept.lookup_some hevicts.2.1) hevicts.2.2.1 hnot (by omega)
        rw [hleft] at hless
        exact Or.inr hless

end Shard

namespace Backend

open Shard

variable {opts : Options} {log : List (Call × Reply)} {b : Backend} {now later ttl : Int}
  {key : Bytes} {val : Slice}

/-- **How much a write evicts.** In every run, under any caps, the last entry that a write evicted
could not have stayed, exactly when the shard before the write meets `RewriteNeedsRoom`: always for a
new key or an expired one, and for a rewrite where every entry that goes for the sake of the old
value would have gone without it. -/
theorem evicts_no_more_iff (h : Run opts log now b) (hle : now ≤ later) (c : Call)
    (hwrite : c.written (b.call later c).2 = some (key, val, ttl)) :
    (∀ k e, LastEvicted key later ((b.shards (shardFor key)).putEvictions b.toCaps key val later) k e →
        Overfull b.toCaps ((b.call later c).1.shards (shardFor key)) e)
      ↔ (b.shards (shardFor key)).RewriteNeedsRoom b.toCaps key val later := by
  obtain ⟨last, hlast, hreached⟩ := h.shard (shardFor key)
  obtain ⟨hnonneg, hcapped⟩ := hreached.capped
  have hlater := hlast.trans hle
  have hinv := hcapped.inv.mono hlater
  rw [call_of_written hwrite, setShard_shards, if_pos rfl,
    minimal_iff hinv (hnonneg.trans hlater) hcapped.size_le]
  exact needsRoom_iff hinv

/-- Three keys of one shard, four bytes in all, under a share of four bytes. -/
def threeKeys : Backend :=
  ((((newWithOptions ⟨0, 256⟩).call 5 (.set [1] (some [7]) 10)).1.call 5 (.set [65] (some [8]) 20)).1.call
    5 (.set [129] (some [9, 9]) 30)).1

theorem threeKeys_run : ∃ log, Run ⟨0, 256⟩ log 5 threeKeys :=
  ⟨_, .call _ (.call _ (.call _ (.init (Int.le_refl 0)) (by decide)) (Int.le_refl 5)) (Int.le_refl 5)⟩

/-- Where the third eviction finds the key alone, the second was the last of another key. -/
theorem lastEvicted_of_alone {evictions : List Shard} {first second third : Shard} {k : Bytes}
    {e old : Entry} (heq : evictions = [first, second, third]) (h : EvictsOther key now second k e)
    (halone : third.data.entries = [⟨key, old⟩]) : LastEvicted key now evictions k e := by
  refine ⟨[first], second, [third], heq, h, ?_⟩
  rintro m hm k' e' ⟨hne, hlookup, _⟩
  rw [List.mem_singleton.mp hm] at hlookup
  have hmem := AList.mem_lookup_iff.mp hlookup
  rw [halone] at hmem
  cases List.mem_singleton.mp hmem
  exact hne rfl

/-- Rewriting the two bytes under `[129]` as four takes the whole share: neither key evicted for them
could have stayed. -/
theorem evicts_no_more_full_rewrite :
    Overfull threeKeys.toCaps ((threeKeys.call 6 (.set [129] (some [9, 9, 9, 9]) 30)).1.shards
      (shardFor [129])) ⟨some [8], 25⟩ := by
  obtain ⟨log, hrun⟩ := threeKeys_run
  refine (evicts_no_more_iff hrun (by decide : (5 : Int) ≤ 6) (.set [129] (some [9, 9, 9, 9]) 30)
    rfl).mpr ?_ [65] _ ?_
  · intro old _ _ _ k e hne hk _ _ _
    have hmem : ⟨k, e⟩ ∈ ([⟨[129], ⟨some [9, 9], 35⟩⟩, ⟨[65], ⟨some [8], 25⟩⟩, ⟨[1], ⟨some [7], 15⟩⟩] :
        List (Σ _ : Bytes, Entry)) := AList.mem_lookup_iff.mp hk
    simp only [List.mem_cons, List.not_mem_nil, or_false] at hmem
    rcases hmem with heq | heq | heq <;> cases heq
    · exact absurd rfl hne
    · decide
    · decide
  · exact lastEvicted_of_alone rfl ⟨by decide, rfl, rfl, rfl⟩ rfl

/-- Rewriting the two bytes under `[129]` as three evicts both other keys, though the second of them
fits beside the new value. -/
theorem rewrite_evicts_beyond_need :
    (∃ log, Run ⟨0, 256⟩ log 5 threeKeys)
      ∧ LastEvicted [129] 6 ((threeKeys.shards (shardFor [129])).putEvictions threeKeys.toCaps [129]
          (some [9, 9, 9]) 6) [65] ⟨some [8], 25⟩
      ∧ ¬ Overfull threeKeys.toCaps ((threeKeys.call 6 (.set [129] (some [9, 9, 9]) 30)).1.shards
          (shardFor [129])) ⟨some [8], 25⟩ := by
  refine ⟨threeKeys_run, ?_, by unfold Overfull; decide⟩
  exact lastEvicted_of_alone rfl ⟨by decide, rfl, rfl, rfl⟩ rfl

end Backend

end ShardCommon.MemoryCache
