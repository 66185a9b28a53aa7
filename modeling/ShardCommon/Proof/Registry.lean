import ShardCommon.Lib.DistinctKeys
import ShardCommon.Proof.ManifestRoundTrip
import ShardCommon.Proof.NetAddr
import ShardCommon.Registry

/-!
# The registry is the last announcement of each announcer

Upserts overwrite or delete and evictions drop what has expired. Read at a time that no call is
later than, the map is a function of the manifests received: for each source and instance the last
one, unless it was a shutdown or is over.
-/

namespace ShardCommon.Manifest

open ShardCommon.Frame ShardCommon.Netip

variable {reg : Registry} {k : EntryKey} {t : Int}

/-! ## Entries of manifests -/

/-- An entry of a manifest that the decoder accepts. -/
def Entry.Decoded (en : Entry) : Prop :=
  ∃ buf m, (decodeShardManifest crc32c buf).outcome = .ok m ∧ en = entryOf m

theorem decoded_entryOf {m : ShardManifest} (h : (checkManifest m).outcome = .ok ()) :
    (entryOf m).Decoded :=
  ⟨_, _, decode_sentDatagram crc32c (checkManifest_ok.mp h) [], rfl⟩

/-! ## Snapshots -/

theorem snapshot_perm (reg : Registry) : reg.snapshot.Perm (reg.entries.entries.map (·.2)) :=
  List.mergeSort_perm ..

theorem nodup_snapshot (reg : Registry) : (reg.snapshot.map (·.key)).Nodup := by
  have hkeys : (reg.entries.entries.map (·.2)).map (·.key) = reg.entries.entries.map (·.1) := by
    rw [List.map_map]
    exact List.map_congr_left reg.keyed
  rw [((snapshot_perm reg).map _).nodup_iff, hkeys]
  exact reg.entries.nodupKeys

theorem mem_snapshot {e : Registered} :
    e ∈ reg.snapshot ↔ reg.entries.lookup e.key = some e := by
  rw [(snapshot_perm reg).mem_iff, List.mem_map, ← Option.mem_def, AList.mem_lookup_iff]
  constructor
  · rintro ⟨item, hitem, rfl⟩
    rw [reg.keyed item hitem]
    exact hitem
  · intro hitem
    exact ⟨_, hitem, rfl⟩

theorem lookup_keyed {e : Registered} (h : reg.entries.lookup k = some e) : e.key = k :=
  reg.keyed _ (AList.mem_lookup_iff.mp h)

/-- Every entry satisfies `P`. -/
def Registry.All (P : Entry → Prop) (reg : Registry) : Prop :=
  ∀ item ∈ reg.entries.entries, P item.2.entry

section All

variable {P : Entry → Prop}

theorem Registry.All.snapshot (h : reg.All P) : ∀ r ∈ reg.snapshot, P r.entry := by
  intro r hr
  obtain ⟨item, hitem, rfl⟩ := List.mem_map.mp ((snapshot_perm reg).mem_iff.mp hr)
  exact h item hitem

theorem Registry.All.upsert (h : reg.All P) {m : ShardManifest} (hm : P (entryOf m)) (now : Int)
    (src : Addr) : (reg.upsert now src m).2.All P := by
  intro item hitem
  rw [Registry.upsert] at hitem
  split at hitem
  · exact h item ((List.kerase_sublist ..).subset hitem)
  · rcases List.mem_cons.mp hitem with rfl | hitem
    · exact hm
    · exact h item ((List.kerase_sublist ..).subset hitem)

theorem Registry.All.evict (h : reg.All P) (now : Int) : (reg.evict now).All P :=
  fun item hitem => h item (List.mem_filter.mp hitem).1

end All

/-- By the source and then by the instance. -/
def EntryKey.order (k : EntryKey) : Addr ×ₗ Nat := toLex (k.src, k.instanceID.toNat)

theorem EntryKey.order_injective : Function.Injective EntryKey.order := by
  rintro ⟨src, id⟩ ⟨src', id'⟩ h
  simp only [order, toLex_inj, Prod.mk.injEq, UInt32.toNat_inj] at h
  rw [h.1, h.2]

theorem Registered.less_iff {a b : Registered} :
    a.less b = true ↔ a.key.order < b.key.order := by
  rw [Registered.less, EntryKey.order, EntryKey.order, Prod.Lex.toLex_lt_toLex]
  by_cases hsrc : a.srcIPv6 = b.srcIPv6
  · simp [key, hsrc, UInt32.lt_iff_toNat_lt]
  · simp only [key, hsrc, ne_eq, not_false_eq_true, if_true, false_and, or_false]
    rfl

theorem sortedLT_snapshot (reg : Registry) : (reg.snapshot.map (·.key.order)).SortedLT := by
  apply DistinctKeys.sortedLT_map_mergeSort
  · intro a b
    rw [Bool.eq_iff_iff, decide_eq_true_iff, Bool.not_eq_true', ← Bool.not_eq_true,
      Registered.less_iff, not_lt]
  · have hnodup := ((snapshot_perm reg).map _).nodup_iff.mp (nodup_snapshot reg)
    have horder := hnodup.map EntryKey.order_injective
    rwa [List.map_map] at horder

/-- A snapshot is determined by what the registry holds under each key. -/
theorem snapshot_congr {reg' : Registry}
    (h : ∀ k, reg.entries.lookup k = reg'.entries.lookup k) : reg.snapshot = reg'.snapshot := by
  refine DistinctKeys.eq_of_mem_iff (sortedLT_snapshot reg) (sortedLT_snapshot reg') ?_
  intro e
  rw [mem_snapshot, mem_snapshot, h]

theorem snapshot_filter_key (reg : Registry) (k : EntryKey) :
    reg.snapshot.filter (fun e => e.key = k) = (reg.entries.lookup k).toList := by
  rw [DistinctKeys.filter_eq_toList_find? (nodup_snapshot reg)]
  congr 1
  cases hfind : reg.snapshot.find? fun e => e.key = k with
  | none =>
      rw [List.find?_eq_none] at hfind
      cases hlookup : reg.entries.lookup k with
      | none => rfl
      | some e =>
          have hkey := lookup_keyed hlookup
          exact absurd (decide_eq_true hkey) (hfind e (mem_snapshot.mpr (hkey ▸ hlookup)))
  | some e =>
      have hkey : e.key = k := of_decide_eq_true (List.find?_some hfind :)
      rw [← hkey, mem_snapshot.mp (List.mem_of_find?_eq_some hfind)]

/-! ## Calls -/

theorem lookup_evict (reg : Registry) (now : Int) (k : EntryKey) :
    (reg.evict now).entries.lookup k =
      (reg.entries.lookup k).filter fun e => now < e.expiresAt := by
  ext e
  rw [← Option.mem_def, ← Option.mem_def, Option.mem_filter_iff, AList.mem_lookup_iff,
    AList.mem_lookup_iff]
  exact List.mem_filter

theorem lookup_upsert (reg : Registry) (now : Int) (src : Addr) (m : ShardManifest)
    (k : EntryKey) :
    (reg.upsert now src m).2.entries.lookup k =
      if k = ⟨src.withoutZone, m.instanceID⟩ then
        if hasFlag m.flags flagShutdown then none else some (reg.register now src m)
      else reg.entries.lookup k := by
  rw [Registry.upsert]
  by_cases hk : k = ⟨src.withoutZone, m.instanceID⟩
  · rw [if_pos hk, hk]
    split
    · exact AList.lookup_erase ..
    · exact AList.lookup_insert ..
  · rw [if_neg hk]
    split
    · exact AList.lookup_erase_ne hk
    · exact AList.lookup_insert_ne hk

inductive RegistryCall where
  | upsert (now : Int) (src : Addr) (m : ShardManifest)
  | evict (now : Int)

namespace RegistryCall

/-- The clock reading of a call. -/
def now : RegistryCall → Int
  | upsert now _ _ => now
  | evict now => now

def isUpsert : RegistryCall → Bool
  | upsert .. => true
  | evict _ => false

end RegistryCall

namespace Registry

def step (reg : Registry) : RegistryCall → Registry
  | .upsert now src m => (reg.upsert now src m).2
  | .evict now => reg.evict now

def run (reg : Registry) (calls : List RegistryCall) : Registry := calls.foldl step reg

theorem run_concat (reg : Registry) (calls : List RegistryCall) (c : RegistryCall) :
    reg.run (calls ++ [c]) = (reg.run calls).step c := by
  rw [run, List.foldl_append]
  rfl

theorem step_defaultTTL (reg : Registry) (c : RegistryCall) :
    (reg.step c).defaultTTL = reg.defaultTTL := by
  cases c with
  | evict now => rfl
  | upsert now src m =>
      rw [step, upsert]
      split <;> rfl

theorem run_defaultTTL (reg : Registry) (calls : List RegistryCall) :
    (reg.run calls).defaultTTL = reg.defaultTTL := by
  induction calls using List.reverseRecOn with
  | nil => rfl
  | append_singleton calls c ih => rw [run_concat, step_defaultTTL, ih]

end Registry

/-! ## Histories -/

/-- A manifest received from a source. -/
structure Receipt where
  now : Int
  src : Addr
  manifest : ShardManifest

namespace Receipt

def key (r : Receipt) : EntryKey := ⟨r.src.withoutZone, r.manifest.instanceID⟩

/-- How long an announcement counts: its TTL, or the default, or three announcement intervals. -/
def lifetime (defaultTTL : Int) (r : Receipt) : Int :=
  if r.manifest.ttl ≠ 0 then r.manifest.ttl.toNat * second
  else if defaultTTL ≠ 0 then defaultTTL
  else 3 * r.manifest.announceInterval.toNat * second

/-- From the announcer's own time if it stamped one, else from the receipt. -/
def expiry (defaultTTL : Int) (r : Receipt) : Int :=
  (if r.manifest.epoch ≠ 0 then r.manifest.epoch.toNat * second else r.now) + r.lifetime defaultTTL

def valid (defaultTTL t : Int) (r : Receipt) : Bool :=
  !hasFlag r.manifest.flags flagShutdown && t < r.expiry defaultTTL

/-- The entry with the manifest's fields. -/
def entry (defaultTTL : Int) (r : Receipt) : Registered where
  srcIPv6 := r.src.withoutZone
  instanceID := r.manifest.instanceID
  roleHint := r.manifest.roleHint
  epoch := r.manifest.epoch
  ttl := r.manifest.ttl
  generationID := r.manifest.generationID
  entry := entryOf r.manifest
  receivedAt := r.now
  expiresAt := r.expiry defaultTTL

/-- The entry is the one of a valid manifest if it is kept and not over. -/
theorem filter_entry (defaultTTL t : Int) (r : Receipt) :
    (if hasFlag r.manifest.flags flagShutdown then none else some (r.entry defaultTTL)).filter
        (fun e => t < e.expiresAt) =
      ((some r).filter fun r => r.valid defaultTTL t).map fun r => r.entry defaultTTL := by
  have hexpires : (r.entry defaultTTL).expiresAt = r.expiry defaultTTL := rfl
  by_cases hdown : hasFlag r.manifest.flags flagShutdown
  · simp [valid, hdown]
  · by_cases hover : t < r.expiry defaultTTL <;> simp [valid, Option.filter_some, hdown, hover, hexpires]

end Receipt

theorem register_eq_entry (reg : Registry) (r : Receipt) :
    reg.register r.now r.src r.manifest = r.entry reg.defaultTTL := by
  have httl : reg.ttl r.manifest = r.lifetime reg.defaultTTL := by
    have hzero : r.manifest.ttl.toNat * second ≠ 0 ↔ r.manifest.ttl ≠ 0 := by
      simp [second, ← UInt16.toNat_inj]
    simp only [Registry.ttl, Receipt.lifetime]
    simp only [← hzero]
  rw [Registry.register, httl, Receipt.entry]
  congr 1
  rw [Receipt.expiry]
  split <;> rfl

/-- The manifests received, in order. -/
def receipts (calls : List RegistryCall) : List Receipt :=
  calls.filterMap fun
    | .upsert now src m => some ⟨now, src, m⟩
    | .evict _ => none

/-- The last manifest received under a key. -/
def lastReceipt (calls : List RegistryCall) (k : EntryKey) : Option Receipt :=
  (receipts calls).reverse.find? fun r => r.key = k

/-- What counts at a time: the entries of the last manifests that are valid then. -/
def announced (defaultTTL : Int) (calls : List RegistryCall) (t : Int) (k : EntryKey) :
    Option Registered :=
  ((lastReceipt calls k).filter fun r => r.valid defaultTTL t).map fun r => r.entry defaultTTL

theorem lastReceipt_evict (calls : List RegistryCall) (now : Int) (k : EntryKey) :
    lastReceipt (calls ++ [.evict now]) k = lastReceipt calls k := by
  simp [lastReceipt, receipts]

theorem lastReceipt_upsert (calls : List RegistryCall) (r : Receipt) (k : EntryKey) :
    lastReceipt (calls ++ [.upsert r.now r.src r.manifest]) k =
      if r.key = k then some r else lastReceipt calls k := by
  by_cases hk : r.key = k <;> simp [lastReceipt, receipts, hk]

theorem lastReceipt_filter_isUpsert (calls : List RegistryCall) :
    lastReceipt (calls.filter RegistryCall.isUpsert) = lastReceipt calls := by
  have hreceipts : receipts (calls.filter RegistryCall.isUpsert) = receipts calls := by
    rw [receipts, receipts, List.filterMap_filter]
    congr 1
    funext c
    cases c <;> rfl
  funext k
  rw [lastReceipt, hreceipts, lastReceipt]

/-- What an eviction at a later time would have left of the registry. -/
theorem lookup_run (defaultTTL : Int) {calls : List RegistryCall} (h : ∀ c ∈ calls, c.now ≤ t)
    (k : EntryKey) :
    (((newRegistry defaultTTL).run calls).entries.lookup k).filter (fun e => t < e.expiresAt) =
      announced defaultTTL calls t k := by
  induction calls using List.reverseRecOn with
  | nil => rfl
  | append_singleton calls c ih =>
      specialize ih fun c hc => h c (List.mem_append_left _ hc)
      rw [Registry.run_concat]
      cases c with
      | evict now =>
          have hnow : now ≤ t := h (.evict now) (by simp)
          rw [Registry.step, lookup_evict, announced, lastReceipt_evict, ← announced, ← ih,
            Option.filter_filter]
          congr 1
          funext e
          -- what is over now is over at the later time
          rw [← Bool.decide_and, decide_eq_decide]
          exact ⟨fun h => h.2, fun h => ⟨hnow.trans_lt h, h⟩⟩
      | upsert now src m =>
          rw [Registry.step, lookup_upsert, announced, lastReceipt_upsert calls ⟨now, src, m⟩]
          by_cases hk : k = ⟨src.withoutZone, m.instanceID⟩
          · rw [if_pos hk, if_pos (show Receipt.key ⟨now, src, m⟩ = k from hk.symm),
              register_eq_entry _ ⟨now, src, m⟩, Registry.run_defaultTTL]
            exact Receipt.filter_entry defaultTTL t ⟨now, src, m⟩
          · rw [if_neg hk, if_neg (show Receipt.key ⟨now, src, m⟩ ≠ k from Ne.symm hk), ih,
              announced]

theorem snapshot_last_announcements (defaultTTL : Int) (calls : List RegistryCall) (t : Int)
    (hclock : ((calls ++ [RegistryCall.evict t]).map RegistryCall.now).Pairwise (· ≤ ·)) :
    let snap := ((newRegistry defaultTTL).run (calls ++ [.evict t])).snapshot
    (snap.map (·.key.order)).SortedLT ∧
      (∀ k, snap.filter (fun e => e.key = k) = (announced defaultTTL calls t k).toList) ∧
      snap = ((newRegistry defaultTTL).run
        (calls.filter RegistryCall.isUpsert ++ [.evict t])).snapshot := by
  intro snap
  have htimes : ∀ c ∈ calls, c.now ≤ t := by
    rw [List.map_append, List.pairwise_append] at hclock
    exact fun c hc => hclock.2.2 _ (List.mem_map_of_mem hc) t (by simp [RegistryCall.now])
  have hlookup : ∀ {calls : List RegistryCall}, (∀ c ∈ calls, c.now ≤ t) → ∀ k,
      ((newRegistry defaultTTL).run (calls ++ [.evict t])).entries.lookup k =
        announced defaultTTL calls t k := by
    intro calls htimes k
    rw [Registry.run_concat, Registry.step, lookup_evict, lookup_run defaultTTL htimes]
  refine ⟨sortedLT_snapshot _, ?_, ?_⟩
  · intro k
    rw [snapshot_filter_key, hlookup htimes]
  · apply snapshot_congr
    intro k
    rw [hlookup htimes, hlookup fun c hc => htimes c (List.mem_filter.mp hc).1, announced,
      announced, lastReceipt_filter_isUpsert]

def beacon : ShardManifest where
  flags := 0
  srcIPv6 := List.Vector.replicate 16 1
  instanceID := 7
  epoch := 0
  ttl := 30
  announceInterval := 10
  shardBits := 4
  roleHint := 0
  generationID := List.Vector.replicate 16 2
  groups := []
  bitmap := []
  sources := []
  successor := none
  domains := []

/-- An announcer that was evicted announces again, through another interface. -/
def returning : List RegistryCall :=
  [.upsert 0 (.v6 (List.Vector.replicate 16 1) "eth0") beacon, .evict (31 * second),
    .upsert (40 * second) (.v6 (List.Vector.replicate 16 1) "eth1") beacon]

theorem snapshot_last_announcements_returning :
    ((newRegistry 0).run (returning ++ [.evict (69 * second)])).snapshot.filter
        (fun e => e.key = ⟨.v6 (List.Vector.replicate 16 1) "", 7⟩) =
      [(Receipt.mk (40 * second) (.v6 (List.Vector.replicate 16 1) "eth1") beacon).entry 0] := by
  exact (snapshot_last_announcements 0 returning (69 * second) (by decide)).2.1 _

end ShardCommon.Manifest
