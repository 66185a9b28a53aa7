import Mathlib.Data.List.Sort
import ShardCommon.Proof.ConsumerQuorum
import ShardCommon.Proof.EvaluatorReports
import ShardCommon.Proof.ShardEngine

/-!
# The two forms of a group set

A manifest carries its groups as a list of indices or as a bitmap. The registry reads the same list
from both, with nothing outside the announced plane in it, and so does every evaluation.
-/

namespace ShardCommon.Manifest

open ShardCommon.Frame ShardCommon.Netip Shard

variable {checksum : Bytes → UInt32} {m : ShardManifest} {bitmap : Bytes} {g : Nat}

/-! ## The bitmap -/

theorem mem_bitmapGroups : g ∈ bitmapGroups bitmap ↔
    ∃ byte, bitmap[g / 8]? = some byte ∧ byte.toNat.testBit (g % 8) = true := by
  simp only [bitmapGroups, List.mem_flatMap, List.mem_map, List.mem_filter, List.mem_range,
    Prod.exists, List.mk_mem_zipIdx_iff_getElem?]
  constructor
  · rintro ⟨byte, i, hbyte, bit, ⟨hbit, hset⟩, rfl⟩
    have hdiv : (i * 8 + bit) / 8 = i := by omega
    have hmod : (i * 8 + bit) % 8 = bit := by omega
    rw [hdiv, hmod]
    exact ⟨byte, hbyte, hset⟩
  · rintro ⟨byte, hbyte, hset⟩
    exact ⟨byte, g / 8, hbyte, g % 8, ⟨by omega, hset⟩, by omega⟩

theorem lt_of_mem_bitmapGroups (h : g ∈ bitmapGroups bitmap) : g < bitmap.length * 8 := by
  obtain ⟨byte, hbyte, _⟩ := mem_bitmapGroups.mp h
  have hlt := (List.getElem?_eq_some_iff.mp hbyte).1
  omega

theorem bitmapGroups_increasing : (bitmapGroups bitmap).Pairwise (· < ·) := by
  rw [bitmapGroups, List.pairwise_flatMap]
  constructor
  · rintro ⟨byte, i⟩ _
    refine List.Pairwise.map _ ?_ (List.pairwise_lt_range.filter _)
    intro bit bit' hlt
    omega
  · have hindices : (bitmap.zipIdx.map (·.2)).Pairwise (· < ·) := by
      rw [List.zipIdx_map_snd]
      exact List.pairwise_lt_range'
    refine (List.pairwise_map.mp hindices).imp ?_
    rintro ⟨byte, i⟩ ⟨byte', i'⟩ hlt x hx y hy
    obtain ⟨bit, hbit, rfl⟩ := List.mem_map.mp hx
    obtain ⟨bit', _, rfl⟩ := List.mem_map.mp hy
    have hbit := List.mem_range.mp (List.mem_filter.mp hbit).1
    dsimp only at hlt ⊢
    omega

/-! ## One manifest -/

/-- The index is in the list, or its bit is set. -/
def Names (m : ShardManifest) (g : Nat) : Prop :=
  g ∈ m.groups.map (·.toNat) ∨
    ∃ byte, m.bitmap[g / 8]? = some byte ∧ byte.toNat.testBit (g % 8) = true

theorem lt_limit_iff (hm : WellFormed m) {idx : UInt32} :
    idx < shiftLeft 1 m.shardBits.toUInt64 ↔ idx.toNat < 2 ^ m.shardBits.toNat := by
  have hbits : m.shardBits.toNat ≤ 12 := UInt8.le_iff_toNat_le.mp hm.shardBits
  have hshift : m.shardBits.toUInt64 < 32 := by
    rw [UInt64.lt_iff_toNat_lt, UInt8.toNat_toUInt64]
    exact Nat.lt_of_le_of_lt hbits (by decide)
  rw [UInt32.lt_iff_toNat_lt, toNat_shiftLeft_one hshift, UInt8.toNat_toUInt64]

/-- Neither the narrowing to 32 bits nor the one to 16 bits loses anything. -/
theorem map_expandGroups (hm : WellFormed m) (hvalid : hasFlag m.flags flagGroupsValid = true) :
    (expandGroups m).map (·.toNat) =
      (m.groups.map (·.toNat) ++ bitmapGroups m.bitmap).filter
        fun g => g < 2 ^ m.shardBits.toNat := by
  have hbits : 2 ^ m.shardBits.toNat ≤ 2 ^ 12 :=
    Nat.pow_le_pow_right (by decide) (UInt8.le_iff_toNat_le.mp hm.shardBits)
  simp only [expandGroups, hvalid, Bool.not_true, Bool.false_eq_true, if_false, lt_limit_iff hm]
  split
  next hlist =>
    have hbitmap : m.bitmap = [] := hm.oneForm.resolve_left (List.ne_nil_of_length_pos hlist)
    rw [hbitmap, show bitmapGroups [] = [] from rfl, List.append_nil, List.filter_map]
    rfl
  next hlist =>
    have hgroups : m.groups = [] := List.length_eq_zero_iff.mp (by omega)
    rw [hgroups, List.map_nil, List.nil_append, List.filter_map, List.map_map, List.map_map]
    have hexact : ∀ g ∈ bitmapGroups m.bitmap, (UInt32.ofNat g).toNat = g := by
      intro g hg
      have hlt := lt_of_mem_bitmapGroups hg
      have hlength := hm.bitmapLength
      exact UInt32.toNat_ofNat_of_lt' (show g < 2 ^ 32 by omega)
    rw [List.filter_congr fun g hg => by rw [Function.comp_apply, hexact g hg]]
    refine (List.map_congr_left fun g hg => ?_).trans (List.map_id _)
    obtain ⟨hg, hlt⟩ := List.mem_filter.mp hg
    have hlt := of_decide_eq_true hlt
    rw [Function.comp_apply, Function.comp_apply, UInt32.toNat_toUInt16, hexact g hg]
    exact Nat.mod_eq_of_lt (by omega)

theorem mem_expandGroups (hm : WellFormed m) (hvalid : hasFlag m.flags flagGroupsValid = true) :
    g ∈ (expandGroups m).map (·.toNat) ↔ g < 2 ^ m.shardBits.toNat ∧ Names m g := by
  rw [map_expandGroups hm hvalid, List.mem_filter, List.mem_append, mem_bitmapGroups, Names,
    decide_eq_true_iff, and_comm]

theorem sortedLT_expandGroups (hm : WellFormed m)
    (hvalid : hasFlag m.flags flagGroupsValid = true) :
    ((expandGroups m).map (·.toNat)).SortedLT := by
  rw [map_expandGroups hm hvalid]
  refine List.Pairwise.sortedLT (List.Pairwise.filter _ ?_)
  rcases hm.oneForm with hform | hform
  · rw [hform]
    exact bitmapGroups_increasing
  · rw [hform, show bitmapGroups [] = [] from rfl, List.append_nil, List.pairwise_map]
    exact (List.isChain_iff_pairwise.mp hm.groupsSorted).imp UInt16.lt_iff_toNat_lt.mp

theorem expandGroups_congr {m' : ShardManifest} (hm : WellFormed m) (hm' : WellFormed m')
    (hvalid : hasFlag m.flags flagGroupsValid = true)
    (hvalid' : hasFlag m'.flags flagGroupsValid = true) (hbits : m.shardBits = m'.shardBits)
    (hsame : ∀ g < 2 ^ m.shardBits.toNat, Names m g ↔ Names m' g) :
    expandGroups m = expandGroups m' := by
  refine List.map_injective_iff.mpr (fun _ _ => UInt16.toNat_inj.mp) ?_
  refine (sortedLT_expandGroups hm hvalid).eq_of_mem_iff (sortedLT_expandGroups hm' hvalid') ?_
  intro g
  rw [mem_expandGroups hm hvalid, mem_expandGroups hm' hvalid', ← hbits]
  exact and_congr_right (hsame g)

/-- Without the flag there are no groups at all. -/
theorem valid_of_mem_expandGroups {group : UInt16} (h : group ∈ expandGroups m) :
    hasFlag m.flags flagGroupsValid = true := by
  cases hvalid : hasFlag m.flags flagGroupsValid with
  | true => rfl
  | false =>
      rw [expandGroups, hvalid] at h
      exact absurd h List.not_mem_nil

theorem groups_upsert {reg : Registry} {now : Int} {src : Addr} {r : Registered}
    (h : (reg.upsert now src m).1 = some r) : r.entry.groups = expandGroups m := by
  rw [Registry.upsert] at h
  split at h
  · cases h
  · cases h
    rfl

/-! ## Runs of the consumer -/

/-- One of the run's datagrams decodes to the manifest. -/
def Heard (checksum : Bytes → UInt32) (events : List Event) (m : ShardManifest) : Prop :=
  ∃ src buf now, Event.datagram src buf now ∈ events ∧
    (decodeShardManifest checksum buf).outcome = .ok m

theorem Heard.cons {events : List Event} (event : Event) (h : Heard checksum events m) :
    Heard checksum (event :: events) m := by
  obtain ⟨src, buf, now, hevent, hm⟩ := h
  exact ⟨src, buf, now, List.mem_cons_of_mem _ hevent, hm⟩

theorem all_receive {P : Entry → Prop} {c : Consumer} (h : c.registry.All P) {src : Addr}
    {buf : Bytes} {now : Int}
    (hm : ∀ m, (decodeShardManifest checksum buf).outcome = .ok m → P (entryOf m)) :
    (c.receive checksum src buf now).registry.All P := by
  rw [Consumer.receive]
  split
  · next m hdecoded => exact h.upsert (hm m hdecoded) now src
  · exact h

/-- The snapshots hold what was heard, and the pilot groups are those of the snapshot. -/
theorem answers_heard {P : Entry → Prop} {c : Consumer} (h : c.registry.All P)
    {events : List Event} (hevents : ∀ m, Heard checksum events m → P (entryOf m)) :
    ∀ a ∈ c.answers checksum events,
      a.view.pilotGroups = pilotGroups (a.snap.map (·.entry)) ∧ ∀ r ∈ a.snap, P r.entry := by
  induction events generalizing c with
  | nil => exact List.forall_mem_nil _
  | cons event events ih =>
      have hlater : ∀ m, Heard checksum events m → P (entryOf m) :=
        fun m hm => hevents m (hm.cons event)
      cases event with
      | datagram src buf now =>
          refine ih (all_receive h fun m hm => ?_) hlater
          exact hevents m ⟨src, buf, now, List.mem_cons_self, hm⟩
      | evict now => exact ih (h.evict now) hlater
      | evaluate now orders =>
          refine List.forall_mem_cons.mpr ⟨⟨evaluate_pilotGroups, h.snapshot⟩, ?_⟩
          exact ih h hlater

/-- The two forms of a group set are read alike: an accepted manifest gives the increasing list of
the indices it names within its plane, manifests of one width that name the same indices there are
registered with the same groups, and every pilot group of a run is named, within its plane, by a
pilot of the snapshot. -/
theorem group_forms_agree (checksum : Bytes → UInt32) :
    (∀ buf m, (decodeShardManifest checksum buf).outcome = .ok m →
      hasFlag m.flags flagGroupsValid = true →
      (expandGroups m).Pairwise (· < ·) ∧
        ∀ g, g ∈ (expandGroups m).map (·.toNat) ↔ g < 2 ^ m.shardBits.toNat ∧ Names m g) ∧
    (∀ buf buf' m m', (decodeShardManifest checksum buf).outcome = .ok m →
      (decodeShardManifest checksum buf').outcome = .ok m' →
      hasFlag m.flags flagGroupsValid = true → hasFlag m'.flags flagGroupsValid = true →
      m.shardBits = m'.shardBits → (∀ g < 2 ^ m.shardBits.toNat, Names m g ↔ Names m' g) →
      ∀ (reg reg' : Registry) (now now' : Int) (src src' : Addr), ∀ r r',
        (reg.upsert now src m).1 = some r → (reg'.upsert now' src' m').1 = some r' →
        r.entry.groups = r'.entry.groups) ∧
    ∀ (defaultTTL : Int) (cfg : EvaluatorConfig) (events : List Event),
      ∀ a ∈ (Consumer.new defaultTTL cfg).answers checksum events, ∀ group ∈ a.view.pilotGroups,
        ∃ r ∈ a.snap, ∃ m, Heard checksum events m ∧ r.entry = entryOf m ∧
          r.entry.pilotOnly = true ∧ Names m group.toNat ∧
          group.toNat < 2 ^ m.shardBits.toNat := by
  refine ⟨?_, ?_, ?_⟩
  · intro buf m hm hvalid
    have hform := wellFormed_of_decode hm
    have hsorted := (sortedLT_expandGroups hform hvalid).pairwise
    refine ⟨(List.pairwise_map.mp hsorted).imp UInt16.lt_iff_toNat_lt.mpr, ?_⟩
    exact fun g => mem_expandGroups hform hvalid
  · intro buf buf' m m' hm hm' hvalid hvalid' hbits hsame reg reg' now now' src src' r r' hr hr'
    have hform := wellFormed_of_decode hm
    have hform' := wellFormed_of_decode hm'
    rw [groups_upsert hr, groups_upsert hr']
    exact expandGroups_congr hform hform' hvalid hvalid' hbits hsame
  · intro defaultTTL cfg events a ha group hgroup
    have hnone : (Consumer.new defaultTTL cfg).registry.All
        fun en => ∃ m, Heard checksum events m ∧ en = entryOf m := by nofun
    obtain ⟨hpilots, hheard⟩ := answers_heard hnone (fun m hm => ⟨m, hm, rfl⟩) a ha
    rw [hpilots] at hgroup
    obtain ⟨en, hen, hpilot, hmem⟩ := mem_pilotGroups_iff.mp hgroup
    obtain ⟨r, hr, rfl⟩ := List.mem_map.mp (List.mem_filter.mp hen).1
    obtain ⟨m, hm, hentry⟩ := hheard r hr
    rw [hentry] at hmem
    obtain ⟨src, buf, now, hevent, hdecoded⟩ := hm
    have hform := wellFormed_of_decode hdecoded
    have hnamed := (mem_expandGroups hform (valid_of_mem_expandGroups hmem)).mp
      (List.mem_map_of_mem hmem)
    exact ⟨r, hr, m, ⟨src, buf, now, hevent, hdecoded⟩, hentry, hpilot, hnamed.2, hnamed.1⟩

/-- A pilot on the plane of eight groups. -/
def groupsPilot (groups : List UInt16) (bitmap : Bytes) : ShardManifest where
  flags := flagGroupsValid ||| flagAuthoritative ||| flagPilotOnly
  srcIPv6 := .copy 16 [0x20, 0x01]
  instanceID := 7
  epoch := 0
  ttl := 90
  announceInterval := 30
  shardBits := 3
  roleHint := 5
  generationID := .copy 16 [1]
  groups := groups
  bitmap := bitmap
  sources := []
  successor := none
  domains := []

theorem decodes_groupsPilot {groups : List UInt16} {bitmap : Bytes}
    (h : (checkManifest (groupsPilot groups bitmap)).outcome = .ok ()) :
    (decodeShardManifest crc32c (sentDatagram crc32c (groupsPilot groups bitmap) ++ [])).outcome =
      .ok (groupsPilot groups bitmap) :=
  decode_sentDatagram crc32c (checkManifest_ok.mp h) []

def listPilot : ShardManifest := groupsPilot [3, 7, 9] []

def bitmapPilot : ShardManifest := groupsPilot [] [0x88, 0xFF]

/-- The groups 3 and 7 as a list with an index too many and as a bitmap with a byte too many. -/
theorem group_forms_agree_two :
    (∀ g < 2 ^ 3, Names listPilot g ↔ Names bitmapPilot g) ∧
      (expandGroups bitmapPilot).Pairwise (· < ·) ∧ expandGroups bitmapPilot = [3, 7] ∧
      ((newRegistry 90).register 0 (.v4 (.copy 4 [1])) listPilot).entry.groups =
        ((newRegistry 60).register 1 (.v4 (.copy 4 [2])) bitmapPilot).entry.groups := by
  have hlist : (decodeShardManifest crc32c (sentDatagram crc32c listPilot ++ [])).outcome =
      .ok listPilot := decodes_groupsPilot (by decide)
  have hbitmap : (decodeShardManifest crc32c (sentDatagram crc32c bitmapPilot ++ [])).outcome =
      .ok bitmapPilot := decodes_groupsPilot (by decide)
  have hsame : ∀ g < 2 ^ 3, Names listPilot g ↔ Names bitmapPilot g := by
    simp only [Names]
    decide
  obtain ⟨hexact, hforms, _⟩ := group_forms_agree crc32c
  refine ⟨hsame, (hexact _ _ hbitmap rfl).1, by decide, ?_⟩
  exact hforms _ _ _ _ hlist hbitmap rfl rfl rfl hsame (newRegistry 90) (newRegistry 60) 0 1 _ _ _ _
    rfl rfl

end ShardCommon.Manifest
