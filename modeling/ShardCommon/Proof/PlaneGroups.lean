import ShardCommon.Proof.ShardEngine

/-!
# The groups of a plane at two widths

A plane numbers its groups from its base, and each of them is the index of some key. Widening divides
every group: its keys are the keys of the groups that divide down to it, none of which is empty.
-/

namespace ShardCommon.Shard

open Go ShardCommon.Frame

variable {mcPrefix groupID mcPrefix' groupID' : UInt16} {domain : UInt8} {m n : UInt64}
  {p wide : PlaneEngine} {bits more : Nat}

/-- A plane in arithmetic: its indices are its base and the top bits of the first word. -/
structure PlaneEngine.Spans (p : PlaneEngine) (bits : Nat) : Prop where
  bits_le : bits ≤ 15
  stop_le : p.base.toNat + 2 ^ bits ≤ controlBase.toNat
  numGroups_eq : p.engine.numGroups.toNat = 2 ^ bits
  groupIndex_eq : ∀ key, (p.groupIndex key).toNat = p.base.toNat + firstWord key / 2 ^ (32 - bits)

theorem newPlane_spans (h : (newPlane mcPrefix groupID m domain).outcome = .ok p) :
    p.base = planeBase domain ∧ p.Spans m.toNat := by
  have hindex := fun key => newPlane_ok h key
  obtain ⟨⟨⟩, hvalid, hp⟩ := Run.bind_outcome_ok.mp h
  cases hp
  obtain ⟨hdomain, hbits, -, hstop⟩ := validatePlane_ok.mp hvalid
  have hbase := toNat_planeBase hdomain
  have hle : m ≤ 32 := UInt64.le_trans hbits (by decide)
  have hpow : 2 ^ m.toNat ≤ 2 ^ 15 :=
    Nat.pow_le_pow_right (by decide) (UInt64.le_iff_toNat_le.mp hbits)
  have hpos : 0 < 2 ^ m.toNat := Nat.two_pow_pos _
  refine ⟨rfl, UInt64.le_iff_toNat_le.mp hbits, ?_, ?_, ?_⟩
  · rw [hbase]
    exact hstop
  · rw [Engine.numGroups, UInt32.toNat_add, toNat_mask mcPrefix groupID hle, UInt32.toNat_one]
    omega
  · intro key
    have hlt := groupIndex_lt mcPrefix groupID hle key
    have hcontrol : controlBase.toNat < 2 ^ 32 := by decide
    rw [PlaneEngine.groupIndex, UInt32.toNat_add, UInt16.toNat_toUInt32, hbase,
      ← toNat_groupIndex mcPrefix groupID hle]
    dsimp only
    exact Nat.mod_eq_of_lt (by omega)

theorem firstWord_copy (w : UInt32) : firstWord (.copy 32 (putUint32 w)) = w.toNat := by
  rw [firstWord, FixedBytes.copy, List.take_take,
    List.take_append_of_le_length (by rw [length_putUint32]; decide),
    List.take_of_length_le (by rw [length_putUint32]; decide), uint32_putUint32]

namespace PlaneEngine.Spans

theorem toNat_groups (h : p.Spans bits) :
    p.groups.map UInt16.toNat = List.range' p.base.toNat (2 ^ bits) := by
  have hstop := h.stop_le
  have hcontrol : controlBase.toNat < 2 ^ 16 := by decide
  rw [PlaneEngine.groups, h.numGroups_eq, List.map_map, List.range'_eq_map_range]
  apply List.map_congr_left
  intro i hi
  have hlt := List.mem_range.mp hi
  rw [Function.comp_apply, UInt16.toNat_add, UInt16.toNat_ofNat_of_lt' (show i < 2 ^ 16 by omega)]
  exact Nat.mod_eq_of_lt (by omega)

theorem mem_groups (h : p.Spans bits) {g : UInt16} :
    g ∈ p.groups ↔ p.base.toNat ≤ g.toNat ∧ g.toNat < p.base.toNat + 2 ^ bits := by
  have hmem : g.toNat ∈ p.groups.map UInt16.toNat ↔ g ∈ p.groups :=
    List.mem_map_of_injective fun _ _ => UInt16.toNat_inj.mp
  rw [← hmem, h.toNat_groups, List.mem_range'_1]

theorem groups_increasing (h : p.Spans bits) : p.groups.Pairwise (· < ·) := by
  have hrange : (p.groups.map UInt16.toNat).Pairwise (· < ·) := by
    rw [h.toNat_groups]
    exact List.pairwise_lt_range'
  exact (List.pairwise_map.mp hrange).imp UInt16.lt_iff_toNat_lt.mpr

/-- The word of the key, cut to the top bits, stays below the number of groups. -/
theorem top_lt (h : p.Spans bits) (key : FixedBytes 32) :
    firstWord key / 2 ^ (32 - bits) < 2 ^ bits := by
  have hbits := h.bits_le
  apply Nat.div_lt_of_lt_mul
  rw [← Nat.pow_add, Nat.sub_add_cancel (by omega)]
  exact firstWord_lt key

theorem groupIndex_mem (h : p.Spans bits) (key : FixedBytes 32) :
    ∃ g ∈ p.groups, g.toUInt32 = p.groupIndex key := by
  have hstop := h.stop_le
  have hcontrol : controlBase.toNat < 2 ^ 16 := by decide
  have hlt := h.top_lt key
  have hindex := h.groupIndex_eq key
  generalize firstWord key / 2 ^ (32 - bits) = top at hlt hindex
  have hsame : (p.groupIndex key).toUInt16.toNat = (p.groupIndex key).toNat := by
    rw [UInt32.toNat_toUInt16]
    exact Nat.mod_eq_of_lt (by omega)
  refine ⟨(p.groupIndex key).toUInt16, h.mem_groups.mpr (by omega), ?_⟩
  rw [← UInt32.toNat_inj, UInt16.toNat_toUInt32, hsame]

/-- Every group is the index of a key: one whose first word is the group's number and zeros. -/
theorem exists_key (h : p.Spans bits) {g : UInt16} (hg : g ∈ p.groups) :
    ∃ key, p.groupIndex key = g.toUInt32 := by
  obtain ⟨hlow, hhigh⟩ := h.mem_groups.mp hg
  have hbits := h.bits_le
  have hword : (g.toNat - p.base.toNat) * 2 ^ (32 - bits) < 2 ^ 32 := by
    have hpow : 2 ^ bits * 2 ^ (32 - bits) = 2 ^ 32 := by
      rw [← Nat.pow_add, Nat.add_sub_cancel' (by omega)]
    rw [← hpow]
    exact Nat.mul_lt_mul_of_pos_right (by omega) (Nat.two_pow_pos _)
  refine ⟨.copy 32 (putUint32 (UInt32.ofNat ((g.toNat - p.base.toNat) * 2 ^ (32 - bits)))), ?_⟩
  rw [← UInt32.toNat_inj, h.groupIndex_eq, UInt16.toNat_toUInt32, firstWord_copy,
    UInt32.toNat_ofNat_of_lt' hword, Nat.mul_div_cancel _ (Nat.two_pow_pos _)]
  omega

theorem toNat_sub (h : p.Spans bits) (key : FixedBytes 32) :
    (p.groupIndex key - p.base.toUInt32).toNat = (p.groupIndex key).toNat - p.base.toNat := by
  have hle : p.base.toUInt32.toNat ≤ (p.groupIndex key).toNat := by
    rw [UInt16.toNat_toUInt32, h.groupIndex_eq]
    exact Nat.le_add_right _ _
  rw [UInt32.toNat_sub_of_le _ _ (UInt32.le_iff_toNat_le.mpr hle), UInt16.toNat_toUInt32]

/-- Narrowing by division: the index of the wider plane, shifted down. -/
theorem groupIndex_narrow (h : p.Spans bits) (hwide : wide.Spans more) (hle : bits ≤ more)
    (hbase : wide.base = p.base) (key : FixedBytes 32) :
    ((wide.groupIndex key).toNat - wide.base.toNat) / 2 ^ (more - bits) =
      (p.groupIndex key).toNat - p.base.toNat := by
  have hmore := hwide.bits_le
  rw [h.groupIndex_eq, hwide.groupIndex_eq, hbase, Nat.add_sub_cancel_left,
    Nat.add_sub_cancel_left, Nat.div_div_eq_div_mul, ← Nat.pow_add]
  congr 2
  omega

end PlaneEngine.Spans

/-! ## Children -/

/-- The groups of a plane widened by `widen` bits that divide down to `g`. -/
def PlaneEngine.childrenOf (wide : PlaneEngine) (widen : UInt64) (g : UInt16) : List UInt16 :=
  wide.groups.filter fun child =>
    shiftRight (child - wide.base).toUInt32 widen = (g - wide.base).toUInt32

theorem toNat_sub_base {g : UInt16} (h : p.Spans bits) (hg : g ∈ p.groups) :
    (g - p.base).toUInt32.toNat = g.toNat - p.base.toNat := by
  have hlow := (h.mem_groups.mp hg).1
  rw [UInt16.toNat_toUInt32, UInt16.toNat_sub_of_le _ _ (UInt16.le_iff_toNat_le.mpr hlow)]

namespace PlaneEngine.Spans

variable {widen : UInt64} {g child : UInt16}

theorem mem_childrenOf (h : p.Spans bits) (hwide : wide.Spans more) (hbase : wide.base = p.base)
    (hg : g ∈ p.groups) :
    child ∈ wide.childrenOf widen g ↔ child ∈ wide.groups ∧
      (child.toNat - wide.base.toNat) / 2 ^ widen.toNat = g.toNat - p.base.toNat := by
  rw [PlaneEngine.childrenOf, List.mem_filter, decide_eq_true_eq]
  refine and_congr_right fun hchild => ?_
  rw [← UInt32.toNat_inj, toNat_shiftRight, toNat_sub_base hwide hchild, hbase, toNat_sub_base h hg]

/-- The children of a group are as many as the widening has bit patterns. -/
theorem length_childrenOf (h : p.Spans bits) (hwide : wide.Spans more) (hbase : wide.base = p.base)
    (hbits : bits + widen.toNat = more) (hg : g ∈ p.groups) :
    (wide.childrenOf widen g).length = 2 ^ widen.toNat := by
  obtain ⟨hlow, hhigh⟩ := h.mem_groups.mp hg
  have hpos : 0 < 2 ^ widen.toNat := Nat.two_pow_pos _
  have hpow : 2 ^ more = 2 ^ bits * 2 ^ widen.toNat := by rw [← hbits, Nat.pow_add]
  have hperm : ((wide.childrenOf widen g).map UInt16.toNat).Perm
      (List.range' (p.base.toNat + (g.toNat - p.base.toNat) * 2 ^ widen.toNat) (2 ^ widen.toNat)) := by
    have hnodup : ((wide.childrenOf widen g).map UInt16.toNat).Nodup := by
      refine List.Nodup.map (fun _ _ => UInt16.toNat_inj.mp) ?_
      exact (hwide.groups_increasing.imp UInt16.ne_of_lt).filter _
    rw [List.perm_ext_iff_of_nodup hnodup (List.nodup_range' ..)]
    intro index
    rw [List.mem_range'_1, List.mem_map]
    simp only [h.mem_childrenOf hwide hbase hg, hwide.mem_groups, Nat.div_eq_iff hpos, hbase]
    have hstop := hwide.stop_le
    have hcontrol : controlBase.toNat < 2 ^ 16 := by decide
    have hroom : (g.toNat - p.base.toNat + 1) * 2 ^ widen.toNat ≤ 2 ^ more := by
      rw [hpow]
      exact Nat.mul_le_mul_right _ (by omega)
    rw [Nat.add_mul, Nat.one_mul] at hroom
    rw [hbase] at hstop
    constructor
    · rintro ⟨child, ⟨hchild, hdiv⟩, rfl⟩
      omega
    · intro hindex
      have htoNat : (UInt16.ofNat index).toNat = index :=
        UInt16.toNat_ofNat_of_lt' (show index < 2 ^ 16 by omega)
      exact ⟨UInt16.ofNat index, by rw [htoNat]; omega, htoNat⟩
  simpa using hperm.length_eq

/-- The keys of a group are the keys of its children. -/
theorem groupIndex_iff_child (h : p.Spans bits) (hwide : wide.Spans more) (hle : bits ≤ more)
    (hbase : wide.base = p.base) (hbits : bits + widen.toNat = more) (hg : g ∈ p.groups)
    (key : FixedBytes 32) :
    p.groupIndex key = g.toUInt32 ↔
      ∃ child ∈ wide.childrenOf widen g, wide.groupIndex key = child.toUInt32 := by
  have hlow := (h.mem_groups.mp hg).1
  have hown : p.base.toNat ≤ (p.groupIndex key).toNat := by
    rw [h.groupIndex_eq]
    exact Nat.le_add_right _ _
  have hshift := h.groupIndex_narrow hwide hle hbase key
  rw [show more - bits = widen.toNat by omega] at hshift
  rw [← UInt32.toNat_inj, UInt16.toNat_toUInt32]
  constructor
  · intro heq
    obtain ⟨child, hchild, hindex⟩ := hwide.groupIndex_mem key
    refine ⟨child, (h.mem_childrenOf hwide hbase hg).mpr ⟨hchild, ?_⟩, hindex.symm⟩
    rw [← UInt16.toNat_toUInt32, hindex, hshift, heq]
  · rintro ⟨child, hchild, hindex⟩
    have hdiv := ((h.mem_childrenOf hwide hbase hg).mp hchild).2
    rw [← UInt16.toNat_toUInt32, ← hindex, hshift] at hdiv
    omega

end PlaneEngine.Spans

/-- **A plane partitions its keys, at any width.** Every key falls into one of the groups, which are
numbered from the base without a gap and are all in use. At a greater width the same key shifts down
to the same group, so each group is divided into as many groups as the added bits allow, none empty,
and narrowing puts exactly these together again. -/
theorem plane_partition (hp : (newPlane mcPrefix groupID m domain).outcome = .ok p)
    (hwide : (newPlane mcPrefix' groupID' n domain).outcome = .ok wide) (hle : m ≤ n) :
    (∀ key, ∃ g ∈ p.groups, g.toUInt32 = p.groupIndex key) ∧
      p.groups.Pairwise (· < ·) ∧
      p.groups.map UInt16.toNat = List.range' (planeBase domain).toNat (2 ^ m.toNat) ∧
      (∀ g ∈ p.groups, g < 0xF800 ∧ ∃ key, p.groupIndex key = g.toUInt32) ∧
      (∀ key, shiftRight (wide.groupIndex key - wide.base.toUInt32) (n - m) =
        p.groupIndex key - p.base.toUInt32) ∧
      ∀ g ∈ p.groups,
        (wide.childrenOf (n - m) g).length = 2 ^ (n.toNat - m.toNat) ∧
          (∀ child ∈ wide.childrenOf (n - m) g, ∃ key, wide.groupIndex key = child.toUInt32) ∧
          ∀ key, p.groupIndex key = g.toUInt32 ↔
            ∃ child ∈ wide.childrenOf (n - m) g, wide.groupIndex key = child.toUInt32 := by
  obtain ⟨hbase, hspans⟩ := newPlane_spans hp
  obtain ⟨hbase', hspans'⟩ := newPlane_spans hwide
  have hsame : wide.base = p.base := hbase'.trans hbase.symm
  have hbits : m.toNat ≤ n.toNat := UInt64.le_iff_toNat_le.mp hle
  have hdiff : (n - m).toNat = n.toNat - m.toNat := UInt64.toNat_sub_of_le _ _ hle
  have hsum : m.toNat + (n - m).toNat = n.toNat := by omega
  refine ⟨hspans.groupIndex_mem, hspans.groups_increasing, ?_, ?_, ?_, ?_⟩
  · rw [hspans.toNat_groups, hbase]
  · intro g hg
    have hstop := hspans.stop_le
    have hcontrol : controlBase.toNat = (0xF800 : UInt16).toNat := rfl
    have hhigh := (hspans.mem_groups.mp hg).2
    exact ⟨UInt16.lt_iff_toNat_lt.mpr (by omega), hspans.exists_key hg⟩
  · intro key
    have hnarrow := hspans.groupIndex_narrow hspans' hbits hsame key
    rw [← UInt32.toNat_inj, toNat_shiftRight, hdiff, hspans'.toNat_sub, hspans.toNat_sub, hnarrow]
  · intro g hg
    rw [← hdiff]
    exact ⟨hspans.length_childrenOf hspans' hsame hsum hg,
      fun child hchild => hspans'.exists_key (List.mem_of_mem_filter hchild),
      hspans.groupIndex_iff_child hspans' hbits hsame hsum hg⟩

/-- The BEEF plane at a given width. -/
def beefEngine (bits : UInt64) : PlaneEngine := ⟨new 0xFF05 0x000B bits, planeBase 1⟩

/-- From the single group of width zero. -/
theorem plane_partition_zero_bits : ((beefEngine 2).childrenOf 2 0x1000).length = 4 := by
  have hzero : (newPlane 0xFF05 0x000B 0 1).outcome = .ok (beefEngine 0) := rfl
  have htwo : (newPlane 0xFF05 0x000B 2 1).outcome = .ok (beefEngine 2) := rfl
  exact ((plane_partition hzero htwo (by decide)).2.2.2.2.2 0x1000 (by decide)).1

end ShardCommon.Shard
