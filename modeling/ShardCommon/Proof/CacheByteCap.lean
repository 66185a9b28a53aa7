import ShardCommon.Proof.CacheBackend

/-!
# The byte cap

A shard stays within its share of the bytes, unless a single value is larger than the share and then
nothing else in the shard has a byte. Both alternatives survive when totals go down, so erasing keeps
them and so does a rewrite that does not grow its value. A write that grows the shard either fits or
runs the room-making pass, which stops within the share less the new value or with the shard empty.
-/

namespace ShardCommon.MemoryCache

namespace Shard

variable {s t : Shard} {caps : Caps} {key : Bytes} {val : Slice} {cap ttl now : Int}

def bytesOf (m : AList (fun _ : Bytes => Entry)) : Nat := m.total fun e => e.value.len

/-- How many values of the map are not empty. -/
def fullOf (m : AList (fun _ : Bytes => Entry)) : Nat :=
  m.total fun e => if 0 < e.value.len then 1 else 0

variable (key) in
theorem bytesOf_erase_add (m : AList (fun _ : Bytes => Entry)) :
    bytesOf (m.erase key) + ((m.lookup key).elim 0 fun e => e.value.len) = bytesOf m :=
  AList.total_erase_add _ key m

variable (key) in
theorem fullOf_erase_add (m : AList (fun _ : Bytes => Entry)) :
    fullOf (m.erase key) + ((m.lookup key).elim 0 fun e => if 0 < e.value.len then 1 else 0)
      = fullOf m :=
  AList.total_erase_add _ key m

theorem bytesOf_insert (m : AList (fun _ : Bytes => Entry)) (e : Entry) :
    bytesOf (m.insert key e) = e.value.len + bytesOf (m.erase key) :=
  AList.total_insert _ key e m

theorem fullOf_insert (m : AList (fun _ : Bytes => Entry)) (e : Entry) :
    fullOf (m.insert key e) = (if 0 < e.value.len then 1 else 0) + fullOf (m.erase key) :=
  AList.total_insert _ key e m

def ByteCapped (cap : Int) (m : AList (fun _ : Bytes => Entry)) : Prop :=
  (bytesOf m : Int) ≤ cap ∨ fullOf m = 1

theorem bytesOf_eq_zero {m : AList (fun _ : Bytes => Entry)} (h : fullOf m = 0) :
    bytesOf m = 0 := by
  refine AList.total_eq_zero_of_imp (fun e he => ?_) h
  split at he
  · cases he
  · omega

theorem ByteCapped.of_le {m m' : AList (fun _ : Bytes => Entry)} (h : ByteCapped cap m)
    (hcap : 0 ≤ cap) (hbytes : bytesOf m' ≤ bytesOf m) (hfull : fullOf m' ≤ fullOf m) :
    ByteCapped cap m' := by
  rcases h with hle | hone
  · left
    omega
  · by_cases hzero : fullOf m' = 0
    · left
      rw [bytesOf_eq_zero hzero]
      exact hcap
    · right
      omega

theorem ByteCapped.erase {m : AList (fun _ : Bytes => Entry)} (hcap : 0 ≤ cap) (key : Bytes)
    (h : ByteCapped cap m) : ByteCapped cap (m.erase key) := by
  have hbytes := bytesOf_erase_add key m
  have hfull := fullOf_erase_add key m
  exact h.of_le hcap (by omega) (by omega)

/-- A rewrite that does not grow its value. -/
theorem ByteCapped.shrink {m : AList (fun _ : Bytes => Entry)} (h : ByteCapped cap m)
    (hcap : 0 ≤ cap) (hle : val.len ≤ (m.lookup key).elim 0 fun e => e.value.len)
    (deadline : Int) : ByteCapped cap (m.insert key ⟨val, deadline⟩) := by
  have hbytes := bytesOf_erase_add key m
  have hfull := fullOf_erase_add key m
  refine h.of_le hcap ?_ ?_
  · rw [bytesOf_insert]
    dsimp only
    omega
  · rw [fullOf_insert]
    dsimp only
    cases hlookup : m.lookup key with
    | none =>
        rw [hlookup] at hle hfull
        have hzero : val.len = 0 := Nat.le_zero.mp hle
        rw [if_neg (by omega)]
        omega
    | some e =>
        rw [hlookup] at hle hfull
        simp only [Option.elim_some] at hle hfull
        split at hfull
        · split <;> omega
        · rw [if_neg (by omega)]
          omega

/-- A write that fits. -/
theorem ByteCapped.fits {m : AList (fun _ : Bytes => Entry)}
    (hfits : (bytesOf (m.erase key) : Int) + val.len ≤ cap) (deadline : Int) :
    ByteCapped cap (m.insert key ⟨val, deadline⟩) := by
  left
  rw [bytesOf_insert]
  dsimp only
  omega

/-- Any write into an empty shard. -/
theorem ByteCapped.alone {m : AList (fun _ : Bytes => Entry)} (hsize : m.size = 0)
    (hcap : 0 ≤ cap) (deadline : Int) : ByteCapped cap (m.insert key ⟨val, deadline⟩) := by
  rw [AList.size_eq_total] at hsize
  have hbytes : bytesOf (m.erase key) = 0 := by
    have hzero : bytesOf m = 0 := AList.total_eq_zero_of_imp (by simp) hsize
    have herase := bytesOf_erase_add key m
    omega
  have hfull : fullOf (m.erase key) = 0 := by
    have hzero : fullOf m = 0 := AList.total_eq_zero_of_imp (by simp) hsize
    have herase := fullOf_erase_add key m
    omega
  by_cases hlen : 0 < val.len
  · right
    rw [fullOf_insert, hfull]
    simp [hlen]
  · exact ByteCapped.fits (by omega) deadline

/-- The byte pass ends within its limit, or with the shard empty. -/
theorem makeRoomBytes_spec (h : s.Inv now) (limit : Int) :
    (bytesOf (s.makeRoomBytes now limit).data : Int) ≤ limit
      ∨ (s.makeRoomBytes now limit).data.size = 0 := by
  have hroom := h.pops (makeRoomBytes_pops s now limit)
  rcases (evictLoop_spec (fun s => limit < s.bytes) (s.expire now maxInt).1).2 with hexit | hempty
  · left
    have hle : (s.makeRoomBytes now limit).bytes ≤ limit := by simpa [makeRoomBytes] using hexit
    rwa [hroom.bytes_eq] at hle
  · exact Or.inr (hroom.size_zero hempty)

theorem ByteCapped.roomForBytes (h : ByteCapped caps.perShardBytes s.data) (hinv : s.Inv now)
    (hcap : 0 < caps.perShardBytes) (key : Bytes) (val : Slice) (deadline : Int) :
    ByteCapped caps.perShardBytes
      ((s.roomForBytes caps key val now (s.data.lookup key)).1.data.insert key ⟨val, deadline⟩) := by
  have herase := bytesOf_erase_add key s.data
  have hbytes : s.bytes = bytesOf s.data := hinv.bytes_eq
  rw [Shard.roomForBytes]
  dsimp only
  split
  · dsimp only
    -- the pass ran: the share less the value is kept, or nothing is
    have hlower := bytesOf_erase_add key
      (s.makeRoomBytes now (caps.perShardBytes - val.len)).data
    rcases makeRoomBytes_spec hinv (caps.perShardBytes - val.len) with hle | hempty
    · exact ByteCapped.fits (by omega) deadline
    · exact ByteCapped.alone hempty (by omega) deadline
  · rename_i hskip
    simp only [Bool.and_eq_true, decide_eq_true_eq, not_and, not_lt] at hskip
    dsimp only
    by_cases hgrows : 0 < (val.len : Int) - ((s.data.lookup key).elim 0 fun e => e.value.len)
    · have hroom := hskip ⟨hcap, hgrows⟩
      exact ByteCapped.fits (by omega) deadline
    · exact h.shrink (by omega) (by omega) deadline

theorem ByteCapped.put (h : ByteCapped caps.perShardBytes s.data) (hinv : s.Inv now)
    (hcap : 0 < caps.perShardBytes) :
    ByteCapped caps.perShardBytes (s.put caps key val ttl now (s.data.lookup key)).data := by
  have herase := fun m other => @ByteCapped.erase caps.perShardBytes m (Int.le_of_lt hcap) other
  have hpops := roomForKey_pops s caps now (s.data.lookup key)
  rw [put_eq]
  exact store_keeps herase fun deadline =>
    (hpops.keeps herase h).roomForBytes (hinv.pops hpops) hcap key val deadline

theorem ByteCapped.step (h : ByteCapped caps.perShardBytes s.data) (hinv : s.Inv now)
    (hcap : 0 < caps.perShardBytes) (op : Op) :
    ByteCapped caps.perShardBytes (s.step caps now op).data := by
  have herase := fun m other => @ByteCapped.erase caps.perShardBytes m (Int.le_of_lt hcap) other
  cases op with
  | set key val ttl => exact h.put hinv hcap
  | setNX key val ttl =>
      unfold Shard.step setNX
      dsimp only
      split
      · exact h
      · exact h.put hinv hcap
  | del key => exact del_keeps herase key h
  | expirePass => exact expirePass_keeps herase now h

theorem Reachable.byteCapped (h : Reachable caps now s) (hcap : 0 < caps.perShardBytes) :
    ByteCapped caps.perShardBytes s.data := by
  induction h with
  | init _ =>
      left
      exact Int.le_of_lt hcap
  | step op hprev hle ih => exact ih.step (hprev.capped.2.inv.mono hle) hcap op

end Shard

variable {opts : Options} {log : List (Call × Reply)} {b : Backend} {now : Int}

/-- **The byte cap.** In every reachable backend with a byte cap, under any key cap, the values of a
shard stay within the shard's share, or exactly one of them has any bytes. -/
theorem reachable_bytes (h : Backend.Run opts log now b) (hcap : 0 < opts.maxBytes)
    (index : Fin shardCount) :
    (((b.shards index).data.entries.map fun e => e.2.value.len).sum : Nat)
        ≤ max (opts.maxBytes.tdiv shardCount) 1
      ∨ ((b.shards index).data.entries.countP fun e => 0 < e.2.value.len) = 1 := by
  obtain ⟨last, _, hshard⟩ := h.shard index
  have hshare : b.perShardBytes = max (opts.maxBytes.tdiv shardCount) 1 := by
    rw [h.caps, Backend.newWithOptions, if_pos hcap]
  have hcapped := hshard.byteCapped (by rw [hshare]; omega)
  rw [hshare] at hcapped
  rwa [Shard.ByteCapped, Shard.fullOf, AList.total_ite] at hcapped

theorem reachable_bytes_oversized :
    ((((Backend.newWithOptions ⟨0, 64⟩).call 5 (.set [1] (some [7, 7, 7]) 10)).1.shards
      (shardFor [1])).data.entries.countP fun e => 0 < e.2.value.len) = 1 :=
  have hreached : Backend.Run ⟨0, 64⟩ _ 5
      ((Backend.newWithOptions ⟨0, 64⟩).call 5 (.set [1] (some [7, 7, 7]) 10)).1 :=
    .call _ (.init (Int.le_refl 0)) (by decide)
  (reachable_bytes hreached (by decide) (shardFor [1])).resolve_left (by decide)

end ShardCommon.MemoryCache
