import ShardCommon.Proof.BEEFRecord
import ShardCommon.Proof.TxGrammar

/-!
# The streaming law

A verdict on a buffer is final. A size stays what it is when more bytes arrive, every cut in front of
it is short, and a malformed object stays malformed. The lengths that an object declares are checked
before they are added, so that no offset leaves the 64-bit range.
-/

namespace ShardCommon.Objfmt

open Go Run ShardCommon.Frame

variable {buf : Bytes} {off : Nat}

/-! ## Offsets stay in range -/

theorem neverPanics_subtreeSize (buf : Bytes) : (subtreeSize buf).NeverPanics := by
  refine .check fun hheader => ?_
  rw [subtreeHeaderSize] at hheader
  refine ((neverPanics_slice (by omega) (by omega)).map _).bind fun n _ => .check fun hcount => ?_
  have hnodes : subtreeHeaderSize + n.toNat * subtreeNodeSize < 2 ^ 63 := by
    simp only [mathMaxInt, subtreeHeaderSize, subtreeNodeSize] at hcount ⊢
    omega
  refine (neverPanics_mul (by omega)).bind fun nodes hmul => ?_
  obtain ⟨-, rfl⟩ := mul_outcome_ok.mp hmul
  exact (neverPanics_add hnodes).bind fun total _ => .check fun _ => neverPanics_pure total

theorem neverPanics_blockTailSize (hbuf : buf.length ≤ addressable) (hoff : off ≤ buf.length) :
    (blockTailSize buf off).NeverPanics := by
  rw [addressable] at hbuf
  refine (neverPanics_add (by omega)).bind fun stop hadd => ?_
  obtain ⟨-, rfl⟩ := add_outcome_ok.mp hadd
  refine .check fun hreach => ((neverPanics_slice (by omega) (by omega)).map _).bind fun l _ => ?_
  refine .check fun hbump => (neverPanics_add ?_).bind fun total _ => .check fun _ => ?_
  · rw [mathMaxInt] at hbump
    omega
  · exact neverPanics_pure total

theorem neverPanics_blockSize (hbuf : buf.length ≤ addressable) : (blockSize buf).NeverPanics := by
  refine .check fun hheader => ?_
  rw [blockPrefixSize] at hheader
  refine ((neverPanics_slice (by omega) (by omega)).map _).bind fun m _ => .check fun hcount => ?_
  have hroots : blockPrefixSize + m.toNat * blockRootSize < 2 ^ 63 := by
    simp only [mathMaxInt, blockPrefixSize, blockRootSize] at hcount ⊢
    omega
  refine (neverPanics_mul (by omega)).bind fun roots hmul => ?_
  obtain ⟨-, rfl⟩ := mul_outcome_ok.mp hmul
  refine (neverPanics_add hroots).bind fun off hadd => .check fun hreach => ?_
  have hcoinbase : (bytesAt buf off buf.length >>= txSize) = txSize (buf.drop off) := by
    rw [bytesAt, slice_of_le (by omega) le_rfl, pure_bind, ← List.length_drop, List.take_length]
  have hdrop : (buf.drop off).length ≤ addressable := by
    rw [List.length_drop]
    omega
  rw [hcoinbase]
  refine NeverPanics.bind (fun cause => txSize_ne_panic hdrop cause) fun coinbase hsize => ?_
  -- the coinbase ends inside the buffer
  have hwithin := (streams_txWalk.within (Nat.zero_le _) (txSize_eq (buf.drop off) ▸ hsize)).2
  rw [List.length_drop, id] at hwithin
  rw [addressable] at hbuf
  refine (neverPanics_add (by omega)).bind fun stop hstop => ?_
  obtain ⟨-, rfl⟩ := add_outcome_ok.mp hstop
  exact neverPanics_blockTailSize hbuf (by omega)

theorem neverPanics_beefDeliverySize (buf : Bytes) : (beefDeliverySize buf).NeverPanics := by
  refine .check fun hheader => ?_
  rw [beefDeliveryHeaderSize] at hheader
  refine ((neverPanics_slice (by omega) (by omega)).map _).bind fun objLen _ => ?_
  have hword := objLen.toNat_lt
  refine .check fun _ => .check fun _ => (neverPanics_add ?_).bind fun total _ =>
    .check fun _ => neverPanics_pure total
  rw [beefDeliveryHeaderSize]
  omega

theorem neverPanics_size {c : Class} (hc : c.Registered) (hbuf : buf.length ≤ addressable) :
    (size c buf).NeverPanics := by
  cases c with
  | tx => exact fun cause => txSize_ne_panic hbuf cause
  | subtree => exact neverPanics_subtreeSize buf
  | block => exact neverPanics_blockSize hbuf
  | beef => exact neverPanics_beefRecordSize buf
  | beefDelivery => exact neverPanics_beefDeliverySize buf
  | blockHeader => exact .check fun _ => neverPanics_pure _
  | unregistered value => exact absurd rfl (hc value)

/-! ## The law -/

theorem size_pos {c : Class} (hc : c.Registered) {n : Nat} (h : (size c buf).outcome = .ok n) :
    0 < n := by
  rcases Nat.eq_zero_or_pos n with rfl | hpos
  · have hnone := ((size_delimits hc).take h).2
    rw [List.take_zero, size_nil hc] at hnone
    cases hnone
  · exact hpos

/-- Every class delimits itself, on buffers as long as a slice can be. -/
theorem size_streaming_law {c : Class} (hc : c.Registered) (b e : Bytes) :
    (∀ n, (size c b).outcome = .ok n → 0 < n ∧ n ≤ b.length ∧ (size c (b ++ e)).outcome = .ok n ∧
      ∀ k < n, (size c (b.take k)).outcome = .fail .short) ∧
    (∀ detail, (size c b).outcome = .fail (.malformed detail) →
      (size c (b ++ e)).outcome = .fail (.malformed detail)) ∧
    (b.length ≤ 2 ^ 63 - 4096 → ∀ cause, (size c b).outcome ≠ .panic cause) := by
  have hsize := size_delimits hc
  refine ⟨?_, ?_, ?_⟩
  · intro n h
    exact ⟨size_pos hc h, (hsize.take h).1, hsize.ok_append h e, fun k hk => hsize.short_take h hk⟩
  · intro detail h
    apply hsize.error_append h
    rintro ⟨⟩
  · intro hlength
    exact neverPanics_size hc hlength

theorem size_streaming_law_tx : (size .tx (smallTx ++ [7])).outcome = .ok 60 ∧
    (size .tx (smallTx.take 59)).outcome = .fail .short := by
  have hsize : (size .tx smallTx).outcome = .ok 60 := by decide +kernel
  have hregistered : Class.tx.Registered := by
    intro value
    rintro ⟨⟩
  obtain ⟨-, -, happend, hcut⟩ := (size_streaming_law hregistered smallTx [7]).1 60 hsize
  exact ⟨happend, hcut 59 (by decide)⟩

end ShardCommon.Objfmt
