import ShardCommon.Lib.Recognizer
import ShardCommon.Proof.ObjectSize
import ShardCommon.TxGrammar

/-!
# `TxSize` recognises the transaction format

Each function of the walk recognises one kind of node of the format. The walk refuses offsets above
`MaxInt32`, so it is complete up to that offset and sound everywhere.
-/

namespace ShardCommon.Objfmt

open Go ShardCommon.Frame

/-- A walk of the size functions recognises a kind of node. -/
abbrev TxReads {τ : Type} (buf : Bytes) (bytes : τ → Bytes) (walk : Nat → SizeRun Nat) : Prop :=
  Reads mathMaxInt32 buf bytes walk

/-! ## Compact-size integers -/

theorem spells_iff {value : UInt64} {bytes : Bytes} :
    Spells value bytes ↔ ∃ first rest, bytes = first :: rest ∧ rest.length = varIntWidth first ∧
      value = varIntValue first bytes := by
  constructor
  · rintro (⟨h⟩ | ⟨h⟩ | ⟨h⟩ | ⟨h⟩)
    · exact ⟨_, [], rfl, by rw [varIntWidth, if_pos h, List.length_nil],
        by rw [varIntValue, if_pos h]⟩
    · exact ⟨_, _, rfl, h, rfl⟩
    · exact ⟨_, _, rfl, h, rfl⟩
    · exact ⟨_, _, rfl, h, rfl⟩
  · rintro ⟨first, rest, rfl, hlength, rfl⟩
    rw [varIntWidth] at hlength
    rw [varIntValue]
    by_cases hone : first < 0xFD
    · rw [if_pos hone] at hlength ⊢
      rw [List.length_eq_zero_iff.mp hlength]
      exact .one hone
    rw [if_neg hone] at hlength ⊢
    by_cases htwo : first = 0xFD
    · rw [if_pos htwo] at hlength
      rw [htwo]
      exact .two hlength
    rw [if_neg htwo] at hlength
    by_cases hfour : first = 0xFE
    · rw [if_pos hfour] at hlength
      rw [hfour]
      exact .four hlength
    rw [if_neg hfour] at hlength
    have height : first = 0xFF := by
      rw [← UInt8.toNat_inj] at htwo hfour ⊢
      rw [UInt8.lt_iff_toNat_lt] at hone
      have := first.toNat_lt
      simp only [UInt8.toNat_ofNat] at *
      omega
    rw [height]
    exact .eight hlength

theorem CompactSize.pos (size : CompactSize) : 0 < size.bytes.length := by
  obtain ⟨first, rest, heq, -⟩ := spells_iff.mp size.spells
  rw [heq]
  exact Nat.succ_pos _

theorem takeVarInt_sound {buf : Bytes} {off : Nat} {read : UInt64 × Nat}
    (h : (takeVarInt buf off).outcome = .ok read) :
    ∃ size : CompactSize, StandsAt buf off size.bytes ∧
      read = (size.value, off + size.bytes.length) := by
  cases hfirst : buf[off]? with
  | none =>
      rw [takeVarInt_short (List.getElem?_eq_none_iff.mp hfirst)] at h
      cases h
  | some first =>
      obtain ⟨hoff, hget⟩ := List.getElem?_eq_some_iff.mp hfirst
      rw [takeVarInt_eq hfirst] at h
      obtain ⟨-, hwidth, rfl⟩ := Run.field_outcome_ok h
      have hpart : (buf.drop off).take (1 + varIntWidth first) =
          first :: (buf.drop (off + 1)).take (varIntWidth first) := by
        rw [List.drop_eq_getElem_cons hoff, hget, Nat.add_comm 1, List.take_succ_cons]
      have hrest : ((buf.drop (off + 1)).take (varIntWidth first)).length = varIntWidth first := by
        rw [List.length_take, List.length_drop]
        omega
      refine ⟨⟨_, _, spells_iff.mpr ⟨first, _, hpart, hrest, rfl⟩⟩, standsAt_take hwidth, ?_⟩
      dsimp only
      rw [hpart, List.length_cons, hrest, Nat.add_comm 1]

theorem takeVarInt_complete {buf : Bytes} {off : Nat} (size : CompactSize)
    (h : StandsAt buf off size.bytes) (hlimit : off + size.bytes.length < 2 ^ 63) :
    (takeVarInt buf off).outcome = .ok (size.value, off + size.bytes.length) := by
  obtain ⟨first, rest, heq, hlength, hvalue⟩ := spells_iff.mp size.spells
  have hreach := h.length_le
  have hwidth : size.bytes.length = 1 + varIntWidth first := by
    rw [heq, List.length_cons, hlength, Nat.add_comm]
  have hpart := h.eq_take
  rw [hwidth] at hreach hlimit hpart ⊢
  have hfirst : buf[off]? = some first := by
    have hget := congrArg (fun l => l[0]?) hpart
    rw [heq, List.getElem?_take_of_lt (by omega), List.getElem?_drop] at hget
    exact hget.symm
  rw [takeVarInt_eq hfirst, Run.field_of_le hlimit hreach, ← hpart, ← hvalue]
  rfl

/-! ## Nodes -/

section

variable {buf : Bytes}

theorem reads_advance (n : UInt64) :
    TxReads buf (fun part : FixedBytes n.toNat => part.val) (fun off => advance buf off n) where
  sound {off stop} hoff hstop := by
    obtain ⟨⟨⟩, -, hstop⟩ := Run.bind_outcome_ok.mp hstop
    obtain ⟨-, hreach, rfl⟩ := skip_outcome_ok hstop
    obtain ⟨part, hlength, hpart⟩ := exists_standsAt hreach
    exact ⟨⟨part, hlength⟩, hpart, congrArg (off + ·) hlength.symm⟩
  complete {off} part hstands hlimit := by
    have hreach := hstands.length_le
    rw [FixedBytes.length_val] at hreach hlimit ⊢
    have hguard : ¬ (mathMaxInt32 < n.toNat ∨ mathMaxInt32 < off) := by omega
    rw [mathMaxInt32] at hlimit
    have hskip : skip n.toNat buf off = pure (off + n.toNat) := skip_of_le (by omega) hreach
    rw [advance, Run.failIf_neg hguard, pure_bind]
    exact congrArg Run.outcome hskip

theorem advance_within {n : UInt64} {off stop : Nat}
    (h : (advance buf off n).outcome = .ok stop) : off ≤ mathMaxInt32 := by
  obtain ⟨⟨⟩, hguard, -⟩ := Run.bind_outcome_ok.mp h
  have := Run.failIf_outcome_ok.mp hguard
  omega

theorem reads_pure :
    TxReads buf (fun _ : Unit => []) (fun off => (pure off : SizeRun Nat)) where
  sound {off stop} hoff hstop := by
    cases hstop
    exact ⟨(), standsAt_nil_iff.mpr hoff, rfl⟩
  complete _ _ _ := rfl

/-- `sLen, n, err := varInt(buf, off)` and what it counts. -/
def scriptWalk (buf : Bytes) (off : Nat) : SizeRun Nat :=
  takeVarInt buf off >>= fun script => advance buf script.2 script.1

theorem reads_script : TxReads buf Script.bytes (scriptWalk buf) where
  sound {off stop} hoff hstop := by
    obtain ⟨read, hread, hstop⟩ := Run.bind_outcome_ok.mp hstop
    obtain ⟨size, hsize, rfl⟩ := takeVarInt_sound hread
    obtain ⟨body, hbody, rfl⟩ := (reads_advance size.value).sound hsize.length_le hstop
    refine ⟨⟨size, body.val, body.property⟩, standsAt_append_iff.mpr ⟨hsize, hbody⟩, ?_⟩
    rw [Script.bytes, List.length_append, Nat.add_assoc]
  complete {off} script hstands hlimit := by
    obtain ⟨hsize, hbody⟩ := standsAt_append_iff.mp hstands
    have hlength : script.bytes.length = script.size.bytes.length + script.body.length :=
      List.length_append
    rw [mathMaxInt32] at hlimit
    refine Run.bind_outcome_ok.mpr ⟨_, takeVarInt_complete script.size hsize (by omega), ?_⟩
    rw [hlength, ← Nat.add_assoc]
    refine (reads_advance script.size.value).complete ⟨script.body, script.length_body⟩ hbody ?_
    rw [mathMaxInt32]
    dsimp only
    omega

theorem reads_txOutput : TxReads buf TxOut.bytes (txOutput buf) := by
  apply ((reads_advance 8).seq reads_script).of_items
  · rintro ⟨value, script⟩
    exact ⟨⟨value, script⟩, rfl⟩
  · rintro ⟨value, script⟩
    exact ⟨(value, script), rfl⟩

/-- What the two forms write for an input. -/
theorem reads_txInput_standard : TxReads buf TxIn.bytes (txInput false buf) := by
  have hpure : TxReads buf (fun _ : Unit => []) (fun off => pure off) := reads_pure
  have hseq := (((reads_advance 36).seq reads_script).seq (reads_advance 4)).seq hpure
  have heq : txInput false buf = fun off => ((advance buf off 36 >>= scriptWalk buf) >>=
      fun off => advance buf off 4) >>= fun off => pure off := by
    funext off
    simp only [txInput, scriptWalk, bind_assoc, Bool.false_eq_true, if_false]
  rw [heq]
  apply hseq.of_items
  · rintro ⟨⟨⟨outpoint, script⟩, sequence⟩, ⟨⟩⟩
    exact ⟨⟨outpoint, script, sequence⟩, (List.append_nil _).symm⟩
  · rintro ⟨outpoint, script, sequence⟩
    exact ⟨(((outpoint, script), sequence), ()), List.append_nil _⟩

theorem reads_txInput_extended : TxReads buf extendedInput (txInput true buf) := by
  have hspent : TxReads buf TxOut.bytes (txOutput buf) := reads_txOutput
  have hseq := (((reads_advance 36).seq reads_script).seq (reads_advance 4)).seq hspent
  have heq : txInput true buf = fun off => ((advance buf off 36 >>= scriptWalk buf) >>=
      fun off => advance buf off 4) >>= fun off => txOutput buf off := by
    funext off
    simp only [txInput, scriptWalk, bind_assoc, if_true]
  rw [heq]
  apply hseq.of_items
  · rintro ⟨⟨⟨outpoint, script⟩, sequence⟩, spent⟩
    exact ⟨(⟨outpoint, script, sequence⟩, spent), rfl⟩
  · rintro ⟨⟨outpoint, script, sequence⟩, spent⟩
    exact ⟨(((outpoint, script), sequence), spent), rfl⟩

/-- A count of at least one and that many rounds. -/
def countedWalk (buf : Bytes) (round : Nat → SizeRun Nat) (e : ObjfmtError) (off : Nat) :
    SizeRun Nat :=
  takeVarInt buf off >>= fun count => Run.failIf (count.1 = 0) e >>= fun _ =>
    Run.iterate round count.1.toNat count.2

theorem reads_counted {ι : Type} {item : ι → Bytes} {round : Nat → SizeRun Nat}
    (h : TxReads buf item round) (e : ObjfmtError) :
    TxReads buf (Counted.bytes item) (countedWalk buf round e) where
  sound {off stop} hoff hstop := by
    obtain ⟨read, hread, hstop⟩ := Run.bind_outcome_ok.mp hstop
    obtain ⟨count, hcount, rfl⟩ := takeVarInt_sound hread
    obtain ⟨⟨⟩, hpos, hstop⟩ := Run.bind_outcome_ok.mp hstop
    obtain ⟨items, hitems, rfl⟩ := (h.iterate count.value.toNat).sound hcount.length_le hstop
    refine ⟨⟨count, items.val, items.property, Run.failIf_outcome_ok.mp hpos⟩,
      standsAt_append_iff.mpr ⟨hcount, hitems⟩, ?_⟩
    rw [Counted.bytes, List.length_append, Nat.add_assoc]
  complete {off} vector hstands hlimit := by
    obtain ⟨hcount, hitems⟩ := standsAt_append_iff.mp hstands
    have hlength : (vector.bytes item).length =
        vector.count.bytes.length + (vector.items.flatMap item).length := List.length_append
    have hsum : off + vector.count.bytes.length < 2 ^ 63 := by
      rw [mathMaxInt32] at hlimit
      omega
    refine Run.bind_outcome_ok.mpr ⟨_, takeVarInt_complete vector.count hcount hsum, ?_⟩
    refine Run.bind_outcome_ok.mpr ⟨(), Run.failIf_outcome_ok.mpr vector.nonempty, ?_⟩
    rw [hlength, ← Nat.add_assoc]
    apply (h.iterate vector.count.value.toNat).complete ⟨vector.items, vector.length_items⟩ hitems
    dsimp only
    omega

/-! ## Whole transactions -/

/-- The two vectors of a transaction. -/
def vectorBytes {ι : Type} (item : ι → Bytes) (vectors : Counted ι × Counted TxOut) : Bytes :=
  vectors.1.bytes item ++ vectors.2.bytes TxOut.bytes

theorem reads_vectors {ι : Type} {item : ι → Bytes} {ef : Bool}
    (h : TxReads buf item (txInput ef buf)) :
    TxReads buf (vectorBytes item) (fun off =>
      countedWalk buf (txInput ef buf) (.malformed "zero input count") off >>=
        countedWalk buf (txOutput buf) (.malformed "zero output count")) :=
  (reads_counted h _).seq (reads_counted reads_txOutput _)

theorem txBody_eq (ef : Bool) (buf : Bytes) (off : Nat) :
    txBody ef buf off =
      (countedWalk buf (txInput ef buf) (.malformed "zero input count") off >>=
        countedWalk buf (txOutput buf) (.malformed "zero output count")) >>= fun off =>
          advance buf off 4 := by
  simp only [txBody, countedWalk, bind_assoc]

theorem txBody_sound {ι : Type} {item : ι → Bytes} {ef : Bool}
    (h : TxReads buf item (txInput ef buf)) {off stop : Nat} (hoff : off ≤ buf.length)
    (hstop : (txBody ef buf off).outcome = .ok stop) (version : FixedBytes 4) :
    ∃ tx : Tx ι, tx.version = version ∧ StandsAt buf off (tx.body item) ∧
      stop = off + (tx.body item).length ∧ stop ≤ mathMaxInt32 + 4 := by
  rw [txBody_eq] at hstop
  obtain ⟨middle, hmiddle, hstop⟩ := Run.bind_outcome_ok.mp hstop
  obtain ⟨vectors, hvectors, rfl⟩ := (reads_vectors h).sound hoff hmiddle
  have hguard := advance_within hstop
  obtain ⟨locktime, hlocktime, rfl⟩ := (reads_advance 4).sound hvectors.length_le hstop
  refine ⟨⟨version, vectors.1, vectors.2, locktime⟩, rfl,
    standsAt_append_iff.mpr ⟨hvectors, hlocktime⟩, ?_, ?_⟩
  · rw [Tx.body, List.length_append, Nat.add_assoc]
    rfl
  · exact Nat.add_le_add hguard (FixedBytes.length_val locktime).le

/-- The last field may begin at the limit. -/
theorem txBody_complete {ι : Type} {item : ι → Bytes} {ef : Bool}
    (h : TxReads buf item (txInput ef buf)) {off : Nat} (tx : Tx ι)
    (hstands : StandsAt buf off (tx.body item))
    (hlimit : off + (tx.body item).length ≤ mathMaxInt32 + 4) :
    (txBody ef buf off).outcome = .ok (off + (tx.body item).length) := by
  obtain ⟨hvectors, hlocktime⟩ := standsAt_append_iff.mp hstands
  have hlength : (tx.body item).length =
      (vectorBytes item (tx.inputs, tx.outputs)).length + tx.locktime.val.length :=
    List.length_append
  have hfour := FixedBytes.length_val tx.locktime
  have hreach := hlocktime.length_le
  rw [txBody_eq]
  refine Run.bind_outcome_ok.mpr
    ⟨_, (reads_vectors h).complete (tx.inputs, tx.outputs) hvectors (by omega), ?_⟩
  have hguard : ¬ (mathMaxInt32 < (4 : UInt64).toNat ∨
      mathMaxInt32 < off + (vectorBytes item (tx.inputs, tx.outputs)).length) := by
    rw [mathMaxInt32] at hlimit ⊢
    simp only [UInt64.toNat_ofNat]
    omega
  rw [mathMaxInt32] at hlimit
  have hskip : skip 4 buf (off + (vectorBytes item (tx.inputs, tx.outputs)).length) =
      pure (off + (vectorBytes item (tx.inputs, tx.outputs)).length + 4) :=
    skip_of_le (by omega) (hfour ▸ hreach)
  rw [advance, Run.failIf_neg hguard, pure_bind, hlength, hfour, ← Nat.add_assoc]
  exact congrArg Run.outcome hskip

/-- The bytes that stand at the front of the buffer are its first ones. -/
theorem take_of_standsAt {bytes : Bytes} {n : Nat} (h : StandsAt buf 0 bytes)
    (hn : n = bytes.length) : n ≤ buf.length ∧ buf.take n = bytes := by
  have hreach := h.length_le
  subst hn
  exact ⟨by omega, h.take_eq⟩

theorem Tx.body_pos {ι : Type} (item : ι → Bytes) (tx : Tx ι) : 0 < (tx.body item).length := by
  have hpos := tx.inputs.count.pos
  rw [Tx.body, Counted.bytes, List.length_append, List.length_append, List.length_append]
  omega

theorem head?_of_standsAt {bytes : Bytes} {off : Nat} (h : StandsAt buf off bytes)
    (hpos : 0 < bytes.length) : bytes.head? = buf[off]? := by
  rw [h.eq_take, List.head?_take, if_neg (by omega), List.head?_drop]

theorem txSize_sound {n : Nat} (h : (txSize buf).outcome = .ok n) :
    n ≤ buf.length ∧ n ≤ mathMaxInt32 + 4 ∧ Derivable (buf.take n) := by
  rw [txSize_eq] at h
  obtain ⟨four, hadvance, h⟩ := Run.bind_outcome_ok.mp h
  obtain ⟨version, hversion, rfl⟩ := (reads_advance 4).sound (Nat.zero_le _) hadvance
  have hfour : 0 + version.val.length = 4 := by
    rw [FixedBytes.length_val]
    rfl
  have hreach := hversion.length_le
  rw [hfour] at h hreach
  rw [txRest] at h
  cases hfirst : buf[4]? with
  | none =>
      rw [hfirst] at h
      cases h
  | some first =>
      rw [hfirst] at h
      dsimp only at h
      by_cases hzero : first = 0
      · rw [txMarked, if_pos hzero] at h
        obtain ⟨marker, hmarker, h⟩ := Run.bind_outcome_ok.mp h
        obtain ⟨-, hroom, rfl⟩ := Run.field_outcome_ok hmarker
        obtain ⟨⟨⟩, hguard, h⟩ := Run.bind_outcome_ok.mp h
        have hef : (buf.drop 4).take 6 = efMarker := not_not.mp (Run.failIf_outcome_ok.mp hguard)
        obtain ⟨tx, htx, hbody, hn, hlimit⟩ := txBody_sound reads_txInput_extended hroom h version
        have hfront : (version.val ++ efMarker).length = 4 + 6 := by
          rw [List.length_append, ← Nat.zero_add version.val.length, hfour]
          rfl
        have hstands : StandsAt buf 0 tx.extendedBytes := by
          rw [Tx.extendedBytes, htx]
          refine standsAt_append_iff.mpr ⟨standsAt_append_iff.mpr ⟨hversion, ?_⟩, ?_⟩
          · rw [hfour, ← hef]
            exact standsAt_take hroom
          · rw [hfront, Nat.zero_add]
            exact hbody
        have hlength : n = tx.extendedBytes.length := by
          rw [hn, Tx.extendedBytes, htx, List.length_append, hfront]
        obtain ⟨hle, htake⟩ := take_of_standsAt hstands hlength
        exact ⟨hle, hlimit, htake ▸ .extended tx⟩
      · rw [txMarked, if_neg hzero] at h
        obtain ⟨tx, htx, hbody, hn, hlimit⟩ := txBody_sound reads_txInput_standard hreach h version
        have hstands : StandsAt buf 0 tx.standardBytes := by
          rw [Tx.standardBytes, htx]
          refine standsAt_append_iff.mpr ⟨hversion, ?_⟩
          rw [hfour]
          exact hbody
        have hlength : n = tx.standardBytes.length := by
          rw [hn, Tx.standardBytes, htx, List.length_append, ← Nat.zero_add version.val.length,
            hfour]
        have hhead : (tx.body TxIn.bytes).head? ≠ some 0 := by
          rw [head?_of_standsAt hbody (tx.body_pos _), hfirst]
          exact fun heq => hzero (Option.some.inj heq)
        obtain ⟨hle, htake⟩ := take_of_standsAt hstands hlength
        exact ⟨hle, hlimit, htake ▸ .standard tx hhead⟩

theorem advance_version_ok (h : 4 ≤ buf.length) : advance buf 0 4 = pure 4 := by
  rw [advance_version, if_neg (by omega)]

theorem txSize_standard {tx : Tx TxIn} (hstands : StandsAt buf 0 tx.standardBytes)
    (hhead : (tx.body TxIn.bytes).head? ≠ some 0)
    (hlimit : tx.standardBytes.length ≤ mathMaxInt32 + 4) :
    (txSize buf).outcome = .ok tx.standardBytes.length := by
  obtain ⟨hversion, hbody⟩ := standsAt_append_iff.mp hstands
  have hlength : tx.standardBytes.length = 4 + (tx.body TxIn.bytes).length := by
    rw [Tx.standardBytes, List.length_append, FixedBytes.length_val]
  have hpos := tx.body_pos TxIn.bytes
  have hreach := hstands.length_le
  rw [Nat.zero_add, FixedBytes.length_val] at hbody
  rw [head?_of_standsAt hbody hpos] at hhead
  rw [txSize_eq, txWalk, advance_version_ok (by omega), pure_bind, txRest]
  cases hfirst : buf[4]? with
  | none =>
      rw [List.getElem?_eq_none_iff] at hfirst
      omega
  | some first =>
      have hzero : first ≠ 0 := fun heq => hhead (heq ▸ hfirst)
      dsimp only
      rw [txMarked, if_neg hzero, hlength,
        txBody_complete reads_txInput_standard tx hbody (by omega)]

theorem txSize_extended {tx : Tx (TxIn × TxOut)} (hstands : StandsAt buf 0 tx.extendedBytes)
    (hlimit : tx.extendedBytes.length ≤ mathMaxInt32 + 4) :
    (txSize buf).outcome = .ok tx.extendedBytes.length := by
  obtain ⟨hfront, hbody⟩ := standsAt_append_iff.mp hstands
  obtain ⟨hversion, hmarker⟩ := standsAt_append_iff.mp hfront
  have hsix : efMarker.length = 6 := rfl
  have hlength : tx.extendedBytes.length = 4 + 6 + (tx.body extendedInput).length := by
    rw [Tx.extendedBytes, List.length_append, List.length_append, FixedBytes.length_val, hsix]
  rw [Nat.zero_add, List.length_append, FixedBytes.length_val, hsix] at hbody
  rw [Nat.zero_add, FixedBytes.length_val] at hmarker
  have hfirst : buf[4]? = some 0 := (head?_of_standsAt hmarker (by decide)).symm
  have hread := hmarker.eq_take
  have hroom := hmarker.length_le
  rw [hsix] at hread hroom
  rw [txSize_eq, txWalk, advance_version_ok (by omega), pure_bind, txRest, hfirst]
  dsimp only
  rw [txMarked, if_pos rfl, Run.field_of_le (by decide) hroom, pure_bind, ← hread,
    Run.failIf_neg (not_not.mpr rfl), pure_bind, hlength,
    txBody_complete reads_txInput_extended tx hbody (by omega)]

theorem txSize_complete {n : Nat} (hn : n ≤ buf.length) (hlimit : n ≤ mathMaxInt32 + 4)
    (h : Derivable (buf.take n)) : (txSize buf).outcome = .ok n := by
  have hlength : (buf.take n).length = n := List.length_take_of_le hn
  have hstands : StandsAt buf 0 (buf.take n) := ⟨[], buf.drop n, rfl, by simp⟩
  generalize buf.take n = bytes at h hlength hstands
  subst hlength
  cases h with
  | standard tx hhead => exact txSize_standard hstands hhead hlimit
  | extended tx => exact txSize_extended hstands hlimit

/-! ## The walk returns -/

theorem advance_moves {n : UInt64} (hn : 0 < n.toNat) :
    Moves id (fun buf off => advance buf off n) := by
  intro buf off stop _ hstop
  obtain ⟨⟨⟩, -, hstop⟩ := Run.bind_outcome_ok.mp hstop
  obtain ⟨-, -, rfl⟩ := skip_outcome_ok hstop
  exact Nat.lt_add_of_pos_right hn

theorem txOutput_moves : Moves id txOutput :=
  (streams_advance 8).bind_moves (advance_moves (by decide)) fun _ =>
    streams_takeVarInt.bind fun script => streams_advance script.1

theorem txInput_moves (ef : Bool) : Moves id (txInput ef) := by
  have hspent : SizeStreams id (fun buf off => if ef then txOutput buf off else pure off) := by
    cases ef
    · exact Streams.pure fun _ => rfl
    · exact streams_txOutput
  exact (streams_advance 36).bind_moves (advance_moves (by decide)) fun _ =>
    streams_takeVarInt.bind fun script => (streams_advance script.1).bind fun _ =>
      (streams_advance 4).bind fun _ => hspent

theorem noPanic_advance (bound : Nat) (n : UInt64) :
    NoPanic bound (fun buf off => advance buf off n) := by
  intro buf off _ _ cause hpanic
  dsimp only [advance] at hpanic
  by_cases hbad : mathMaxInt32 < n.toNat ∨ mathMaxInt32 < off
  · rw [Run.failIf, if_pos hbad] at hpanic
    cases hpanic
  · have hsum : off + n.toNat < 2 ^ 63 := by
      rw [mathMaxInt32] at hbad
      omega
    rw [Run.failIf_neg hbad, pure_bind, Run.add_of_lt hsum, pure_bind] at hpanic
    rcases Run.bind_outcome_panic.mp hpanic with hpanic | ⟨-, -, hpanic⟩
    · exact Run.failIf_ne_panic cause hpanic
    · cases hpanic

/-- The longest buffer on which no offset of a walk can leave the 64-bit range. -/
def addressable : Nat := 2 ^ 63 - 4096

theorem noPanic_takeVarInt : NoPanic addressable takeVarInt := by
  intro buf off hoff hfit cause hpanic
  cases hfirst : buf[off]? with
  | none =>
      rw [takeVarInt_short (List.getElem?_eq_none_iff.mp hfirst)] at hpanic
      cases hpanic
  | some first =>
      have hwidth : addressable + (1 + varIntWidth first) < 2 ^ 63 := by
        rw [addressable, varIntWidth]
        split_ifs <;> decide
      rw [takeVarInt_eq hfirst] at hpanic
      exact NoPanic.field hwidth buf off hoff hfit cause hpanic

theorem noPanic_script : NoPanic addressable scriptWalk :=
  noPanic_takeVarInt.bind streams_takeVarInt fun script => noPanic_advance _ script.1

theorem noPanic_txOutput : NoPanic addressable txOutput :=
  (noPanic_advance _ 8).bind (streams_advance 8) fun _ => noPanic_script

theorem noPanic_txInput (ef : Bool) : NoPanic addressable (txInput ef) := by
  have hspent : NoPanic addressable (fun buf off =>
      if ef then txOutput buf off else (pure off : SizeRun Nat)) := by
    cases ef
    · exact NoPanic.pure
    · exact noPanic_txOutput
  exact (noPanic_advance _ 36).bind (streams_advance 36) fun _ =>
    noPanic_takeVarInt.bind streams_takeVarInt fun script =>
      (noPanic_advance _ script.1).bind (streams_advance script.1) fun _ =>
        (noPanic_advance _ 4).bind (streams_advance 4) fun _ => hspent

theorem noPanic_outputsWalk (count : UInt64) : NoPanic addressable (outputsWalk count) :=
  NoPanic.check ((noPanic_txOutput.iterate streams_txOutput count.toNat).bind
    (streams_txOutput.iterate count.toNat) fun _ => noPanic_advance _ 4)

theorem noPanic_inputsWalk (ef : Bool) (count : UInt64) : NoPanic addressable (inputsWalk ef count) :=
  NoPanic.check (((noPanic_txInput ef).iterate (streams_txInput ef) count.toNat).bind
    ((streams_txInput ef).iterate count.toNat) fun _ =>
      noPanic_takeVarInt.bind streams_takeVarInt fun out => noPanic_outputsWalk out.1)

theorem noPanic_txBody (ef : Bool) : NoPanic addressable (txBody ef) :=
  noPanic_takeVarInt.bind streams_takeVarInt fun count => noPanic_inputsWalk ef count.1

theorem noPanic_txMarked (first : UInt8) : NoPanic addressable (txMarked first) := by
  have hextended : ∀ marker : Bytes, NoPanic addressable (fun buf off =>
      Run.failIf (marker ≠ efMarker) (.malformed "zero input count") >>= fun _ =>
        txBody true buf off) := fun _ => NoPanic.check (noPanic_txBody true)
  by_cases hzero : first = 0
  · subst hzero
    exact (NoPanic.field (by decide)).bind Streams.field fun marker => hextended marker.1
  · intro buf off hoff hfit
    rw [txMarked, if_neg hzero]
    exact noPanic_txBody false buf off hoff hfit

theorem noPanic_txWalk : NoPanic addressable txWalk := by
  have hrest : NoPanic addressable txRest := by
    intro buf off hoff hfit cause hpanic
    rw [txRest] at hpanic
    cases hfirst : buf[off]? with
    | none =>
        rw [hfirst] at hpanic
        cases hpanic
    | some first =>
        rw [hfirst] at hpanic
        exact noPanic_txMarked first buf off hoff hfit cause hpanic
  exact (noPanic_advance _ 4).bind (streams_advance 4) fun _ => hrest

theorem txSize_ne_panic (hbuf : buf.length ≤ addressable) (cause : Panic) :
    (txSize buf).outcome ≠ .panic cause := by
  rw [txSize_eq]
  exact noPanic_txWalk buf 0 (Nat.zero_le _) hbuf cause

/-- No loop makes more rounds than the buffer has bytes, plus the one that finds its end. -/
theorem rounds_bounded {round : Bytes → Nat → SizeRun Nat} (hround : SizeStreams id round)
    (hmoves : Moves id round) (count : Nat) {off : Nat} (hoff : off ≤ buf.length) :
    (Run.iterate (round buf) count off).outcome =
      (Run.iterate (round buf) (min count (buf.length + 1)) off).outcome := by
  rcases Nat.le_total count (buf.length + 1) with hle | hge
  · rw [Nat.min_eq_left hle]
  · rw [Nat.min_eq_right hge]
    exact hround.iterate_outcome_eq hmoves hge hoff (by omega)

theorem txSize_recognises_transactions (hbuf : buf.length ≤ 2 ^ 31 - 1) :
    (∀ n, (txSize buf).outcome = .ok n ↔ n ≤ buf.length ∧ Derivable (buf.take n)) ∧
      (∀ n m, n ≤ buf.length → Derivable (buf.take n) → m ≤ buf.length →
        Derivable (buf.take m) → n = m) ∧
      (∀ cause, (txSize buf).outcome ≠ .panic cause) ∧
      ∀ count off, off ≤ buf.length →
        (∀ ef, (Run.iterate (txInput ef buf) count off).outcome =
          (Run.iterate (txInput ef buf) (min count (buf.length + 1)) off).outcome) ∧
        (Run.iterate (txOutput buf) count off).outcome =
          (Run.iterate (txOutput buf) (min count (buf.length + 1)) off).outcome := by
  have hcomplete : ∀ {n}, n ≤ buf.length → Derivable (buf.take n) →
      (txSize buf).outcome = .ok n := by
    intro n hn hderivable
    apply txSize_complete hn _ hderivable
    rw [mathMaxInt32]
    omega
  refine ⟨?_, ?_, ?_, ?_⟩
  · intro n
    constructor
    · intro hsize
      obtain ⟨hn, -, hderivable⟩ := txSize_sound hsize
      exact ⟨hn, hderivable⟩
    · rintro ⟨hn, hderivable⟩
      exact hcomplete hn hderivable
  · intro n m hn hderivable hm hderivable'
    have hsize := hcomplete hn hderivable
    rw [hcomplete hm hderivable'] at hsize
    cases hsize
    rfl
  · apply txSize_ne_panic
    rw [addressable]
    omega
  · intro count off hoff
    exact ⟨fun ef => rounds_bounded (streams_txInput ef) (txInput_moves ef) count hoff,
      rounds_bounded streams_txOutput txOutput_moves count hoff⟩

/-- One input and one output with empty scripts. -/
def smallTx : Bytes :=
  [1, 0, 0, 0] ++ [1] ++ List.replicate 36 7 ++ [0] ++ [0xFF, 0xFF, 0xFF, 0xFF] ++ [1] ++
    List.replicate 8 0 ++ [0] ++ [0, 0, 0, 0]

theorem smallTx_derivable : smallTx.length = 60 ∧ Derivable (smallTx.take 60) := by
  have hsize : (txSize smallTx).outcome = .ok 60 := by decide +kernel
  exact ⟨rfl, (((txSize_recognises_transactions (by decide)).1 60).mp hsize).2⟩

end

end ShardCommon.Objfmt
