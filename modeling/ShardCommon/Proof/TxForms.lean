import ShardCommon.Proof.TxGrammar
import ShardCommon.TxForms

/-!
# The walks over a transaction agree

On an extended transaction the unchecked walks of `ToStandard` and `TxID` pass from input to input
of the tree that `TxSize` found, and write exactly the bytes of the standard form.
-/

namespace ShardCommon.Objfmt

open Go ShardCommon.Frame

/-- The transaction without what its inputs spend. -/
def Tx.standard (tx : Tx (TxIn × TxOut)) : Tx TxIn where
  version := tx.version
  inputs :=
    { count := tx.inputs.count
      items := tx.inputs.items.map Prod.fst
      length_items := by rw [List.length_map, tx.inputs.length_items]
      nonempty := tx.inputs.nonempty }
  outputs := tx.outputs
  locktime := tx.locktime

section

variable {buf : Bytes} {off : Nat}

theorem varInt_complete (size : CompactSize) (h : StandsAt buf off size.bytes)
    (hlimit : off + size.bytes.length < 2 ^ 63) :
    (varInt buf off).outcome = .ok (size.value, size.bytes.length) := by
  obtain ⟨read, hread, hnext⟩ := Run.bind_outcome_ok.mp (takeVarInt_complete size h hlimit)
  obtain ⟨next, hsum, heq⟩ := Run.bind_outcome_ok.mp hnext
  obtain ⟨-, rfl⟩ := Run.add_outcome_ok.mp hsum
  obtain ⟨hvalue, hwidth⟩ := Prod.mk.inj (Outcome.ok.inj heq)
  rw [hread, ← hvalue, ← Nat.add_left_cancel hwidth]

theorem copyInput_ok {σ : Type} (write : σ → Bytes → σ) (acc : σ) {input : TxIn × TxOut}
    (h : StandsAt buf off (extendedInput input))
    (hsum : off + (extendedInput input).length < 2 ^ 63) :
    (copyInput write buf (acc, off)).outcome =
      .ok (write acc input.1.bytes, off + (extendedInput input).length) := by
  obtain ⟨hinput, hspent⟩ := standsAt_append_iff.mp h
  obtain ⟨hfront, hsequence⟩ := standsAt_append_iff.mp hinput
  obtain ⟨houtpoint, hscript⟩ := standsAt_append_iff.mp hfront
  obtain ⟨hsize, hbody⟩ := standsAt_append_iff.mp hscript
  obtain ⟨hvalue, hlocking⟩ := standsAt_append_iff.mp hspent
  obtain ⟨hsize', hbody'⟩ := standsAt_append_iff.mp hlocking
  have hlength : input.1.bytes.length =
      36 + (input.1.script.size.bytes.length + input.1.script.size.value.toNat) + 4 := by
    rw [TxIn.bytes, Script.bytes, List.length_append, List.length_append, List.length_append,
      FixedBytes.length_val, FixedBytes.length_val, input.1.script.length_body]
  have hlength' : input.2.bytes.length =
      8 + (input.2.script.size.bytes.length + input.2.script.size.value.toNat) := by
    rw [TxOut.bytes, Script.bytes, List.length_append, List.length_append, FixedBytes.length_val,
      input.2.script.length_body]
  have htotal : (extendedInput input).length = input.1.bytes.length + input.2.bytes.length :=
    List.length_append
  rw [FixedBytes.length_val] at hsize hsize'
  have hspan : (bytesAt buf off (off + input.1.bytes.length) : SizeRun Bytes).outcome =
      .ok input.1.bytes := bytesAt_ok.mpr ⟨hinput, rfl⟩
  have hread := varInt_complete _ hsize (by omega)
  have hread' := varInt_complete _ hsize' (by omega)
  have hend : off + 36 + (input.1.script.size.bytes.length +
      input.1.script.size.value.toNat + 4) = off + input.1.bytes.length := by omega
  have hend' : off + input.1.bytes.length + 8 + (input.2.script.size.bytes.length +
      input.2.script.size.value.toNat) = off + (extendedInput input).length := by omega
  rw [copyInput]
  dsimp only
  rw [Run.add_of_lt (by omega), pure_bind]
  refine Run.bind_outcome_ok.mpr ⟨_, hread, ?_⟩
  dsimp only
  rw [Run.add_of_lt (by omega), pure_bind, Run.add_of_lt (by omega), pure_bind,
    Run.add_of_lt (by omega), pure_bind, hend]
  refine Run.bind_outcome_ok.mpr ⟨_, hspan, ?_⟩
  rw [Run.add_of_lt (by omega), pure_bind]
  refine Run.bind_outcome_ok.mpr ⟨_, hread', ?_⟩
  dsimp only
  rw [Run.add_of_lt (by omega), pure_bind, Run.add_of_lt (by omega), pure_bind, hend']
  rfl

theorem iterate_copyInput {σ : Type} (write : σ → Bytes → σ) :
    ∀ {inputs : List (TxIn × TxOut)} {off : Nat} (acc : σ),
      StandsAt buf off (inputs.flatMap extendedInput) →
        off + (inputs.flatMap extendedInput).length < 2 ^ 63 →
          (Run.iterate (copyInput write buf) inputs.length (acc, off)).outcome =
            .ok (inputs.foldl (fun acc input => write acc input.1.bytes) acc,
              off + (inputs.flatMap extendedInput).length)
  | [], _, _, _, _ => rfl
  | input :: inputs, off, acc, h, hsum => by
    rw [List.flatMap_cons] at h hsum ⊢
    obtain ⟨hfirst, hrest⟩ := standsAt_append_iff.mp h
    rw [List.length_append] at hsum ⊢
    refine Run.bind_outcome_ok.mpr ⟨_, copyInput_ok write acc hfirst (by omega), ?_⟩
    rw [iterate_copyInput write _ hrest (by omega), ← Nat.add_assoc]
    rfl

/-! ## Evaluating the walks on an extended transaction -/

variable {tx : Tx (TxIn × TxOut)}

/-- Where the parts of an extended transaction stand in its own bytes. -/
structure ExtendedAt (buf : Bytes) (tx : Tx (TxIn × TxOut)) : Prop where
  version : StandsAt buf 0 tx.version.val
  count : StandsAt buf 10 tx.inputs.count.bytes
  inputs : StandsAt buf (10 + tx.inputs.count.bytes.length) (tx.inputs.items.flatMap extendedInput)
  rest : StandsAt buf (10 + tx.inputs.count.bytes.length +
    (tx.inputs.items.flatMap extendedInput).length)
    (tx.outputs.bytes TxOut.bytes ++ tx.locktime.val)

theorem extendedAt_self (tx : Tx (TxIn × TxOut)) : ExtendedAt tx.extendedBytes tx := by
  have hall : StandsAt tx.extendedBytes 0 tx.extendedBytes := standsAt_zero_self
  obtain ⟨hfront, hbody⟩ := standsAt_append_iff.mp hall
  obtain ⟨hversion, hmarker⟩ := standsAt_append_iff.mp hfront
  have hten : 0 + (tx.version.val ++ efMarker).length = 10 := by
    rw [List.length_append, FixedBytes.length_val]
    rfl
  rw [hten, Tx.body, List.append_assoc] at hbody
  obtain ⟨hinputs, hrest⟩ := standsAt_append_iff.mp hbody
  obtain ⟨hcount, hitems⟩ := standsAt_append_iff.mp hinputs
  rw [Counted.bytes, List.length_append, ← Nat.add_assoc] at hrest
  exact ⟨hversion, hcount, hitems, hrest⟩

theorem length_extendedBytes (tx : Tx (TxIn × TxOut)) :
    tx.extendedBytes.length = 10 + tx.inputs.count.bytes.length +
      (tx.inputs.items.flatMap extendedInput).length +
        (tx.outputs.bytes TxOut.bytes ++ tx.locktime.val).length := by
  rw [Tx.extendedBytes, Tx.body, List.append_assoc (tx.inputs.bytes extendedInput), Counted.bytes,
    List.length_append, List.length_append, List.length_append, List.length_append,
    FixedBytes.length_val]
  simp only [efMarker, List.length_cons, List.length_nil]
  omega

/-- The standard form, span by span. -/
theorem standardBytes_eq (tx : Tx (TxIn × TxOut)) :
    tx.standard.standardBytes =
      tx.version.val ++ tx.inputs.count.bytes ++
        (tx.inputs.items.map fun input => input.1.bytes).flatten ++
          (tx.outputs.bytes TxOut.bytes ++ tx.locktime.val) := by
  simp only [Tx.standardBytes, Tx.body, Tx.standard, Counted.bytes, List.append_assoc,
    List.flatMap_def, List.map_map, Function.comp_def]

/-- The reads both walks make, on the bytes of an extended transaction. -/
theorem extended_reads (tx : Tx (TxIn × TxOut)) (hlimit : tx.extendedBytes.length < 2 ^ 63) :
    (bytesAt tx.extendedBytes 0 4 : SizeRun Bytes).outcome = .ok tx.version.val ∧
      (varInt tx.extendedBytes 10).outcome =
        .ok (tx.inputs.count.value, tx.inputs.count.bytes.length) ∧
      (bytesAt tx.extendedBytes 10 (10 + tx.inputs.count.bytes.length) : SizeRun Bytes).outcome =
        .ok tx.inputs.count.bytes ∧
      (bytesAt tx.extendedBytes (10 + tx.inputs.count.bytes.length +
          (tx.inputs.items.flatMap extendedInput).length) tx.extendedBytes.length :
            SizeRun Bytes).outcome = .ok (tx.outputs.bytes TxOut.bytes ++ tx.locktime.val) := by
  have hlength := length_extendedBytes tx
  have hat := extendedAt_self tx
  refine ⟨bytesAt_ok.mpr ⟨hat.version, ?_⟩, varInt_complete _ hat.count (by omega),
    bytesAt_ok.mpr ⟨hat.count, rfl⟩, bytesAt_ok.mpr ⟨hat.rest, hlength⟩⟩
  rw [FixedBytes.length_val]

theorem extendedToStandard_ok (tx : Tx (TxIn × TxOut)) (hlimit : tx.extendedBytes.length < 2 ^ 63) :
    (extendedToStandard tx.extendedBytes).outcome = .ok tx.standard.standardBytes := by
  have hlength := length_extendedBytes tx
  obtain ⟨hversion, hread, hcount, hrest⟩ := extended_reads tx hlimit
  have hloop := iterate_copyInput (fun out span => out ++ span)
    (tx.version.val ++ tx.inputs.count.bytes) (extendedAt_self tx).inputs (by omega)
  rw [tx.inputs.length_items, List.foldl_append_eq_append] at hloop
  have hmake : (Run.make 1 ((tx.extendedBytes.length : Int) - 10) : SizeRun Unit).outcome =
      .ok () := by
    obtain ⟨room, hroom⟩ : ∃ room, tx.extendedBytes.length = room + 10 :=
      ⟨tx.extendedBytes.length - 10, by omega⟩
    have hcapacity : (tx.extendedBytes.length : Int) - 10 = (room : Nat) := by omega
    rw [hcapacity, Run.make_of_le (by rw [maxInt]; omega)]
  refine Run.bind_outcome_ok.mpr ⟨(), hmake, ?_⟩
  refine Run.bind_outcome_ok.mpr ⟨_, hversion, ?_⟩
  refine Run.bind_outcome_ok.mpr ⟨_, hread, ?_⟩
  dsimp only
  rw [Run.add_of_lt (by omega), pure_bind]
  refine Run.bind_outcome_ok.mpr ⟨_, hcount, ?_⟩
  refine Run.bind_outcome_ok.mpr ⟨_, hloop, ?_⟩
  refine Run.bind_outcome_ok.mpr ⟨_, hrest, ?_⟩
  rw [standardBytes_eq]
  rfl

theorem extendedSpans_ok (tx : Tx (TxIn × TxOut)) (hlimit : tx.extendedBytes.length < 2 ^ 63) :
    ∃ written, (extendedSpans tx.extendedBytes).outcome = .ok written ∧
      written.flatten = tx.standard.standardBytes := by
  have hlength := length_extendedBytes tx
  obtain ⟨hversion, hread, hcount, hrest⟩ := extended_reads tx hlimit
  have hloop := iterate_copyInput (fun written span => written ++ [span])
    [tx.version.val, tx.inputs.count.bytes] (extendedAt_self tx).inputs (by omega)
  rw [tx.inputs.length_items, List.foldl_append_eq_append, ← List.flatMap_def, ← List.map_eq_flatMap]
    at hloop
  refine ⟨[tx.version.val, tx.inputs.count.bytes] ++
    (tx.inputs.items.map fun input => input.1.bytes) ++
      [tx.outputs.bytes TxOut.bytes ++ tx.locktime.val], ?_, ?_⟩
  · refine Run.bind_outcome_ok.mpr ⟨_, hversion, ?_⟩
    refine Run.bind_outcome_ok.mpr ⟨_, hread, ?_⟩
    dsimp only
    rw [Run.add_of_lt (by omega), pure_bind]
    refine Run.bind_outcome_ok.mpr ⟨_, hcount, ?_⟩
    refine Run.bind_outcome_ok.mpr ⟨_, hloop, ?_⟩
    refine Run.bind_outcome_ok.mpr ⟨_, hrest, ?_⟩
    rfl
  · rw [standardBytes_eq]
    simp

/-! ## The walks on any accepted transaction -/

theorem CompactSize.head?_ne_zero {size : CompactSize} (h : size.value ≠ 0) :
    size.bytes.head? ≠ some 0 := by
  obtain ⟨value, bytes, hspells⟩ := size
  intro hhead
  cases hspells with
  | one hlt =>
      obtain rfl := Option.some.inj hhead
      exact h rfl
  | two _ => cases hhead
  | four _ => cases hhead
  | eight _ => cases hhead

theorem Tx.head?_body {ι : Type} (item : ι → Bytes) (tx : Tx ι) :
    (tx.body item).head? ≠ some 0 := by
  have hhead := CompactSize.head?_ne_zero tx.inputs.nonempty
  have hpos := tx.inputs.count.pos
  cases hbytes : tx.inputs.count.bytes with
  | nil => simp [hbytes] at hpos
  | cons b rest =>
      rw [hbytes] at hhead
      rw [Tx.body, Counted.bytes, hbytes]
      exact hhead

theorem isEF_standardBytes (tx : Tx TxIn) : isEF tx.standardBytes = false := by
  have hhead := tx.head?_body TxIn.bytes
  have hpos := tx.body_pos TxIn.bytes
  cases hbody : tx.body TxIn.bytes with
  | nil => simp [hbody] at hpos
  | cons first rest =>
      rw [hbody] at hhead
      have hfirst : tx.standardBytes[4]? = some first := by
        rw [Tx.standardBytes, hbody, List.getElem?_append_right (by simp)]
        simp
      exact isEF_eq_false hfirst fun heq => hhead (congrArg some heq)

theorem isEF_extendedBytes (tx : Tx (TxIn × TxOut)) : isEF tx.extendedBytes = true := by
  have hlength := length_extendedBytes tx
  rw [isEF_iff (by omega), Tx.extendedBytes, List.append_assoc,
    List.drop_left' (FixedBytes.length_val _)]
  exact List.take_left' rfl

end

section

variable {input : Bytes} {n : Nat} (sha256 : Bytes → FixedBytes 32)

theorem walks_of_standard (hsize : (txSize input).outcome = .ok n) {tx : Tx TxIn}
    (htx : input.take n = tx.standardBytes) :
    (toStandard input).outcome = .ok tx.standardBytes ∧
      (txID sha256 input).outcome = .ok (sha256 (sha256 tx.standardBytes).val) := by
  obtain ⟨hn, -, -⟩ := txSize_sound hsize
  constructor
  · refine Run.bind_outcome_ok.mpr ⟨n, hsize, ?_⟩
    rw [bytesAt_front hn, pure_bind, htx, isEF_standardBytes]
    rfl
  · refine Run.bind_outcome_ok.mpr ⟨n, hsize, ?_⟩
    rw [bytesAt_front hn, pure_bind, htx, isEF_standardBytes]
    rfl

theorem walks_of_extended (hsize : (txSize input).outcome = .ok n) {tx : Tx (TxIn × TxOut)}
    (htx : input.take n = tx.extendedBytes) :
    (toStandard input).outcome = .ok tx.standard.standardBytes ∧
      (txID sha256 input).outcome = .ok (sha256 (sha256 tx.standard.standardBytes).val) := by
  obtain ⟨hn, hlimit, -⟩ := txSize_sound hsize
  have hlength : tx.extendedBytes.length < 2 ^ 63 := by
    rw [← htx, List.length_take_of_le hn]
    rw [mathMaxInt32] at hlimit
    omega
  constructor
  · refine Run.bind_outcome_ok.mpr ⟨n, hsize, ?_⟩
    rw [bytesAt_front hn, pure_bind, htx, isEF_extendedBytes, if_pos rfl]
    exact extendedToStandard_ok tx hlength
  · obtain ⟨written, hwritten, heq⟩ := extendedSpans_ok tx hlength
    refine Run.bind_outcome_ok.mpr ⟨n, hsize, ?_⟩
    rw [bytesAt_front hn, pure_bind, htx, isEF_extendedBytes, if_pos rfl]
    exact Run.bind_outcome_ok.mpr ⟨written, hwritten, by rw [heq]; rfl⟩

theorem txSize_standardBytes {tx : Tx TxIn} (hlimit : tx.standardBytes.length ≤ mathMaxInt32 + 4) :
    (txSize tx.standardBytes).outcome = .ok tx.standardBytes.length :=
  txSize_standard standsAt_zero_self (tx.head?_body _) hlimit

theorem length_standardBytes_le (tx : Tx (TxIn × TxOut)) :
    tx.standard.standardBytes.length ≤ tx.extendedBytes.length := by
  have hlength := length_extendedBytes tx
  have hitems : (tx.inputs.items.map fun input => input.1.bytes).flatten.length ≤
      (tx.inputs.items.flatMap extendedInput).length := by
    induction tx.inputs.items with
    | nil => exact Nat.le_refl _
    | cons input inputs ih =>
        rw [List.map_cons, List.flatten_cons, List.flatMap_cons, extendedInput]
        simp only [List.length_append]
        omega
  rw [standardBytes_eq, List.length_append, List.length_append, List.length_append,
    FixedBytes.length_val]
  omega

/-- What holds of the standard form of an accepted transaction, whichever form it came in. -/
theorem standardForm_stable {tx : Tx TxIn} (hlimit : tx.standardBytes.length ≤ mathMaxInt32 + 4) :
    (txSize tx.standardBytes).outcome = .ok tx.standardBytes.length ∧
      isEF tx.standardBytes = false ∧
      (toStandard tx.standardBytes).outcome = .ok tx.standardBytes ∧
      (txID sha256 tx.standardBytes).outcome = .ok (sha256 (sha256 tx.standardBytes).val) := by
  have hsize := txSize_standardBytes hlimit
  have hwalks := walks_of_standard sha256 hsize List.take_length
  exact ⟨hsize, isEF_standardBytes tx, hwalks.1, hwalks.2⟩

theorem transaction_walks_agree (hsize : (txSize input).outcome = .ok n) :
    ∃ std, (toStandard input).outcome = .ok std ∧
      (txID sha256 input).outcome = .ok (sha256 (sha256 std).val) ∧
      (txSize std).outcome = .ok std.length ∧ isEF std = false ∧
      (toStandard std).outcome = .ok std ∧
      ∀ tx : Tx (TxIn × TxOut), input.take n = tx.extendedBytes →
        std = tx.standard.standardBytes ∧
          (txID sha256 tx.standard.standardBytes).outcome = (txID sha256 input).outcome := by
  obtain ⟨hn, hlimit, hderivable⟩ := txSize_sound hsize
  have hlength : (input.take n).length = n := List.length_take_of_le hn
  generalize hbytes : input.take n = bytes at hderivable hlength
  cases hderivable with
  | standard tx _ =>
      obtain ⟨hstd, hid⟩ := walks_of_standard sha256 hsize hbytes
      have hfits : tx.standardBytes.length ≤ mathMaxInt32 + 4 := by omega
      obtain ⟨hsize', hef, hstd', -⟩ := standardForm_stable sha256 hfits
      refine ⟨tx.standardBytes, hstd, hid, hsize', hef, hstd', ?_⟩
      intro other hother
      rw [hother, isEF_extendedBytes] at hef
      cases hef
  | extended tx =>
      obtain ⟨hstd, hid⟩ := walks_of_extended sha256 hsize hbytes
      have hfits : tx.standard.standardBytes.length ≤ mathMaxInt32 + 4 :=
        (length_standardBytes_le tx).trans (by omega)
      obtain ⟨hsize', hef, hstd', hid'⟩ := standardForm_stable sha256 hfits
      refine ⟨tx.standard.standardBytes, hstd, hid, hsize', hef, hstd', ?_⟩
      intro other hother
      have hsame : tx.standard.standardBytes = other.standard.standardBytes := by
        have hother' := (walks_of_extended sha256 hsize (hbytes.trans hother)).1
        rw [hstd] at hother'
        exact Outcome.ok.inj hother'
      rw [← hsame]
      exact ⟨rfl, hid'.trans hid.symm⟩

/-- `smallTx` in the extended form, with a spent output of three bytes of script. -/
def smallExtendedTx : Bytes :=
  [1, 0, 0, 0] ++ efMarker ++ [1] ++ List.replicate 36 7 ++ [0] ++ [0xFF, 0xFF, 0xFF, 0xFF] ++
    List.replicate 8 5 ++ [3, 1, 2, 3] ++ [1] ++ List.replicate 8 0 ++ [0] ++ [0, 0, 0, 0]

theorem smallExtendedTx_walks :
    (txSize smallExtendedTx).outcome = .ok 78 ∧
      ∃ std, (toStandard smallExtendedTx).outcome = .ok std ∧ isEF std = false := by
  have hsize : (txSize smallExtendedTx).outcome = .ok 78 := by decide +kernel
  obtain ⟨std, hstd, -, -, hef, -⟩ :=
    transaction_walks_agree (fun bytes => FixedBytes.copy 32 bytes) hsize
  exact ⟨hsize, std, hstd, hef⟩

example : (toStandard smallExtendedTx).outcome = .ok smallTx := by decide +kernel

end

end ShardCommon.Objfmt
