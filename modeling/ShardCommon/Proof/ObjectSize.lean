import ShardCommon.Lib.StreamWalk
import ShardCommon.ObjectSize

/-!
# The sizes stream

Each class is a walk of fields, checks and loops, so its size function streams: more bytes do not
change the size that was found, and every cut of an object is reported as short.
-/

namespace ShardCommon.Objfmt

open Go ShardCommon.Frame

abbrev SizeStreams {ρ : Type} (next : ρ → Nat) (walk : Bytes → Nat → SizeRun ρ) : Prop :=
  Streams ObjfmtError.short next walk

/-- A field of which only the length matters. -/
def skip (width : Nat) (buf : Bytes) (off : Nat) : SizeRun Nat := do
  let stop ← Run.add off width
  Run.failIf (buf.length < stop) .short
  pure stop

theorem skip_of_le {width off : Nat} {buf : Bytes} (hsum : off + width < 2 ^ 63)
    (h : off + width ≤ buf.length) : skip width buf off = pure (off + width) := by
  rw [skip, Run.add_of_lt hsum, pure_bind, Run.failIf_neg (by omega), pure_bind]

theorem skip_outcome_ok {width off stop : Nat} {buf : Bytes}
    (h : (skip width buf off).outcome = .ok stop) :
    off + width < 2 ^ 63 ∧ off + width ≤ buf.length ∧ stop = off + width := by
  obtain ⟨sum, hsum, h⟩ := Run.bind_outcome_ok.mp h
  obtain ⟨hlt, rfl⟩ := Run.add_outcome_ok.mp hsum
  obtain ⟨⟨⟩, hreach, h⟩ := Run.bind_outcome_ok.mp h
  cases h
  exact ⟨hlt, Nat.le_of_not_lt (Run.failIf_outcome_ok.mp hreach), rfl⟩

theorem streams_skip (width : Nat) : SizeStreams id (skip width) := by
  have hfield : SizeStreams id (fun buf off =>
      Run.field .short width (fun _ => ()) buf off >>= fun r => pure r.2) :=
    Streams.field.bind fun _ => Streams.pure fun _ => rfl
  have heq : skip width = fun buf off =>
      Run.field .short width (fun _ => ()) buf off >>= fun r => pure r.2 := by
    funext buf off
    simp only [skip, Run.field, bind_assoc, pure_bind]
  rw [heq]
  exact hfield

/-- A field checked for length and then read from its end, at the front of the buffer. -/
theorem header_eq {ρ : Type} {buf : Bytes} {low width : Nat} (hlow : low ≤ width)
    (hwidth : width < 2 ^ 63) (f : Bytes → ρ) (rest : ρ → SizeRun Nat) :
    (Run.failIf (buf.length < width) .short >>= fun _ =>
      (f <$> bytesAt buf low width) >>= rest) =
        Run.field .short width (fun part => f (part.drop low)) buf 0 >>= fun r => rest r.1 := by
  by_cases hlt : buf.length < width
  · rw [Run.failIf, if_pos hlt, Run.field_of_lt (by omega) (by omega), Run.fail_bind, Run.fail_bind]
  · rw [Run.failIf_neg hlt, Run.field_of_le (by omega) (by omega), pure_bind, pure_bind, bytesAt,
      Run.slice_of_le hlow (by omega), map_pure, pure_bind, List.drop_zero, List.drop_take]

/-- The same at an offset inside the buffer. -/
theorem inside_eq {ρ : Type} (buf : Bytes) {off low width : Nat} (hlow : low ≤ width)
    (f : Bytes → ρ) (rest : Nat → ρ → SizeRun Nat) :
    (Run.add off width >>= fun stop => Run.failIf (buf.length < stop) .short >>= fun _ =>
      (f <$> bytesAt buf (off + low) stop) >>= rest stop) =
        Run.field .short width (fun part => f (part.drop low)) buf off >>= fun r =>
          rest r.2 r.1 := by
  by_cases hsum : off + width < 2 ^ 63
  · by_cases hlt : buf.length < off + width
    · rw [Run.add_of_lt hsum, pure_bind, Run.failIf, if_pos hlt, Run.field_of_lt hsum hlt,
        Run.fail_bind, Run.fail_bind]
    · have hwidth : off + width - (off + low) = width - low := by omega
      rw [Run.add_of_lt hsum, pure_bind, Run.failIf_neg hlt, Run.field_of_le hsum (by omega),
        pure_bind, pure_bind, bytesAt, Run.slice_of_le (by omega) (by omega), map_pure, pure_bind,
        hwidth, List.drop_take, List.drop_drop]
  · rw [Run.field, Run.add, if_neg hsum]
    rfl

/-! ## Transactions -/

theorem streams_advance (n : UInt64) : SizeStreams id (fun buf off => advance buf off n) :=
  Streams.lift fun _ => streams_skip n.toNat

/-- The number of bytes a compact-size integer has behind its first. -/
def varIntWidth (first : UInt8) : Nat :=
  if first < 0xFD then 0 else if first = 0xFD then 2 else if first = 0xFE then 4 else 8

def varIntValue (first : UInt8) (bytes : Bytes) : UInt64 :=
  if first < 0xFD then first.toUInt64 else uintLE (bytes.drop 1)

theorem wideVarInt_bind (buf : Bytes) (off width : Nat) (f : Bytes → UInt64)
    (hf : ∀ bytes, f bytes = uintLE (bytes.drop 1)) :
    (wideVarInt buf off width >>= fun read => Run.add off read.2 >>= fun next =>
      pure (read.1, next)) = (Run.field .short (1 + width) f buf off : SizeRun _) := by
  rw [wideVarInt, Run.field]
  by_cases hsum : off + (1 + width) < 2 ^ 63
  · rw [Run.add_of_lt hsum, pure_bind, pure_bind, bind_assoc]
    by_cases hlt : buf.length < off + (1 + width)
    · rw [Run.failIf, if_pos hlt, Run.fail_bind, Run.fail_bind]
    · have hwidth : off + (1 + width) - (off + 1) = 1 + width - 1 := by omega
      rw [Run.failIf_neg hlt, pure_bind, pure_bind, bytesAt, Run.slice_of_le (by omega) (by omega),
        pure_bind, pure_bind, Run.add_of_lt hsum, pure_bind, hf, List.drop_take, List.drop_drop,
        hwidth]
  · rw [Run.add, if_neg hsum]
    rfl

theorem takeVarInt_eq {buf : Bytes} {off : Nat} {first : UInt8} (hfirst : buf[off]? = some first) :
    takeVarInt buf off =
      Run.field .short (1 + varIntWidth first) (varIntValue first) buf off := by
  obtain ⟨hoff, hget⟩ := List.getElem?_eq_some_iff.mp hfirst
  rw [takeVarInt, varInt, Run.failIf_neg (by omega), pure_bind, byteAt, Run.index_of_lt hoff,
    pure_bind, hget, varIntWidth]
  by_cases hone : first < 0xFD
  · rw [if_pos hone, if_pos hone, pure_bind]
    by_cases hsum : off + 1 < 2 ^ 63
    · rw [Run.add_of_lt hsum, pure_bind, Run.field_of_le hsum (by omega), varIntValue, if_pos hone]
    · rw [Run.field, Run.add, if_neg hsum]
      rfl
  · have hvalue : ∀ bytes, varIntValue first bytes = uintLE (bytes.drop 1) := by
      intro bytes
      rw [varIntValue, if_neg hone]
    rw [if_neg hone, if_neg hone]
    by_cases htwo : first = 0xFD
    · rw [if_pos htwo, if_pos htwo, wideVarInt_bind buf off 2 _ hvalue]
    · rw [if_neg htwo, if_neg htwo]
      by_cases hfour : first = 0xFE
      · rw [if_pos hfour, if_pos hfour, wideVarInt_bind buf off 4 _ hvalue]
      · rw [if_neg hfour, if_neg hfour, wideVarInt_bind buf off 8 _ hvalue]

theorem takeVarInt_short {buf : Bytes} {off : Nat} (h : buf.length ≤ off) :
    takeVarInt buf off = Run.fail .short := by
  rw [takeVarInt, varInt, Run.failIf, if_pos h, Run.fail_bind, Run.fail_bind]

theorem streams_takeVarInt : SizeStreams Prod.snd takeVarInt := by
  apply Streams.dispatch (fun first => Streams.field)
  · intro first
    exact Streams.field_moves (Nat.add_pos_left Nat.one_pos (varIntWidth first))
  · intro buf off h
    rw [takeVarInt_short h]
    rfl
  · intro buf off first hfirst
    rw [takeVarInt_eq hfirst]

theorem takeVarInt_moves : Moves Prod.snd takeVarInt := by
  intro buf off r hoff hr
  cases hfirst : buf[off]? with
  | none =>
      rw [takeVarInt_short (List.getElem?_eq_none_iff.mp hfirst)] at hr
      cases hr
  | some first =>
      rw [takeVarInt_eq hfirst] at hr
      exact Streams.field_moves (Nat.add_pos_left Nat.one_pos (varIntWidth first)) buf off r hoff hr

theorem streams_txOutput : SizeStreams id txOutput :=
  (streams_advance 8).bind fun _ => streams_takeVarInt.bind fun script => streams_advance script.1

theorem streams_txInput (ef : Bool) : SizeStreams id (txInput ef) := by
  have hspent : SizeStreams id (fun buf off => if ef then txOutput buf off else pure off) := by
    cases ef
    · exact Streams.pure fun _ => rfl
    · exact streams_txOutput
  exact (streams_advance 36).bind fun _ => streams_takeVarInt.bind fun script =>
    (streams_advance script.1).bind fun _ => (streams_advance 4).bind fun _ => hspent

/-- The walk behind the output count. -/
def outputsWalk (count : UInt64) (buf : Bytes) (off : Nat) : SizeRun Nat :=
  Run.failIf (count = 0) (.malformed "zero output count") >>= fun _ =>
    Run.iterate (txOutput buf) count.toNat off >>= fun off => advance buf off 4

/-- The walk behind the input count. -/
def inputsWalk (ef : Bool) (count : UInt64) (buf : Bytes) (off : Nat) : SizeRun Nat :=
  Run.failIf (count = 0) (.malformed "zero input count") >>= fun _ =>
    Run.iterate (txInput ef buf) count.toNat off >>= fun off => takeVarInt buf off >>= fun out =>
      outputsWalk out.1 buf out.2

theorem streams_outputsWalk (count : UInt64) : SizeStreams id (outputsWalk count) :=
  Streams.lift fun _ => (streams_txOutput.iterate count.toNat).bind fun _ => streams_advance 4

theorem streams_inputsWalk (ef : Bool) (count : UInt64) : SizeStreams id (inputsWalk ef count) :=
  Streams.lift fun _ => ((streams_txInput ef).iterate count.toNat).bind fun _ =>
    streams_takeVarInt.bind fun out => streams_outputsWalk out.1

theorem streams_txBody (ef : Bool) : SizeStreams id (txBody ef) :=
  streams_takeVarInt.bind fun count => streams_inputsWalk ef count.1

theorem txBody_moves (ef : Bool) : Moves id (txBody ef) :=
  streams_takeVarInt.bind_moves takeVarInt_moves fun count => streams_inputsWalk ef count.1

/-- Behind the version: a marker if the next byte is zero, else the counts at once. -/
def txMarked (first : UInt8) (buf : Bytes) (off : Nat) : SizeRun Nat :=
  if first = 0 then
    Run.field .short 6 (fun marker => marker) buf off >>= fun marker =>
      Run.failIf (marker.1 ≠ efMarker) (.malformed "zero input count") >>= fun _ =>
        txBody true buf marker.2
  else txBody false buf off

def txRest (buf : Bytes) (off : Nat) : SizeRun Nat :=
  match buf[off]? with
  | none => Run.fail .short
  | some first => txMarked first buf off

def txWalk (buf : Bytes) (off : Nat) : SizeRun Nat :=
  advance buf off 4 >>= fun off => txRest buf off

theorem streams_afterMarker (marker : Bytes) : SizeStreams id (fun buf off =>
    Run.failIf (marker ≠ efMarker) (.malformed "zero input count") >>= fun _ =>
      txBody true buf off) := Streams.lift fun _ => streams_txBody true

theorem streams_txMarked (first : UInt8) : SizeStreams id (txMarked first) := by
  by_cases hzero : first = 0
  · subst hzero
    exact Streams.field.bind fun marker => streams_afterMarker marker.1
  · have heq : txMarked first = txBody false := by
      funext buf off
      rw [txMarked, if_neg hzero]
    rw [heq]
    exact streams_txBody false

theorem txMarked_moves (first : UInt8) : Moves id (txMarked first) := by
  intro buf off r hoff hr
  by_cases hzero : first = 0
  · subst hzero
    exact Streams.field.bind_moves (Streams.field_moves (Nat.succ_pos 5))
      (fun marker => streams_afterMarker marker.1) buf off r hoff hr
  · rw [txMarked, if_neg hzero] at hr
    exact txBody_moves false buf off r hoff hr

theorem streams_txRest : SizeStreams id txRest := by
  apply Streams.dispatch streams_txMarked txMarked_moves
  · intro buf off h
    rw [txRest, List.getElem?_eq_none h]
    rfl
  · intro buf off first hfirst
    rw [txRest, hfirst]

theorem streams_txWalk : SizeStreams id txWalk :=
  (streams_advance 4).bind fun _ => streams_txRest

theorem isEF_eq_false {buf : Bytes} {first : UInt8} (hfirst : buf[4]? = some first)
    (hne : first ≠ 0) : isEF buf = false := by
  have hmarker : ((buf.drop 4).take 6)[0]? = some first := by
    rw [List.getElem?_take_of_lt (by decide), List.getElem?_drop]
    exact hfirst
  rw [isEF, Bool.and_eq_false_iff]
  right
  rw [beq_eq_false_iff_ne]
  intro heq
  rw [heq] at hmarker
  exact hne (Option.some.inj hmarker).symm

theorem isEF_iff {buf : Bytes} (hlength : 10 ≤ buf.length) :
    isEF buf = true ↔ (buf.drop 4).take 6 = efMarker := by
  rw [isEF, Bool.and_eq_true, beq_iff_eq]
  simp [hlength]

theorem isEF_short {buf : Bytes} (hlength : buf.length < 10) : isEF buf = false := by
  rw [isEF, Bool.and_eq_false_iff]
  left
  simpa using hlength

theorem advance_version (buf : Bytes) :
    advance buf 0 4 = if buf.length < 4 then Run.fail .short else pure 4 := by
  rw [advance, Run.failIf_neg (by decide), pure_bind, Run.add_of_lt (by decide), pure_bind]
  by_cases hlt : buf.length < 4
  · rw [if_pos hlt]
    exact congrArg (· >>= fun _ => pure 4) (if_pos hlt)
  · rw [if_neg hlt]
    exact congrArg (· >>= fun _ => pure 4) (if_neg hlt)

theorem txSize_eq (buf : Bytes) : txSize buf = txWalk buf 0 := by
  rw [txSize, txWalk, advance_version]
  by_cases hversion : buf.length < 4
  · rw [if_pos hversion, Run.fail_bind, Run.fail_bind]
  rw [if_neg hversion, pure_bind, pure_bind, txRest]
  cases hfirst : buf[4]? with
  | none =>
      have hlength := List.getElem?_eq_none_iff.mp hfirst
      rw [isEF_short (by omega)]
      simp only [reduceCtorEq, decide_false, Bool.and_false, Bool.false_eq_true, if_false]
      rw [txBody, takeVarInt_short hlength, Run.fail_bind]
  | some first =>
      dsimp only
      by_cases hzero : first = 0
      · subst hzero
        rw [txMarked, if_pos rfl]
        by_cases hlength : buf.length < 10
        · rw [isEF_short hlength, if_pos (by decide), if_pos hlength,
            Run.field_of_lt (by decide) hlength, Run.fail_bind]
        · rw [Run.field_of_le (by decide) (by omega), pure_bind]
          by_cases hmarker : (buf.drop 4).take 6 = efMarker
          · rw [(isEF_iff (by omega)).mpr hmarker, Run.failIf_neg (by simpa using hmarker)]
            rfl
          · have hef : isEF buf = false := by
              rw [← Bool.not_eq_true, isEF_iff (by omega)]
              exact hmarker
            rw [hef, if_pos (by decide), if_neg hlength, Run.failIf, if_pos hmarker, Run.fail_bind]
      · rw [txMarked, if_neg hzero, isEF_eq_false hfirst hzero]
        simp [hzero]

/-! ## Subtrees and blocks -/

def subtreeNodes (n : UInt64) (buf : Bytes) (off : Nat) : SizeRun Nat :=
  Run.failIf ((mathMaxInt - subtreeHeaderSize) / subtreeNodeSize < n.toNat)
    (.malformed ("node count " ++ toString n.toNat ++ " overflows")) >>= fun _ =>
      Run.mul n.toNat subtreeNodeSize >>= fun nodes => skip nodes buf off

def subtreeWalk (buf : Bytes) (off : Nat) : SizeRun Nat :=
  Run.field .short subtreeHeaderSize (fun header => uint64 (header.drop 32)) buf off >>= fun n =>
    subtreeNodes n.1 buf n.2

theorem streams_subtreeWalk : SizeStreams id subtreeWalk :=
  Streams.field.bind fun _ => Streams.lift fun _ => Streams.lift fun _ => streams_skip _

theorem subtreeSize_eq (buf : Bytes) : (subtreeSize buf).outcome = (subtreeWalk buf 0).outcome := by
  rw [subtreeSize, subtreeHeaderSize, header_eq (by decide) (by decide), subtreeWalk]
  apply Run.bind_outcome_congr
  intro n hn
  obtain ⟨-, -, rfl⟩ := Run.field_outcome_ok hn
  rfl

def blockBump (l : UInt64) (buf : Bytes) (off : Nat) : SizeRun Nat :=
  Run.failIf (mathMaxInt - off < l.toNat)
    (.malformed ("coinbase BUMP length " ++ toString l.toNat ++ " overflows")) >>= fun _ =>
      skip l.toNat buf off

/-- From the subtree roots on. -/
def blockBody (m : UInt64) (buf : Bytes) (off : Nat) : SizeRun Nat :=
  Run.failIf ((mathMaxInt - blockPrefixSize) / blockRootSize < m.toNat)
    (.malformed ("subtree count " ++ toString m.toNat ++ " overflows")) >>= fun _ =>
      Run.mul m.toNat blockRootSize >>= fun roots => skip roots buf off >>= fun off =>
        (txSize (buf.drop off) >>= fun coinbase => Run.add off coinbase) >>= fun off =>
          blockTailSize buf off

def blockWalk (buf : Bytes) (off : Nat) : SizeRun Nat :=
  Run.field .short blockPrefixSize (fun header => uint64 (header.drop 96)) buf off >>= fun m =>
    blockBody m.1 buf m.2

theorem streams_blockBump (l : UInt64) : SizeStreams id (blockBump l) :=
  Streams.lift fun _ => streams_skip _

theorem streams_blockTailSize : SizeStreams id blockTailSize := by
  have hfield : SizeStreams id (fun buf off =>
      Run.field .short 16 (fun part => uint64 (part.drop 8)) buf off >>= fun l =>
        blockBump l.1 buf l.2) := Streams.field.bind fun l => streams_blockBump l.1
  have heq : blockTailSize = fun buf off =>
      Run.field .short 16 (fun part => uint64 (part.drop 8)) buf off >>= fun l =>
        blockBump l.1 buf l.2 := by
    funext buf off
    rw [blockTailSize, inside_eq buf (by decide)]
    rfl
  rw [heq]
  exact hfield

theorem streams_blockBody (m : UInt64) : SizeStreams id (blockBody m) :=
  Streams.lift fun _ => Streams.lift fun _ => (streams_skip _).bind fun _ =>
    (streams_txWalk.inner fun buf => congrArg Run.outcome (txSize_eq buf)).bind fun _ =>
      streams_blockTailSize

theorem streams_blockWalk : SizeStreams id blockWalk :=
  Streams.field.bind fun m => streams_blockBody m.1

theorem blockSize_eq (buf : Bytes) : (blockSize buf).outcome = (blockWalk buf 0).outcome := by
  rw [blockSize, blockPrefixSize, header_eq (by decide) (by decide), blockWalk]
  apply Run.bind_outcome_congr
  intro m hm
  obtain ⟨-, -, rfl⟩ := Run.field_outcome_ok hm
  apply Run.bind_outcome_congr
  intro _ _
  apply Run.bind_outcome_congr
  intro roots _
  calc _ = (skip roots buf (0 + 104) >>= fun off =>
        (bytesAt buf off buf.length >>= txSize) >>= fun coinbase =>
          Run.add off coinbase >>= fun off => blockTailSize buf off).outcome := by
        simp only [skip, bind_assoc, pure_bind, Nat.zero_add]
    _ = _ := by
        apply Run.bind_outcome_congr
        intro off hoff
        obtain ⟨-, hreach, rfl⟩ := skip_outcome_ok hoff
        rw [bytesAt, Run.slice_of_le hreach (Nat.le_refl _), pure_bind, ← List.length_drop,
          List.take_length, bind_assoc]

theorem blockHeaderSize_eq (buf : Bytes) :
    (blockHeaderSize buf).outcome = (skip blockHeaderBytes buf 0).outcome := by
  rw [blockHeaderSize, skip, Run.add_of_lt (by decide), pure_bind, Nat.zero_add]

/-! ## BEEF records -/

def beefName (nameLen : UInt8) (buf : Bytes) (off : Nat) : SizeRun Nat :=
  Run.failIf (nameLen.toNat < 1 ∨ beefMaxTopicLen < nameLen.toNat)
    (.malformed ("topic length " ++ outside nameLen.toNat 1 beefMaxTopicLen)) >>= fun _ =>
      skip nameLen.toNat buf off

theorem streams_beefName (nameLen : UInt8) : SizeStreams id (beefName nameLen) :=
  Streams.lift fun _ => streams_skip _

theorem beefTopic_eq (buf : Bytes) (off : Nat) :
    (beefTopic buf off).outcome =
      (Run.field .short 1 (fun part => part.headD 0) buf off >>= fun nameLen =>
        beefName nameLen.1 buf nameLen.2).outcome := by
  by_cases hsum : off + 1 < 2 ^ 63
  · by_cases hlt : buf.length < off + 1
    · rw [beefTopic, Run.add_of_lt hsum, pure_bind, Run.failIf, if_pos hlt,
        Run.field_of_lt hsum hlt, Run.fail_bind, Run.fail_bind]
    · have hbyte : (byteAt buf off : SizeRun UInt8) =
          pure (((buf.drop off).take 1).headD 0) := by
        rw [byteAt, Run.index_of_lt (by omega), List.drop_eq_getElem_cons (by omega)]
        rfl
      rw [beefTopic, Run.add_of_lt hsum, pure_bind, Run.failIf_neg hlt, pure_bind, hbyte, pure_bind,
        Run.field_of_le hsum (by omega), pure_bind]
      apply Run.bind_outcome_congr
      intro _ _
      rw [skip, Run.add, Run.add, Nat.add_assoc]
  · rw [beefTopic, Run.field, Run.add, if_neg hsum]
    rfl

theorem streams_beefTopic : SizeStreams id beefTopic := by
  have hfield : SizeStreams id (fun buf off =>
      Run.field .short 1 (fun part => part.headD 0) buf off >>= fun nameLen =>
        beefName nameLen.1 buf nameLen.2) :=
    Streams.field.bind fun nameLen => streams_beefName nameLen.1
  exact hfield.congr fun buf off => beefTopic_eq buf off

/-- Behind the length of the object. -/
def beefObject (objLen : UInt32) (buf : Bytes) (off : Nat) : SizeRun Nat :=
  Run.failIf (objLen = 0) (.malformed "zero object length") >>= fun _ =>
    Run.failIf (mathMaxInt - off < objLen.toNat)
      (.malformed ("object length " ++ toString objLen.toNat ++ " overflows")) >>= fun _ =>
        skip objLen.toNat buf off

theorem streams_beefObject (objLen : UInt32) : SizeStreams id (beefObject objLen) :=
  Streams.lift fun _ => Streams.lift fun _ => streams_skip _

def beefDeliveryWalk (buf : Bytes) (off : Nat) : SizeRun Nat :=
  Run.field .short beefDeliveryHeaderSize (fun part => uint32 (part.drop 32)) buf off >>=
    fun objLen => beefObject objLen.1 buf objLen.2

theorem streams_beefDeliveryWalk : SizeStreams id beefDeliveryWalk :=
  Streams.field.bind fun objLen => streams_beefObject objLen.1

theorem beefDeliverySize_eq (buf : Bytes) :
    (beefDeliverySize buf).outcome = (beefDeliveryWalk buf 0).outcome := by
  rw [beefDeliverySize, beefDeliveryHeaderSize, header_eq (by decide) (by decide), beefDeliveryWalk]
  apply Run.bind_outcome_congr
  intro objLen hobjLen
  obtain ⟨-, -, rfl⟩ := Run.field_outcome_ok hobjLen
  rfl

theorem streams_beefObjectSize : SizeStreams id beefObjectSize := by
  have hfield : SizeStreams id (fun buf off =>
      Run.field .short 4 (fun part => uint32 (part.drop 0)) buf off >>= fun objLen =>
        beefObject objLen.1 buf objLen.2) :=
    Streams.field.bind fun objLen => streams_beefObject objLen.1
  apply hfield.congr
  intro buf off
  apply (congrArg Run.outcome (inside_eq buf (Nat.zero_le 4) uint32 _)).trans
  apply Run.bind_outcome_congr
  intro objLen hobjLen
  obtain ⟨-, -, rfl⟩ := Run.field_outcome_ok hobjLen
  rw [Nat.sub_sub]
  rfl

/-- From the topics on. -/
def beefBody (count : UInt8) (buf : Bytes) (off : Nat) : SizeRun Nat :=
  Run.failIf (count.toNat < 1 ∨ beefMaxTopics < count.toNat)
    (.malformed ("topic count " ++ outside count.toNat 1 beefMaxTopics)) >>= fun _ =>
      Run.iterate (beefTopic buf) count.toNat off >>= fun off => beefObjectSize buf off

/-- From the version on; `fixed` is the version and the topic count. -/
def beefVersioned (fixed : UInt8 × UInt8) (buf : Bytes) (off : Nat) : SizeRun Nat :=
  Run.failIf (fixed.1 ≠ beefRecordVer) (.malformed ("record version 0x" ++ hexByte fixed.1)) >>=
    fun _ => beefBody fixed.2 buf off

def beefTagged (tag : Bytes) (buf : Bytes) (off : Nat) : SizeRun Nat :=
  Run.failIf (uint16 tag ≠ beefRecordTag)
    (.malformed ("bad record tag 0x" ++ String.join (tag.map hexByte))) >>= fun _ =>
      Run.field .short 2 (fun part => (part.headD 0, (part.drop 1).headD 0)) buf off >>=
        fun fixed => beefVersioned fixed.1 buf fixed.2

def beefRecordWalk (buf : Bytes) (off : Nat) : SizeRun Nat :=
  Run.field .short 2 (fun tag => tag) buf off >>= fun tag => beefTagged tag.1 buf tag.2

theorem streams_beefBody (count : UInt8) : SizeStreams id (beefBody count) :=
  Streams.lift fun _ => (streams_beefTopic.iterate count.toNat).bind fun _ =>
    streams_beefObjectSize

theorem streams_beefVersioned (fixed : UInt8 × UInt8) : SizeStreams id (beefVersioned fixed) :=
  Streams.lift fun _ => streams_beefBody fixed.2

theorem streams_beefTagged (tag : Bytes) : SizeStreams id (beefTagged tag) :=
  Streams.lift fun _ => Streams.field.bind fun fixed => streams_beefVersioned fixed.1

theorem streams_beefRecordWalk : SizeStreams id beefRecordWalk :=
  Streams.field.bind fun tag => streams_beefTagged tag.1

theorem beefRecordSize_eq (buf : Bytes) :
    (beefRecordSize buf).outcome = (beefRecordWalk buf 0).outcome := by
  rw [beefRecordSize, beefRecordWalk]
  by_cases htwo : buf.length < 2
  · rw [Run.field_of_lt (by decide) htwo, Run.failIf, if_pos htwo, Run.fail_bind, Run.fail_bind]
  rw [Run.field_of_le (by decide) (Nat.le_of_not_lt htwo), Run.failIf_neg htwo, pure_bind,
    pure_bind, bytesAt, Run.slice_of_le (by decide) (by omega), pure_bind, beefTagged]
  apply Run.bind_outcome_congr
  intro _ _
  dsimp only
  by_cases hfour : buf.length < beefRecordMin
  · rw [Run.field_of_lt (by decide) hfour, Run.failIf, if_pos hfour, Run.fail_bind, Run.fail_bind]
  have hlength : 4 ≤ buf.length := Nat.le_of_not_lt hfour
  have hver : (byteAt buf 2 : SizeRun UInt8) = pure (((buf.drop 2).take 2).headD 0) := by
    rw [byteAt, Run.index_of_lt (by omega), List.drop_eq_getElem_cons (by omega)]
    rfl
  have hcount : (byteAt buf 3 : SizeRun UInt8) =
      pure ((((buf.drop 2).take 2).drop 1).headD 0) := by
    rw [byteAt, Run.index_of_lt (by omega), List.drop_take, List.drop_drop,
      List.drop_eq_getElem_cons (by omega)]
    rfl
  rw [Run.failIf_neg hfour, Run.field_of_le (by decide) hlength, pure_bind, pure_bind, hver,
    pure_bind]
  apply Run.bind_outcome_congr
  intro _ _
  rw [hcount, pure_bind]
  rfl

/-! ## Every class -/

/-- The class has a codec. -/
def Class.Registered (c : Class) : Prop := ∀ value, c ≠ .unregistered value

theorem size_delimits {c : Class} (hc : c.Registered) : Delimits .short (size c) := by
  cases c with
  | tx => exact ⟨txWalk, streams_txWalk, fun buf => congrArg Run.outcome (txSize_eq buf)⟩
  | subtree => exact ⟨subtreeWalk, streams_subtreeWalk, subtreeSize_eq⟩
  | block => exact ⟨blockWalk, streams_blockWalk, blockSize_eq⟩
  | beef => exact ⟨beefRecordWalk, streams_beefRecordWalk, beefRecordSize_eq⟩
  | beefDelivery => exact ⟨beefDeliveryWalk, streams_beefDeliveryWalk, beefDeliverySize_eq⟩
  | blockHeader => exact ⟨skip blockHeaderBytes, streams_skip _, blockHeaderSize_eq⟩
  | unregistered value => exact absurd rfl (hc value)

theorem size_nil {c : Class} (hc : c.Registered) : (size c []).outcome = .fail .short := by
  cases c with
  | unregistered value => exact absurd rfl (hc value)
  | _ => rfl

end ShardCommon.Objfmt
