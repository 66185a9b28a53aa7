import ShardCommon.Lib.GoRun

/-!
# What stands where in a buffer

A codec and its format meet in statements of one shape: these bytes stand at this offset. Reading
succeeds exactly when something stands there, pieces that follow each other stand together, and a
sequence of writes that starts where the previous one ended leaves their concatenation.
-/

namespace Go

variable {α ε : Type} {bytes part other : List α} {off : Nat}

/-- `part` stands in `bytes` at `off`. -/
def StandsAt (bytes : List α) (off : Nat) (part : List α) : Prop :=
  ∃ before after, before.length = off ∧ bytes = before ++ part ++ after

theorem StandsAt.length_le (h : StandsAt bytes off part) : off + part.length ≤ bytes.length := by
  obtain ⟨before, after, rfl, rfl⟩ := h
  simp

theorem StandsAt.eq_take (h : StandsAt bytes off part) :
    part = (bytes.drop off).take part.length := by
  obtain ⟨before, after, rfl, rfl⟩ := h
  simp

theorem StandsAt.unique (h : StandsAt bytes off part) (h' : StandsAt bytes off other)
    (hlength : part.length = other.length) : part = other := by
  rw [h.eq_take, h'.eq_take, hlength]

theorem standsAt_take {count : Nat} (h : off + count ≤ bytes.length) :
    StandsAt bytes off ((bytes.drop off).take count) := by
  refine ⟨bytes.take off, bytes.drop (off + count), ?_, ?_⟩
  · rw [List.length_take]
    omega
  · rw [List.append_assoc, ← List.drop_drop, List.take_append_drop, List.take_append_drop]

theorem exists_standsAt {count : Nat} (h : off + count ≤ bytes.length) :
    ∃ part, part.length = count ∧ StandsAt bytes off part := by
  refine ⟨(bytes.drop off).take count, ?_, standsAt_take h⟩
  rw [List.length_take, List.length_drop]
  omega

theorem standsAt_append_iff :
    StandsAt bytes off (part ++ other) ↔
      StandsAt bytes off part ∧ StandsAt bytes (off + part.length) other := by
  constructor
  · rintro ⟨before, after, rfl, rfl⟩
    refine ⟨⟨before, other ++ after, rfl, by simp⟩, ⟨before ++ part, after, by simp, by simp⟩⟩
  · rintro ⟨⟨before, after, rfl, rfl⟩, ⟨before', after', hlength, heq⟩⟩
    have hsplit : before ++ part = before' ∧ after = other ++ after' := by
      rw [List.append_assoc before'] at heq
      apply List.append_inj heq
      rw [List.length_append, hlength]
    refine ⟨before, after', rfl, ?_⟩
    rw [hsplit.2]
    simp

theorem standsAt_nil_iff : StandsAt bytes off [] ↔ off ≤ bytes.length := by
  constructor
  · intro h
    simpa using h.length_le
  · intro h
    exact ⟨bytes.take off, bytes.drop off, by simpa using h, by simp⟩

theorem StandsAt.append_right (h : StandsAt bytes off part) (trailing : List α) :
    StandsAt (bytes ++ trailing) off part := by
  obtain ⟨before, after, hoff, rfl⟩ := h
  exact ⟨before, after ++ trailing, hoff, by simp⟩

/-- What stands at an offset together with everything behind it. -/
theorem StandsAt.to_end (h : StandsAt bytes off part) :
    ∃ rest, StandsAt bytes off (part ++ rest) ∧ bytes.length = off + (part ++ rest).length := by
  obtain ⟨before, after, rfl, rfl⟩ := h
  exact ⟨after, ⟨before, [], rfl, by simp⟩, by simp⟩

theorem standsAt_zero_self : StandsAt bytes 0 bytes := ⟨[], [], rfl, by simp⟩

theorem standsAt_zero_iff : StandsAt bytes 0 part ↔ part <+: bytes := by
  constructor
  · rintro ⟨before, after, hbefore, rfl⟩
    rw [List.length_eq_zero_iff.mp hbefore]
    exact ⟨after, rfl⟩
  · rintro ⟨after, rfl⟩
    exact ⟨[], after, rfl, rfl⟩

theorem StandsAt.take_eq (h : StandsAt bytes 0 part) : bytes.take part.length = part := by
  have heq := h.eq_take
  rw [List.drop_zero] at heq
  exact heq.symm

/-- Items of one width stand at multiples of it. -/
theorem StandsAt.item {β : Type} {layout : β → List α} {width : Nat} {items : List β}
    (h : StandsAt bytes off (items.flatMap layout)) (hwidth : ∀ b, (layout b).length = width)
    {i : Nat} (hi : i < items.length) : StandsAt bytes (off + i * width) (layout items[i]) := by
  induction items generalizing off i with
  | nil => exact absurd hi (Nat.not_lt_zero i)
  | cons b items ih =>
      rw [List.flatMap_cons, standsAt_append_iff, hwidth] at h
      cases i with
      | zero => simpa using h.1
      | succ i =>
          have hitem := ih h.2 (Nat.lt_of_succ_lt_succ hi)
          rwa [Nat.add_right_comm, Nat.add_assoc, ← Nat.succ_mul] at hitem

theorem length_flatMap_of_width {β : Type} {layout : β → List α} {width : Nat}
    (hwidth : ∀ b, (layout b).length = width) (items : List β) :
    (items.flatMap layout).length = items.length * width := by
  induction items with
  | nil => simp
  | cons b items ih => rw [List.flatMap_cons, List.length_append, hwidth, ih, List.length_cons,
      Nat.succ_mul, Nat.add_comm]

/-! ## Reading -/

theorem slice_outcome_ok_iff {low high : Nat} :
    (Run.slice bytes low high : Run ε (List α)).outcome = .ok part ↔
      StandsAt bytes low part ∧ high = low + part.length := by
  constructor
  · intro h
    obtain ⟨-, hlow, hhigh⟩ := Run.slice_outcome_ok h
    rw [Run.slice_of_le (by omega) (by omega)] at h
    cases h
    have hstands : low + (high - low) ≤ bytes.length := by omega
    refine ⟨standsAt_take hstands, ?_⟩
    rw [List.length_take, List.length_drop]
    omega
  · rintro ⟨h, rfl⟩
    rw [Run.slice_of_le (by omega) h.length_le, Nat.add_sub_cancel_left, ← h.eq_take]
    rfl

theorem standsAt_singleton_iff {i : Nat} {a : α} : StandsAt bytes i [a] ↔ bytes[i]? = some a := by
  constructor
  · rintro ⟨before, after, rfl, rfl⟩
    simp
  · intro h
    obtain ⟨hi, rfl⟩ := List.getElem?_eq_some_iff.mp h
    exact ⟨bytes.take i, bytes.drop (i + 1), by simp; omega, by simp⟩

theorem index_outcome_ok_iff {i : Nat} {a : α} :
    (Run.index bytes i : Run ε α).outcome = .ok a ↔ StandsAt bytes i [a] :=
  Run.index_outcome_ok.trans standsAt_singleton_iff.symm

/-! ## Writing -/

/-- `copy(bytes[off:off+len(part)], part)`, or the single assignment `bytes[off] = b`. -/
def Run.put (bytes : List α) (off : Nat) (part : List α) : Run ε (List α) :=
  if off + part.length ≤ bytes.length then
    pure (bytes.take off ++ part ++ bytes.drop (off + part.length))
  else Run.panic .sliceOutOfRange

/-- Several writes, one after the other. -/
def Run.putAll (bytes : List α) (writes : List (Nat × List α)) : Run ε (List α) :=
  writes.foldlM (fun bytes write => Run.put bytes write.1 write.2) bytes

/-- The bytes of a table of writes, in order. -/
def written (writes : List (Nat × List α)) : List α := writes.flatMap (·.2)

/-- Each write starts where the one before it ended. -/
def Contiguous (off : Nat) : List (Nat × List α) → Prop
  | [] => True
  | write :: writes => write.1 = off ∧ Contiguous (off + write.2.length) writes

/-- A buffer and the offset of the next write. -/
abbrev Cursor (α : Type) := List α × Nat

/-- A write at the cursor, which moves behind it. -/
def Run.putNext (c : Cursor α) (part : List α) : Run ε (Cursor α) := do
  let bytes ← Run.put c.1 c.2 part
  pure (bytes, c.2 + part.length)

/-- A step that appends `part` at the cursor, whatever the buffer holds. -/
def Puts (step : Cursor α → Run ε (Cursor α)) (part : List α) : Prop :=
  ∀ done rest : List α, part.length ≤ rest.length →
    step (done ++ rest, done.length) =
      pure (done ++ part ++ rest.drop part.length, done.length + part.length)

theorem written_append (writes more : List (Nat × List α)) :
    written (writes ++ more) = written writes ++ written more := List.flatMap_append

theorem Contiguous.append {writes more : List (Nat × List α)} (h : Contiguous off writes)
    (hmore : Contiguous (off + (written writes).length) more) : Contiguous off (writes ++ more) := by
  induction writes generalizing off with
  | nil => exact hmore
  | cons write writes ih =>
      refine ⟨h.1, ih h.2 ?_⟩
      have hwritten : written (write :: writes) = write.2 ++ written writes := rfl
      rwa [hwritten, List.length_append, ← Nat.add_assoc] at hmore

/-- A loop that writes its items of one width at `base + i*width`. -/
theorem contiguous_items {β : Type} {writes : Nat → β → List (Nat × List α)} {layout : β → List α}
    {width : Nat} (hwrites : ∀ off b, Contiguous off (writes off b))
    (hlayout : ∀ off b, written (writes off b) = layout b)
    (hwidth : ∀ b, (layout b).length = width) (base : Nat) (items : List β) :
    Contiguous base (items.zipIdx.flatMap fun item => writes (base + item.2 * width) item.1) ∧
      written (items.zipIdx.flatMap fun item => writes (base + item.2 * width) item.1) =
        items.flatMap layout := by
  suffices h : ∀ start,
      Contiguous (base + start * width)
        ((items.zipIdx start).flatMap fun item => writes (base + item.2 * width) item.1) ∧
      written ((items.zipIdx start).flatMap fun item => writes (base + item.2 * width) item.1) =
        items.flatMap layout by
    have hzero := h 0
    rwa [Nat.zero_mul, Nat.add_zero] at hzero
  induction items with
  | nil => exact fun start => ⟨trivial, rfl⟩
  | cons b items ih =>
      intro start
      rw [List.zipIdx_cons, List.flatMap_cons, List.flatMap_cons, written_append, hlayout,
        (ih (start + 1)).2]
      refine ⟨(hwrites _ b).append ?_, rfl⟩
      rw [hlayout, hwidth, Nat.add_assoc, ← Nat.succ_mul]
      exact (ih (start + 1)).1

theorem put_append {done rest : List α} (hoff : off = done.length)
    (hfit : part.length ≤ rest.length) :
    (Run.put (done ++ rest) off part : Run ε (List α)) =
      pure (done ++ part ++ rest.drop part.length) := by
  subst hoff
  rw [Run.put, if_pos (by rw [List.length_append]; omega), List.take_left, ← List.drop_drop,
    List.drop_left]

/-- A contiguous table of writes leaves its concatenation behind. -/
theorem putAll_append {writes : List (Nat × List α)} :
    ∀ {done rest : List α}, Contiguous done.length writes → (written writes).length ≤ rest.length →
      (Run.putAll (done ++ rest) writes : Run ε (List α)) =
        pure (done ++ written writes ++ rest.drop (written writes).length) := by
  induction writes with
  | nil =>
      intro done rest _ _
      simp [Run.putAll, written]
  | cons write writes ih =>
      rintro done rest ⟨hoff, hrest⟩ hfit
      have hwritten : written (write :: writes) = write.2 ++ written writes := rfl
      rw [hwritten, List.length_append] at hfit
      have hput : (Run.put (done ++ rest) write.1 write.2 : Run ε (List α)) =
          pure (done ++ write.2 ++ rest.drop write.2.length) := put_append hoff (by omega)
      have htail : (Run.putAll (done ++ write.2 ++ rest.drop write.2.length) writes :
          Run ε (List α)) = pure (done ++ write.2 ++ written writes ++
            (rest.drop write.2.length).drop (written writes).length) := by
        apply ih
        · rwa [List.length_append]
        · rw [List.length_drop]
          omega
      rw [Run.putAll, List.foldlM_cons, hput, pure_bind]
      rw [Run.putAll] at htail
      rw [htail, hwritten, List.drop_drop, List.length_append, List.append_assoc done]

theorem neverPanics_putAll {writes : List (Nat × List α)} (h : Contiguous off writes)
    (hfit : off + (written writes).length ≤ bytes.length) :
    (Run.putAll bytes writes : Run ε (List α)).NeverPanics := by
  have hoff : (bytes.take off).length = off := by
    rw [List.length_take]
    omega
  rw [← List.take_append_drop off bytes, putAll_append]
  · exact Run.neverPanics_pure _
  · rwa [hoff]
  · rw [List.length_drop]
    omega

theorem putAll_front {writes : List (Nat × List α)} {rest : List α} (h : Contiguous 0 writes)
    (hfit : (written writes).length ≤ rest.length) :
    (Run.putAll rest writes : Run ε (List α)) =
      pure (written writes ++ rest.drop (written writes).length) := by
  have hdone : Contiguous ([] : List α).length writes := h
  exact putAll_append hdone hfit

/-- Each part stands where it was written. -/
theorem standsAt_of_mem_writes {writes : List (Nat × List α)} (h : Contiguous off writes)
    (hstands : StandsAt bytes off (written writes)) : ∀ w ∈ writes, StandsAt bytes w.1 w.2 := by
  induction writes generalizing off with
  | nil => exact List.forall_mem_nil _
  | cons write writes ih =>
      obtain ⟨hoff, hrest⟩ := h
      obtain ⟨hfirst, hlater⟩ := standsAt_append_iff.mp hstands
      intro w hw
      rcases List.mem_cons.mp hw with rfl | hw
      · rw [hoff]
        exact hfirst
      · exact ih hrest hlater w hw

/-- A contiguous table of writes that fills a buffer. -/
theorem putAll_fill {writes : List (Nat × List α)} {rest : List α} (h : Contiguous 0 writes)
    (hlength : rest.length = (written writes).length) :
    (Run.putAll rest writes : Run ε (List α)) = pure (written writes) := by
  rw [putAll_front h (Nat.le_of_eq hlength.symm), ← hlength, List.drop_length, List.append_nil]

/-! ## Appending at a cursor -/

section Puts

variable {step next : Cursor α → Run ε (Cursor α)}

theorem puts_pure : Puts (pure : Cursor α → Run ε (Cursor α)) [] := by
  intro done rest _
  simp

theorem Puts.andThen (hstep : Puts step part) (hnext : Puts next other) :
    Puts (fun c => step c >>= next) (part ++ other) := by
  intro done rest hroom
  rw [List.length_append] at hroom
  have hsecond := hnext (done ++ part) (rest.drop part.length) (by rw [List.length_drop]; omega)
  rw [List.length_append] at hsecond
  dsimp only
  rw [hstep done rest (by omega), pure_bind, hsecond, List.drop_drop, List.length_append,
    List.append_assoc done, Nat.add_assoc]

theorem puts_foldlM {β : Type} {step : Cursor α → β → Run ε (Cursor α)} {layout : β → List α}
    {l : List β} (h : ∀ b ∈ l, Puts (step · b) (layout b)) :
    Puts (fun c => l.foldlM step c) (l.flatMap layout) := by
  induction l with
  | nil => exact puts_pure
  | cons b l ih =>
      obtain ⟨hb, hl⟩ := List.forall_mem_cons.mp h
      exact hb.andThen (ih hl)

theorem puts_putNext (part : List α) :
    Puts (fun c => (Run.putNext c part : Run ε (Cursor α))) part := by
  intro done rest hroom
  dsimp only
  rw [Run.putNext, put_append rfl hroom, pure_bind]

/-- A contiguous table of writes at the cursor. -/
theorem puts_putAll {writes : Nat → List (Nat × List α)}
    (hwrites : ∀ off, Contiguous off (writes off)) (hpart : ∀ off, written (writes off) = part) :
    Puts (fun c => (do
      let bytes ← Run.putAll c.1 (writes c.2)
      pure (bytes, c.2 + part.length) : Run ε (Cursor α))) part := by
  intro done rest hroom
  dsimp only
  rw [putAll_append (hwrites _) (by rwa [hpart]), hpart, pure_bind]

end Puts

/-! ## Agreement up to ignored positions -/

/-- Strings of one length that differ at most at the positions `free`; their first byte is at
`base`. -/
def AgreeOff (free : Nat → Prop) (base : Nat) (x y : List α) : Prop :=
  x.length = y.length ∧ ∀ i, ¬ free (base + i) → x[i]? = y[i]?

variable {free : Nat → Prop} {base : Nat} {x y x' y' : List α}

theorem AgreeOff.refl (free : Nat → Prop) (base : Nat) (x : List α) : AgreeOff free base x x :=
  ⟨rfl, fun _ _ => rfl⟩

theorem AgreeOff.append (h : AgreeOff free base x y) (h' : AgreeOff free (base + x.length) x' y') :
    AgreeOff free base (x ++ x') (y ++ y') := by
  refine ⟨by rw [List.length_append, List.length_append, h.1, h'.1], ?_⟩
  intro i hi
  by_cases hlt : i < x.length
  · rw [List.getElem?_append_left hlt, List.getElem?_append_left (by rwa [← h.1])]
    exact h.2 i hi
  · rw [List.getElem?_append_right (by omega), List.getElem?_append_right (by rw [← h.1]; omega), ← h.1]
    apply h'.2
    rwa [Nat.add_assoc, Nat.add_sub_cancel' (by omega)]

theorem agreeOff_of_free (hlength : x.length = y.length)
    (hfree : ∀ i, i < x.length → free (base + i)) : AgreeOff free base x y := by
  refine ⟨hlength, fun i hi => ?_⟩
  have hge : x.length ≤ i := not_lt.mp fun hlt => hi (hfree i hlt)
  rw [List.getElem?_eq_none hge, List.getElem?_eq_none (by omega)]

end Go
