import ShardCommon.ObjectReader
import ShardCommon.Proof.ObjectSize

/-!
# Reassembly does not depend on the chunks

Between two rounds the window and what the source still holds make up the rest of the stream. A
round consumes the object at the front of the window or moves bytes from the source into it, so
`Next` returns the objects of the stream one after the other, however the source cuts it.
-/

namespace ShardCommon.Objfmt

open Go ShardCommon.Frame

/-- `rd.buf[rd.start:rd.end]`. -/
def Reader.window (rd : Reader) : Bytes := (rd.buf.drop rd.start).take (rd.stop - rd.start)

/-- A bound on the reads that are still to come before the end is reported. -/
def Reader.weight (rd : Reader) : Nat := rd.r.remaining.length + rd.r.script.length

/-- The reader has `stream` in front of it. -/
structure Holds (c : Class) (max : Int) (rd : Reader) (stream : Bytes) : Prop where
  class_eq : rd.c = c
  max_eq : rd.max = max
  start_le : rd.start ≤ rd.stop
  stop_le : rd.stop ≤ rd.buf.length
  length_le : (rd.buf.length : Int) ≤ max + 4096
  bytes : rd.window ++ rd.r.remaining = stream
  ended : rd.r.ended = true → rd.r.remaining = []
  offered : ∀ space ∈ rd.offered, 0 < space

section

variable {c : Class} {max : Int} {rd : Reader} {stream : Bytes}

theorem Holds.length_window (h : Holds c max rd stream) :
    rd.window.length = rd.stop - rd.start := by
  have := h.stop_le
  rw [Reader.window, List.length_take, List.length_drop]
  omega

theorem Holds.windowSize (h : Holds c max rd stream) : rd.windowSize = size c rd.window := by
  rw [Reader.windowSize, Run.slice_of_le h.start_le h.stop_le, pure_bind, h.class_eq]
  rfl

theorem Holds.window_isPrefix (h : Holds c max rd stream) : rd.window <+: stream :=
  ⟨rd.r.remaining, h.bytes⟩

/-! ## The steps of a round -/

theorem Source.read_append (src : Source) (space : Nat) :
    (src.read space).1.1 ++ (src.read space).2.remaining = src.remaining := by
  rw [Source.read]
  split
  · rfl
  · exact List.take_append_drop ..

theorem Source.length_read_le (src : Source) (space : Nat) :
    (src.read space).1.1.length ≤ space := by
  rw [Source.read]
  split
  · exact Nat.zero_le _
  · exact (List.length_take_le _ _).trans (Nat.min_le_right _ _)

theorem Source.remaining_of_eof {src : Source} {space : Nat}
    (hended : src.ended = true → src.remaining = []) (heof : (src.read space).1.2 = true) :
    (src.read space).2.remaining = [] := by
  rw [Source.read] at heof ⊢
  split at heof
  · rename_i hend
    rw [if_pos hend]
    exact hended hend
  · rename_i hend
    rw [if_neg hend]
    dsimp only at heof ⊢
    split at heof
    · rename_i hnil
      rw [hnil, List.drop_nil]
    · rw [Bool.and_eq_true, List.isEmpty_iff] at heof
      exact heof.1

theorem Source.ended_read (src : Source) (space : Nat) :
    (src.read space).2.ended = (src.read space).1.2 := by
  rw [Source.read]
  split
  · assumption
  · rfl

theorem Source.script_read_le (src : Source) (space : Nat) :
    (src.read space).2.script.length ≤ src.script.length := by
  rw [Source.read]
  split
  · exact Nat.le_refl _
  · rw [List.length_tail]
    exact Nat.sub_le _ _

/-- A read of a non-empty slice that does not report the end uses up bytes or script. -/
theorem Source.read_progress {src : Source} {space : Nat} (hspace : 0 < space)
    (heof : (src.read space).1.2 = false) :
    (src.read space).2.remaining.length + (src.read space).2.script.length <
      src.remaining.length + src.script.length := by
  rw [Source.read] at heof ⊢
  by_cases hend : src.ended = true
  · rw [if_pos hend] at heof
    cases heof
  rw [if_neg hend] at heof ⊢
  dsimp only at heof ⊢
  rw [List.length_drop, List.length_tail]
  cases hscript : src.script with
  | cons count rest =>
      rw [List.length_cons]
      omega
  | nil =>
      rw [hscript, List.headD_nil, Nat.min_self] at heof
      cases hbytes : src.remaining with
      | nil =>
          rw [hbytes, if_pos rfl, decide_eq_false_iff_not] at heof
          omega
      | cons b rest =>
          simp only [List.headD_nil, Nat.min_self, List.length_cons, List.length_nil]
          omega

theorem parse_of_short (h : Holds c max rd stream)
    (hwindow : rd.window = [] ∨
      (size c rd.window).outcome = .fail .short ∧ (rd.window.length : Int) < max) :
    rd.parse = none := by
  have hlength := h.length_window
  rw [Reader.parse]
  by_cases hlt : rd.start < rd.stop
  · rcases hwindow with hnil | ⟨hshort, hmax⟩
    · rw [hnil, List.length_nil] at hlength
      omega
    · rw [if_pos hlt, h.windowSize, hshort, h.max_eq]
      dsimp only
      rw [if_neg (by omega)]
  · rw [if_neg hlt]

theorem parse_of_whole (h : Holds c max rd stream) {object rest : Bytes}
    (hobject : (size c rd.window).outcome = .ok object.length)
    (hstream : stream = object ++ rest) (hpos : 0 < object.length)
    (hle : object.length ≤ rd.window.length) :
    rd.parse = some (.ok object, { rd with start := rd.start + object.length }) ∧
      Holds c max { rd with start := rd.start + object.length } rest := by
  have hlength := h.length_window
  have hstop := h.stop_le
  have hfront : object = rd.window.take object.length := by
    have hbytes := h.bytes
    rw [hstream] at hbytes
    have htake := congrArg (List.take object.length) hbytes
    rw [List.take_append_of_le_length hle, List.take_left] at htake
    exact htake.symm
  have hslice : (Run.slice rd.buf rd.start (rd.start + object.length : Nat) : SizeRun Bytes) =
      pure object := by
    rw [Run.slice_of_le (by omega) (by omega), Nat.add_sub_cancel_left]
    conv_rhs => rw [hfront, Reader.window, List.take_take, Nat.min_eq_left (by omega)]
  refine ⟨?_, h.class_eq, h.max_eq, ?_, h.stop_le, h.length_le, ?_, h.ended, h.offered⟩
  · rw [Reader.parse, if_pos (by omega), h.windowSize, hobject]
    dsimp only
    rw [Reader.take, ← Int.natCast_add, hslice]
    rfl
  · dsimp only
    omega
  · have hrest : rd.window.drop object.length ++ rd.r.remaining = rest := by
      have hdrop := congrArg (List.drop object.length) h.bytes
      rwa [hstream, List.drop_left, List.drop_append_of_le_length hle] at hdrop
    rw [← hrest, Reader.window, Reader.window, List.drop_take, List.drop_drop, Nat.sub_sub]

theorem holds_compact (h : Holds c max rd stream) : Holds c max rd.compact stream := by
  have hlength := h.length_window
  have hstop := h.stop_le
  rw [Reader.compact]
  by_cases hpos : 0 < rd.start
  · rw [if_pos hpos]
    have hwindow : (rd.buf.drop rd.start).take (rd.stop - rd.start) = rd.window := rfl
    rw [hwindow]
    refine ⟨h.class_eq, h.max_eq, Nat.zero_le _, ?_, ?_, ?_, h.ended, h.offered⟩
    · dsimp only
      rw [List.length_append, hlength]
      omega
    · have := h.length_le
      dsimp only
      rw [List.length_append, List.length_drop, hlength]
      omega
    · rw [← h.bytes, Reader.window]
      dsimp only
      rw [List.drop_zero, Nat.sub_zero, ← hlength, List.take_left]
  · rw [if_neg hpos]
    exact h

theorem compact_start (rd : Reader) : rd.compact.start = 0 := by
  rw [Reader.compact]
  split
  · rfl
  · omega

theorem compact_r (rd : Reader) : rd.compact.r = rd.r := by
  rw [Reader.compact]
  split <;> rfl

theorem compact_window (h : Holds c max rd stream) : rd.compact.window = rd.window := by
  have hbytes := (holds_compact h).bytes
  rw [compact_r, ← h.bytes] at hbytes
  exact List.append_cancel_right hbytes

/-- The new length lies within the bound and leaves room behind the pending bytes. -/
theorem growTo_spec (hmax : 1 ≤ max) (hint : max + 4096 ≤ maxInt) (h : Holds c max rd stream)
    (hstop : rd.stop = 0 ∨ (rd.stop : Int) < max) :
    (rd.stop : Int) < rd.growTo ∧ rd.growTo ≤ max + 4096 := by
  have hlimit : wrap64 (max + 4096) = max + 4096 := by
    rw [maxInt] at hint
    exact wrap64_of_range (by omega) (by omega)
  have hle := h.stop_le
  rw [Reader.growTo, h.max_eq, hlimit]
  split <;> split <;> omega

theorem grow_spec (hmax : 1 ≤ max) (hint : max + 4096 ≤ maxInt) (h : Holds c max rd stream)
    (hstart : rd.start = 0) (hstop : rd.stop = 0 ∨ (rd.stop : Int) < max) :
    ∃ grown, rd.grow.outcome = .ok grown ∧ Holds c max grown stream ∧
      grown.stop < grown.buf.length ∧ grown.r = rd.r := by
  have hle := h.stop_le
  rw [Reader.grow]
  by_cases hroom : (rd.buf.length : Int) - rd.stop < 4096
  · obtain ⟨hlow, hhigh⟩ := growTo_spec hmax hint h hstop
    generalize rd.growTo = size at hlow hhigh
    obtain ⟨length, rfl⟩ : ∃ length : Nat, size = length := ⟨size.toNat, by omega⟩
    have hpending : (rd.buf.take rd.stop).length = rd.stop := by
      rw [List.length_take]
      omega
    have hmake : (Run.make 1 (length : Int) : SizeRun Unit).outcome = .ok () := by
      rw [Run.make_of_le (Run.bytes_fit (by omega))]
    have hslice : (Run.slice rd.buf 0 rd.stop : SizeRun Bytes) = pure (rd.buf.take rd.stop) :=
      Run.slice_of_le (Nat.zero_le _) hle
    have hcopied : (rd.buf.take rd.stop).take length = rd.buf.take rd.stop := by
      rw [List.take_take, Nat.min_eq_right (by omega)]
    refine ⟨{ rd with
      buf := rd.buf.take rd.stop ++ List.replicate (length - rd.stop) 0 }, ?_, ?_, ?_, rfl⟩
    · rw [if_pos hroom]
      refine Run.bind_outcome_ok.mpr ⟨(), hmake, ?_⟩
      rw [hslice, pure_bind, Int.toNat_natCast, hcopied]
      dsimp only
      rw [hpending]
      rfl
    · have hlength : (rd.buf.take rd.stop ++ List.replicate (length - rd.stop) (0 : UInt8)).length =
          length := by
        rw [List.length_append, hpending, List.length_replicate]
        omega
      refine ⟨h.class_eq, h.max_eq, h.start_le, ?_, ?_, ?_, h.ended, h.offered⟩
      · dsimp only
        omega
      · dsimp only
        omega
      · rw [← h.bytes, Reader.window, Reader.window, hstart]
        dsimp only
        rw [Nat.sub_zero, List.drop_zero, List.drop_zero, List.take_append_of_le_length (by omega),
          List.take_take, Nat.min_self]
    · dsimp only
      rw [List.length_append, hpending, List.length_replicate]
      omega
  · refine ⟨rd, ?_, h, by omega, rfl⟩
    rw [if_neg hroom]
    rfl

theorem fill_r (rd : Reader) : rd.fill.2.r = (rd.r.read (rd.buf.length - rd.stop)).2 := rfl

theorem holds_fill (h : Holds c max rd stream) (hroom : rd.stop < rd.buf.length) :
    Holds c max rd.fill.2 stream := by
  have hread := Source.read_append rd.r (rd.buf.length - rd.stop)
  have hfits := Source.length_read_le rd.r (rd.buf.length - rd.stop)
  have hended := Source.ended_read rd.r (rd.buf.length - rd.stop)
  have hremaining : (rd.r.read (rd.buf.length - rd.stop)).1.2 = true →
      (rd.r.read (rd.buf.length - rd.stop)).2.remaining = [] := Source.remaining_of_eof h.ended
  have hstart := h.start_le
  rw [Reader.fill]
  generalize rd.r.read (rd.buf.length - rd.stop) = result at *
  obtain ⟨⟨bytes, eof⟩, r⟩ := result
  dsimp only at *
  have hlength : (rd.buf.take rd.stop ++ bytes ++ rd.buf.drop (rd.stop + bytes.length)).length =
      rd.buf.length := by
    rw [List.length_append, List.length_append, List.length_take, List.length_drop]
    omega
  refine ⟨h.class_eq, h.max_eq, ?_, ?_, ?_, ?_, ?_, ?_⟩
  · dsimp only
    omega
  · dsimp only
    omega
  · have := h.length_le
    dsimp only
    omega
  · have htake : (rd.buf.take rd.stop).length = rd.stop := by
      rw [List.length_take]
      omega
    have hwindow : (rd.buf.take rd.stop).drop rd.start = rd.window := by
      rw [Reader.window, List.take_drop, Nat.add_sub_cancel' hstart]
    have hnew : rd.stop + bytes.length - rd.start = (rd.window ++ bytes).length := by
      rw [List.length_append, h.length_window]
      omega
    rw [← h.bytes, ← hread, Reader.window]
    dsimp only
    rw [List.append_assoc (rd.buf.take rd.stop), List.drop_append_of_le_length (by omega), hwindow,
      ← List.append_assoc, hnew, List.take_left, List.append_assoc]
  · intro hend
    exact hremaining (hended ▸ hend)
  · intro space hspace
    rcases List.mem_append.mp hspace with hold | hnew
    · exact h.offered space hold
    · rw [List.mem_singleton.mp hnew]
      omega

/-- A round on a window that ends inside an object reads. -/
theorem round_of_short (hmax : 1 ≤ max) (hint : max + 4096 ≤ maxInt) (h : Holds c max rd stream)
    (hwindow : rd.window = [] ∨
      (size c rd.window).outcome = .fail .short ∧ (rd.window.length : Int) < max) :
    ∃ eof filled, rd.round = (if eof then filled.atEOF else none, filled) ∧
      Holds c max filled stream ∧ (eof = true → filled.r.remaining = []) ∧
        filled.weight ≤ rd.weight ∧ (eof = false → filled.weight < rd.weight) := by
  have hcompact := holds_compact h
  have hstart := compact_start rd
  have hlength := hcompact.length_window
  have hstop : rd.compact.stop = 0 ∨ (rd.compact.stop : Int) < max := by
    rw [compact_window h, hstart] at hlength
    rcases hwindow with hnil | ⟨-, hlt⟩
    · rw [hnil, List.length_nil] at hlength
      omega
    · omega
  obtain ⟨grown, hgrow, hgrown, hroom, hr⟩ := grow_spec hmax hint hcompact hstart hstop
  have hfilled := holds_fill hgrown hroom
  rw [compact_r] at hr
  refine ⟨grown.fill.1, grown.fill.2, ?_, hfilled, ?_, ?_, ?_⟩
  · rw [Reader.round, parse_of_short h hwindow, hgrow]
    dsimp only
    rw [if_neg (by omega)]
    cases grown.fill.1 <;> rfl
  · intro heof
    rw [fill_r]
    exact Source.remaining_of_eof hgrown.ended heof
  · have hbytes := congrArg List.length (Source.read_append grown.r (grown.buf.length - grown.stop))
    have hscript := Source.script_read_le grown.r (grown.buf.length - grown.stop)
    rw [List.length_append] at hbytes
    rw [Reader.weight, Reader.weight, fill_r, ← hr]
    omega
  · intro heof
    rw [Reader.weight, Reader.weight, fill_r, ← hr]
    exact Source.read_progress (by omega) heof

end

/-! ## Whole calls -/

/-- An object of the class, as its own size function measures it, that the reader may return. -/
structure Whole (c : Class) (max : Int) (object : Bytes) : Prop where
  size_eq : (size c object).outcome = .ok object.length
  length_le : (object.length : Int) ≤ max

section

variable {c : Class} {max : Int} {object cut : Bytes}

theorem Whole.pos (hc : c.Registered) (h : Whole c max object) : 0 < object.length := by
  rw [List.length_pos_iff]
  intro hnil
  have hsize := h.size_eq
  rw [hnil, size_nil hc] at hsize
  cases hsize

/-- A window that is a strict cut of an object calls for more bytes. -/
theorem Whole.short (hc : c.Registered) (h : Whole c max object) (hcut : cut <+: object)
    (hlt : cut.length < object.length) :
    cut = [] ∨ (size c cut).outcome = .fail .short ∧ (cut.length : Int) < max := by
  have := h.length_le
  exact Or.inr ⟨(size_delimits hc).short_of_isPrefix h.size_eq hcut hlt, by omega⟩

theorem next_object (hc : c.Registered) (hmax : 1 ≤ max) (hint : max + 4096 ≤ maxInt)
    (hobject : Whole c max object) {rest : Bytes} :
    ∀ {fuel : Nat} {rd : Reader}, Holds c max rd (object ++ rest) → rd.weight + 2 ≤ fuel →
      ∃ rd', rd.next fuel = some (.ok object, rd') ∧ Holds c max rd' rest ∧
        rd'.weight ≤ rd.weight := by
  have hready : ∀ (fuel : Nat) {rd : Reader}, Holds c max rd (object ++ rest) →
      object.length ≤ rd.window.length → ∃ rd', rd.next (fuel + 1) = some (.ok object, rd') ∧
        Holds c max rd' rest ∧ rd'.weight ≤ rd.weight := by
    intro fuel rd h hle
    have hwindow : rd.window = object ++ rd.window.drop object.length := by
      have htake := congrArg (List.take object.length) h.bytes
      rw [List.take_append_of_le_length hle, List.take_left] at htake
      conv_lhs => rw [← List.take_append_drop object.length rd.window, htake]
    have hsize : (size c rd.window).outcome = .ok object.length := by
      rw [hwindow]
      exact (size_delimits hc).append hobject.size_eq _
    obtain ⟨hparse, hrest⟩ := parse_of_whole h hsize rfl (hobject.pos hc) hle
    refine ⟨_, ?_, hrest, Nat.le_refl _⟩
    rw [Reader.next, Reader.round, hparse]
  intro fuel
  -- each round that does not end the call uses up some of the reads that are left
  induction fuel with
  | zero =>
      intro rd h hfuel
      omega
  | succ fuel ih =>
      intro rd h hfuel
      by_cases hle : object.length ≤ rd.window.length
      · exact hready fuel h hle
      have hcut : rd.window <+: object :=
        List.prefix_of_prefix_length_le h.window_isPrefix (List.prefix_append _ _) (by omega)
      obtain ⟨eof, filled, hround, hfilled, heof, hweight, hprogress⟩ :=
        round_of_short hmax hint h (hobject.short hc hcut (by omega))
      cases eof with
      | false =>
          obtain ⟨rd', hnext, hrest, hle'⟩ := ih hfilled (by have := hprogress rfl; omega)
          refine ⟨rd', ?_, hrest, by omega⟩
          rw [Reader.next, hround]
          exact hnext
      | true =>
          have hall : filled.window = object ++ rest := by
            have hbytes := hfilled.bytes
            rwa [heof rfl, List.append_nil] at hbytes
          have hlong : object.length ≤ filled.window.length := by
            rw [hall, List.length_append]
            omega
          have hagain : filled.atEOF = none := by
            have hlength := hfilled.length_window
            have hpos := hobject.pos hc
            rw [Reader.atEOF, if_neg (by omega), hfilled.windowSize, hall,
              (size_delimits hc).append hobject.size_eq]
          obtain ⟨fuel, rfl⟩ : ∃ fuel', fuel = fuel' + 1 := ⟨fuel - 1, by omega⟩
          obtain ⟨rd', hnext, hrest, hle'⟩ := hready fuel hfilled hlong
          refine ⟨rd', ?_, hrest, by omega⟩
          rw [Reader.next, hround, if_pos rfl, hagain]
          exact hnext

/-- What a stream may end with: nothing, or an object that is cut off. -/
def Tail (c : Class) (max : Int) (tail : Bytes) : Prop :=
  tail = [] ∨ tail ≠ [] ∧ ∃ object, Whole c max object ∧ tail <+: object ∧ tail ≠ object

def streamEnd (tail : Bytes) : NextError := if tail = [] then .eof else .unexpectedEOF

theorem Tail.short (hc : c.Registered) {tail : Bytes} (h : Tail c max tail)
    (hcut : cut <+: tail) :
    cut = [] ∨ (size c cut).outcome = .fail .short ∧ (cut.length : Int) < max := by
  rcases h with rfl | ⟨-, object, hobject, htail, hne⟩
  · exact Or.inl (List.prefix_nil.mp hcut)
  · apply hobject.short hc (hcut.trans htail)
    have hlt : tail.length < object.length := by
      rcases Nat.lt_or_ge tail.length object.length with hlt | hge
      · exact hlt
      · exact absurd (htail.eq_of_length_le hge) hne
    exact hcut.length_le.trans_lt hlt

theorem atEOF_of_tail (hc : c.Registered) {tail : Bytes} (htail : Tail c max tail) {rd : Reader}
    (h : Holds c max rd tail) (hwindow : rd.window = tail) :
    rd.atEOF = some (.fail (streamEnd tail)) := by
  have hlength := h.length_window
  have hstart := h.start_le
  rw [hwindow] at hlength
  rw [Reader.atEOF, streamEnd]
  by_cases hnil : tail = []
  · rw [hnil, List.length_nil] at hlength
    rw [if_pos (by omega), if_pos hnil]
  · have hpos := List.length_pos_iff.mpr hnil
    rw [if_neg (by omega), if_neg hnil, h.windowSize, hwindow]
    rcases htail.short hc (List.prefix_refl tail) with hnil' | ⟨hshort, -⟩
    · exact absurd hnil' hnil
    · rw [hshort]

theorem next_tail (hc : c.Registered) (hmax : 1 ≤ max) (hint : max + 4096 ≤ maxInt)
    {tail : Bytes} (htail : Tail c max tail) :
    ∀ {fuel : Nat} {rd : Reader}, Holds c max rd tail → rd.weight + 2 ≤ fuel →
      ∃ rd', rd.next fuel = some (.fail (streamEnd tail), rd') ∧ Holds c max rd' tail := by
  intro fuel
  induction fuel with
  | zero =>
      intro rd h hfuel
      omega
  | succ fuel ih =>
      intro rd h hfuel
      obtain ⟨eof, filled, hround, hfilled, heof, hweight, hprogress⟩ :=
        round_of_short hmax hint h (htail.short hc h.window_isPrefix)
      cases eof with
      | false =>
          obtain ⟨rd', hnext, hholds⟩ := ih hfilled (by have := hprogress rfl; omega)
          refine ⟨rd', ?_, hholds⟩
          rw [Reader.next, hround]
          exact hnext
      | true =>
          have hall : filled.window = tail := by
            have hbytes := hfilled.bytes
            rwa [heof rfl, List.append_nil] at hbytes
          refine ⟨filled, ?_, hfilled⟩
          rw [Reader.next, hround, if_pos rfl, atEOF_of_tail hc htail hfilled hall]

theorem calls_spec (hc : c.Registered) (hmax : 1 ≤ max) (hint : max + 4096 ≤ maxInt)
    {tail : Bytes} (htail : Tail c max tail) {fuel : Nat} :
    ∀ {objects : List Bytes} {rd : Reader}, (∀ object ∈ objects, Whole c max object) →
      Holds c max rd (objects.flatten ++ tail) → rd.weight + 2 ≤ fuel →
        ∃ rd', rd.calls fuel (objects.length + 1) =
            some (objects.map .ok ++ [.fail (streamEnd tail)], rd') ∧
          Holds c max rd' tail := by
  intro objects
  induction objects with
  | nil =>
      intro rd _ h hfuel
      obtain ⟨rd', hnext, hrest⟩ := next_tail hc hmax hint htail h hfuel
      refine ⟨rd', ?_, hrest⟩
      rw [List.length_nil, Reader.calls, hnext]
      rfl
  | cons object objects ih =>
      intro rd hwhole h hfuel
      rw [List.flatten_cons, List.append_assoc] at h
      obtain ⟨rd₁, hnext, hrest, hweight⟩ :=
        next_object hc hmax hint (hwhole object List.mem_cons_self) h hfuel
      obtain ⟨rd', hcalls, htail'⟩ :=
        ih (fun o ho => hwhole o (List.mem_cons_of_mem _ ho)) hrest (by omega)
      refine ⟨rd', ?_, htail'⟩
      rw [List.length_cons, Reader.calls, hnext]
      simp only [Option.bind_eq_bind, Option.bind_some, hcalls]
      rfl

/-- A reader in front of the objects and the tail, as a caller sets it up. -/
def laneReader (c : Class) (max : Int) (objects : List Bytes) (tail : Bytes) (script : List Nat)
    (eofWithLast : Bool) : Reader :=
  let source : Source :=
    { remaining := objects.flatten ++ tail, script, eofWithLast, ended := false }
  (newReader source c).setMaxObject max

theorem holds_laneReader (hmax : 1 ≤ max) (objects : List Bytes) (tail : Bytes) (script : List Nat)
    (eofWithLast : Bool) :
    Holds c max (laneReader c max objects tail script eofWithLast) (objects.flatten ++ tail) := by
  refine ⟨rfl, rfl, Nat.le_refl _, Nat.le_refl _, ?_, rfl, ?_, ?_⟩
  · show (0 : Int) ≤ max + 4096
    omega
  · rintro ⟨⟩
  · rintro space ⟨⟩

/-- Successive calls return the objects and then the end of the stream, and every read is offered
room. -/
def Reassembles (c : Class) (max : Int) (objects : List Bytes) (tail : Bytes) (script : List Nat)
    (eofWithLast : Bool) : Prop :=
  ∃ enough, ∀ fuel, enough ≤ fuel → ∃ rd,
    (laneReader c max objects tail script eofWithLast).calls fuel (objects.length + 1) =
      some (objects.map .ok ++ [.fail (streamEnd tail)], rd) ∧ ∀ space ∈ rd.offered, 0 < space

theorem reassembles_of_bound (hc : c.Registered) (hmax : 1 ≤ max) (hint : max + 4096 ≤ maxInt)
    {objects : List Bytes} (hobjects : ∀ object ∈ objects, Whole c max object) {tail : Bytes}
    (htail : Tail c max tail) (script : List Nat) (eofWithLast : Bool) :
    Reassembles c max objects tail script eofWithLast := by
  refine ⟨(objects.flatten ++ tail).length + script.length + 2, ?_⟩
  intro fuel hfuel
  obtain ⟨rd, hcalls, hrest⟩ := calls_spec hc hmax hint htail hobjects
    (holds_laneReader hmax objects tail script eofWithLast) hfuel
  exact ⟨rd, hcalls, hrest.offered⟩

/-- A reader without a buffer has to make one before anything else. -/
theorem next_of_overflow {rd : Reader} (hbuf : rd.buf = []) (hstart : rd.start = 0)
    (hstop : rd.stop = 0) (hlow : maxInt < rd.max + 4096) (hhigh : rd.max ≤ maxInt) (fuel : Nat) :
    rd.next (fuel + 1) = some (.panic .makeLenOutOfRange, rd) := by
  have hlimit : wrap64 (rd.max + 4096) < 0 := by
    rw [maxInt] at hlow hhigh
    rw [wrap64]
    omega
  have hto : rd.growTo = wrap64 (rd.max + 4096) := by
    rw [Reader.growTo, hbuf]
    exact if_pos (hlimit.trans (by decide))
  have hcompact : rd.compact = rd := by
    rw [Reader.compact, if_neg (by omega)]
  have hgrow : rd.grow.outcome = .panic .makeLenOutOfRange := by
    rw [Reader.grow, hbuf, hstop, if_pos (by decide), hto, Run.make, if_neg (by omega),
      Run.panic_bind]
    rfl
  have hparse : rd.parse = none := by
    rw [Reader.parse, if_neg (by omega)]
  rw [Reader.next, Reader.round, hparse, hcompact, hgrow]

theorem calls_head {fuel count : Nat} {rd rd' rd'' : Reader} {outcome : NextOutcome}
    {outcomes : List NextOutcome} (hnext : rd.next fuel = some (outcome, rd'))
    (hcalls : rd.calls fuel (count + 1) = some (outcomes, rd'')) :
    outcomes.head? = some outcome := by
  rw [Reader.calls, hnext, Option.bind_eq_bind, Option.bind_some] at hcalls
  obtain ⟨⟨later, rd₂⟩, -, heq⟩ := Option.bind_eq_some_iff.mp hcalls
  rw [← (Prod.mk.inj (Option.some.inj heq)).1]
  rfl

theorem not_reassembles_of_overflow (hlow : maxInt < max + 4096) (hhigh : max ≤ maxInt)
    (objects : List Bytes) (tail : Bytes) (script : List Nat) (eofWithLast : Bool) :
    ¬ Reassembles c max objects tail script eofWithLast := by
  rintro ⟨enough, hreassembles⟩
  obtain ⟨rd, hcalls, -⟩ := hreassembles (enough + 1) (Nat.le_succ _)
  have hpanic : (laneReader c max objects tail script eofWithLast).next (enough + 1) =
      some (.panic .makeLenOutOfRange, laneReader c max objects tail script eofWithLast) :=
    next_of_overflow rfl rfl rfl hlow hhigh enough
  have hhead := calls_head hpanic hcalls
  cases objects <;> cases hhead

theorem reassembles_iff_bound (hc : c.Registered) (hmax : 1 ≤ max) (hint : max ≤ maxInt)
    {objects : List Bytes} (hobjects : ∀ object ∈ objects, Whole c max object) {tail : Bytes}
    (htail : Tail c max tail) (script : List Nat) (eofWithLast : Bool) :
    Reassembles c max objects tail script eofWithLast ↔ max + 4096 ≤ maxInt := by
  constructor
  · intro hreassembles
    by_contra hover
    exact not_reassembles_of_overflow (not_le.mp hover) hint _ _ _ _ hreassembles
  · intro hbound
    exact reassembles_of_bound hc hmax hbound hobjects htail script eofWithLast

theorem whole_blockHeader {max : Int} (hmax : 80 ≤ max) :
    Whole .blockHeader max (List.replicate 80 0) := ⟨by decide, by simpa using hmax⟩

theorem reassembles_one_header :
    Reassembles .blockHeader 80 [List.replicate 80 0] [0] [3, 0, 200] true := by
  have hwhole : Whole .blockHeader 80 (List.replicate 80 0) := whole_blockHeader (by decide)
  refine (reassembles_iff_bound ?_ (by decide) (by decide) ?_ ?_ _ _).mpr (by decide)
  · intro value h
    cases h
  · intro object hobject
    rw [List.mem_singleton.mp hobject]
    exact hwhole
  · exact Or.inr ⟨by decide, _, hwhole, by decide, by decide⟩

theorem maxInt_bound_panics :
    Whole .blockHeader maxInt (List.replicate 80 0) ∧
      ((laneReader .blockHeader maxInt [List.replicate 80 0] [] [] false).next 1).map Prod.fst =
        some (.panic .makeLenOutOfRange) ∧
      ¬ Reassembles .blockHeader maxInt [List.replicate 80 0] [] [] false := by
  refine ⟨whole_blockHeader (by decide), ?_, not_reassembles_of_overflow (by decide) (by decide) _ _ _ _⟩
  have hpanic : (laneReader .blockHeader maxInt [List.replicate 80 0] [] [] false).next 1 =
      some (.panic .makeLenOutOfRange, _) := next_of_overflow rfl rfl rfl (by decide) (by decide) 0
  rw [hpanic]
  rfl

end

end ShardCommon.Objfmt
