import ShardCommon.Proof.ObjectReader
import ShardCommon.Proof.SizeLaw

/-!
# Any stream

A lane may carry anything. A stream divides into objects within the bound and a rest that starts
with none. The objects are returned however the reads fall. If the rest shows within the bound what
is wrong with it, every call from then on says so. On a longer rest the answer depends on the reads:
the reader compares the window with the bound between reads only, so an object may exceed the bound
by up to the room of a read and still be returned.
-/

namespace ShardCommon.Objfmt

open Go ShardCommon.Frame

variable {c : Class} {max : Int} {rd : Reader} {stream object rest : Bytes}

/-! ## One call -/

/-- The bytes are an object, to the last one. -/
def Delimited (c : Class) (object : Bytes) : Prop := (size c object).outcome = .ok object.length

/-- The stream has not shown its first object, nor a fault, by the bound. -/
def Long (c : Class) (max : Int) (stream : Bytes) : Prop :=
  max ≤ stream.length ∧ (size c (stream.take max.toNat)).outcome = .fail .short

/-- What an error says of the stream in front of the reader. -/
inductive Blames (c : Class) (max : Int) (stream : Bytes) : NextError → Prop
  | eof (h : stream = []) : Blames c max stream .eof
  | cut (hne : stream ≠ []) (h : (size c stream).outcome = .fail .short) :
      Blames c max stream .unexpectedEOF
  | fault {error : ObjfmtError} (hne : error ≠ .short) (h : (size c stream).outcome = .fail error) :
      Blames c max stream (.objfmt error)
  | tooLarge (h : Long c max stream) : Blames c max stream (.objfmt (.objectTooLarge max))

/-- A call that returns the object in front, or an error. -/
inductive Returns (c : Class) (max : Int) (stream : Bytes) : NextOutcome → Reader → Prop
  | object {object rest : Bytes} {rd : Reader} (h : Delimited c object)
      (hlength : (object.length : Int) ≤ max + 4096) (hstream : stream = object ++ rest)
      (hrest : Holds c max rd rest) : Returns c max stream (.ok object) rd
  | error {e : NextError} {rd : Reader} (hblames : Blames c max stream e)
      (hholds : Holds c max rd stream)
      (hstays : ∀ error, e = .objfmt error → rd.parse = some (.fail e, rd)) :
      Returns c max stream (.fail e) rd

theorem size_isPrefix_short (hc : c.Registered) {cut whole : Bytes} (hcut : cut <+: whole)
    (h : (size c whole).outcome = .fail .short)
    (hpanics : ∀ cause, (size c cut).outcome ≠ .panic cause) :
    (size c cut).outcome = .fail .short := by
  obtain ⟨more, rfl⟩ := hcut
  have hsize := size_delimits hc
  cases hverdict : (size c cut).outcome with
  | ok n =>
      rw [hsize.ok_append hverdict more] at h
      cases h
  | panic cause => exact absurd hverdict (hpanics cause)
  | fail error =>
      by_cases herror : error = .short
      · rw [herror]
      · rw [hsize.error_append hverdict herror more] at h
        exact h

theorem Holds.window_length_le (h : Holds c max rd stream) :
    (rd.window.length : Int) ≤ max + 4096 := by
  have hlength := h.length_window
  have hstop := h.stop_le
  have hbuf := h.length_le
  omega

theorem Holds.neverPanics (hc : c.Registered) (hint : max + 4096 ≤ addressable)
    (h : Holds c max rd stream) {cut : Bytes} (hcut : cut <+: rd.window) (cause : Panic) :
    (size c cut).outcome ≠ .panic cause := by
  have hwindow := h.window_length_le
  have hlength := hcut.length_le
  exact neverPanics_size hc (by omega) cause

/-- A window that is no object and is short beyond the bound makes the stream a long one. -/
theorem long_of_window (hc : c.Registered) (hmax : 1 ≤ max) (hint : max + 4096 ≤ addressable)
    (h : Holds c max rd stream) (hshort : (size c rd.window).outcome = .fail .short)
    (hle : max ≤ rd.window.length) : Long c max stream := by
  have hwindow := h.window_isPrefix.length_le
  refine ⟨by omega, ?_⟩
  have htake : stream.take max.toNat <+: rd.window :=
    List.prefix_of_prefix_length_le (List.take_prefix _ _) h.window_isPrefix (by
      rw [List.length_take]
      omega)
  exact size_isPrefix_short hc htake hshort (h.neverPanics hc hint htake)

theorem parse_of_fault (h : Holds c max rd stream) (hne : rd.window ≠ []) {error : ObjfmtError}
    (herror : error ≠ .short) (hverdict : (size c rd.window).outcome = .fail error) :
    rd.parse = some (.fail (.objfmt error), rd) := by
  have hlength := h.length_window
  have hpos := List.length_pos_iff.mpr hne
  rw [Reader.parse, if_pos (by omega), h.windowSize, hverdict]
  cases error with
  | short => exact absurd rfl herror
  | _ => rfl

theorem parse_of_long (h : Holds c max rd stream) (hne : rd.window ≠ [])
    (hshort : (size c rd.window).outcome = .fail .short) (hle : max ≤ rd.window.length) :
    rd.parse = some (.fail (.objfmt (.objectTooLarge max)), rd) := by
  have hlength := h.length_window
  have hpos := List.length_pos_iff.mpr hne
  rw [Reader.parse, if_pos (by omega), h.windowSize, hshort, h.max_eq]
  dsimp only
  rw [if_pos (by omega)]

/-- An object at the front of the window is returned. -/
theorem returns_of_ok (hc : c.Registered) (h : Holds c max rd stream) {n : Nat}
    (hverdict : (size c rd.window).outcome = .ok n) :
    ∃ outcome rd', rd.parse = some (outcome, rd') ∧ Returns c max stream outcome rd' ∧
      rd'.weight = rd.weight := by
  obtain ⟨hle, htake⟩ := (size_delimits hc).take hverdict
  have hn : (rd.window.take n).length = n := List.length_take_of_le hle
  have hstream : stream = rd.window.take n ++ (rd.window.drop n ++ rd.r.remaining) := by
    rw [← List.append_assoc, List.take_append_drop]
    exact h.bytes.symm
  have hobject : (size c rd.window).outcome = .ok (rd.window.take n).length := by
    rw [hn]
    exact hverdict
  obtain ⟨hparse, hrest⟩ := parse_of_whole h hobject hstream
    (by rw [hn]; exact size_pos hc hverdict) (by rw [hn]; exact hle)
  have hwindow := h.window_length_le
  refine ⟨_, _, hparse, .object ?_ (by omega) hstream hrest, rfl⟩
  rw [Delimited, hn]
  exact htake

/-- A call that does not have to read returns what the window says. -/
theorem returns_of_parse (hc : c.Registered) (hmax : 1 ≤ max) (hint : max + 4096 ≤ addressable)
    (h : Holds c max rd stream)
    (hready : ¬ (rd.window = [] ∨
      (size c rd.window).outcome = .fail .short ∧ (rd.window.length : Int) < max)) :
    ∃ outcome rd', rd.parse = some (outcome, rd') ∧ Returns c max stream outcome rd' ∧
      rd'.weight = rd.weight := by
  obtain ⟨hne, hready⟩ := not_or.mp hready
  cases hverdict : (size c rd.window).outcome with
  | panic cause => exact absurd hverdict (h.neverPanics hc hint (List.prefix_refl _) cause)
  | ok n => exact returns_of_ok hc h hverdict
  | fail error =>
      by_cases herror : error = .short
      · subst herror
        have hle : max ≤ rd.window.length := by
          by_contra hlt
          exact hready ⟨hverdict, by omega⟩
        have hparse := parse_of_long h hne hverdict hle
        have hlong := long_of_window hc hmax hint h hverdict hle
        exact ⟨_, rd, hparse, .error (.tooLarge hlong) h fun _ _ => hparse, rfl⟩
      · have hparse := parse_of_fault h hne herror hverdict
        have hall : (size c stream).outcome = .fail error := by
          rw [← h.bytes]
          exact (size_delimits hc).error_append hverdict herror _
        exact ⟨_, rd, hparse, .error (.fault herror hall) h fun _ _ => hparse, rfl⟩

/-- The end of the stream: the round goes on only if an object came with it. -/
theorem atEOF_spec (hc : c.Registered) (hint : max + 4096 ≤ addressable)
    (h : Holds c max rd stream) (hall : rd.window = stream) :
    (rd.atEOF = none ∧ ∃ n, (size c rd.window).outcome = .ok n) ∨
      ∃ e, rd.atEOF = some (.fail e) ∧ Returns c max stream (.fail e) rd := by
  have hlength := h.length_window
  have hstart := h.start_le
  rw [Reader.atEOF]
  by_cases hnil : rd.window = []
  · rw [hnil, List.length_nil] at hlength
    refine Or.inr ⟨.eof, if_pos (by omega), .error (.eof (hall ▸ hnil)) h ?_⟩
    rintro error ⟨⟩
  have hpos := List.length_pos_iff.mpr hnil
  rw [if_neg (by omega), h.windowSize]
  cases hverdict : (size c rd.window).outcome with
  | ok n => exact Or.inl ⟨rfl, n, rfl⟩
  | panic cause => exact absurd hverdict (h.neverPanics hc hint (List.prefix_refl _) cause)
  | fail error =>
      refine Or.inr ?_
      by_cases herror : error = .short
      · subst herror
        refine ⟨.unexpectedEOF, rfl, .error (.cut (hall ▸ hnil) (hall ▸ hverdict)) h ?_⟩
        rintro error ⟨⟩
      · refine ⟨.objfmt error, ?_, .error (.fault herror (hall ▸ hverdict)) h fun _ _ =>
          parse_of_fault h hnil herror hverdict⟩
        cases error with
        | short => exact absurd rfl herror
        | _ => rfl

theorem next_of_parse {fuel : Nat} {outcome : NextOutcome} {rd' : Reader}
    (h : rd.parse = some (outcome, rd')) : rd.next (fuel + 1) = some (outcome, rd') := by
  rw [Reader.next, Reader.round, h]

/-- With any stream in front of the reader a call returns, and says what is there. -/
theorem next_returns (hc : c.Registered) (hmax : 1 ≤ max) (hint : max + 4096 ≤ addressable) :
    ∀ {fuel : Nat} {rd : Reader}, Holds c max rd stream → rd.weight + 2 ≤ fuel →
      ∃ outcome rd', rd.next fuel = some (outcome, rd') ∧ Returns c max stream outcome rd' ∧
        rd'.weight ≤ rd.weight := by
  have hmaxInt : max + 4096 ≤ maxInt := hint.trans (by decide)
  intro fuel
  -- as for a whole object: a round that does not return uses up some of the reads that are left
  induction fuel with
  | zero =>
      intro rd h hfuel
      omega
  | succ fuel ih =>
      intro rd h hfuel
      by_cases hread : rd.window = [] ∨
          (size c rd.window).outcome = .fail .short ∧ (rd.window.length : Int) < max
      · obtain ⟨eof, filled, hround, hfilled, heof, hweight, hprogress⟩ :=
          round_of_short hmax hmaxInt h hread
        cases eof with
        | false =>
            obtain ⟨outcome, rd', hnext, hreturns, hle⟩ :=
              ih hfilled (by have := hprogress rfl; omega)
            refine ⟨outcome, rd', ?_, hreturns, by omega⟩
            rw [Reader.next, hround]
            exact hnext
        | true =>
            have hall : filled.window = stream := by
              have hbytes := hfilled.bytes
              rwa [heof rfl, List.append_nil] at hbytes
            rcases atEOF_spec hc hint hfilled hall with ⟨hagain, n, hok⟩ | ⟨e, hend, hreturns⟩
            · obtain ⟨outcome, rd', hparse, hreturns, hsame⟩ := returns_of_ok hc hfilled hok
              obtain ⟨fuel, rfl⟩ : ∃ fuel', fuel = fuel' + 1 := ⟨fuel - 1, by omega⟩
              refine ⟨outcome, rd', ?_, hreturns, by omega⟩
              rw [Reader.next, hround, if_pos rfl, hagain]
              exact next_of_parse hparse
            · refine ⟨.fail e, filled, ?_, hreturns, hweight⟩
              rw [Reader.next, hround, if_pos rfl, hend]
      · obtain ⟨outcome, rd', hparse, hreturns, hsame⟩ := returns_of_parse hc hmax hint h hread
        exact ⟨outcome, rd', next_of_parse hparse, hreturns, by omega⟩

/-! ## What the calls return -/

/-- No later call returns an object: the stream starts with none, or the error stays in front. -/
def Refuses (c : Class) (max : Int) (rd : Reader) (stream : Bytes) : Prop :=
  Holds c max rd stream ∧ ((∀ n, (size c stream).outcome ≠ .ok n) ∨
    ∃ e, Blames c max stream e ∧ rd.parse = some (.fail e, rd))

theorem Blames.refuses (hc : c.Registered) {e : NextError} (h : Blames c max stream e)
    (hholds : Holds c max rd stream)
    (hstays : ∀ error, e = .objfmt error → rd.parse = some (.fail e, rd)) :
    Refuses c max rd stream := by
  refine ⟨hholds, ?_⟩
  cases h with
  | eof hnil =>
      refine Or.inl fun n => ?_
      rw [hnil, size_nil hc]
      rintro ⟨⟩
  | cut hne hshort =>
      refine Or.inl fun n => ?_
      rw [hshort]
      rintro ⟨⟩
  | fault hne hfault => exact Or.inr ⟨_, .fault hne hfault, hstays _ rfl⟩
  | tooLarge hlong => exact Or.inr ⟨_, .tooLarge hlong, hstays _ rfl⟩

theorem next_of_refuses (hc : c.Registered) (hmax : 1 ≤ max) (hint : max + 4096 ≤ addressable)
    {fuel : Nat} (h : Refuses c max rd stream) (hfuel : rd.weight + 2 ≤ fuel) :
    ∃ e rd', rd.next fuel = some (.fail e, rd') ∧ Blames c max stream e ∧
      Refuses c max rd' stream ∧ rd'.weight ≤ rd.weight := by
  obtain ⟨hholds, hnone | ⟨e, hblames, hparse⟩⟩ := h
  · obtain ⟨outcome, rd', hnext, hreturns, hle⟩ := next_returns hc hmax hint hholds hfuel
    cases hreturns with
    | object hobject hlength hstream hrest =>
        rename_i object rest
        have hok := (size_delimits hc).ok_append hobject rest
        rw [← hstream] at hok
        exact absurd hok (hnone _)
    | error hblames hholds' hstays => exact ⟨_, rd', hnext, hblames, ⟨hholds', Or.inl hnone⟩, hle⟩
  · obtain ⟨fuel, rfl⟩ : ∃ fuel', fuel = fuel' + 1 := ⟨fuel - 1, by omega⟩
    exact ⟨e, rd, next_of_parse hparse, hblames, ⟨hholds, Or.inr ⟨e, hblames, hparse⟩⟩, Nat.le_refl _⟩

theorem calls_succ {fuel count : Nat} {rd' rd'' : Reader} {outcome : NextOutcome}
    {outcomes : List NextOutcome} (hnext : rd.next fuel = some (outcome, rd'))
    (hcalls : rd'.calls fuel count = some (outcomes, rd'')) :
    rd.calls fuel (count + 1) = some (outcome :: outcomes, rd'') := by
  rw [Reader.calls, hnext]
  simp only [Option.bind_eq_bind, Option.bind_some, hcalls]
  rfl

theorem calls_of_refuses (hc : c.Registered) (hmax : 1 ≤ max) (hint : max + 4096 ≤ addressable)
    {fuel : Nat} :
    ∀ {count : Nat} {rd : Reader}, Refuses c max rd stream → rd.weight + 2 ≤ fuel →
      ∃ (errors : List NextError) (rd' : Reader),
        rd.calls fuel count = some (errors.map .fail, rd') ∧
        errors.length = count ∧ (∀ e ∈ errors, Blames c max stream e) ∧ Holds c max rd' stream := by
  intro count
  induction count with
  | zero =>
      intro rd h _
      refine ⟨[], rd, rfl, rfl, ?_, h.1⟩
      rintro e ⟨⟩
  | succ count ih =>
      intro rd h hfuel
      obtain ⟨e, rd₁, hnext, hblames, hrefuses, hweight⟩ := next_of_refuses hc hmax hint h hfuel
      obtain ⟨errors, rd', hcalls, hcount, hall, hholds⟩ := ih hrefuses (by omega)
      refine ⟨e :: errors, rd', calls_succ hnext hcalls, congrArg (· + 1) hcount, ?_, hholds⟩
      exact List.forall_mem_cons.mpr ⟨hblames, hall⟩

/-- Objects of the stream, in its order, and then errors about what is left of it. -/
structure Answers (c : Class) (max : Int) (stream : Bytes) (objects : List Bytes)
    (errors : List NextError) (rest : Bytes) : Prop where
  bytes : stream = objects.flatten ++ rest
  delimited : ∀ object ∈ objects, Delimited c object
  length_le : ∀ object ∈ objects, (object.length : Int) ≤ max + 4096
  blames : ∀ e ∈ errors, Blames c max rest e

theorem calls_answer (hc : c.Registered) (hmax : 1 ≤ max) (hint : max + 4096 ≤ addressable)
    {fuel : Nat} :
    ∀ {count : Nat} {rd : Reader} {stream : Bytes}, Holds c max rd stream → rd.weight + 2 ≤ fuel →
      ∃ (objects : List Bytes) (errors : List NextError) (rest : Bytes) (rd' : Reader),
        rd.calls fuel count = some (objects.map .ok ++ errors.map .fail, rd') ∧
        objects.length + errors.length = count ∧ Answers c max stream objects errors rest ∧
        Holds c max rd' rest := by
  intro count
  induction count with
  | zero =>
      intro rd stream h _
      refine ⟨[], [], stream, rd, rfl, rfl, ⟨rfl, ?_, ?_, ?_⟩, h⟩
      · rintro object ⟨⟩
      · rintro object ⟨⟩
      · rintro e ⟨⟩
  | succ count ih =>
      intro rd stream h hfuel
      obtain ⟨outcome, rd₁, hnext, hreturns, hweight⟩ := next_returns hc hmax hint h hfuel
      cases hreturns with
      | object hobject hlength hstream hrest =>
          rename_i object rest₁
          obtain ⟨objects, errors, rest, rd', hcalls, hcount, hanswers, hholds⟩ :=
            ih hrest (by omega)
          refine ⟨object :: objects, errors, rest, rd', calls_succ hnext hcalls, ?_, ?_, hholds⟩
          · rw [List.length_cons]
            omega
          · refine ⟨?_, List.forall_mem_cons.mpr ⟨hobject, hanswers.delimited⟩,
              List.forall_mem_cons.mpr ⟨hlength, hanswers.length_le⟩, hanswers.blames⟩
            rw [hstream, hanswers.bytes, List.flatten_cons, List.append_assoc]
      | error hblames hholds hstays =>
          rename_i e
          have hrefuses := hblames.refuses hc hholds hstays
          obtain ⟨errors, rd', hcalls, hcount, hall, hholds'⟩ :=
            @calls_of_refuses c max stream hc hmax hint fuel count rd₁ hrefuses (by omega)
          refine ⟨[], e :: errors, stream, rd', calls_succ hnext hcalls, ?_, ⟨rfl, ?_, ?_, ?_⟩,
            hholds'⟩
          · rw [List.length_nil, List.length_cons]
            omega
          · rintro object ⟨⟩
          · rintro object ⟨⟩
          · exact List.forall_mem_cons.mpr ⟨hblames, hall⟩

theorem calls_objects (hc : c.Registered) (hmax : 1 ≤ max) (hint : max + 4096 ≤ maxInt)
    {fuel count : Nat} {P : List NextOutcome → Reader → Prop}
    (hrest : ∀ {rd : Reader}, Holds c max rd rest → rd.weight + 2 ≤ fuel →
      ∃ later rd', rd.calls fuel count = some (later, rd') ∧ P later rd') :
    ∀ {objects : List Bytes} {rd : Reader}, (∀ object ∈ objects, Whole c max object) →
      Holds c max rd (objects.flatten ++ rest) → rd.weight + 2 ≤ fuel →
        ∃ later rd', rd.calls fuel (objects.length + count) =
          some (objects.map .ok ++ later, rd') ∧ P later rd' := by
  intro objects
  induction objects with
  | nil =>
      intro rd _ h hfuel
      rw [List.length_nil, Nat.zero_add]
      exact hrest h hfuel
  | cons object objects ih =>
      intro rd hwhole h hfuel
      rw [List.flatten_cons, List.append_assoc] at h
      obtain ⟨hobject, hobjects⟩ := List.forall_mem_cons.mp hwhole
      obtain ⟨rd₁, hnext, hholds, hweight⟩ := next_object hc hmax hint hobject h hfuel
      obtain ⟨later, rd', hcalls, hlater⟩ := ih hobjects hholds (by omega)
      refine ⟨later, rd', ?_, hlater⟩
      rw [List.length_cons, Nat.add_right_comm]
      exact calls_succ hnext hcalls

/-! ## The division of a stream -/

/-- The objects within the bound at the front of the stream, as many as there are. -/
structure Division (c : Class) (max : Int) (stream : Bytes) (objects : List Bytes) (rest : Bytes) :
    Prop where
  bytes : stream = objects.flatten ++ rest
  whole : ∀ object ∈ objects, Whole c max object
  stuck : ∀ object, Whole c max object → ¬ object <+: rest

theorem exists_division (hc : c.Registered) (max : Int) (stream : Bytes) :
    ∃ objects rest, Division c max stream objects rest := by
  induction hlength : stream.length using Nat.strong_induction_on generalizing stream with
  | h length ih =>
      by_cases hfront : ∃ object, Whole c max object ∧ object <+: stream
      · obtain ⟨object, hobject, tail, rfl⟩ := hfront
        have hpos := hobject.pos hc
        rw [List.length_append] at hlength
        obtain ⟨objects, rest, hdivision⟩ := ih tail.length (by omega) tail rfl
        refine ⟨object :: objects, rest, ?_, ?_, hdivision.stuck⟩
        · rw [List.flatten_cons, List.append_assoc, ← hdivision.bytes]
        · exact List.forall_mem_cons.mpr ⟨hobject, hdivision.whole⟩
      · refine ⟨[], stream, rfl, ?_, fun object hobject hcut => hfront ⟨object, hobject, hcut⟩⟩
        rintro object ⟨⟩

theorem exists_blames (hc : c.Registered) (hmax : 1 ≤ max) (hint : max + 4096 ≤ addressable)
    (hstuck : ∀ object, Whole c max object → ¬ object <+: rest) : ∃ e, Blames c max rest e := by
  by_cases hlong : Long c max rest
  · exact ⟨_, .tooLarge hlong⟩
  have hsize := size_delimits hc
  have hfront : rest.take max.toNat <+: rest := List.take_prefix _ _
  have hlength : (rest.take max.toNat).length ≤ max.toNat := List.length_take_le _ _
  cases hverdict : (size c (rest.take max.toNat)).outcome with
  | panic cause => exact absurd hverdict (neverPanics_size hc (by omega) cause)
  | ok n =>
      obtain ⟨hle, htake⟩ := hsize.take hverdict
      have hn : ((rest.take max.toNat).take n).length = n := List.length_take_of_le hle
      have hobject : Whole c max ((rest.take max.toNat).take n) := by
        refine ⟨?_, by omega⟩
        rw [hn]
        exact htake
      exact absurd ((List.take_prefix _ _).trans hfront) (hstuck _ hobject)
  | fail error =>
      by_cases herror : error = .short
      · subst herror
        have hlt : ¬ max ≤ rest.length := fun hle => hlong ⟨hle, hverdict⟩
        rw [List.take_of_length_le (by omega)] at hverdict
        by_cases hnil : rest = []
        · exact ⟨_, .eof hnil⟩
        · exact ⟨_, .cut hnil hverdict⟩
      · refine ⟨_, .fault herror ?_⟩
        have happend := hsize.error_append hverdict herror (rest.drop max.toNat)
        rwa [List.take_append_drop] at happend

theorem Blames.unique (hc : c.Registered) (hlong : ¬ Long c max stream) {e e' : NextError}
    (h : Blames c max stream e) (h' : Blames c max stream e') : e = e' := by
  have hnil := size_nil hc
  -- the size of the stream tells the cases apart, and the empty stream is a short one
  cases h <;> cases h' <;> grind

/-- Only a long rest starts with an object. -/
theorem long_of_object (hc : c.Registered) (hmax : 1 ≤ max)
    (hstuck : ∀ object, Whole c max object → ¬ object <+: rest) (hobject : Delimited c object)
    (hcut : object <+: rest) : Long c max rest := by
  have hlt : max < object.length := by
    by_contra hle
    exact hstuck object ⟨hobject, by omega⟩ hcut
  have hlength := hcut.length_le
  refine ⟨by omega, ?_⟩
  have htake : rest.take max.toNat <+: object :=
    List.prefix_of_prefix_length_le (List.take_prefix _ _) hcut (by
      rw [List.length_take]
      omega)
  exact (size_delimits hc).short_of_isPrefix hobject htake (by
    rw [List.length_take]
    omega)

theorem Answers.errors_eq (hc : c.Registered) (hmax : 1 ≤ max)
    (hstuck : ∀ object, Whole c max object → ¬ object <+: rest) {e : NextError}
    (hblames : Blames c max rest e) {more : List Bytes} {errors : List NextError} {left : Bytes}
    (h : Answers c max rest more errors left) (hlong : ¬ Long c max rest) :
    more = [] ∧ errors = List.replicate errors.length e := by
  have hmore : more = [] := by
    cases more with
    | nil => rfl
    | cons object more =>
        refine absurd (long_of_object hc hmax hstuck (h.delimited _ List.mem_cons_self) ?_) hlong
        rw [h.bytes, List.flatten_cons, List.append_assoc]
        exact List.prefix_append _ _
  refine ⟨hmore, List.eq_replicate_iff.mpr ⟨rfl, fun e' he' => ?_⟩⟩
  have hleft : rest = left := by
    have hbytes := h.bytes
    rwa [hmore, List.flatten_nil, List.nil_append] at hbytes
  have hblames' := h.blames e' he'
  rw [← hleft] at hblames'
  exact hblames'.unique hc hlong hblames

/-- However the source cuts the stream and however often `Next` is called, the buffer stays within
the bound and the room of a read, and every read is offered room. -/
def StaysWithin (c : Class) (max : Int) (stream : Bytes) : Prop :=
  ∀ (script : List Nat) (eofWithLast : Bool) (count fuel : Nat),
    stream.length + script.length + 2 ≤ fuel →
      ∃ (outcomes : List NextOutcome) (rd : Reader),
        (laneReader c max [] stream script eofWithLast).calls fuel count = some (outcomes, rd) ∧
        (rd.buf.length : Int) ≤ max + 4096 ∧ ∀ space ∈ rd.offered, 0 < space

theorem staysWithin (hc : c.Registered) (hmax : 1 ≤ max) (hint : max + 4096 ≤ addressable)
    (stream : Bytes) : StaysWithin c max stream := by
  intro script eofWithLast count fuel hfuel
  obtain ⟨objects, errors, rest, rd, hcalls, -, -, hholds⟩ := @calls_answer c max hc hmax hint fuel count
    _ _ (holds_laneReader hmax [] stream script eofWithLast) hfuel
  exact ⟨_, rd, hcalls, hholds.length_le, hholds.offered⟩

/-- However the source cuts the stream, the calls return the objects and then the error for good. A
long rest may give more objects before its errors. -/
def Answered (c : Class) (max : Int) (stream : Bytes) (objects : List Bytes) (rest : Bytes)
    (e : NextError) : Prop :=
  ∀ (script : List Nat) (eofWithLast : Bool) (count fuel : Nat),
    stream.length + script.length + 2 ≤ fuel →
      ∃ (more : List Bytes) (errors : List NextError) (left : Bytes) (rd : Reader),
        (laneReader c max [] stream script eofWithLast).calls fuel (objects.length + count) =
          some (objects.map .ok ++ (more.map .ok ++ errors.map .fail), rd) ∧
        more.length + errors.length = count ∧ Answers c max rest more errors left ∧
        (¬ Long c max rest → more = [] ∧ errors = List.replicate count e)

theorem answered_of_division (hc : c.Registered) (hmax : 1 ≤ max)
    (hint : max + 4096 ≤ addressable) {objects : List Bytes} {e : NextError}
    (h : Division c max stream objects rest) (hblames : Blames c max rest e) :
    Answered c max stream objects rest e := by
  intro script eofWithLast count fuel hfuel
  have hholds : Holds c max (laneReader c max [] stream script eofWithLast)
      (objects.flatten ++ rest) := h.bytes ▸ holds_laneReader hmax [] stream script eofWithLast
  have hrest : ∀ {rd : Reader}, Holds c max rd rest → rd.weight + 2 ≤ fuel →
      ∃ later rd', rd.calls fuel count = some (later, rd') ∧
        ∃ (more : List Bytes) (errors : List NextError) (left : Bytes),
          later = more.map .ok ++ errors.map .fail ∧ more.length + errors.length = count ∧
          Answers c max rest more errors left := by
    intro rd hrd hweight
    obtain ⟨more, errors, left, rd', hcalls, hcount, hanswers, -⟩ :=
      calls_answer hc hmax hint hrd hweight
    exact ⟨_, rd', hcalls, more, errors, left, rfl, hcount, hanswers⟩
  obtain ⟨later, rd, hcalls, more, errors, left, rfl, hcount, hanswers⟩ :=
    calls_objects hc hmax (hint.trans (by decide)) hrest h.whole hholds hfuel
  refine ⟨more, errors, left, rd, hcalls, hcount, hanswers, ?_⟩
  intro hlong
  obtain ⟨hmore, herrors⟩ := hanswers.errors_eq hc hmax h.stuck hblames hlong
  rw [hmore, List.length_nil, Nat.zero_add] at hcount
  rw [hcount] at herrors
  exact ⟨hmore, herrors⟩

theorem streams_answered (hc : c.Registered) (hmax : 1 ≤ max) (hint : max + 4096 ≤ addressable)
    (stream : Bytes) :
    StaysWithin c max stream ∧
      ∃ objects rest e, Division c max stream objects rest ∧ Blames c max rest e ∧
        Answered c max stream objects rest e := by
  refine ⟨staysWithin hc hmax hint stream, ?_⟩
  obtain ⟨objects, rest, hdivision⟩ := exists_division hc max stream
  obtain ⟨e, hblames⟩ := exists_blames hc hmax hint hdivision.stuck
  exact ⟨objects, rest, e, hdivision, hblames, answered_of_division hc hmax hint hdivision hblames⟩

/-- A header of eight times the bound is returned if it comes in one read, and too large if the first
read ends at the bound. -/
theorem streams_answered_oversized :
    (StaysWithin .blockHeader 10 (List.replicate 80 0) ∧
      ∃ objects rest e, Division .blockHeader 10 (List.replicate 80 0) objects rest ∧
        Blames .blockHeader 10 rest e ∧
          Answered .blockHeader 10 (List.replicate 80 0) objects rest e) ∧
    Long .blockHeader 10 (List.replicate 80 0) ∧
    ((laneReader .blockHeader 10 [] (List.replicate 80 0) [] false).next 2).map Prod.fst =
      some (.ok (List.replicate 80 0)) ∧
    ((laneReader .blockHeader 10 [] (List.replicate 80 0) [10] false).next 2).map Prod.fst =
      some (.fail (.objfmt (.objectTooLarge 10))) := by
  refine ⟨streams_answered ?_ (by decide) (by decide) _, ⟨by decide, by decide⟩, ?_, ?_⟩
  · rintro value ⟨⟩
  · decide +kernel
  · decide +kernel

end ShardCommon.Objfmt
