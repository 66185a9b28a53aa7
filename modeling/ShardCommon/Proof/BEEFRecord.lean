import ShardCommon.Lib.Recognizer
import ShardCommon.Multicast

/-!
# The grammar of submission records

A record is measured by one walk and decoded by another. Both accept exactly the buffers that have a
record in front, and no buffer makes them panic: a record is bounded by its length fields, so the
offsets stay small.
-/

namespace ShardCommon.Objfmt

open Go ShardCommon.Frame

/-- A name that its length byte can announce. -/
def TopicBounds (t : Bytes) : Prop := 1 ≤ t.length ∧ t.length ≤ beefMaxTopicLen

def topicLayout (t : Bytes) : Bytes := [UInt8.ofNat t.length] ++ t

def objectLayout (object : Bytes) : Bytes := putUint32 (UInt32.ofNat object.length) ++ object

namespace BEEFRecord

structure Valid (r : BEEFRecord) : Prop where
  count : 1 ≤ r.topics.length ∧ r.topics.length ≤ beefMaxTopics
  names : ∀ t ∈ r.topics, TopicBounds t
  object : 0 < r.object.length ∧ r.object.length < 2 ^ 32

def layout (r : BEEFRecord) : Bytes :=
  putUint16 beefRecordTag ++ ([beefRecordVer] ++ ([UInt8.ofNat r.topics.length] ++
    (r.topics.flatMap topicLayout ++ objectLayout r.object)))

end BEEFRecord

variable {buf : Bytes} {off next n : Nat} {r : BEEFRecord}

theorem length_topicLayout (t : Bytes) : (topicLayout t).length = 1 + t.length :=
  List.length_append

theorem length_objectLayout (object : Bytes) : (objectLayout object).length = 4 + object.length := by
  rw [objectLayout, List.length_append, length_putUint32]

theorem standsAt_topicLayout {t : Bytes} : StandsAt buf off (topicLayout t) ↔
    StandsAt buf off [UInt8.ofNat t.length] ∧ StandsAt buf (off + 1) t := standsAt_append_iff

theorem standsAt_objectLayout {object : Bytes} : StandsAt buf off (objectLayout object) ↔
    StandsAt buf off (putUint32 (UInt32.ofNat object.length)) ∧ StandsAt buf (off + 4) object := by
  rw [objectLayout, standsAt_append_iff, length_putUint32]

theorem length_topics_le {ts : List Bytes} (h : ∀ t ∈ ts, TopicBounds t) :
    (ts.flatMap topicLayout).length ≤ 65 * ts.length := by
  induction ts with
  | nil => exact Nat.zero_le _
  | cons t ts ih =>
      have ht := (h t List.mem_cons_self).2
      have hts := ih fun t ht => h t (List.mem_cons_of_mem _ ht)
      rw [beefMaxTopicLen] at ht
      rw [List.flatMap_cons, List.length_append, length_topicLayout, List.length_cons]
      omega

theorem length_layout (r : BEEFRecord) : r.layout.length =
    beefRecordMin + (r.topics.flatMap topicLayout).length + (objectLayout r.object).length := by
  simp only [BEEFRecord.layout, List.length_append, length_putUint16, List.length_singleton,
    beefRecordMin]
  omega

theorem standsAt_layout : StandsAt buf 0 r.layout ↔
    StandsAt buf 0 (putUint16 beefRecordTag) ∧ StandsAt buf 2 [beefRecordVer] ∧
      StandsAt buf 3 [UInt8.ofNat r.topics.length] ∧
      StandsAt buf beefRecordMin (r.topics.flatMap topicLayout) ∧
      StandsAt buf (beefRecordMin + (r.topics.flatMap topicLayout).length)
        (objectLayout r.object) := by
  simp only [BEEFRecord.layout, standsAt_append_iff, length_putUint16, List.length_singleton,
    Nat.zero_add, Nat.reduceAdd, beefRecordMin]

theorem length_layout_lt (h : r.Valid) : r.layout.length < 2 ^ 33 := by
  have htopics := length_topics_le h.names
  have hcount := h.count.2
  have hobject := h.object.2
  rw [beefMaxTopics] at hcount
  rw [length_layout, length_objectLayout, beefRecordMin]
  omega

/-! ## Measuring -/

theorem toNat_lengthByte {t : Bytes} (h : TopicBounds t) :
    (UInt8.ofNat t.length).toNat = t.length := by
  have hlen := h.2
  rw [beefMaxTopicLen] at hlen
  exact UInt8.toNat_ofNat_of_lt' (Nat.lt_of_le_of_lt hlen (by decide))

theorem toNat_objectLen {object : Bytes} (h : object.length < 2 ^ 32) :
    (UInt32.ofNat object.length).toNat = object.length := UInt32.toNat_ofNat_of_lt' h

theorem beefTopic_ok :
    (beefTopic buf off).outcome = .ok next ↔ ∃ t, TopicBounds t ∧ StandsAt buf off (topicLayout t) ∧
      next = off + (topicLayout t).length ∧ next < 2 ^ 63 := by
  simp only [beefTopic, Run.bind_outcome_ok, Run.add_outcome_ok, Run.failIf_outcome_ok, byteAt_ok,
    Run.pure_outcome, Outcome.ok.injEq, length_topicLayout, standsAt_topicLayout]
  constructor
  · rintro ⟨stop, ⟨-, rfl⟩, -, -, nameLen, hbyte, -, hbounds, next', ⟨hsum, rfl⟩, -, hreach, rfl⟩
    obtain ⟨t, hlen, ht⟩ := @exists_standsAt _ buf (off + 1) nameLen.toNat (by omega)
    have hname : UInt8.ofNat t.length = nameLen := by rw [hlen, UInt8.ofNat_toNat]
    refine ⟨t, ?_, ⟨hname ▸ hbyte, ht⟩, by rw [hlen], hsum⟩
    rw [TopicBounds, hlen]
    omega
  · rintro ⟨t, hbounds, ⟨hbyte, ht⟩, rfl, hlt⟩
    have hlen := toNat_lengthByte hbounds
    have hreach := ht.length_le
    refine ⟨off + 1, ⟨by omega, rfl⟩, (), by omega, _, hbyte, (), ?_, off + (1 + t.length),
      ⟨by rw [hlen]; exact hlt, by rw [hlen]⟩, (), by omega, rfl⟩
    rw [hlen]
    have := hbounds.1
    have := hbounds.2
    omega

theorem beefObjectSize_ok :
    (beefObjectSize buf off).outcome = .ok next ↔
      ∃ object : Bytes, (0 < object.length ∧ object.length < 2 ^ 32) ∧
        StandsAt buf off (objectLayout object) ∧ next = off + (objectLayout object).length ∧
        next < 2 ^ 63 := by
  simp only [beefObjectSize, Run.bind_outcome_ok, Run.add_outcome_ok, Run.failIf_outcome_ok,
    Run.pure_outcome, Outcome.ok.injEq, length_objectLayout, standsAt_objectLayout]
  constructor
  · rintro ⟨stop, ⟨-, rfl⟩, -, -, objLen, hlen, -, hpos, -, -, total, ⟨hsum, rfl⟩, -, hreach, rfl⟩
    obtain ⟨object, hlength, hobject⟩ := @exists_standsAt _ buf (off + 4) objLen.toNat (by omega)
    have hword : UInt32.ofNat object.length = objLen := by rw [hlength, UInt32.ofNat_toNat]
    have hzero : objLen.toNat ≠ 0 := fun h => hpos (UInt32.toNat_inj.mp h)
    refine ⟨object, ?_, ⟨hword ▸ (uint32At_ok rfl).mp hlen, hobject⟩, by rw [hlength]; omega, hsum⟩
    have := objLen.toNat_lt
    omega
  · rintro ⟨object, ⟨hpos, hlt⟩, ⟨hlen, hobject⟩, rfl, hlimit⟩
    have hword := toNat_objectLen hlt
    have hreach := hobject.length_le
    refine ⟨off + 4, ⟨by omega, rfl⟩, (), by omega, _, (uint32At_ok rfl).mpr hlen, (), ?_, (), ?_,
      off + 4 + object.length, ⟨by rw [hword]; omega, by rw [hword]⟩, (), by omega, by omega⟩
    · intro hzero
      rw [hzero] at hword
      exact absurd hword (Nat.ne_of_lt hpos)
    · rw [hword, mathMaxInt]
      omega

theorem reads_beefTopic :
    Reads mathMaxInt buf (fun t : { t // TopicBounds t } => topicLayout t.val) (beefTopic buf) where
  sound _ hstop := by
    obtain ⟨t, ht, hstands, rfl, -⟩ := beefTopic_ok.mp hstop
    exact ⟨⟨t, ht⟩, hstands, rfl⟩
  complete t hstands hlimit := by
    rw [mathMaxInt] at hlimit
    exact beefTopic_ok.mpr ⟨t.val, t.property, hstands, rfl, by omega⟩

theorem beefTopics_sound {count : Nat} (hoff : off ≤ buf.length)
    (h : (Run.iterate (beefTopic buf) count off).outcome = .ok next) :
    ∃ ts : List Bytes, ts.length = count ∧ (∀ t ∈ ts, TopicBounds t) ∧
      StandsAt buf off (ts.flatMap topicLayout) ∧ next = off + (ts.flatMap topicLayout).length := by
  obtain ⟨⟨ts, hcount⟩, hstands, hnext⟩ := (reads_beefTopic.iterate count).sound hoff h
  have hbytes : (ts.map Subtype.val).flatMap topicLayout = ts.flatMap fun t => topicLayout t.val :=
    List.flatMap_map ..
  refine ⟨ts.map Subtype.val, by rw [List.length_map, hcount], ?_, ?_⟩
  · intro t ht
    obtain ⟨t, -, rfl⟩ := List.mem_map.mp ht
    exact t.property
  · rw [hbytes]
    exact ⟨hstands, hnext⟩

theorem beefTopics_complete {ts : List Bytes} (hts : ∀ t ∈ ts, TopicBounds t)
    (h : StandsAt buf off (ts.flatMap topicLayout))
    (hlimit : off + (ts.flatMap topicLayout).length ≤ mathMaxInt) :
    (Run.iterate (beefTopic buf) ts.length off).outcome =
      .ok (off + (ts.flatMap topicLayout).length) := by
  have hbytes : ((ts.attachWith _ hts).flatMap fun t => topicLayout t.val) =
      ts.flatMap topicLayout := by
    rw [← List.flatMap_map, List.attachWith_map_subtype_val]
  rw [← hbytes] at h hlimit ⊢
  exact (reads_beefTopic.iterate ts.length).complete ⟨_, List.length_attachWith⟩ h hlimit

theorem toNat_topicCount (h : r.Valid) :
    (UInt8.ofNat r.topics.length).toNat = r.topics.length := by
  have hcount := h.count.2
  rw [beefMaxTopics] at hcount
  exact UInt8.toNat_ofNat_of_lt' (Nat.lt_of_le_of_lt hcount (by decide))

theorem beefRecordSize_ok :
    (beefRecordSize buf).outcome = .ok n ↔
      ∃ r : BEEFRecord, r.Valid ∧ StandsAt buf 0 r.layout ∧ n = r.layout.length := by
  constructor
  · intro h
    simp only [beefRecordSize, Run.bind_outcome_ok, Run.failIf_outcome_ok, byteAt_ok, bytesAt_ok,
      not_not] at h
    obtain ⟨-, -, tag, ⟨htag, hlen⟩, -, heq, -, hmin, ver, hver, -, rfl, count, hcount, -, hbounds,
      off, htopics, hobject⟩ := h
    have htag' : tag = putUint16 beefRecordTag := by rw [← heq, putUint16_uint16 (by omega)]
    obtain ⟨ts, hts, hnames, hstands, rfl⟩ := beefTopics_sound (Nat.le_of_not_lt hmin) htopics
    obtain ⟨object, hsize, hlast, rfl, -⟩ := beefObjectSize_ok.mp hobject
    have hcount' : UInt8.ofNat ts.length = count := by rw [hts, UInt8.ofNat_toNat]
    refine ⟨⟨ts, object⟩, ⟨by dsimp only; omega, hnames, hsize⟩, ?_,
      (length_layout ⟨ts, object⟩).symm⟩
    exact standsAt_layout.mpr ⟨htag' ▸ htag, hver, hcount'.symm ▸ hcount, hstands, hlast⟩
  · rintro ⟨r, hr, hstands, rfl⟩
    obtain ⟨htag, hver, hcount, htopics, hobject⟩ := standsAt_layout.mp hstands
    have hlimit := length_layout_lt hr
    have hlength := length_layout r
    have hreach := hstands.length_le
    have hmin : beefRecordMin ≤ buf.length := by omega
    have hwalk := beefTopics_complete hr.names htopics (by rw [mathMaxInt]; omega)
    have hsize : (beefObjectSize buf (beefRecordMin + (r.topics.flatMap topicLayout).length)).outcome =
        .ok r.layout.length :=
      beefObjectSize_ok.mpr ⟨r.object, hr.object, hobject, hlength, by omega⟩
    simp only [beefRecordSize, Run.bind_outcome_ok, Run.failIf_outcome_ok, byteAt_ok, bytesAt_ok,
      not_not]
    refine ⟨(), by rw [beefRecordMin] at hmin; omega, _, ⟨htag, rfl⟩, (), uint16_putUint16 _, (),
      Nat.not_lt_of_le hmin, _, hver, (), rfl, _, hcount, (), ?_, _, ?_, hsize⟩
    · rw [toNat_topicCount hr]
      have := hr.count
      omega
    · rw [toNat_topicCount hr]
      exact hwalk

/-! ## Decoding -/

theorem decodeBEEFTopics_ok {ts : List Bytes} (h : ∀ t ∈ ts, TopicBounds t) :
    ∀ {off done}, StandsAt buf off (ts.flatMap topicLayout) →
      off + (ts.flatMap topicLayout).length < 2 ^ 63 →
      (Run.iterate (decodeBEEFTopic buf) ts.length (done, off)).outcome =
        .ok (done ++ ts, off + (ts.flatMap topicLayout).length) := by
  induction ts with
  | nil =>
      intro off done _ _
      rw [List.append_nil]
      rfl
  | cons t ts ih =>
      intro off done hstands hlimit
      rw [List.flatMap_cons, List.length_append, length_topicLayout] at hlimit ⊢
      rw [List.flatMap_cons, standsAt_append_iff, standsAt_topicLayout, length_topicLayout] at hstands
      obtain ⟨⟨hbyte, ht⟩, hrest⟩ := hstands
      have hround : (decodeBEEFTopic buf (done, off)).outcome =
          .ok (done ++ [t], off + (1 + t.length)) := by
        have hlen := toNat_lengthByte (h t List.mem_cons_self)
        refine Run.bind_outcome_ok.mpr ⟨_, byteAt_ok.mpr hbyte, ?_⟩
        rw [hlen, Run.add_of_lt (by dsimp only; omega), pure_bind,
          Run.add_of_lt (by dsimp only; omega), pure_bind]
        exact Run.bind_outcome_ok.mpr ⟨t, bytesAt_ok.mpr ⟨ht, rfl⟩, by rw [Nat.add_assoc]; rfl⟩
      refine Run.bind_outcome_ok.mpr ⟨_, hround, ?_⟩
      rw [ih (fun t ht => h t (List.mem_cons_of_mem _ ht)) hrest (by omega), List.append_assoc,
        List.singleton_append, Nat.add_assoc]

theorem decodeBEEFRecord_of_layout (hr : r.Valid) (h : StandsAt buf 0 r.layout) :
    (decodeBEEFRecord buf).outcome = .ok (r, r.layout.length) := by
  have hsize := beefRecordSize_ok.mpr ⟨r, hr, h, rfl⟩
  obtain ⟨-, -, hcount, htopics, hobject⟩ := standsAt_layout.mp h
  obtain ⟨hlen, hobject⟩ := standsAt_objectLayout.mp hobject
  have hlimit := length_layout_lt hr
  have hlength := length_layout r
  have hword := toNat_objectLen hr.object.2
  rw [length_objectLayout] at hlength
  have hmake : (Run.make 16 (r.topics.length : Nat) : SizeRun Unit).outcome = .ok () := by
    have := hr.count.2
    rw [beefMaxTopics] at this
    rw [Run.make_of_le (by rw [maxInt]; omega)]
  refine Run.bind_outcome_ok.mpr ⟨_, hsize, Run.bind_outcome_ok.mpr ⟨_, byteAt_ok.mpr hcount, ?_⟩⟩
  rw [toNat_topicCount hr]
  refine Run.bind_outcome_ok.mpr ⟨(), hmake, Run.bind_outcome_ok.mpr
    ⟨_, decodeBEEFTopics_ok hr.names htopics (by omega), ?_⟩⟩
  rw [Run.add_of_lt (by dsimp only; omega), pure_bind]
  refine Run.bind_outcome_ok.mpr ⟨_, (uint32At_ok rfl).mpr hlen, ?_⟩
  rw [hword, Run.add_of_lt (by dsimp only; omega), pure_bind]
  exact Run.bind_outcome_ok.mpr ⟨r.object, bytesAt_ok.mpr ⟨hobject, rfl⟩, rfl⟩

theorem decodeBEEFRecord_ok :
    (decodeBEEFRecord buf).outcome = .ok (r, n) ↔
      r.Valid ∧ StandsAt buf 0 r.layout ∧ n = r.layout.length := by
  constructor
  · intro h
    obtain ⟨size, hsize, -⟩ := Run.bind_outcome_ok.mp h
    obtain ⟨r', hr, hstands, -⟩ := beefRecordSize_ok.mp hsize
    rw [decodeBEEFRecord_of_layout hr hstands] at h
    cases h
    exact ⟨hr, hstands, rfl⟩
  · rintro ⟨hr, hstands, rfl⟩
    exact decodeBEEFRecord_of_layout hr hstands

/-! ## No panics -/

open Run

theorem neverPanics_beefTopics (buf : Bytes) : ∀ count off, off + 65 * count < 2 ^ 32 →
    (Run.iterate (beefTopic buf) count off).NeverPanics := by
  intro count
  induction count with
  | zero => exact fun off _ => neverPanics_pure off
  | succ count ih =>
      intro off hlimit
      have hround : (beefTopic buf off).NeverPanics := by
        refine NeverPanics.bind (neverPanics_add (by omega)) fun stop hadd => ?_
        obtain ⟨-, rfl⟩ := add_outcome_ok.mp hadd
        refine .check fun hreach => (neverPanics_index (by omega)).bind fun nameLen _ => ?_
        have hbyte := nameLen.toNat_lt
        exact .check fun _ => (neverPanics_add (by omega)).bind fun stop _ => .check fun _ =>
          neverPanics_pure stop
      refine hround.bind fun next hnext => ih next ?_
      obtain ⟨t, ht, -, rfl, -⟩ := beefTopic_ok.mp hnext
      have hlen := ht.2
      rw [beefMaxTopicLen] at hlen
      rw [length_topicLayout]
      omega

theorem neverPanics_beefObjectSize (buf : Bytes) (hoff : off < 2 ^ 32) :
    (beefObjectSize buf off).NeverPanics := by
  refine (neverPanics_add (by omega)).bind fun stop hadd => ?_
  obtain ⟨-, rfl⟩ := add_outcome_ok.mp hadd
  refine .check fun hreach => ((neverPanics_slice (by omega) (by omega)).map _).bind fun objLen _ => ?_
  have hword := objLen.toNat_lt
  exact .check fun _ => .check fun _ => (neverPanics_add (by omega)).bind fun total _ =>
    .check fun _ => neverPanics_pure total

theorem neverPanics_beefRecordSize (buf : Bytes) : (beefRecordSize buf).NeverPanics := by
  refine .check fun htag => (neverPanics_slice (by omega) (by omega)).bind fun tag _ => ?_
  refine .check fun _ => .check fun hmin => ?_
  rw [beefRecordMin] at hmin
  refine (neverPanics_index (by omega)).bind fun ver _ => .check fun _ => ?_
  refine (neverPanics_index (by omega)).bind fun count _ => .check fun hcount => ?_
  rw [beefMaxTopics] at hcount
  refine (neverPanics_beefTopics buf _ _ (by rw [beefRecordMin]; omega)).bind fun off hoff => ?_
  obtain ⟨ts, hts, hnames, -, rfl⟩ := beefTopics_sound (by rw [beefRecordMin]; omega) hoff
  have hlength := length_topics_le hnames
  exact neverPanics_beefObjectSize buf (by rw [beefRecordMin]; omega)

theorem neverPanics_decodeBEEFRecord (buf : Bytes) : (decodeBEEFRecord buf).NeverPanics := by
  intro cause hpanic
  rcases bind_outcome_panic.mp hpanic with hsize | ⟨size, hsize, -⟩
  · exact neverPanics_beefRecordSize buf cause hsize
  · -- what has been measured is decoded
    obtain ⟨r, hr, hstands, -⟩ := beefRecordSize_ok.mp hsize
    rw [decodeBEEFRecord_of_layout hr hstands] at hpanic
    cases hpanic

end ShardCommon.Objfmt
