import ShardCommon.Proof.CacheSweeps

/-!
# Reads beside writes and passes

`Get` looks its key up under the read lock and then reads the clock with the lock given back. A value
that it answers was shown at the lookup, since what is live later was live then. A miss is shown at
the lookup, or when the write that was found came to its end; the latter fails only where the key was
written again before that end, and then the call misses a key that was there all the time.
-/

namespace ShardCommon.MemoryCache

open TtlMap (Write)

variable {opts : Options} {log before mid : List (Int × Event)} {now clock start stop : Int}
  {s t : Server} {e : Event} {g : Nat} {key : Bytes} {entry : Option Entry} {v : Slice}
  {m : Bytes → Option (Write Slice)}

/-! ## The map that the writes leave -/

/-- What an event does to the plain TTL map. -/
def Event.wrote (m : Bytes → Option (Write Slice)) (now : Int) : Event → Bytes → Option (Write Slice)
  | .set key val ttl => TtlMap.set m key val ttl now
  | .setNX key val ttl true => TtlMap.set m key val ttl now
  | .del key => TtlMap.del m key
  | _ => m

/-- The plain TTL map after the events of a log. -/
def written (log : List (Int × Event)) : Bytes → Option (Write Slice) :=
  log.foldl (fun m a => a.2.wrote m a.1) fun _ => none

def Event.Writes (key : Bytes) : Event → Prop
  | .set key' _ _ => key' = key
  | .setNX key' _ _ true => key' = key
  | _ => False

theorem written_concat (log : List (Int × Event)) (a : Int × Event) :
    written (log ++ [a]) = a.2.wrote (written log) a.1 := by
  rw [written, List.foldl_append]
  rfl

theorem wrote_of_not_writes (h : ¬ e.Writes key) :
    e.wrote m now key = m key ∨ e.wrote m now key = none := by
  cases e with
  | set key' val ttl => exact .inl (Function.update_of_ne (Ne.symm h) _ _)
  | setNX key' val ttl won =>
      cases won with
      | true => exact .inl (Function.update_of_ne (Ne.symm h) _ _)
      | false => exact .inl rfl
  | del key' =>
      by_cases heq : key = key'
      · subst heq
        exact .inr (Function.update_self ..)
      · exact .inl (Function.update_of_ne heq _ _)
  | _ => exact .inl rfl

/-- Without a write the key keeps its last write or loses it. -/
theorem written_of_not_writes (log : List (Int × Event)) {more : List (Int × Event)}
    (h : ∀ a ∈ more, ¬ a.2.Writes key) :
    written (log ++ more) key = written log key ∨ written (log ++ more) key = none := by
  induction more using List.reverseRecOn with
  | nil => exact .inl (by rw [List.append_nil])
  | append_singleton more a ih =>
      have hlast := @wrote_of_not_writes a.1 a.2 key (written (log ++ more)) (h a (by simp))
      rw [← List.append_assoc, written_concat]
      rcases hlast with heq | hnone
      · rw [heq]
        exact ih fun b hb => h b (List.mem_append_left _ hb)
      · exact .inr hnone

theorem Server.Act.simulates (h : Simulates s.backend m now) (hact : Act now s e t) :
    Simulates t.backend (e.wrote m now) now := by
  cases hact with
  | set key val ttl => exact h.set key val ttl
  | setNX key val ttl =>
      obtain ⟨hverdict, hnext⟩ := h.setNX key val ttl
      have hwrote : (Event.setNX key val ttl (s.backend.setNX key val ttl now).2).wrote m now =
          (TtlMap.setNX maxInt64 m key val ttl now).1 := by
        rw [hverdict, TtlMap.setNX]
        split <;> rfl
      rw [hwrote]
      exact hnext
  | del key => exact h.del key
  | pass index hindex => exact h.expirePass index
  | _ => exact h

/-! ## Reads under way -/

/-- The goroutine that an event is a step of, if it is a caller of `Get`, `Len` or `Close`. -/
def Event.caller : Event → Option Nat
  | .look g _ | .answer g _ _ | .count g | .total g _ | .close g | .closed g => some g
  | _ => none

/-- The caller holds what its lookup found, and has done nothing since. -/
def InFlight (log : List (Int × Event)) (g : Nat) (key : Bytes) (entry : Option Entry) : Prop :=
  ∃ before start mid, log = before ++ (start, .look g key) :: mid ∧
    (∀ a ∈ mid, a.2.caller ≠ some g) ∧ Shard.Agree start entry (written before key)

theorem InFlight.concat {a : Int × Event} (h : InFlight log g key entry) (ha : a.2.caller ≠ some g) :
    InFlight (log ++ [a]) g key entry := by
  obtain ⟨before, start, mid, rfl, hmid, hagree⟩ := h
  refine ⟨before, start, mid ++ [a], by simp, ?_, hagree⟩
  intro b hb
  rcases List.mem_append.mp hb with hold | hnew
  · exact hmid b hold
  · rw [List.mem_singleton.mp hnew]
    exact ha

/-- A step of one caller leaves the others where they are, and reads begin with a lookup. -/
theorem Server.Act.found (h : Act now s e t) (hg : t.callers g = .found key entry) :
    (s.callers g = .found key entry ∧ e.caller ≠ some g) ∨
      (e = .look g key ∧ entry = (s.backend.shards (shardFor key)).data.lookup key) := by
  have hother : ∀ {g' : Nat} {caller : Caller}, (s.setCaller g' caller).callers g = .found key entry →
      caller ≠ .found key entry → s.callers g = .found key entry ∧ g' ≠ g := by
    intro g' caller hg hne
    rw [setCaller_callers] at hg
    split at hg
    · exact absurd hg hne
    · next hne' => exact ⟨hg, Ne.symm hne'⟩
  have hstays : ∀ {g' : Nat} {caller : Caller}, e.caller = some g' →
      (s.setCaller g' caller).callers g = .found key entry → caller ≠ .found key entry →
      s.callers g = .found key entry ∧ e.caller ≠ some g := by
    intro g' caller he hg hne
    obtain ⟨hsame, hne'⟩ := hother hg hne
    refine ⟨hsame, ?_⟩
    rw [he]
    exact fun heq => hne' (Option.some.inj heq)
  cases h with
  | look g' key' hidle =>
      rw [setCaller_callers] at hg
      split at hg
      · next heq =>
        cases hg
        rw [heq]
        exact .inr ⟨rfl, rfl⟩
      · next hne => exact .inl ⟨hg, fun heq => hne (Option.some.inj heq).symm⟩
  | answer g' key' entry' hfound => exact .inl (hstays rfl hg (by rintro ⟨⟩))
  | count g' hidle => exact .inl (hstays rfl hg (by rintro ⟨⟩))
  | countShard g' index n hcounting => exact .inl (hstays rfl hg (by rintro ⟨⟩))
  | total g' n hcounting => exact .inl (hstays rfl hg (by rintro ⟨⟩))
  | close g' hidle => exact .inl (hstays rfl hg (by rintro ⟨⟩))
  | closed g' hclosing hdone => exact .inl (hstays rfl hg (by rintro ⟨⟩))
  | _ => exact .inl ⟨hg, by rintro ⟨⟩⟩

theorem Server.Act.answered (h : Act now s (.answer g key v) t) :
    ∃ entry, s.callers g = .found key entry ∧ v = Entry.answer entry now := by
  generalize he : Event.answer g key v = e at h
  cases h with
  | answer g' key' entry hfound =>
      cases he
      exact ⟨entry, hfound, rfl⟩
  | _ => cases he

/-- What holds of reads after a run of a backend with no cap. -/
structure Server.Reads (log : List (Int × Event)) (clock : Int) (s : Server) : Prop where
  simulates : Simulates s.backend (written log) clock
  ordered : log.Pairwise fun a b => a.1 ≤ b.1
  reached : ∀ a ∈ log, a.1 ≤ clock
  inFlight : ∀ g key entry, s.callers g = .found key entry → InFlight log g key entry

theorem Server.Reads.act (h : s.Reads log clock) (hle : clock ≤ now) (hact : Act now s e t) :
    t.Reads (log ++ [(now, e)]) now where
  simulates := by
    rw [written_concat]
    exact hact.simulates (h.simulates.mono hle)
  ordered := by
    refine List.pairwise_append.mpr ⟨h.ordered, List.pairwise_singleton .., ?_⟩
    intro a ha b hb
    rw [List.mem_singleton.mp hb]
    exact (h.reached a ha).trans hle
  reached := by
    intro a ha
    rcases List.mem_append.mp ha with hold | hnew
    · exact (h.reached a hold).trans hle
    · rw [List.mem_singleton.mp hnew]
  inFlight := by
    intro g key entry hg
    rcases hact.found hg with ⟨hsame, hother⟩ | ⟨rfl, rfl⟩
    · exact (h.inFlight g key entry hsame).concat hother
    · exact ⟨log, now, [], rfl, by rintro _ ⟨⟩, (h.simulates.mono hle).agree key⟩

theorem Server.reads (hkeys : opts.maxKeys ≤ 0) (hbytes : opts.maxBytes ≤ 0)
    (run : Steps Step (0, Server.new opts) log (clock, s)) : s.Reads log clock := by
  generalize hend : (clock, s) = last at run
  induction run generalizing clock s with
  | nil =>
      cases hend
      exact ⟨newWithOptions_simulates hkeys hbytes, .nil, by rintro _ ⟨⟩, by rintro _ _ _ ⟨⟩⟩
  | @snoc u v log a run hstep ih =>
      cases hend
      obtain ⟨hle, rfl, hact⟩ := hstep
      exact (ih rfl).act hle hact

/-! ## Answers -/

/-- At some moment between the lookup and the answer the map showed this under the key. -/
def ShownWithin (before : List (Int × Event)) (start : Int) (mid : List (Int × Event)) (stop : Int)
    (key : Bytes) (v : Slice) : Prop :=
  ∃ early late now, mid = early ++ late ∧ start ≤ now ∧ now ≤ stop ∧ (∀ a ∈ early, a.1 ≤ now) ∧
    (∀ a ∈ late, now ≤ a.1) ∧ v = (TtlMap.find maxInt64 (written (before ++ early)) key now).join

/-- The write that was found ended before the answer, and had been written over before it ended. -/
def Overtaken (before mid : List (Int × Event)) (stop : Int) (key : Bytes) : Prop :=
  ∃ w, written before key = some w ∧ w.present maxInt64 stop = false ∧
    ∃ a ∈ mid, a.2.Writes key ∧ w.present maxInt64 a.1 = true

theorem find_of_absent {w : Write Slice} (h : m key = some w ∨ m key = none)
    (hover : w.present maxInt64 now = false) : (TtlMap.find maxInt64 m key now).join = none := by
  rcases h with hsome | hnone
  · rw [TtlMap.find, hsome, Option.bind_some, hover]
    rfl
  · rw [TtlMap.find, hnone]
    rfl

/-- A write comes to its end at a moment of its own. -/
theorem exists_end {w : Write Slice} (hstart : w.present maxInt64 start = true)
    (hstop : w.present maxInt64 stop = false) :
    ∃ last, start ≤ last ∧ last ≤ stop ∧ w.present maxInt64 last = false ∧
      ∀ now < last, w.present maxInt64 now = true := by
  rw [Write.present_iff] at hstart
  rw [Bool.eq_false_iff, ne_eq, Write.present_iff] at hstop
  refine ⟨w.time + w.ttl, by omega, by omega, ?_, ?_⟩
  · rw [Bool.eq_false_iff, ne_eq, Write.present_iff]
    omega
  · intro now hnow
    exact Write.present_iff.mpr (.inr (.inr hnow))

/-- Events in the order of the clock, cut at a reading. -/
theorem exists_cut (hordered : mid.Pairwise fun a b => a.1 ≤ b.1) (now : Int) :
    ∃ early late, mid = early ++ late ∧ (∀ a ∈ early, a.1 < now) ∧ ∀ a ∈ late, now ≤ a.1 := by
  induction mid with
  | nil => exact ⟨[], [], rfl, by rintro _ ⟨⟩, by rintro _ ⟨⟩⟩
  | cons first rest ih =>
      obtain ⟨hfirst, hrest⟩ := List.pairwise_cons.mp hordered
      by_cases hlt : first.1 < now
      · obtain ⟨early, late, rfl, hearly, hlate⟩ := ih hrest
        exact ⟨first :: early, late, rfl, List.forall_mem_cons.mpr ⟨hlt, hearly⟩, hlate⟩
      · have hle := Int.not_lt.mp hlt
        refine ⟨[], first :: rest, rfl, by rintro _ ⟨⟩, List.forall_mem_cons.mpr ⟨hle, ?_⟩⟩
        exact fun a ha => hle.trans (hfirst a ha)

/-- A miss of a write that ended during the call. -/
theorem shown_or_overtaken {w : Write Slice} (hw : written before key = some w)
    (hordered : mid.Pairwise fun a b => a.1 ≤ b.1) (hstart : w.present maxInt64 start = true)
    (hstop : w.present maxInt64 stop = false) :
    ShownWithin before start mid stop key none ∨ Overtaken before mid stop key := by
  obtain ⟨last, hle, hstopped, hover, hlive⟩ := exists_end hstart hstop
  obtain ⟨early, late, rfl, hearly, hlate⟩ := exists_cut hordered last
  by_cases hwrites : ∃ a ∈ early, a.2.Writes key
  · obtain ⟨a, ha, hwrite⟩ := hwrites
    exact .inr ⟨w, hw, hstop, a, List.mem_append_left _ ha, hwrite, hlive a.1 (hearly a ha)⟩
  · refine .inl ⟨early, late, last, rfl, hle, hstopped, fun a ha => Int.le_of_lt (hearly a ha), hlate, ?_⟩
    have hkept := written_of_not_writes before fun a ha hwrite => hwrites ⟨a, ha, hwrite⟩
    rw [hw] at hkept
    exact (find_of_absent hkept hover).symm

/-- What was found at the lookup, judged at the answer. -/
theorem answer_shown (hagree : Shard.Agree start entry (written before key)) (hle : start ≤ stop)
    (hmid : ∀ a ∈ mid, start ≤ a.1) (hordered : mid.Pairwise fun a b => a.1 ≤ b.1) :
    ShownWithin before start mid stop key (Entry.answer entry stop) ∨
      Entry.answer entry stop = none ∧ Overtaken before mid stop key := by
  have hlookup : ∀ v, v = (TtlMap.find maxInt64 (written before) key start).join →
      ShownWithin before start mid stop key v := by
    intro v hv
    refine ⟨[], mid, start, rfl, Int.le_refl start, hle, by rintro _ ⟨⟩, hmid, ?_⟩
    rw [List.append_nil]
    exact hv
  cases hw : written before key with
  | none =>
      rw [hw] at hagree
      rw [show entry = none from hagree]
      refine .inl (hlookup _ ?_)
      rw [TtlMap.find, hw]
      rfl
  | some w =>
      rw [hw] at hagree
      rcases hagree with ⟨deadline, rfl, hrecords⟩ | ⟨rfl, hover⟩
      · have hlive := Shard.live_eq_present hrecords stop
        cases hpresent : w.present maxInt64 stop with
        | true =>
            rw [hpresent] at hlive
            have hstart : w.present maxInt64 start = true := by
              by_contra hover
              rw [Write.not_present_of_le hle (Bool.eq_false_iff.mpr hover)] at hpresent
              cases hpresent
            refine .inl (hlookup _ ?_)
            rw [Entry.answer, if_pos hlive, TtlMap.find, hw, Option.bind_some, if_pos hstart]
            rfl
        | false =>
            rw [hpresent] at hlive
            have hanswer : Entry.answer (some ⟨w.value, deadline⟩) stop = none := by
              rw [Entry.answer, hlive]
              rfl
            rw [hanswer]
            cases hstart : w.present maxInt64 start with
            | true => exact (shown_or_overtaken hw hordered hstart hpresent).imp_right (⟨rfl, ·⟩)
            | false => exact .inl (hlookup _ (find_of_absent (.inl hw) hstart).symm)
      · exact .inl (hlookup _ (find_of_absent (.inl hw) hover).symm)

/-- **Reads of a cache without caps.** In any run of writers, readers and the expirer, the answer of a
`Get` is what the plain TTL map showed at some moment between its lookup and its return, except that
it may be a miss where the write it found ran out during the call after the key had been written
again. -/
theorem gets_linearized (hkeys : opts.maxKeys ≤ 0) (hbytes : opts.maxBytes ≤ 0)
    (run : Steps Server.Step (0, Server.new opts) log (clock, s)) (past rest : List (Int × Event))
    (hlog : log = past ++ (stop, .answer g key v) :: rest) :
    ∃ before start mid, past = before ++ (start, .look g key) :: mid ∧
      (∀ a ∈ mid, a.2.caller ≠ some g) ∧
      (ShownWithin before start mid stop key v ∨ v = none ∧ Overtaken before mid stop key) := by
  subst hlog
  rw [List.append_cons] at run
  obtain ⟨⟨clock', t⟩, hpast, -⟩ := run.split
  obtain ⟨⟨clock'', u⟩, hbefore, hle, -, hact⟩ := hpast.of_concat
  have hreads := Server.reads hkeys hbytes hbefore
  obtain ⟨entry, hfound, hv⟩ := hact.answered
  rw [hv]
  obtain ⟨before, start, mid, rfl, hmid, hagree⟩ := hreads.inFlight _ _ _ hfound
  obtain ⟨-, hordered, -⟩ := List.pairwise_append.mp hreads.ordered
  obtain ⟨hstart, hordered⟩ := List.pairwise_cons.mp hordered
  have hreached := hreads.reached (start, .look g key) (by simp)
  exact ⟨before, start, mid, rfl, hmid, answer_shown hagree (hreached.trans hle) hstart hordered⟩

def writtenServer : Server :=
  { Server.new ⟨0, 0⟩ with backend := (Backend.newWithOptions ⟨0, 0⟩).set [1] (some [7]) 5 1 }

def lookedServer : Server :=
  writtenServer.setCaller 0
    (.found [1] ((writtenServer.backend.shards (shardFor [1])).data.lookup [1]))

def rewrittenServer : Server :=
  { lookedServer with backend := lookedServer.backend.set [1] (some [8]) 100 4 }

-- the key is there from 1 to 104, and a `Get` from 3 to 6 misses it
theorem gets_linearized_overtaken :
    (∃ before start mid, [((1 : Int), Event.set [1] (some [7]) 5), (3, .look 0 [1]),
        (4, .set [1] (some [8]) 100)] = before ++ (start, .look 0 [1]) :: mid ∧
      (ShownWithin before start mid 6 [1] none ∨ Overtaken before mid 6 [1])) ∧
    ¬ ShownWithin [(1, .set [1] (some [7]) 5)] 3 [(4, .set [1] (some [8]) 100)] 6 [1] none := by
  have hset : Server.Step (0, Server.new ⟨0, 0⟩) (1, .set [1] (some [7]) 5) (1, writtenServer) :=
    ⟨by decide, rfl, .set _ _ _ _⟩
  have hlook : Server.Step (1, writtenServer) (3, .look 0 [1]) (3, lookedServer) :=
    ⟨by decide, rfl, .look _ 0 [1] rfl⟩
  have hrewrite : Server.Step (3, lookedServer) (4, .set [1] (some [8]) 100) (4, rewrittenServer) :=
    ⟨by decide, rfl, .set _ _ _ _⟩
  have hmiss : Entry.answer ((writtenServer.backend.shards (shardFor [1])).data.lookup [1]) 6 = none := by
    decide
  have hanswer : Server.Step (4, rewrittenServer) (6, .answer 0 [1] none)
      (6, rewrittenServer.setCaller 0 .idle) := by
    refine ⟨by decide, rfl, ?_⟩
    rw [← hmiss]
    exact .answer rewrittenServer 0 [1] _ rfl
  have run := ((((Steps.nil _).snoc hset).snoc hlook).snoc hrewrite).snoc hanswer
  obtain ⟨before, start, mid, hpast, -, hanswered⟩ :=
    gets_linearized (by decide) (by decide) run _ [] rfl
  refine ⟨⟨before, start, mid, hpast, hanswered.imp_right And.right⟩, ?_⟩
  rintro ⟨early, late, now, hmid, hstart, hstop, hearly, hlate, hshown⟩
  rcases List.cons_eq_append_iff.mp hmid with ⟨rfl, rfl⟩ | ⟨_, rfl, hnil⟩
  · have hnow : now ≤ 4 := hlate (4, .set [1] (some [8]) 100) List.mem_cons_self
    rw [TtlMap.find, List.append_nil, show written [(1, .set [1] (some [7]) 5)] [1] =
      some ⟨some [7], 1, 5⟩ from rfl, Option.bind_some, if_pos] at hshown
    · cases hshown
    · exact Write.present_iff.mpr (.inr (.inr (by dsimp only; omega)))
  · obtain ⟨rfl, rfl⟩ := List.append_eq_nil_iff.mp hnil.symm
    rw [TtlMap.find, show written ([(1, .set [1] (some [7]) 5)] ++ [(4, .set [1] (some [8]) 100)]) [1] =
      some ⟨some [8], 4, 100⟩ from rfl, Option.bind_some, if_pos] at hshown
    · cases hshown
    · exact Write.present_iff.mpr (.inr (.inr (by dsimp only; omega)))

end ShardCommon.MemoryCache
