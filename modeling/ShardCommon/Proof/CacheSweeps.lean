import ShardCommon.CacheServer
import ShardCommon.Lib.Steps
import ShardCommon.Proof.CacheExpiry

/-!
# What the expirer leaves behind while others write

A pass goes through the shards one by one and takes its clock reading anew under every lock, while
writers turn to shards before it and behind it. A shard it has left holds nothing that had expired
when the pass began, and no writer brings such an entry back, since a write is live when it is made.
So what is in the cache was live when the last pass that ended began. `Len` counts the shards at
different times; each count keeps the share of its shard.
-/

namespace ShardCommon.MemoryCache

variable {opts : Options} {log : List (Int × Event)} {now last clock clock' : Int} {s t : Server}
  {e : Event}

theorem Entry.live_of_le {e : Entry} (hle : last ≤ now) (h : e.live now = true) :
    e.live last = true := by
  rw [live_iff] at h ⊢
  omega

/-! ## Shards without old entries -/

/-- Every entry was live at this time. -/
def Shard.Fresh (now : Int) (s : Shard) : Prop :=
  ∀ key e, s.data.lookup key = some e → e.live now = true

namespace Shard

variable {s t : Shard}

theorem Fresh.of_le (h : s.Fresh now) (hle : last ≤ now) : s.Fresh last :=
  fun key e hlookup => Entry.live_of_le hle (h key e hlookup)

theorem Fresh.kept (h : s.Fresh now) (hkept : Kept s t) : t.Fresh now :=
  fun key e hlookup => h key e (hkept.lookup_some hlookup)

theorem Fresh.put {caps : Caps} (key : Bytes) (val : Slice) (ttl : Int) (h : s.Fresh last)
    (hinv : s.Inv now) (hnow : 0 ≤ now) (hle : last ≤ now) :
    (s.put caps key val ttl now (s.data.lookup key)).Fresh last := by
  intro other e hlookup
  by_cases heq : other = key
  · subst heq
    rw [put_lookup_self] at hlookup
    cases hlookup
    exact Entry.live_of_le hle (deadlineFor_live (hinv.pops (roomFor_pops ..)) val ttl)
  · exact h other e (put_lookup_some hinv hnow heq hlookup).2

/-- A lock hold that ends the loop leaves live entries only. -/
theorem fresh_of_done (hinv : s.Inv last) (hdone : s.expirePass now = (t, false)) : t.Fresh now := by
  obtain ⟨u, hexpire, heq⟩ := expirePass_done hdone
  have hpops := expire_pops s now expireBatch
  have hdrained := @expire_drained s now last expireBatch hinv
  rw [hexpire] at hpops hdrained
  intro key e hlookup
  rw [heq] at hlookup
  have hleft := (drained_lookup hinv hpops (hdrained rfl) key).symm.trans hlookup
  exact (Option.filter_eq_some_iff.mp hleft).2

end Shard

theorem Backend.Run.fresh_call {calls : List (Call × Reply)} {b : Backend} {since : Int}
    {index : Fin shardCount} (h : Run opts calls last b) (hle : last ≤ now) (hsince : since ≤ now)
    (c : Call) (hfresh : (b.shards index).Fresh since) :
    ((b.call now c).1.shards index).Fresh since := by
  rcases call_cases b now c with ⟨-, hkept⟩ | ⟨key, val, ttl, -, heq⟩
  · exact hfresh.kept (hkept index)
  · rw [heq, setShard_shards]
    split
    · next htarget =>
      subst htarget
      obtain ⟨hnonneg, hinv⟩ := h.inv (shardFor key)
      exact hfresh.put key val ttl (hinv.mono hle) (hnonneg.trans hle) hsince
    · exact hfresh

/-! ## Steps as calls of the backend -/

theorem Server.Act.call (h : Act now s e t) :
    t.backend = s.backend ∨ ∃ c, t.backend = (s.backend.call now c).1 := by
  cases h with
  | set key val ttl => exact .inr ⟨.set key val ttl, rfl⟩
  | setNX key val ttl => exact .inr ⟨.setNX key val ttl, rfl⟩
  | del key => exact .inr ⟨.del key, rfl⟩
  | pass index h => exact .inr ⟨.expirePass index, rfl⟩
  | _ => exact .inl rfl

/-- The backend under the goroutines has a run of its own. -/
def Server.Backed (opts : Options) (clock : Int) (s : Server) : Prop :=
  ∃ calls, ∃ last ≤ clock, Backend.Run opts calls last s.backend

theorem Server.Backed.act (h : s.Backed opts clock) (hle : clock ≤ now) (hact : Act now s e t) :
    t.Backed opts now := by
  obtain ⟨calls, last, hlast, hrun⟩ := h
  rcases hact.call with heq | ⟨c, heq⟩
  · exact ⟨calls, last, hlast.trans hle, heq ▸ hrun⟩
  · have hnext := Backend.Run.call c hrun (hlast.trans hle)
    rw [← heq] at hnext
    exact ⟨_, now, Int.le_refl now, hnext⟩

theorem Server.Backed.fresh {since : Int} {index : Fin shardCount} (h : s.Backed opts clock)
    (hle : clock ≤ now) (hsince : since ≤ now) (hact : Act now s e t)
    (hfresh : (s.backend.shards index).Fresh since) : (t.backend.shards index).Fresh since := by
  obtain ⟨calls, last, hlast, hrun⟩ := h
  rcases hact.call with heq | ⟨c, heq⟩
  · rw [heq]
    exact hfresh
  · rw [heq]
    exact hrun.fresh_call (hlast.trans hle) hsince c hfresh

/-! ## Passes -/

/-- A pass ends with the last lock hold on the last shard. -/
def Event.noted (times : Int × Int) (now : Int) : Event → Int × Int
  | .tick => (now, times.2)
  | .pass index more => if more = false ∧ index.val + 1 = shardCount then (times.1, times.1) else times
  | _ => times

/-- When the last pass to begin began, and the last one to end. -/
def sweeps (log : List (Int × Event)) : Int × Int :=
  log.foldl (fun times a => a.2.noted times a.1) (0, 0)

/-- When the last pass that has ended began. -/
def lastSweep (log : List (Int × Event)) : Int := (sweeps log).2

/-- What the expirer has left behind: in the pass under way, and in the last one that ended. -/
structure Swept (times : Int × Int) (s : Server) : Prop where
  behind : ∀ index, s.expirer = .expiring index → ∀ other < index,
    (s.backend.shards other).Fresh times.1
  all : ∀ index, (s.backend.shards index).Fresh times.2

theorem sweeps_concat (log : List (Int × Event)) (now : Int) (e : Event) :
    sweeps (log ++ [(now, e)]) = e.noted (sweeps log) now := by
  rw [sweeps, List.foldl_append]
  rfl

theorem noted_le {times : Int × Int} (h : times.1 ≤ now ∧ times.2 ≤ now) (e : Event) :
    (e.noted times now).1 ≤ now ∧ (e.noted times now).2 ≤ now := by
  cases e with
  | tick => exact ⟨Int.le_refl now, h.2⟩
  | pass index more =>
      rw [Event.noted]
      split
      · exact ⟨h.1, h.1⟩
      · exact h
  | _ => exact h

/-- A step that is none of the expirer's. -/
theorem Swept.other {times : Int × Int} (h : Swept times s) (hbacked : s.Backed opts clock)
    (hle : clock ≤ now) (htimes : times.1 ≤ now ∧ times.2 ≤ now) (hact : Server.Act now s e t)
    (hexpirer : t.expirer = s.expirer) : Swept times t where
  behind := by
    rw [hexpirer]
    exact fun index hindex other hlt =>
      hbacked.fresh hle htimes.1 hact (h.behind index hindex other hlt)
  all := fun index => hbacked.fresh hle htimes.2 hact (h.all index)

/-- A lock hold of the expirer. -/
theorem Swept.pass {times : Int × Int} {index : Fin shardCount} (h : Swept times s)
    (hbacked : s.Backed opts clock) (hle : clock ≤ now) (htimes : times.1 ≤ now ∧ times.2 ≤ now)
    (hindex : s.expirer = .expiring index) {more : Bool} {shard : Shard}
    (hpass : (s.backend.shards index).expirePass now = (shard, more))
    (hact : Server.Act now s (.pass index more) t) (hbackend : t.backend = s.backend.setShard index shard)
    (hexpirer : t.expirer = .next index more) :
    Swept ((Event.pass index more).noted times now) t := by
  have hall : ∀ other, (t.backend.shards other).Fresh times.2 :=
    fun other => hbacked.fresh hle htimes.2 hact (h.all other)
  have hbehind : ∀ other < index, (t.backend.shards other).Fresh times.1 :=
    fun other hlt => hbacked.fresh hle htimes.1 hact (h.behind index hindex other hlt)
  rw [Event.noted]
  cases more with
  | true =>
      rw [if_neg (by rintro ⟨⟨⟩, -⟩)]
      refine ⟨?_, hall⟩
      intro index' hnext
      rw [hexpirer, Expirer.next, if_pos rfl] at hnext
      cases hnext
      exact hbehind
  | false =>
      -- the shard that the pass leaves was live at the reading of the last lock hold
      have hleft : (t.backend.shards index).Fresh times.1 := by
        obtain ⟨calls, last, hlast, hrun⟩ := hbacked
        rw [hbackend, Backend.setShard_shards, if_pos rfl]
        exact (Shard.fresh_of_done (hrun.inv index).2 hpass).of_le htimes.1
      have hupto : ∀ other ≤ index, (t.backend.shards other).Fresh times.1 := by
        intro other hother
        rcases Fin.lt_or_eq_of_le hother with hlt | rfl
        · exact hbehind other hlt
        · exact hleft
      by_cases hdone : index.val + 1 = shardCount
      · have hlast : ∀ other : Fin shardCount, other ≤ index := by
          intro other
          have hother := other.isLt
          exact Fin.le_def.mpr (by omega)
        rw [if_pos ⟨rfl, hdone⟩]
        refine ⟨?_, fun other => hupto other (hlast other)⟩
        intro index' hnext
        rw [hexpirer, Expirer.next, if_neg (by decide), dif_neg (by omega)] at hnext
        cases hnext
      · have hmore : index.val + 1 < shardCount := Nat.lt_of_le_of_ne index.isLt hdone
        rw [if_neg fun h => hdone h.2]
        refine ⟨?_, hall⟩
        intro index' hnext other hlt
        rw [hexpirer, Expirer.next, if_neg (by decide), dif_pos hmore] at hnext
        cases hnext
        exact hupto other (Fin.le_def.mpr (Nat.lt_succ_iff.mp (Fin.lt_def.mp hlt)))

/-! ## Counts -/

/-- The largest number of keys that a backend with a key cap is to hold. -/
theorem perShard_le (h : 0 < opts.maxKeys) :
    0 < (Backend.newWithOptions opts).perShard ∧
      shardCount * (Backend.newWithOptions opts).perShard ≤ max opts.maxKeys shardCount := by
  have hcount : (shardCount : Int) = 64 := rfl
  have hdiv : opts.maxKeys.tdiv shardCount = opts.maxKeys / shardCount :=
    Int.tdiv_eq_ediv_of_nonneg (by omega)
  rw [Backend.newWithOptions, if_pos h, hdiv, hcount]
  dsimp only
  omega

/-- The callers of `Len` have counted no more than the shares of the shards they have been to. -/
def Server.Counted (perShard : Int) (s : Server) : Prop :=
  ∀ g index n, s.callers g = .counting index n → (n : Int) ≤ index * perShard

theorem Server.setCaller_callers (s : Server) (g g' : Nat) (caller : Caller) :
    (s.setCaller g caller).callers g' = if g' = g then caller else s.callers g' :=
  Function.update_apply ..

theorem Server.Counted.setCaller {perShard : Int} {g : Nat} {caller : Caller}
    (h : s.Counted perShard)
    (hcaller : ∀ index n, caller = .counting index n → (n : Int) ≤ index * perShard) :
    (s.setCaller g caller).Counted perShard := by
  intro g' index n hg'
  rw [setCaller_callers] at hg'
  split at hg'
  · exact hcaller index n hg'
  · exact h g' index n hg'

theorem Server.Backed.size_le (h : s.Backed opts clock) (hkeys : 0 < opts.maxKeys)
    (index : Fin shardCount) :
    ((s.backend.shards index).data.size : Int) ≤ (Backend.newWithOptions opts).perShard := by
  obtain ⟨calls, last, -, hrun⟩ := h
  obtain ⟨last', -, hshard⟩ := hrun.shard index
  have hcaps := congrArg Caps.perShard hrun.caps
  have hsize := hshard.capped.2.size_le
  rw [hcaps] at hsize
  exact hsize (perShard_le hkeys).1

theorem Server.Counted.act (h : s.Counted (Backend.newWithOptions opts).perShard)
    (hbacked : s.Backed opts clock) (hkeys : 0 < opts.maxKeys) (hact : Act now s e t) :
    t.Counted (Backend.newWithOptions opts).perShard := by
  cases hact with
  | look g key hidle => exact h.setCaller (by rintro _ _ ⟨⟩)
  | answer g key entry hfound => exact h.setCaller (by rintro _ _ ⟨⟩)
  | count g hidle =>
      refine h.setCaller ?_
      rintro _ _ ⟨⟩
      omega
  | countShard g index n hcounting =>
      refine h.setCaller ?_
      rintro _ _ ⟨⟩
      have hone := hbacked.size_le hkeys index
      have hupto := h g index n hcounting
      push_cast
      rw [Int.add_mul]
      omega
  | total g n hcounting => exact h.setCaller (by rintro _ _ ⟨⟩)
  | close g hidle => exact h.setCaller (by rintro _ _ ⟨⟩)
  | closed g hclosing hdone => exact h.setCaller (by rintro _ _ ⟨⟩)
  | _ => exact h

/-! ## Runs -/

/-- What holds after a run: of the backend, of what the passes left, and of the counts so far. -/
structure Server.Tended (opts : Options) (log : List (Int × Event)) (clock : Int) (s : Server) :
    Prop where
  nonneg : 0 ≤ clock
  backed : s.Backed opts clock
  noted : (sweeps log).1 ≤ clock ∧ (sweeps log).2 ≤ clock
  swept : Swept (sweeps log) s
  counted : 0 < opts.maxKeys → s.Counted (Backend.newWithOptions opts).perShard
  totals : 0 < opts.maxKeys → ∀ a ∈ log, ∀ g n, a.2 = .total g n → (n : Int) ≤ max opts.maxKeys shardCount

theorem Server.Tended.init (opts : Options) : (Server.new opts).Tended opts [] 0 where
  nonneg := Int.le_refl 0
  backed := ⟨[], 0, Int.le_refl 0, .init (Int.le_refl 0)⟩
  noted := ⟨Int.le_refl 0, Int.le_refl 0⟩
  swept := ⟨by rintro _ ⟨⟩, by rintro _ _ _ ⟨⟩⟩
  counted := by rintro _ _ _ _ ⟨⟩
  totals := by rintro _ _ ⟨⟩

theorem Server.Tended.act (h : s.Tended opts log clock) (hle : clock ≤ now) (hact : Act now s e t) :
    t.Tended opts (log ++ [(now, e)]) now where
  nonneg := h.nonneg.trans hle
  backed := h.backed.act hle hact
  noted := by
    rw [sweeps_concat]
    exact noted_le ⟨h.noted.1.trans hle, h.noted.2.trans hle⟩ e
  swept := by
    have htimes : (sweeps log).1 ≤ now ∧ (sweeps log).2 ≤ now :=
      ⟨h.noted.1.trans hle, h.noted.2.trans hle⟩
    rw [sweeps_concat]
    cases hact with
    | tick hselecting =>
        refine ⟨?_, h.swept.all⟩
        rintro index ⟨⟩ other hlt
        exact absurd hlt (Nat.not_lt_zero _)
    | pass index hindex =>
        exact h.swept.pass h.backed hle htimes hindex rfl (.pass s index hindex) rfl rfl
    | leave hselecting hstop => exact ⟨by rintro _ ⟨⟩, h.swept.all⟩
    | set key val ttl => exact h.swept.other h.backed hle htimes (.set s key val ttl) rfl
    | setNX key val ttl => exact h.swept.other h.backed hle htimes (.setNX s key val ttl) rfl
    | del key => exact h.swept.other h.backed hle htimes (.del s key) rfl
    | _ => exact ⟨h.swept.behind, h.swept.all⟩
  counted := fun hkeys => (h.counted hkeys).act h.backed hkeys hact
  totals := by
    intro hkeys a ha g n hn
    rcases List.mem_append.mp ha with hold | hnew
    · exact h.totals hkeys a hold g n hn
    · rw [List.mem_singleton.mp hnew] at hn
      cases hact with
      | total g' n' hcounting =>
          cases hn
          exact (h.counted hkeys g _ n hcounting).trans (perShard_le hkeys).2
      | _ => cases hn

theorem Server.tended (run : Steps Step (0, Server.new opts) log (clock, s)) :
    s.Tended opts log clock := by
  generalize hend : (clock, s) = last at run
  induction run generalizing clock s with
  | nil =>
      cases hend
      exact .init opts
  | @snoc u v log a run hstep ih =>
      cases hend
      obtain ⟨hle, rfl, hact⟩ := hstep
      exact (ih rfl).act hle hact

/-- The steps of the goroutine `run`. -/
def Event.ofExpirer : Event → Bool
  | .tick | .pass _ _ | .returned => true
  | _ => false

theorem Server.Act.returned (h : Act now s e t) (hreturned : s.expirer = .returned) :
    t.expirer = .returned ∧ e.ofExpirer = false := by
  cases h with
  | tick hselecting =>
      rw [hreturned] at hselecting
      cases hselecting
  | pass index hindex =>
      rw [hreturned] at hindex
      cases hindex
  | leave hselecting hstop =>
      rw [hreturned] at hselecting
      cases hselecting
  | _ => exact ⟨hreturned, rfl⟩

/-- **The expirer beside other goroutines.** After any run, every entry of the cache was live when the
last pass that has ended began, whatever was written while it went on. With a key cap, what a call of
`Len` returns is at most the cap, or one key for each shard where the cap is smaller. And once a call
of `Close` has returned, the expirer does nothing more. -/
theorem expirer_tends (run : Steps Server.Step (0, Server.new opts) log (clock, s)) :
    (∀ index key e, (s.backend.shards index).data.lookup key = some e →
      e.live (lastSweep log) = true) ∧
    (0 < opts.maxKeys → ∀ now g (n : Nat), (now, .total g n) ∈ log → (n : Int) ≤ max opts.maxKeys 64) ∧
    ∀ past rest now g, log = past ++ (now, .closed g) :: rest → ∀ a ∈ rest, a.2.ofExpirer = false := by
  have htended := Server.tended run
  refine ⟨fun index => htended.swept.all index, ?_, ?_⟩
  · intro hkeys now g n hn
    exact htended.totals hkeys (now, .total g n) hn g n rfl
  · rintro past rest now g rfl
    rw [List.append_cons] at run
    obtain ⟨⟨clock', u⟩, hpast, hrest⟩ := run.split
    obtain ⟨⟨clock'', v⟩, -, hclosed⟩ := hpast.of_concat
    have hreturned : u.expirer = .returned := by
      obtain ⟨-, -, hact⟩ := hclosed
      cases hact with
      | closed _ hclosing hdone => exact hdone
    have hnever := (hrest.count_eq_zero (P := fun s : Int × Server => s.2.expirer = .returned)
      (p := fun a => a.2.ofExpirer) (fun _ _ _ hstep h => hstep.2.2.returned h) hreturned).2
    intro a ha
    exact Bool.eq_false_iff.mpr (List.countP_eq_zero.mp hnever a ha)

def closingServer : Server := { (Server.new ⟨0, 0⟩).setCaller 0 .closing with stop := true }

def closedServer : Server := { closingServer with expirer := .returned }

theorem expirer_tends_closed :
    (∃ s, Steps Server.Step (0, Server.new ⟨0, 0⟩)
      [(1, .close 0), (2, .returned), (3, .closed 0), (4, .set [1] (some [7]) 5)] (4, s)) ∧
    ∀ a ∈ [((4 : Int), Event.set [1] (some [7]) 5)], a.2.ofExpirer = false := by
  have hclose : Server.Step (0, Server.new ⟨0, 0⟩) (1, .close 0) (1, closingServer) :=
    ⟨by decide, rfl, .close _ 0 rfl⟩
  have hreturned : Server.Step (1, closingServer) (2, .returned) (2, closedServer) :=
    ⟨by decide, rfl, .leave _ rfl rfl⟩
  have hclosed : Server.Step (2, closedServer) (3, .closed 0) (3, closedServer.setCaller 0 .idle) :=
    ⟨by decide, rfl, .closed _ 0 rfl rfl⟩
  have hset : Server.Step (3, closedServer.setCaller 0 .idle) (4, .set [1] (some [7]) 5)
      (4, { closedServer.setCaller 0 .idle with
        backend := (closedServer.setCaller 0 .idle).backend.set [1] (some [7]) 5 4 }) :=
    ⟨by decide, rfl, .set _ _ _ _⟩
  have run := ((((Steps.nil _).snoc hclose).snoc hreturned).snoc hclosed).snoc hset
  exact ⟨⟨_, run⟩, (expirer_tends run).2.2 [(1, .close 0), (2, .returned)] _ 3 0 rfl⟩

end ShardCommon.MemoryCache
