import ShardCommon.JoinLimiter
import ShardCommon.Lib.Steps

/-!
# What the join limiter lets through

Tokens leave the bucket through `Acquire` and come back only with a tick, and ticks come an interval
apart. Between any two moments of a run the limiter therefore lets through a full bucket, one token for
each interval, and at most three more: the tick at the end of an interval begun before, one that the
ticker still held, and one that the goroutine had received and not yet put into the bucket.
-/

namespace ShardCommon.Netjoin

open Go

/-! ## Construction -/

theorem prefill_spec {bucket : Chan Unit} {count : Nat} (hopen : bucket.closed = false)
    (hroom : bucket.buffer.length + count ≤ bucket.cap) :
    (prefill bucket count).closed = false ∧ (prefill bucket count).cap = bucket.cap ∧
      (prefill bucket count).buffer.length = bucket.buffer.length + count := by
  induction count generalizing bucket with
  | zero => exact ⟨hopen, rfl, rfl⟩
  | succ count ih =>
      rw [prefill]
      cases hsend : bucket.trySend () with
      | sent next =>
          obtain ⟨-, hnext, hcap, hbuffer⟩ := Chan.trySend_sent hsend
          have hlength : next.buffer.length = bucket.buffer.length + 1 := by
            rw [hbuffer, List.length_append, List.length_singleton]
          obtain ⟨hclosed, hcap', hlength'⟩ := ih hnext (by omega)
          refine ⟨hclosed, hcap'.trans hcap, hlength'.trans ?_⟩
          omega
      | full =>
          obtain ⟨-, hfull⟩ := Chan.trySend_full hsend
          omega
      | panics =>
          rw [Chan.trySend_panics hsend] at hopen
          cases hopen

/-- The limiter as it is made, with a full bucket. -/
structure Fresh (perSecond : Int) (l : Limiter) : Prop where
  opened : l.bucket.closed = false
  cap : l.bucket.cap = perSecond.toNat
  full : l.bucket.buffer.length = perSecond.toNat
  interval : l.ticker.interval = (second / perSecond).toNat

theorem newLimiter_panics_iff {perSecond : Int} :
    newLimiter perSecond = .panics ↔ second < perSecond := by
  rw [newLimiter]
  split
  · constructor
    · intro h
      cases h
    · rw [second]
      omega
  · next hpos =>
      have hquotient : 0 < second / perSecond ↔ perSecond ≤ second := by
        rw [Int.lt_iff_add_one_le, Int.le_ediv_iff_mul_le (by omega)]
        omega
      rw [newTicker]
      by_cases hinterval : 0 < (second / perSecond).toNat
      · rw [dif_pos hinterval]
        constructor
        · intro h
          cases h
        · intro hlt
          exact absurd (hquotient.mp (by omega)) (by omega)
      · rw [dif_neg hinterval]
        refine ⟨fun _ => ?_, fun _ => rfl⟩
        by_contra hle
        exact hinterval (by have := hquotient.mpr (by omega); omega)

theorem newLimiter_fresh {perSecond : Int} (hpos : 0 < perSecond) (hmax : perSecond ≤ second) :
    ∃ l, newLimiter perSecond = .limiter l ∧ Fresh perSecond l := by
  have hnot : newLimiter perSecond ≠ .panics := by
    rw [Ne, newLimiter_panics_iff]
    omega
  rw [newLimiter, if_neg (by omega)] at hnot ⊢
  rw [newTicker] at hnot ⊢
  split
  · next hnone =>
      rw [hnone] at hnot
      exact absurd rfl hnot
  · next ticker hticker =>
      obtain ⟨hopen, hcap, hfull⟩ := @prefill_spec (Chan.make perSecond.toNat) perSecond.toNat rfl
        (Nat.le_of_eq (Nat.zero_add _))
      refine ⟨_, rfl, hopen, hcap, hfull.trans (Nat.zero_add _), ?_⟩
      split at hticker
      · cases hticker
        rfl
      · cases hticker

/-! ## Steps -/

variable {l l' start : Limiter} {e : LimiterEvent} {log : List LimiterEvent}

namespace Limiter

/-- Ticks that have come and are not yet in the bucket. -/
def inFlight (l : Limiter) : Nat := l.ticker.pending.toNat + (if l.refill = .ticked then 1 else 0)

/-- The bucket stays open and keeps its size, and the ticker its interval. -/
structure SameShape (l l' : Limiter) : Prop where
  opened : l'.bucket.closed = l.bucket.closed
  cap : l'.bucket.cap = l.bucket.cap
  interval : l'.ticker.interval = l.ticker.interval

theorem offer_cases (l : Limiter) :
    (l.offer.1 = .refilled ∧ l.offer.2.bucket.buffer.length = l.bucket.buffer.length + 1 ∨
      l.offer.1 = .dropped ∧ l.offer.2.bucket = l.bucket ∧
        (l.bucket.closed = false → l.bucket.buffer.length = l.bucket.cap)) ∧
    l.offer.2.refill = .selecting ∧ l.offer.2.ticker = l.ticker ∧ l.offer.2.stop = l.stop ∧
    SameShape l l.offer.2 := by
  rw [offer]
  cases hsend : l.bucket.trySend () with
  | sent bucket =>
      obtain ⟨hopen, hnext, hcap, hbuffer⟩ := Chan.trySend_sent hsend
      refine ⟨Or.inl ⟨rfl, ?_⟩, rfl, rfl, rfl, hnext.trans hopen.symm, hcap, rfl⟩
      rw [hbuffer, List.length_append, List.length_singleton]
  | full =>
      exact ⟨Or.inr ⟨rfl, rfl, fun _ => (Chan.trySend_full hsend).2⟩, rfl, rfl, rfl, rfl, rfl, rfl⟩
  | panics =>
      refine ⟨Or.inr ⟨rfl, rfl, fun hopen => ?_⟩, rfl, rfl, rfl, rfl, rfl, rfl⟩
      rw [Chan.trySend_panics hsend] at hopen
      cases hopen

theorem acquire_some (h : l.acquire = some l') :
    l.bucket.buffer.length = l'.bucket.buffer.length + 1 ∧ l'.ticker = l.ticker ∧
      l'.refill = l.refill ∧ l'.stop = l.stop ∧ SameShape l l' := by
  rw [acquire] at h
  split at h
  · next value bucket hreceive =>
      cases h
      obtain ⟨hclosed, hcap, hbuffer⟩ := Chan.receive_value hreceive
      refine ⟨?_, rfl, rfl, rfl, hclosed, hcap, rfl⟩
      rw [hbuffer, List.length_cons]
  · cases h

theorem closeStop_cases (l : Limiter) :
    l.closeStop.2 = { l with stop := l.closeStop.2.stop } ∧
      (l.closeStop.1 = .stopPanicked ∨ l.closeStop.1 = .stopClosed) := by
  rw [closeStop]
  split
  · exact ⟨rfl, Or.inl rfl⟩
  · exact ⟨rfl, Or.inr rfl⟩

/-- What one step can do. -/
structure Moves (l : Limiter) (e : LimiterEvent) (l' : Limiter) : Prop where
  shape : SameShape l l'
  tokens : l'.bucket.buffer.length + (e == .acquired).toNat =
    l.bucket.buffer.length + (e == .refilled).toNat
  ticks : l'.inFlight + (e == .refilled).toNat ≤ l.inFlight + (e == .fired).toNat
  fired : l'.ticker.fired = l.ticker.fired + (e == .fired).toNat
  stops : l.ticker.running = false → l'.ticker.running = false ∧ e ≠ .fired
  clock : l.ticker.now ≤ l'.ticker.now
  ends : l.refill = .returned → l'.refill = .returned ∧ e ≠ .refilled
  drops : e = .dropped → l.bucket.closed = false → l.bucket.buffer.length = l.bucket.cap

theorem Moves.of_ticker {ticker : Ticker} {refill : Refill}
    (hevent : e ≠ .acquired ∧ e ≠ .refilled ∧ e ≠ .dropped)
    (hinterval : ticker.interval = l.ticker.interval)
    (hticks : Limiter.inFlight { l with ticker, refill } ≤ l.inFlight + (e == .fired).toNat)
    (hfired : ticker.fired = l.ticker.fired + (e == .fired).toNat)
    (hstops : l.ticker.running = false → ticker.running = false ∧ e ≠ .fired)
    (hclock : l.ticker.now ≤ ticker.now) (hends : l.refill = .returned → refill = .returned) :
    Moves l e { l with ticker, refill } := by
  obtain ⟨hacquired, hrefilled, hdropped⟩ := hevent
  have hno : ∀ {event}, e ≠ event → (e == event).toNat = 0 := by
    intro event hne
    rw [beq_eq_false_iff_ne.mpr hne]
    rfl
  refine ⟨⟨rfl, rfl, hinterval⟩, ?_, ?_, hfired, hstops, hclock, fun h => ⟨hends h, hrefilled⟩,
    fun h => absurd h hdropped⟩
  · rw [hno hacquired, hno hrefilled]
  · rwa [hno hrefilled]

theorem moves_offer (h : l.refill = .ticked) : Moves l l.offer.1 l.offer.2 := by
  obtain ⟨hcases, hrefill, hticker, -, hshape⟩ := l.offer_cases
  have hticks : l.offer.2.inFlight + 1 = l.inFlight := by
    rw [inFlight, inFlight, hticker, hrefill, h]
    rfl
  have hnot : l.refill ≠ .returned := by
    rw [h]
    decide
  rcases hcases with ⟨hevent, hlength⟩ | ⟨hevent, hbucket, hfull⟩
  · rw [hevent]
    refine ⟨hshape, hlength, hticks.le, by rw [hticker]; rfl, ?_, by rw [hticker], ?_, ?_⟩
    · rw [hticker]
      exact fun hstopped => ⟨hstopped, by decide⟩
    · exact fun hreturned => absurd hreturned hnot
    · intro hdropped
      cases hdropped
  · rw [hevent]
    refine ⟨hshape, by rw [hbucket]; rfl, ?_, by rw [hticker]; rfl, ?_, by rw [hticker], ?_, ?_⟩
    · exact (Nat.le_succ _).trans hticks.le
    · rw [hticker]
      exact fun hstopped => ⟨hstopped, by decide⟩
    · exact fun hreturned => absurd hreturned hnot
    · exact fun _ => hfull

theorem moves_acquire (h : l.acquire = some l') : Moves l .acquired l' := by
  obtain ⟨hlength, hticker, hrefill, -, hshape⟩ := acquire_some h
  refine ⟨hshape, hlength.symm, ?_, by rw [hticker]; rfl, ?_, by rw [hticker], ?_, ?_⟩
  · rw [inFlight, inFlight, hticker, hrefill]
    exact Nat.le_refl _
  · rw [hticker]
    exact fun hstopped => ⟨hstopped, by decide⟩
  · rw [hrefill]
    exact fun hreturned => ⟨hreturned, by decide⟩
  · intro hdropped
    cases hdropped

theorem Step.moves (h : Step l e l') : Moves l e l' := by
  cases h with
  | pass now hnow hdue =>
      refine Moves.of_ticker (by decide) rfl ?_ ?_ ?_ ?_ ?_
      · exact Nat.le_refl _
      · rfl
      · exact fun h => ⟨h, by decide⟩
      · exact hnow
      · exact id
  | fire h =>
      refine Moves.of_ticker (by decide) rfl ?_ ?_ ?_ ?_ ?_
      · show true.toNat + _ ≤ l.ticker.pending.toNat + _ + 1
        simp only [Bool.toNat_true]
        omega
      · rfl
      · intro hnot
        rw [h] at hnot
        cases hnot
      · exact Nat.le_of_lt (l.ticker.due h)
      · exact id
  | tick h htick =>
      refine Moves.of_ticker (by decide) rfl ?_ ?_ ?_ ?_ ?_
      · simp [inFlight, Ticker.take, h, htick]
      · rfl
      · exact fun hnot => ⟨hnot, by decide⟩
      · exact Nat.le_refl _
      · intro hreturned
        rw [h] at hreturned
        cases hreturned
  | offer h => exact moves_offer h
  | leave h hstop =>
      refine Moves.of_ticker (by decide) rfl ?_ ?_ ?_ ?_ ?_
      · simp [inFlight, h]
      · rfl
      · exact fun hnot => ⟨hnot, by decide⟩
      · exact Nat.le_refl _
      · exact fun _ => rfl
  | acquire _ h => exact moves_acquire h
  | cancel =>
      refine Moves.of_ticker (by decide) rfl ?_ ?_ ?_ ?_ ?_
      · exact Nat.le_refl _
      · rfl
      · exact fun h => ⟨h, by decide⟩
      · exact Nat.le_refl _
      · exact id
  | close =>
      obtain ⟨hstate, hevent⟩ := l.closeStop_cases
      rw [hstate]
      rcases hevent with hevent | hevent <;> rw [hevent] <;>
        refine ⟨⟨rfl, rfl, rfl⟩, rfl, Nat.le_refl _, rfl, fun h => ⟨h, by decide⟩, Nat.le_refl _,
          fun h => ⟨h, by decide⟩, by rintro ⟨⟩⟩
  | stopTicker keeps =>
      refine Moves.of_ticker (by decide) rfl ?_ ?_ ?_ ?_ ?_
      · have hkept : (l.ticker.pending && keeps).toNat ≤ l.ticker.pending.toNat := by
          cases l.ticker.pending <;> cases keeps <;> decide
        exact Nat.add_le_add_right hkept _
      · rfl
      · exact fun _ => ⟨rfl, by decide⟩
      · exact Nat.le_refl _
      · exact id

/-! ## Runs -/

theorem run_shape (run : Steps Step l log l') : SameShape l l' := by
  induction run with
  | nil => exact ⟨rfl, rfl, rfl⟩
  | snoc _ hlast ih =>
      have hshape := hlast.moves.shape
      exact ⟨hshape.opened.trans ih.opened, hshape.cap.trans ih.cap,
        hshape.interval.trans ih.interval⟩

/-- Tokens are neither lost nor made. -/
theorem run_tokens (run : Steps Step l log l') :
    l'.bucket.buffer.length + log.count .acquired = l.bucket.buffer.length + log.count .refilled :=
  run.count_eq (f := fun l => l.bucket.buffer.length) fun _ _ _ h => h.moves.tokens

theorem run_ticks (run : Steps Step l log l') :
    l'.inFlight + log.count .refilled ≤ l.inFlight + log.count .fired :=
  run.count_le (f := inFlight) fun _ _ _ h => h.moves.ticks

theorem run_fired (run : Steps Step l log l') :
    l'.ticker.fired = l.ticker.fired + log.count .fired := by
  have hcount : l'.ticker.fired + log.countP (fun _ => false) =
      l.ticker.fired + log.count .fired :=
    run.count_eq (f := fun l : Limiter => l.ticker.fired) fun _ _ _ h => h.moves.fired
  simpa using hcount

/-- A ticker fires an interval apart, and not at all once it is stopped. -/
theorem run_fired_le (run : Steps Step l log l') :
    log.count .fired ≤ (l'.ticker.now - l.ticker.now) / l.ticker.interval + 1 := by
  cases hrunning : l.ticker.running with
  | false =>
      have hnone := run.count_eq_zero (p := (· == .fired))
        (fun _ _ _ h hstopped => (h.moves.stops hstopped).imp_right beq_eq_false_iff_ne.mpr) hrunning
      rw [List.count, hnone.2]
      exact Nat.zero_le _
  | true =>
      have hdue := l.ticker.due hrunning
      have hreached := l'.ticker.reached
      rw [run_fired run, (run_shape run).interval, Nat.add_mul] at hreached
      rw [Nat.add_mul, Nat.one_mul] at hdue
      rw [← Nat.sub_le_iff_le_add, Nat.le_div_iff_mul_le l.ticker.positive, Nat.sub_mul, Nat.one_mul]
      omega

theorem inFlight_le (l : Limiter) : l.inFlight ≤ 2 := by
  rw [inFlight]
  cases l.ticker.pending <;> split <;> decide

/-- In any stretch of a run. -/
theorem run_acquired_le (run : Steps Step l log l') :
    log.count .acquired ≤
      l.bucket.cap + (l'.ticker.now - l.ticker.now) / l.ticker.interval + 3 := by
  have htokens := run_tokens run
  have hticks := run_ticks run
  have hfired := run_fired_le run
  have hflight := l.inFlight_le
  have hfull := l.bucket.within
  omega

/-- The bucket is not refilled after the goroutine has returned. -/
theorem run_acquired_of_returned (run : Steps Step l log l') (h : l.refill = .returned) :
    log.count .acquired ≤ l.bucket.buffer.length := by
  have hnone := run.count_eq_zero (p := (· == .refilled))
    (fun _ _ _ h hreturned => (h.moves.ends hreturned).imp_right beq_eq_false_iff_ne.mpr) h
  have htokens := run_tokens run
  have hzero : log.count .refilled = 0 := hnone.2
  omega

end Limiter

/-- A limiter is made exactly for the rates from one to a thousand million a second. Whoever runs when, in
any stretch of a run it lets through at most a burst, one call for each interval that has passed and
three more; every token it is short of a full bucket has been acquired and not yet refilled; a tick is
thrown away only over a full bucket; and once the refilling has ended only what is left in the bucket is
let through. -/
theorem acquisitions_bounded (perSecond : Int) :
    (newLimiter perSecond = .noLimit ↔ perSecond ≤ 0) ∧
    (newLimiter perSecond = .panics ↔ second < perSecond) ∧
    ∀ start, newLimiter perSecond = .limiter start → ∀ past l, Steps Limiter.Step start past l →
      l.bucket.buffer.length + past.count .acquired = perSecond.toNat + past.count .refilled ∧
      (∀ l', Limiter.Step l .dropped l' → (l.bucket.buffer.length : Int) = perSecond) ∧
      ∀ log l', Steps Limiter.Step l log l' →
        (log.count .acquired ≤ perSecond.toNat +
          (l'.ticker.now - l.ticker.now) / (second / perSecond).toNat + 3) ∧
        (l.refill = .returned → log.count .acquired ≤ l.bucket.buffer.length) := by
  refine ⟨?_, newLimiter_panics_iff, ?_⟩
  · rw [newLimiter]
    split
    · next h => exact ⟨fun _ => h, fun _ => rfl⟩
    · next h =>
        refine ⟨fun hnone => ?_, fun hle => absurd hle h⟩
        split at hnone <;> cases hnone
  · intro start hstart past l hpast
    have hpos : 0 < perSecond := by
      by_contra hle
      rw [newLimiter, if_pos (by omega)] at hstart
      cases hstart
    have hmax : perSecond ≤ second := by
      by_contra hlt
      rw [newLimiter_panics_iff.mpr (by omega)] at hstart
      cases hstart
    obtain ⟨fresh, hfresh, hshape⟩ := newLimiter_fresh hpos hmax
    rw [hstart] at hfresh
    cases hfresh
    have hsame := Limiter.run_shape hpast
    have hcap : l.bucket.cap = perSecond.toNat := hsame.cap.trans hshape.cap
    refine ⟨hshape.full ▸ Limiter.run_tokens hpast, ?_, ?_⟩
    · intro l' hdrop
      have hfull := hdrop.moves.drops rfl (hsame.opened.trans hshape.opened)
      rw [hfull, hcap]
      omega
    · intro log l' hrun
      have hbound := Limiter.run_acquired_le hrun
      rw [hcap, hsame.interval, hshape.interval] at hbound
      exact ⟨hbound, Limiter.run_acquired_of_returned hrun⟩

def pairLimiter : Limiter :=
  ⟨prefill (Chan.make 2) 2,
    ⟨500000000, 0, false, true, 0, by decide, by decide, fun _ => by decide⟩, Chan.make 0, .selecting⟩

/-- Both tokens of a burst of two are acquired, and a third one comes with the first tick. -/
theorem acquisitions_bounded_two : newLimiter 2 = .limiter pairLimiter ∧ ∃ l,
    Steps Limiter.Step pairLimiter [.acquired, .acquired, .fired, .ticked, .refilled, .acquired] l ∧
    l.bucket.buffer.length + 3 = 2 + 1 := by
  have hone : Steps Limiter.Step pairLimiter [.acquired] _ := .snoc (.nil _) (.acquire _ _ rfl)
  have htwo := hone.snoc (.acquire _ _ rfl)
  have hthree := ((htwo.snoc (.fire _ rfl)).snoc (.tick _ rfl rfl)).snoc (.offer _ rfl)
  have hlast := hthree.snoc (.acquire _ _ rfl)
  exact ⟨rfl, _, hlast, ((acquisitions_bounded 2).2.2 _ rfl _ _ hlast).1⟩

end ShardCommon.Netjoin
