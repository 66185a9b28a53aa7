import Mathlib.Tactic.Common
import ShardCommon.Throttle

/-!
# What the throttle lets through and counts

The entry of a key remembers its last line and how many calls it has held back since. Other keys do not
touch it, so an answer depends on the earlier calls of its own key only.
-/

namespace ShardCommon.Logging.Throttle

variable {t : Throttle} {past : List Call} {key : String}

/-- The calls of one key. -/
def ofKey (past : List Call) (key : String) : List Call := past.filter (·.key = key)

/-- `e` dates the last line of the calls and counts those after it. -/
def Remembers (e : ThrottleEntry) (mine : List Call) : Prop :=
  ∃ before last held, mine = before ++ last :: held ∧ last.verdict.emit = true ∧
    (∀ c ∈ held, c.verdict.emit = false) ∧ e.windowStart = last.now ∧
    e.suppressed = UInt64.ofNat held.length

/-- The throttle has an entry for each key it was called with. -/
structure Tracks (t : Throttle) (past : List Call) : Prop where
  fresh : ∀ key, t.state key = none → ofKey past key = []
  seen : ∀ key e, t.state key = some e → Remembers e (ofKey past key)

/-- The answer that the earlier calls of the key call for. -/
inductive Judged (window : Int) (mine : List Call) (now : Int) : Verdict → Prop
  | first (h : mine = []) : Judged window mine now ⟨true, 0⟩
  | due {before held : List Call} {last : Call} (h : mine = before ++ last :: held)
      (hlast : last.verdict.emit = true) (hheld : ∀ c ∈ held, c.verdict.emit = false)
      (hdue : window ≤ now - last.now) :
      Judged window mine now ⟨true, UInt64.ofNat held.length⟩
  | held {before held : List Call} {last : Call} (h : mine = before ++ last :: held)
      (hlast : last.verdict.emit = true) (hheld : ∀ c ∈ held, c.verdict.emit = false)
      (hdue : now - last.now < window) : Judged window mine now ⟨false, 0⟩

theorem ofKey_concat_self (past : List Call) (c : Call) :
    ofKey (past ++ [c]) c.key = ofKey past c.key ++ [c] := by
  simp [ofKey]

theorem ofKey_concat_ne (past : List Call) {c : Call} (h : key ≠ c.key) :
    ofKey (past ++ [c]) key = ofKey past key := by
  simp [ofKey, h.symm]

theorem Tracks.judged (h : Tracks t past) (key : String) (now : Int) :
    Judged t.window (ofKey past key) now (t.allow key now).1 := by
  rw [allow]
  cases hstate : t.state key with
  | none => exact .first (h.fresh key hstate)
  | some e =>
      obtain ⟨before, last, held, hmine, hlast, hheld, hstart, hcount⟩ := h.seen key e hstate
      dsimp only
      rw [hstart]
      split
      · next hdue =>
          rw [hcount]
          exact .due hmine hlast hheld hdue
      · next hdue => exact .held hmine hlast hheld (by omega)

theorem allow_window (t : Throttle) (key : String) (now : Int) :
    (t.allow key now).2.window = t.window := by
  rw [Throttle.allow]
  split
  · rfl
  · split <;> rfl

theorem allow_state_ne (t : Throttle) {key other : String} (h : other ≠ key) (now : Int) :
    (t.allow key now).2.state other = t.state other := by
  rw [Throttle.allow]
  split
  · exact Function.update_of_ne h ..
  · split <;> exact Function.update_of_ne h ..

/-- After a call its key has an entry that remembers it. -/
theorem Tracks.remembers (h : Tracks t past) (key : String) (now : Int) :
    ∃ e, (t.allow key now).2.state key = some e ∧
      Remembers e (ofKey past key ++ [⟨key, now, (t.allow key now).1⟩]) := by
  rw [Throttle.allow]
  cases hstate : t.state key with
  | none => exact ⟨⟨now, 0⟩, Function.update_self .., _, _, [], rfl, rfl, List.forall_mem_nil _, rfl, rfl⟩
  | some e =>
      dsimp only
      split
      · exact ⟨⟨now, 0⟩, Function.update_self .., _, _, [], rfl, rfl, List.forall_mem_nil _, rfl, rfl⟩
      · obtain ⟨before, last, held, hmine, hlast, hheld, hstart, hcount⟩ := h.seen key e hstate
        refine ⟨⟨e.windowStart, e.suppressed + 1⟩, Function.update_self .., before, last,
          held ++ [⟨key, now, ⟨false, 0⟩⟩], ?_, hlast, ?_, hstart, ?_⟩
        · rw [hmine, List.append_assoc, List.cons_append]
        · intro c hc
          rcases List.mem_append.mp hc with hc | hc
          · exact hheld c hc
          · rw [List.mem_singleton.mp hc]
        · rw [hcount, List.length_append, List.length_singleton, UInt64.ofNat_add]
          rfl

theorem Tracks.call (h : Tracks t past) (key : String) (now : Int) :
    Tracks (t.allow key now).2 (past ++ [⟨key, now, (t.allow key now).1⟩]) := by
  obtain ⟨e, hstate, hremembers⟩ := h.remembers key now
  constructor
  · intro other hnone
    by_cases hkey : other = key
    · subst hkey
      rw [hstate] at hnone
      cases hnone
    · rw [allow_state_ne t hkey] at hnone
      rw [ofKey_concat_ne past hkey]
      exact h.fresh other hnone
  · intro other e' hsome
    by_cases hkey : other = key
    · subst hkey
      rw [hstate] at hsome
      cases hsome
      rw [ofKey_concat_self]
      exact hremembers
    · rw [allow_state_ne t hkey] at hsome
      rw [ofKey_concat_ne past hkey]
      exact h.seen other e' hsome

theorem Tracks.answers (h : Tracks t past) (calls : List (String × Int)) :
    ∀ before c after, t.answers calls = before ++ c :: after →
      Judged t.window (ofKey (past ++ before) c.key) c.now c.verdict := by
  induction calls generalizing t past with
  | nil =>
      intro before c after heq
      exact absurd heq (by simp [Throttle.answers])
  | cons call rest ih =>
      intro before c after heq
      rw [Throttle.answers] at heq
      cases before with
      | nil =>
          cases heq
          rw [List.append_nil]
          exact h.judged call.1 call.2
      | cons first before =>
          obtain ⟨rfl, hrest⟩ := List.cons.inj heq
          have hjudged := ih (h.call call.1 call.2) before c after hrest
          rw [allow_window, List.append_assoc] at hjudged
          exact hjudged

/-- Every answer is the one that the earlier calls of its key call for: the first call goes through, a
later one exactly when the window has passed since the last that did, and then it reports how many have
been held back since. -/
theorem answers_judged (window : Int) (calls : List (String × Int)) {before after : List Call}
    {c : Call} (h : (newThrottle window).answers calls = before ++ c :: after) :
    Judged window (ofKey before c.key) c.now c.verdict := by
  have hstart : Tracks (newThrottle window) [] := by
    constructor
    · intro key _
      rfl
    · intro key e hsome
      cases hsome
  exact hstart.answers calls before c after h

/-- Key `a` is called at 0, 1 and 10, with a call of `b` in between, in windows of 10. -/
theorem answers_judged_held :
    Judged 10 [⟨"a", 0, ⟨true, 0⟩⟩, ⟨"a", 1, ⟨false, 0⟩⟩] 10 ⟨true, 1⟩ :=
  @answers_judged 10 [("a", 0), ("a", 1), ("b", 1), ("a", 10)]
    [⟨"a", 0, ⟨true, 0⟩⟩, ⟨"a", 1, ⟨false, 0⟩⟩, ⟨"b", 1, ⟨true, 0⟩⟩] [] ⟨"a", 10, ⟨true, 1⟩⟩ rfl

end ShardCommon.Logging.Throttle
