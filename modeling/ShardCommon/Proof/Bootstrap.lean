import ShardCommon.Bootstrap
import ShardCommon.Lib.DistinctKeys
import ShardCommon.Proof.NetAddr

/-!
# The changes of a source list

The changes handed to `OnChange` are all a listener sees. Each is the exact difference of two strictly
increasing lists, so replayed from the empty set they give the current set after every round.
-/

namespace ShardCommon.Bootstrap

open ShardCommon.Netip

variable {ε : Type} {parseAddr : String → Option Addr} {entries : List String}
  {lookups : Lookups ε}

/-! ## Resolution -/

/-- The addresses of one entry. -/
def resolved (parseAddr : String → Option Addr) (answer : Except ε (List Addr)) (e : String) :
    List Addr :=
  match parseAddr e, answer with
  | some a, _ => if a.is6 && !a.is4In6 then [a.unmap] else []
  | none, .error _ => []
  | none, .ok addrs => addrs

/-- What the entries stand for in a round. -/
def Found (parseAddr : String → Option Addr) (entries : List String) (lookups : Lookups ε) :
    Set Addr :=
  {a | ∃ item ∈ entries.zipIdx, a ∈ resolved parseAddr (lookups item.2) item.1}

theorem mem_foldl_insert {seen : Seen ε} {addrs : List Addr} {a : Addr} :
    a ∈ (addrs.foldl Seen.insert seen).addrs ↔ a ∈ seen.addrs ∨ a ∈ addrs := by
  induction addrs generalizing seen with
  | nil => simp
  | cons b addrs ih =>
      rw [List.foldl_cons, ih, Seen.insert, List.mem_insert_iff, List.mem_cons]
      tauto

theorem mem_resolve {seen : Seen ε} {answer : Except ε (List Addr)} {e : String} {a : Addr} :
    a ∈ (seen.resolve parseAddr answer e).addrs ↔
      a ∈ seen.addrs ∨ a ∈ resolved parseAddr answer e := by
  rw [Seen.resolve.eq_def, resolved.eq_def]
  cases parseAddr e with
  | some literal =>
      dsimp only
      split
      · rw [Seen.insert, List.mem_insert_iff, List.mem_singleton, or_comm]
      · simp
  | none =>
      cases answer with
      | error err => simp
      | ok addrs => exact mem_foldl_insert

theorem mem_foldl_resolve {items : List (String × Nat)} {seen : Seen ε} {a : Addr} :
    a ∈ (items.foldl (fun seen item => seen.resolve parseAddr (lookups item.2) item.1) seen).addrs ↔
      a ∈ seen.addrs ∨ ∃ item ∈ items, a ∈ resolved parseAddr (lookups item.2) item.1 := by
  induction items generalizing seen with
  | nil => simp
  | cons item items ih =>
      rw [List.foldl_cons, ih, mem_resolve, List.exists_mem_cons_iff, or_assoc]

def members (l : List Addr) : Set Addr := {a | a ∈ l}

theorem resolveAll_ok {set : List Addr} (h : resolveAll parseAddr entries lookups = .ok set) :
    set.SortedLT ∧ members set = Found parseAddr entries lookups := by
  rw [resolveAll] at h
  set seen := entries.zipIdx.foldl
    (fun seen item => seen.resolve parseAddr (lookups item.2) item.1) Seen.empty with hseen
  have hset : set = seen.addrs.mergeSort fun a b => !b.less a := by
    split at h
    · cases h
    · exact (Except.ok.inj h).symm
  constructor
  · rw [hset]
    exact DistinctKeys.sortedLT_mergeSort Addr.not_less_eq_decide_le seen.nodup
  · ext a
    rw [hset]
    simp only [members, Found, Set.mem_ofPred_eq, List.mem_mergeSort, hseen, mem_foldl_resolve]
    simp [Seen.empty]

theorem found_eq_empty_of_error {err : ε} (h : resolveAll parseAddr entries lookups = .error err) :
    Found parseAddr entries lookups = ∅ := by
  rw [resolveAll] at h
  split at h
  · rename_i hnone _
    ext a
    have hmem := @mem_foldl_resolve ε parseAddr lookups entries.zipIdx Seen.empty a
    rw [hnone] at hmem
    simpa [Found, Seen.empty] using hmem
  · cases h

/-! ## Differences -/

theorem not_mem_of_lt_head {a b : Addr} {l : List Addr} (h : (b :: l).SortedLT) (hlt : a < b) :
    a ∉ b :: l := by
  intro hmem
  rcases List.mem_cons.mp hmem with rfl | hmem
  · exact lt_irrefl a hlt
  · exact lt_asymm hlt ((List.pairwise_cons.mp h.pairwise).1 a hmem)

theorem filter_not_mem_cons {a : Addr} {l m : List Addr} (h : a ∉ m) :
    m.filter (· ∉ a :: l) = m.filter (· ∉ l) := by
  apply List.filter_congr
  intro b hb
  have hne : b ≠ a := fun heq => h (heq ▸ hb)
  simp [hne]

theorem diffLoop_eq {prev next : List Addr} (hprev : prev.SortedLT) (hnext : next.SortedLT)
    (added removed : List Addr) :
    diffLoop prev next added removed =
      (added ++ next.filter (· ∉ prev), removed ++ prev.filter (· ∉ next)) := by
  fun_induction diffLoop prev next added removed with
  | case1 p prev n next added removed hless ih =>
      obtain ⟨-, hrest⟩ := List.pairwise_cons.mp hprev.pairwise
      have hlt : p < n := hless
      have hp : p ∉ n :: next := not_mem_of_lt_head hnext hlt
      have hkept : (p :: prev).filter (· ∉ n :: next) = p :: prev.filter (· ∉ n :: next) :=
        List.filter_cons_of_pos (decide_eq_true hp)
      rw [ih hrest.sortedLT hnext, filter_not_mem_cons hp, hkept, List.append_assoc,
        List.singleton_append]
  | case2 p prev n next added removed hless hgreater ih =>
      obtain ⟨-, hrest⟩ := List.pairwise_cons.mp hnext.pairwise
      have hlt : n < p := hgreater
      have hn : n ∉ p :: prev := not_mem_of_lt_head hprev hlt
      have hkept : (n :: next).filter (· ∉ p :: prev) = n :: next.filter (· ∉ p :: prev) :=
        List.filter_cons_of_pos (decide_eq_true hn)
      rw [ih hprev hrest.sortedLT, filter_not_mem_cons hn, hkept, List.append_assoc,
        List.singleton_append]
  | case3 p prev n next added removed hless hgreater ih =>
      have heq : p = n := le_antisymm (not_lt.mp hgreater) (not_lt.mp hless)
      subst heq
      obtain ⟨hfirst, hrest⟩ := List.pairwise_cons.mp hprev.pairwise
      obtain ⟨hfirst', hrest'⟩ := List.pairwise_cons.mp hnext.pairwise
      have hp : p ∉ prev := fun hmem => lt_irrefl p (hfirst p hmem)
      have hp' : p ∉ next := fun hmem => lt_irrefl p (hfirst' p hmem)
      rw [ih hrest.sortedLT hrest'.sortedLT, List.filter_cons_of_neg (by simp),
        List.filter_cons_of_neg (by simp), filter_not_mem_cons hp, filter_not_mem_cons hp']
  | case4 prev next added removed hend =>
      -- one of the lists is used up, and what is left of the other differs from it
      cases prev with
      | nil => simp
      | cons p prev =>
          cases next with
          | nil => simp
          | cons n next => exact absurd rfl (hend p prev n next rfl)

theorem diffSorted_eq {prev next : List Addr} (hprev : prev.SortedLT) (hnext : next.SortedLT) :
    diffSorted prev next = (next.filter (· ∉ prev), prev.filter (· ∉ next)) := by
  rw [diffSorted, diffLoop_eq hprev hnext, List.nil_append, List.nil_append]

/-! ## Replay -/

/-- What a listener does with a change. -/
def Change.apply (s : Set Addr) (c : Change) : Set Addr := (s ∪ members c.added) \ members c.removed

def replay (s : Set Addr) (changes : List Change) : Set Addr := changes.foldl Change.apply s

/-- A change that fits the set it is applied to. -/
structure Change.Fits (s : Set Addr) (c : Change) : Prop where
  added_increasing : c.added.SortedLT
  removed_increasing : c.removed.SortedLT
  disjoint : c.added.Disjoint c.removed
  added_new : ∀ a ∈ c.added, a ∉ s
  removed_present : ∀ a ∈ c.removed, a ∈ s

/-- Each change fits the set that the ones before it give. -/
def AllFit (s : Set Addr) : List Change → Prop
  | [] => True
  | c :: changes => c.Fits s ∧ AllFit (c.apply s) changes

theorem replay_concat (s : Set Addr) (changes : List Change) (c : Change) :
    replay s (changes ++ [c]) = c.apply (replay s changes) := by
  rw [replay, List.foldl_append]
  rfl

theorem allFit_concat {s : Set Addr} {changes : List Change} {c : Change}
    (h : AllFit s changes) (hc : c.Fits (replay s changes)) : AllFit s (changes ++ [c]) := by
  induction changes generalizing s with
  | nil => exact ⟨hc, trivial⟩
  | cons d changes ih => exact ⟨h.1, ih h.2 hc⟩

theorem sortedLT_filter {l : List Addr} (h : l.SortedLT) (q : Addr → Bool) :
    (l.filter q).SortedLT :=
  (h.pairwise.filter q).sortedLT

theorem fits_diffSorted {prev next : List Addr} (hprev : prev.SortedLT) (hnext : next.SortedLT) :
    Change.Fits (members prev) ⟨(diffSorted prev next).1, (diffSorted prev next).2⟩ := by
  rw [diffSorted_eq hprev hnext]
  refine ⟨sortedLT_filter hnext _, sortedLT_filter hprev _, ?_, ?_, ?_⟩
  · intro a hadded hremoved
    exact of_decide_eq_true (List.mem_filter.mp hadded).2 (List.mem_filter.mp hremoved).1
  · intro a hadded
    have hnew : a ∉ prev := of_decide_eq_true (List.mem_filter.mp hadded).2
    exact hnew
  · intro a hremoved
    exact (List.mem_filter.mp hremoved).1

theorem apply_diffSorted {prev next : List Addr} (hprev : prev.SortedLT) (hnext : next.SortedLT) :
    Change.apply (members prev) ⟨(diffSorted prev next).1, (diffSorted prev next).2⟩ =
      members next := by
  rw [diffSorted_eq hprev hnext]
  ext a
  simp only [Change.apply, members, Set.mem_sdiff, Set.mem_union, Set.mem_ofPred_eq,
    List.mem_filter, decide_eq_true_eq]
  tauto

theorem eq_of_members_eq {prev next : List Addr} (hprev : prev.SortedLT) (hnext : next.SortedLT)
    (h : members prev = members next) : prev = next :=
  hprev.eq_of_mem_iff hnext fun a => Set.ext_iff.mp h a

theorem diffSorted_self {l : List Addr} (h : l.SortedLT) : diffSorted l l = ([], []) := by
  have hnone : l.filter (· ∉ l) = [] := List.filter_eq_nil_iff.mpr fun a ha => by simpa using ha
  rw [diffSorted_eq h h, hnone]

/-! ## Rounds -/

variable {r : Resolver}

/-- A round finds nothing and changes nothing, or replaces the set and tells the difference. -/
theorem refresh_cases (r : Resolver) (parseAddr : String → Option Addr) (lookups : Lookups ε) :
    (Found parseAddr r.entries lookups = ∅ ∧
      r.refresh parseAddr lookups = ({ r with errs := r.errs + 1 }, none)) ∨
    ∃ next, next ≠ [] ∧ next.SortedLT ∧ members next = Found parseAddr r.entries lookups ∧
      r.refresh parseAddr lookups = ({ r with current := next },
        if 0 < (diffSorted r.current next).1.length ∨ 0 < (diffSorted r.current next).2.length then
          some ⟨(diffSorted r.current next).1, (diffSorted r.current next).2⟩
        else none) := by
  rw [Resolver.refresh]
  cases hround : resolveAll parseAddr r.entries lookups with
  | error err => exact .inl ⟨found_eq_empty_of_error hround, rfl⟩
  | ok next =>
      obtain ⟨hsorted, hfound⟩ := resolveAll_ok hround
      cases next with
      | nil => exact .inl ⟨hfound ▸ (by simp [members] : members [] = ∅), rfl⟩
      | cons a next => exact .inr ⟨a :: next, by simp, hsorted, hfound, rfl⟩

/-- The set and the changes told so far. -/
structure Told (r : Resolver) (changes : List Change) : Prop where
  increasing : r.current.SortedLT
  nonempty : r.current ≠ []
  replayed : replay ∅ changes = members r.current
  fits : AllFit ∅ changes

theorem Told.refresh {changes : List Change} (h : Told r changes) (lookups : Lookups ε) :
    Told (r.refresh parseAddr lookups).1 (changes ++ (r.refresh parseAddr lookups).2.toList) := by
  rcases refresh_cases r parseAddr lookups with ⟨-, heq⟩ | ⟨next, hne, hsorted, -, heq⟩
  · rw [heq, Option.toList_none, List.append_nil]
    exact ⟨h.increasing, h.nonempty, h.replayed, h.fits⟩
  · have happly := apply_diffSorted h.increasing hsorted
    rw [heq]
    split
    · refine ⟨hsorted, hne, ?_, allFit_concat h.fits ?_⟩
      · rw [Option.toList_some, replay_concat, h.replayed, happly]
      · rw [h.replayed]
        exact fits_diffSorted h.increasing hsorted
    · rename_i hnone
      -- an empty difference: the set is the one before
      have hsame : members r.current = members next := by
        obtain ⟨hadded, hremoved⟩ : (diffSorted r.current next).1 = [] ∧
            (diffSorted r.current next).2 = [] := by simpa using hnone
        rw [← happly, hadded, hremoved]
        simp [Change.apply, members]
      obtain rfl := eq_of_members_eq h.increasing hsorted hsame
      rw [Option.toList_none, List.append_nil]
      exact h

theorem told_start {started : Resolver × Change}
    (h : Resolver.start parseAddr entries lookups = .ok started) : Told started.1 [started.2] := by
  rw [Resolver.start] at h
  split at h
  · cases h
  · split at h
    · cases h
    · cases h
    · rename_i set hne hround
      obtain rfl := Except.ok.inj h
      have hsorted := (resolveAll_ok hround).1
      refine ⟨hsorted, hne, ?_, ⟨?_, trivial⟩⟩
      · simp [replay, Change.apply, members]
      · exact ⟨hsorted, List.Pairwise.nil.sortedLT, by simp, by simp, by simp⟩

theorem told_foldl {state : Resolver × List Change} (h : Told state.1 state.2)
    (rounds : List (Lookups ε)) :
    Told (rounds.foldl (Resolver.round parseAddr) state).1
      (rounds.foldl (Resolver.round parseAddr) state).2 := by
  induction rounds generalizing state with
  | nil => exact h
  | cons lookups rounds ih => exact ih (h.refresh lookups)

theorem told_run {rounds : List (Lookups ε)} {changes : List Change}
    (h : Resolver.run parseAddr entries lookups rounds = .ok (r, changes)) : Told r changes := by
  rw [Resolver.run] at h
  cases hstart : Resolver.start parseAddr entries lookups with
  | error err =>
      rw [hstart] at h
      cases h
  | ok started =>
      rw [hstart, Except.map] at h
      have htold := @told_foldl ε parseAddr (started.1, [started.2]) (told_start hstart) rounds
      rwa [Except.ok.inj h] at htold

/-- After any number of rounds. Since they are arbitrary, this is so after each of them. -/
theorem changes_reconstruct_current (parseAddr : String → Option Addr) (entries : List String)
    (first : Lookups ε) (rounds : List (Lookups ε)) (r : Resolver) (changes : List Change)
    (h : Resolver.run parseAddr entries first rounds = .ok (r, changes)) :
    replay ∅ changes = members r.current ∧ AllFit ∅ changes ∧
      r.current.SortedLT ∧ r.current ≠ [] ∧
      ∀ lookups : Lookups ε,
        (∃ err, resolveAll parseAddr r.entries lookups = .error err) ∨
            Found parseAddr r.entries lookups = ∅ ∨
            Found parseAddr r.entries lookups = members r.current →
          (r.refresh parseAddr lookups).1.current = r.current ∧
            (r.refresh parseAddr lookups).2 = none := by
  have htold := told_run h
  refine ⟨htold.replayed, htold.fits, htold.increasing, htold.nonempty, ?_⟩
  intro lookups hround
  rcases refresh_cases r parseAddr lookups with ⟨-, heq⟩ | ⟨next, hne, hsorted, hfound, heq⟩
  · rw [heq]
    exact ⟨rfl, rfl⟩
  · have hsome : Found parseAddr r.entries lookups ≠ ∅ := by
      obtain ⟨a, next, rfl⟩ := List.exists_cons_of_ne_nil hne
      have hmem : a ∈ members (a :: next) := List.mem_cons_self
      exact (hfound ▸ ⟨a, hmem⟩ : (Found parseAddr r.entries lookups).Nonempty).ne_empty
    rcases hround with ⟨err, herr⟩ | hnone | hsame
    · exact absurd (found_eq_empty_of_error herr) hsome
    · exact absurd hnone hsome
    · obtain rfl := eq_of_members_eq hsorted htold.increasing (hfound.trans hsame)
      rw [heq, diffSorted_self hsorted]
      exact ⟨rfl, rfl⟩

/-- An address of one repeated byte. -/
def host (b : UInt8) : Addr := .v6 (List.Vector.replicate 16 b) ""

def answering (answer : Except String (List Addr)) : Lookups String := fun _ => answer

theorem run_moving :
    Resolver.run (fun _ => none) ["seed"] (answering (.ok [host 1, host 1]))
        [answering (.error "timeout"), answering (.ok [host 2])] =
      .ok (⟨["seed"], [host 2], 1⟩, [⟨[host 1], []⟩, ⟨[host 2], [host 1]⟩]) := by
  have hless : (host 1).less (host 2) = true := by decide
  simp [Resolver.run, Resolver.start, Resolver.round, Resolver.refresh, resolveAll, Seen.resolve,
    Seen.insert, Seen.empty, answering, diffSorted, diffLoop, hless, Except.map]

theorem changes_reconstruct_current_moving :
    replay ∅ [⟨[host 1], []⟩, ⟨[host 2], [host 1]⟩] = members [host 2] :=
  (changes_reconstruct_current _ _ _ _ _ _ run_moving).1

/-! ## Failed lookups -/

/-- The entry is a name whose lookup fails in this round. -/
def LookupFails (parseAddr : String → Option Addr) (lookups : Lookups ε) (item : String × Nat) :
    Prop :=
  parseAddr item.1 = none ∧ ∃ err, lookups item.2 = .error err

/-- A round finds what its literals and its successful lookups give. -/
theorem mem_found_iff {a : Addr} : a ∈ Found parseAddr entries lookups ↔
    ∃ item ∈ entries.zipIdx, ¬ LookupFails parseAddr lookups item ∧
      a ∈ resolved parseAddr (lookups item.2) item.1 := by
  constructor
  · rintro ⟨item, hitem, hmem⟩
    refine ⟨item, hitem, ?_, hmem⟩
    rintro ⟨hname, err, herr⟩
    simp [resolved, hname, herr] at hmem
  · rintro ⟨item, hitem, -, hmem⟩
    exact ⟨item, hitem, hmem⟩

/-- What a round removes, when it replaces the set. -/
theorem refresh_of_found (h : r.current.SortedLT)
    (hfound : Found parseAddr r.entries lookups ≠ ∅) :
    (r.refresh parseAddr lookups).1.errs = r.errs ∧
      (∀ a, a ∈ (r.refresh parseAddr lookups).1.current ↔ a ∈ Found parseAddr r.entries lookups) ∧
      ∀ a, (∃ c, (r.refresh parseAddr lookups).2 = some c ∧ a ∈ c.removed) ↔
        a ∈ r.current ∧ a ∉ Found parseAddr r.entries lookups := by
  rcases refresh_cases r parseAddr lookups with ⟨hnone, -⟩ | ⟨next, -, hsorted, hnext, heq⟩
  · exact absurd hnone hfound
  · rw [heq, ← hnext, diffSorted_eq h hsorted]
    refine ⟨rfl, fun a => Iff.rfl, fun a => ?_⟩
    have hremoved : a ∈ r.current.filter (· ∉ next) ↔ a ∈ r.current ∧ a ∉ members next := by
      rw [List.mem_filter, decide_eq_true_eq]
      rfl
    rw [← hremoved]
    constructor
    · rintro ⟨c, hc, hmem⟩
      split at hc
      · cases hc
        exact hmem
      · cases hc
    · intro hmem
      rw [if_pos (Or.inr (List.length_pos_of_mem hmem))]
      exact ⟨_, rfl, hmem⟩

/-- **Outages.** After any history, a round in which every entry comes to nothing keeps the set, tells
no one and counts an error. A round that finds anything is no error, whichever lookups failed in it:
an address of a failed name stays exactly when a literal or a successful lookup gives it too. -/
theorem outage_keeps_last_good (parseAddr : String → Option Addr) (entries : List String)
    (first : Lookups ε) (rounds : List (Lookups ε)) (r : Resolver) (changes : List Change)
    (h : Resolver.run parseAddr entries first rounds = .ok (r, changes)) (lookups : Lookups ε) :
    (∀ a, a ∈ Found parseAddr r.entries lookups ↔ ∃ item ∈ r.entries.zipIdx,
        ¬ LookupFails parseAddr lookups item ∧ a ∈ resolved parseAddr (lookups item.2) item.1) ∧
      (Found parseAddr r.entries lookups = ∅ →
        (r.refresh parseAddr lookups).1.errs = r.errs + 1 ∧
          (r.refresh parseAddr lookups).1.current = r.current ∧
          (r.refresh parseAddr lookups).2 = none) ∧
      (Found parseAddr r.entries lookups ≠ ∅ →
        (r.refresh parseAddr lookups).1.errs = r.errs ∧
          (∀ a, a ∈ (r.refresh parseAddr lookups).1.current ↔
            a ∈ Found parseAddr r.entries lookups) ∧
          ∀ a, (∃ c, (r.refresh parseAddr lookups).2 = some c ∧ a ∈ c.removed) ↔
            a ∈ r.current ∧ a ∉ Found parseAddr r.entries lookups) := by
  refine ⟨fun _ => mem_found_iff, ?_, refresh_of_found (told_run h).increasing⟩
  intro hnone
  rcases refresh_cases r parseAddr lookups with ⟨-, heq⟩ | ⟨next, hne, -, hfound, -⟩
  · rw [heq]
    exact ⟨rfl, rfl, rfl⟩
  · obtain ⟨a, next, rfl⟩ := List.exists_cons_of_ne_nil hne
    have hmem : a ∈ members (a :: next) := List.mem_cons_self
    rw [hfound, hnone] at hmem
    exact absurd hmem (Set.notMem_empty a)

/-- The answers of two names. -/
def pair (a b : Except String (List Addr)) : Lookups String := fun place => if place = 0 then a else b

def movable : Resolver := ⟨["a", "b"], [host 1], 0⟩

theorem run_movable :
    Resolver.run (fun _ => none) ["a", "b"] (pair (.ok [host 1]) (.ok [])) [] =
      .ok (movable, [⟨[host 1], []⟩]) := by
  simp [Resolver.run, Resolver.start, resolveAll, Seen.resolve, Seen.insert, Seen.empty, pair,
    movable, Except.map]

theorem outage_keeps_last_good_total :
    (movable.refresh (fun _ => none) (pair (.error "timeout") (.error "refused"))).1.current =
      [host 1] := by
  refine ((outage_keeps_last_good _ _ _ _ _ _ run_movable _).2.1 ?_).2.1
  ext a
  simp [Found, resolved, movable, pair]

/-- One name fails while the other answers: the address of the failed name is withdrawn, and no error
is counted. -/
theorem failed_lookup_withdrawn :
    Resolver.run (fun _ => none) ["a", "b"] (pair (.ok [host 1]) (.ok [])) [] =
        .ok (movable, [⟨[host 1], []⟩]) ∧
      LookupFails (fun _ => none) (pair (.error "timeout") (.ok [host 2])) ("a", 0) ∧
      host 1 ∈ resolved (fun _ => none) (pair (.ok [host 1]) (.ok []) 0) "a" ∧
      movable.refresh (fun _ => none) (pair (.error "timeout") (.ok [host 2])) =
        (⟨["a", "b"], [host 2], 0⟩, some ⟨[host 2], [host 1]⟩) := by
  have hless : (host 1).less (host 2) = true := by decide
  refine ⟨run_movable, ⟨rfl, "timeout", rfl⟩, List.mem_singleton_self _, ?_⟩
  simp [Resolver.refresh, resolveAll, Seen.resolve, Seen.insert, Seen.empty, pair, movable,
    diffSorted, diffLoop, hless]

end ShardCommon.Bootstrap
