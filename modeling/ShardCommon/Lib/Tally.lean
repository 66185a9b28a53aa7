import Mathlib.Data.Finset.Card
import Mathlib.Data.List.AList
import Mathlib.Data.List.Induction
import Mathlib.Tactic.Common

/-!
# Counting votes in an unordered map

Votes are counted in a map from candidates to tallies, and the winner is found by a strict-maximum
scan that visits the map in an arbitrary order. A candidate with the largest count wins in some
order, and the order does not matter exactly when no two candidates share that count.
-/

universe u v

/-- An order in which a map can be visited. -/
structure RangeOrder (α : Type u) where
  visit : List α → List α
  perm : ∀ l, (visit l).Perm l

namespace RangeOrder

variable {α : Type u}

/-- The order the entries are stored in. -/
def stored : RangeOrder α := ⟨id, fun _ => List.Perm.refl _⟩

/-- Visits what satisfies `p` before everything else. -/
def favouring (p : α → Bool) : RangeOrder α :=
  ⟨fun l => l.filter p ++ l.filter (fun a => !p a), fun l => List.filter_append_perm p l⟩

theorem mem_visit (order : RangeOrder α) {l : List α} {a : α} : a ∈ order.visit l ↔ a ∈ l :=
  (order.perm l).mem_iff

end RangeOrder

/-- The number of votes for a candidate, and the first voter. -/
structure Tally (ν : Type v) where
  count : Nat
  exemplar : ν

/-- A map of tallies. -/
abbrev Tallies (K : Type u) (ν : Type v) := AList (fun _ : K => Tally ν)

namespace Tallies

variable {K : Type u} {ν : Type v} [DecidableEq K]

def bump (m : Tallies K ν) (candidate : K) (voter : ν) : Tallies K ν :=
  match m.lookup candidate with
  | some t => m.insert candidate { t with count := t.count + 1 }
  | none => m.insert candidate ⟨1, voter⟩

def ofVotes (votes : List (K × ν)) : Tallies K ν :=
  votes.foldl (fun m vote => bump m vote.1 vote.2) ∅

/-- The scan: a later candidate replaces the best one only with strictly more votes. -/
def scan [Inhabited K] (visited : List (Sigma fun _ : K => Tally ν)) : K × Nat :=
  visited.foldl (fun best p => if best.2 < p.2.count then (p.1, p.2.count) else best) (default, 0)

/-- The candidate the scan ends with, if it reaches the quorum. -/
def best [Inhabited K] (visited : List (Sigma fun _ : K => Tally ν)) (quorum : Int) : Option K :=
  if ((scan visited).2 : Int) < quorum then none else some (scan visited).1

/-! ## What the map holds -/

theorem lookup_bump_self (m : Tallies K ν) (candidate : K) (voter : ν) :
    (m.bump candidate voter).lookup candidate =
      some (((m.lookup candidate).map fun t => { t with count := t.count + 1 }).getD ⟨1, voter⟩) := by
  rw [bump]
  split <;> next h => rw [AList.lookup_insert, h]; rfl

theorem lookup_bump_ne (m : Tallies K ν) {candidate other : K} (h : other ≠ candidate) (voter : ν) :
    (m.bump candidate voter).lookup other = m.lookup other := by
  rw [bump]
  split <;> rw [AList.lookup_insert_ne h]

/-- The voters for one candidate, in the order they voted. -/
def voters (votes : List (K × ν)) (candidate : K) : List ν :=
  (votes.filter (·.1 = candidate)).map (·.2)

theorem lookup_ofVotes (votes : List (K × ν)) (candidate : K) :
    (ofVotes votes).lookup candidate =
      (voters votes candidate).head?.map fun voter => ⟨(voters votes candidate).length, voter⟩ := by
  induction votes using List.reverseRecOn with
  | nil => rfl
  | append_singleton votes vote ih =>
      have hfold : ofVotes (votes ++ [vote]) = (ofVotes votes).bump vote.1 vote.2 := by
        simp [ofVotes]
      rw [hfold]
      by_cases h : candidate = vote.1
      · subst h
        have hvoters : voters (votes ++ [vote]) vote.1 = voters votes vote.1 ++ [vote.2] := by
          simp [voters]
        rw [lookup_bump_self, ih, hvoters]
        cases voters votes vote.1 <;> simp
      · have hvoters : voters (votes ++ [vote]) candidate = voters votes candidate := by
          simp [voters, Ne.symm h]
        rw [lookup_bump_ne _ h, ih, hvoters]

theorem count_of_lookup {votes : List (K × ν)} {candidate : K} {t : Tally ν}
    (h : (ofVotes votes).lookup candidate = some t) :
    t.count = (voters votes candidate).length ∧ 0 < t.count := by
  rw [lookup_ofVotes] at h
  cases hvoters : voters votes candidate with
  | nil => simp [hvoters] at h
  | cons voter rest =>
      simp only [hvoters, List.head?_cons, Option.map_some, Option.some.injEq] at h
      rw [← h]
      exact ⟨rfl, Nat.succ_pos _⟩

theorem voters_map {μ : Type v} (f : ν → μ) (votes : List (K × ν)) (candidate : K) :
    voters (votes.map (Prod.map id f)) candidate = (voters votes candidate).map f := by
  simp only [voters, List.filter_map, List.map_map]
  rfl

/-- The map has the candidates that were voted for. -/
theorem mem_keys_ofVotes {votes : List (K × ν)} {candidate : K} :
    candidate ∈ (ofVotes votes).keys ↔ candidate ∈ votes.map Prod.fst := by
  rw [← AList.mem_keys, ← AList.lookup_isSome, lookup_ofVotes, Option.isSome_map,
    List.isSome_head?]
  simp [voters]

/-- Votes for the same candidates fill maps with the same keys. -/
theorem keys_perm {μ : Type v} {votes : List (K × ν)} {votes' : List (K × μ)}
    (h : votes.map Prod.fst = votes'.map Prod.fst) :
    (ofVotes votes).keys.Perm (ofVotes votes').keys := by
  rw [List.perm_ext_iff_of_nodup (AList.keys_nodup _) (AList.keys_nodup _)]
  intro candidate
  rw [mem_keys_ofVotes, mem_keys_ofVotes, h]

/-- There are several candidates exactly when two votes differ. -/
theorem one_lt_length_ofVotes {votes : List (K × ν)} :
    1 < (ofVotes votes).entries.length ↔
      ∃ a ∈ votes.map Prod.fst, ∃ b ∈ votes.map Prod.fst, a ≠ b := by
  have hlength : (ofVotes votes).entries.length = (ofVotes votes).keys.toFinset.card := by
    rw [List.toFinset_card_of_nodup (AList.keys_nodup _)]
    simp [AList.keys, List.keys]
  rw [hlength, Finset.one_lt_card]
  simp only [List.mem_toFinset, mem_keys_ofVotes]

/-! ## What the scan finds -/

section Scan

omit [DecidableEq K]

variable [Inhabited K] {visited : List (Sigma fun _ : K => Tally ν)}

theorem scan_append_singleton (visited : List (Sigma fun _ : K => Tally ν))
    (p : Sigma fun _ : K => Tally ν) :
    scan (visited ++ [p]) =
      if (scan visited).2 < p.2.count then (p.1, p.2.count) else scan visited := by
  rw [scan, List.foldl_append]
  rfl

theorem count_le_scan {p : Sigma fun _ : K => Tally ν} (hp : p ∈ visited) :
    p.2.count ≤ (scan visited).2 := by
  induction visited using List.reverseRecOn with
  | nil => cases hp
  | append_singleton visited q ih =>
      rw [scan_append_singleton]
      rcases List.mem_append.mp hp with hp | hp
      · have := ih hp
        split
        · dsimp only
          omega
        · exact this
      · rw [List.mem_singleton.mp hp]
        split
        · exact Nat.le_refl _
        · omega

theorem scan_mem (h : 0 < (scan visited).2) :
    ∃ t, ⟨(scan visited).1, t⟩ ∈ visited ∧ t.count = (scan visited).2 := by
  induction visited using List.reverseRecOn with
  | nil => exact absurd h (Nat.lt_irrefl 0)
  | append_singleton visited q ih =>
      rw [scan_append_singleton] at h ⊢
      split
      · exact ⟨q.2, List.mem_append_right _ (List.mem_singleton_self q), rfl⟩
      · next hle =>
          rw [if_neg hle] at h
          obtain ⟨t, ht, hcount⟩ := ih h
          exact ⟨t, List.mem_append_left _ ht, hcount⟩

/-- A first entry that nobody beats stays the best to the end. -/
theorem scan_cons_of_max {p : Sigma fun _ : K => Tally ν} (hpos : 0 < p.2.count)
    (hmax : ∀ q ∈ visited, q.2.count ≤ p.2.count) : scan (p :: visited) = (p.1, p.2.count) := by
  induction visited using List.reverseRecOn with
  | nil => simp [scan, hpos]
  | append_singleton visited q ih =>
      have hq : q.2.count ≤ p.2.count := hmax q (by simp)
      have hrest : scan (p :: visited) = (p.1, p.2.count) := by
        apply ih
        intro r hr
        exact hmax r (List.mem_append_left _ hr)
      rw [← List.cons_append, scan_append_singleton, hrest, if_neg (by dsimp only; omega)]

end Scan

variable [Inhabited K] {m : Tallies K ν} {quorum : Int} {candidate : K}

/-- A candidate with the largest count, at or above the quorum. -/
def Leads (m : Tallies K ν) (quorum : Int) (candidate : K) : Prop :=
  ∃ t, m.lookup candidate = some t ∧ quorum ≤ t.count ∧
    ∀ other t', m.lookup other = some t' → t'.count ≤ t.count

omit [Inhabited K] in
theorem mem_visit_iff (order : RangeOrder (Sigma fun _ : K => Tally ν)) {t : Tally ν} :
    ⟨candidate, t⟩ ∈ order.visit m.entries ↔ m.lookup candidate = some t := by
  rw [order.mem_visit, ← AList.mem_lookup_iff]
  rfl

theorem leads_of_best (hquorum : 0 < quorum) (order : RangeOrder (Sigma fun _ : K => Tally ν))
    (h : best (order.visit m.entries) quorum = some candidate) : m.Leads quorum candidate := by
  rw [best] at h
  split at h
  · cases h
  next hreached =>
    cases h
    have hpos : 0 < (scan (order.visit m.entries)).2 := by omega
    obtain ⟨t, ht, hcount⟩ := scan_mem hpos
    refine ⟨t, (mem_visit_iff order).mp ht, by omega, ?_⟩
    intro other t' hother
    rw [hcount]
    exact count_le_scan ((mem_visit_iff order).mpr hother)

/-- Who is selected was voted for. -/
theorem exists_vote_of_best {votes : List (K × ν)} (hquorum : 0 < quorum)
    (order : RangeOrder (Sigma fun _ : K => Tally ν))
    (h : best (order.visit (ofVotes votes).entries) quorum = some candidate) :
    ∃ voter, (candidate, voter) ∈ votes := by
  obtain ⟨t, ht, -⟩ := leads_of_best hquorum order h
  have hkey : candidate ∈ (ofVotes votes).keys :=
    AList.mem_keys.mp (AList.lookup_isSome.mp (Option.isSome_iff_exists.mpr ⟨t, ht⟩))
  obtain ⟨⟨_, voter⟩, hvote, rfl⟩ := List.mem_map.mp (mem_keys_ofVotes.mp hkey)
  exact ⟨voter, hvote⟩

/-- Without votes nobody reaches a quorum. -/
theorem best_no_votes (hquorum : 0 < quorum) (order : RangeOrder (Sigma fun _ : K => Tally ν)) :
    best (order.visit (ofVotes ([] : List (K × ν))).entries) quorum = none := by
  cases h : best (order.visit (ofVotes ([] : List (K × ν))).entries) quorum with
  | none => rfl
  | some candidate =>
      obtain ⟨t, ht, -⟩ := leads_of_best hquorum order h
      cases ht

/-- The scan finds nobody exactly when nobody reaches the quorum. -/
theorem best_eq_none_iff (hquorum : 0 < quorum) (order : RangeOrder (Sigma fun _ : K => Tally ν))
    (votes : List (K × ν)) :
    best (order.visit (ofVotes votes).entries) quorum = none ↔
      ∀ candidate, ((voters votes candidate).length : Int) < quorum := by
  constructor
  · intro hnone candidate
    by_contra hreached
    cases hvoters : voters votes candidate with
    | nil =>
        rw [hvoters, List.length_nil] at hreached
        omega
    | cons voter rest =>
        have hlookup := lookup_ofVotes votes candidate
        rw [hvoters] at hlookup hreached
        have hle := count_le_scan ((mem_visit_iff order).mpr hlookup)
        dsimp only at hle
        rw [best, if_neg (by omega)] at hnone
        cases hnone
  · intro hbelow
    cases hbest : best (order.visit (ofVotes votes).entries) quorum with
    | none => rfl
    | some candidate =>
        obtain ⟨t, ht, hcount, _⟩ := leads_of_best hquorum order hbest
        have := hbelow candidate
        rw [← (count_of_lookup ht).1] at this
        omega

/-- A candidate with a quorum of votes and more than any other. -/
structure ClearChoice (votes : List (K × ν)) (quorum : Int) (candidate : K) : Prop where
  quorum : quorum ≤ (voters votes candidate).length
  ahead : ∀ other, other ≠ candidate →
    (voters votes other).length < (voters votes candidate).length

/-- A clear choice is found in whatever order the map is visited. -/
theorem ClearChoice.best {votes : List (K × ν)} (h : ClearChoice votes quorum candidate)
    (hquorum : 0 < quorum) (order : RangeOrder (Sigma fun _ : K => Tally ν)) :
    best (order.visit (ofVotes votes).entries) quorum = some candidate := by
  cases hbest : Tallies.best (order.visit (ofVotes votes).entries) quorum with
  | none =>
      have hbelow := (best_eq_none_iff hquorum order votes).mp hbest candidate
      exact absurd h.quorum (by omega)
  | some winner =>
      obtain ⟨t, ht, _, hmost⟩ := leads_of_best hquorum order hbest
      by_contra hne
      have hbehind := h.ahead winner (fun heq => hne (congrArg some heq))
      cases hvoters : voters votes candidate with
      | nil =>
          rw [hvoters] at hbehind
          cases hbehind
      | cons voter rest =>
          have hlookup := lookup_ofVotes votes candidate
          rw [hvoters] at hlookup hbehind
          have hle := hmost candidate _ hlookup
          rw [(count_of_lookup ht).1] at hle
          exact absurd hbehind (by dsimp only at hle; omega)

theorem exists_best_of_leads (order : RangeOrder (Sigma fun _ : K => Tally ν))
    (h : m.Leads quorum candidate) : ∃ winner, best (order.visit m.entries) quorum = some winner := by
  obtain ⟨t, ht, hcount, _⟩ := h
  have hle := count_le_scan ((mem_visit_iff order).mpr ht)
  refine ⟨(scan (order.visit m.entries)).1, ?_⟩
  rw [best, if_neg (by dsimp only at hle; omega)]

/-- With at most one leader, every order finds the same candidate. -/
theorem best_eq_of_unique (hquorum : 0 < quorum)
    (hunique : ∀ a b, m.Leads quorum a → m.Leads quorum b → a = b)
    (order order' : RangeOrder (Sigma fun _ : K => Tally ν)) :
    best (order.visit m.entries) quorum = best (order'.visit m.entries) quorum := by
  cases h : best (order.visit m.entries) quorum with
  | some a =>
      have ha := leads_of_best hquorum order h
      obtain ⟨b, hb⟩ := exists_best_of_leads order' ha
      rw [hb, hunique a b ha (leads_of_best hquorum order' hb)]
  | none =>
      cases h' : best (order'.visit m.entries) quorum with
      | none => rfl
      | some b =>
          obtain ⟨a, ha⟩ := exists_best_of_leads order (leads_of_best hquorum order' h')
          rw [h] at ha
          cases ha

/-- Two candidates share the largest count, at or above the quorum. -/
def Tied (m : Tallies K ν) (quorum : Int) : Prop :=
  ∃ a b, a ≠ b ∧ m.Leads quorum a ∧ m.Leads quorum b

theorem best_eq_of_not_tied (hquorum : 0 < quorum) (h : ¬ m.Tied quorum)
    (order order' : RangeOrder (Sigma fun _ : K => Tally ν)) :
    best (order.visit m.entries) quorum = best (order'.visit m.entries) quorum := by
  apply best_eq_of_unique hquorum
  intro a b ha hb
  by_contra hne
  exact h ⟨a, b, hne, ha, hb⟩

omit [Inhabited K] in
theorem Tied.exists_other (h : m.Tied quorum) (candidate : K) :
    ∃ other, other ≠ candidate ∧ m.Leads quorum other := by
  obtain ⟨a, b, hne, ha, hb⟩ := h
  by_cases heq : a = candidate
  · exact ⟨b, fun hb => hne (heq.trans hb.symm), hb⟩
  · exact ⟨a, heq, ha⟩

/-- Visiting a leader first makes it win. -/
theorem best_favouring (hquorum : 0 < quorum) (h : m.Leads quorum candidate) :
    best ((RangeOrder.favouring fun p => decide (p.1 = candidate)).visit m.entries) quorum =
      some candidate := by
  obtain ⟨t, ht, hcount, hmax⟩ := h
  have hmem : (⟨candidate, t⟩ : Sigma fun _ : K => Tally ν) ∈
      m.entries.filter (fun p => decide (p.1 = candidate)) := by
    rw [List.mem_filter]
    exact ⟨AList.mem_lookup_iff.mp ht, by simp⟩
  obtain ⟨p, rest, hfilter⟩ := List.exists_cons_of_ne_nil (List.ne_nil_of_mem hmem)
  have hp : p ∈ m.entries.filter (fun p => decide (p.1 = candidate)) := by
    rw [hfilter]
    exact List.mem_cons_self
  obtain ⟨hentry, hkey⟩ := List.mem_filter.mp hp
  obtain ⟨key, tally⟩ := p
  obtain rfl : key = candidate := by simpa using hkey
  obtain rfl : tally = t := Option.some.inj ((AList.mem_lookup_iff.mpr hentry).symm.trans ht)
  have hvisit : (RangeOrder.favouring fun p : Sigma fun _ : K => Tally ν =>
      decide (p.1 = key)).visit m.entries =
        ⟨key, tally⟩ :: (rest ++ m.entries.filter (fun p => !decide (p.1 = key))) := by
    rw [RangeOrder.favouring]
    dsimp only
    rw [hfilter, List.cons_append]
  have hscan : scan ((RangeOrder.favouring fun p : Sigma fun _ : K => Tally ν =>
      decide (p.1 = key)).visit m.entries) = (key, tally.count) := by
    rw [hvisit]
    apply scan_cons_of_max (by dsimp only; omega)
    intro q hq
    have hmemq : q ∈ (RangeOrder.favouring fun p : Sigma fun _ : K => Tally ν =>
        decide (p.1 = key)).visit m.entries := by
      rw [hvisit]
      exact List.mem_cons_of_mem _ hq
    exact hmax q.1 q.2 ((mem_visit_iff _).mp hmemq)
  rw [best, hscan, if_neg (by dsimp only; omega)]

end Tallies
