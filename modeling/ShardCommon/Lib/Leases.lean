import Mathlib.Data.List.Pairwise
import ShardCommon.Lib.TtlMap

/-!
# Leases

Callers that write keys of a TTL map only if they are absent hold leases: a write that goes through is
a grant for its lifetime, and one that is refused names a grant that is still running. The grants are
listed newest first, each with the caller it went to.
-/

namespace Leases

open TtlMap

universe u v w

structure Grant (K : Type u) (O : Type w) where
  key : K
  owner : O
  time : Int
  ttl : Int

variable {K : Type u} {V : Type v} {O : Type w}

/-- The grant has not run out; without an end before the horizon it never does. -/
def Grant.Live (horizon : Int) (g : Grant K O) (now : Int) : Prop :=
  g.ttl ≤ 0 ∨ horizon < g.time + g.ttl ∨ now < g.time + g.ttl

/-- The later of two grants on one key begins when the earlier one is over. -/
def Apart (horizon : Int) (later earlier : Grant K O) : Prop :=
  later.key = earlier.key → ¬ earlier.Live horizon later.time

variable [DecidableEq K]

/-- The map holds the last grant on each key, and no two grants on a key overlap. -/
structure Sound (horizon : Int) (m : K → Option (Write V)) (grants : List (Grant K O)) : Prop where
  latest : ∀ key, (m key).map (fun w => (w.time, w.ttl))
    = (grants.find? fun g => g.key = key).map fun g => (g.time, g.ttl)
  apart : grants.Pairwise (Apart horizon)

variable {horizon now : Int} {m : K → Option (Write V)} {grants : List (Grant K O)} {key : K}
  {value : V} {ttl : Int}

theorem Sound.empty (horizon : Int) : Sound horizon (fun _ : K => (none : Option (Write V)))
    ([] : List (Grant K O)) := ⟨fun _ => rfl, List.Pairwise.nil⟩

/-- A running grant is found where the map has a present write. -/
theorem Sound.present_iff (h : Sound horizon m grants) :
    ((m key).any fun w => w.present horizon now) = true
      ↔ ∃ g, grants.find? (fun g => g.key = key) = some g ∧ g.Live horizon now := by
  have hlatest := h.latest key
  cases hm : m key with
  | none =>
      rw [hm, Option.map_none, eq_comm, Option.map_eq_none_iff] at hlatest
      simp [hlatest]
  | some w =>
      rw [hm, Option.map_some, eq_comm, Option.map_eq_some_iff] at hlatest
      obtain ⟨g, hg, hsame⟩ := hlatest
      obtain ⟨htime, httl⟩ := Prod.mk.inj hsame
      rw [Option.any_some, Write.present_iff, hg]
      constructor
      · intro hpresent
        refine ⟨g, rfl, ?_⟩
        rw [Grant.Live, htime, httl]
        exact hpresent
      · rintro ⟨g', hg', hlive⟩
        cases hg'
        rwa [Grant.Live, htime, httl] at hlive

theorem Sound.refused (h : Sound horizon m grants)
    (hlost : (setNX horizon m key value ttl now).2 = false) :
    (setNX horizon m key value ttl now).1 = m ∧
      ∃ g ∈ grants, g.key = key ∧ g.Live horizon now := by
  rw [setNX] at hlost ⊢
  split
  · next hpresent =>
      obtain ⟨g, hfind, hlive⟩ := h.present_iff.mp hpresent
      exact ⟨rfl, g, List.mem_of_find?_eq_some hfind, by simpa using List.find?_some hfind, hlive⟩
  · next habsent =>
      rw [if_neg habsent] at hlost
      cases hlost

/-- All grants on a key are over when the last one is. -/
theorem Sound.over (h : Sound horizon m grants)
    (habsent : ¬ ((m key).any fun w => w.present horizon now) = true) :
    ∀ g ∈ grants, g.key = key → ¬ g.Live horizon now := by
  intro g hg hkey
  obtain ⟨last, hfind⟩ : ∃ last, grants.find? (fun g => g.key = key) = some last :=
    Option.isSome_iff_exists.mp (List.find?_isSome.mpr ⟨g, hg, by simpa using hkey⟩)
  have hover : ¬ last.Live horizon now := fun hlive => habsent (h.present_iff.mpr ⟨last, hfind, hlive⟩)
  have hlast : last.key = key := by simpa using List.find?_some hfind
  rcases List.find?_eq_some_iff_append.mp hfind with ⟨_, before, after, rfl, hbefore⟩
  rcases List.mem_append.mp hg with hg | hg
  · exact absurd hkey (by simpa using hbefore g hg)
  · rcases List.mem_cons.mp hg with rfl | hg
    · exact hover
    · -- an older grant ended before the last one began
      have hapart := (List.pairwise_cons.mp (List.pairwise_append.mp h.apart).2.1).1 g hg
        (hlast.trans hkey.symm)
      intro hlive
      simp only [Grant.Live] at hapart hover hlive
      omega

theorem Sound.granted (h : Sound horizon m grants) (owner : O)
    (hwon : (setNX horizon m key value ttl now).2 = true) :
    Sound horizon (setNX horizon m key value ttl now).1 (⟨key, owner, now, ttl⟩ :: grants) := by
  have habsent : ¬ ((m key).any fun w => w.present horizon now) = true := by
    intro hpresent
    rw [setNX, if_pos hpresent] at hwon
    cases hwon
  rw [setNX, if_neg habsent]
  refine ⟨fun other => ?_, List.pairwise_cons.mpr ⟨fun g hg hkey => ?_, h.apart⟩⟩
  · by_cases hother : other = key
    · subst hother
      simp [TtlMap.set]
    · dsimp only [TtlMap.set]
      rw [Function.update_of_ne hother, List.find?_cons_of_neg (by simpa using Ne.symm hother)]
      exact h.latest other
  · exact h.over habsent g hg hkey.symm

/-- Of two grants on one key, one is over when the other begins. -/
theorem Sound.disjoint (h : Sound horizon m grants) {g g' : Grant K O} (hg : g ∈ grants)
    (hg' : g' ∈ grants) (hne : g ≠ g') (hkey : g.key = g'.key) :
    g.time + g.ttl ≤ g'.time ∨ g'.time + g'.ttl ≤ g.time := by
  let either (a b : Grant K O) : Prop := Apart horizon a b ∨ Apart horizon b a
  have : Std.Symm either := ⟨fun _ _ => Or.symm⟩
  have hpair : grants.Pairwise either := h.apart.imp fun hapart => Or.inl hapart
  rcases hpair.forall hg hg' hne with hapart | hapart
  · have hover := hapart hkey
    simp only [Grant.Live] at hover
    omega
  · have hover := hapart hkey.symm
    simp only [Grant.Live] at hover
    omega

end Leases
