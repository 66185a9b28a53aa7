import Mathlib.Data.List.Chain
import Mathlib.Tactic.Common

/-!
# Greedy chunks

A list is cut into chunks from left to right: a chunk takes elements as long as its state admits
them, and the next chunk starts with the element that was refused. Since a fresh chunk admits any
element, every chunk takes at least one and the cutting ends.
-/

/-- How a chunk is filled: its state, and the state after one more element if that is admitted. -/
structure Filler (σ α : Type) where
  start : σ
  accept : σ → α → Option σ
  accepts_first : ∀ a, (accept start a).isSome

namespace Filler

variable {σ α : Type} (f : Filler σ α)

/-- The elements that go into a chunk in state `s`, and those that are left. -/
def fill : σ → List α → List α × List α
  | _, [] => ([], [])
  | s, a :: l =>
    match f.accept s a with
    | none => ([], a :: l)
    | some s' => (a :: (fill s' l).1, (fill s' l).2)

theorem fill_append (s : σ) (l : List α) : (f.fill s l).1 ++ (f.fill s l).2 = l := by
  induction l generalizing s with
  | nil => rfl
  | cons a l ih =>
      rw [fill]
      split
      · rfl
      · rw [List.cons_append, ih]

theorem fill_start_ne_nil (a : α) (l : List α) : (f.fill f.start (a :: l)).1 ≠ [] := by
  obtain ⟨s', hs'⟩ := Option.isSome_iff_exists.mp (f.accepts_first a)
  rw [fill, hs']
  exact List.cons_ne_nil _ _

theorem length_fill_start_lt (a : α) (l : List α) :
    (f.fill f.start (a :: l)).2.length < (a :: l).length := by
  have happend := congrArg List.length (f.fill_append f.start (a :: l))
  have hpos := List.length_pos_iff.mpr (f.fill_start_ne_nil a l)
  rw [List.length_append] at happend
  omega

def chunks : List α → List (List α)
  | [] => []
  | a :: l => (f.fill f.start (a :: l)).1 :: chunks (f.fill f.start (a :: l)).2
termination_by l => l.length
decreasing_by exact f.length_fill_start_lt a l

@[simp] theorem chunks_nil : f.chunks [] = [] := by
  rw [chunks]

theorem chunks_cons (a : α) (l : List α) :
    f.chunks (a :: l) =
      (f.fill f.start (a :: l)).1 :: f.chunks (f.fill f.start (a :: l)).2 := by
  rw [chunks]

/-- Induction along the chunks. -/
theorem chunks_induction {motive : List α → Prop} (nil : motive [])
    (cons : ∀ a l, motive (f.fill f.start (a :: l)).2 → motive (a :: l)) : ∀ l, motive l
  | [] => nil
  | a :: l => cons a l (chunks_induction nil cons (f.fill f.start (a :: l)).2)
termination_by l => l.length
decreasing_by exact f.length_fill_start_lt a l

theorem flatten_chunks (l : List α) : (f.chunks l).flatten = l := by
  induction l using f.chunks_induction with
  | nil => rw [chunks_nil, List.flatten_nil]
  | cons a l ih => rw [chunks_cons, List.flatten_cons, ih, fill_append]

theorem ne_nil_of_mem_chunks (l : List α) : ∀ chunk ∈ f.chunks l, chunk ≠ [] := by
  induction l using f.chunks_induction with
  | nil => simp
  | cons a l ih =>
      rw [chunks_cons]
      exact List.forall_mem_cons.mpr ⟨f.fill_start_ne_nil a l, ih⟩

/-! ## What holds of a chunk

`Filled` relates the elements of a chunk to its state; one element more preserves it. -/

section Rule

variable {f} {Filled : List α → σ → Prop}
  (hstep : ∀ chunk s a s', Filled chunk s → f.accept s a = some s' → Filled (chunk ++ [a]) s')

include hstep

/-- The chunk is filled up to the element that its state refuses. -/
theorem filled_fill (l : List α) : ∀ {chunk s}, Filled chunk s →
    ∃ s', Filled (chunk ++ (f.fill s l).1) s' ∧
      ∀ a, (f.fill s l).2.head? = some a → f.accept s' a = none := by
  induction l with
  | nil =>
      intro chunk s hfilled
      refine ⟨s, ?_, by nofun⟩
      rwa [fill, List.append_nil]
  | cons a l ih =>
      intro chunk s hfilled
      rw [fill]
      cases haccept : f.accept s a with
      | none =>
          refine ⟨s, ?_, ?_⟩
          · rwa [List.append_nil]
          · rintro b hb
            rw [List.head?_cons] at hb
            rwa [← Option.some.inj hb]
      | some s' =>
          obtain ⟨last, hlast, hrefused⟩ := ih (hstep chunk s a s' hfilled haccept)
          refine ⟨last, ?_, hrefused⟩
          rwa [List.append_assoc, List.singleton_append] at hlast

theorem filled_chunks (hstart : Filled [] f.start) (l : List α) :
    ∀ chunk ∈ f.chunks l, ∃ s, Filled chunk s := by
  induction l using f.chunks_induction with
  | nil => simp
  | cons a l ih =>
      obtain ⟨s, hs, -⟩ := filled_fill hstep (a :: l) hstart
      rw [chunks_cons]
      exact List.forall_mem_cons.mpr ⟨⟨s, hs⟩, ih⟩

/-- A chunk that is followed by another one has refused its first element. -/
theorem isChain_chunks (hstart : Filled [] f.start) (l : List α) :
    (f.chunks l).IsChain fun chunk next =>
      ∃ s, Filled chunk s ∧ ∀ a, next.head? = some a → f.accept s a = none := by
  induction l using f.chunks_induction with
  | nil =>
      rw [chunks_nil]
      exact List.IsChain.nil
  | cons a l ih =>
      obtain ⟨s, hs, hrefused⟩ := filled_fill hstep (a :: l) hstart
      rw [chunks_cons]
      refine List.isChain_cons.mpr ⟨?_, ih⟩
      intro next hnext
      refine ⟨s, hs, ?_⟩
      intro b hb
      apply hrefused b
      cases hrest : (f.fill f.start (a :: l)).2 with
      | nil =>
          rw [hrest, chunks_nil] at hnext
          cases hnext
      | cons c rest =>
          rw [hrest, chunks_cons, List.head?_cons] at hnext
          obtain rfl := Option.some.inj hnext
          have hfirst := f.fill_append f.start (c :: rest)
          cases hchunk : (f.fill f.start (c :: rest)).1 with
          | nil => exact absurd hchunk (f.fill_start_ne_nil c rest)
          | cons d more =>
              rw [hchunk] at hb hfirst
              rw [List.cons_append] at hfirst
              rw [List.head?_cons] at hb ⊢
              rw [← hb, (List.cons.inj hfirst).1]

end Rule

end Filler
