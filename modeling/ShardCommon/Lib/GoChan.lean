import Mathlib.Data.List.Basic
import Mathlib.Tactic.Common

/-!
# Buffered channels

A Go channel with a buffer. Goroutines meet it in single steps: a send that does not wait, a receive
that takes the oldest value or finds out that it has to wait, and the close. The buffer never holds
more than its capacity, which is part of the type.
-/

namespace Go

universe u

structure Chan (α : Type u) where
  cap : Nat
  buffer : List α
  closed : Bool
  within : buffer.length ≤ cap

namespace Chan

variable {α : Type u}

def make (cap : Nat) : Chan α := ⟨cap, [], false, Nat.zero_le cap⟩

inductive Send (α : Type u) where
  | sent (next : Chan α)
  | full
  | panics

/-- `select { case c <- value: default: }`. A closed channel panics whether it is full or not. -/
def trySend (c : Chan α) (value : α) : Send α :=
  if c.closed then .panics
  else if h : c.buffer.length < c.cap then
    .sent ⟨c.cap, c.buffer ++ [value], false, by rw [List.length_append]; exact h⟩
  else .full

inductive Receive (α : Type u) where
  | value (value : α) (next : Chan α)
  | closed
  | waits

/-- `<-c`. A closed channel hands out what it still holds first. -/
def receive (c : Chan α) : Receive α :=
  match h : c.buffer with
  | value :: rest => .value value ⟨c.cap, rest, c.closed, by have := c.within; simp [h] at this; omega⟩
  | [] => if c.closed then .closed else .waits

def close (c : Chan α) : Chan α := { c with closed := true }

theorem trySend_sent {c next : Chan α} {value : α} (h : c.trySend value = .sent next) :
    c.closed = false ∧ next.closed = false ∧ next.cap = c.cap ∧
      next.buffer = c.buffer ++ [value] := by
  rw [trySend] at h
  split at h
  · cases h
  · next hopen =>
      split at h
      · cases h
        exact ⟨Bool.eq_false_iff.mpr hopen, rfl, rfl, rfl⟩
      · cases h

theorem trySend_full {c : Chan α} {value : α} (h : c.trySend value = .full) :
    c.closed = false ∧ c.buffer.length = c.cap := by
  rw [trySend] at h
  split at h
  · cases h
  · next hopen =>
      split at h
      · cases h
      · exact ⟨Bool.eq_false_iff.mpr hopen, by have := c.within; omega⟩

theorem trySend_of_closed {c : Chan α} (h : c.closed = true) (value : α) :
    c.trySend value = .panics := by
  rw [trySend, if_pos h]

theorem trySend_panics {c : Chan α} {value : α} (h : c.trySend value = .panics) :
    c.closed = true := by
  rw [trySend] at h
  split at h
  · assumption
  · split at h <;> cases h

theorem receive_value {c next : Chan α} {value : α} (h : c.receive = .value value next) :
    next.closed = c.closed ∧ next.cap = c.cap ∧ c.buffer = value :: next.buffer := by
  rw [receive] at h
  split at h
  · next hbuffer =>
      cases h
      exact ⟨rfl, rfl, hbuffer⟩
  · split at h <;> cases h

theorem receive_closed {c : Chan α} (h : c.receive = .closed) :
    c.closed = true ∧ c.buffer = [] := by
  rw [receive] at h
  split at h
  · cases h
  · next hbuffer =>
      split at h
      · next hclosed => exact ⟨hclosed, hbuffer⟩
      · cases h

theorem receive_waits {c : Chan α} (h : c.receive = .waits) :
    c.closed = false ∧ c.buffer = [] := by
  rw [receive] at h
  split at h
  · cases h
  · next hbuffer =>
      split at h
      · cases h
      · next hopen => exact ⟨Bool.eq_false_iff.mpr hopen, hbuffer⟩

end Chan

end Go
