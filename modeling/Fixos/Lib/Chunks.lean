import Mathlib.Algebra.BigOperators.Group.List.Basic
import Mathlib.Algebra.Ring.Nat

/-! # Positions in a list of chunks

A position is a chunk, given by the chunks from it on, and an offset inside it. Where the last chunk ends, the position
is the start of what follows.
-/

namespace Chunks

open List

universe u

variable {α : Type u} (size : α → Nat)

def total (xs : List α) : Nat := (xs.map size).sum

def At (xs : List α) (pos : Nat) (rest : List α) (off : Nat) : Prop :=
  ∃ front, xs = front ++ rest ∧ total size front + off = pos ∧ ∀ x ∈ rest.head?, off < size x

variable {size} {xs ys rest : List α} {pos off : Nat}

@[simp] lemma total_nil : total size [] = 0 := rfl

lemma total_cons (x : α) (xs : List α) : total size (x :: xs) = size x + total size xs := by
  rw [total, map_cons, sum_cons, total]

lemma total_append (xs ys : List α) : total size (xs ++ ys) = total size xs + total size ys := by
  rw [total, map_append, sum_append, total, total]

lemma at_here (h : ∀ x ∈ xs.head?, off < size x) : At size xs off xs off := ⟨[], rfl, Nat.zero_add off, h⟩

lemma At.append_left (front : List α) (h : At size xs pos rest off) :
    At size (front ++ xs) (total size front + pos) rest off := by
  obtain ⟨before, rfl, rfl, hInside⟩ := h
  refine ⟨front ++ before, (append_assoc front before rest).symm, ?_, hInside⟩
  rw [total_append, Nat.add_assoc]

lemma At.cons (x : α) (h : At size xs pos rest off) : At size (x :: xs) (size x + pos) rest off := by
  have hNext := h.append_left [x]
  rwa [total_cons, total_nil, Nat.add_zero] at hNext

lemma At.pos_unique {pos' : Nat} (h : At size xs pos rest off) (h' : At size xs pos' rest off) : pos = pos' := by
  obtain ⟨_, hSplit, rfl, _⟩ := h
  obtain ⟨_, hSplit', rfl, _⟩ := h'
  rw [append_cancel_right (hSplit.symm.trans hSplit')]

lemma At.split (hPos : ∀ x, 0 < size x) (h : At size (xs ++ ys) pos rest off) (hLe : pos ≤ total size xs) :
    ∃ front mid, xs = front ++ mid ∧ rest = mid ++ ys ∧ total size front + off = pos := by
  obtain ⟨front, hSplit, hFront, _⟩ := h
  rcases append_eq_append_iff.mp hSplit with ⟨more, rfl, rfl⟩ | ⟨mid, rfl, rfl⟩
  · -- the chunks before the position include all of `xs`, so they are just these
    cases more with
    | nil => exact ⟨xs, [], (append_nil xs).symm, rfl, by rwa [append_nil] at hFront⟩
    | cons x more =>
      rw [total_append, total_cons] at hFront
      have := hPos x
      omega
  · exact ⟨front, mid, rfl, rfl, hFront⟩

lemma At.step (hPos : ∀ x, 0 < size x) {x : α} (h : At size xs pos (x :: rest) off) :
    if off + 1 < size x then At size xs (pos + 1) (x :: rest) (off + 1) else At size xs (pos + 1) rest 0 := by
  obtain ⟨front, rfl, rfl, hInside⟩ := h
  have hLt : off < size x := hInside x rfl
  split
  · refine ⟨front, rfl, rfl, fun y hy => ?_⟩
    rw [head?_cons, Option.mem_some] at hy
    rwa [← hy]
  · refine ⟨front ++ [x], by rw [append_assoc]; rfl, ?_, fun y _ => hPos y⟩
    rw [total_append, total_cons, total_nil]
    omega

end Chunks
