import Mathlib.Data.List.DropRight

/-!
# A memory of the last keys

A key that is not among the last `n` that were taken is taken and remembered; the oldest one
is forgotten. Between two times that one key is taken there are at least `n` others.
-/
namespace BlackMonolith.Library

variable {α : Type*} {n : ℕ} {xs : List α} {x : α}

/-- Between two occurrences of an element there are at least `n` elements. -/
def Spaced (n : ℕ) (xs : List α) : Prop :=
  ∀ x front middle back, xs = front ++ x :: middle ++ x :: back → n ≤ middle.length

theorem spaced_nil : Spaced n ([] : List α) := by
  intro x front middle back h
  cases front with
  | nil => cases h
  | cons y front => cases h

/-- An element that is not among the last `n` may follow. -/
theorem Spaced.concat (h : Spaced n xs) (hx : x ∉ xs.rtake n) : Spaced n (xs ++ [x]) := by
  intro y front middle back heq
  induction back using List.reverseRec with
  | nil =>
      have hlast := List.append_inj' heq rfl
      obtain ⟨hfront, hsame⟩ := hlast
      cases hsame
      by_contra hshort
      push Not at hshort
      apply hx
      have hlength : (front ++ x :: middle).length - n ≤ front.length := by
        rw [List.length_append, List.length_cons]
        omega
      rw [hfront, List.rtake, List.drop_append_of_le_length hlength]
      exact List.mem_append_right _ List.mem_cons_self
  | append_singleton back z _ =>
      have hsplit : xs ++ [x] = (front ++ y :: middle ++ y :: back) ++ [z] := by
        rw [heq]
        simp only [List.append_assoc, List.cons_append]
      exact h y front middle back (List.append_inj' hsplit rfl).1

/-- The memory once an element has been taken. -/
theorem rtake_concat : (xs ++ [x]).rtake n =
    if n < (xs.rtake n ++ [x]).length then (xs.rtake n ++ [x]).tail else xs.rtake n ++ [x] := by
  have hlength : (xs.rtake n ++ [x]).length = min n xs.length + 1 := by
    rw [List.length_append, List.rtake, List.length_drop, List.length_singleton]
    omega
  rw [hlength]
  unfold List.rtake
  rw [List.length_append, List.length_singleton]
  split_ifs with hfull
  · have hmore : xs.length + 1 - n = xs.length - n + 1 := by omega
    rw [hmore, ← List.drop_append_of_le_length (Nat.sub_le _ _), List.tail_drop]
  · have hall : xs.length + 1 - n = xs.length - n := by omega
    rw [hall, List.drop_append_of_le_length (Nat.sub_le _ _)]

end BlackMonolith.Library
