import Mathlib.Data.List.Basic

/-!
# Longest suffixes

A log that drops its oldest entries until a bound holds keeps the longest
suffix within the bound. Any bound that a shorter suffix meets whenever a
longer one does can be enforced in stages, in any order.
-/
namespace BlackMonolith.Library

variable {α : Type*} {p q : List α → Bool} {xs ys : List α}

/-- The longest suffix meeting `p`, and `[]` when no suffix does. -/
def longestSuffix (p : List α → Bool) : List α → List α
  | [] => []
  | x :: xs => if p (x :: xs) then x :: xs else longestSuffix p xs

/-- Dropping further entries never leaves the bound. -/
def SuffixClosed (p : List α → Bool) : Prop := ∀ xs ys, ys <:+ xs → p xs → p ys

theorem longestSuffix_suffix (p : List α → Bool) (xs : List α) : longestSuffix p xs <:+ xs := by
  induction xs with
  | nil => exact List.suffix_refl _
  | cons x xs ih =>
      simp only [longestSuffix]
      split_ifs with h
      · exact List.suffix_refl _
      · exact ih.trans (List.suffix_cons x xs)

theorem longestSuffix_of_holds (h : p xs) : longestSuffix p xs = xs := by
  cases xs with
  | nil => rfl
  | cons x xs => simp only [longestSuffix, h, if_true]

theorem longestSuffix_holds (h : longestSuffix p xs ≠ []) : p (longestSuffix p xs) := by
  induction xs with
  | nil => exact absurd rfl h
  | cons x xs ih =>
      simp only [longestSuffix] at h ⊢
      split_ifs at h ⊢ with hp
      · exact hp
      · exact ih h

theorem longestSuffix_maximal (hs : ys <:+ xs) (h : p ys) : ys <:+ longestSuffix p xs := by
  induction xs with
  | nil => exact hs
  | cons x xs ih =>
      simp only [longestSuffix]
      split_ifs with hp
      · exact hs
      · rcases List.suffix_cons_iff.mp hs with rfl | hs
        · exact absurd h hp
        · exact ih hs

theorem longestSuffix_congr (h : ∀ ys, ys <:+ xs → p ys = q ys) :
    longestSuffix p xs = longestSuffix q xs := by
  induction xs with
  | nil => rfl
  | cons x xs ih =>
      simp only [longestSuffix, h _ (List.suffix_refl _)]
      rw [ih fun ys hs => h ys (hs.trans (List.suffix_cons x xs))]

/-- Two bounds enforced one after the other are enforced together. -/
theorem longestSuffix_comp (hp : SuffixClosed p) (q : List α → Bool) (xs : List α) :
    longestSuffix q (longestSuffix p xs) = longestSuffix (fun ys => p ys && q ys) xs := by
  induction xs with
  | nil => rfl
  | cons x xs ih =>
      by_cases h : p (x :: xs)
      · rw [longestSuffix_of_holds h]
        refine longestSuffix_congr fun ys hs => ?_
        rw [hp _ _ hs h, Bool.true_and]
      · simp only [longestSuffix, h, Bool.false_and, if_false, Bool.false_eq_true]
        exact ih

/-- Bounding the number of entries is dropping the excess from the front. -/
theorem longestSuffix_length (n : ℕ) (xs : List α) :
    longestSuffix (fun ys => decide (ys.length ≤ n)) xs = xs.drop (xs.length - n) := by
  induction xs with
  | nil => exact List.drop_nil.symm
  | cons x xs ih =>
      simp only [longestSuffix, decide_eq_true_eq]
      split_ifs with h
      · rw [Nat.sub_eq_zero_of_le h, List.drop_zero]
      · have hn : (x :: xs).length - n = (xs.length - n) + 1 := by
          simp only [List.length_cons] at h ⊢
          omega
        rw [hn, List.drop_succ_cons, ih]

end BlackMonolith.Library
