import BlackMonolith.Library.InsertionMap
import Mathlib.Algebra.BigOperators.Group.Finset.Basic
import Mathlib.Algebra.BigOperators.Ring.Finset

/-!
# Tallies

A map tallies a list when it has, for each element, the number of its occurrences. It may
have further entries from the start, for elements that need not occur. The numbers add up
to the length of the list.
-/
namespace BlackMonolith.Library
namespace InsertionMap

variable {κ ν : Type*} [DecidableEq κ]

/-- The entries of a map are the elements of `start` and `xs`, with how often each occurs
in `xs`, as `f` writes it. -/
def Tallies (f : ℤ → ν) (start xs : List κ) (m : InsertionMap κ ν) : Prop :=
  ∀ k, m.get? k = if k ∈ start ∨ k ∈ xs then some (f (xs.count k)) else none

section
variable {f : ℤ → ν} {start xs : List κ} {m : InsertionMap κ ν}

theorem tallies_empty : Tallies f [] [] (empty : InsertionMap κ ν) := by
  intro k
  rw [if_neg (by simp)]
  rfl

theorem Tallies.get?_of_mem (h : Tallies f start xs m) {k : κ} (hk : k ∈ start ∨ k ∈ xs) :
    m.get? k = some (f (xs.count k)) := (h k).trans (if_pos hk)

theorem Tallies.get?_of_notMem (h : Tallies f start xs m) {k : κ} (hk : ¬ (k ∈ start ∨ k ∈ xs)) :
    m.get? k = none := (h k).trans (if_neg hk)

/-- What a map has for an element, with 0 for nothing, is how often it occurs. -/
theorem Tallies.getD (h : Tallies f start xs m) (k : κ) :
    (m.get? k).getD (f 0) = f (xs.count k) := by
  by_cases hk : k ∈ start ∨ k ∈ xs
  · rw [h.get?_of_mem hk]
    rfl
  · rw [h.get?_of_notMem hk, List.count_eq_zero_of_not_mem fun hmem => hk (.inr hmem)]
    rfl

theorem Tallies.perm {ys : List κ} (h : Tallies f start xs m) (hperm : xs.Perm ys) :
    Tallies f start ys m := by
  intro k
  rw [h k, hperm.count_eq]
  exact if_congr (or_congr_right hperm.mem_iff) rfl rfl

/-- An entry from the start, for an element that need not occur. -/
theorem Tallies.setZero (h : Tallies f start [] m) (k : κ) :
    Tallies f (k :: start) [] (m.set k (f 0)) := by
  intro k'
  rw [get?_set]
  by_cases hk : k = k'
  · rw [if_pos hk, if_pos (.inl (hk ▸ List.mem_cons_self))]
    rfl
  · rw [if_neg hk, h k']
    exact if_congr (by rw [List.mem_cons, or_iff_right (Ne.symm hk)]) rfl rfl

/-- One more occurrence. -/
theorem Tallies.set (h : Tallies f start xs m) (k : κ) :
    Tallies f start (k :: xs) (m.set k (f (xs.count k + 1))) := by
  intro k'
  rw [get?_set]
  by_cases hk : k = k'
  · rw [if_pos hk, if_pos (.inr (hk ▸ List.mem_cons_self)), ← hk, List.count_cons_self]
    rfl
  · rw [if_neg hk, h k', List.count_cons_of_ne hk]
    exact if_congr (by rw [List.mem_cons, or_iff_right (Ne.symm hk)]) rfl rfl

/-- One occurrence less: the number goes down, or the entry goes. -/
theorem Tallies.lower (h : Tallies f [] (k :: xs) m) :
    Tallies f [] xs (if k ∈ xs then m.set k (f (xs.count k)) else m.erase k) := by
  intro k'
  by_cases hmem : k ∈ xs
  · rw [if_pos hmem, get?_set]
    by_cases hk : k = k'
    · rw [if_pos hk, if_pos (.inr (hk ▸ hmem)), hk]
    · rw [if_neg hk, h k', List.count_cons_of_ne hk]
      exact if_congr (by rw [List.mem_cons, or_iff_right (Ne.symm hk)]) rfl rfl
  · rw [if_neg hmem, get?_erase]
    by_cases hk : k' = k
    · rw [if_pos hk, if_neg]
      rintro (hstart | hk')
      · cases hstart
      · exact hmem (hk ▸ hk')
    · rw [if_neg hk, h k', List.count_cons_of_ne (Ne.symm hk)]
      exact if_congr (by rw [List.mem_cons, or_iff_right hk]) rfl rfl

theorem Tallies.mem_keys (h : Tallies f start xs m) {k : κ} :
    k ∈ m.keys ↔ k ∈ start ∨ k ∈ xs := by
  rw [← not_iff_not, ← get?_eq_none_iff, h k]
  constructor
  · intro hnone hk
    rw [if_pos hk] at hnone
    cases hnone
  · exact fun hk => if_neg hk

theorem Tallies.mem_values (h : Tallies f start xs m) {v : ν} (hv : v ∈ m.values) :
    ∃ k, (k ∈ start ∨ k ∈ xs) ∧ v = f (xs.count k) := by
  obtain ⟨k, hk⟩ := mem_values_iff.mp hv
  by_cases hmem : k ∈ start ∨ k ∈ xs
  · rw [h.get?_of_mem hmem] at hk
    exact ⟨k, hmem, (Option.some.inj hk).symm⟩
  · rw [h.get?_of_notMem hmem] at hk
    cases hk

/-- The numbers add up to the number of all occurrences. -/
theorem Tallies.sum_values (h : Tallies f start xs m) {g : ν → ℤ} (hg : ∀ n, g (f n) = n) :
    (m.values.map g).sum = xs.length := by
  have hvalues : m.values.map g = m.keys.map fun k => (xs.count k : ℤ) := by
    unfold values keys
    rw [List.map_map, List.map_map]
    apply List.map_congr_left
    rintro ⟨k, v⟩ hentry
    have hget := get?_eq_some_iff.mpr hentry
    have hk : k ∈ start ∨ k ∈ xs := h.mem_keys.mp (List.mem_map_of_mem hentry)
    rw [h.get?_of_mem hk] at hget
    show g v = (xs.count k : ℤ)
    rw [← Option.some.inj hget, hg]
  have hsubset : ∀ k ∈ (xs : Multiset κ), k ∈ m.keys.toFinset := by
    intro k hk
    rw [List.mem_toFinset, h.mem_keys]
    exact .inr (Multiset.mem_coe.mp hk)
  have hsum := Multiset.sum_count_eq_card hsubset
  have hkeys : m.keys.Nodup := m.nodup
  rw [hvalues, ← List.sum_toFinset _ hkeys]
  simp only [Multiset.coe_count, Multiset.coe_card] at hsum
  rw [← hsum]
  exact (Nat.cast_sum _ _).symm

end

end InsertionMap
end BlackMonolith.Library
