import Mathlib.Data.List.Sort

/-!
# Removing the oldest rows of a table

A bound on a table is kept by removing as many rows of least rank as there are
too many. A scan is an order in which the rows are read; it settles ties. Rows
are told apart by a key.
-/
namespace BlackMonolith.Library

variable {α κ : Type*}

/-- An order in which an engine reads the rows of a table. -/
structure Scan (α : Type*) where
  read : List α → List α
  perm : ∀ rows, (read rows).Perm rows

namespace Scan

/-- The rows as they stand. -/
def inOrder : Scan α := ⟨id, fun rows => .refl rows⟩

/-- The first rows by rank, of equal ones those read first. -/
def oldest (scan : Scan α) (rank : α → ℕ) (n : ℕ) (rows : List α) : List α :=
  ((scan.read rows).insertionSort fun a b => rank a ≤ rank b).take n

variable {scan : Scan α} {rank : α → ℕ} {n : ℕ} {rows : List α} {a b : α}

theorem sorted_perm (scan : Scan α) (rank : α → ℕ) (rows : List α) :
    ((scan.read rows).insertionSort fun a b => rank a ≤ rank b).Perm rows :=
  (List.perm_insertionSort _ _).trans (scan.perm rows)

theorem mem_of_mem_oldest (h : a ∈ scan.oldest rank n rows) : a ∈ rows :=
  (scan.sorted_perm rank rows).mem_iff.mp (List.mem_of_mem_take h)

/-- No row that is left has a smaller rank than one that is taken. -/
theorem rank_le_of_oldest (ha : a ∈ scan.oldest rank n rows) (hb : b ∈ rows)
    (hnot : b ∉ scan.oldest rank n rows) : rank a ≤ rank b := by
  have hsorted : ((scan.read rows).insertionSort fun a b => rank a ≤ rank b).Pairwise
      fun a b => rank a ≤ rank b := by
    have : Std.Total fun a b : α => rank a ≤ rank b := ⟨fun a b => Nat.le_total _ _⟩
    have : IsTrans α fun a b : α => rank a ≤ rank b := ⟨fun a b c => Nat.le_trans⟩
    exact List.pairwise_insertionSort _ _
  have hmem := (scan.sorted_perm rank rows).mem_iff.mpr hb
  unfold oldest at ha hnot
  rw [← List.take_append_drop n ((scan.read rows).insertionSort fun a b => rank a ≤ rank b)]
    at hsorted hmem
  have hdrop := (List.mem_append.mp hmem).resolve_left hnot
  exact (List.pairwise_append.mp hsorted).2.2 a ha b hdrop

/-- As many rows are left as there are beyond the first. -/
theorem length_left [DecidableEq κ] {key : α → κ} (hkeys : (rows.map key).Nodup) :
    (rows.filter fun r => key r ∉ (scan.oldest rank n rows).map key).length = rows.length - n := by
  have hperm := scan.sorted_perm rank rows
  unfold oldest
  generalize (scan.read rows).insertionSort (fun a b => rank a ≤ rank b) = sorted at hperm ⊢
  rw [(hperm.symm.filter _).length_eq, hperm.symm.length_eq]
  have hnodup : ((sorted.take n).map key ++ (sorted.drop n).map key).Nodup := by
    rw [← List.map_append, List.take_append_drop]
    exact (hperm.map key).nodup_iff.mpr hkeys
  have hdisjoint := (List.nodup_append.mp hnodup).2.2
  have hsplit : sorted.filter (fun r => key r ∉ (sorted.take n).map key) = sorted.drop n := by
    conv_lhs => rw [← List.take_append_drop n sorted]
    rw [List.filter_append]
    have htaken : (sorted.take n).filter (fun r => key r ∉ (sorted.take n).map key) = [] := by
      rw [List.filter_eq_nil_iff]
      intro r hr
      simp only [decide_not, Bool.not_eq_true', decide_eq_false_iff_not, not_not]
      exact List.mem_map_of_mem hr
    have hkept : (sorted.drop n).filter (fun r => key r ∉ (sorted.take n).map key) =
        sorted.drop n := by
      rw [List.filter_eq_self]
      intro r hr
      rw [decide_eq_true_iff]
      intro hmem
      exact hdisjoint (key r) hmem (key r) (List.mem_map_of_mem hr) rfl
    rw [List.take_append_drop, htaken, hkept, List.nil_append]
  rw [hsplit, List.length_drop]

end Scan

end BlackMonolith.Library
