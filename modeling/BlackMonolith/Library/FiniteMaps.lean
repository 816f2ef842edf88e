import Mathlib.Data.Finmap

/-!
# Finite maps

What is missing about the difference of two finite maps and about maps all of
whose entries have a property.
-/
namespace BlackMonolith.Library

variable {κ ν : Type*} [DecidableEq κ]

section
variable {m m' : Finmap fun _ : κ => ν} {k : κ} {v : ν}

/-- Erasing keys one after the other brings nothing in. -/
theorem lookup_foldl_erase {entries : List (Σ _ : κ, ν)}
    (h : (entries.foldl (fun s p => s.erase p.1) m).lookup k = some v) :
    m.lookup k = some v := by
  induction entries generalizing m with
  | nil => exact h
  | cons p entries ih =>
      have herased := ih h
      by_cases heq : k = p.1
      · rw [heq, Finmap.lookup_erase] at herased
        cases herased
      · rw [Finmap.lookup_erase_ne heq] at herased
        exact herased

theorem lookup_sdiff_some (h : (m \ m').lookup k = some v) : m.lookup k = some v := by
  induction m' using Finmap.induction_on with
  | H entries => exact lookup_foldl_erase h

theorem lookup_foldl_erase_of_notMem {entries : List (Σ _ : κ, ν)} (h : k ∉ entries.keys) :
    (entries.foldl (fun s p => s.erase p.1) m).lookup k = m.lookup k := by
  induction entries generalizing m with
  | nil => rfl
  | cons p entries ih =>
      rw [List.keys_cons, List.mem_cons, not_or] at h
      rw [List.foldl_cons, ih h.2, Finmap.lookup_erase_ne h.1]

theorem lookup_sdiff_of_notMem (h : k ∉ m') : (m \ m').lookup k = m.lookup k := by
  induction m' using Finmap.induction_on with
  | H entries => exact lookup_foldl_erase_of_notMem h

theorem lookup_foldl_erase_of_mem {entries : List (Σ _ : κ, ν)} (h : k ∈ entries.keys) :
    (entries.foldl (fun s p => s.erase p.1) m).lookup k = none := by
  induction entries generalizing m with
  | nil => cases h
  | cons p entries ih =>
      rw [List.keys_cons, List.mem_cons] at h
      rw [List.foldl_cons]
      by_cases hmem : k ∈ entries.keys
      · exact ih hmem
      · have heq : k = p.1 := h.resolve_right hmem
        rw [lookup_foldl_erase_of_notMem hmem, heq, Finmap.lookup_erase]

theorem notMem_of_mem_sdiff (h : k ∈ m \ m') : k ∉ m' := by
  intro hmem
  obtain ⟨v, hv⟩ := Finmap.mem_iff.mp h
  induction m' using Finmap.induction_on with
  | H entries =>
      have hnone := @lookup_foldl_erase_of_mem _ _ _ m k entries.entries
        (AList.mem_keys.mp (Finmap.mem_toFinmap.mp hmem))
      have hsome : (entries.entries.foldl (fun s p => s.erase p.1) m).lookup k = some v := hv
      rw [hnone] at hsome
      cases hsome

theorem lookup_union : (m ∪ m').lookup k = (m.lookup k).or (m'.lookup k) := by
  by_cases hmem : k ∈ m
  · obtain ⟨v, hv⟩ := Finmap.mem_iff.mp hmem
    rw [Finmap.lookup_union_left hmem, hv, Option.some_or]
  · rw [Finmap.lookup_union_right hmem, Finmap.lookup_eq_none.mpr hmem, Option.none_or]

end

/-- Every entry of the map has the property. -/
def EveryEntry (P : κ → ν → Prop) (m : Finmap fun _ : κ => ν) : Prop :=
  ∀ k v, m.lookup k = some v → P k v

namespace EveryEntry
variable {P : κ → ν → Prop} {m m' : Finmap fun _ : κ => ν} {k : κ} {v : ν}

theorem empty : EveryEntry P (∅ : Finmap fun _ : κ => ν) := by
  intro k v h
  rw [Finmap.lookup_empty] at h
  cases h

theorem insert (h : EveryEntry P m) (hv : P k v) : EveryEntry P (m.insert k v) := by
  intro k' v' h'
  by_cases heq : k' = k
  · subst heq
    rw [Finmap.lookup_insert] at h'
    cases h'
    exact hv
  · rw [Finmap.lookup_insert_of_ne m heq] at h'
    exact h k' v' h'

theorem erase (h : EveryEntry P m) : EveryEntry P (m.erase k) := by
  intro k' v' h'
  by_cases heq : k' = k
  · subst heq
    rw [Finmap.lookup_erase] at h'
    cases h'
  · rw [Finmap.lookup_erase_ne heq] at h'
    exact h k' v' h'

theorem union (h : EveryEntry P m) (h' : EveryEntry P m') : EveryEntry P (m ∪ m') := by
  intro k v hv
  by_cases hmem : k ∈ m
  · rw [Finmap.lookup_union_left hmem] at hv
    exact h k v hv
  · rw [Finmap.lookup_union_right hmem] at hv
    exact h' k v hv

theorem sdiff (h : EveryEntry P m) : EveryEntry P (m \ m') :=
  fun k v hv => h k v (lookup_sdiff_some hv)

end EveryEntry

end BlackMonolith.Library
