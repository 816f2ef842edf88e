import Mathlib.Data.Finmap

/-!
# Queues with one entry for a key

A list whose entries have distinct keys represents a finite map. Replacing the
entry of a key by one at the end of the list is an insertion, and removing the
first entry with a key is an erasure.
-/
namespace BlackMonolith.Library

variable {κ α : Type*} [DecidableEq κ] {key : α → κ} {queue : List α}
  {table : Finmap fun _ : κ => α}

/-- In a list with distinct keys, removing the first entry with a key removes every one. -/
theorem eraseP_eq_filter_key (h : (queue.map key).Nodup) (k : κ) :
    queue.eraseP (fun e => key e == k) = queue.filter (fun e => key e != k) := by
  induction queue with
  | nil => rfl
  | cons e queue ih =>
      simp only [List.map_cons, List.nodup_cons] at h
      by_cases heq : key e = k
      · have hrest : queue.filter (fun e => key e != k) = queue := by
          rw [List.filter_eq_self]
          intro e' hmem
          rw [bne_iff_ne]
          intro heq'
          exact h.1 (heq ▸ heq' ▸ List.mem_map_of_mem hmem)
        have hhead : (key e == k) = true := beq_iff_eq.mpr heq
        simp only [List.eraseP_cons, List.filter_cons, bne, hhead, Bool.not_true, cond_true,
          Bool.false_eq_true, if_false] at hrest ⊢
        exact hrest.symm
      · have hhead : (key e == k) = false := beq_false_of_ne heq
        simp only [List.eraseP_cons, List.filter_cons, bne, hhead, Bool.not_false, cond_false,
          if_true] at ih ⊢
        rw [ih h.2]

theorem mem_keys_eraseP (h : (queue.map key).Nodup) {k k' : κ} :
    k' ∈ (queue.eraseP fun e => key e == k).map key ↔ k' ∈ queue.map key ∧ k' ≠ k := by
  rw [eraseP_eq_filter_key h, List.mem_map, List.mem_map]
  constructor
  · intro hmem
    obtain ⟨e, he, rfl⟩ := hmem
    obtain ⟨he, hk⟩ := List.mem_filter.mp he
    exact ⟨⟨e, he, rfl⟩, bne_iff_ne.mp hk⟩
  · intro hmem
    obtain ⟨⟨e, he, rfl⟩, hk⟩ := hmem
    exact ⟨e, List.mem_filter.mpr ⟨he, bne_iff_ne.mpr hk⟩, rfl⟩

/-- An entry at the end in place of the one with its key leaves the keys distinct. -/
theorem nodup_push (h : (queue.map key).Nodup) (e : α) :
    (((queue.eraseP fun e' => key e' == key e) ++ [e]).map key).Nodup := by
  rw [List.map_append, List.map_singleton, List.nodup_append]
  refine ⟨h.sublist ((List.eraseP_sublist).map key), List.nodup_singleton _, ?_⟩
  intro k hmem k' hmem'
  rw [List.mem_singleton] at hmem'
  rw [hmem']
  exact ((mem_keys_eraseP h).mp hmem).2

/-- The queue holds the entries of the map. -/
structure Represents (key : α → κ) (queue : List α) (table : Finmap fun _ : κ => α) : Prop where
  distinct : (queue.map key).Nodup
  lookup : ∀ k, table.lookup k = queue.find? fun e => key e == k

namespace Represents

theorem nil : Represents key [] ∅ := ⟨List.nodup_nil, fun _ => rfl⟩

theorem mem_keys (h : Represents key queue table) (k : κ) :
    k ∈ table.keys ↔ k ∈ queue.map key := by
  rw [Finmap.mem_keys, ← Finmap.lookup_isSome, h.lookup, List.find?_isSome, List.mem_map]
  constructor
  · intro hfound
    obtain ⟨e, hmem, hkey⟩ := hfound
    exact ⟨e, hmem, beq_iff_eq.mp hkey⟩
  · intro hfound
    obtain ⟨e, hmem, hkey⟩ := hfound
    exact ⟨e, hmem, beq_iff_eq.mpr hkey⟩

theorem length_eq_card (h : Represents key queue table) : queue.length = table.keys.card := by
  have hkeys : (queue.map key).toFinset = table.keys := by
    ext k
    rw [List.mem_toFinset, h.mem_keys]
  rw [← hkeys, List.toFinset_card_of_nodup h.distinct, List.length_map]

theorem erase (h : Represents key queue table) (k : κ) :
    Represents key (queue.eraseP fun e => key e == k) (table.erase k) := by
  constructor
  · exact h.distinct.sublist ((List.eraseP_sublist).map key)
  · intro k'
    rw [eraseP_eq_filter_key h.distinct, List.find?_filter]
    by_cases heq : k' = k
    · subst heq
      rw [Finmap.lookup_erase]
      symm
      rw [List.find?_eq_none]
      intro e _
      simp
    · rw [Finmap.lookup_erase_ne heq, h.lookup]
      congr 1
      funext e
      by_cases hkey : key e = k'
      · simp [hkey, heq]
      · simp [hkey]

theorem push (h : Represents key queue table) (e : α) :
    Represents key ((queue.eraseP fun e' => key e' == key e) ++ [e]) (table.insert (key e) e) := by
  have herased := h.erase (key e)
  constructor
  · exact nodup_push h.distinct e
  · intro k
    rw [List.find?_append, ← herased.lookup]
    by_cases heq : k = key e
    · subst heq
      rw [Finmap.lookup_insert, Finmap.lookup_erase, Option.none_or, List.find?_singleton]
      simp
    · have hother : (key e == k) = false := beq_false_of_ne fun h => heq h.symm
      rw [Finmap.lookup_insert_of_ne _ heq, Finmap.lookup_erase_ne heq, List.find?_singleton, hother]
      simp

end Represents

end BlackMonolith.Library
