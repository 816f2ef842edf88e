import Mathlib.Data.Finset.Card

/-!
# Maps in insertion order

A finite map whose entries keep the order in which their keys were first set,
as JavaScript's `Map` does; a table with a primary key is another instance. No
key occurs twice.
-/
namespace BlackMonolith.Library

structure InsertionMap (κ ν : Type*) where
  entries : List (κ × ν)
  nodup : (entries.map Prod.fst).Nodup

namespace InsertionMap
variable {κ ν : Type*}

def empty : InsertionMap κ ν := ⟨[], List.nodup_nil⟩

def keys (m : InsertionMap κ ν) : List κ := m.entries.map Prod.fst
def values (m : InsertionMap κ ν) : List ν := m.entries.map Prod.snd
def size (m : InsertionMap κ ν) : ℕ := m.entries.length

/-- The part of a map that a test on its entries keeps. -/
def filter (p : κ → ν → Bool) (m : InsertionMap κ ν) : InsertionMap κ ν :=
  ⟨m.entries.filter fun e => p e.1 e.2, m.nodup.sublist (List.filter_sublist.map _)⟩

variable [DecidableEq κ]

def lookupIn (k : κ) : List (κ × ν) → Option ν
  | [] => none
  | e :: es => if e.1 = k then some e.2 else lookupIn k es

def get? (m : InsertionMap κ ν) (k : κ) : Option ν := lookupIn k m.entries

def has (m : InsertionMap κ ν) (k : κ) : Bool := (m.get? k).isSome

def setIn (k : κ) (v : ν) : List (κ × ν) → List (κ × ν)
  | [] => [(k, v)]
  | e :: es => if e.1 = k then (k, v) :: es else e :: setIn k v es

theorem setIn_keys (k : κ) (v : ν) (es : List (κ × ν)) :
    (setIn k v es).map Prod.fst =
      if k ∈ es.map Prod.fst then es.map Prod.fst else es.map Prod.fst ++ [k] := by
  induction es with
  | nil => rfl
  | cons e es ih =>
      by_cases h : e.1 = k
      · simp [setIn, h]
      · have hne : ¬ k = e.1 := fun heq => h heq.symm
        simp only [setIn, if_neg h, List.map_cons, List.mem_cons, hne, false_or, ih]
        split <;> rfl

/-- Sets a key: in place when it is there, else at the end. -/
def set (m : InsertionMap κ ν) (k : κ) (v : ν) : InsertionMap κ ν where
  entries := setIn k v m.entries
  nodup := by
    rw [setIn_keys]
    split
    · exact m.nodup
    · next h => exact List.concat_eq_append ▸ List.Nodup.concat h m.nodup

def erase (m : InsertionMap κ ν) (k : κ) : InsertionMap κ ν :=
  m.filter fun k' _ => !decide (k' = k)

variable {m : InsertionMap κ ν} {k k' : κ} {v : ν}

omit [DecidableEq κ] in
@[ext] theorem ext {m m' : InsertionMap κ ν} (h : m.entries = m'.entries) : m = m' := by
  cases m
  cases m'
  cases h
  rfl

@[simp] theorem get?_empty : (empty : InsertionMap κ ν).get? k = none := rfl

theorem lookupIn_setIn (es : List (κ × ν)) :
    lookupIn k' (setIn k v es) = if k = k' then some v else lookupIn k' es := by
  induction es with
  | nil => rfl
  | cons e es ih =>
      by_cases h : e.1 = k
      · simp only [setIn, if_pos h, lookupIn]
        split_ifs with h₁ h₂
        · rfl
        · exact absurd (h.symm.trans h₂) h₁
        · rfl
      · simp only [setIn, if_neg h, lookupIn, ih]
        split_ifs with h₁ h₂
        · exact absurd (h₁.trans h₂.symm) h
        · rfl
        · rfl
        · rfl

theorem get?_set : (m.set k v).get? k' = if k = k' then some v else m.get? k' :=
  lookupIn_setIn m.entries

@[simp] theorem get?_set_self : (m.set k v).get? k = some v := by
  rw [get?_set, if_pos rfl]

theorem get?_set_of_ne (h : k ≠ k') : (m.set k v).get? k' = m.get? k' := by
  rw [get?_set, if_neg h]

theorem lookupIn_eq_some_iff {es : List (κ × ν)} (hn : (es.map Prod.fst).Nodup) :
    lookupIn k es = some v ↔ (k, v) ∈ es := by
  induction es with
  | nil => simp [lookupIn]
  | cons e es ih =>
      obtain ⟨hnotin, hn'⟩ := List.nodup_cons.mp hn
      by_cases h : e.1 = k
      · simp only [lookupIn, if_pos h, Option.some.injEq, List.mem_cons]
        constructor
        · exact fun hv => Or.inl (Prod.ext h.symm hv.symm)
        · rintro (heq | hmem)
          · rw [← heq]
          · exact absurd (h ▸ List.mem_map_of_mem hmem : e.1 ∈ es.map Prod.fst) hnotin
      · simp only [lookupIn, if_neg h, ih hn', List.mem_cons]
        constructor
        · exact Or.inr
        · rintro (heq | hmem)
          · exact absurd (congrArg Prod.fst heq).symm h
          · exact hmem

theorem get?_eq_some_iff : m.get? k = some v ↔ (k, v) ∈ m.entries :=
  lookupIn_eq_some_iff m.nodup

theorem get?_eq_none_iff : m.get? k = none ↔ k ∉ m.keys := by
  simp only [keys, Option.eq_none_iff_forall_ne_some, ne_eq, get?_eq_some_iff, List.mem_map,
    Prod.exists, exists_and_right, exists_eq_right, not_exists]

theorem mem_values_iff : v ∈ m.values ↔ ∃ k, m.get? k = some v := by
  simp only [values, List.mem_map, Prod.exists, exists_eq_right, get?_eq_some_iff]

theorem get?_filter {p : κ → ν → Bool} :
    (m.filter p).get? k = (m.get? k).filter (p k) := by
  ext v
  rw [get?_eq_some_iff, Option.filter_eq_some_iff, get?_eq_some_iff]
  simp only [filter, List.mem_filter]

theorem get?_erase : (m.erase k).get? k' = if k' = k then none else m.get? k' := by
  unfold erase
  rw [get?_filter]
  split_ifs with h
  · subst h
    simp
  · cases m.get? k' with
    | none => rfl
    | some v => simp only [Option.filter, h, decide_false, Bool.not_false, if_true]

/-- A new key goes to the end. -/
theorem setIn_of_notMem {es : List (κ × ν)} (h : k ∉ es.map Prod.fst) :
    setIn k v es = es ++ [(k, v)] := by
  induction es with
  | nil => rfl
  | cons e es ih =>
      simp only [List.map_cons, List.mem_cons, not_or] at h
      rw [setIn, if_neg fun heq => h.1 heq.symm, ih h.2, List.cons_append]

theorem values_set_of_none (h : m.get? k = none) : (m.set k v).values = m.values ++ [v] := by
  have hk : k ∉ m.entries.map Prod.fst := get?_eq_none_iff.mp h
  simp only [values, set, setIn_of_notMem hk, List.map_append, List.map_cons, List.map_nil]

/-- Setting a key to its value changes nothing. -/
theorem set_of_get? (h : m.get? k = some v) : m.set k v = m := by
  have hset : ∀ es : List (κ × ν), lookupIn k es = some v → setIn k v es = es := by
    intro es
    induction es with
    | nil => exact fun h => absurd h (by simp [lookupIn])
    | cons e es ih =>
        intro h
        simp only [lookupIn] at h
        simp only [setIn]
        by_cases heq : e.1 = k
        · rw [if_pos heq] at h ⊢
          cases h
          rw [← heq]
        · rw [if_neg heq] at h ⊢
          rw [ih h]
  exact ext (hset m.entries h)

/-- The map of a list of entries, as `Object.fromEntries` builds it. -/
def fromEntries (es : List (κ × ν)) : InsertionMap κ ν := es.foldl (fun m e => m.set e.1 e.2) empty

/-- The last entry of a key counts. -/
theorem get?_fromEntries (es : List (κ × ν)) :
    (fromEntries es).get? k = lookupIn k es.reverse := by
  induction es using List.reverseRecOn with
  | nil => rfl
  | append_singleton es e ih =>
      rw [List.reverse_concat, lookupIn, ← ih, fromEntries, List.foldl_concat, ← fromEntries,
        get?_set]

theorem has_iff : m.has k ↔ k ∈ m.keys := by
  unfold has
  rw [Option.isSome_iff_ne_none, ne_eq, get?_eq_none_iff, not_not]

@[simp] theorem has_set : (m.set k v).has k' = (decide (k = k') || m.has k') := by
  unfold has
  rw [get?_set]
  split_ifs with h
  · simp [h]
  · simp [h]

@[simp] theorem has_erase : (m.erase k).has k' = (!decide (k' = k) && m.has k') := by
  unfold has
  rw [get?_erase]
  split_ifs with h
  · simp [h]
  · simp [h]

theorem get?_of_not_has (h : m.has k = false) : m.get? k = none :=
  Option.not_isSome_iff_eq_none.mp (Bool.eq_false_iff.mp h)

/-- A map whose keys all lie in a finite set is no larger than the set. -/
theorem size_le_card {K : Finset κ} (h : ∀ k ∈ m.keys, k ∈ K) : m.size ≤ K.card := by
  have hsub : m.keys.toFinset ⊆ K := fun k hk => h k (List.mem_toFinset.mp hk)
  have hcard : m.keys.toFinset.card = m.size := by
    have hnodup : m.keys.Nodup := m.nodup
    rw [List.toFinset_card_of_nodup hnodup]
    exact List.length_map _
  exact hcard ▸ Finset.card_le_card hsub

theorem size_erase_le : (m.erase k).size ≤ m.size := List.length_filter_le _ _

theorem size_erase_of_mem (h : k ∈ m.keys) : (m.erase k).size + 1 = m.size := by
  have hkeys : (m.erase k).keys = m.keys.erase k := by
    have hnodup : m.keys.Nodup := m.nodup
    rw [hnodup.erase_eq_filter]
    unfold keys erase filter
    rw [List.filter_map]
    rfl
  have hlength := congrArg List.length hkeys
  rw [List.length_erase_of_mem h] at hlength
  have hpos := List.length_pos_of_mem h
  unfold size
  unfold keys at hlength hpos
  simp only [List.length_map] at hlength hpos
  omega

/-! ## Parts of a map -/

section
variable {p q : κ → ν → Bool}

theorem filter_setIn_of_pos {es : List (κ × ν)} (hp : p k v = true)
    (hold : ∀ v', lookupIn k es = some v' → p k v' = true) :
    (setIn k v es).filter (fun e => p e.1 e.2) = setIn k v (es.filter fun e => p e.1 e.2) := by
  induction es with
  | nil => simp [setIn, hp]
  | cons e es ih =>
      by_cases h : e.1 = k
      · have he : p e.1 e.2 = true := h.symm ▸ hold e.2 (by rw [lookupIn, if_pos h])
        simp only [setIn, if_pos h, List.filter_cons, hp, he, if_true]
      · have ih' := ih fun v' hv' => hold v' (by rw [lookupIn, if_neg h, hv'])
        rw [setIn, if_neg h]
        cases he : p e.1 e.2 with
        | true => simp only [List.filter_cons, he, if_true, setIn, if_neg h, ih']
        | false => simp only [List.filter_cons, he, Bool.false_eq_true, if_false, ih']

theorem filter_setIn_of_neg {es : List (κ × ν)} (hp : p k v = false)
    (hold : ∀ v', lookupIn k es = some v' → p k v' = false) :
    (setIn k v es).filter (fun e => p e.1 e.2) = es.filter fun e => p e.1 e.2 := by
  induction es with
  | nil => simp [setIn, hp]
  | cons e es ih =>
      by_cases h : e.1 = k
      · have he : p e.1 e.2 = false := h.symm ▸ hold e.2 (by rw [lookupIn, if_pos h])
        simp only [setIn, if_pos h, List.filter_cons, hp, he, Bool.false_eq_true, if_false]
      · have ih' := ih fun v' hv' => hold v' (by rw [lookupIn, if_neg h, hv'])
        simp only [setIn, if_neg h, List.filter_cons, ih']

/-- Setting an entry of the part is setting it in the part. -/
theorem filter_set_of_pos (hp : p k v = true) (hold : ∀ v', m.get? k = some v' → p k v' = true) :
    (m.set k v).filter p = (m.filter p).set k v :=
  ext (filter_setIn_of_pos hp hold)

/-- Setting an entry outside the part leaves the part alone. -/
theorem filter_set_of_neg (hp : p k v = false)
    (hold : ∀ v', m.get? k = some v' → p k v' = false) : (m.set k v).filter p = m.filter p :=
  ext (filter_setIn_of_neg hp hold)

theorem filter_erase : (m.erase k).filter p = (m.filter p).erase k :=
  ext (List.filter_comm _ _ _)

theorem filter_congr (h : ∀ k v, m.get? k = some v → p k v = q k v) : m.filter p = m.filter q := by
  apply ext
  refine List.filter_congr fun e he => ?_
  exact h e.1 e.2 (get?_eq_some_iff.mpr he)

theorem filter_erase_of_neg (h : ∀ v, p k v = false) : (m.erase k).filter p = m.filter p := by
  apply ext
  have hfilter : (m.erase k).filter p = (m.filter p).erase k := filter_erase
  rw [hfilter]
  refine List.filter_eq_self.mpr fun e he => ?_
  have hpe := (List.mem_filter.mp he).2
  have hne : e.1 ≠ k := by
    intro heq
    rw [heq, h] at hpe
    cases hpe
  simp [hne]

omit [DecidableEq κ] in
theorem values_filter (p : ν → Bool) : (m.filter fun _ v => p v).values = m.values.filter p :=
  List.filter_map.symm

omit [DecidableEq κ] in
theorem size_filter_le : (m.filter p).size ≤ m.size := List.length_filter_le _ _

omit [DecidableEq κ] in
theorem mem_keys_of_filter (h : k ∈ (m.filter p).keys) : k ∈ m.keys :=
  (List.filter_sublist.map _).subset h

/-- The values that a test selects are replaced where they are. -/
def updateWhere (p : κ → ν → Bool) (f : ν → ν) (m : InsertionMap κ ν) : InsertionMap κ ν where
  entries := m.entries.map fun e => (e.1, if p e.1 e.2 then f e.2 else e.2)
  nodup := by
    rw [List.map_map]
    exact m.nodup

theorem lookupIn_updateWhere {f : ν → ν} (es : List (κ × ν)) :
    lookupIn k (es.map fun e => (e.1, if p e.1 e.2 then f e.2 else e.2)) =
      (lookupIn k es).map fun v => if p k v then f v else v := by
  induction es with
  | nil => rfl
  | cons e es ih =>
      simp only [List.map_cons, lookupIn]
      by_cases h : e.1 = k
      · simp only [h, if_true, Option.map_some]
      · simp only [if_neg h, ih]

theorem get?_updateWhere {f : ν → ν} :
    (m.updateWhere p f).get? k = (m.get? k).map fun v => if p k v then f v else v :=
  lookupIn_updateWhere m.entries

/-- A property that singles out the value of one key holds of one value. -/
theorem countP_values_eq_one {p : ν → Bool} (h : m.get? k = some v)
    (hp : ∀ k' v', m.get? k' = some v' → (p v' = true ↔ k' = k)) : m.values.countP p = 1 := by
  have hfilter : m.values.filter p = (m.filter fun k' _ => decide (k' = k)).values := by
    rw [← values_filter]
    refine congrArg values (filter_congr fun k' v' hv' => ?_)
    rw [Bool.eq_iff_iff, hp k' v' hv', decide_eq_true_eq]
  have hlen : (m.filter fun k' _ => decide (k' = k)).size = 1 := by
    have hmem : (k, v) ∈ (m.filter fun k' _ => decide (k' = k)).entries :=
      List.mem_filter.mpr ⟨get?_eq_some_iff.mp h, decide_eq_true rfl⟩
    have hkeys : ∀ k' ∈ (m.filter fun k' _ => decide (k' = k)).keys, k' ∈ ({k} : Finset κ) := by
      intro k' hk'
      obtain ⟨e, he, rfl⟩ := List.mem_map.mp hk'
      exact Finset.mem_singleton.mpr (of_decide_eq_true (List.mem_filter.mp he).2)
    have hupper := size_le_card hkeys
    have hlower := List.length_pos_of_mem hmem
    rw [Finset.card_singleton] at hupper
    unfold size at hupper ⊢
    omega
  rw [List.countP_eq_length_filter, hfilter]
  exact (List.length_map _).trans hlen

end

end InsertionMap

end BlackMonolith.Library
