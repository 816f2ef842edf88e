import Mathlib.Data.List.DropRight
import Mathlib.Data.List.Forall2
import Mathlib.Order.Lattice

/-!
# Trimming and pairing lists

Dropping the elements of a class from both ends of a list, the elements of two
lists that are related position by position, and properties of one element only.
-/
namespace BlackMonolith.Library

variable {α : Type*}

/-- No element exceeds a running maximum. -/
theorem le_foldl_max {β : Type*} [LinearOrder β] (first : β) (rest : List β) :
    first ≤ rest.foldl max first ∧ ∀ x ∈ rest, x ≤ rest.foldl max first := by
  induction rest generalizing first with
  | nil => exact ⟨le_rfl, List.forall_mem_nil _⟩
  | cons second rest ih =>
      obtain ⟨hfirst, hrest⟩ := ih (max first second)
      rw [List.foldl_cons]
      refine ⟨(le_max_left _ _).trans hfirst, ?_⟩
      intro x hx
      rcases List.mem_cons.mp hx with rfl | hx
      · exact (le_max_right _ _).trans hfirst
      · exact hrest x hx

/-- A test of each element decides what holds of all. -/
theorem forall_mem_of_all {p : α → Prop} [DecidablePred p] {xs : List α}
    (h : (xs.all fun x => decide (p x)) = true) : ∀ x ∈ xs, p x := by
  intro x hx
  exact of_decide_eq_true (List.all_eq_true.mp h x hx)

def trimBoth (p : α → Bool) (xs : List α) : List α := (xs.dropWhile p).rdropWhile p

theorem dropWhile_trimBoth (p : α → Bool) (xs : List α) :
    (trimBoth p xs).dropWhile p = trimBoth p xs := by
  have hfront : trimBoth p xs <+: xs.dropWhile p := List.rdropWhile_prefix _ _
  cases htrim : trimBoth p xs with
  | nil => rfl
  | cons x rest =>
      obtain ⟨tail, htail⟩ := htrim ▸ hfront
      have hne : xs.dropWhile p ≠ [] := htail ▸ List.cons_ne_nil _ _
      have hx : p x = false := by
        have hhead := List.head_dropWhile_not p hne
        simpa only [← htail, List.cons_append, List.head_cons] using hhead
      exact List.dropWhile_cons_of_neg (by rw [hx]; exact Bool.false_ne_true)

theorem trimBoth_trimBoth (p : α → Bool) (xs : List α) :
    trimBoth p (trimBoth p xs) = trimBoth p xs := by
  have hfront := dropWhile_trimBoth p xs
  unfold trimBoth at hfront ⊢
  rw [hfront, List.rdropWhile_idempotent]

/-- A trimmed list has nothing to drop at either end. -/
theorem ends_of_trimBoth_eq {p : α → Bool} {xs : List α} (h : trimBoth p xs = xs) :
    xs.dropWhile p = xs ∧ xs.rdropWhile p = xs := by
  have hfront := List.rdropWhile_prefix p (xs.dropWhile p)
  have hsuffix := @List.dropWhile_suffix _ xs p
  have hlen := hfront.length_le
  have hrdrop : (xs.dropWhile p).rdropWhile p = xs := h
  rw [hrdrop] at hlen
  have hfront := hsuffix.eq_of_length (Nat.le_antisymm hsuffix.length_le hlen)
  exact ⟨hfront, by rw [hfront] at hrdrop; exact hrdrop⟩

/-- A list is trimmed when neither end belongs to the class. -/
theorem trimBoth_eq_self_iff {p : α → Bool} {xs : List α} :
    trimBoth p xs = xs ↔ (∀ x ∈ xs.head?, p x = false) ∧ ∀ x ∈ xs.getLast?, p x = false := by
  have hfront : xs.dropWhile p = xs ↔ ∀ x ∈ xs.head?, p x = false := by
    cases xs with
    | nil => simp only [List.dropWhile_nil, List.head?_nil, Option.mem_def, reduceCtorEq,
        false_implies, implies_true]
    | cons x xs => simp only [List.dropWhile_eq_self_iff, List.length_cons, Nat.zero_lt_succ,
        List.getElem_cons_zero, forall_const, List.head?_cons, Option.mem_some_iff, forall_eq',
        Bool.not_eq_true]
  have hback : xs.rdropWhile p = xs ↔ ∀ x ∈ xs.getLast?, p x = false := by
    rw [List.rdropWhile_eq_self_iff]
    constructor
    · intro h x hx
      obtain ⟨hne, rfl⟩ := List.mem_getLast?_eq_getLast hx
      exact Bool.eq_false_iff.mpr (h hne)
    · intro h hne
      exact Bool.eq_false_iff.mp (h _ (List.getLast_mem_getLast? hne))
  rw [← hfront, ← hback]
  constructor
  · exact ends_of_trimBoth_eq
  · rintro ⟨hdrop, hrdrop⟩
    rw [trimBoth, hdrop, hrdrop]

/-- Trimming keeps what is outside the class. -/
theorem mem_trimBoth {p : α → Bool} {xs : List α} {x : α} (hx : p x = false) :
    x ∈ trimBoth p xs ↔ x ∈ xs := by
  have hdrop : ∀ ys : List α, x ∈ ys.dropWhile p ↔ x ∈ ys := by
    intro ys
    constructor
    · exact fun h => (List.dropWhile_suffix p).subset h
    · intro h
      rw [← List.takeWhile_append_dropWhile (p := p) (l := ys), List.mem_append] at h
      cases h with
      | inl htake =>
          have := List.mem_takeWhile_imp htake
          rw [hx] at this
          cases this
      | inr hrest => exact hrest
  rw [trimBoth, List.rdropWhile, List.mem_reverse, hdrop, List.mem_reverse, hdrop]

theorem count_dropWhile [DecidableEq α] {p : α → Bool} {x : α} (hx : p x = false) (xs : List α) :
    (xs.dropWhile p).count x = xs.count x := by
  have hnone : (xs.takeWhile p).count x = 0 := by
    rw [List.count_eq_zero]
    intro hmem
    have := List.mem_takeWhile_imp hmem
    rw [hx] at this
    cases this
  have hsplit := List.takeWhile_append_dropWhile (p := p) (l := xs)
  rw [← hsplit, List.count_append, hnone, Nat.zero_add, hsplit]

theorem count_trimBoth [DecidableEq α] {p : α → Bool} {x : α} (hx : p x = false) (xs : List α) :
    (trimBoth p xs).count x = xs.count x := by
  rw [trimBoth, List.rdropWhile, List.count_reverse, count_dropWhile hx, List.count_reverse,
    count_dropWhile hx]

section
variable {β : Type*} {R : α → β → Prop} {xs : List α} {ys : List β}

theorem exists_left_of_forall₂ (h : List.Forall₂ R xs ys) {y : β} (hy : y ∈ ys) :
    ∃ x ∈ xs, R x y := by
  induction h with
  | nil => cases hy
  | cons hxy _ ih =>
      cases hy with
      | head => exact ⟨_, List.mem_cons_self, hxy⟩
      | tail _ hy =>
          obtain ⟨x, hx, hR⟩ := ih hy
          exact ⟨x, List.mem_cons_of_mem _ hx, hR⟩

theorem exists_right_of_forall₂ (h : List.Forall₂ R xs ys) {x : α} (hx : x ∈ xs) :
    ∃ y ∈ ys, R x y := by
  induction h with
  | nil => cases hx
  | cons hxy _ ih =>
      cases hx with
      | head => exact ⟨_, List.mem_cons_self, hxy⟩
      | tail _ hx =>
          obtain ⟨y, hy, hR⟩ := ih hx
          exact ⟨y, List.mem_cons_of_mem _ hy, hR⟩

theorem exists_zip_of_forall₂ (h : List.Forall₂ R xs ys) {x : α} (hx : x ∈ xs) :
    ∃ y, (x, y) ∈ xs.zip ys := by
  induction h with
  | nil => cases hx
  | cons _ _ ih =>
      cases hx with
      | head => exact ⟨_, List.mem_cons_self⟩
      | tail _ hx =>
          obtain ⟨y, hy⟩ := ih hx
          exact ⟨y, List.mem_cons_of_mem _ hy⟩

end

/-- The ways of splitting a list at an element: at its head, or further on. -/
theorem forall_split_cons {x : α} {xs : List α} {P : List α → α → Prop} :
    (∀ before y after, x :: xs = before ++ y :: after → P before y) ↔
      P [] x ∧ ∀ before y after, xs = before ++ y :: after → P (x :: before) y := by
  constructor
  · intro h
    refine ⟨h [] x xs rfl, fun before y after heq => h (x :: before) y after ?_⟩
    rw [heq, List.cons_append]
  · intro h before y after heq
    cases before with
    | nil =>
        cases heq
        exact h.1
    | cons z before =>
        cases heq
        exact h.2 before y after rfl

/-- What holds of at most one element holds of no two. -/
theorem pairwise_of_countP_le_one {p : α → Bool} {xs : List α} (h : xs.countP p ≤ 1) :
    xs.Pairwise fun a b => ¬(p a ∧ p b) := by
  induction xs with
  | nil => exact List.Pairwise.nil
  | cons x xs ih =>
      rw [List.countP_cons] at h
      refine List.pairwise_cons.mpr ⟨?_, ih (by omega)⟩
      intro y hy hboth
      have hpos : 0 < xs.countP p := List.countP_pos_iff.mpr ⟨y, hy, hboth.2⟩
      rw [if_pos hboth.1] at h
      omega

/-- A filter that lets nothing of a gap through. -/
theorem filter_range'_gap {p q : ℕ → Bool} {base start stop n : ℕ} (hlt : start ≤ stop)
    (hle : stop ≤ n) (hbefore : ∀ i < start, p (base + i) = q (base + i))
    (hgap : ∀ i, start ≤ i → i < stop → p (base + i) = false)
    (hafter : ∀ i, stop ≤ i → p (base + i) = true) :
    (List.range' base n).filter p =
      (List.range' base start).filter q ++ List.range' (base + stop) (n - stop) := by
  have hsplit : List.range' base n = List.range' base start ++
      (List.range' (base + start) (stop - start) ++ List.range' (base + stop) (n - stop)) := by
    have hgapped : base + stop = base + start + (stop - start) := by omega
    rw [hgapped, List.range'_append_1, List.range'_append_1]
    congr 1
    omega
  have hat : ∀ {b len i}, i ∈ List.range' b len → b ≤ i ∧ i < b + len :=
    fun h => List.mem_range'_1.mp h
  rw [hsplit, List.filter_append, List.filter_append]
  have hnone : (List.range' (base + start) (stop - start)).filter p = [] := by
    apply List.filter_eq_nil_iff.mpr
    intro i hi
    have hbounds := hat hi
    have hfalse := hgap (i - base) (by omega) (by omega)
    rw [Nat.add_sub_cancel' (by omega)] at hfalse
    exact Bool.eq_false_iff.mp hfalse
  have hall : (List.range' (base + stop) (n - stop)).filter p =
      List.range' (base + stop) (n - stop) := by
    apply List.filter_eq_self.mpr
    intro i hi
    have hbounds := hat hi
    have htrue := hafter (i - base) (by omega)
    rwa [Nat.add_sub_cancel' (by omega)] at htrue
  rw [hnone, List.nil_append, hall]
  congr 1
  apply List.filter_congr
  intro i hi
  have hbounds := hat hi
  have heq := hbefore (i - base) (by omega)
  rwa [Nat.add_sub_cancel' (by omega)] at heq

theorem eraseDups_of_nodup {α : Type*} [BEq α] [LawfulBEq α] {l : List α} (h : l.Nodup) :
    l.eraseDups = l := by
  induction l with
  | nil => rfl
  | cons a l ih =>
      obtain ⟨hnew, hl⟩ := List.nodup_cons.mp h
      have hfilter : l.filter (fun b => !b == a) = l := by
        rw [List.filter_eq_self]
        intro b hb
        rw [Bool.not_eq_true', beq_eq_false_iff_ne]
        exact fun heq => hnew (heq ▸ hb)
      rw [List.eraseDups_cons, hfilter, ih hl]

end BlackMonolith.Library
