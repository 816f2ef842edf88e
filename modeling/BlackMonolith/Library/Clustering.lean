import Mathlib.Data.List.Induction
import Mathlib.Data.List.Sort

/-!
# Greedy clustering

One element after the other opens a cluster if it is similar to no representative of an
earlier one. In sorted order the number of clusters depends on nothing but the elements.
An element whose neighbours have no neighbours but its own makes one cluster with them, and
no other element takes part in it.
-/
namespace BlackMonolith.Library.Clustering

/-- A way to put elements in order that depends on nothing but the elements. -/
structure Arranges {α : Type*} (arrange : List α → List α) : Prop where
  perm : ∀ xs, (arrange xs).Perm xs
  unique : ∀ xs ys, xs.Perm ys → arrange xs = arrange ys
  sublist : ∀ xs ys, xs.Sublist (arrange ys) → arrange xs = xs

theorem arranges_insertionSort {α : Type*} (r : α → α → Prop) [DecidableRel r] [Std.Total r]
    [IsTrans α r] [Std.Antisymm r] : Arranges (List.insertionSort r) where
  perm := List.perm_insertionSort r
  unique xs ys h := by
    apply List.Perm.eq_of_pairwise' (List.pairwise_insertionSort r xs)
      (List.pairwise_insertionSort r ys)
    exact (List.perm_insertionSort r xs).trans (h.trans (List.perm_insertionSort r ys).symm)
  sublist xs ys h := (List.Pairwise.sublist h (List.pairwise_insertionSort r ys)).insertionSort_eq

section
variable {α : Type*} (sim : α → α → Bool)

/-- The representatives of the clusters. -/
def greedy (xs : List α) : List α :=
  xs.foldl (fun reps x => if reps.any (sim x) then reps else reps ++ [x]) []

/-- What is similar to `x` has its neighbours and no others. -/
def Clear (x : α) (xs : List α) : Prop :=
  ∀ a ∈ xs, sim x a = true → ∀ b ∈ xs, sim x b = sim a b

end

section
variable {α : Type*} {sim : α → α → Bool} {xs ys : List α} {x y : α}

theorem Clear.of_subset (h : Clear sim x ys) (hsub : xs ⊆ ys) : Clear sim x xs :=
  fun a ha hsim b hb => h a (hsub ha) hsim b (hsub hb)

theorem greedy_concat (xs : List α) (x : α) : greedy sim (xs ++ [x]) =
    if (greedy sim xs).any (sim x) then greedy sim xs else greedy sim xs ++ [x] := by
  unfold greedy
  rw [List.foldl_append]
  rfl

theorem greedy_subset (xs : List α) : greedy sim xs ⊆ xs := by
  induction xs using List.reverseRecOn with
  | nil => exact List.Subset.refl _
  | append_singleton xs x ih =>
      rw [greedy_concat]
      split
      · exact fun r hr => List.mem_append_left _ (ih hr)
      · exact List.append_subset.mpr
          ⟨fun r hr => List.mem_append_left _ (ih hr), List.subset_append_right _ _⟩

/-- A part that is similar to nothing outside clusters by itself. -/
theorem filter_greedy (p : α → Bool)
    (hp : ∀ a ∈ xs, ∀ b ∈ xs, sim a b = true → p a = p b) :
    (greedy sim xs).filter p = greedy sim (xs.filter p) := by
  induction xs using List.reverseRecOn with
  | nil => rfl
  | append_singleton xs x ih =>
      have hmem : ∀ a ∈ xs, a ∈ xs ++ [x] := fun a ha => List.mem_append_left _ ha
      have hx : x ∈ xs ++ [x] := List.mem_append_right _ List.mem_cons_self
      have hpart := ih fun a ha b hb => hp a (hmem a ha) b (hmem b hb)
      rw [greedy_concat, List.filter_append]
      cases hpx : p x with
      | false =>
          have hlast : [x].filter p = [] := by rw [List.filter_singleton, hpx]; rfl
          rw [hlast, List.append_nil, ← hpart]
          split
          · rfl
          · rw [List.filter_append, hlast, List.append_nil]
      | true =>
          have hlast : [x].filter p = [x] := by rw [List.filter_singleton, hpx]; rfl
          have hany : (greedy sim (xs.filter p)).any (sim x) = (greedy sim xs).any (sim x) := by
            rw [← hpart, Bool.eq_iff_iff, List.any_eq_true, List.any_eq_true]
            constructor
            · rintro ⟨r, hr, hsim⟩
              exact ⟨r, List.mem_of_mem_filter hr, hsim⟩
            · rintro ⟨r, hr, hsim⟩
              have hpr : p r = true :=
                (hp x hx r (hmem r (greedy_subset xs hr)) hsim).symm.trans hpx
              exact ⟨r, List.mem_filter.mpr ⟨hr, hpr⟩, hsim⟩
          rw [hlast, greedy_concat, hany, ← hpart]
          split
          · rfl
          · rw [List.filter_append, hlast]

theorem length_greedy (p : α → Bool)
    (hp : ∀ a ∈ xs, ∀ b ∈ xs, sim a b = true → p a = p b) :
    (greedy sim xs).length =
      (greedy sim (xs.filter p)).length + (greedy sim (xs.filter fun a => !p a)).length := by
  rw [← filter_greedy p hp, ← filter_greedy (fun a => !p a) fun a ha b hb hsim =>
    congrArg _ (hp a ha b hb hsim)]
  exact List.length_eq_length_filter_add p

/-- Elements that are all similar make one cluster. -/
theorem greedy_clique (h : ∀ a ∈ x :: xs, ∀ b ∈ x :: xs, sim a b = true) :
    greedy sim (x :: xs) = [x] := by
  induction xs using List.reverseRecOn with
  | nil => rfl
  | append_singleton xs y ih =>
      rw [← List.cons_append] at h ⊢
      rw [greedy_concat, ih fun a ha b hb =>
        h a (List.mem_append_left _ ha) b (List.mem_append_left _ hb)]
      have hsim : [x].any (sim y) = true := by
        rw [List.any_cons, h y (List.mem_append_right _ List.mem_cons_self) x
          (List.mem_append_left _ List.mem_cons_self), Bool.true_or]
      rw [hsim]
      rfl

/-- An element that is similar to no other opens a cluster of its own. -/
theorem greedy_insert (hfree : ∀ z ∈ xs ++ ys, sim x z = false ∧ sim z x = false) :
    ∃ before after, greedy sim (xs ++ ys) = before ++ after ∧
      greedy sim (xs ++ x :: ys) = before ++ x :: after := by
  induction ys using List.reverseRecOn with
  | nil =>
      refine ⟨greedy sim xs, [], by rw [List.append_nil, List.append_nil], ?_⟩
      rw [greedy_concat, if_neg]
      intro hany
      obtain ⟨r, hr, hsim⟩ := List.any_eq_true.mp hany
      rw [(hfree r (List.mem_append_left _ (greedy_subset xs hr))).1] at hsim
      cases hsim
  | append_singleton ys y ih =>
      rw [← List.append_assoc] at hfree
      obtain ⟨before, after, hold, hnew⟩ := ih fun z hz => hfree z (List.mem_append_left _ hz)
      have hy : sim y x = false :=
        (hfree y (List.mem_append_right _ List.mem_cons_self)).2
      have hany : (before ++ x :: after).any (sim y) = (before ++ after).any (sim y) := by
        rw [List.any_append, List.any_cons, hy, Bool.false_or, ← List.any_append]
      rw [← List.cons_append, ← List.append_assoc, ← List.append_assoc, greedy_concat,
        greedy_concat, hold, hnew, hany]
      split
      · exact ⟨before, after, rfl, rfl⟩
      · exact ⟨before, after ++ [y], List.append_assoc _ _ _, List.append_assoc _ _ _⟩

/-! ## The number of clusters -/

variable {arrange : List α → List α}

variable (sim arrange) in
/-- The number of clusters when the elements are put in order first. -/
def count (xs : List α) : ℕ := (greedy sim (arrange xs)).length

theorem count_perm (harrange : Arranges arrange) (h : xs.Perm ys) :
    count sim arrange xs = count sim arrange ys := by
  unfold count
  rw [harrange.unique xs ys h]

theorem Arranges.filter (harrange : Arranges arrange) (p : α → Bool) (xs : List α) :
    arrange (xs.filter p) = (arrange xs).filter p := by
  rw [← harrange.sublist _ xs List.filter_sublist]
  exact harrange.unique _ _ ((harrange.perm xs).symm.filter p)

/-- The cluster of a clear element is one, and the others are as without it. -/
theorem count_of_clear (harrange : Arranges arrange) (hsymm : ∀ a b, sim a b = sim b a)
    (hclear : Clear sim x xs) (hy : y ∈ xs) (hsim : sim x y = true) :
    count sim arrange xs = count sim arrange (xs.filter fun a => !sim x a) + 1 := by
  have hclear' : Clear sim x (arrange xs) := hclear.of_subset (harrange.perm xs).subset
  have hpart : ∀ a ∈ arrange xs, ∀ b ∈ arrange xs, sim a b = true → sim x a = sim x b := by
    intro a ha b hb hab
    rw [Bool.eq_iff_iff]
    constructor
    · intro hxa
      rw [hclear' a ha hxa b hb, hab]
    · intro hxb
      rw [hclear' b hb hxb a ha, hsymm, hab]
  have hmem : y ∈ (arrange xs).filter (sim x) :=
    List.mem_filter.mpr ⟨(harrange.perm xs).symm.subset hy, hsim⟩
  obtain ⟨first, rest, hcluster⟩ := List.exists_cons_of_ne_nil (List.ne_nil_of_mem hmem)
  have hclique : ∀ a ∈ first :: rest, ∀ b ∈ first :: rest, sim a b = true := by
    intro a ha b hb
    rw [← hcluster] at ha hb
    obtain ⟨ha, hxa⟩ := List.mem_filter.mp ha
    obtain ⟨hb, hxb⟩ := List.mem_filter.mp hb
    rw [← hclear' a ha hxa b hb, hxb]
  unfold count
  rw [length_greedy (sim x) hpart, hcluster, greedy_clique hclique, harrange.filter,
    List.length_singleton, Nat.add_comm]

/-- An element that is similar to no other is a cluster more. -/
theorem count_cons_of_free (harrange : Arranges arrange) (hsymm : ∀ a b, sim a b = sim b a)
    (hfree : ∀ z ∈ xs, sim x z = false) :
    count sim arrange (x :: xs) = count sim arrange xs + 1 := by
  have hx : x ∈ arrange (x :: xs) := (harrange.perm _).symm.subset List.mem_cons_self
  obtain ⟨before, after, hsplit⟩ := List.append_of_mem hx
  have hperm : (before ++ after).Perm xs := by
    have hall := hsplit ▸ harrange.perm (x :: xs)
    exact (List.perm_middle.symm.trans hall).cons_inv
  have hsub : (before ++ after).Sublist (arrange (x :: xs)) := by
    rw [hsplit]
    exact (List.Sublist.refl before).append (List.sublist_cons_self x after)
  have hrest : arrange xs = before ++ after := by
    rw [← harrange.sublist _ _ hsub]
    exact harrange.unique _ _ hperm.symm
  obtain ⟨reps, reps', hold, hnew⟩ := @greedy_insert α sim before after x fun z hz =>
    ⟨hfree z (hperm.subset hz), (hsymm z x).trans (hfree z (hperm.subset hz))⟩
  unfold count
  rw [hsplit, hrest, hold, hnew, List.length_append, List.length_append, List.length_cons,
    Nat.add_assoc]

/-- A clear element takes no cluster away and opens one at most. -/
theorem count_cons (harrange : Arranges arrange) (hsymm : ∀ a b, sim a b = sim b a)
    (hclear : Clear sim x (x :: xs)) :
    count sim arrange xs ≤ count sim arrange (x :: xs) ∧
      count sim arrange (x :: xs) ≤ count sim arrange xs + 1 := by
  by_cases hfree : ∀ z ∈ xs, sim x z = false
  · rw [count_cons_of_free harrange hsymm hfree]
    exact ⟨Nat.le_succ _, le_refl _⟩
  · obtain ⟨z, hz, hsim⟩ : ∃ z ∈ xs, sim x z = true := by
      simpa only [not_forall, Bool.not_eq_false, exists_prop] using hfree
    have hself : sim x x = true := by
      rw [hclear z (List.mem_cons_of_mem _ hz) hsim x List.mem_cons_self, hsymm, hsim]
    have hrest : (x :: xs).filter (fun a => !sim x a) = xs.filter fun a => !sim x a := by
      rw [List.filter_cons, hself]
      rfl
    rw [count_of_clear harrange hsymm hclear List.mem_cons_self hself, hrest,
      count_of_clear harrange hsymm (hclear.of_subset (List.subset_cons_self _ _)) hz hsim]
    exact ⟨le_refl _, Nat.le_succ _⟩

/-- An element may take the place of one that is similar to it if any is. -/
theorem count_replace (harrange : Arranges arrange) (hsymm : ∀ a b, sim a b = sim b a)
    (hx : Clear sim x (x :: xs)) (hy : Clear sim y (y :: x :: xs))
    (hnear : ∀ z ∈ xs, sim y z = true → sim y x = true) :
    count sim arrange (x :: xs) ≤ count sim arrange (y :: xs) := by
  cases hsim : sim y x with
  | false =>
      have hfree : ∀ z ∈ xs, sim y z = false := by
        intro z hz
        cases hyz : sim y z with
        | false => rfl
        | true => exact absurd (hnear z hz hyz) (by rw [hsim]; exact Bool.false_ne_true)
      rw [count_cons_of_free harrange hsymm hfree]
      exact (count_cons harrange hsymm hx).2
  | true =>
      have hself : sim y y = true := by
        rw [hy x (List.mem_cons_of_mem _ List.mem_cons_self) hsim y List.mem_cons_self, hsymm, hsim]
      have hsub : y :: xs ⊆ y :: x :: xs :=
        List.cons_subset_cons _ (List.subset_cons_self _ _)
      have hcluster : (x :: xs).filter (fun a => !sim y a) =
          (y :: xs).filter fun a => !sim y a := by
        rw [List.filter_cons, List.filter_cons, hsim, hself]
        rfl
      rw [count_of_clear harrange hsymm (hy.of_subset (List.subset_cons_self _ _))
        List.mem_cons_self hsim, hcluster,
        count_of_clear harrange hsymm (hy.of_subset hsub) List.mem_cons_self hself]

end

end BlackMonolith.Library.Clustering
