import Mathlib.Data.List.Infix

/-!
# Searching and replacing in lists

The search for a contiguous block, and the left-to-right replacement of every
occurrence that does not overlap an earlier one. Replacing can join its
surroundings into a new occurrence; it cannot when the marker put in is not
empty and shares no element with what was searched for.
-/
namespace BlackMonolith.Library

variable {α : Type*} [DecidableEq α]

/-- Whether `needle` is a contiguous block of a list. -/
def occursIn (needle : List α) : List α → Bool
  | [] => needle.isEmpty
  | x :: xs => needle.isPrefixOf (x :: xs) || occursIn needle xs

theorem occursIn_iff {needle xs : List α} : occursIn needle xs ↔ needle <:+: xs := by
  induction xs with
  | nil => simp only [occursIn, List.isEmpty_iff, List.infix_nil]
  | cons x xs ih =>
      simp only [occursIn, Bool.or_eq_true, List.isPrefixOf_iff_prefix, ih]
      exact List.infix_cons_iff.symm

/-- `skip` counts the elements left of an occurrence already replaced. -/
def replaceFrom (needle marker : List α) : ℕ → List α → List α
  | _, [] => []
  | skip + 1, _ :: xs => replaceFrom needle marker skip xs
  | 0, x :: xs =>
      if needle.isPrefixOf (x :: xs) then
        marker ++ replaceFrom needle marker (needle.length - 1) xs
      else x :: replaceFrom needle marker 0 xs

/-- Replaces the occurrences of a needle that is not empty. -/
def replaceAll (needle marker xs : List α) : List α := replaceFrom needle marker 0 xs

section
variable {needle marker : List α}

/-- A block free of the marker at the head of the result was there before. -/
theorem prefix_of_prefix_replaceFrom (hm : marker ≠ []) {block : List α}
    (hd : ∀ c ∈ block, c ∉ marker) {xs : List α}
    (h : block <+: replaceFrom needle marker 0 xs) : block <+: xs := by
  induction xs generalizing block with
  | nil => exact h
  | cons x xs ih =>
      cases block with
      | nil => exact List.nil_prefix
      | cons c block =>
          simp only [replaceFrom] at h
          split_ifs at h with hp
          · cases marker with
            | nil => exact absurd rfl hm
            | cons m marker =>
                have hc : c = m := (List.cons_prefix_cons.mp h).1
                exact absurd (hc ▸ List.mem_cons_self) (hd c List.mem_cons_self)
          · obtain ⟨rfl, htail⟩ := List.cons_prefix_cons.mp h
            refine List.cons_prefix_cons.mpr ⟨rfl, ih ?_ htail⟩
            exact fun d hd' => hd d (List.mem_cons_of_mem c hd')

omit [DecidableEq α] in
/-- A block that avoids the marker cannot begin inside it. -/
theorem infix_of_infix_marker_append (hn : needle ≠ []) (hd : ∀ c ∈ needle, c ∉ marker)
    {xs : List α} (h : needle <:+: marker ++ xs) : needle <:+: xs := by
  induction marker with
  | nil => exact h
  | cons m marker ih =>
      have hd' : ∀ c ∈ needle, c ∉ marker := fun c hc hm => hd c hc (List.mem_cons_of_mem m hm)
      rcases List.infix_cons_iff.mp h with h | h
      · cases needle with
        | nil => exact absurd rfl hn
        | cons c needle =>
            have hc : c = m := (List.cons_prefix_cons.mp h).1
            exact absurd (hc ▸ List.mem_cons_self) (hd c List.mem_cons_self)
      · exact ih hd' h

/-- No occurrence survives a replacement, and none is created. -/
theorem not_infix_replaceFrom (hn : needle ≠ []) (hm : marker ≠ [])
    (hd : ∀ c ∈ needle, c ∉ marker) (skip : ℕ) (xs : List α) :
    ¬ needle <:+: replaceFrom needle marker skip xs := by
  induction xs generalizing skip with
  | nil => exact fun h => hn (List.eq_nil_of_infix_nil h)
  | cons x xs ih =>
      cases skip with
      | succ skip => exact ih skip
      | zero =>
          simp only [replaceFrom]
          split_ifs with hp
          · exact fun h => ih _ (infix_of_infix_marker_append hn hd h)
          · intro h
            rcases List.infix_cons_iff.mp h with h | h
            · apply hp
              rw [List.isPrefixOf_iff_prefix]
              cases needle with
              | nil => exact List.nil_prefix
              | cons c needle =>
                  obtain ⟨rfl, htail⟩ := List.cons_prefix_cons.mp h
                  refine List.cons_prefix_cons.mpr ⟨rfl, ?_⟩
                  exact prefix_of_prefix_replaceFrom hm
                    (fun d hd' => hd d (List.mem_cons_of_mem c hd')) htail
            · exact ih 0 h

theorem not_infix_replaceAll (hn : needle ≠ []) (hm : marker ≠ [])
    (hd : ∀ c ∈ needle, c ∉ marker) (xs : List α) : ¬ needle <:+: replaceAll needle marker xs :=
  not_infix_replaceFrom hn hm hd 0 xs

/-! ## Text put before a replacement -/

/-- The text before the first occurrence of a needle, all of it if there is none. -/
def beforeFirst (needle : List α) : List α → List α
  | [] => []
  | x :: xs => if needle.isPrefixOf (x :: xs) then [] else x :: beforeFirst needle xs

/-- A replacement keeps the text before the first occurrence and goes on with the marker. -/
theorem replaceAll_eq (xs : List α) :
    (replaceAll needle marker xs = xs ∧ beforeFirst needle xs = xs) ∨
      ∃ rest, replaceAll needle marker xs = beforeFirst needle xs ++ (marker ++ rest) := by
  unfold replaceAll
  induction xs with
  | nil => exact Or.inl ⟨rfl, rfl⟩
  | cons x xs ih =>
      simp only [replaceFrom, beforeFirst]
      split_ifs with hp
      · exact Or.inr ⟨_, (List.nil_append _).symm⟩
      · rcases ih with ⟨h₁, h₂⟩ | ⟨rest, h⟩
        · exact Or.inl ⟨by rw [h₁], by rw [h₂]⟩
        · exact Or.inr ⟨rest, by rw [h, List.cons_append]⟩

omit [DecidableEq α] in
theorem prefix_of_prefix_append_marker (hm : marker ≠ []) {block front back : List α}
    (hd : ∀ c ∈ block, c ∉ marker) (h : block <+: front ++ (marker ++ back)) :
    block <+: front := by
  induction front generalizing block with
  | nil =>
      cases block with
      | nil => exact List.nil_prefix
      | cons c block =>
          cases marker with
          | nil => exact absurd rfl hm
          | cons m marker =>
              have hc : c = m := (List.cons_prefix_cons.mp h).1
              exact absurd (hc ▸ List.mem_cons_self) (hd c List.mem_cons_self)
  | cons x front ih =>
      cases block with
      | nil => exact List.nil_prefix
      | cons c block =>
          obtain ⟨rfl, htail⟩ := List.cons_prefix_cons.mp h
          refine List.cons_prefix_cons.mpr ⟨rfl, ih ?_ htail⟩
          exact fun d hd' => hd d (List.mem_cons_of_mem c hd')

omit [DecidableEq α] in
/-- A block that avoids the marker lies before it or after it. -/
theorem infix_around_marker (hn : needle ≠ []) (hm : marker ≠ [])
    (hd : ∀ c ∈ needle, c ∉ marker) {front back : List α}
    (h : needle <:+: front ++ (marker ++ back)) : needle <:+: front ∨ needle <:+: back := by
  induction front with
  | nil => exact Or.inr (infix_of_infix_marker_append hn hd h)
  | cons x front ih =>
      rcases List.infix_cons_iff.mp h with h | h
      · exact Or.inl (prefix_of_prefix_append_marker hm hd h).isInfix
      · exact (ih h).imp_left List.infix_cons

/-- An occurrence in text followed by a replacement ends before the first
marker of the replacement. -/
theorem infix_append_replaceAll_iff (hn : needle ≠ []) (hm : marker ≠ [])
    (hd : ∀ c ∈ needle, c ∉ marker) (front xs : List α) :
    needle <:+: front ++ replaceAll needle marker xs ↔
      needle <:+: front ++ beforeFirst needle xs := by
  rcases @replaceAll_eq _ _ needle marker xs with ⟨h₁, h₂⟩ | ⟨rest, hrest⟩
  · rw [h₁, h₂]
  · have hnone := not_infix_replaceAll hn hm hd xs
    rw [hrest] at hnone ⊢
    rw [← List.append_assoc]
    constructor
    · intro h
      rcases infix_around_marker hn hm hd h with h | h
      · exact h
      · have hback : rest <:+: beforeFirst needle xs ++ (marker ++ rest) :=
          (List.suffix_append_of_suffix (List.suffix_append marker rest)).isInfix
        exact absurd (h.trans hback) hnone
    · exact fun h => h.trans (List.prefix_append _ _).isInfix

end

/-! ## Separators -/

omit [DecidableEq α] in
/-- The first separator splits a list in one way. -/
theorem append_separator_inj {sep : α} {xs ys xs' ys' : List α} (h : sep ∉ xs) (h' : sep ∉ xs') :
    xs ++ sep :: ys = xs' ++ sep :: ys' ↔ xs = xs' ∧ ys = ys' := by
  induction xs generalizing xs' with
  | nil =>
      cases xs' with
      | nil => simp
      | cons x' xs' =>
          have hne : sep ≠ x' := fun heq => h' (heq ▸ List.mem_cons_self)
          simp [hne]
  | cons x xs ih =>
      have hx : x ≠ sep := fun heq => h (heq ▸ List.mem_cons_self)
      cases xs' with
      | nil => simp [hx]
      | cons x' xs' =>
          have hxs : sep ∉ xs := fun hmem => h (List.mem_cons_of_mem x hmem)
          have hxs' : sep ∉ xs' := fun hmem => h' (List.mem_cons_of_mem x' hmem)
          simp only [List.cons_append, List.cons.injEq, ih hxs hxs', and_assoc]

/-! ## Parts across a seam -/

section
variable {α : Type*}

/-- Two texts share a part in which one of them begins and one of them ends: one lies in
the other, or the end of one is the beginning of the other. -/
def Clash (xs ys : List α) : Prop :=
  ∃ before shared after front back, shared ≠ [] ∧ xs = before ++ shared ++ after ∧
    ys = front ++ shared ++ back ∧ (before = [] ∨ front = []) ∧ (after = [] ∨ back = [])

theorem Clash.map {β : Type*} {xs ys : List α} (f : α → β) (h : Clash xs ys) :
    Clash (xs.map f) (ys.map f) := by
  obtain ⟨before, shared, after, front, back, hne, rfl, rfl, hstart, hstop⟩ := h
  refine ⟨before.map f, shared.map f, after.map f, front.map f, back.map f, ?_, ?_, ?_, ?_, ?_⟩
  · exact fun hnil => hne (List.map_eq_nil_iff.mp hnil)
  · rw [List.map_append, List.map_append]
  · rw [List.map_append, List.map_append]
  · exact hstart.imp List.map_eq_nil_iff.mpr List.map_eq_nil_iff.mpr
  · exact hstop.imp List.map_eq_nil_iff.mpr List.map_eq_nil_iff.mpr

/-- Part of a text in three parts lies in the first or the last, or clashes with the second. -/
theorem infix_or_clash {first second third run : List α} (hne : second ≠ [])
    (h : run <:+: first ++ (second ++ third)) :
    run <:+: first ∨ run <:+: third ∨ Clash run second := by
  obtain ⟨before, after, hsplit⟩ := h
  rw [List.append_assoc] at hsplit
  rcases List.append_eq_append_iff.mp hsplit with ⟨rest, rfl, hrest⟩ | ⟨rest, rfl, hrest⟩
  · -- The run begins in the first part.
    rcases List.append_eq_append_iff.mp hrest with ⟨tail, rfl, -⟩ | ⟨common, rfl, hcommon⟩
    · left
      exact ⟨before, tail, List.append_assoc _ _ _⟩
    · rcases List.append_eq_append_iff.mp hcommon with ⟨tail, rfl, -⟩ | ⟨tail, rfl, -⟩
      · exact .inr (.inr ⟨rest, second, tail, [], [], hne, (List.append_assoc _ _ _).symm,
          (List.append_nil _).symm, .inr rfl, .inr rfl⟩)
      · cases common with
        | nil =>
            left
            rw [List.append_nil]
            exact (List.suffix_append before rest).isInfix
        | cons x common =>
            exact .inr (.inr ⟨rest, x :: common, [], [], tail, List.cons_ne_nil _ _,
              (List.append_nil _).symm, rfl, .inr rfl, .inl rfl⟩)
  · rcases List.append_eq_append_iff.mp hrest with ⟨tail, rfl, hthird⟩ | ⟨common, rfl, hcommon⟩
    · -- The run begins in the third part.
      right
      left
      exact ⟨tail, after, by rw [hthird, List.append_assoc]⟩
    · rcases List.append_eq_append_iff.mp hcommon with ⟨tail, rfl, -⟩ | ⟨tail, rfl, rfl⟩
      · cases run with
        | nil => exact .inl (List.nil_infix)
        | cons x run =>
            exact .inr (.inr ⟨[], x :: run, [], rest, tail, List.cons_ne_nil _ _,
              (List.append_nil _).symm, (List.append_assoc _ _ _).symm, .inl rfl, .inl rfl⟩)
      · cases common with
        | nil => exact .inr (.inl (List.prefix_append tail after).isInfix)
        | cons x common =>
            exact .inr (.inr ⟨[], x :: common, tail, rest, [], List.cons_ne_nil _ _, rfl,
              (List.append_nil _).symm, .inl rfl, .inr rfl⟩)

end

end BlackMonolith.Library
