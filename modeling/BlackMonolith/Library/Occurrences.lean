import BlackMonolith.Library.Substring

/-!
# What is found in a longer text

A search that looks at the tails of a text, one at a time, finds in a longer text what it
finds in a part of it. Around the part, an element that no match contains brings nothing
new. A maximal run of a class of elements, though, is one only among its neighbours.
-/
namespace BlackMonolith.Library

section
variable {α : Type*} {p : List α → Bool} {pre xs post : List α} {pad : α}

theorem any_tails_cons (p : List α → Bool) (a : α) (xs : List α) :
    (a :: xs).tails.any p = (p (a :: xs) || xs.tails.any p) := by
  rw [List.tails_cons, List.any_cons]

/-- A match survives what is put around it. -/
theorem any_tails_append (hp : ∀ t, p t = true → p (t ++ post) = true)
    (h : xs.tails.any p = true) : (pre ++ xs ++ post).tails.any p = true := by
  obtain ⟨t, ht, hpt⟩ := List.any_eq_true.mp h
  obtain ⟨front, rfl⟩ := (List.mem_tails t xs).mp ht
  refine List.any_eq_true.mpr ⟨t ++ post, (List.mem_tails _ _).mpr ⟨pre ++ front, ?_⟩, hp t hpt⟩
  simp only [List.append_assoc]

/-- Among copies of an element that no match begins with or ends in, a match is one of the
part between them. -/
theorem any_tails_of_padded (hpre : ∀ a ∈ pre, a = pad) (hpost : ∀ a ∈ post, a = pad)
    (hpad : ∀ t, p (pad :: t) = false)
    (hp : ∀ t, t <:+ xs → p (t ++ post) = true → p t = true)
    (h : (pre ++ xs ++ post).tails.any p = true) : xs.tails.any p = true := by
  have hpads : ∀ ys zs : List α, (∀ a ∈ ys, a = pad) →
      (ys ++ zs).tails.any p = zs.tails.any p := by
    intro ys zs hys
    induction ys with
    | nil => rfl
    | cons y ys ih =>
        rw [List.cons_append, any_tails_cons, hys y List.mem_cons_self, hpad, Bool.false_or]
        exact ih fun a ha => hys a (List.mem_cons_of_mem y ha)
  rw [List.append_assoc, hpads pre _ hpre] at h
  induction xs with
  | nil =>
      have hnone := hpads post [] hpost
      rw [List.append_nil] at hnone
      rw [List.nil_append, hnone] at h
      exact h
  | cons x xs ih =>
      rw [List.cons_append, any_tails_cons, Bool.or_eq_true] at h
      rw [any_tails_cons, Bool.or_eq_true]
      cases h with
      | inl hhead => exact Or.inl (hp (x :: xs) List.suffix_rfl hhead)
      | inr htail => exact Or.inr (ih (fun t ht => hp t (ht.trans (List.suffix_cons x xs))) htail)

theorem takeWhile_concat_of_neg {f : α → Bool} (hpad : f pad = false) (xs : List α) :
    (xs ++ [pad]).takeWhile f = xs.takeWhile f := by
  induction xs with
  | nil =>
      rw [List.nil_append, List.takeWhile_cons, hpad, List.takeWhile_nil,
        if_neg Bool.false_ne_true]
  | cons x xs ih => rw [List.cons_append, List.takeWhile_cons, List.takeWhile_cons, ih]

theorem length_takeWhile_append (f : α → Bool) (xs post : List α) :
    (xs.takeWhile f).length ≤ ((xs ++ post).takeWhile f).length := by
  induction xs with
  | nil => exact Nat.zero_le _
  | cons x xs ih =>
      rw [List.cons_append, List.takeWhile_cons, List.takeWhile_cons]
      split
      · exact Nat.succ_le_succ ih
      · exact Nat.le_refl 0

end

/-! ## Matches that begin with a word -/

section
variable {α : Type*} [DecidableEq α] {q xs post front : List α} {g : List α → Bool} {pad : α}

/-- The word stands here, and what comes after it fits. -/
def beginsWith (q : List α) (g : List α → Bool) (t : List α) : Bool :=
  q.isPrefixOf t && g (t.drop q.length)

theorem beginsWith_append (hg : ∀ r, g r = true → g (r ++ post) = true) (t : List α)
    (h : beginsWith q g t = true) : beginsWith q g (t ++ post) = true := by
  rw [beginsWith, Bool.and_eq_true, List.isPrefixOf_iff_prefix] at h ⊢
  obtain ⟨⟨rest, rfl⟩, hrest⟩ := h
  rw [List.drop_left] at hrest
  rw [List.append_assoc, List.drop_left]
  exact ⟨List.prefix_append _ _, hg rest hrest⟩

omit [DecidableEq α] in
theorem prefix_of_prefix_concat (hpad : pad ∉ q) (h : q <+: xs ++ [pad]) : q <+: xs := by
  rcases List.prefix_concat_iff.mp h with rfl | hxs
  · exact absurd (List.mem_append_right _ (List.mem_singleton_self pad)) hpad
  · exact hxs

theorem beginsWith_of_concat (hpad : pad ∉ q) (hg : ∀ r, g (r ++ [pad]) = true → g r = true)
    (t : List α) (h : beginsWith q g (t ++ [pad]) = true) : beginsWith q g t = true := by
  rw [beginsWith, Bool.and_eq_true, List.isPrefixOf_iff_prefix] at h ⊢
  obtain ⟨hq, hrest⟩ := h
  obtain ⟨rest, rfl⟩ := prefix_of_prefix_concat hpad hq
  rw [List.append_assoc, List.drop_left] at hrest
  rw [List.drop_left]
  exact ⟨List.prefix_append q rest, hg rest hrest⟩

theorem beginsWith_nil (hq : q ≠ []) : beginsWith q g [] = false := by
  cases q with
  | nil => exact absurd rfl hq
  | cons a q => rfl

theorem beginsWith_pad (hq : q ≠ []) (hpad : pad ∉ q) (t : List α) :
    beginsWith q g (pad :: t) = false := by
  cases q with
  | nil => exact absurd rfl hq
  | cons a q =>
      have hne : (a == pad) = false := by
        rw [beq_eq_false_iff_ne]
        exact fun heq => hpad (heq ▸ List.mem_cons_self)
      rw [beginsWith, List.isPrefixOf_cons_cons, hne, Bool.false_and, Bool.false_and]

theorem any_beginsWith_of_padded {pre : List α} (hq : q ≠ []) (hpad : pad ∉ q)
    (hg : ∀ r, g (r ++ [pad]) = true → g r = true) (hpre : ∀ a ∈ pre, a = pad)
    (hpost : post = [] ∨ post = [pad])
    (h : (pre ++ xs ++ post).tails.any (beginsWith q g) = true) :
    xs.tails.any (beginsWith q g) = true := by
  apply any_tails_of_padded hpre _ (beginsWith_pad hq hpad) _ h
  · intro a ha
    rcases hpost with rfl | rfl
    · cases ha
    · exact List.mem_singleton.mp ha
  · intro t _ ht
    rcases hpost with rfl | rfl
    · rw [List.append_nil] at ht
      exact ht
    · exact beginsWith_of_concat hpad hg t ht

/-- Where a match is found the word occurs. -/
theorem infix_of_any_beginsWith (h : xs.tails.any (beginsWith q g) = true) : q <:+: xs := by
  obtain ⟨t, ht, hmatch⟩ := List.any_eq_true.mp h
  rw [beginsWith, Bool.and_eq_true, List.isPrefixOf_iff_prefix] at hmatch
  exact hmatch.1.isInfix.trans ((List.mem_tails t xs).mp ht).isInfix

theorem occursIn_eq_any_tails (needle xs : List α) :
    occursIn needle xs = xs.tails.any (beginsWith needle fun _ => true) := by
  rw [Bool.eq_iff_iff, occursIn_iff, List.any_eq_true]
  constructor
  · rintro ⟨front, back, rfl⟩
    refine ⟨needle ++ back, (List.mem_tails _ _).mpr ⟨front, ?_⟩, ?_⟩
    · rw [List.append_assoc]
    · rw [beginsWith, Bool.and_true, List.isPrefixOf_iff_prefix]
      exact List.prefix_append needle back
  · intro h
    exact infix_of_any_beginsWith (List.any_eq_true.mpr h)

/-- A word that does not contain the element occurs on one side of it, and so does a
match at such an occurrence on the right. -/
theorem any_beginsWith_of_marked (hq : q ≠ []) (hpad : pad ∉ q) (hfront : ¬ q <:+: front)
    (h : (front ++ pad :: xs).tails.any (beginsWith q g) = true) :
    xs.tails.any (beginsWith q g) = true := by
  induction front with
  | nil =>
      rw [List.nil_append, any_tails_cons, beginsWith_pad hq hpad, Bool.false_or] at h
      exact h
  | cons a front ih =>
      rw [List.cons_append, any_tails_cons, Bool.or_eq_true] at h
      cases h with
      | inl hhead =>
          rw [beginsWith, Bool.and_eq_true, List.isPrefixOf_iff_prefix] at hhead
          have hprefix : q <+: a :: front :=
            prefix_of_prefix_append_marker (List.cons_ne_nil pad [])
              (fun c hc hmem => hpad (List.mem_singleton.mp hmem ▸ hc)) hhead.1
          exact absurd hprefix.isInfix hfront
      | inr htail => exact ih (fun hinfix => hfront (List.infix_cons hinfix)) htail

/-! ## Searches that go on after an occurrence -/

/-- No occurrence of the word overlaps another. -/
def Borderless (q : List α) : Prop := ∀ i < q.length, 0 < i → ¬ q.drop i <+: q

instance (q : List α) : Decidable (Borderless q) :=
  inferInstanceAs (Decidable (∀ i < q.length, 0 < i → ¬ q.drop i <+: q))

omit [DecidableEq α] in
/-- Behind the beginning of an occurrence, none begins before it ends. -/
theorem not_prefix_drop (hborder : Borderless q) (h : q <+: xs) {i : ℕ} (hi : i < q.length)
    (hpos : 0 < i) : ¬ q <+: xs.drop i := by
  intro hdrop
  obtain ⟨rest, rfl⟩ := h
  rw [List.drop_append_of_le_length hi.le] at hdrop
  apply hborder i hi hpos
  apply List.prefix_of_prefix_length_le (List.prefix_append _ rest) hdrop
  rw [List.length_drop]
  exact Nat.sub_le _ _

theorem any_tails_drop (hborder : Borderless q) (h : q <+: xs) {n : ℕ} (hn : n ≤ q.length)
    (hpos : 0 < n) :
    (xs.drop n).tails.any (beginsWith q g) = (xs.drop 1).tails.any (beginsWith q g) := by
  induction n with
  | zero => exact absurd hpos (Nat.lt_irrefl 0)
  | succ n ih =>
      cases n with
      | zero => rfl
      | succ n =>
          rw [← ih (Nat.le_of_succ_le hn) (Nat.succ_pos n)]
          have hnone : beginsWith q g (xs.drop (n + 1)) = false := by
            rw [beginsWith, Bool.and_eq_false_iff]
            left
            rw [Bool.eq_false_iff, Ne, List.isPrefixOf_iff_prefix]
            exact not_prefix_drop hborder h hn (Nat.succ_pos n)
          cases hdrop : xs.drop (n + 1) with
          | nil => rw [← List.drop_drop, hdrop, List.drop_nil]
          | cons x rest =>
              rw [hdrop] at hnone
              rw [any_tails_cons, hnone, Bool.false_or, ← List.drop_drop, hdrop, List.drop_one,
                List.tail_cons]

end

/-! ## Maximal runs -/

/-- The elements of the run are in the class, its neighbours are not. -/
structure IsRun {α : Type*} (p : α → Bool) (front run back : List α) : Prop where
  inside : ∀ a ∈ run, p a = true
  before : ∀ a ∈ front.getLast?, p a = false
  after : ∀ a ∈ back.head?, p a = false

section
variable {α : Type*} {p : α → Bool} {front run back pend rest : List α} {b : α}

theorem eq_nil_of_all (hall : ∀ a ∈ front, p a = true) (hlast : ∀ a ∈ front.getLast?, p a = false) :
    front = [] := by
  by_contra hne
  have hlast' := hlast _ (List.getLast_mem_getLast? hne)
  rw [hall _ (List.getLast_mem hne)] at hlast'
  cases hlast'

/-- A run between two other elements is one in a longer text. -/
theorem IsRun.append {pre post : List α} (h : IsRun p front run back) (hfront : front ≠ [])
    (hback : back ≠ []) : IsRun p (pre ++ front) run (back ++ post) := by
  refine ⟨h.inside, fun a ha => h.before a ?_, fun a ha => h.after a ?_⟩
  · rw [List.getLast?_append_of_ne_nil _ hfront] at ha
    exact ha
  · rw [List.head?_append_of_ne_nil _ hback] at ha
    exact ha

theorem IsRun.of_append {pre post : List α} (h : IsRun p (pre ++ front) run (back ++ post)) :
    IsRun p front run back := by
  refine ⟨h.inside, fun a ha => h.before a ?_, fun a ha => h.after a ?_⟩
  · cases front with
    | nil => cases ha
    | cons b front =>
        rw [List.getLast?_append_of_ne_nil _ (List.cons_ne_nil b front)]
        exact ha
  · cases back with
    | nil => cases ha
    | cons b back => exact ha

/-- A run of a text that begins with elements of the class and goes on with another one. -/
theorem isRun_of_blocked (hpend : ∀ a ∈ pend, p a = true) (hb : p b = false)
    (hsplit : pend ++ b :: rest = front ++ run ++ back) (hne : run ≠ [])
    (hrun : IsRun p front run back) :
    (front = [] ∧ run = pend ∧ back = b :: rest) ∨
      ∃ front', front = pend ++ b :: front' ∧ rest = front' ++ run ++ back ∧
        IsRun p front' run back := by
  rw [List.append_assoc] at hsplit
  rcases List.append_eq_append_iff.mp hsplit with ⟨middle, hfront, hrest⟩ | ⟨middle, hfront, hrest⟩
  · right
    cases middle with
    | nil =>
        obtain ⟨a, run, rfl⟩ := List.exists_cons_of_ne_nil hne
        have ha := hrun.inside a List.mem_cons_self
        rw [← (List.cons.inj hrest).1, hb] at ha
        cases ha
    | cons a middle =>
        obtain ⟨hhead, htail⟩ := List.cons.inj hrest
        subst hhead
        refine ⟨middle, hfront, htail.trans (List.append_assoc _ _ _).symm, hrun.inside, ?_,
          hrun.after⟩
        intro a ha
        apply hrun.before a
        rw [hfront, List.getLast?_append_of_ne_nil _ (List.cons_ne_nil b middle)]
        cases middle with
        | nil => cases ha
        | cons c middle => exact ha
  · left
    have hnil : front = [] := eq_nil_of_all
      (fun a ha => hpend a (hfront ▸ List.mem_append_left _ ha)) hrun.before
    subst hnil
    rw [List.nil_append] at hfront
    subst hfront
    rcases List.append_eq_append_iff.mp hrest with ⟨extra, hrun', hback⟩ | ⟨extra, hrun', hback⟩
    · cases extra with
      | nil => exact ⟨rfl, (hrun'.trans (List.append_nil _)).symm, hback⟩
      | cons a extra =>
          have ha := hrun.after a (by rw [hback]; rfl)
          rw [hpend a (hrun' ▸ List.mem_append_right _ List.mem_cons_self)] at ha
          cases ha
    · cases extra with
      | nil => exact ⟨rfl, hrun'.trans (List.append_nil _), hback.symm⟩
      | cons a extra =>
          have ha := hrun.inside a (hrun' ▸ List.mem_append_right _ List.mem_cons_self)
          rw [← (List.cons.inj hback).1, hb] at ha
          cases ha

theorem isRun_whole (hpend : ∀ a ∈ pend, p a = true) (hsplit : pend = front ++ run ++ back)
    (hrun : IsRun p front run back) : front = [] ∧ run = pend ∧ back = [] := by
  have hfront : front = [] := eq_nil_of_all
    (fun a ha => hpend a (hsplit ▸ List.mem_append_left _ (List.mem_append_left _ ha))) hrun.before
  have hback : back = [] := by
    cases back with
    | nil => rfl
    | cons a back =>
        have ha := hrun.after a rfl
        rw [hpend a (hsplit ▸ List.mem_append_right _ List.mem_cons_self)] at ha
        cases ha
  subst hfront hback
  exact ⟨rfl, (hsplit.trans (List.append_nil _)).symm, rfl⟩

end

end BlackMonolith.Library
