import BlackMonolith.Library.Paths

/-!
# Noninterference by unwinding

A system takes actions that answer with an output; an observer owns some of the
actions and sees a view of the state. If the actions of others leave the view
alone, and an action of the observer has an effect on the view and an output
that depend on the view only, then two runs with the same actions of the
observer end in the same view and give the observer the same outputs. A guard
may restrict the steps of both runs.
-/
namespace BlackMonolith.Library

variable {σ α ο ν : Type*}

/-- The states of a system with outputs, as a partial step function. -/
def advance (step : σ → α → σ × ο) (s : σ) (a : α) : Option σ := some (step s a).1

/-- The outputs the observer's actions get. -/
def outputs (step : σ → α → σ × ο) (mine : α → Bool) : σ → List α → List ο
  | _, [] => []
  | s, a :: as =>
      let rest := outputs step mine (step s a).1 as
      if mine a then (step s a).2 :: rest else rest

structure Unwinding (step : σ → α → σ × ο) (guard : σ → α → Prop) (Inv : σ → Prop)
    (mine : α → Bool) (view : σ → ν) : Prop where
  invariant : ∀ s a, Inv s → guard s a → Inv (step s a).1
  others : ∀ s a, Inv s → guard s a → mine a = false → view (step s a).1 = view s
  own : ∀ s s' a, Inv s → Inv s' → guard s a → guard s' a → mine a = true → view s = view s' →
    view (step s a).1 = view (step s' a).1 ∧ (step s a).2 = (step s' a).2

namespace Unwinding
variable {step : σ → α → σ × ο} {guard : σ → α → Prop} {Inv : σ → Prop} {mine : α → Bool}
  {view : σ → ν} {s t s' t' : σ} {as bs : List α}

theorem advance_cases {a : α} (h : Path (advance step) guard s (a :: as) t) :
    guard s a ∧ Path (advance step) guard (step s a).1 as t := by
  cases h with
  | step hs hg hrest =>
      cases hs
      exact ⟨hg, hrest⟩

/-- A run without actions of the observer. -/
theorem quiet (h : Unwinding step guard Inv mine view) (hs : Inv s)
    (hpath : Path (advance step) guard s as t) (hmine : as.filter mine = []) :
    view t = view s ∧ outputs step mine s as = [] := by
  induction as generalizing s with
  | nil =>
      cases hpath
      exact ⟨rfl, rfl⟩
  | cons a as ih =>
      obtain ⟨hg, hrest⟩ := advance_cases hpath
      have ha : mine a = false := by
        cases ha : mine a with
        | false => rfl
        | true =>
            rw [List.filter_cons_of_pos ha] at hmine
            cases hmine
      rw [List.filter_cons_of_neg (by rw [ha]; exact Bool.false_ne_true)] at hmine
      obtain ⟨hview, hout⟩ := ih (h.invariant s a hs hg) hrest hmine
      refine ⟨hview.trans (h.others s a hs hg ha), ?_⟩
      simp only [outputs, ha, Bool.false_eq_true, if_false, hout]

/-- Two runs with the same actions of the observer look the same to it. -/
theorem noninterference (h : Unwinding step guard Inv mine view) (hs : Inv s) (hs' : Inv s')
    (hview : view s = view s') (hpath : Path (advance step) guard s as t)
    (hpath' : Path (advance step) guard s' bs t') (hmine : as.filter mine = bs.filter mine) :
    view t = view t' ∧ outputs step mine s as = outputs step mine s' bs := by
  induction as generalizing s s' bs with
  | nil =>
      cases hpath
      obtain ⟨hend, hout⟩ := h.quiet hs' hpath' hmine.symm
      exact ⟨hview.trans hend.symm, hout.symm⟩
  | cons a as ih =>
      obtain ⟨hg, hrest⟩ := advance_cases hpath
      cases ha : mine a with
      | false =>
          rw [List.filter_cons_of_neg (by rw [ha]; exact Bool.false_ne_true)] at hmine
          have hsame := (h.others s a hs hg ha).trans hview
          simp only [outputs, ha, Bool.false_eq_true, if_false]
          exact ih (h.invariant s a hs hg) hs' hsame hrest hpath' hmine
      | true =>
          rw [List.filter_cons_of_pos ha] at hmine
          simp only [outputs, ha, if_true]
          -- the other run reaches the same action after some that are not the observer's
          induction bs generalizing s' with
          | nil => cases hmine
          | cons b bs ihb =>
              obtain ⟨hg', hrest'⟩ := advance_cases hpath'
              cases hb : mine b with
              | false =>
                  rw [List.filter_cons_of_neg (by rw [hb]; exact Bool.false_ne_true)] at hmine
                  have hsame := hview.trans (h.others s' b hs' hg' hb).symm
                  simp only [outputs, hb, Bool.false_eq_true, if_false]
                  exact ihb (h.invariant s' b hs' hg') hsame hrest' hmine
              | true =>
                  rw [List.filter_cons_of_pos hb] at hmine
                  obtain ⟨rfl, hmine'⟩ := List.cons.inj hmine
                  obtain ⟨hsame, hout⟩ := h.own s s' a hs hs' hg hg' ha hview
                  obtain ⟨hend, houts⟩ := ih (h.invariant s a hs hg) (h.invariant s' a hs' hg')
                    hsame hrest hrest' hmine'
                  simp only [outputs, ha, if_true]
                  exact ⟨hend, by rw [hout, houts]⟩

end Unwinding

end BlackMonolith.Library
