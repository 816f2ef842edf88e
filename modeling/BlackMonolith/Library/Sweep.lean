import Mathlib.Data.List.Forall2

/-!
# Sweeps over a list

A stateful pass over a list that stops at the first error. When no element's
outcome depends on the elements before it, the outcomes are those of the state
the pass began with; a postcondition that later steps keep holds in the end.
-/
namespace BlackMonolith.Library

variable {σ α β ε : Type*}

/-- The last state, the outputs up to the first error, and that error. -/
def sweep (step : σ → α → σ × Except ε β) : σ → List α → σ × List β × Option ε
  | s, [] => (s, [], none)
  | s, a :: as =>
      match step s a with
      | (t, .error e) => (t, [], some e)
      | (t, .ok b) =>
          let rest := sweep step t as
          (rest.1, b :: rest.2.1, rest.2.2)

namespace Sweep
variable {step : σ → α → σ × Except ε β} {s : σ} {as : List α}

theorem cons_ok {a : α} {b : β} (h : (step s a).2 = .ok b) :
    sweep step s (a :: as) =
      ((sweep step (step s a).1 as).1, b :: (sweep step (step s a).1 as).2.1,
        (sweep step (step s a).1 as).2.2) := by
  conv_lhs => unfold sweep
  cases hstep : step s a with
  | mk t outcome =>
      rw [hstep] at h
      subst h
      rfl

theorem cons_error {a : α} {e : ε} (h : (step s a).2 = .error e) :
    sweep step s (a :: as) = ((step s a).1, [], some e) := by
  conv_lhs => unfold sweep
  cases hstep : step s a with
  | mk t outcome =>
      rw [hstep] at h
      subst h
      rfl

/-- What every step keeps. -/
theorem invariant {Inv : σ → Prop} (hstep : ∀ s, ∀ a ∈ as, Inv s → Inv (step s a).1)
    (hs : Inv s) : Inv (sweep step s as).1 := by
  induction as generalizing s with
  | nil => exact hs
  | cons a as ih =>
      have ht := hstep s a List.mem_cons_self hs
      have hrest : ∀ s, ∀ b ∈ as, Inv s → Inv (step s b).1 :=
        fun s b hb => hstep s b (List.mem_cons_of_mem a hb)
      cases houtcome : (step s a).2 with
      | error e =>
          rw [cons_error houtcome]
          exact ht
      | ok b =>
          rw [cons_ok houtcome]
          exact ih hrest ht

/-- Two states that every step keeps alike are swept alike. -/
theorem simulation {R : σ → σ → Prop} {s' : σ}
    (hstep : ∀ s s', ∀ a ∈ as, R s s' → (step s' a).2 = (step s a).2 ∧ R (step s a).1 (step s' a).1)
    (h : R s s') :
    (sweep step s' as).2 = (sweep step s as).2 ∧ R (sweep step s as).1 (sweep step s' as).1 := by
  induction as generalizing s s' with
  | nil => exact ⟨rfl, h⟩
  | cons a as ih =>
      obtain ⟨hsame, hnext⟩ := hstep s s' a List.mem_cons_self h
      cases houtcome : (step s a).2 with
      | error e =>
          rw [cons_error houtcome, cons_error (hsame.trans houtcome)]
          exact ⟨rfl, hnext⟩
      | ok b =>
          rw [cons_ok houtcome, cons_ok (hsame.trans houtcome)]
          obtain ⟨hrest, hend⟩ := ih (fun s s' c hc => hstep s s' c (List.mem_cons_of_mem a hc)) hnext
          exact ⟨by rw [hrest], hend⟩

/-- The outcome of no element depends on whether an earlier one was processed. -/
def Independent (step : σ → α → σ × Except ε β) (as : List α) : Prop :=
  as.Pairwise fun a b => ∀ s, (step (step s a).1 b).2 = (step s b).2

/-- A sweep of independent elements gives what each gives in the state `s₀`, as
long as the sweep begins in a state that treats them the same. -/
theorem outputs {s₀ : σ} (htotal : ∀ a ∈ as, ∃ b, (step s₀ a).2 = .ok b)
    (h : Independent step as) (hsame : ∀ a ∈ as, (step s a).2 = (step s₀ a).2) :
    List.Forall₂ (fun a b => (step s₀ a).2 = .ok b) as (sweep step s as).2.1 ∧
      (sweep step s as).2.2 = none := by
  induction as generalizing s with
  | nil => exact ⟨List.Forall₂.nil, rfl⟩
  | cons a as ih =>
      obtain ⟨hfirst, hrest⟩ := List.pairwise_cons.mp h
      obtain ⟨b, hb⟩ := htotal a List.mem_cons_self
      have hstep : (step s a).2 = .ok b := (hsame a List.mem_cons_self).trans hb
      obtain ⟨houts, hnone⟩ := @ih (step s a).1
        (fun c hc => htotal c (List.mem_cons_of_mem a hc)) hrest
        (fun c hc => (hfirst c hc s).trans (hsame c (List.mem_cons_of_mem a hc)))
      rw [cons_ok hstep]
      exact ⟨List.Forall₂.cons hb houts, hnone⟩

/-- A sweep of independent elements reaches the end when none of them fails in the
state it begins with. -/
theorem completes_iff (h : Independent step as) :
    (sweep step s as).2.2 = none ↔ ∀ a ∈ as, ∃ b, (step s a).2 = .ok b := by
  induction as generalizing s with
  | nil => simp [sweep]
  | cons a as ih =>
      obtain ⟨hfirst, hrest⟩ := List.pairwise_cons.mp h
      cases houtcome : (step s a).2 with
      | error e =>
          rw [cons_error houtcome]
          simp only [reduceCtorEq, List.mem_cons, forall_eq_or_imp, houtcome, exists_false,
            false_and]
      | ok b =>
          rw [cons_ok houtcome, ih hrest]
          simp only [List.mem_cons, forall_eq_or_imp, houtcome, Except.ok.injEq, exists_eq',
            true_and]
          exact forall₂_congr fun c hc => by rw [hfirst c hc s]

/-- A sweep reaches the end, or stops at an element that fails; what outputs and
errors satisfy in every state the steps keep, those of the sweep satisfy. -/
theorem outputs_cases {Inv : σ → Prop} {Q : α → β → Prop} {E : α → ε → Prop}
    (hinv : ∀ s, ∀ a ∈ as, Inv s → Inv (step s a).1)
    (hok : ∀ s, ∀ a ∈ as, Inv s → ∀ b, (step s a).2 = .ok b → Q a b)
    (herror : ∀ s, ∀ a ∈ as, Inv s → ∀ e, (step s a).2 = .error e → E a e) (hs : Inv s) :
    ((sweep step s as).2.2 = none ∧ List.Forall₂ Q as (sweep step s as).2.1) ∨
      ∃ before a after e, as = before ++ a :: after ∧ (sweep step s as).2.2 = some e ∧
        List.Forall₂ Q before (sweep step s as).2.1 ∧ E a e := by
  induction as generalizing s with
  | nil => exact Or.inl ⟨rfl, List.Forall₂.nil⟩
  | cons a as ih =>
      cases houtcome : (step s a).2 with
      | error e =>
          rw [cons_error houtcome]
          exact Or.inr ⟨[], a, as, e, rfl, rfl, List.Forall₂.nil,
            herror s a List.mem_cons_self hs e houtcome⟩
      | ok b =>
          rw [cons_ok houtcome]
          have hhead := hok s a List.mem_cons_self hs b houtcome
          rcases ih (fun s c hc => hinv s c (List.mem_cons_of_mem a hc))
            (fun s c hc => hok s c (List.mem_cons_of_mem a hc))
            (fun s c hc => herror s c (List.mem_cons_of_mem a hc))
            (hinv s a List.mem_cons_self hs) with ⟨hnone, houts⟩ |
              ⟨before, c, after, e, rfl, hsome, houts, hlast⟩
          · exact Or.inl ⟨hnone, List.Forall₂.cons hhead houts⟩
          · exact Or.inr ⟨a :: before, c, after, e, rfl, hsome, List.Forall₂.cons hhead houts, hlast⟩

/-- A postcondition that later steps keep holds of the last state. -/
theorem post {Inv : σ → Prop} {Q : σ → α → β → Prop}
    (hinv : ∀ s, ∀ a ∈ as, Inv s → Inv (step s a).1)
    (hpost : ∀ s, ∀ a ∈ as, Inv s → ∀ b, (step s a).2 = .ok b → Q (step s a).1 a b)
    (hkeep : ∀ s, ∀ a ∈ as, Inv s → ∀ a' b', Q s a' b' → Q (step s a).1 a' b')
    (hs : Inv s) (hnone : (sweep step s as).2.2 = none) :
    List.Forall₂ (Q (sweep step s as).1) as (sweep step s as).2.1 := by
  induction as generalizing s with
  | nil => exact List.Forall₂.nil
  | cons a as ih =>
      have ht := hinv s a List.mem_cons_self hs
      have hinv' : ∀ s, ∀ b ∈ as, Inv s → Inv (step s b).1 :=
        fun s b hb => hinv s b (List.mem_cons_of_mem a hb)
      have hkeep' : ∀ s, ∀ b ∈ as, Inv s → ∀ a' b', Q s a' b' → Q (step s b).1 a' b' :=
        fun s b hb => hkeep s b (List.mem_cons_of_mem a hb)
      cases houtcome : (step s a).2 with
      | error e =>
          rw [cons_error houtcome] at hnone
          cases hnone
      | ok b =>
          rw [cons_ok houtcome] at hnone ⊢
          refine List.Forall₂.cons ?_ ?_
          · have hnow := hpost s a List.mem_cons_self hs b houtcome
            have hboth := @invariant _ _ _ _ step (step s a).1 as
              (fun s => Inv s ∧ Q s a b)
              (fun s c hc h => ⟨hinv' s c hc h.1, hkeep' s c hc h.1 a b h.2⟩) ⟨ht, hnow⟩
            exact hboth.2
          · exact ih hinv' (fun s c hc => hpost s c (List.mem_cons_of_mem a hc)) hkeep' ht hnone

end Sweep

end BlackMonolith.Library
