import Mathlib.Data.List.Basic

/-!
# Paths of a guarded step function

A system is a partial step function `step : σ → α → Option σ`: an action that
is not enabled answers `none`. A guard selects the steps a result is about, so
one path type serves both the unconditional results (`unguarded`) and those
about runs whose every step meets a condition. The invariant rule is the only
induction over paths; results about reached states instantiate it.
-/
namespace BlackMonolith.Library

variable {σ α : Type*}

/-- The guard every step meets. -/
def unguarded (_ : σ) (_ : α) : Prop := True

inductive Path (step : σ → α → Option σ) (guard : σ → α → Prop) : σ → List α → σ → Prop
  | done (s : σ) : Path step guard s [] s
  | step {s t u : σ} {a : α} {as : List α} :
      step s a = some t → guard s a → Path step guard t as u → Path step guard s (a :: as) u

namespace Path
variable {step : σ → α → Option σ} {guard : σ → α → Prop} {s t u : σ} {a : α} {as bs : List α}

/-- The rule every reachability result uses: what one guarded step preserves,
every guarded path preserves. -/
theorem invariant {Inv : σ → Prop}
    (hstep : ∀ s a t, Inv s → guard s a → step s a = some t → Inv t)
    (h : Path step guard s as t) (hs : Inv s) : Inv t := by
  induction h with
  | done s => exact hs
  | step ht hg _ ih => exact ih (hstep _ _ _ hs hg ht)

theorem append (h : Path step guard s as t) (k : Path step guard t bs u) :
    Path step guard s (as ++ bs) u := by
  induction h with
  | done s => exact k
  | step ht hg _ ih => exact .step ht hg (ih k)

/-- A path over a list of actions passes through the state between its parts. -/
theorem split (h : Path step guard s (as ++ bs) u) :
    ∃ t, Path step guard s as t ∧ Path step guard t bs u := by
  induction as generalizing s with
  | nil => exact ⟨s, .done s, h⟩
  | cons a as ih =>
      cases h with
      | step ht hg hrest =>
          obtain ⟨t, hfirst, hlast⟩ := ih hrest
          exact ⟨t, .step ht hg hfirst, hlast⟩

theorem mono {guard' : σ → α → Prop} (hg : ∀ s a, guard s a → guard' s a)
    (h : Path step guard s as t) : Path step guard' s as t := by
  induction h with
  | done s => exact .done s
  | step ht h' _ ih => exact .step ht (hg _ _ h') ih

end Path

/-- Executing a list of actions; `none` when one of them is not enabled. -/
def execute (step : σ → α → Option σ) : σ → List α → Option σ
  | s, [] => some s
  | s, a :: as => (step s a).bind fun t => execute step t as

theorem Path.of_execute {step : σ → α → Option σ} {s t : σ} {as : List α}
    (h : execute step s as = some t) : Path step unguarded s as t := by
  induction as generalizing s with
  | nil =>
      simp only [execute, Option.some.injEq] at h
      exact h ▸ .done s
  | cons a as ih =>
      obtain ⟨u, hu, ht⟩ := Option.bind_eq_some_iff.mp h
      exact .step hu trivial (ih ht)

/-- A guard can be decided along an execution, so guarded paths over concrete
inputs are found by evaluation. -/
def executeGuarded (step : σ → α → Option σ) (guard : σ → α → Bool) : σ → List α → Option σ
  | s, [] => some s
  | s, a :: as =>
      if guard s a then (step s a).bind fun t => executeGuarded step guard t as else none

theorem Path.of_executeGuarded {step : σ → α → Option σ} {guard : σ → α → Bool} {s t : σ}
    {as : List α} (h : executeGuarded step guard s as = some t) :
    Path step (fun s a => guard s a = true) s as t := by
  induction as generalizing s with
  | nil =>
      simp only [executeGuarded, Option.some.injEq] at h
      exact h ▸ .done s
  | cons a as ih =>
      simp only [executeGuarded] at h
      split_ifs at h with hg
      obtain ⟨u, hu, ht⟩ := Option.bind_eq_some_iff.mp h
      exact .step hu hg (ih ht)

end BlackMonolith.Library
