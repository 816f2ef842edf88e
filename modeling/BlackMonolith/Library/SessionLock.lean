import Mathlib.Data.Finset.Basic
import Mathlib.Logic.Function.Basic

/-!
# Work under a lock

Parties share a state, and one of them at a time holds a lock. The lock is free again when its
holder leaves, in whatever way. Who does not hold it leaves the state alone, so what the holder
knows of the state stays true while it works.
-/
namespace BlackMonolith.Library

/-- What a party may do. It is told whether the lock is free. -/
structure LockedWork (σ α ε : Type) where
  inside : α → Bool
  act : Bool → ε → α → σ → Option (α × σ)
  barred : ∀ {e a s a' s'}, act false e a s = some (a', s') → inside a = false → inside a' = false
  apart : ∀ {free e a s a' s'}, act free e a s = some (a', s') → inside a = false → s' = s

structure LockedWorld (ι σ α : Type) where
  lock : Option ι
  shared : σ
  own : ι → α

namespace LockedWork
variable {ι σ α ε : Type} (work : LockedWork σ α ε)

/-- An invariant of the shared state, an order in which it changes, and what a party can rely on.
A party that is not at work keeps what it relies on whatever the others do. -/
structure Keeps (Inv : σ → Prop) (le : σ → σ → Prop) (Stands : α → σ → Prop) : Prop where
  refl : ∀ s, le s s
  trans : ∀ {s t u}, le s t → le t u → le s u
  step : ∀ {free e a s a' s'}, Inv s → Stands a s → work.act free e a s = some (a', s') →
    Inv s' ∧ le s s' ∧ Stands a' s'
  mono : ∀ {a s s'}, work.inside a = false → Stands a s → le s s' → Stands a s'

/-- The lock is with the party at work, and each party has what it relies on. -/
structure Sound (Inv : σ → Prop) (Stands : α → σ → Prop) (w : LockedWorld ι σ α) : Prop where
  held : ∀ i, work.inside (w.own i) = true ↔ w.lock = some i
  inv : Inv w.shared
  stands : ∀ i, Stands (w.own i) w.shared

section
variable {work} {Inv : σ → Prop} {Stands : α → σ → Prop} {w : LockedWorld ι σ α}

theorem Sound.exclusive (h : work.Sound Inv Stands w) {i j : ι}
    (hi : work.inside (w.own i) = true) (hj : work.inside (w.own j) = true) : i = j :=
  Option.some.inj (((h.held i).mp hi).symm.trans ((h.held j).mp hj))

/-- While a party works the others are outside. -/
theorem Sound.outside (h : work.Sound Inv Stands w) {i j : ι} (hij : j ≠ i)
    (hi : work.inside (w.own i) = true) : work.inside (w.own j) = false := by
  rw [Bool.eq_false_iff]
  exact fun hj => hij (h.exclusive hj hi)

end

variable [DecidableEq ι]

/-- The lock after a step of a party. -/
def lockAfter (lock : Option ι) (i : ι) (own : α) : Option ι :=
  if work.inside own then some i else if lock = some i then none else lock

def step (w : LockedWorld ι σ α) (i : ι) (e : ε) : Option (LockedWorld ι σ α) :=
  (work.act w.lock.isNone e (w.own i) w.shared).map fun done =>
    ⟨work.lockAfter w.lock i done.1, done.2, Function.update w.own i done.1⟩

/-- Steps of the parties in any order, each of which can be done. -/
def run (w : LockedWorld ι σ α) : List (ι × ε) → Option (LockedWorld ι σ α)
  | [] => some w
  | (i, e) :: steps => (work.step w i e).bind fun w => run w steps

section
variable {work} {Inv : σ → Prop} {le : σ → σ → Prop} {Stands : α → σ → Prop}
  {w w' : LockedWorld ι σ α}

theorem Sound.lockAfter (h : work.Sound Inv Stands w) {i : ι} {own : α}
    (hbarred : w.lock.isNone = false → work.inside (w.own i) = false → work.inside own = false)
    (j : ι) : work.inside (Function.update w.own i own j) = true ↔
      work.lockAfter w.lock i own = some j := by
  unfold LockedWork.lockAfter
  cases hinside : work.inside own with
  | true =>
      simp only [if_true, Option.some.injEq]
      cases eq_or_ne j i with
      | inl hij => rw [hij, Function.update_self, hinside, eq_self, eq_self]
      | inr hij =>
          -- The lock was free, or with the party itself.
          have hfree : work.inside (w.own j) = false := by
            cases hi : work.inside (w.own i) with
            | true => exact h.outside hij hi
            | false =>
                rw [Bool.eq_false_iff]
                intro hj
                have hlock : w.lock.isNone = false := by rw [(h.held j).mp hj]; rfl
                rw [hbarred hlock hi] at hinside
                cases hinside
          rw [Function.update_of_ne hij, hfree]
          exact iff_of_false Bool.false_ne_true hij.symm
  | false =>
      simp only [Bool.false_eq_true, if_false]
      cases eq_or_ne j i with
      | inl hij =>
          rw [hij, Function.update_self, hinside]
          refine iff_of_false Bool.false_ne_true ?_
          split_ifs with hlock
          · exact not_false
          · exact hlock
      | inr hij =>
          rw [Function.update_of_ne hij, h.held j]
          split_ifs with hlock
          · rw [hlock]
            exact iff_of_false (fun heq => hij (Option.some.inj heq).symm) not_false
          · exact Iff.rfl

theorem Keeps.sound_step (h : work.Keeps Inv le Stands) (hw : work.Sound Inv Stands w) {i : ι}
    {e : ε} (hstep : work.step w i e = some w') :
    work.Sound Inv Stands w' ∧ le w.shared w'.shared := by
  obtain ⟨⟨own, shared⟩, hact, rfl⟩ := Option.map_eq_some_iff.mp hstep
  obtain ⟨hinv, hle, hstands⟩ := h.step hw.inv (hw.stands i) hact
  refine ⟨⟨?_, hinv, ?_⟩, hle⟩
  · apply hw.lockAfter
    intro hlock hi
    rw [hlock] at hact
    exact work.barred hact hi
  · intro j
    change Stands (Function.update w.own i own j) shared
    cases eq_or_ne j i with
    | inl hij => rwa [hij, Function.update_self]
    | inr hij =>
        rw [Function.update_of_ne hij]
        cases hi : work.inside (w.own i) with
        | true => exact h.mono (hw.outside hij hi) (hw.stands j) hle
        | false => rw [work.apart hact hi]; exact hw.stands j

theorem Keeps.sound_run (h : work.Keeps Inv le Stands) {steps : List (ι × ε)}
    (hw : work.Sound Inv Stands w) (hrun : work.run w steps = some w') :
    work.Sound Inv Stands w' ∧ le w.shared w'.shared := by
  induction steps generalizing w with
  | nil =>
      cases hrun
      exact ⟨hw, h.refl _⟩
  | cons first steps ih =>
      obtain ⟨mid, hfirst, hrest⟩ := Option.bind_eq_some_iff.mp hrun
      obtain ⟨hmid, hle⟩ := h.sound_step hw hfirst
      obtain ⟨hw', hle'⟩ := ih hmid hrest
      exact ⟨hw', h.trans hle hle'⟩

end

end LockedWork

end BlackMonolith.Library
