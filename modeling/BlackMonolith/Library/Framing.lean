import Mathlib.Data.List.Infix

/-!
# Cutting a stream into frames

A stream is read one element at a time, and a frame is complete as soon as what
has been read of it ends one. The reader keeps the elements of the frame in
progress, so that a stream may arrive in pieces of any size.
-/
namespace BlackMonolith.Library.Framing

variable {α : Type*} (ends : List α → Option (List α))

/-- The frames completed by a list read after the elements `held`, and the
elements of the frame in progress at its end. -/
def frames : List α → List α → List (List α) × List α
  | held, [] => ([], held)
  | held, x :: xs =>
      match ends (held ++ [x]) with
      | some frame => (frame :: (frames [] xs).1, (frames [] xs).2)
      | none => frames (held ++ [x]) xs

/-- The frames of a stream. -/
def completed (xs : List α) : List (List α) := (frames ends [] xs).1

/-- The frame a stream leaves in progress. -/
def unfinished (xs : List α) : List α := (frames ends [] xs).2

section
variable {ends}

theorem frames_cons_of_some {held xs frame : List α} {x : α} (h : ends (held ++ [x]) = some frame) :
    frames ends held (x :: xs) = (frame :: completed ends xs, unfinished ends xs) := by
  rw [frames, h]
  rfl

theorem frames_cons_of_none {held xs : List α} {x : α} (h : ends (held ++ [x]) = none) :
    frames ends held (x :: xs) = frames ends (held ++ [x]) xs := by
  rw [frames, h]

/-- Nothing is completed while no prefix ends a frame. -/
theorem frames_of_none {held xs : List α}
    (h : ∀ n, held.length < n → n ≤ held.length + xs.length →
      ends ((held ++ xs).take n) = none) : frames ends held xs = ([], held ++ xs) := by
  induction xs generalizing held with
  | nil => rw [frames, List.append_nil]
  | cons x xs ih =>
      have hsplit : held ++ x :: xs = held ++ [x] ++ xs := by
        rw [List.append_assoc, List.singleton_append]
      have hlen : (held ++ [x]).length = held.length + 1 := by
        rw [List.length_append, List.length_singleton]
      have hx := h (held.length + 1) (by omega) (by rw [List.length_cons]; omega)
      rw [hsplit, ← hlen, List.take_left] at hx
      rw [frames_cons_of_none hx, hsplit]
      apply ih
      intro n hlow hhigh
      rw [← hsplit]
      exact h n (by omega) (by rw [List.length_cons]; omega)

/-- The shortest prefix that ends a frame completes it. -/
theorem frames_of_some {held xs frame : List α} {n : ℕ} (hlow : held.length < n)
    (hhigh : n ≤ held.length + xs.length)
    (hnone : ∀ m, held.length < m → m < n → ends ((held ++ xs).take m) = none)
    (h : ends ((held ++ xs).take n) = some frame) :
    frames ends held xs =
      (frame :: completed ends ((held ++ xs).drop n), unfinished ends ((held ++ xs).drop n)) := by
  induction xs generalizing held with
  | nil =>
      rw [List.length_nil] at hhigh
      omega
  | cons x xs ih =>
      have hsplit : held ++ x :: xs = held ++ [x] ++ xs := by
        rw [List.append_assoc, List.singleton_append]
      have hlen : (held ++ [x]).length = held.length + 1 := by
        rw [List.length_append, List.length_singleton]
      rw [List.length_cons] at hhigh
      rw [hsplit] at hnone h ⊢
      by_cases hn : n = held.length + 1
      · rw [hn, ← hlen, List.take_left] at h
        rw [frames_cons_of_some h, hn, ← hlen, List.drop_left]
      · have hx := hnone (held.length + 1) (by omega) (by omega)
        rw [← hlen, List.take_left] at hx
        rw [frames_cons_of_none hx]
        exact ih (by omega) (by omega) (fun m hlow hlt => hnone m (by omega) hlt) h

theorem frames_append (held xs ys : List α) :
    frames ends held (xs ++ ys) =
      ((frames ends held xs).1 ++ (frames ends (frames ends held xs).2 ys).1,
        (frames ends (frames ends held xs).2 ys).2) := by
  induction xs generalizing held with
  | nil => rw [List.nil_append, frames, List.nil_append]
  | cons x xs ih =>
      rw [List.cons_append]
      cases h : ends (held ++ [x]) with
      | none => rw [frames_cons_of_none h, frames_cons_of_none h, ih]
      | some frame =>
          rw [frames_cons_of_some h, frames_cons_of_some h, completed, unfinished, ih]
          rfl

/-- What completes no frame is all in progress. -/
theorem rest_of_frames_nil {held xs rest : List α} (h : frames ends held xs = ([], rest)) :
    rest = held ++ xs := by
  induction xs generalizing held with
  | nil => rw [List.append_nil, ← (Prod.mk.inj h).2]
  | cons x xs ih =>
      cases hx : ends (held ++ [x]) with
      | none =>
          rw [frames_cons_of_none hx] at h
          rw [ih h, List.append_assoc, List.singleton_append]
      | some frame =>
          rw [frames_cons_of_some hx] at h
          cases (Prod.mk.inj h).1

/-- Where a frame is completed: after an element that ends it. -/
theorem frames_split {held xs rest frame : List α} {before after : List (List α)}
    (h : frames ends held xs = (before ++ frame :: after, rest)) :
    ∃ ys x zs u, xs = ys ++ x :: zs ∧ frames ends held ys = (before, u) ∧
      ends (u ++ [x]) = some frame := by
  induction xs generalizing held before with
  | nil =>
      have hnil : [] = before ++ frame :: after := (Prod.mk.inj h).1
      cases before with
      | nil => cases hnil
      | cons first before => cases hnil
  | cons x xs ih =>
      cases hx : ends (held ++ [x]) with
      | none =>
          rw [frames_cons_of_none hx] at h
          obtain ⟨ys, y, zs, u, rfl, hys, hu⟩ := ih h
          exact ⟨x :: ys, y, zs, u, rfl, by rw [frames_cons_of_none hx, hys], hu⟩
      | some found =>
          rw [frames_cons_of_some hx] at h
          cases before with
          | nil =>
              have hfound : found = frame := (List.cons.inj (Prod.mk.inj h).1).1
              exact ⟨[], x, xs, held, rfl, rfl, hfound ▸ hx⟩
          | cons first before =>
              obtain ⟨rfl, hbefore⟩ := List.cons.inj (Prod.mk.inj h).1
              obtain ⟨ys, y, zs, u, rfl, hys, hu⟩ := ih (Prod.ext hbefore (Prod.mk.inj h).2)
              exact ⟨x :: ys, y, zs, u, rfl, by
                rw [frames_cons_of_some hx, completed, unfinished, hys], hu⟩

/-- The frame in progress can be read again as a stream of its own. -/
theorem frames_unfinished_append (held xs ys : List α) (hheld : frames ends [] held = ([], held)) :
    frames ends [] ((frames ends held xs).2 ++ ys) = frames ends (frames ends held xs).2 ys := by
  have hagain : frames ends [] (frames ends held xs).2 = ([], (frames ends held xs).2) := by
    induction xs generalizing held with
    | nil => exact hheld
    | cons x xs ih =>
        cases h : ends (held ++ [x]) with
        | none =>
            rw [frames_cons_of_none h]
            apply ih
            rw [frames_append, hheld, frames_cons_of_none h]
            rfl
        | some frame =>
            rw [frames_cons_of_some h]
            exact ih [] rfl
  rw [frames_append, hagain]
  rfl

theorem completed_append (xs ys : List α) :
    completed ends (xs ++ ys) = completed ends xs ++ completed ends (unfinished ends xs ++ ys) := by
  rw [completed, frames_append, completed, completed, unfinished, frames_unfinished_append [] xs ys rfl]

theorem unfinished_append (xs ys : List α) :
    unfinished ends (xs ++ ys) = unfinished ends (unfinished ends xs ++ ys) := by
  rw [unfinished, frames_append, unfinished, unfinished, frames_unfinished_append [] xs ys rfl]

end

end BlackMonolith.Library.Framing
