import BlackMonolith.Library.JavaScript

/-!
# Strings of JSON text, written by JavaScript and read by Postgres

`JSON.stringify` writes an unpaired surrogate and most control characters as an
escape, so every string can be written. `jsonb` reads the escapes back, and has no
character for U+0000 nor for half a pair.
-/
namespace BlackMonolith.Library.JsString

/-- A piece of the text between two quotation marks. -/
inductive JsonUnit
  | literal (u : UInt16)
  | short (u : UInt16)
  | escape (u : UInt16)
deriving Repr, DecidableEq

/-- The units with an escape of two characters, such as a line feed. -/
def hasShortEscape (u : UInt16) : Bool :=
  (8 ≤ u && u ≤ 10) || u == 12 || u == 13 || u == 34 || u == 92

def quoteUnit (u : UInt16) : JsonUnit :=
  if hasShortEscape u then .short u
  else if u < 0x20 || isHigh u || isLow u then .escape u
  else .literal u

/-- A string as `JSON.stringify` writes it. -/
def quoteUnits : List UInt16 → List JsonUnit
  | [] => []
  | [u] => [quoteUnit u]
  | u :: v :: us =>
      if isHigh u && isLow v then .literal u :: .literal v :: quoteUnits us
      else quoteUnit u :: quoteUnits (v :: us)

/-- Whether `jsonb` reads the pieces; `pending` is the escape of a high surrogate
that waits for its other half. -/
def jsonbReads (pending : Bool) : List JsonUnit → Bool
  | [] => !pending
  | .escape u :: pieces =>
      if isHigh u then !pending && jsonbReads true pieces
      else if isLow u then pending && jsonbReads false pieces
      else !pending && u != 0 && jsonbReads false pieces
  | .literal _ :: pieces | .short _ :: pieces => !pending && jsonbReads false pieces

def jsonbAccepts (s : JsString) : Bool := jsonbReads false (quoteUnits s.units)

/-- No U+0000 and no unpaired surrogate. -/
def Clean (s : JsString) : Prop := 0 ∉ s.units ∧ s.toWellFormed = s

instance (s : JsString) : Decidable s.Clean :=
  inferInstanceAs (Decidable (0 ∉ s.units ∧ s.toWellFormed = s))

theorem not_surrogate_of_hasShortEscape {u : UInt16} (h : hasShortEscape u = true) :
    (isHigh u || isLow u) = false ∧ u ≠ 0 := by
  simp only [hasShortEscape, Bool.or_eq_true, Bool.and_eq_true, decide_eq_true_eq, beq_iff_eq,
    UInt16.le_iff_toNat_le, ← UInt16.toNat_inj, UInt16.reduceToNat] at h
  simp only [isHigh, isLow, Bool.or_eq_false_iff, Bool.and_eq_false_iff, decide_eq_false_iff_not,
    UInt16.le_iff_toNat_le, ne_eq, ← UInt16.toNat_inj, UInt16.reduceToNat]
  omega

/-- After half a pair only the other half can follow. -/
theorem jsonbReads_pending {u : UInt16} {pieces : List JsonUnit} (h : isLow u = false) :
    jsonbReads true (quoteUnit u :: pieces) = false := by
  unfold quoteUnit
  split_ifs with hshort hescape
  · rfl
  · cases hhigh : isHigh u with
    | true => simp only [jsonbReads, hhigh, if_true, Bool.not_true, Bool.false_and]
    | false =>
        simp only [jsonbReads, hhigh, h, Bool.false_eq_true, if_false, Bool.not_true,
          Bool.false_and]
  · rfl

/-- A unit that is no surrogate is read unless it is U+0000. -/
theorem jsonbReads_quoteUnit {u : UInt16} (h : (isHigh u || isLow u) = false)
    (pieces : List JsonUnit) :
    jsonbReads false (quoteUnit u :: pieces) = (u != 0 && jsonbReads false pieces) := by
  obtain ⟨hhigh, hlow⟩ := Bool.or_eq_false_iff.mp h
  unfold quoteUnit
  split_ifs with hshort hescape
  · rw [bne_iff_ne.mpr (not_surrogate_of_hasShortEscape hshort).2]
    rfl
  · simp only [jsonbReads, hhigh, hlow, Bool.false_eq_true, if_false, Bool.not_false, Bool.true_and]
  · have hne : u ≠ 0 := by
      rintro rfl
      exact hescape (by decide)
    rw [bne_iff_ne.mpr hne]
    rfl

theorem jsonbReads_surrogate {u : UInt16} (h : (isHigh u || isLow u) = true)
    (pieces : List JsonUnit) :
    jsonbReads false (quoteUnit u :: pieces) = (isHigh u && jsonbReads true pieces) := by
  have hshort : hasShortEscape u = false := by
    apply Bool.eq_false_iff.mpr
    intro hshort
    rw [(not_surrogate_of_hasShortEscape hshort).1] at h
    cases h
  have hquote : quoteUnit u = .escape u := by
    rw [quoteUnit, hshort, Bool.or_assoc, h, Bool.or_true]
    rfl
  rw [hquote]
  cases hhigh : isHigh u with
  | true => simp only [jsonbReads, hhigh, if_true, Bool.not_false, Bool.true_and]
  | false =>
      rw [hhigh, Bool.false_or] at h
      simp only [jsonbReads, hhigh, h, Bool.false_eq_true, if_false, if_true, Bool.false_and]

theorem replaced_ne {u : UInt16} {us vs : List UInt16} (h : (isHigh u || isLow u) = true) :
    (if isHigh u || isLow u then replacement else u) :: us ≠ u :: vs := by
  rw [if_pos h]
  intro heq
  have hu := (List.cons.inj heq).1
  rw [← hu] at h
  revert h
  decide

/-- `jsonb` reads back what was written unless a character cannot be stored. -/
theorem jsonbReads_quoteUnits (us : List UInt16) :
    jsonbReads false (quoteUnits us) = true ↔ 0 ∉ us ∧ wellFormedUnits us = us := by
  induction us using wellFormedUnits.induct with
  | case1 => exact ⟨fun _ => ⟨List.not_mem_nil, rfl⟩, fun _ => rfl⟩
  | case2 u =>
      cases h : isHigh u || isLow u with
      | true =>
          have hread : jsonbReads false (quoteUnits [u]) = false := by
            rw [quoteUnits, jsonbReads_surrogate h]
            exact Bool.and_false _
          rw [hread]
          exact ⟨fun hfalse => (by cases hfalse), fun hclean => absurd hclean.2 (replaced_ne h)⟩
      | false =>
          rw [quoteUnits, jsonbReads_quoteUnit h, wellFormedUnits_cons h, List.mem_singleton]
          simp only [jsonbReads, Bool.not_false, Bool.and_true, bne_iff_ne, ne_eq, wellFormedUnits,
            and_true, @eq_comm UInt16 0 u]
  | case3 u v us h ih =>
      have hne : ∀ w : UInt16, (isHigh w || isLow w) = true → 0 ≠ w := by
        rintro w hw rfl
        revert hw
        decide
      obtain ⟨hu, hv⟩ := Bool.and_eq_true_iff.mp h
      have hu0 := hne u (by rw [hu, Bool.true_or])
      have hv0 := hne v (by rw [hv, Bool.or_true])
      rw [quoteUnits, if_pos h, wellFormedUnits, if_pos h]
      simp only [jsonbReads, Bool.not_false, Bool.true_and, ih, List.mem_cons, not_or,
        List.cons.injEq, true_and]
      exact ⟨fun hclean => ⟨⟨hu0, hv0, hclean.1⟩, hclean.2⟩, fun hclean => ⟨hclean.1.2.2, hclean.2⟩⟩
  | case4 u v us h ih =>
      rw [quoteUnits, if_neg h]
      cases hu : isHigh u || isLow u with
      | true =>
          have hread : jsonbReads true (quoteUnits (v :: us)) = false ∨ isHigh u = false := by
            cases hhigh : isHigh u with
            | false => exact Or.inr rfl
            | true =>
                left
                have hv : isLow v = false := by
                  rw [hhigh, Bool.true_and, Bool.not_eq_true] at h
                  exact h
                cases us with
                | nil => exact jsonbReads_pending hv
                | cons w us =>
                    rw [quoteUnits]
                    split_ifs
                    · rfl
                    · exact jsonbReads_pending hv
          have hfalse : (isHigh u && jsonbReads true (quoteUnits (v :: us))) = false := by
            cases hread with
            | inl hread => rw [hread, Bool.and_false]
            | inr hhigh => rw [hhigh, Bool.false_and]
          rw [jsonbReads_surrogate hu, hfalse, wellFormedUnits, if_neg h]
          exact ⟨fun hfalse => (by cases hfalse), fun hclean => absurd hclean.2 (replaced_ne hu)⟩
      | false =>
          rw [jsonbReads_quoteUnit hu, wellFormedUnits_cons hu, Bool.and_eq_true, ih, bne_iff_ne]
          simp only [List.mem_cons, not_or, List.cons.injEq, true_and, ne_eq, eq_comm, and_assoc]

theorem jsonbAccepts_iff {s : JsString} : s.jsonbAccepts = true ↔ s.Clean := by
  rw [jsonbAccepts, jsonbReads_quoteUnits]
  exact and_congr_right fun _ => ⟨congrArg JsString.mk, congrArg JsString.units⟩

example : jsonbAccepts ⟨[0xD83D, 0xDE00, 34, 10, 1]⟩ = true := by decide

end BlackMonolith.Library.JsString
