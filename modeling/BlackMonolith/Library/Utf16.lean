import BlackMonolith.Library.JavaScript
import Mathlib.Data.String.Basic

/-!
# Scalar values in UTF-16

How the code units of an encoded string relate to its characters: how many
there are, and what stands at either end. A character beyond the basic plane
is two surrogates, which are neither white space nor control characters.
-/
namespace BlackMonolith.Library

section
variable {α β : Type*} {f : α → List β}

theorem head?_flatMap_of_ne_nil (hf : ∀ x, f x ≠ []) (xs : List α) :
    (xs.flatMap f).head? = xs.head?.bind fun x => (f x).head? := by
  cases xs with
  | nil => rfl
  | cons x xs =>
      rw [List.flatMap_cons, List.head?_append_of_ne_nil _ (hf x)]
      rfl

theorem getLast?_flatMap_of_ne_nil (hf : ∀ x, f x ≠ []) (xs : List α) :
    (xs.flatMap f).getLast? = xs.getLast?.bind fun x => (f x).getLast? := by
  induction xs using List.reverseRecOn with
  | nil => rfl
  | append_singleton xs x _ =>
      rw [List.flatMap_append, List.flatMap_singleton, List.getLast?_append_of_ne_nil _ (hf x),
        List.getLast?_concat]
      rfl

end

theorem toNat_lt (c : Char) : c.toNat < 0x110000 := by
  cases c.valid with
  | inl h => exact Nat.lt_trans h (by decide)
  | inr h => exact h.2

namespace JsString

theorem encodeUtf16_ne_nil (c : Char) : encodeUtf16 c ≠ [] := by
  unfold encodeUtf16
  split_ifs
  · exact List.cons_ne_nil _ _
  · exact List.cons_ne_nil _ _

theorem encodeUtf16_length_le (c : Char) : (encodeUtf16 c).length ≤ c.utf8Size := by
  unfold encodeUtf16
  split_ifs with h
  · exact Char.utf8Size_pos c
  · have hbig : 0xFFFF < c.val.toNat := Nat.lt_of_succ_le (Nat.le_of_not_lt h)
    have hnot : ∀ n : UInt32, n.toNat ≤ 0xFFFF → ¬ c.val ≤ n := by
      intro n hn hle
      have := UInt32.le_iff_toNat_le.mp hle
      omega
    unfold Char.utf8Size
    simp only
    rw [if_neg (hnot _ (by decide)), if_neg (hnot _ (by decide)), if_neg (hnot _ (by decide))]
    show 2 ≤ 4
    decide

/-- A string has at most as many UTF-16 units as bytes of UTF-8. -/
theorem length_ofString_le (s : String) : (ofString s).length ≤ s.utf8ByteSize := by
  have hlist : ∀ cs : List Char, (cs.flatMap encodeUtf16).length ≤ String.utf8Len cs := by
    intro cs
    induction cs with
    | nil => exact Nat.le_refl 0
    | cons c cs ih =>
        have hc := encodeUtf16_length_le c
        rw [List.flatMap_cons, List.length_append, String.utf8Len_cons]
        omega
  rw [← String.utf8Len_toList]
  exact hlist s.toList

theorem ofString_units_eq_nil {s : String} : (ofString s).units = [] ↔ s.toList = [] := by
  unfold ofString
  simp only [List.flatMap_eq_nil_iff]
  constructor
  · intro h
    apply List.eq_nil_iff_forall_not_mem.mpr
    intro c hc
    exact encodeUtf16_ne_nil c (h c hc)
  · intro h c hc
    rw [h] at hc
    cases hc

/-- A unit is the number of its character, or one of the two surrogates of a
character beyond the basic plane. -/
theorem mem_encodeUtf16 {c : Char} {u : UInt16} (hu : u ∈ encodeUtf16 c) :
    u.toNat = c.toNat ∨ 0x10000 ≤ c.toNat ∧ 0xD800 ≤ u.toNat ∧ u.toNat < 0xE000 := by
  have hc := toNat_lt c
  unfold encodeUtf16 at hu
  split_ifs at hu with h
  · rw [List.mem_singleton] at hu
    rw [hu, UInt16.toNat_ofNat_of_lt' h]
    exact Or.inl rfl
  · rw [List.mem_cons, List.mem_singleton] at hu
    right
    cases hu with
    | inl hhigh => rw [hhigh, UInt16.toNat_ofNat']; omega
    | inr hlow => rw [hlow, UInt16.toNat_ofNat']; omega

/-- The numbers of the white space of JavaScript. -/
def isSpace (n : ℕ) : Bool :=
  (9 ≤ n && n ≤ 13) || n == 0x20 || n == 0xA0 || n == 0x1680 || (0x2000 ≤ n && n ≤ 0x200A) ||
    n == 0x2028 || n == 0x2029 || n == 0x202F || n == 0x205F || n == 0x3000 || n == 0xFEFF

theorem isWhitespace_eq (u : UInt16) : isWhitespace u = isSpace u.toNat := by
  simp only [isWhitespace, isSpace, UInt16.le_iff_toNat_le, ← UInt16.toNat_inj,
    beq_eq_decide]
  rfl

theorem isWhitespace_of_mem {c : Char} {u : UInt16} (hu : u ∈ encodeUtf16 c) :
    isWhitespace u = isSpace c.toNat := by
  rw [isWhitespace_eq]
  cases mem_encodeUtf16 hu with
  | inl h => rw [h]
  | inr h =>
      have hfalse : ∀ n, 0xD800 ≤ n → n < 0xE000 ∨ 0x10000 ≤ n → isSpace n = false := by
        intro n hlow hrange
        simp only [isSpace, Bool.or_eq_false_iff, Bool.and_eq_false_iff, decide_eq_false_iff_not,
          beq_eq_false_iff_ne]
        omega
      rw [hfalse _ h.2.1 (Or.inl h.2.2), hfalse _ (by omega) (Or.inr h.1)]

/-- `String.trim` leaves a string alone that neither begins nor ends with white space. -/
theorem trim_ofString_iff {s : String} : (ofString s).trim = ofString s ↔
    (∀ c ∈ s.toList.head?, isSpace c.toNat = false) ∧
      ∀ c ∈ s.toList.getLast?, isSpace c.toNat = false := by
  have hhead : ∀ c, ∃ u, (encodeUtf16 c).head? = some u ∧ isWhitespace u = isSpace c.toNat := by
    intro c
    have hu := List.head_mem (encodeUtf16_ne_nil c)
    exact ⟨_, List.head?_eq_some_head (encodeUtf16_ne_nil c), isWhitespace_of_mem hu⟩
  have hlast : ∀ c, ∃ u, (encodeUtf16 c).getLast? = some u ∧
      isWhitespace u = isSpace c.toNat := by
    intro c
    have hu := List.getLast_mem (encodeUtf16_ne_nil c)
    exact ⟨_, List.getLast?_eq_some_getLast (encodeUtf16_ne_nil c), isWhitespace_of_mem hu⟩
  have hunits : (ofString s).trim = ofString s ↔
      trimBoth isWhitespace (ofString s).units = (ofString s).units :=
    ⟨congrArg JsString.units, congrArg JsString.mk⟩
  rw [hunits, trimBoth_eq_self_iff, show (ofString s).units = s.toList.flatMap encodeUtf16 from rfl,
    head?_flatMap_of_ne_nil encodeUtf16_ne_nil, getLast?_flatMap_of_ne_nil encodeUtf16_ne_nil]
  apply and_congr
  · cases s.toList.head? with
    | none => simp only [Option.bind_none, Option.mem_def, reduceCtorEq, false_implies, implies_true]
    | some c =>
        obtain ⟨u, hu, hspace⟩ := hhead c
        simp only [Option.bind_some, hu, Option.mem_some_iff, forall_eq', hspace]
  · cases s.toList.getLast? with
    | none => simp only [Option.bind_none, Option.mem_def, reduceCtorEq, false_implies, implies_true]
    | some c =>
        obtain ⟨u, hu, hspace⟩ := hlast c
        simp only [Option.bind_some, hu, Option.mem_some_iff, forall_eq', hspace]

theorem wellFormedUnits_encodeUtf16 (c : Char) (us : List UInt16) :
    wellFormedUnits (encodeUtf16 c ++ us) = encodeUtf16 c ++ wellFormedUnits us := by
  unfold encodeUtf16
  split_ifs with h
  · apply wellFormedUnits_cons
    have hc : c.toNat < 0xD800 ∨ 0xDFFF < c.toNat := by
      cases c.valid with
      | inl h => exact Or.inl h
      | inr h => exact Or.inr h.1
    simp only [isHigh, isLow, UInt16.le_iff_toNat_le, UInt16.toNat_ofNat_of_lt' h,
      Bool.or_eq_false_iff, Bool.and_eq_false_iff, decide_eq_false_iff_not, UInt16.reduceToNat]
    omega
  · have hc := toNat_lt c
    have hpair : (isHigh (UInt16.ofNat (0xD800 + (c.toNat - 0x10000) / 0x400)) &&
        isLow (UInt16.ofNat (0xDC00 + (c.toNat - 0x10000) % 0x400))) = true := by
      simp only [isHigh, isLow, UInt16.le_iff_toNat_le, UInt16.toNat_ofNat', Bool.and_eq_true,
        decide_eq_true_eq, UInt16.reduceToNat]
      omega
    rw [List.cons_append, List.cons_append, List.nil_append, wellFormedUnits, if_pos hpair]
    rfl

/-- What was encoded can be carried by UTF-8 as it is. -/
@[simp] theorem toWellFormed_ofString (s : String) : (ofString s).toWellFormed = ofString s := by
  have hlist : ∀ cs : List Char,
      wellFormedUnits (cs.flatMap encodeUtf16) = cs.flatMap encodeUtf16 := by
    intro cs
    induction cs with
    | nil => rfl
    | cons c cs ih => rw [List.flatMap_cons, wellFormedUnits_encodeUtf16, ih]
  exact congrArg JsString.mk (hlist s.toList)

end JsString

end BlackMonolith.Library
