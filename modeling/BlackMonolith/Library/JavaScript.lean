import BlackMonolith.Library.Lists

/-!
# JavaScript strings and JSON values

A JavaScript string is a list of UTF-16 code units, in which surrogates need
not be paired. The values are those `JSON.parse` returns; of a number that is
not an integer only its text is kept. White space is what `String.trim` removes.
-/
namespace BlackMonolith.Library

structure JsString where
  units : List UInt16
deriving Repr, DecidableEq

namespace JsString

def encodeUtf16 (c : Char) : List UInt16 :=
  if c.toNat < 0x10000 then [UInt16.ofNat c.toNat]
  else
    [UInt16.ofNat (0xD800 + (c.toNat - 0x10000) / 0x400),
      UInt16.ofNat (0xDC00 + (c.toNat - 0x10000) % 0x400)]

def ofString (s : String) : JsString := ⟨s.toList.flatMap encodeUtf16⟩

def length (s : JsString) : ℕ := s.units.length

def isWhitespace (u : UInt16) : Bool :=
  (9 ≤ u && u ≤ 13) || u == 0x20 || u == 0xA0 || u == 0x1680 || (0x2000 ≤ u && u ≤ 0x200A) ||
    u == 0x2028 || u == 0x2029 || u == 0x202F || u == 0x205F || u == 0x3000 || u == 0xFEFF

def trim (s : JsString) : JsString :=
  ⟨trimBoth isWhitespace s.units⟩

@[simp] theorem trim_trim (s : JsString) : s.trim.trim = s.trim :=
  congrArg JsString.mk (trimBoth_trimBoth isWhitespace s.units)

def isHigh (u : UInt16) : Bool := 0xD800 ≤ u && u ≤ 0xDBFF
def isLow (u : UInt16) : Bool := 0xDC00 ≤ u && u ≤ 0xDFFF

def replacement : UInt16 := 0xFFFD

/-- Unpaired surrogates become the replacement character. -/
def wellFormedUnits : List UInt16 → List UInt16
  | [] => []
  | [u] => [if isHigh u || isLow u then replacement else u]
  | u :: v :: us =>
      if isHigh u && isLow v then u :: v :: wellFormedUnits us
      else (if isHigh u || isLow u then replacement else u) :: wellFormedUnits (v :: us)

/-- The string as UTF-8 can carry it. -/
def toWellFormed (s : JsString) : JsString := ⟨wellFormedUnits s.units⟩

def countCodePoints : List UInt16 → ℕ
  | [] => 0
  | [_] => 1
  | u :: v :: us =>
      if isHigh u && isLow v then countCodePoints us + 1 else countCodePoints (v :: us) + 1

/-- The number of code points, in which a surrogate pair is one. -/
def codePoints (s : JsString) : ℕ := countCodePoints s.units

theorem countCodePoints_le_length (us : List UInt16) : countCodePoints us ≤ us.length := by
  induction us using countCodePoints.induct with
  | case1 => exact Nat.le_refl 0
  | case2 u => exact Nat.le_refl 1
  | case3 u v us h ih =>
      rw [countCodePoints, if_pos h, List.length_cons, List.length_cons]
      omega
  | case4 u v us h ih =>
      rw [countCodePoints, if_neg h, List.length_cons]
      omega

theorem countCodePoints_pos {us : List UInt16} (h : us ≠ []) : 0 < countCodePoints us := by
  induction us using countCodePoints.induct with
  | case1 => exact absurd rfl h
  | case2 u => exact Nat.one_pos
  | case3 u v us hpair _ =>
      rw [countCodePoints, if_pos hpair]
      exact Nat.succ_pos _
  | case4 u v us hpair _ =>
      rw [countCodePoints, if_neg hpair]
      exact Nat.succ_pos _

def asciiLowercase (s : JsString) : JsString :=
  ⟨s.units.map fun u => if 65 ≤ u && u ≤ 90 then u + 32 else u⟩

/-- Unit by unit, a string stays as it is or is replaced. -/
theorem wellFormedUnits_forall₂ (us : List UInt16) :
    List.Forall₂ (fun u v => v = u ∨ v = replacement) us (wellFormedUnits us) := by
  induction us using wellFormedUnits.induct with
  | case1 => exact .nil
  | case2 u =>
      refine .cons ?_ .nil
      split
      · exact Or.inr rfl
      · exact Or.inl rfl
  | case3 u v us h ih =>
      rw [wellFormedUnits, if_pos h]
      exact .cons (Or.inl rfl) (.cons (Or.inl rfl) ih)
  | case4 u v us h ih =>
      rw [wellFormedUnits, if_neg h]
      refine .cons ?_ ih
      split
      · exact Or.inr rfl
      · exact Or.inl rfl

theorem wellFormedUnits_cons {u : UInt16} {us : List UInt16} (h : (isHigh u || isLow u) = false) :
    wellFormedUnits (u :: us) = u :: wellFormedUnits us := by
  obtain ⟨hhigh, hlow⟩ := Bool.or_eq_false_iff.mp h
  cases us with
  | nil => simp [wellFormedUnits, hhigh, hlow]
  | cons v us => simp [wellFormedUnits, hhigh, hlow]

theorem wellFormedUnits_idempotent (us : List UInt16) :
    wellFormedUnits (wellFormedUnits us) = wellFormedUnits us := by
  have hreplaced : (isHigh replacement || isLow replacement) = false := by decide
  induction us using wellFormedUnits.induct with
  | case1 => rfl
  | case2 u =>
      rw [show wellFormedUnits [u] = [if isHigh u || isLow u then replacement else u] from rfl]
      split_ifs with h
      · exact wellFormedUnits_cons hreplaced
      · exact wellFormedUnits_cons (Bool.eq_false_iff.mpr h)
  | case3 u v us h ih =>
      rw [wellFormedUnits, if_pos h, wellFormedUnits, if_pos h, ih]
  | case4 u v us h ih =>
      rw [wellFormedUnits, if_neg h]
      split_ifs with hu
      · rw [wellFormedUnits_cons hreplaced, ih]
      · rw [wellFormedUnits_cons (Bool.eq_false_iff.mpr hu), ih]

@[simp] theorem toWellFormed_toWellFormed (s : JsString) :
    s.toWellFormed.toWellFormed = s.toWellFormed :=
  congrArg JsString.mk (wellFormedUnits_idempotent s.units)

theorem length_toWellFormed (s : JsString) : s.toWellFormed.length = s.length :=
  (wellFormedUnits_forall₂ s.units).length_eq.symm

/-- A property of the units that the replacement has too is kept. -/
theorem all_toWellFormed {p : UInt16 → Bool} (hp : p replacement) {s : JsString}
    (h : s.units.all p) : s.toWellFormed.units.all p := by
  have hpairs := wellFormedUnits_forall₂ s.units
  unfold toWellFormed
  generalize s.units = us, wellFormedUnits s.units = vs at h hpairs ⊢
  induction hpairs with
  | nil => exact h
  | cons huv _ ih =>
      simp only [List.all_cons, Bool.and_eq_true] at h ⊢
      refine ⟨?_, ih h.2⟩
      cases huv with
      | inl heq => exact heq ▸ h.1
      | inr heq => exact heq ▸ hp

theorem dropWhile_pairs {us vs : List UInt16}
    (h : List.Forall₂ (fun u v => v = u ∨ v = replacement) us vs)
    (hus : us.dropWhile isWhitespace = us) : vs.dropWhile isWhitespace = vs := by
  cases h with
  | nil => rfl
  | @cons u v us vs huv _ =>
      have hu : isWhitespace u = false := by
        rw [List.dropWhile_eq_self_iff] at hus
        exact Bool.eq_false_iff.mpr (hus (Nat.zero_lt_succ _))
      have hv : isWhitespace v = false := by
        cases huv with
        | inl heq => exact heq ▸ hu
        | inr heq => rw [heq]; decide
      exact List.dropWhile_cons_of_neg (by rw [hv]; exact Bool.false_ne_true)

/-- Trimmed strings stay trimmed in UTF-8. -/
theorem trim_toWellFormed {s : JsString} (h : s.trim = s) :
    s.toWellFormed.trim = s.toWellFormed := by
  obtain ⟨hfront, hback⟩ := ends_of_trimBoth_eq (congrArg JsString.units h)
  have hpairs := wellFormedUnits_forall₂ s.units
  have hfront' := dropWhile_pairs hpairs hfront
  have hback' : (wellFormedUnits s.units).rdropWhile isWhitespace = wellFormedUnits s.units := by
    rw [List.rdropWhile, List.reverse_eq_iff] at hback ⊢
    exact dropWhile_pairs (List.forall₂_reverse_iff.mpr hpairs) hback
  unfold trim toWellFormed trimBoth
  rw [hfront', hback']

end JsString

/-! ## Values -/

inductive JsNumber
  | integer (n : ℤ)
  | other (text : String)
deriving Repr, DecidableEq

inductive JsValue
  | null
  | bool (b : Bool)
  | number (n : JsNumber)
  | string (s : JsString)
  | array (items : List JsValue)
  | object (members : List (JsString × JsValue))
deriving Repr, Inhabited

namespace JsValue

/-- An own property; `undefined` is `none`. -/
def get (members : List (JsString × JsValue)) (name : String) : Option JsValue :=
  (members.find? (·.1 = JsString.ofString name)).map (·.2)

section
variable {before after : List (JsString × JsValue)} {key : JsString} {name : String}

theorem get_append : get (before ++ after) name = (get before name).or (get after name) := by
  unfold get
  rw [List.find?_append]
  cases before.find? (·.1 = JsString.ofString name) with
  | none => rfl
  | some member => rfl

/-- A member does not hide one of another name. -/
theorem get_insert_ne (h : key ≠ JsString.ofString name) (value : JsValue) :
    get (before ++ [(key, value)] ++ after) name = get (before ++ after) name := by
  have hmember : get [(key, value)] name = none := by
    simp only [get, List.find?_cons, h, decide_false, List.find?_nil, Option.map_none]
  rw [get_append, get_append, get_append, hmember, Option.or_none]

theorem get_insert_self (h : get before name = none) (value : JsValue) :
    get (before ++ [(JsString.ofString name, value)] ++ after) name = some value := by
  have hmember : get [(JsString.ofString name, value)] name = some value := by
    simp only [get, List.find?_cons, decide_true, Option.map_some]
  rw [get_append, get_append, h, hmember]
  rfl

end

end JsValue

end BlackMonolith.Library
