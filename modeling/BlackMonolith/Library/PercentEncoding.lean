import BlackMonolith.Library.Utf8

/-!
# Percent encoding and form-urlencoded text

The decoder of the URL standard never fails: a percent sign before two hexadecimal
digits is an escaped byte, any other one stands for itself, and bytes that are not
UTF-8 are replaced.
-/
namespace BlackMonolith.Library.PercentEncoding
open Utf8

def percent : UInt8 := 37
def plus : UInt8 := 43

def hexValue (b : UInt8) : Option ℕ :=
  let n := b.toNat
  if 48 ≤ n ∧ n ≤ 57 then some (n - 48)
  else if 65 ≤ n ∧ n ≤ 70 then some (n - 55)
  else if 97 ≤ n ∧ n ≤ 102 then some (n - 87)
  else none

/-- The byte of two hexadecimal digits. -/
def escaped (h l : UInt8) : Option UInt8 :=
  (hexValue h).bind fun x => (hexValue l).map fun y => UInt8.ofNat (x * 16 + y)

def percentDecode : List UInt8 → List UInt8
  | [] => []
  | [b] => [b]
  | [b, c] => [b, c]
  | b :: h :: l :: bs =>
      if b = percent then
        match escaped h l with
        | some byte => byte :: percentDecode bs
        | none => b :: percentDecode (h :: l :: bs)
      else b :: percentDecode (h :: l :: bs)

def plusToSpace (b : UInt8) : UInt8 := if b = plus then 32 else b

/-- The bytes of a form-urlencoded name or value. -/
def formBytes (bs : List UInt8) : List UInt8 := percentDecode (bs.map plusToSpace)

def formDecode (cs : List Char) : List Char := decodeLossy (formBytes (encode cs))

/-- A field is split at its first equals sign. -/
def formField (cs : List Char) : List Char × List Char :=
  (formDecode (cs.takeWhile (· != '=')), formDecode ((cs.dropWhile (· != '=')).drop 1))

/-- The names and values of a query, empty fields left out. -/
def formParse (query : List Char) : List (List Char × List Char) :=
  ((query.splitOn '&').filter (!·.isEmpty)).map formField

/-- Every percent sign begins an escape. -/
def WellEscaped (bs : List UInt8) : Prop :=
  ∀ after, percent :: after <:+ bs → ∃ h l rest byte, after = h :: l :: rest ∧ escaped h l = some byte

example : formParse "t%65nant=acme%2&=+%zz".toList =
    [("tenant".toList, "acme%2".toList), ([], " %zz".toList)] := by decide +kernel

/-- Induction on a text one escape at a time. -/
@[elab_as_elim]
theorem escape_induction {P : List UInt8 → Prop} (nil : P [])
    (other : ∀ b bs, b ≠ percent → P bs → P (b :: bs))
    (short : ∀ bs : List UInt8, bs.length < 2 → P (percent :: bs))
    (escape : ∀ h l bs, P bs → P (percent :: h :: l :: bs)) : ∀ bs, P bs
  | [] => nil
  | b :: bs =>
      if hb : b = percent then
        match bs with
        | [] => hb ▸ short [] (Nat.zero_lt_succ 1)
        | [c] => hb ▸ short [c] (Nat.lt_succ_self 1)
        | h :: l :: bs => hb ▸ escape h l bs (escape_induction nil other short escape bs)
      else other b bs hb (escape_induction nil other short escape bs)

/-! ## Well-escaped text -/

section
variable {b h l : UInt8} {bs : List UInt8}

theorem hexValue_percent : hexValue percent = none := rfl

theorem hexValue_plus : hexValue plus = none := rfl

theorem hexValue_lt {x : ℕ} (hb : hexValue b = some x) : x < 16 := by
  unfold hexValue at hb
  dsimp only at hb
  split_ifs at hb
  all_goals
    cases hb
    omega

theorem ne_of_hexValue {b' : UInt8} {x : ℕ} (hb : hexValue b = some x) (hnone : hexValue b' = none) :
    b ≠ b' := by
  rintro rfl
  rw [hnone] at hb
  cases hb

theorem hexValue_of_escaped {byte : UInt8} (hbyte : escaped h l = some byte) :
    ∃ x y, hexValue h = some x ∧ hexValue l = some y ∧ byte = UInt8.ofNat (x * 16 + y) := by
  obtain ⟨x, hx, hrest⟩ := Option.bind_eq_some_iff.mp hbyte
  obtain ⟨y, hy, rfl⟩ := Option.map_eq_some_iff.mp hrest
  exact ⟨x, y, hx, hy, rfl⟩

theorem wellEscaped_nil : WellEscaped [] := by
  intro after hafter
  cases List.suffix_nil.mp hafter

theorem wellEscaped_cons_iff_of_ne (hb : b ≠ percent) :
    WellEscaped (b :: bs) ↔ WellEscaped bs := by
  constructor
  · exact fun hall after hafter => hall after (hafter.trans (List.suffix_cons b bs))
  · intro hall after hafter
    rcases List.suffix_cons_iff.mp hafter with heq | hafter
    · exact absurd (List.cons.inj heq).1.symm hb
    · exact hall after hafter

theorem wellEscaped_escape_iff :
    WellEscaped (percent :: h :: l :: bs) ↔ (escaped h l).isSome ∧ WellEscaped bs := by
  constructor
  · intro hall
    obtain ⟨h', l', rest, byte, heq, hbyte⟩ := hall _ (List.suffix_refl _)
    cases heq
    refine ⟨Option.isSome_iff_exists.mpr ⟨byte, hbyte⟩, fun after hafter => ?_⟩
    exact hall after (hafter.trans ⟨[percent, h, l], rfl⟩)
  · rintro ⟨hsome, hall⟩
    obtain ⟨byte, hbyte⟩ := Option.isSome_iff_exists.mp hsome
    obtain ⟨x, y, hx, hy, -⟩ := hexValue_of_escaped hbyte
    intro after hafter
    rcases List.suffix_cons_iff.mp hafter with heq | hafter
    · exact ⟨h, l, bs, byte, (List.cons.inj heq).2, hbyte⟩
    · have hrest : WellEscaped (h :: l :: bs) := by
        rw [wellEscaped_cons_iff_of_ne (ne_of_hexValue hx hexValue_percent),
          wellEscaped_cons_iff_of_ne (ne_of_hexValue hy hexValue_percent)]
        exact hall
      exact hrest after hafter

theorem not_wellEscaped_of_short (hshort : bs.length < 2) : ¬WellEscaped (percent :: bs) := by
  intro hall
  obtain ⟨h, l, rest, byte, rfl, -⟩ := hall bs (List.suffix_refl _)
  simp only [List.length_cons] at hshort
  omega

theorem percentDecode_cons_of_ne (hb : b ≠ percent) :
    percentDecode (b :: bs) = b :: percentDecode bs := by
  match bs with
  | [] => rfl
  | [_] => rfl
  | _ :: _ :: _ => rw [percentDecode, if_neg hb]

theorem percentDecode_escape {byte : UInt8} (hbyte : escaped h l = some byte) :
    percentDecode (percent :: h :: l :: bs) = byte :: percentDecode bs := by
  rw [percentDecode, if_pos rfl, hbyte]

/-- A byte that no escape contains separates what is decoded before and after it. -/
theorem percentDecode_append_cons (hb : b ≠ percent) (hhex : hexValue b = none)
    (xs ys : List UInt8) :
    percentDecode (xs ++ b :: ys) = percentDecode xs ++ b :: percentDecode ys := by
  have hsecond (c : UInt8) : escaped c b = none := by
    unfold escaped
    rw [hhex]
    cases hexValue c with
    | none => rfl
    | some x => rfl
  have hfirst (c : UInt8) : escaped b c = none := by
    unfold escaped
    rw [hhex]
    rfl
  have hsplit : percentDecode (b :: ys) = b :: percentDecode ys := percentDecode_cons_of_ne hb
  have hafter (c : UInt8) : percentDecode (c :: b :: ys) = c :: b :: percentDecode ys := by
    by_cases hc : c = percent
    · cases ys with
      | nil => rfl
      | cons y ys => rw [percentDecode, if_pos hc, hfirst, hsplit]
    · rw [percentDecode_cons_of_ne hc, hsplit]
  fun_induction percentDecode xs with
  | case1 => exact hsplit
  | case2 c => exact hafter c
  | case3 c d =>
      rw [List.cons_append, List.cons_append, List.nil_append, percentDecode, hsecond]
      simp only [hafter]
      split_ifs
      all_goals rfl
  | case4 c l bs byte hbyte ih =>
      rw [List.cons_append, List.cons_append, List.cons_append, percentDecode_escape hbyte, ih]
      rfl
  | case5 h l bs hnone ih =>
      rw [List.cons_append, List.cons_append, List.cons_append, percentDecode, if_pos rfl, hnone]
      exact congrArg _ ih
  | case6 c h l bs hc ih =>
      rw [List.cons_append, List.cons_append, List.cons_append, percentDecode, if_neg hc]
      exact congrArg _ ih

theorem plusToSpace_of_ne (hb : b ≠ plus) : plusToSpace b = b := if_neg hb

theorem plusToSpace_ne_percent (hb : b ≠ percent) : plusToSpace b ≠ percent := by
  unfold plusToSpace
  split_ifs
  · decide
  · exact hb

theorem formBytes_cons_of_ne (hb : b ≠ percent) :
    formBytes (b :: bs) = plusToSpace b :: formBytes bs := by
  unfold formBytes
  rw [List.map_cons, percentDecode_cons_of_ne (plusToSpace_ne_percent hb)]

theorem formBytes_escape {byte : UInt8} (hbyte : escaped h l = some byte) :
    formBytes (percent :: h :: l :: bs) = byte :: formBytes bs := by
  obtain ⟨x, y, hx, hy, -⟩ := hexValue_of_escaped hbyte
  have hh := plusToSpace_of_ne (ne_of_hexValue hx hexValue_plus)
  have hl := plusToSpace_of_ne (ne_of_hexValue hy hexValue_plus)
  unfold formBytes
  rw [List.map_cons, List.map_cons, List.map_cons, hh, hl, plusToSpace_of_ne (by decide),
    percentDecode_escape hbyte]

/-- A sign is read as a space after a percent sign that begins no escape. -/
theorem formBytes_signed : formBytes (percent :: plus :: bs) = percent :: 32 :: formBytes bs := by
  unfold formBytes
  rw [List.map_cons, List.map_cons]
  generalize bs.map plusToSpace = rest
  cases rest with
  | nil => rfl
  | cons b rest =>
      have hnone : escaped (plusToSpace plus) b = none := rfl
      rw [plusToSpace_of_ne (by decide), percentDecode, if_pos rfl, hnone]
      dsimp only
      rw [percentDecode_cons_of_ne (by decide)]
      rfl

end

end BlackMonolith.Library.PercentEncoding
