import BlackMonolith.Library.JsonEscapes
import BlackMonolith.Library.Utf16
import BlackMonolith.Library.Utf8

/-!
# JavaScript strings in UTF-8

A surrogate pair is one character; an unpaired surrogate is written as the replacement
character. Strings without unpaired surrogates have bytes of their own, and only those
of ASCII characters have as many bytes as units.
-/
namespace BlackMonolith.Library.JsString

def unitChar (u : UInt16) : Char :=
  if isHigh u || isLow u then Char.ofNat replacement.toNat else Char.ofNat u.toNat

def pairChar (u v : UInt16) : Char :=
  Char.ofNat (0x10000 + (u.toNat - 0xD800) * 0x400 + (v.toNat - 0xDC00))

/-- The characters of a string. -/
def scalars : List UInt16 → List Char
  | [] => []
  | [u] => [unitChar u]
  | u :: v :: us =>
      if isHigh u && isLow v then pairChar u v :: scalars us
      else unitChar u :: scalars (v :: us)

/-- `Buffer.from(s, "utf8")`. -/
def utf8 (us : List UInt16) : List UInt8 := Utf8.encode (scalars us)

theorem toNat_ofNat_of_valid {n : ℕ} (h : n.isValidChar) : (Char.ofNat n).toNat = n := by
  unfold Char.ofNat
  rw [dif_pos h]
  rfl

theorem toNat_unitChar (u : UInt16) :
    (unitChar u).toNat = (if isHigh u || isLow u then replacement else u).toNat := by
  have hbasic : ∀ v : UInt16, (isHigh v || isLow v) = false → (Char.ofNat v.toNat).toNat = v.toNat := by
    intro v hv
    have hlt := v.toNat_lt
    apply toNat_ofNat_of_valid
    simp only [isHigh, isLow, Bool.or_eq_false_iff, Bool.and_eq_false_iff,
      decide_eq_false_iff_not, UInt16.le_iff_toNat_le, UInt16.reduceToNat] at hv
    unfold Nat.isValidChar
    omega
  unfold unitChar
  split_ifs with h
  · exact hbasic replacement (by decide)
  · exact hbasic u (Bool.eq_false_iff.mpr h)

theorem toNat_pairChar {u v : UInt16} (h : (isHigh u && isLow v) = true) :
    (pairChar u v).toNat = 0x10000 + (u.toNat - 0xD800) * 0x400 + (v.toNat - 0xDC00) := by
  simp only [isHigh, isLow, Bool.and_eq_true, decide_eq_true_eq, UInt16.le_iff_toNat_le,
    UInt16.reduceToNat] at h
  exact toNat_ofNat_of_valid (by unfold Nat.isValidChar; omega)

theorem encodeUtf16_unitChar (u : UInt16) :
    encodeUtf16 (unitChar u) = [if isHigh u || isLow u then replacement else u] := by
  have hcode := toNat_unitChar u
  have hlt := (if isHigh u || isLow u then replacement else u).toNat_lt
  unfold encodeUtf16
  rw [hcode, if_pos hlt, UInt16.ofNat_toNat]

theorem encodeUtf16_pairChar {u v : UInt16} (h : (isHigh u && isLow v) = true) :
    encodeUtf16 (pairChar u v) = [u, v] := by
  have hcode := toNat_pairChar h
  simp only [isHigh, isLow, Bool.and_eq_true, decide_eq_true_eq, UInt16.le_iff_toNat_le,
    UInt16.reduceToNat] at h
  have hu : 0xD800 + ((pairChar u v).toNat - 0x10000) / 0x400 = u.toNat := by omega
  have hv : 0xDC00 + ((pairChar u v).toNat - 0x10000) % 0x400 = v.toNat := by omega
  unfold encodeUtf16
  rw [if_neg (by omega), hu, hv, UInt16.ofNat_toNat, UInt16.ofNat_toNat]

/-- The characters of a string, as units again. -/
theorem flatMap_scalars (us : List UInt16) :
    (scalars us).flatMap encodeUtf16 = wellFormedUnits us := by
  induction us using wellFormedUnits.induct with
  | case1 => rfl
  | case2 u =>
      rw [scalars, List.flatMap_singleton, encodeUtf16_unitChar]
      rfl
  | case3 u v us h ih =>
      rw [scalars, if_pos h, List.flatMap_cons, encodeUtf16_pairChar h, ih, wellFormedUnits,
        if_pos h]
      rfl
  | case4 u v us h ih =>
      rw [scalars, if_neg h, List.flatMap_cons, encodeUtf16_unitChar, ih, wellFormedUnits, if_neg h]
      rfl

/-- No surrogate is unpaired. -/
def Paired (us : List UInt16) : Prop := wellFormedUnits us = us

theorem utf8_injOn {us vs : List UInt16} (hus : Paired us) (hvs : Paired vs)
    (h : utf8 us = utf8 vs) : us = vs := by
  have hscalars := Utf8.encode_injective h
  calc us = (scalars us).flatMap encodeUtf16 := by rw [flatMap_scalars, hus]
    _ = (scalars vs).flatMap encodeUtf16 := by rw [hscalars]
    _ = vs := by rw [flatMap_scalars, hvs]

/-! ## Pairs in parts of a string -/

theorem wellFormedUnits_append {us : List UInt16} (h : Paired us) (vs : List UInt16) :
    wellFormedUnits (us ++ vs) = us ++ wellFormedUnits vs := by
  have hplain : ∀ {u : UInt16} {us vs : List UInt16},
      (if isHigh u || isLow u then replacement else u) :: us = u :: vs →
        (isHigh u || isLow u) = false := by
    intro u us vs heq
    apply Bool.eq_false_iff.mpr
    intro hsurrogate
    exact replaced_ne hsurrogate heq
  induction us using wellFormedUnits.induct with
  | case1 => rfl
  | case2 u =>
      rw [List.singleton_append, wellFormedUnits_cons (hplain h)]
      rfl
  | case3 u v us hpair ih =>
      rw [Paired, wellFormedUnits, if_pos hpair] at h
      rw [List.cons_append, List.cons_append, wellFormedUnits, if_pos hpair,
        ih (List.cons.inj (List.cons.inj h).2).2]
      rfl
  | case4 u v us hpair ih =>
      rw [Paired, wellFormedUnits, if_neg hpair] at h
      rw [List.cons_append, wellFormedUnits_cons (hplain h), ih (List.cons.inj h).2]
      rfl

theorem Paired.append {us vs : List UInt16} (hus : Paired us) (hvs : Paired vs) :
    Paired (us ++ vs) := by
  rw [Paired, wellFormedUnits_append hus, hvs]

theorem Paired.nil : Paired [] := rfl

theorem Paired.cons {u : UInt16} {us : List UInt16} (hu : u < 0x80) (hus : Paired us) :
    Paired (u :: us) := by
  have hplain : (isHigh u || isLow u) = false := by
    simp only [UInt16.lt_iff_toNat_lt, UInt16.reduceToNat] at hu
    simp only [isHigh, isLow, Bool.or_eq_false_iff, Bool.and_eq_false_iff, decide_eq_false_iff_not,
      UInt16.le_iff_toNat_le, UInt16.reduceToNat]
    omega
  rw [Paired, wellFormedUnits_cons hplain, hus]

theorem paired_of_ascii {us : List UInt16} (h : ∀ u ∈ us, u < 0x80) : Paired us := by
  induction us with
  | nil => rfl
  | cons u us ih =>
      rw [List.forall_mem_cons] at h
      exact (ih h.2).cons h.1

/-! ## ASCII -/

theorem encodeChar_of_ascii {c : Char} (h : c.toNat < 0x80) :
    String.utf8EncodeChar c = [UInt8.ofNat c.toNat] := by
  have hc : c.val.toNat ≤ 0x7F := Nat.le_of_lt_succ h
  unfold String.utf8EncodeChar
  rw [if_pos hc]
  rfl

theorem unitChar_of_ascii {u : UInt16} (h : u < 0x80) : (unitChar u).toNat = u.toNat := by
  have hplain : (isHigh u || isLow u) = false := by
    simp only [UInt16.lt_iff_toNat_lt, UInt16.reduceToNat] at h
    simp only [isHigh, isLow, Bool.or_eq_false_iff, Bool.and_eq_false_iff, decide_eq_false_iff_not,
      UInt16.le_iff_toNat_le, UInt16.reduceToNat]
    omega
  rw [toNat_unitChar, hplain]
  rfl

theorem utf8_of_ascii {us : List UInt16} (h : ∀ u ∈ us, u < 0x80) :
    utf8 us = us.map UInt16.toUInt8 := by
  have hscalars : scalars us = us.map unitChar := by
    induction us using scalars.induct with
    | case1 => rfl
    | case2 u => rfl
    | case3 u v us hpair ih =>
        exfalso
        have hu := h u List.mem_cons_self
        simp only [isHigh, isLow, Bool.and_eq_true, decide_eq_true_eq, UInt16.le_iff_toNat_le,
          UInt16.lt_iff_toNat_lt, UInt16.reduceToNat] at hpair hu
        omega
    | case4 u v us hpair ih =>
        rw [scalars, if_neg hpair, ih (List.forall_mem_cons.mp h).2]
        rfl
  unfold utf8 Utf8.encode
  rw [hscalars, List.flatMap_map]
  clear hscalars
  induction us with
  | nil => rfl
  | cons u us ih =>
      obtain ⟨hu, hus⟩ := List.forall_mem_cons.mp h
      have hcode := unitChar_of_ascii hu
      have hlt := UInt16.lt_iff_toNat_lt.mp hu
      rw [List.flatMap_cons, ih hus, encodeChar_of_ascii (by rw [hcode]; exact hlt), hcode]
      rfl

theorem utf8Size_eq_one {c : Char} (h : c.utf8Size = 1) : c.toNat < 0x80 := by
  rw [Char.utf8Size_eq_one_iff, UInt32.le_iff_toNat_le] at h
  exact Nat.lt_succ_of_le h

theorem utf8Size_pairChar {u v : UInt16} (h : (isHigh u && isLow v) = true) :
    2 < (pairChar u v).utf8Size := by
  have hcode := toNat_pairChar h
  have hnot : ∀ n : UInt32, n.toNat ≤ 0xFFFF → ¬ (pairChar u v).val ≤ n := by
    intro n hn hle
    have hval : (pairChar u v).val.toNat = (pairChar u v).toNat := rfl
    have := UInt32.le_iff_toNat_le.mp hle
    omega
  unfold Char.utf8Size
  simp only
  rw [if_neg (hnot _ (by decide)), if_neg (hnot _ (by decide)), if_neg (hnot _ (by decide))]
  show 2 < 4
  decide

/-- A string has as many bytes as units only if all its characters are ASCII. -/
theorem ascii_of_length_utf8 (us : List UInt16) :
    us.length ≤ (utf8 us).length ∧
      ((utf8 us).length = us.length → ∀ u ∈ us, u < 0x80) := by
  have hunit : ∀ u, (unitChar u).utf8Size = 1 → u < 0x80 := by
    intro u hsize
    have hlt := utf8Size_eq_one hsize
    rw [toNat_unitChar] at hlt
    rw [UInt16.lt_iff_toNat_lt]
    split_ifs at hlt
    · exact absurd hlt (by decide)
    · exact hlt
  unfold utf8
  induction us using scalars.induct with
  | case1 => exact ⟨Nat.le_refl 0, fun _ => List.forall_mem_nil _⟩
  | case2 u =>
      have hpos := Char.utf8Size_pos (unitChar u)
      rw [scalars, Utf8.length_encode_cons, List.length_singleton]
      constructor
      · omega
      · intro hlength
        rw [List.forall_mem_singleton]
        exact hunit u (by omega)
  | case3 u v us hpair ih =>
      have hsize := utf8Size_pairChar hpair
      have hle := ih.1
      rw [scalars, if_pos hpair, Utf8.length_encode_cons, List.length_cons, List.length_cons]
      constructor
      · omega
      · intro hlength
        omega
  | case4 u v us hpair ih =>
      have hpos := Char.utf8Size_pos (unitChar u)
      have hle := ih.1
      rw [scalars, if_neg hpair, Utf8.length_encode_cons, List.length_cons]
      constructor
      · omega
      · intro hlength
        rw [List.forall_mem_cons]
        exact ⟨hunit u (by omega), ih.2 (by omega)⟩

end BlackMonolith.Library.JsString
