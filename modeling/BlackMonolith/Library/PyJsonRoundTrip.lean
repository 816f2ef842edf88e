import Mathlib
import BlackMonolith.Library.PyJsonText

/-!
# Reading Python's JSON texts back

`loads` returns what `dumps` wrote, in one line or indented: a string ends at its first
quotation mark that is not escaped, and a number at the first character that is none of a
number's.
-/
namespace BlackMonolith.Library
namespace PyJsonText

/-! ## Strings -/

theorem val_ofNat {n : ℕ} (h : n < 0x110000) : (Fin.ofNat 0x110000 n).val = n :=
  Nat.mod_eq_of_lt h

theorem ofNat_val (c : CodePoint) : Fin.ofNat 0x110000 c.val = c := Fin.ext (val_ofNat c.isLt)

theorem hexVal_hexDigit {n : ℕ} (h : n < 16) : hexVal (hexDigit n) = some n := by
  have hval : (hexDigit n).val = if n < 10 then 0x30 + n else 0x57 + n := by
    unfold hexDigit
    apply val_ofNat
    split_ifs <;> omega
  unfold hexVal
  rw [hval]
  by_cases hten : n < 10
  · rw [if_pos hten, if_pos (by omega)]
    congr 1
    omega
  · rw [if_neg hten, if_neg (by omega), if_pos (by omega)]
    congr 1
    omega

theorem readHex_unit {n : ℕ} (h : n < 0x10000) (t : Points) :
    readHex ((unicodeEscape n).drop 2 ++ t) = some (n, t) := by
  show readHex (hexDigit (n / 4096 % 16) :: hexDigit (n / 256 % 16) :: hexDigit (n / 16 % 16) ::
    hexDigit (n % 16) :: t) = _
  unfold readHex
  dsimp only
  rw [hexVal_hexDigit (Nat.mod_lt _ (by decide)), hexVal_hexDigit (Nat.mod_lt _ (by decide)),
    hexVal_hexDigit (Nat.mod_lt _ (by decide)), hexVal_hexDigit (Nat.mod_lt _ (by decide))]
  have hsum : n / 4096 % 16 * 4096 + n / 256 % 16 * 256 + n / 16 % 16 * 16 + n % 16 = n := by omega
  simp only [hsum]

theorem readEscape_unit {n : ℕ} (h : n < 0x10000) (t : Points) :
    readEscape ((unicodeEscape n).tail ++ t) =
      if isHigh n then readLow n t else some (Fin.ofNat 0x110000 n, t) := by
  show (readHex ((unicodeEscape n).drop 2 ++ t)).bind _ = _
  rw [readHex_unit h, Option.bind_some]

theorem readLow_unit {n m : ℕ} (hm : m < 0x10000) (t : Points) :
    readLow n (unicodeEscape m ++ t) =
      if isLow m then
        some (Fin.ofNat 0x110000 (0x10000 + (n - 0xD800) * 0x400 + (m - 0xDC00)), t)
      else some (Fin.ofNat 0x110000 n, unicodeEscape m ++ t) := by
  have hdrop : (unicodeEscape m ++ t).drop 2 = (unicodeEscape m).drop 2 ++ t := rfl
  unfold readLow
  rw [if_pos (show (unicodeEscape m ++ t).take 2 = [0x5C, 0x75] from rfl), hdrop, readHex_unit hm,
    Option.map_some]
  dsimp only
  by_cases hlow : isLow m
  · rw [if_pos hlow, if_pos hlow]
  · rw [if_neg hlow, if_neg hlow]

theorem readLow_other {n : ℕ} {t : Points} (h : t.take 2 ≠ [0x5C, 0x75]) :
    readLow n t = some (Fin.ofNat 0x110000 n, t) := if_neg h

/-- A character is written as a letter after a backslash, as itself, or as its code. -/
theorem escape_cases (c : CodePoint) :
    (∃ e : CodePoint, (0x20 ≤ e.val ∧ e.val ≤ 0x7E) ∧ e ≠ 0x75 ∧ simpleEscape e = some c ∧
      escape c = [0x5C, e]) ∨
    (c ≠ 0x22 ∧ c ≠ 0x5C ∧ (0x20 ≤ c.val ∧ c.val ≤ 0x7E) ∧ escape c = [c]) ∨
    (c.val < 0x10000 ∧ escape c = unicodeEscape c.val) ∨
    (0x10000 ≤ c.val ∧ escape c = unicodeEscape (0xD800 + (c.val - 0x10000) / 0x400) ++
      unicodeEscape (0xDC00 + (c.val - 0x10000) % 0x400)) := by
  unfold escape
  by_cases h1 : c = 0x22
  · exact .inl ⟨0x22, by decide, by decide, by rw [h1]; rfl, if_pos h1⟩
  by_cases h2 : c = 0x5C
  · rw [if_neg h1]
    exact .inl ⟨0x5C, by decide, by decide, by rw [h2]; rfl, if_pos h2⟩
  by_cases h3 : c = 0x0A
  · rw [if_neg h1, if_neg h2]
    exact .inl ⟨0x6E, by decide, by decide, by rw [h3]; rfl, if_pos h3⟩
  by_cases h4 : c = 0x0D
  · rw [if_neg h1, if_neg h2, if_neg h3]
    exact .inl ⟨0x72, by decide, by decide, by rw [h4]; rfl, if_pos h4⟩
  by_cases h5 : c = 0x09
  · rw [if_neg h1, if_neg h2, if_neg h3, if_neg h4]
    exact .inl ⟨0x74, by decide, by decide, by rw [h5]; rfl, if_pos h5⟩
  by_cases h6 : c = 0x0C
  · rw [if_neg h1, if_neg h2, if_neg h3, if_neg h4, if_neg h5]
    exact .inl ⟨0x66, by decide, by decide, by rw [h6]; rfl, if_pos h6⟩
  by_cases h7 : c = 0x08
  · rw [if_neg h1, if_neg h2, if_neg h3, if_neg h4, if_neg h5, if_neg h6]
    exact .inl ⟨0x62, by decide, by decide, by rw [h7]; rfl, if_pos h7⟩
  rw [if_neg h1, if_neg h2, if_neg h3, if_neg h4, if_neg h5, if_neg h6, if_neg h7]
  by_cases hplain : 0x20 ≤ c.val ∧ c.val ≤ 0x7E
  · exact .inr (.inl ⟨h1, h2, hplain, if_pos hplain⟩)
  rw [if_neg hplain]
  by_cases hbasic : c.val < 0x10000
  · exact .inr (.inr (.inl ⟨hbasic, if_pos hbasic⟩))
  · exact .inr (.inr (.inr ⟨Nat.le_of_not_lt hbasic, if_neg hbasic⟩))

/-- No other character begins with the escape of a low surrogate. -/
theorem readLow_escape {n : ℕ} {d : CodePoint} (h : isLow d.val = false) (t : Points) :
    readLow n (escape d ++ t) = some (Fin.ofNat 0x110000 n, escape d ++ t) := by
  rcases escape_cases d with ⟨e, -, hunit, -, heq⟩ | ⟨-, hslash, -, heq⟩ | ⟨hbasic, heq⟩ |
    ⟨hbasic, heq⟩ <;> rw [heq]
  · apply readLow_other
    intro htake
    exact hunit (List.cons.inj (List.cons.inj htake).2).1
  · apply readLow_other
    intro htake
    exact hslash (List.cons.inj htake).1
  · rw [readLow_unit hbasic, if_neg (by rw [h]; decide)]
  · have hd := d.isLt
    have hhigh : isLow (0xD800 + (d.val - 0x10000) / 0x400) = false := by
      unfold isLow
      rw [Bool.and_eq_false_iff, decide_eq_false_iff_not, decide_eq_false_iff_not]
      omega
    rw [List.append_assoc, readLow_unit (by omega), if_neg (by rw [hhigh]; decide)]

theorem unicodeEscape_append (n : ℕ) (t : Points) :
    unicodeEscape n ++ t = 0x5C :: ((unicodeEscape n).tail ++ t) := rfl

theorem readChars_backslash (fuel : ℕ) (t : Points) : readChars (fuel + 1) (0x5C :: t) =
    (readEscape t).bind fun (d, t) => (readChars fuel t).map fun (s, t) => (d :: s, t) := rfl

/-- An escaped character is read back; a high surrogate, if what follows leaves it alone. -/
theorem readChars_escape (fuel : ℕ) (c : CodePoint) (t : Points)
    (h : isHigh c.val = true → readLow c.val t = some (c, t)) :
    readChars (fuel + 1) (escape c ++ t) = (readChars fuel t).map fun (s, t) => (c :: s, t) := by
  rcases escape_cases c with ⟨e, -, hunit, hsimple, heq⟩ | ⟨hquote, hslash, hplain, heq⟩ |
    ⟨hbasic, heq⟩ | ⟨hbasic, heq⟩ <;> rw [heq]
  · have hescape : readEscape (e :: t) = some (c, t) := by
      show (if e = 0x75 then _ else _) = _
      rw [if_neg hunit, hsimple, Option.map_some]
    rw [List.cons_append, List.singleton_append, readChars_backslash, hescape, Option.bind_some]
  · show (if c = 0x22 then _ else _) = _
    rw [if_neg hquote, if_neg hslash, if_neg (by omega)]
    rfl
  · have hescape : readEscape ((unicodeEscape c.val).tail ++ t) = some (c, t) := by
      rw [readEscape_unit hbasic]
      by_cases hhigh : isHigh c.val
      · rw [if_pos hhigh, h hhigh]
      · rw [if_neg hhigh, ofNat_val]
    rw [unicodeEscape_append, readChars_backslash, hescape, Option.bind_some]
  · have hc := c.isLt
    have hhigh : isHigh (0xD800 + (c.val - 0x10000) / 0x400) = true := by
      unfold isHigh
      rw [Bool.and_eq_true, decide_eq_true_eq, decide_eq_true_eq]
      omega
    have hlow : isLow (0xDC00 + (c.val - 0x10000) % 0x400) = true := by
      unfold isLow
      rw [Bool.and_eq_true, decide_eq_true_eq, decide_eq_true_eq]
      omega
    have hescape : readEscape ((unicodeEscape (0xD800 + (c.val - 0x10000) / 0x400)).tail ++
        (unicodeEscape (0xDC00 + (c.val - 0x10000) % 0x400) ++ t)) = some (c, t) := by
      rw [readEscape_unit (by omega), if_pos hhigh, readLow_unit (by omega), if_pos hlow]
      have hcode : Fin.ofNat 0x110000 (0x10000 + (0xD800 + (c.val - 0x10000) / 0x400 - 0xD800) * 0x400 +
          (0xDC00 + (c.val - 0x10000) % 0x400 - 0xDC00)) = c := by
        apply Fin.ext
        rw [val_ofNat (by omega)]
        omega
      rw [hcode]
    rw [List.append_assoc, unicodeEscape_append, readChars_backslash, hescape, Option.bind_some]

/-- No two surrogates of a string stand for one character. -/
def Unpaired (s : Points) : Prop := s.IsChain fun c d => ¬ (isHigh c.val ∧ isLow d.val)

theorem unpaired_of_encodable {s : PyString} (h : s.Encodable) : Unpaired s.points := by
  apply List.Pairwise.isChain
  apply List.pairwise_of_forall_mem_list
  intro c hc d _ hpair
  have hplain := h c hc
  simp only [PyString.isSurrogate, Bool.and_eq_false_iff, decide_eq_false_iff_not] at hplain
  simp only [isHigh, Bool.and_eq_true, decide_eq_true_eq] at hpair
  omega

theorem readChars_quoted {s : Points} (hs : Unpaired s) {fuel : ℕ} (hfuel : s.length < fuel)
    (t : Points) : readChars fuel (s.flatMap escape ++ 0x22 :: t) = some (s, t) := by
  induction s generalizing fuel with
  | nil =>
      cases fuel with
      | zero => exact absurd hfuel (Nat.not_lt_zero _)
      | succ fuel => rfl
  | cons c s ih =>
      obtain ⟨hnext, htail⟩ := List.isChain_cons.mp hs
      cases fuel with
      | zero => exact absurd hfuel (Nat.not_lt_zero _)
      | succ fuel =>
          rw [List.flatMap_cons, List.append_assoc, readChars_escape, ih htail (Nat.lt_of_succ_lt_succ hfuel)]
          · rfl
          · intro hhigh
            have hself : some (Fin.ofNat 0x110000 c.val, s.flatMap escape ++ 0x22 :: t) =
                some (c, s.flatMap escape ++ 0x22 :: t) := by rw [ofNat_val]
            rw [← hself]
            cases s with
            | nil => exact readLow_other (by simp)
            | cons d s =>
                rw [List.flatMap_cons, List.append_assoc]
                apply readLow_escape
                have hpair := hnext d rfl
                exact Bool.eq_false_iff.mpr fun hlow => hpair ⟨hhigh, hlow⟩

theorem length_escape_pos (c : CodePoint) : 0 < (escape c).length := by
  rcases escape_cases c with ⟨e, -, -, -, heq⟩ | ⟨-, -, -, heq⟩ | ⟨-, heq⟩ | ⟨-, heq⟩ <;> rw [heq]
  · exact Nat.zero_lt_succ _
  · exact Nat.zero_lt_succ _
  · exact Nat.zero_lt_succ _
  · rw [List.length_append]
    exact Nat.add_pos_left (Nat.zero_lt_succ _) _

theorem length_le_flatMap_escape (s : Points) : s.length ≤ (s.flatMap escape).length := by
  induction s with
  | nil => exact Nat.le_refl 0
  | cons c s ih =>
      have := length_escape_pos c
      rw [List.flatMap_cons, List.length_append, List.length_cons]
      omega

/-! ## Numbers -/

theorem takeWhile_append_stop {α : Type*} {p : α → Bool} {xs rest : List α}
    (h : ∀ x ∈ rest.head?, p x = false) :
    (xs ++ rest).takeWhile p = xs.takeWhile p ∧
      (xs ++ rest).dropWhile p = xs.dropWhile p ++ rest := by
  induction xs with
  | nil =>
      cases rest with
      | nil => exact ⟨rfl, rfl⟩
      | cons x rest =>
          have hx := h x rfl
          simp [hx]
  | cons x xs ih =>
      by_cases hx : p x = true
      · simp [hx, ih.1, ih.2]
      · simp [hx]

/-- The characters of a number's text. -/
def isNumberChar (c : CodePoint) : Bool :=
  isDigit c || c = 0x2D || c = 0x2B || c = 0x2E || c = 0x65 || c = 0x45

/-- No number goes on in a text. -/
def Stops (rest : Points) : Prop := ∀ c ∈ rest.head?, isNumberChar c = false

theorem readSign_cons (c : CodePoint) (t : Points) :
    readSign (c :: t) = if c = 0x2D then ([c], t) else ([], c :: t) := rfl

theorem readInteger_cons (c : CodePoint) (t : Points) : readInteger (c :: t) =
    if c = 0x30 then some ([c], t)
    else if isDigit c then some (c :: t.takeWhile isDigit, t.dropWhile isDigit)
    else none := rfl

theorem readFraction_cons (c : CodePoint) (t : Points) : readFraction (c :: t) =
    if c = 0x2E ∧ t.takeWhile isDigit ≠ [] then (c :: t.takeWhile isDigit, t.dropWhile isDigit)
    else ([], c :: t) := rfl

theorem readExponentSign_cons (c : CodePoint) (t : Points) :
    readExponentSign (c :: t) = if c = 0x2D ∨ c = 0x2B then ([c], t) else ([], c :: t) := rfl

theorem readExponent_cons (c : CodePoint) (t : Points) : readExponent (c :: t) =
    if (c = 0x65 ∨ c = 0x45) ∧ (readExponentSign t).2.takeWhile isDigit ≠ [] then
      (c :: ((readExponentSign t).1 ++ (readExponentSign t).2.takeWhile isDigit),
        (readExponentSign t).2.dropWhile isDigit)
    else ([], c :: t) := rfl

section
variable {rest : Points}

theorem Stops.digit (h : Stops rest) : ∀ c ∈ rest.head?, isDigit c = false := by
  intro c hc
  have := h c hc
  simp only [isNumberChar, Bool.or_eq_false_iff] at this
  exact this.1.1.1.1.1

theorem readSign_append {t : Points} (h : t ≠ []) :
    readSign (t ++ rest) = ((readSign t).1, (readSign t).2 ++ rest) := by
  cases t with
  | nil => exact absurd rfl h
  | cons c t =>
      rw [List.cons_append, readSign_cons, readSign_cons]
      split_ifs <;> rfl

theorem readInteger_append (hrest : Stops rest) {t digits t' : Points}
    (h : readInteger t = some (digits, t')) :
    readInteger (t ++ rest) = some (digits, t' ++ rest) := by
  cases t with
  | nil => cases h
  | cons c t =>
      obtain ⟨htake, hdrop⟩ := @takeWhile_append_stop _ isDigit t rest hrest.digit
      rw [readInteger_cons] at h
      rw [List.cons_append, readInteger_cons, htake, hdrop]
      split_ifs at h ⊢
      · cases h
        rfl
      · cases h
        rfl

theorem readFraction_append (hrest : Stops rest) (t : Points) :
    readFraction (t ++ rest) = ((readFraction t).1, (readFraction t).2 ++ rest) := by
  cases t with
  | nil =>
      cases rest with
      | nil => rfl
      | cons c rest =>
          have hc := hrest c rfl
          simp only [isNumberChar, Bool.or_eq_false_iff, decide_eq_false_iff_not] at hc
          exact if_neg fun h => hc.1.1.2 h.1
  | cons c t =>
      obtain ⟨htake, hdrop⟩ := @takeWhile_append_stop _ isDigit t rest hrest.digit
      rw [List.cons_append, readFraction_cons, readFraction_cons, htake, hdrop]
      split_ifs <;> rfl

theorem readExponentSign_append (hrest : Stops rest) (t : Points) :
    readExponentSign (t ++ rest) = ((readExponentSign t).1, (readExponentSign t).2 ++ rest) := by
  cases t with
  | nil =>
      cases rest with
      | nil => rfl
      | cons c rest =>
          have hc := hrest c rfl
          simp only [isNumberChar, Bool.or_eq_false_iff, decide_eq_false_iff_not] at hc
          exact if_neg fun h => h.elim hc.1.1.1.1.2 hc.1.1.1.2
  | cons c t =>
      rw [List.cons_append, readExponentSign_cons, readExponentSign_cons]
      split_ifs <;> rfl

theorem readExponent_append (hrest : Stops rest) (t : Points) :
    readExponent (t ++ rest) = ((readExponent t).1, (readExponent t).2 ++ rest) := by
  cases t with
  | nil =>
      cases rest with
      | nil => rfl
      | cons c rest =>
          have hc := hrest c rfl
          simp only [isNumberChar, Bool.or_eq_false_iff, decide_eq_false_iff_not] at hc
          exact if_neg fun h => h.1.elim hc.1.2 hc.2
  | cons c t =>
      obtain ⟨htake, hdrop⟩ :=
        @takeWhile_append_stop _ isDigit (readExponentSign t).2 rest hrest.digit
      rw [List.cons_append, readExponent_cons, readExponent_cons, readExponentSign_append hrest]
      dsimp only
      rw [htake, hdrop]
      split_ifs <;> rfl

variable {floatRepr : Points → String}

/-- A number that was read is read again, with more behind it. -/
theorem readNumber_append (hrest : Stops rest) {t t' : Points} {v : PyJson}
    (h : readNumber floatRepr t = some (v, t')) :
    readNumber floatRepr (t ++ rest) = some (v, t' ++ rest) := by
  have hne : t ≠ [] := by
    rintro rfl
    cases h
  unfold readNumber at h ⊢
  rw [readSign_append hne]
  dsimp only at h ⊢
  obtain ⟨⟨digits, t₁⟩, hinteger, hvalue⟩ := Option.bind_eq_some_iff.mp h
  rw [readInteger_append hrest hinteger, Option.bind_some]
  dsimp only at hvalue ⊢
  rw [readFraction_append hrest, readExponent_append hrest]
  dsimp only
  split_ifs at hvalue ⊢
  · cases hvalue
    rfl
  · cases hvalue
    rfl
  · cases hvalue
    rfl

end

theorem mem_digitsOf {n d : ℕ} (h : d ∈ digitsOf n) : d < 10 := by
  unfold digitsOf at h
  split_ifs at h
  · rw [List.mem_singleton.mp h]
    decide
  · exact Nat.digits_lt_base (by decide) (List.mem_reverse.mp h)

theorem valueOf_decimal (n : ℕ) : valueOf (decimal n) = n := by
  have hfold : ∀ (ds : List ℕ), (∀ d ∈ ds, d < 10) → ∀ start : ℕ,
      (ds.map fun d => Fin.ofNat 0x110000 (0x30 + d)).foldl (fun n c => n * 10 + (c.val - 0x30)) start =
        ds.foldl (fun n d => n * 10 + d) start := by
    intro ds
    induction ds with
    | nil => intros; rfl
    | cons d ds ih =>
        intro hds start
        obtain ⟨hd, hrest⟩ := List.forall_mem_cons.mp hds
        rw [List.map_cons, List.foldl_cons, List.foldl_cons, ih hrest, val_ofNat (by omega),
          Nat.add_sub_cancel_left]
  unfold valueOf decimal
  rw [hfold _ (fun d hd => mem_digitsOf hd)]
  unfold digitsOf
  split_ifs with hzero
  · rw [hzero]
    rfl
  · rw [List.foldl_reverse]
    have hdigits := Nat.ofDigits_digits 10 n
    rw [Nat.ofDigits_eq_foldr] at hdigits
    have hstep : (fun (d n : ℕ) => n * 10 + d) = fun d n => (d : ℕ) + 10 * n := by
      funext d n
      omega
    rw [hstep]
    simpa using hdigits

theorem isDigit_of_mem_decimal {n : ℕ} {c : CodePoint} (h : c ∈ decimal n) : isDigit c = true := by
  obtain ⟨d, hd, rfl⟩ := List.mem_map.mp h
  have hlt := mem_digitsOf hd
  unfold isDigit
  rw [val_ofNat (by omega), Bool.and_eq_true, decide_eq_true_eq, decide_eq_true_eq]
  omega

/-- A numeral has no leading zero. -/
theorem decimal_eq_cons (n : ℕ) : ∃ c t, decimal n = c :: t ∧ (c = 0x30 → t = []) := by
  unfold decimal digitsOf
  split_ifs with hzero
  · exact ⟨0x30, [], rfl, fun _ => rfl⟩
  · have hne : Nat.digits 10 n ≠ [] := Nat.digits_ne_nil_iff_ne_zero.mpr hzero
    have hlast := Nat.getLast_digit_ne_zero 10 hzero
    have hlt : (Nat.digits 10 n).getLast hne < 10 :=
      Nat.digits_lt_base (by decide) (List.getLast_mem hne)
    obtain ⟨front, hfront⟩ : ∃ front, Nat.digits 10 n = front ++ [(Nat.digits 10 n).getLast hne] :=
      ⟨_, (List.dropLast_append_getLast hne).symm⟩
    rw [hfront, List.reverse_append, List.reverse_singleton, List.singleton_append, List.map_cons]
    refine ⟨_, _, rfl, fun hc => ?_⟩
    have hval := congrArg Fin.val hc
    rw [val_ofNat (by omega)] at hval
    exact absurd (Nat.add_left_cancel hval) hlast

theorem readInteger_decimal (n : ℕ) : readInteger (decimal n) = some (decimal n, []) := by
  obtain ⟨c, t, hdecimal, hzero⟩ := decimal_eq_cons n
  have hdigits : ∀ d ∈ c :: t, isDigit d = true := fun d hd =>
    isDigit_of_mem_decimal (hdecimal ▸ hd)
  obtain ⟨hc, ht⟩ := List.forall_mem_cons.mp hdigits
  rw [hdecimal, readInteger_cons]
  split_ifs with heq
  · rw [hzero heq]
  · rw [List.takeWhile_eq_self_iff.mpr ht, List.dropWhile_eq_nil_iff.mpr ht]

theorem readNumber_intText (floatRepr : Points → String) {n : ℤ}
    (h : (decimal n.natAbs).length ≤ maxStrDigits) :
    readNumber floatRepr (intText n) = some (.int n, []) := by
  obtain ⟨c, t, hdecimal, -⟩ := decimal_eq_cons n.natAbs
  have hc : isDigit c = true := isDigit_of_mem_decimal (hdecimal ▸ List.mem_cons_self)
  have hminus : c ≠ 0x2D := by
    rintro rfl
    exact absurd hc (by decide)
  have hshort : ¬ maxStrDigits < (decimal n.natAbs).length := Nat.not_lt.mpr h
  unfold readNumber intText
  split_ifs with hneg
  · rw [readSign_cons, if_pos rfl]
    dsimp only
    rw [readInteger_decimal, Option.bind_some]
    dsimp only
    rw [if_pos ⟨rfl, rfl⟩, if_neg hshort, if_neg (List.cons_ne_nil _ _), valueOf_decimal]
    congr 3
    omega
  · have hsign : readSign (decimal n.natAbs) = ([], decimal n.natAbs) := by
      rw [hdecimal, readSign_cons, if_neg hminus]
    rw [hsign]
    dsimp only
    rw [readInteger_decimal, Option.bind_some]
    dsimp only
    rw [if_pos ⟨rfl, rfl⟩, if_neg hshort, if_pos rfl, valueOf_decimal]
    congr 3
    omega

/-- A number's text begins with its sign or a digit, and has only a number's characters. -/
theorem head_of_readNumber {floatRepr : Points → String} {c : CodePoint} {t t' : Points}
    {v : PyJson} (h : readNumber floatRepr (c :: t) = some (v, t')) :
    c = 0x2D ∨ isDigit c = true := by
  by_contra hc
  rw [not_or] at hc
  unfold readNumber at h
  rw [readSign_cons, if_neg hc.1] at h
  dsimp only at h
  have hzero : c ≠ 0x30 := by
    rintro rfl
    exact absurd rfl hc.2
  rw [readInteger_cons, if_neg hzero, if_neg hc.2] at h
  cases h

/-! ## Values -/

section
variable (floatRepr : Points → String)

mutual
/-- The values that are written and read back: no two surrogates of a string stand for one
character, the keys of an object are distinct, an integer has no more digits than are
converted, and a float's text is one that `float` gives back. -/
def Writable : PyJson → Prop
  | .none | .bool _ => True
  | .int n => (decimal n.natAbs).length ≤ maxStrDigits
  | .float r => r = "nan" ∨ r = "inf" ∨ r = "-inf" ∨
      readNumber floatRepr (chars r) = some (.float r, [])
  | .str s => Unpaired s.points
  | .list items => ItemsWritable items
  | .dict members => (members.map Prod.fst).Nodup ∧ MembersWritable members

def ItemsWritable : List PyJson → Prop
  | [] => True
  | item :: items => Writable item ∧ ItemsWritable items

def MembersWritable : List (PyString × PyJson) → Prop
  | [] => True
  | (key, v) :: members => Unpaired key.points ∧ Writable v ∧ MembersWritable members
end

end

/-! ### Blanks -/

def Blank (t : Points) : Prop := ∀ c ∈ t, isWhitespace c = true

theorem skip_blank {blank : Points} (h : Blank blank) (t : Points) :
    skip (blank ++ t) = skip t := by
  induction blank with
  | nil => rfl
  | cons c blank ih =>
      obtain ⟨hc, hrest⟩ := List.forall_mem_cons.mp h
      unfold skip at ih ⊢
      rw [List.cons_append, List.dropWhile_cons_of_pos hc, ih hrest]

theorem skip_cons {c : CodePoint} (h : isWhitespace c = false) (t : Points) :
    skip (c :: t) = c :: t := List.dropWhile_cons_of_neg (by rw [h]; decide)

theorem skip_blank_cons {blank : Points} (h : Blank blank) {c : CodePoint}
    (hc : isWhitespace c = false) (t : Points) : skip (blank ++ c :: t) = c :: t := by
  rw [skip_blank h, skip_cons hc]

theorem stops_blank {blank : Points} (h : Blank blank) {c : CodePoint}
    (hc : isNumberChar c = false) (t : Points) : Stops (blank ++ c :: t) := by
  intro d hd
  cases blank with
  | nil =>
      cases hd
      exact hc
  | cons e blank =>
      cases hd
      have he := h d List.mem_cons_self
      simp only [isWhitespace, Bool.or_eq_true, decide_eq_true_eq] at he
      rcases he with ((rfl | rfl) | rfl) | rfl <;> decide

theorem stops_nil : Stops [] := by
  intro c hc
  cases hc

/-! ### Constants -/

section
variable {floatRepr : Points → String}

theorem readValue_constant {word : String} {v : PyJson} (h : (word, v) ∈ constants) (fuel : ℕ)
    (rest : Points) : readValue floatRepr (fuel + 1) (chars word ++ rest) = some (v, rest) := by
  simp only [constants, List.mem_cons, Prod.mk.injEq, List.not_mem_nil, or_false] at h
  rcases h with ⟨rfl, rfl⟩ | ⟨rfl, rfl⟩ | ⟨rfl, rfl⟩ | ⟨rfl, rfl⟩ | ⟨rfl, rfl⟩ | ⟨rfl, rfl⟩ <;> rfl

theorem readValue_number {fuel : ℕ} {t rest : Points} {v : PyJson} (hrest : Stops rest)
    (h : readNumber floatRepr t = some (v, [])) :
    readValue floatRepr (fuel + 1) (t ++ rest) = some (v, rest) := by
  cases t with
  | nil => cases h
  | cons c t =>
      have hread := readNumber_append hrest h
      rw [List.cons_append] at hread ⊢
      have hhead : c ≠ 0x22 ∧ c ≠ 0x5B ∧ c ≠ 0x7B := by
        rcases head_of_readNumber h with rfl | hdigit
        · decide
        · refine ⟨?_, ?_, ?_⟩ <;> rintro rfl <;> exact absurd hdigit (by decide)
      unfold readValue
      rw [if_neg hhead.1, if_neg hhead.2.1, if_neg hhead.2.2, hread]
      rfl

theorem opening_of_digit {c : CodePoint} (h : isDigit c = true) :
    isWhitespace c = false ∧ c ≠ 0x5D := by
  constructor
  · apply Bool.eq_false_iff.mpr
    intro hblank
    simp only [isWhitespace, Bool.or_eq_true, decide_eq_true_eq] at hblank
    rcases hblank with ((rfl | rfl) | rfl) | rfl <;> exact absurd h (by decide)
  · rintro rfl
    exact absurd h (by decide)

theorem head_textAt (layout : Layout) {v : PyJson} (hv : Writable floatRepr v) (level : ℕ) :
    ∃ c t, textAt layout level v = c :: t ∧ isWhitespace c = false ∧ c ≠ 0x5D := by
  cases v with
  | none => exact ⟨_, _, rfl, by decide, by decide⟩
  | bool b => cases b <;> exact ⟨_, _, rfl, by decide, by decide⟩
  | int n =>
      obtain ⟨c, t, hdecimal, -⟩ := decimal_eq_cons n.natAbs
      have hc : isDigit c = true := isDigit_of_mem_decimal (hdecimal ▸ List.mem_cons_self)
      unfold textAt intText
      split_ifs
      · exact ⟨_, _, rfl, by decide, by decide⟩
      · exact ⟨c, t, hdecimal, opening_of_digit hc⟩
  | float r =>
      rcases hv with rfl | rfl | rfl | hread
      · exact ⟨_, _, rfl, by decide, by decide⟩
      · exact ⟨_, _, rfl, by decide, by decide⟩
      · exact ⟨_, _, rfl, by decide, by decide⟩
      · unfold textAt floatText
        split_ifs
        · exact ⟨_, _, rfl, by decide, by decide⟩
        · exact ⟨_, _, rfl, by decide, by decide⟩
        · exact ⟨_, _, rfl, by decide, by decide⟩
        · cases hchars : chars r with
          | nil =>
              rw [hchars] at hread
              cases hread
          | cons c t =>
              rw [hchars] at hread
              refine ⟨c, t, rfl, ?_⟩
              rcases head_of_readNumber hread with rfl | hdigit
              · decide
              · exact opening_of_digit hdigit
  | str s => exact ⟨_, _, rfl, by decide, by decide⟩
  | list items => cases items <;> exact ⟨_, _, rfl, by decide, by decide⟩
  | dict members => cases members <;> exact ⟨_, _, rfl, by decide, by decide⟩

/-! ### Lists and objects -/

theorem setIn_of_notMem {κ ν : Type*} [DecidableEq κ] {k : κ} {v : ν} {es : List (κ × ν)}
    (h : k ∉ es.map Prod.fst) : InsertionMap.setIn k v es = es ++ [(k, v)] := by
  induction es with
  | nil => rfl
  | cons e es ih =>
      rw [List.map_cons, List.mem_cons, not_or] at h
      unfold InsertionMap.setIn
      rw [if_neg (fun heq => h.1 heq.symm), ih h.2, List.cons_append]

theorem dictOf_of_nodup {pairs : List (PyString × PyJson)} (h : (pairs.map Prod.fst).Nodup) :
    dictOf pairs = pairs := by
  have hfold : ∀ (rest seen : List (PyString × PyJson)), ((seen ++ rest).map Prod.fst).Nodup →
      rest.foldl (fun d pair => InsertionMap.setIn pair.1 pair.2 d) seen = seen ++ rest := by
    intro rest
    induction rest with
    | nil =>
        intro seen _
        exact (List.append_nil seen).symm
    | cons pair rest ih =>
        intro seen hnodup
        have hfresh : pair.1 ∉ seen.map Prod.fst := by
          rw [List.map_append, List.nodup_append] at hnodup
          intro hmem
          exact hnodup.2.2 _ hmem _ List.mem_cons_self rfl
        rw [List.foldl_cons, setIn_of_notMem hfresh, ih _ (by simpa using hnodup)]
        simp
  exact hfold pairs [] h

theorem readItems_succ (fuel : ℕ) (t : Points) : readItems floatRepr (fuel + 1) t =
    (readValue floatRepr fuel t).bind fun (v, t) =>
      if (skip t).head? = some 0x5D then some ([v], (skip t).tail)
      else if (skip t).head? = some 0x2C then
        (readItems floatRepr fuel (skip (skip t).tail)).map fun (items, t) => (v :: items, t)
      else none := by
  rw [readItems]

theorem readMembers_succ (fuel : ℕ) (t : Points) : readMembers floatRepr (fuel + 1) (0x22 :: t) =
    (readChars fuel t).bind fun (key, t) =>
      if (skip t).head? = some 0x3A then
        (readValue floatRepr fuel (skip (skip t).tail)).bind fun (v, t) =>
          if (skip t).head? = some 0x7D then some ([(⟨key⟩, v)], (skip t).tail)
          else if (skip t).head? = some 0x2C then
            (readMembers floatRepr fuel (skip (skip t).tail)).map fun (pairs, t) =>
              ((⟨key⟩, v) :: pairs, t)
          else none
      else none := by
  rw [readMembers]
  rfl

theorem readValue_float {r : String} (h : Writable floatRepr (.float r)) (fuel : ℕ) {rest : Points}
    (hrest : Stops rest) :
    readValue floatRepr (fuel + 1) (floatText r ++ rest) = some (.float r, rest) := by
  unfold floatText
  split_ifs with hnan hinf hneg
  · rw [hnan]
    exact readValue_constant (by simp [constants]) fuel rest
  · rw [hinf]
    exact readValue_constant (by simp [constants]) fuel rest
  · rw [hneg]
    exact readValue_constant (by simp [constants]) fuel rest
  · rcases h with h | h | h | h
    · exact absurd h hnan
    · exact absurd h hinf
    · exact absurd h hneg
    · exact readValue_number hrest h

variable {layout : Layout}

theorem length_quoted (s : PyString) : s.points.length + 2 ≤ (quoted s).length := by
  have := length_le_flatMap_escape s.points
  unfold quoted
  rw [List.length_cons, List.length_append, List.length_singleton]
  omega

theorem readValue_list (fuel : ℕ) (t : Points) : readValue floatRepr (fuel + 1) (0x5B :: t) =
    if (skip t).head? = some 0x5D then some (.list [], (skip t).tail)
    else (readItems floatRepr fuel (skip t)).map fun (items, t) => (.list items, t) := rfl

theorem readValue_dict (fuel : ℕ) (t : Points) : readValue floatRepr (fuel + 1) (0x7B :: t) =
    if (skip t).head? = some 0x7D then some (.dict [], (skip t).tail)
    else (readMembers floatRepr fuel (skip t)).map fun (pairs, t) => (.dict (dictOf pairs), t) := rfl

theorem skip_textAt {v : PyJson} (hv : Writable floatRepr v) {level : ℕ} {blank : Points}
    (h : Blank blank) (t : Points) :
    skip (blank ++ (textAt layout level v ++ t)) = textAt layout level v ++ t ∧
      (textAt layout level v ++ t).head? ≠ some 0x5D := by
  obtain ⟨c, s, htext, hblank, hclose⟩ := head_textAt layout hv level
  rw [htext, List.cons_append, skip_blank_cons h hblank]
  exact ⟨rfl, fun heq => hclose (Option.some.inj heq)⟩

/-- What follows an item: the next one, or the end. -/
def afterItem (layout : Layout) (level : ℕ) (items : List PyJson) (t : Points) : Points :=
  if items.isEmpty then t else 0x2C :: (itemsAt layout level items ++ t)

theorem itemsAt_cons (level : ℕ) (item : PyJson) (items : List PyJson) (t : Points) :
    itemsAt layout level (item :: items) ++ t =
      layout.newline level ++ (textAt layout level item ++ afterItem layout level items t) := by
  cases items with
  | nil => simp [itemsAt, afterItem]
  | cons next items => simp [itemsAt, afterItem]

/-- What follows a member: the next one, or the end. -/
def afterMember (layout : Layout) (level : ℕ) (members : List (PyString × PyJson)) (t : Points) :
    Points :=
  if members.isEmpty then t else 0x2C :: (membersAt layout level members ++ t)

theorem membersAt_cons (level : ℕ) (key : PyString) (v : PyJson)
    (members : List (PyString × PyJson)) (t : Points) :
    membersAt layout level ((key, v) :: members) ++ t =
      layout.newline level ++ (0x22 :: (key.points.flatMap escape ++ (0x22 :: 0x3A ::
        (layout.space ++ (textAt layout level v ++ afterMember layout level members t))))) := by
  cases members with
  | nil => simp [membersAt, afterMember, quoted]
  | cons next members => simp [membersAt, afterMember, quoted]

theorem length_itemsAt_cons (level : ℕ) (item : PyJson) (items : List PyJson) :
    (textAt layout level item).length ≤ (itemsAt layout level (item :: items)).length ∧
      (items ≠ [] → (itemsAt layout level items).length <
        (itemsAt layout level (item :: items)).length) := by
  have h := congrArg List.length (@itemsAt_cons layout level item items [])
  unfold afterItem at h
  cases items with
  | nil =>
      simp only [List.length_append, List.isEmpty_nil, if_true, List.length_nil] at h
      exact ⟨by omega, fun hne => absurd rfl hne⟩
  | cons next items =>
      simp only [List.length_append, List.isEmpty_cons, Bool.false_eq_true, if_false,
        List.length_cons, List.length_nil] at h
      exact ⟨by omega, fun _ => by omega⟩

theorem length_membersAt_cons (level : ℕ) (key : PyString) (v : PyJson)
    (members : List (PyString × PyJson)) :
    key.points.length < (membersAt layout level ((key, v) :: members)).length ∧
    (textAt layout level v).length < (membersAt layout level ((key, v) :: members)).length ∧
      (members ≠ [] → (membersAt layout level members).length <
        (membersAt layout level ((key, v) :: members)).length) := by
  have h := congrArg List.length (@membersAt_cons layout level key v members [])
  have hkey := length_le_flatMap_escape key.points
  unfold afterMember at h
  cases members with
  | nil =>
      simp only [List.length_append, List.isEmpty_nil, if_true, List.length_cons,
        List.length_nil] at h
      exact ⟨by omega, by omega, fun hne => absurd rfl hne⟩
  | cons next members =>
      simp only [List.length_append, List.isEmpty_cons, Bool.false_eq_true, if_false,
        List.length_cons, List.length_nil] at h
      exact ⟨by omega, by omega, fun _ => by omega⟩

mutual
/-- What is written is read back, whatever follows it that ends a number. -/
theorem readValue_textAt : (v : PyJson) → Writable floatRepr v → ∀ {level fuel : ℕ} {rest : Points},
    Stops rest → (textAt layout level v).length < fuel →
    readValue floatRepr fuel (textAt layout level v ++ rest) = some (v, rest)
  | _, _, _, 0, _, _, hfuel => absurd hfuel (Nat.not_lt_zero _)
  | .none, _, _, fuel + 1, rest, _, _ =>
      @readValue_constant _ "null" .none (by simp [constants]) fuel rest
  | .bool true, _, _, fuel + 1, rest, _, _ =>
      @readValue_constant _ "true" (.bool true) (by simp [constants]) fuel rest
  | .bool false, _, _, fuel + 1, rest, _, _ =>
      @readValue_constant _ "false" (.bool false) (by simp [constants]) fuel rest
  | .int n, hv, _, fuel + 1, rest, hrest, _ => readValue_number hrest (readNumber_intText _ hv)
  | .float r, hv, _, fuel + 1, rest, hrest, _ => readValue_float hv fuel hrest
  | .str s, hv, _, fuel + 1, rest, _, hfuel => by
      have hlength := length_quoted s
      show (readChars fuel ((s.points.flatMap escape ++ [0x22]) ++ rest)).map _ = _
      rw [List.append_assoc, List.singleton_append, readChars_quoted hv]
      · rfl
      · unfold textAt at hfuel
        omega
  | .list [], _, _, fuel + 1, rest, _, _ => rfl
  | .list (item :: items), hv, level, fuel + 1, rest, _, hfuel => by
      have hread : readItems floatRepr fuel (skip (itemsAt layout (level + 1) (item :: items) ++
          (layout.newline level ++ 0x5D :: rest))) = some (item :: items, rest) := by
        apply readItems_itemsAt (item :: items) (List.cons_ne_nil _ _) hv (layout.newline_blank level)
        simp only [textAt, List.length_cons, List.length_append, List.length_nil] at hfuel
        omega
      obtain ⟨hskip, hclose⟩ := @skip_textAt _ layout _ hv.1 (level + 1) _
        (layout.newline_blank (level + 1)) (afterItem layout (level + 1) items
          (layout.newline level ++ 0x5D :: rest))
      have htext : textAt layout level (.list (item :: items)) ++ rest =
          0x5B :: (itemsAt layout (level + 1) (item :: items) ++
            (layout.newline level ++ 0x5D :: rest)) := by
        simp [textAt]
      rw [htext, readValue_list, hread, itemsAt_cons, hskip, if_neg hclose]
      rfl
  | .dict [], _, _, fuel + 1, rest, _, _ => rfl
  | .dict ((key, v) :: members), hv, level, fuel + 1, rest, _, hfuel => by
      have hread : readMembers floatRepr fuel (skip (membersAt layout (level + 1)
          ((key, v) :: members) ++ (layout.newline level ++ 0x7D :: rest))) =
            some ((key, v) :: members, rest) := by
        apply readMembers_membersAt ((key, v) :: members) (List.cons_ne_nil _ _) hv.2
          (layout.newline_blank level)
        simp only [textAt, List.length_cons, List.length_append, List.length_nil] at hfuel
        omega
      have htext : textAt layout level (.dict ((key, v) :: members)) ++ rest =
          0x7B :: (membersAt layout (level + 1) ((key, v) :: members) ++
            (layout.newline level ++ 0x7D :: rest)) := by
        simp [textAt]
      rw [htext, readValue_dict, hread, membersAt_cons,
        skip_blank_cons (layout.newline_blank (level + 1)) (by decide), if_neg (by simp)]
      rw [Option.map_some]
      dsimp only
      rw [dictOf_of_nodup hv.1]

theorem readItems_itemsAt : (items : List PyJson) → items ≠ [] → ItemsWritable floatRepr items →
    ∀ {level fuel : ℕ} {blank rest : Points}, Blank blank →
    (itemsAt layout level items).length + 1 < fuel →
    readItems floatRepr fuel (skip (itemsAt layout level items ++ (blank ++ 0x5D :: rest))) =
      some (items, rest)
  | [], hne, _, _, _, _, _, _, _ => absurd rfl hne
  | _ :: _, _, _, _, 0, _, _, _, hfuel => absurd hfuel (Nat.not_lt_zero _)
  | item :: items, _, hv, level, fuel + 1, blank, rest, hblank, hfuel => by
      obtain ⟨hitem, hitems⟩ := @length_itemsAt_cons layout level item items
      have hvalue : ∀ t, Stops t → readValue floatRepr fuel (textAt layout level item ++ t) =
          some (item, t) := fun t ht => readValue_textAt item hv.1 ht (by omega)
      rw [itemsAt_cons, (skip_textAt hv.1 (layout.newline_blank level) _).1, readItems_succ]
      cases items with
      | nil =>
          show (readValue floatRepr fuel (textAt layout level item ++ (blank ++ 0x5D :: rest))).bind _ = _
          rw [hvalue _ (stops_blank hblank (by decide) rest), Option.bind_some]
          dsimp only
          rw [skip_blank_cons hblank (by decide), List.head?_cons, if_pos rfl, List.tail_cons]
      | cons next items =>
          have hnext := hitems (List.cons_ne_nil _ _)
          show (readValue floatRepr fuel (textAt layout level item ++ 0x2C ::
            (itemsAt layout level (next :: items) ++ (blank ++ 0x5D :: rest)))).bind _ = _
          have hstops : Stops (0x2C :: (itemsAt layout level (next :: items) ++
              (blank ++ 0x5D :: rest))) := by
            intro c hc
            cases hc
            decide
          have hread : readItems floatRepr fuel (skip (itemsAt layout level (next :: items) ++
              (blank ++ 0x5D :: rest))) = some (next :: items, rest) :=
            readItems_itemsAt (next :: items) (List.cons_ne_nil _ _) hv.2 hblank (by omega)
          rw [hvalue _ hstops, Option.bind_some]
          dsimp only
          rw [skip_cons (by decide), List.head?_cons, if_neg (by decide), if_pos rfl,
            List.tail_cons, hread]
          rfl

theorem readMembers_membersAt : (members : List (PyString × PyJson)) → members ≠ [] →
    MembersWritable floatRepr members → ∀ {level fuel : ℕ} {blank rest : Points}, Blank blank →
    (membersAt layout level members).length + 1 < fuel →
    readMembers floatRepr fuel (skip (membersAt layout level members ++ (blank ++ 0x7D :: rest))) =
      some (members, rest)
  | [], hne, _, _, _, _, _, _, _ => absurd rfl hne
  | _ :: _, _, _, _, 0, _, _, _, hfuel => absurd hfuel (Nat.not_lt_zero _)
  | (key, v) :: members, _, hv, level, fuel + 1, blank, rest, hblank, hfuel => by
      obtain ⟨hkey, hlength, hmembers⟩ := @length_membersAt_cons layout level key v members
      have hvalue : ∀ t, Stops t → readValue floatRepr fuel (textAt layout level v ++ t) =
          some (v, t) := fun t ht => readValue_textAt v hv.2.1 ht (by omega)
      rw [membersAt_cons, skip_blank_cons (layout.newline_blank level) (by decide),
        readMembers_succ, readChars_quoted hv.1 (by omega), Option.bind_some]
      dsimp only
      rw [skip_cons (by decide), List.head?_cons, if_pos rfl, List.tail_cons,
        (skip_textAt hv.2.1 layout.space_blank _).1]
      cases members with
      | nil =>
          show (readValue floatRepr fuel (textAt layout level v ++ (blank ++ 0x7D :: rest))).bind _ = _
          rw [hvalue _ (stops_blank hblank (by decide) rest), Option.bind_some]
          dsimp only
          rw [skip_blank_cons hblank (by decide), List.head?_cons, if_pos rfl, List.tail_cons]
      | cons next members =>
          have hnext := hmembers (List.cons_ne_nil _ _)
          show (readValue floatRepr fuel (textAt layout level v ++ 0x2C ::
            (membersAt layout level (next :: members) ++ (blank ++ 0x7D :: rest)))).bind _ = _
          have hstops : Stops (0x2C :: (membersAt layout level (next :: members) ++
              (blank ++ 0x7D :: rest))) := by
            intro c hc
            cases hc
            decide
          have hread : readMembers floatRepr fuel (skip (membersAt layout level (next :: members) ++
              (blank ++ 0x7D :: rest))) = some (next :: members, rest) :=
            readMembers_membersAt (next :: members) (List.cons_ne_nil _ _) hv.2.2 hblank (by omega)
          rw [hvalue _ hstops, Option.bind_some]
          dsimp only
          rw [skip_cons (by decide), List.head?_cons, if_neg (by decide), if_pos rfl,
            List.tail_cons, hread]
          rfl
end

end

/-! ## The characters of a text -/

def Printable (c : CodePoint) : Prop := 0x20 ≤ c.val ∧ c.val ≤ 0x7E

theorem printable_of_numberChar {c : CodePoint} (h : isNumberChar c = true) : Printable c := by
  simp only [isNumberChar, isDigit, Bool.or_eq_true, Bool.and_eq_true, decide_eq_true_eq] at h
  rcases h with ((((hdigit | rfl) | rfl) | rfl) | rfl) | rfl
  · exact ⟨by omega, by omega⟩
  all_goals exact ⟨by decide, by decide⟩

theorem numberChar_of_digits {t : Points} : ∀ c ∈ t.takeWhile isDigit, isNumberChar c = true := by
  intro c hc
  have hdigit := List.mem_takeWhile_imp hc
  unfold isNumberChar
  rw [hdigit]
  rfl

/-- A part that was read off a text, with only characters of a number. -/
def ReadOff (t : Points) (r : Points × Points) : Prop :=
  t = r.1 ++ r.2 ∧ ∀ c ∈ r.1, isNumberChar c = true

theorem readOff_sign (t : Points) : ReadOff t (readSign t) := by
  cases t with
  | nil => exact ⟨rfl, List.forall_mem_nil _⟩
  | cons c t =>
      rw [readSign_cons]
      split_ifs with hminus
      · exact ⟨rfl, fun d hd => by rw [List.mem_singleton.mp hd, hminus]; decide⟩
      · exact ⟨rfl, List.forall_mem_nil _⟩

theorem readOff_integer {t : Points} {r : Points × Points} (h : readInteger t = some r) :
    ReadOff t r := by
  cases t with
  | nil => cases h
  | cons c t =>
      rw [readInteger_cons] at h
      split_ifs at h with hzero hdigit
      · cases h
        exact ⟨rfl, fun d hd => by rw [List.mem_singleton.mp hd, hzero]; decide⟩
      · cases h
        refine ⟨by rw [List.cons_append, List.takeWhile_append_dropWhile], fun d hd => ?_⟩
        rcases List.mem_cons.mp hd with rfl | hd
        · unfold isNumberChar
          rw [hdigit]
          rfl
        · exact numberChar_of_digits d hd

theorem readOff_fraction (t : Points) : ReadOff t (readFraction t) := by
  cases t with
  | nil => exact ⟨rfl, List.forall_mem_nil _⟩
  | cons c t =>
      rw [readFraction_cons]
      split_ifs with hpoint
      · refine ⟨by rw [List.cons_append, List.takeWhile_append_dropWhile], fun d hd => ?_⟩
        rcases List.mem_cons.mp hd with rfl | hd
        · rw [hpoint.1]
          decide
        · exact numberChar_of_digits d hd
      · exact ⟨rfl, List.forall_mem_nil _⟩

theorem readOff_exponentSign (t : Points) : ReadOff t (readExponentSign t) := by
  cases t with
  | nil => exact ⟨rfl, List.forall_mem_nil _⟩
  | cons c t =>
      rw [readExponentSign_cons]
      split_ifs with hsign
      · refine ⟨rfl, fun d hd => ?_⟩
        rw [List.mem_singleton.mp hd]
        rcases hsign with rfl | rfl <;> decide
      · exact ⟨rfl, List.forall_mem_nil _⟩

theorem readOff_exponent (t : Points) : ReadOff t (readExponent t) := by
  cases t with
  | nil => exact ⟨rfl, List.forall_mem_nil _⟩
  | cons c t =>
      obtain ⟨hsplit, hsign⟩ := readOff_exponentSign t
      rw [readExponent_cons]
      split_ifs with hletter
      · constructor
        · rw [List.cons_append, List.append_assoc, List.takeWhile_append_dropWhile, ← hsplit]
        · intro d hd
          rcases List.mem_cons.mp hd with rfl | hd
          · rcases hletter.1 with rfl | rfl <;> decide
          · rcases List.mem_append.mp hd with hd | hd
            · exact hsign d hd
            · exact numberChar_of_digits d hd
      · exact ⟨rfl, List.forall_mem_nil _⟩

theorem numberChar_of_readNumber {floatRepr : Points → String} {t : Points} {v : PyJson}
    (h : readNumber floatRepr t = some (v, [])) : ∀ c ∈ t, isNumberChar c = true := by
  unfold readNumber at h
  dsimp only at h
  obtain ⟨⟨digits, t₁⟩, hinteger, hvalue⟩ := Option.bind_eq_some_iff.mp h
  obtain ⟨hsign, hsignChars⟩ := readOff_sign t
  obtain ⟨hdigits, hdigitChars⟩ := readOff_integer hinteger
  obtain ⟨hfraction, hfractionChars⟩ := readOff_fraction t₁
  obtain ⟨hexponent, hexponentChars⟩ := readOff_exponent (readFraction t₁).2
  have hend : (readExponent (readFraction t₁).2).2 = [] := by
    dsimp only at hvalue
    split_ifs at hvalue <;> exact congrArg Prod.snd (Option.some.inj hvalue)
  rw [hend, List.append_nil] at hexponent
  intro c hc
  rw [hsign, hdigits] at hc
  dsimp only at hc
  rw [hfraction, hexponent] at hc
  simp only [List.mem_append] at hc
  rcases hc with hc | hc | hc | hc
  · exact hsignChars c hc
  · exact hdigitChars c hc
  · exact hfractionChars c hc
  · exact hexponentChars c hc

theorem printable_hexDigit {n : ℕ} (h : n < 16) : Printable (hexDigit n) := by
  unfold Printable hexDigit
  split_ifs <;> rw [val_ofNat (by omega)] <;> omega

theorem printable_unicodeEscape (n : ℕ) : ∀ c ∈ unicodeEscape n, Printable c := by
  intro c hc
  simp only [unicodeEscape, List.mem_cons, List.not_mem_nil, or_false] at hc
  rcases hc with rfl | rfl | rfl | rfl | rfl | rfl
  · exact ⟨by decide, by decide⟩
  · exact ⟨by decide, by decide⟩
  all_goals exact printable_hexDigit (Nat.mod_lt _ (by decide))

theorem printable_escape (d : CodePoint) : ∀ c ∈ escape d, Printable c := by
  intro c hc
  rcases escape_cases d with ⟨e, hplain, -, -, heq⟩ | ⟨-, -, hplain, heq⟩ | ⟨-, heq⟩ | ⟨-, heq⟩ <;>
    rw [heq] at hc
  · rcases List.mem_cons.mp hc with rfl | hc
    · exact ⟨by decide, by decide⟩
    · rw [List.mem_singleton.mp hc]
      exact hplain
  · rw [List.mem_singleton.mp hc]
    exact hplain
  · exact printable_unicodeEscape _ c hc
  · rcases List.mem_append.mp hc with hc | hc
    · exact printable_unicodeEscape _ c hc
    · exact printable_unicodeEscape _ c hc

theorem printable_quoted (s : PyString) : ∀ c ∈ quoted s, Printable c := by
  intro c hc
  unfold quoted at hc
  rcases List.mem_cons.mp hc with rfl | hc
  · exact ⟨by decide, by decide⟩
  · rcases List.mem_append.mp hc with hc | hc
    · obtain ⟨d, -, hd⟩ := List.mem_flatMap.mp hc
      exact printable_escape d c hd
    · rw [List.mem_singleton.mp hc]
      exact ⟨by decide, by decide⟩

section
variable {floatRepr : Points → String} {layout : Layout} {P : CodePoint → Prop}

theorem forall_chars {word : String} (h : ∀ c, Printable c → P c)
    (hword : (chars word).all fun c => 0x20 ≤ c.val && c.val ≤ 0x7E) : ∀ c ∈ chars word, P c := by
  intro c hc
  have hprintable := List.all_eq_true.mp hword c hc
  rw [Bool.and_eq_true, decide_eq_true_eq, decide_eq_true_eq] at hprintable
  exact h c hprintable

mutual
/-- A text has only printable ASCII, and what the layout puts between its parts. -/
theorem forall_textAt (h : ∀ c, Printable c → P c) (hline : ∀ level, ∀ c ∈ layout.newline level, P c)
    (hspace : ∀ c ∈ layout.space, P c) : (v : PyJson) → Writable floatRepr v → ∀ level,
    ∀ c ∈ textAt layout level v, P c
  | .none, _, _ => forall_chars h (by decide)
  | .bool true, _, _ => forall_chars h (by decide)
  | .bool false, _, _ => forall_chars h (by decide)
  | .int n, hv, _ => fun c hc =>
      h c (printable_of_numberChar (numberChar_of_readNumber (readNumber_intText floatRepr hv) c hc))
  | .float r, hv, _ => by
      unfold textAt floatText
      split_ifs with hnan hinf hneg
      · exact forall_chars h (by decide)
      · exact forall_chars h (by decide)
      · exact forall_chars h (by decide)
      · rcases hv with hv | hv | hv | hv
        · exact absurd hv hnan
        · exact absurd hv hinf
        · exact absurd hv hneg
        · intro c hc
          exact h c (printable_of_numberChar (numberChar_of_readNumber hv c hc))
  | .str s, _, _ => fun c hc => h c (printable_quoted s c hc)
  | .list [], _, _ => fun c hc => by
      apply h c
      simp only [textAt, List.mem_cons, List.not_mem_nil, or_false] at hc
      rcases hc with rfl | rfl <;> exact ⟨by decide, by decide⟩
  | .list (item :: items), hv, level => fun c hc => by
      simp only [textAt, List.mem_cons, List.mem_append, List.not_mem_nil, or_false] at hc
      rcases hc with rfl | (hc | hc) | rfl
      · exact h _ ⟨by decide, by decide⟩
      · exact forall_itemsAt h hline hspace (item :: items) hv (level + 1) c hc
      · exact hline level c hc
      · exact h _ ⟨by decide, by decide⟩
  | .dict [], _, _ => fun c hc => by
      apply h c
      simp only [textAt, List.mem_cons, List.not_mem_nil, or_false] at hc
      rcases hc with rfl | rfl <;> exact ⟨by decide, by decide⟩
  | .dict (member :: members), hv, level => fun c hc => by
      simp only [textAt, List.mem_cons, List.mem_append, List.not_mem_nil, or_false] at hc
      rcases hc with rfl | (hc | hc) | rfl
      · exact h _ ⟨by decide, by decide⟩
      · exact forall_membersAt h hline hspace (member :: members) hv.2 (level + 1) c hc
      · exact hline level c hc
      · exact h _ ⟨by decide, by decide⟩

theorem forall_itemsAt (h : ∀ c, Printable c → P c)
    (hline : ∀ level, ∀ c ∈ layout.newline level, P c) (hspace : ∀ c ∈ layout.space, P c) :
    (items : List PyJson) → ItemsWritable floatRepr items → ∀ level,
    ∀ c ∈ itemsAt layout level items, P c
  | [], _, _ => List.forall_mem_nil _
  | item :: items, hv, level => fun c hc => by
      rw [← List.append_nil (itemsAt layout level (item :: items)), itemsAt_cons] at hc
      unfold afterItem at hc
      rcases List.mem_append.mp hc with hc | hc
      · exact hline level c hc
      · rcases List.mem_append.mp hc with hc | hc
        · exact forall_textAt h hline hspace item hv.1 level c hc
        · split_ifs at hc
          · cases hc
          · rcases List.mem_cons.mp hc with rfl | hc
            · exact h _ ⟨by decide, by decide⟩
            · rw [List.append_nil] at hc
              exact forall_itemsAt h hline hspace items hv.2 level c hc

theorem forall_membersAt (h : ∀ c, Printable c → P c)
    (hline : ∀ level, ∀ c ∈ layout.newline level, P c) (hspace : ∀ c ∈ layout.space, P c) :
    (members : List (PyString × PyJson)) → MembersWritable floatRepr members → ∀ level,
    ∀ c ∈ membersAt layout level members, P c
  | [], _, _ => List.forall_mem_nil _
  | (key, v) :: members, hv, level => fun c hc => by
      rw [← List.append_nil (membersAt layout level ((key, v) :: members)), membersAt_cons] at hc
      unfold afterMember at hc
      simp only [List.mem_append, List.mem_cons] at hc
      rcases hc with hc | rfl | hc | rfl | rfl | hc | hc | hc
      · exact hline level c hc
      · exact h _ ⟨by decide, by decide⟩
      · exact h c (printable_quoted key c (List.mem_cons_of_mem _ (List.mem_append_left _ hc)))
      · exact h _ ⟨by decide, by decide⟩
      · exact h _ ⟨by decide, by decide⟩
      · exact hspace c hc
      · exact forall_textAt h hline hspace v hv.2.1 level c hc
      · split_ifs at hc
        · cases hc
        · rcases List.mem_cons.mp hc with rfl | hc
          · exact h _ ⟨by decide, by decide⟩
          · rw [List.append_nil] at hc
            exact forall_membersAt h hline hspace members hv.2.2 level c hc
end

theorem ascii_of_blank {c : CodePoint} (h : isWhitespace c = true) : c.val < 0x80 := by
  simp only [isWhitespace, Bool.or_eq_true, decide_eq_true_eq] at h
  rcases h with ((rfl | rfl) | rfl) | rfl <;> decide

theorem ascii_textAt {v : PyJson} (hv : Writable floatRepr v) (level : ℕ) :
    ∀ c ∈ textAt layout level v, c.val < 0x80 :=
  forall_textAt (fun _ h => Nat.lt_of_le_of_lt h.2 (by decide))
    (fun level c hc => ascii_of_blank (layout.newline_blank level c hc))
    (fun c hc => ascii_of_blank (layout.space_blank c hc)) v hv level

theorem printable_compact {v : PyJson} (hv : Writable floatRepr v) (level : ℕ) :
    ∀ c ∈ textAt compact level v, Printable c :=
  forall_textAt (fun _ h => h) (fun _ => List.forall_mem_nil _) (List.forall_mem_nil _) v hv level

mutual
theorem printsIntegers_of_writable : (v : PyJson) → Writable floatRepr v → printsIntegers v = true
  | .none, _ | .bool _, _ | .float _, _ | .str _, _ => rfl
  | .int _, hv => decide_eq_true hv
  | .list items, hv => itemsPrintIntegers_of_writable items hv
  | .dict members, hv => membersPrintIntegers_of_writable members hv.2

theorem itemsPrintIntegers_of_writable : (items : List PyJson) → ItemsWritable floatRepr items →
    itemsPrintIntegers items = true
  | [], _ => rfl
  | item :: items, hv => Bool.and_eq_true_iff.mpr
      ⟨printsIntegers_of_writable item hv.1, itemsPrintIntegers_of_writable items hv.2⟩

theorem membersPrintIntegers_of_writable : (members : List (PyString × PyJson)) →
    MembersWritable floatRepr members → membersPrintIntegers members = true
  | [], _ => rfl
  | (_, v) :: members, hv => Bool.and_eq_true_iff.mpr
      ⟨printsIntegers_of_writable v hv.2.1, membersPrintIntegers_of_writable members hv.2.2⟩
end

theorem dumps_of_writable {v : PyJson} (hv : Writable floatRepr v) :
    dumps layout v = some (textAt layout 0 v) := if_pos (printsIntegers_of_writable v hv)

/-- `loads` gives back what `dumps` wrote. -/
theorem loads_textAt {v : PyJson} (hv : Writable floatRepr v) :
    loads floatRepr (textAt layout 0 v) = some v := by
  obtain ⟨c, t, htext, hblank, -⟩ := head_textAt layout hv 0
  have hread := readValue_textAt v hv stops_nil (Nat.lt_succ_self (textAt layout 0 v).length)
  have hascii : c.val < 0x80 := ascii_textAt hv 0 c (by
    rw [htext]
    exact List.mem_cons_self)
  have hmark : (textAt layout 0 v).head? ≠ some 0xFEFF := by
    rw [htext]
    intro heq
    cases heq
    exact absurd hascii (by decide)
  have hskip : skip (textAt layout 0 v) = textAt layout 0 v := by rw [htext, skip_cons hblank]
  unfold loads
  rw [if_neg hmark, hskip]
  rw [List.append_nil] at hread
  rw [hread]
  rfl

end

end PyJsonText
end BlackMonolith.Library
