import Mathlib
import BlackMonolith.Library.JsonData

/-!
# Reading JavaScript's JSON texts back

`JSON.parse` returns what `JSON.stringify` wrote: a string ends at its first quotation
mark that is not escaped, and a number at the first unit that is none of a number's.
Two values of one text are therefore the same.
-/
namespace BlackMonolith.Library
namespace JsonData

/-! ## Strings -/

theorem hexVal_hexDigit : ∀ n, n < 16 → hexVal (hexDigit n) = some n := by
  decide

theorem readHex_unit (u : UInt16) (t : CodeUnits) :
    readHex (hexDigit (u.toNat / 4096 % 16) :: hexDigit (u.toNat / 256 % 16) ::
      hexDigit (u.toNat / 16 % 16) :: hexDigit (u.toNat % 16) :: t) = some (u, t) := by
  have hu := u.toNat_lt
  have hsum : u.toNat / 4096 % 16 * 4096 + u.toNat / 256 % 16 * 256 + u.toNat / 16 % 16 * 16 +
      u.toNat % 16 = u.toNat := by omega
  unfold readHex
  dsimp only
  rw [hexVal_hexDigit _ (Nat.mod_lt _ (by decide)), hexVal_hexDigit _ (Nat.mod_lt _ (by decide)),
    hexVal_hexDigit _ (Nat.mod_lt _ (by decide)), hexVal_hexDigit _ (Nat.mod_lt _ (by decide))]
  dsimp only
  rw [hsum, UInt16.ofNat_toNat]

theorem readChars_cons (fuel : ℕ) (u : UInt16) (t : CodeUnits) : readChars (fuel + 1) (u :: t) =
    if u = 0x22 then some ([], t)
    else if u = 0x5C then
      (readEscape t).bind fun (v, t) => (readChars fuel t).map fun (s, t) => (v :: s, t)
    else if u < 0x20 then none
    else (readChars fuel t).map fun (s, t) => (u :: s, t) := rfl

theorem readEscape_cons (u : UInt16) (t : CodeUnits) : readEscape (u :: t) =
    if u = 0x75 then readHex t else (simpleEscape u).map fun v => (v, t) := rfl

theorem readChars_literal {u : UInt16} (hquote : u ≠ 0x22) (hslash : u ≠ 0x5C) (hplain : ¬ u < 0x20)
    (fuel : ℕ) (t : CodeUnits) :
    readChars (fuel + 1) (u :: t) = (readChars fuel t).map fun (s, t) => (u :: s, t) := by
  rw [readChars_cons, if_neg hquote, if_neg hslash, if_neg hplain]

theorem simpleEscape_shortLetter {u : UInt16} (h : JsString.hasShortEscape u = true) :
    shortLetter u ≠ 0x75 ∧ simpleEscape (shortLetter u) = some u := by
  simp only [JsString.hasShortEscape, Bool.or_eq_true, Bool.and_eq_true, decide_eq_true_eq,
    beq_iff_eq, UInt16.le_iff_toNat_le, UInt16.reduceToNat] at h
  have hcases : u = 8 ∨ u = 9 ∨ u = 10 ∨ u = 12 ∨ u = 13 ∨ u = 34 ∨ u = 92 := by
    simp only [← UInt16.toNat_inj, UInt16.reduceToNat] at h ⊢
    omega
  rcases hcases with rfl | rfl | rfl | rfl | rfl | rfl | rfl <;> exact ⟨by decide, by decide⟩

/-- The pieces that stand for a unit. -/
theorem readChars_quoteUnit (u : UInt16) (fuel : ℕ) (t : CodeUnits) :
    readChars (fuel + 1) (pieceText (JsString.quoteUnit u) ++ t) =
      (readChars fuel t).map fun (s, t) => (u :: s, t) := by
  unfold JsString.quoteUnit
  split_ifs with hshort hescape
  · obtain ⟨hletter, hsimple⟩ := simpleEscape_shortLetter hshort
    have hread : readEscape (shortLetter u :: t) = some (u, t) := by
      rw [readEscape_cons, if_neg hletter, hsimple, Option.map_some]
    show (readEscape (shortLetter u :: t)).bind _ = _
    rw [hread, Option.bind_some]
  · show (readHex (hexDigit (u.toNat / 4096 % 16) :: hexDigit (u.toNat / 256 % 16) ::
      hexDigit (u.toNat / 16 % 16) :: hexDigit (u.toNat % 16) :: t)).bind _ = _
    rw [readHex_unit, Option.bind_some]
  · have hquote : u ≠ 0x22 := by
      rintro rfl
      exact hshort (by decide)
    have hslash : u ≠ 0x5C := by
      rintro rfl
      exact hshort (by decide)
    have hplain : ¬ u < 0x20 := by
      intro hlt
      apply hescape
      rw [Bool.or_eq_true, Bool.or_eq_true, decide_eq_true_eq]
      exact Or.inl (Or.inl hlt)
    exact readChars_literal hquote hslash hplain fuel t

theorem literal_of_surrogate {u : UInt16} (h : (JsString.isHigh u || JsString.isLow u) = true) :
    u ≠ 0x22 ∧ u ≠ 0x5C ∧ ¬ u < 0x20 := by
  simp only [JsString.isHigh, JsString.isLow, Bool.or_eq_true, Bool.and_eq_true, decide_eq_true_eq,
    UInt16.le_iff_toNat_le, UInt16.reduceToNat] at h
  simp only [ne_eq, ← UInt16.toNat_inj, UInt16.lt_iff_toNat_lt, UInt16.reduceToNat]
  omega

theorem readChars_quoteUnits (us : CodeUnits) {fuel : ℕ} (hfuel : us.length < fuel) (t : CodeUnits) :
    readChars fuel ((JsString.quoteUnits us).flatMap pieceText ++ 0x22 :: t) = some (us, t) := by
  induction us using JsString.quoteUnits.induct generalizing fuel with
  | case1 =>
      cases fuel with
      | zero => exact absurd hfuel (Nat.not_lt_zero _)
      | succ fuel => rfl
  | case2 u =>
      rw [List.length_singleton] at hfuel
      obtain ⟨fuel, rfl⟩ := Nat.exists_eq_add_of_lt hfuel
      rw [Nat.add_comm 1 fuel, JsString.quoteUnits, List.flatMap_singleton, readChars_quoteUnit]
      rfl
  | case3 u v us hpair ih =>
      obtain ⟨hhigh, hlow⟩ := Bool.and_eq_true_iff.mp hpair
      have hu := @literal_of_surrogate u (by rw [hhigh, Bool.true_or])
      have hv := @literal_of_surrogate v (by rw [hlow, Bool.or_true])
      obtain ⟨fuel, rfl⟩ : ∃ rest, fuel = rest + 1 + 1 := by
        rw [List.length_cons, List.length_cons] at hfuel
        exact ⟨fuel - 2, by omega⟩
      have hread := @ih fuel (Nat.lt_of_succ_lt_succ (Nat.lt_of_succ_lt_succ hfuel))
      rw [JsString.quoteUnits, if_pos hpair, List.flatMap_cons, List.flatMap_cons]
      show readChars (fuel + 1 + 1) (u :: v ::
        ((JsString.quoteUnits us).flatMap pieceText ++ 0x22 :: t)) = _
      rw [readChars_literal hu.1 hu.2.1 hu.2.2, readChars_literal hv.1 hv.2.1 hv.2.2, hread]
      rfl
  | case4 u v us hpair ih =>
      cases fuel with
      | zero => exact absurd hfuel (Nat.not_lt_zero _)
      | succ fuel =>
          rw [JsString.quoteUnits, if_neg hpair, List.flatMap_cons, List.append_assoc,
            readChars_quoteUnit, ih (Nat.lt_of_succ_lt_succ hfuel)]
          rfl

theorem readChars_chars (s : JsString) {fuel : ℕ} (hfuel : s.length < fuel) (t : CodeUnits) :
    readChars fuel (chars s ++ 0x22 :: t) = some (s.units, t) :=
  readChars_quoteUnits s.units hfuel t

theorem pieceText_ne_nil (piece : JsString.JsonUnit) : 0 < (pieceText piece).length := by
  cases piece <;> exact Nat.succ_pos _

theorem length_le_chars (s : JsString) : s.length ≤ (chars s).length := by
  have hunits : ∀ us : CodeUnits, us.length ≤ ((JsString.quoteUnits us).flatMap pieceText).length := by
    intro us
    induction us using JsString.quoteUnits.induct with
    | case1 => exact Nat.le_refl 0
    | case2 u =>
        rw [JsString.quoteUnits, List.flatMap_singleton]
        exact pieceText_ne_nil _
    | case3 u v us hpair ih =>
        rw [JsString.quoteUnits, if_pos hpair]
        simp only [List.flatMap_cons, List.length_append, List.length_cons, pieceText,
          List.length_nil]
        omega
    | case4 u v us hpair ih =>
        have hpiece := pieceText_ne_nil (JsString.quoteUnit u)
        rw [JsString.quoteUnits, if_neg hpair, List.flatMap_cons, List.length_append,
          List.length_cons]
        omega
  exact hunits s.units

/-! ## White space and the ends of numbers -/

theorem skip_cons {u : UInt16} (h : isBlank u = false) (t : CodeUnits) : skip (u :: t) = u :: t :=
  List.dropWhile_cons_of_neg (by rw [h]; exact Bool.false_ne_true)

/-- No number goes on in a text. -/
def Stops (rest : CodeUnits) : Prop := ∀ u ∈ rest.head?, isNumberUnit u = false

theorem stops_nil : Stops [] := fun _ h => nomatch h

theorem stops_cons {u : UInt16} (h : isNumberUnit u = false) (t : CodeUnits) : Stops (u :: t) := by
  intro v hv
  cases hv
  exact h

theorem takeWhile_append_stops {digits rest : CodeUnits} (hdigits : digits.all isNumberUnit = true)
    (hrest : Stops rest) :
    (digits ++ rest).takeWhile isNumberUnit = digits ∧
      (digits ++ rest).dropWhile isNumberUnit = rest := by
  have hall := List.all_eq_true.mp hdigits
  rw [List.takeWhile_append_of_pos hall, List.dropWhile_append_of_pos hall]
  cases rest with
  | nil => exact ⟨List.append_nil _, rfl⟩
  | cons u rest =>
      have hu : ¬ isNumberUnit u = true := by rw [hrest u rfl]; exact Bool.false_ne_true
      rw [List.takeWhile_cons_of_neg hu, List.dropWhile_cons_of_neg hu]
      exact ⟨List.append_nil _, rfl⟩

section
variable {ν : Type} (numerals : Numerals ν)

theorem readNumber_text {rest : CodeUnits} (hrest : Stops rest) {n : ν}
    (hn : numerals.finite n = true) :
    readNumber numerals (numerals.text n ++ rest) = some (.number n, rest) := by
  obtain ⟨htake, hdrop⟩ := takeWhile_append_stops (numerals.text_units n hn) hrest
  unfold readNumber
  rw [htake, hdrop, numerals.ofText_text n hn]
  rfl

/-! ## Values -/

/-- A unit that begins a value. -/
def Begins (u : UInt16) : Prop := isBlank u = false ∧ u ≠ 0x5D ∧ u ≠ 0x7D

theorem begins_of_numberUnit {u : UInt16} (h : isNumberUnit u = true) :
    Begins u ∧ u ≠ 0x22 ∧ u ≠ 0x5B ∧ u ≠ 0x7B := by
  simp only [isNumberUnit, isDigit, Bool.or_eq_true, Bool.and_eq_true, decide_eq_true_eq,
    beq_iff_eq, UInt16.le_iff_toNat_le, ← UInt16.toNat_inj, UInt16.reduceToNat] at h
  simp only [Begins, isBlank, Bool.or_eq_false_iff, beq_eq_false_iff_ne, ne_eq,
    ← UInt16.toNat_inj, UInt16.reduceToNat]
  omega

theorem head_textOf {v : JsonValue ν} (hv : Finite numerals v) :
    ∃ u t, textOf numerals v = u :: t ∧ Begins u := by
  cases v with
  | null => exact ⟨0x6E, _, rfl, by decide, by decide, by decide⟩
  | bool b =>
      cases b with
      | true => exact ⟨0x74, _, rfl, by decide, by decide, by decide⟩
      | false => exact ⟨0x66, _, rfl, by decide, by decide, by decide⟩
  | number n =>
      obtain ⟨u, t, htext⟩ := List.exists_cons_of_ne_nil (numerals.text_ne_nil n)
      have hu : isNumberUnit u = true := by
        apply List.all_eq_true.mp (numerals.text_units n hv)
        rw [htext]
        exact List.mem_cons_self
      exact ⟨u, t, htext, (begins_of_numberUnit hu).1⟩
  | string s => exact ⟨0x22, _, rfl, by decide, by decide, by decide⟩
  | array items => exact ⟨0x5B, _, rfl, by decide, by decide, by decide⟩
  | object members => exact ⟨0x7B, _, rfl, by decide, by decide, by decide⟩

theorem skip_textOf {v : JsonValue ν} (hv : Finite numerals v) (t : CodeUnits) :
    skip (textOf numerals v ++ t) = textOf numerals v ++ t ∧
      (textOf numerals v ++ t).head? ≠ some 0x5D := by
  obtain ⟨u, s, htext, hbegins⟩ := head_textOf numerals hv
  rw [htext, List.cons_append, skip_cons hbegins.1]
  exact ⟨rfl, fun heq => hbegins.2.1 (Option.some.inj heq)⟩

theorem readValue_number {rest : CodeUnits} (hrest : Stops rest) {n : ν}
    (hn : numerals.finite n = true) (fuel : ℕ) :
    readValue numerals (fuel + 1) (numerals.text n ++ rest) = some (.number n, rest) := by
  have hread := readNumber_text numerals hrest hn
  have hall := numerals.text_units n hn
  obtain ⟨u, t, htext⟩ := List.exists_cons_of_ne_nil (numerals.text_ne_nil n)
  rw [htext] at hread hall ⊢
  have hu : isNumberUnit u = true := List.all_eq_true.mp hall u List.mem_cons_self
  obtain ⟨_, hquote, hbracket, hbrace⟩ := begins_of_numberUnit hu
  rw [List.cons_append, readValue, if_neg hquote, if_neg hbracket, if_neg hbrace, if_pos hu]
  exact hread

theorem readValue_word {word : String} {v : JsonValue ν} {u : UInt16} {t : CodeUnits}
    (hword : ascii word = u :: t) (hfirst : u ≠ 0x22 ∧ u ≠ 0x5B ∧ u ≠ 0x7B ∧ isNumberUnit u = false)
    (hconstant : ∀ rest, readConstant (ascii word ++ rest) = some (v, rest)) (fuel : ℕ)
    (rest : CodeUnits) :
    readValue numerals (fuel + 1) (ascii word ++ rest) = some (v, rest) := by
  have hread := hconstant rest
  rw [hword] at hread ⊢
  rw [List.cons_append, readValue, if_neg hfirst.1, if_neg hfirst.2.1, if_neg hfirst.2.2.1,
    if_neg (by rw [hfirst.2.2.2]; exact Bool.false_ne_true)]
  exact hread

theorem membersOf_of_nodup {pairs : List (JsString × JsonValue ν)}
    (h : (pairs.map Prod.fst).Nodup) : membersOf pairs = pairs := by
  have hfold : ∀ (rest seen : List (JsString × JsonValue ν)), ((seen ++ rest).map Prod.fst).Nodup →
      rest.foldl (fun members pair => InsertionMap.setIn pair.1 pair.2 members) seen =
        seen ++ rest := by
    intro rest
    induction rest with
    | nil =>
        intro seen _
        exact (List.append_nil seen).symm
    | cons pair rest ih =>
        intro seen hnodup
        have hfresh : pair.1 ∉ seen.map Prod.fst := by
          rw [List.map_append, List.nodup_append] at hnodup
          intro hmem
          exact hnodup.2.2 _ hmem _ List.mem_cons_self rfl
        rw [List.foldl_cons, InsertionMap.setIn_of_notMem hfresh, ih _ (by simpa using hnodup)]
        simp
  exact hfold pairs [] h

theorem joined_cons (piece next : CodeUnits) (pieces : List CodeUnits) :
    joined (piece :: next :: pieces) = piece ++ 0x2C :: joined (next :: pieces) := by
  unfold joined
  rw [List.intercalate_cons_cons, List.append_assoc, List.singleton_append]

theorem joined_singleton (piece : CodeUnits) : joined [piece] = piece :=
  List.intercalate_singleton

/-- What follows an item or a member: the next one, or the end. -/
def after (pieces : List CodeUnits) (t : CodeUnits) : CodeUnits :=
  if pieces.isEmpty then t else 0x2C :: (joined pieces ++ t)

theorem joined_append (piece : CodeUnits) (pieces : List CodeUnits) (t : CodeUnits) :
    joined (piece :: pieces) ++ t = piece ++ after pieces t := by
  cases pieces with
  | nil => rw [joined_singleton]; rfl
  | cons next pieces => rw [joined_cons, List.append_assoc]; rfl

theorem length_joined_cons (piece : CodeUnits) (pieces : List CodeUnits) :
    piece.length ≤ (joined (piece :: pieces)).length ∧
      (pieces ≠ [] → (joined pieces).length < (joined (piece :: pieces)).length) := by
  cases pieces with
  | nil => exact ⟨by rw [joined_singleton], fun hne => absurd rfl hne⟩
  | cons next pieces =>
      rw [joined_cons, List.length_append, List.length_cons]
      exact ⟨by omega, fun _ => by omega⟩

theorem after_cons (piece : CodeUnits) (pieces : List CodeUnits) (t : CodeUnits) :
    after (piece :: pieces) t = 0x2C :: (joined (piece :: pieces) ++ t) := rfl

theorem stops_after {close : UInt16} (hclose : isNumberUnit close = false) (pieces : List CodeUnits)
    (t : CodeUnits) : Stops (after pieces (close :: t)) := by
  unfold after
  split_ifs
  · exact stops_cons hclose t
  · exact stops_cons (by decide) _

theorem readValue_array (fuel : ℕ) (t : CodeUnits) : readValue numerals (fuel + 1) (0x5B :: t) =
    if (skip t).head? = some 0x5D then some (.array [], (skip t).tail)
    else (readItems numerals fuel (skip t)).map fun (items, t) => (.array items, t) := rfl

theorem readValue_object (fuel : ℕ) (t : CodeUnits) : readValue numerals (fuel + 1) (0x7B :: t) =
    if (skip t).head? = some 0x7D then some (.object [], (skip t).tail)
    else (readMembers numerals fuel (skip t)).map fun (pairs, t) =>
      (.object (membersOf pairs), t) := rfl

theorem readItems_succ (fuel : ℕ) (t : CodeUnits) : readItems numerals (fuel + 1) t =
    (readValue numerals fuel t).bind fun (v, t) =>
      if (skip t).head? = some 0x5D then some ([v], (skip t).tail)
      else if (skip t).head? = some 0x2C then
        (readItems numerals fuel (skip (skip t).tail)).map fun (items, t) => (v :: items, t)
      else none := by
  rw [readItems]

theorem readMembers_succ (fuel : ℕ) (t : CodeUnits) :
    readMembers numerals (fuel + 1) (0x22 :: t) =
      (readChars fuel t).bind fun (key, t) =>
        if (skip t).head? = some 0x3A then
          (readValue numerals fuel (skip (skip t).tail)).bind fun (v, t) =>
            if (skip t).head? = some 0x7D then some ([(⟨key⟩, v)], (skip t).tail)
            else if (skip t).head? = some 0x2C then
              (readMembers numerals fuel (skip (skip t).tail)).map fun (pairs, t) =>
                ((⟨key⟩, v) :: pairs, t)
            else none
        else none := by
  rw [readMembers]
  rfl

mutual
/-- What is written is read back, whatever follows it that ends a number. -/
theorem readValue_textOf : (v : JsonValue ν) → Distinct v → Finite numerals v →
    ∀ {fuel : ℕ} {rest : CodeUnits}, Stops rest → (textOf numerals v).length < fuel →
    readValue numerals fuel (textOf numerals v ++ rest) = some (v, rest)
  | _, _, _, 0, _, _, hfuel => absurd hfuel (Nat.not_lt_zero _)
  | .null, _, _, fuel + 1, rest, _, _ =>
      @readValue_word _ numerals "null" .null 0x6E _ rfl (by decide) (fun _ => rfl) fuel rest
  | .bool true, _, _, fuel + 1, rest, _, _ =>
      @readValue_word _ numerals "true" (.bool true) 0x74 _ rfl (by decide) (fun _ => rfl) fuel rest
  | .bool false, _, _, fuel + 1, rest, _, _ =>
      @readValue_word _ numerals "false" (.bool false) 0x66 _ rfl (by decide) (fun _ => rfl) fuel rest
  | .number _, _, hn, fuel + 1, rest, hrest, _ => readValue_number numerals hrest hn fuel
  | .string s, _, _, fuel + 1, rest, _, hfuel => by
      have hlength := length_le_chars s
      show (readChars fuel ((chars s ++ [0x22]) ++ rest)).map _ = _
      rw [List.append_assoc, List.singleton_append, readChars_chars]
      · rfl
      · simp only [textOf, quoted, List.length_cons, List.length_append, List.length_nil] at hfuel
        omega
  | .array [], _, _, fuel + 1, rest, _, _ => rfl
  | .array (item :: items), hv, hfinite, fuel + 1, rest, _, hfuel => by
      have hread : readItems numerals fuel
          (joined (itemTexts numerals (item :: items)) ++ 0x5D :: rest) =
            some (item :: items, rest) := by
        apply readItems_itemTexts (item :: items) (List.cons_ne_nil _ _) hv hfinite
        simp only [textOf, List.length_cons, List.length_append, List.length_nil] at hfuel
        omega
      have htext : textOf numerals (.array (item :: items)) ++ rest =
          0x5B :: (joined (itemTexts numerals (item :: items)) ++ 0x5D :: rest) := by
        simp [textOf]
      have hskip := skip_textOf numerals hfinite.1 (after (itemTexts numerals items) (0x5D :: rest))
      have hjoined := joined_append (textOf numerals item) (itemTexts numerals items) (0x5D :: rest)
      rw [itemTexts, hjoined] at hread
      rw [htext, readValue_array, itemTexts, hjoined, hskip.1, if_neg hskip.2, hread]
      rfl
  | .object [], _, _, fuel + 1, rest, _, _ => rfl
  | .object ((key, v) :: members), hv, hfinite, fuel + 1, rest, _, hfuel => by
      have hread : readMembers numerals fuel
          (joined (memberTexts numerals ((key, v) :: members)) ++ 0x7D :: rest) =
            some ((key, v) :: members, rest) := by
        apply readMembers_memberTexts ((key, v) :: members) (List.cons_ne_nil _ _) hv.2 hfinite
        simp only [textOf, List.length_cons, List.length_append, List.length_nil] at hfuel
        omega
      have htext : textOf numerals (.object ((key, v) :: members)) ++ rest =
          0x7B :: (joined (memberTexts numerals ((key, v) :: members)) ++ 0x7D :: rest) := by
        simp [textOf]
      have hquote : ∃ t, joined (memberTexts numerals ((key, v) :: members)) ++ 0x7D :: rest =
          0x22 :: t := by
        rw [memberTexts, joined_append]
        exact ⟨_, rfl⟩
      obtain ⟨t, ht⟩ := hquote
      rw [ht] at hread
      rw [htext, readValue_object, ht, skip_cons (by decide), if_neg (by simp), hread,
        Option.map_some]
      dsimp only
      rw [membersOf_of_nodup hv.1]

theorem readItems_itemTexts : (items : List (JsonValue ν)) → items ≠ [] → ItemsDistinct items →
    ItemsFinite numerals items → ∀ {fuel : ℕ} {rest : CodeUnits},
    (joined (itemTexts numerals items)).length + 1 < fuel →
    readItems numerals fuel (joined (itemTexts numerals items) ++ 0x5D :: rest) = some (items, rest)
  | [], hne, _, _, _, _, _ => absurd rfl hne
  | _ :: _, _, _, _, 0, _, hfuel => absurd hfuel (Nat.not_lt_zero _)
  | item :: items, _, hv, hfinite, fuel + 1, rest, hfuel => by
      obtain ⟨hitem, hitems⟩ := length_joined_cons (textOf numerals item) (itemTexts numerals items)
      rw [itemTexts] at hfuel
      have hvalue := @readValue_textOf item hv.1 hfinite.1 fuel (after (itemTexts numerals items)
        (0x5D :: rest)) (stops_after (by decide) _ _) (by omega)
      rw [itemTexts, joined_append, readItems_succ, hvalue, Option.bind_some]
      dsimp only
      cases items with
      | nil => rfl
      | cons next items =>
          have hnext := hitems (List.cons_ne_nil _ _)
          have hread := @readItems_itemTexts (next :: items) (List.cons_ne_nil _ _) hv.2 hfinite.2
            fuel rest (by omega)
          have hskip := (skip_textOf numerals hfinite.2.1
            (after (itemTexts numerals items) (0x5D :: rest))).1
          rw [← joined_append] at hskip
          rw [show itemTexts numerals (next :: items) =
            textOf numerals next :: itemTexts numerals items from rfl] at hread ⊢
          rw [after_cons, skip_cons (by decide), List.head?_cons, if_neg (by decide), if_pos rfl,
            List.tail_cons, hskip, hread]
          rfl

theorem readMembers_memberTexts : (members : List (JsString × JsonValue ν)) → members ≠ [] →
    MembersDistinct members → MembersFinite numerals members →
    ∀ {fuel : ℕ} {rest : CodeUnits},
    (joined (memberTexts numerals members)).length + 1 < fuel →
    readMembers numerals fuel (joined (memberTexts numerals members) ++ 0x7D :: rest) =
      some (members, rest)
  | [], hne, _, _, _, _, _ => absurd rfl hne
  | _ :: _, _, _, _, 0, _, hfuel => absurd hfuel (Nat.not_lt_zero _)
  | (key, v) :: members, _, hv, hfinite, fuel + 1, rest, hfuel => by
      have hkey := length_le_chars key
      have hlengths := length_joined_cons (quoted key ++ 0x3A :: textOf numerals v)
        (memberTexts numerals members)
      rw [memberTexts] at hfuel
      simp only [quoted, List.cons_append, List.length_cons, List.length_append, List.length_nil,
        List.append_assoc] at hlengths hfuel
      have hmember : joined (memberTexts numerals ((key, v) :: members)) ++ 0x7D :: rest =
          0x22 :: (chars key ++ 0x22 :: 0x3A :: (textOf numerals v ++
            after (memberTexts numerals members) (0x7D :: rest))) := by
        rw [memberTexts, joined_append]
        simp [quoted]
      have hvalue := @readValue_textOf v hv.1 hfinite.1 fuel (after (memberTexts numerals members)
        (0x7D :: rest)) (stops_after (by decide) _ _) (by omega)
      rw [hmember, readMembers_succ, readChars_chars key (by omega), Option.bind_some]
      dsimp only
      rw [skip_cons (by decide), List.head?_cons, if_pos rfl, List.tail_cons,
        (skip_textOf numerals hfinite.1 _).1, hvalue, Option.bind_some]
      dsimp only
      cases members with
      | nil => rfl
      | cons next members =>
          have hnext := hlengths.2 (List.cons_ne_nil _ _)
          have hread := @readMembers_memberTexts (next :: members) (List.cons_ne_nil _ _) hv.2
            hfinite.2 fuel rest (by omega)
          obtain ⟨key', v'⟩ := next
          have hquote : ∃ t, joined (memberTexts numerals ((key', v') :: members)) ++ 0x7D :: rest =
              0x22 :: t := by
            rw [memberTexts, joined_append]
            exact ⟨_, rfl⟩
          obtain ⟨t, ht⟩ := hquote
          rw [show memberTexts numerals ((key', v') :: members) =
            (quoted key' ++ 0x3A :: textOf numerals v') :: memberTexts numerals members from rfl]
            at hread ht ⊢
          rw [after_cons, skip_cons (by decide), List.head?_cons, if_neg (by decide), if_pos rfl,
            List.tail_cons, ht, skip_cons (by decide), ← ht, hread]
          rfl
end

/-- `JSON.parse` gives back what was written. -/
theorem parse_textOf {v : JsonValue ν} (hv : Distinct v) (hfinite : Finite numerals v) :
    parse numerals (textOf numerals v) = some v := by
  have hskip := (skip_textOf numerals hfinite []).1
  have hread := readValue_textOf numerals v hv hfinite stops_nil
    (Nat.lt_succ_self (textOf numerals v).length)
  rw [List.append_nil] at hskip hread
  unfold parse
  rw [hskip, hread]
  rfl

theorem textOf_injOn {v w : JsonValue ν} (hv : Distinct v) (hw : Distinct w)
    (hv' : Finite numerals v) (hw' : Finite numerals w)
    (h : textOf numerals v = textOf numerals w) : v = w := by
  have hread := parse_textOf numerals hv hv'
  rw [h, parse_textOf numerals hw hw'] at hread
  exact (Option.some.inj hread).symm

/-- A value that was written is read back as far as a text can carry it. -/
theorem parse_stringify {v : JsData ν} (hv : Distinct (plain numerals v)) :
    parse numerals (stringify numerals v) = some (plain numerals v) :=
  parse_textOf numerals hv (finite_plain numerals v)

end

end JsonData
end BlackMonolith.Library
