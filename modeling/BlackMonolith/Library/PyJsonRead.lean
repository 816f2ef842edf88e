import Mathlib
import BlackMonolith.Library.PyJsonRoundTrip

/-!
# What is read off a JSON text

Every reader leaves a suffix of its text. The strings of a value that is read come from
the text, a float is what `float` made of a numeral or a name, and no key of an object
occurs twice. A text without surrogates has no string in which two escaped ones stand
for one character, since such a pair is read as that character.
-/
namespace BlackMonolith.Library
namespace PyJsonText

/-! ## Suffixes -/

theorem suffix_skip (t : Points) : skip t <:+ t := List.dropWhile_suffix _

theorem suffix_tail_skip (t : Points) : (skip t).tail <:+ t :=
  (List.tail_suffix _).trans (suffix_skip t)

theorem suffix_readHex {t rest : Points} {n : ℕ} (h : readHex t = some (n, rest)) : rest <:+ t := by
  unfold readHex at h
  split at h
  next a b c d t =>
    split at h
    next =>
      cases h
      exact ⟨[a, b, c, d], rfl⟩
    next => cases h
  next => cases h

theorem suffix_readLow {n : ℕ} {t rest : Points} {d : CodePoint}
    (h : readLow n t = some (d, rest)) : rest <:+ t := by
  unfold readLow at h
  split_ifs at h with htake
  · obtain ⟨⟨m, rest'⟩, hhex, hresult⟩ := Option.map_eq_some_iff.mp h
    dsimp only at hresult
    split_ifs at hresult
    · rw [← (Prod.mk.inj hresult).2]
      exact (suffix_readHex hhex).trans (List.drop_suffix 2 t)
    · rw [← (Prod.mk.inj hresult).2]
  · rw [← (Prod.mk.inj (Option.some.inj h)).2]

theorem readEscape_cons (c : CodePoint) (t : Points) : readEscape (c :: t) =
    if c = 0x75 then
      (readHex t).bind fun (n, t) =>
        if isHigh n then readLow n t else some (Fin.ofNat 0x110000 n, t)
    else (simpleEscape c).map fun d => (d, t) := rfl

theorem readChars_cons (fuel : ℕ) (c : CodePoint) (t : Points) : readChars (fuel + 1) (c :: t) =
    if c = 0x22 then some ([], t)
    else if c = 0x5C then
      (readEscape t).bind fun (d, t) => (readChars fuel t).map fun (s, t) => (d :: s, t)
    else if c.val < 0x20 then none
    else (readChars fuel t).map fun (s, t) => (c :: s, t) := rfl

theorem suffix_readEscape {t rest : Points} {d : CodePoint}
    (h : readEscape t = some (d, rest)) : rest <:+ t := by
  cases t with
  | nil => cases h
  | cons c t =>
      rw [readEscape_cons] at h
      split_ifs at h
      · obtain ⟨⟨n, t'⟩, hhex, hresult⟩ := Option.bind_eq_some_iff.mp h
        have ht' := (suffix_readHex hhex).trans (List.suffix_cons c t)
        dsimp only at hresult
        split_ifs at hresult
        · exact (suffix_readLow hresult).trans ht'
        · rw [← (Prod.mk.inj (Option.some.inj hresult)).2]
          exact ht'
      · obtain ⟨e, _, hresult⟩ := Option.map_eq_some_iff.mp h
        rw [← (Prod.mk.inj hresult).2]
        exact List.suffix_cons c t

theorem suffix_readChars {fuel : ℕ} {t s rest : Points} (h : readChars fuel t = some (s, rest)) :
    rest <:+ t := by
  induction fuel generalizing t s with
  | zero => cases h
  | succ fuel ih =>
      cases t with
      | nil => cases h
      | cons c t =>
          rw [readChars_cons] at h
          split_ifs at h
          · cases h
            exact List.suffix_cons c _
          · obtain ⟨⟨d, t'⟩, hescape, hresult⟩ := Option.bind_eq_some_iff.mp h
            obtain ⟨⟨s', rest'⟩, hchars, heq⟩ := Option.map_eq_some_iff.mp hresult
            cases heq
            exact (ih hchars).trans ((suffix_readEscape hescape).trans (List.suffix_cons c t))
          · obtain ⟨⟨s', rest'⟩, hchars, heq⟩ := Option.map_eq_some_iff.mp h
            cases heq
            exact (ih hchars).trans (List.suffix_cons c t)

theorem ReadOff.suffix {t : Points} {r : Points × Points} (h : ReadOff t r) : r.2 <:+ t :=
  ⟨r.1, h.1.symm⟩

section
variable {floatRepr : Points → String}

theorem suffix_readNumber {t rest : Points} {v : PyJson}
    (h : readNumber floatRepr t = some (v, rest)) : rest <:+ t := by
  unfold readNumber at h
  dsimp only at h
  obtain ⟨⟨digits, t₁⟩, hinteger, hvalue⟩ := Option.bind_eq_some_iff.mp h
  have hdigits := (readOff_integer hinteger).suffix.trans (readOff_sign t).suffix
  have hrest := ((readOff_exponent (readFraction t₁).2).suffix.trans
    (readOff_fraction t₁).suffix).trans hdigits
  dsimp only at hvalue
  split_ifs at hvalue <;> cases hvalue <;> exact hrest

theorem suffix_readConstant {t rest : Points} {v : PyJson}
    (h : readConstant t = some (v, rest)) : rest <:+ t := by
  unfold readConstant at h
  obtain ⟨⟨word, w⟩, _, hword⟩ := List.exists_of_findSome?_eq_some h
  dsimp only at hword
  split_ifs at hword
  cases hword
  exact List.drop_suffix _ t

end

/-! ## Surrogates -/

theorem hexVal_lt {c : CodePoint} {n : ℕ} (h : hexVal c = some n) : n < 16 := by
  unfold hexVal at h
  split_ifs at h <;> cases h <;> omega

theorem readHex_lt {t rest : Points} {n : ℕ} (h : readHex t = some (n, rest)) : n < 0x10000 := by
  unfold readHex at h
  split at h
  next =>
    split at h
    next a b c d ha hb hc hd =>
      have ha := hexVal_lt ha
      have hb := hexVal_lt hb
      have hc := hexVal_lt hc
      have hd := hexVal_lt hd
      rw [← (Prod.mk.inj (Option.some.inj h)).1]
      omega
    next => cases h
  next => cases h

theorem simpleEscape_lt {c d : CodePoint} (h : simpleEscape c = some d) : d.val < 0x80 := by
  unfold simpleEscape at h
  split_ifs at h with hself
  · rcases hself with rfl | rfl | rfl <;> rw [← Option.some.inj h] <;> decide
  all_goals rw [← Option.some.inj h]; decide

/-- A text goes on with the escape of a low surrogate. -/
def LowFollows (t : Points) : Prop :=
  t.take 2 = [0x5C, 0x75] ∧ ∃ m rest, readHex (t.drop 2) = some (m, rest) ∧ isLow m = true

theorem not_lowFollows_of_high {n : ℕ} {t rest : Points} {d : CodePoint} (hn : isHigh n = true)
    (h : readLow n t = some (d, rest)) :
    isLow d.val = false ∧ (isHigh d.val = true → ¬ LowFollows rest) := by
  simp only [isHigh, Bool.and_eq_true, decide_eq_true_eq] at hn
  have hval : (Fin.ofNat 0x110000 n).val = n := val_ofNat (by omega)
  have hlow : isLow n = false := by
    simp only [isLow, Bool.and_eq_false_iff, decide_eq_false_iff_not]
    omega
  unfold readLow at h
  split_ifs at h with htake
  · obtain ⟨⟨m, rest'⟩, hhex, hresult⟩ := Option.map_eq_some_iff.mp h
    dsimp only at hresult
    by_cases hm : isLow m = true
    · rw [if_pos hm] at hresult
      have hd := (Prod.mk.inj hresult).1
      simp only [isLow, Bool.and_eq_true, decide_eq_true_eq] at hm
      have hpair : d.val = 0x10000 + (n - 0xD800) * 0x400 + (m - 0xDC00) := by
        rw [← hd]
        exact val_ofNat (by omega)
      rw [hpair]
      constructor
      · simp only [isLow, Bool.and_eq_false_iff, decide_eq_false_iff_not]
        omega
      · simp only [isHigh, Bool.and_eq_true, decide_eq_true_eq]
        omega
    · rw [if_neg hm] at hresult
      obtain ⟨rfl, rfl⟩ := Prod.mk.inj hresult
      rw [hval]
      refine ⟨hlow, fun _ hfollows => ?_⟩
      obtain ⟨_, m', rest'', hhex', hm'⟩ := hfollows
      rw [hhex] at hhex'
      cases hhex'
      exact hm hm'
  · obtain ⟨rfl, rfl⟩ := Prod.mk.inj (Option.some.inj h)
    rw [hval]
    exact ⟨hlow, fun _ hfollows => htake hfollows.1⟩

/-- An escape that stands for a surrogate of a pair was not followed by the other one. -/
theorem surrogate_of_readEscape {t rest : Points} {d : CodePoint}
    (h : readEscape t = some (d, rest)) :
    (isLow d.val = true → LowFollows (0x5C :: t)) ∧ (isHigh d.val = true → ¬ LowFollows rest) := by
  cases t with
  | nil => cases h
  | cons c t =>
      rw [readEscape_cons] at h
      split_ifs at h with hu
      · obtain ⟨⟨n, t'⟩, hhex, hresult⟩ := Option.bind_eq_some_iff.mp h
        have hn := readHex_lt hhex
        dsimp only at hresult
        by_cases hhigh : isHigh n = true
        · rw [if_pos hhigh] at hresult
          obtain ⟨hlow, hfollows⟩ := not_lowFollows_of_high hhigh hresult
          refine ⟨fun hd => ?_, hfollows⟩
          rw [hlow] at hd
          cases hd
        · rw [if_neg hhigh] at hresult
          obtain ⟨rfl, rfl⟩ := Prod.mk.inj (Option.some.inj hresult)
          rw [val_ofNat (by omega)]
          refine ⟨fun hlow => ?_, fun hd => absurd hd hhigh⟩
          rw [hu]
          exact ⟨rfl, n, t', hhex, hlow⟩
      · obtain ⟨e, he, hresult⟩ := Option.map_eq_some_iff.mp h
        obtain ⟨rfl, rfl⟩ := Prod.mk.inj hresult
        have hlt := simpleEscape_lt he
        simp only [isLow, isHigh, Bool.and_eq_true, decide_eq_true_eq]
        exact ⟨fun hd => absurd hd.1 (by omega), fun hd => absurd hd.1 (by omega)⟩

theorem unpaired_readChars {fuel : ℕ} {t s rest : Points} (ht : (PyString.mk t).Encodable)
    (h : readChars fuel t = some (s, rest)) :
    Unpaired s ∧ ((∃ e ∈ s.head?, isLow e.val = true) → LowFollows t) := by
  induction fuel generalizing t s with
  | zero => cases h
  | succ fuel ih =>
      cases t with
      | nil => cases h
      | cons c t =>
          have hplain : isLow c.val = false ∧ isHigh c.val = false := by
            have hc := ht c List.mem_cons_self
            simp only [PyString.isSurrogate, Bool.and_eq_false_iff, decide_eq_false_iff_not] at hc
            simp only [isLow, isHigh, Bool.and_eq_false_iff, decide_eq_false_iff_not]
            omega
          have htail : (PyString.mk t).Encodable := fun d hd => ht d (List.mem_cons_of_mem c hd)
          rw [readChars_cons] at h
          split_ifs at h with hquote hslash hcontrol
          · cases h
            refine ⟨List.isChain_nil, ?_⟩
            rintro ⟨e, he, -⟩
            cases he
          · obtain ⟨⟨d, t'⟩, hescape, hresult⟩ := Option.bind_eq_some_iff.mp h
            obtain ⟨⟨s', rest'⟩, hchars, heq⟩ := Option.map_eq_some_iff.mp hresult
            cases heq
            obtain ⟨hlow, hhigh⟩ := surrogate_of_readEscape hescape
            have ht' : (PyString.mk t').Encodable := fun e he =>
              htail e ((suffix_readEscape hescape).subset he)
            obtain ⟨hs', hfollows⟩ := ih ht' hchars
            constructor
            · exact List.isChain_cons.mpr ⟨fun e he hpair => hhigh hpair.1 (hfollows ⟨e, he, hpair.2⟩),
                hs'⟩
            · rintro ⟨e, he, hlowe⟩
              cases he
              rw [hslash]
              exact hlow hlowe
          · obtain ⟨⟨s', rest'⟩, hchars, heq⟩ := Option.map_eq_some_iff.mp h
            cases heq
            obtain ⟨hs', _⟩ := ih htail hchars
            constructor
            · refine List.isChain_cons.mpr ⟨fun e _ hpair => ?_, hs'⟩
              rw [hplain.2] at hpair
              cases hpair.1
            · rintro ⟨e, he, hlowe⟩
              cases he
              rw [hplain.1] at hlowe
              cases hlowe

/-! ## Values -/

section
variable (strings : PyString → Prop) (floats : String → Prop)

mutual
/-- The strings and the floats of a value are of these, and no key of an object occurs twice. -/
def Made : PyJson → Prop
  | .none | .bool _ | .int _ => True
  | .float r => floats r
  | .str s => strings s
  | .list items => ItemsMade items
  | .dict members => (members.map Prod.fst).Nodup ∧ MembersMade members

def ItemsMade : List PyJson → Prop
  | [] => True
  | item :: items => Made item ∧ ItemsMade items

def MembersMade : List (PyString × PyJson) → Prop
  | [] => True
  | (key, v) :: members => strings key ∧ Made v ∧ MembersMade members
end

end

section
variable {strings : PyString → Prop} {floats : String → Prop}

theorem membersMade_iff {members : List (PyString × PyJson)} : MembersMade strings floats members ↔
    ∀ member ∈ members, strings member.1 ∧ Made strings floats member.2 := by
  induction members with
  | nil =>
      rw [MembersMade]
      exact iff_of_true trivial (List.forall_mem_nil _)
  | cons member members ih => rw [MembersMade, List.forall_mem_cons, ih, and_assoc]

theorem made_get {members : List (PyString × PyJson)} (h : Made strings floats (.dict members))
    {key : String} {v : PyJson} (hget : PyJson.get members key = some v) :
    Made strings floats v := by
  rw [Made, membersMade_iff] at h
  obtain ⟨member, hmember, rfl⟩ := Option.map_eq_some_iff.mp hget
  exact (h.2 member (List.mem_of_find?_eq_some hmember)).2

theorem nodup_dictOf (pairs : List (PyString × PyJson)) : ((dictOf pairs).map Prod.fst).Nodup := by
  have hfold : ∀ (rest seen : List (PyString × PyJson)), (seen.map Prod.fst).Nodup →
      ((rest.foldl (fun d pair => InsertionMap.setIn pair.1 pair.2 d) seen).map Prod.fst).Nodup := by
    intro rest
    induction rest with
    | nil => exact fun _ h => h
    | cons pair rest ih =>
        intro seen h
        exact ih _ (InsertionMap.set ⟨seen, h⟩ pair.1 pair.2).nodup
  exact hfold pairs [] List.nodup_nil

theorem mem_dictOf {pairs : List (PyString × PyJson)} : ∀ member ∈ dictOf pairs, member ∈ pairs := by
  have hset : ∀ (k : PyString) (v : PyJson) (seen : List (PyString × PyJson)),
      ∀ member ∈ InsertionMap.setIn k v seen, member = (k, v) ∨ member ∈ seen := by
    intro k v seen
    induction seen with
    | nil => exact fun member h => .inl (List.mem_singleton.mp h)
    | cons first seen ih =>
        intro member h
        unfold InsertionMap.setIn at h
        split_ifs at h
        · rcases List.mem_cons.mp h with rfl | h
          · exact .inl rfl
          · exact .inr (List.mem_cons_of_mem _ h)
        · rcases List.mem_cons.mp h with rfl | h
          · exact .inr List.mem_cons_self
          · exact (ih member h).imp_right (List.mem_cons_of_mem _)
  have hfold : ∀ (rest seen : List (PyString × PyJson)),
      ∀ member ∈ rest.foldl (fun d pair => InsertionMap.setIn pair.1 pair.2 d) seen,
        member ∈ seen ∨ member ∈ rest := by
    intro rest
    induction rest with
    | nil => exact fun _ _ h => .inl h
    | cons pair rest ih =>
        intro seen member h
        rcases ih _ member h with h | h
        · rcases hset _ _ _ member h with rfl | h
          · exact .inr List.mem_cons_self
          · exact .inl h
        · exact .inr (List.mem_cons_of_mem _ h)
  intro member h
  exact (hfold pairs [] member h).resolve_left List.not_mem_nil

theorem made_dictOf {pairs : List (PyString × PyJson)} (h : MembersMade strings floats pairs) :
    Made strings floats (.dict (dictOf pairs)) := by
  rw [Made, membersMade_iff]
  exact ⟨nodup_dictOf pairs, fun member hmember => membersMade_iff.mp h member (mem_dictOf member hmember)⟩

theorem made_readConstant (hnames : ∀ r ∈ ["nan", "inf", "-inf"], floats r) {t rest : Points}
    {v : PyJson} (h : readConstant t = some (v, rest)) : Made strings floats v := by
  unfold readConstant at h
  obtain ⟨⟨word, w⟩, hmem, hword⟩ := List.exists_of_findSome?_eq_some h
  dsimp only at hword
  split_ifs at hword
  cases hword
  simp only [constants, List.mem_cons, Prod.mk.injEq, List.not_mem_nil, or_false] at hmem
  rcases hmem with ⟨_, rfl⟩ | ⟨_, rfl⟩ | ⟨_, rfl⟩ | ⟨_, rfl⟩ | ⟨_, rfl⟩ | ⟨_, rfl⟩
  · trivial
  · trivial
  · trivial
  · exact hnames "nan" (by decide)
  · exact hnames "inf" (by decide)
  · exact hnames "-inf" (by decide)

variable {floatRepr : Points → String}

theorem made_readNumber (hrepr : ∀ t, floats (floatRepr t)) {t rest : Points} {v : PyJson}
    (h : readNumber floatRepr t = some (v, rest)) : Made strings floats v := by
  unfold readNumber at h
  dsimp only at h
  obtain ⟨⟨digits, t₁⟩, _, hvalue⟩ := Option.bind_eq_some_iff.mp h
  dsimp only at hvalue
  by_cases hint : (readFraction t₁).1 = [] ∧ (readExponent (readFraction t₁).2).1 = []
  · rw [if_pos hint] at hvalue
    by_cases hlong : maxStrDigits < digits.length
    · rw [if_pos hlong] at hvalue
      cases hvalue
    · rw [if_neg hlong] at hvalue
      cases hvalue
      exact True.intro
  · rw [if_neg hint] at hvalue
    cases hvalue
    exact hrepr _

theorem readValue_cons (fuel : ℕ) (c : CodePoint) (t : Points) :
    readValue floatRepr (fuel + 1) (c :: t) =
      if c = 0x22 then (readChars fuel t).map fun (s, t) => (.str ⟨s⟩, t)
      else if c = 0x5B then
        if (skip t).head? = some 0x5D then some (.list [], (skip t).tail)
        else (readItems floatRepr fuel (skip t)).map fun (items, t) => (.list items, t)
      else if c = 0x7B then
        if (skip t).head? = some 0x7D then some (.dict [], (skip t).tail)
        else (readMembers floatRepr fuel (skip t)).map fun (pairs, t) => (.dict (dictOf pairs), t)
      else
        match readNumber floatRepr (c :: t) with
        | some r => some r
        | none => readConstant (c :: t) := rfl

/-- What is known of the strings of a text holds of those of a value, whatever is read of it. -/
theorem made_of_read {texts : Points → Prop} (hsuffix : ∀ {s t}, s <:+ t → texts t → texts s)
    (hchars : ∀ {fuel t s rest}, texts t → readChars fuel t = some (s, rest) → strings ⟨s⟩)
    (hrepr : ∀ t, floats (floatRepr t)) (hnames : ∀ r ∈ ["nan", "inf", "-inf"], floats r) (fuel : ℕ) :
    (∀ {t v rest}, texts t → readValue floatRepr fuel t = some (v, rest) →
      Made strings floats v ∧ rest <:+ t) ∧
    (∀ {t items rest}, texts t → readItems floatRepr fuel t = some (items, rest) →
      ItemsMade strings floats items ∧ rest <:+ t) ∧
    (∀ {t members rest}, texts t → readMembers floatRepr fuel t = some (members, rest) →
      MembersMade strings floats members ∧ rest <:+ t) := by
  induction fuel with
  | zero =>
      refine ⟨?_, ?_, ?_⟩
      · intro t v rest _ h
        cases h
      · intro t items rest _ h
        cases h
      · intro t members rest _ h
        cases h
  | succ fuel ih =>
      obtain ⟨ihValue, ihItems, ihMembers⟩ := ih
      refine ⟨?_, ?_, ?_⟩
      · intro t v rest ht h
        cases t with
        | nil => cases h
        | cons c t =>
            have hskip : skip t <:+ c :: t := (suffix_skip t).trans (List.suffix_cons c t)
            have htail : (skip t).tail <:+ c :: t := (List.tail_suffix _).trans hskip
            rw [readValue_cons] at h
            split_ifs at h
            · obtain ⟨⟨s, t'⟩, hread, heq⟩ := Option.map_eq_some_iff.mp h
              cases heq
              exact ⟨hchars (hsuffix (List.suffix_cons c t) ht) hread,
                (suffix_readChars hread).trans (List.suffix_cons c t)⟩
            · cases h
              exact ⟨trivial, htail⟩
            · obtain ⟨⟨items, t'⟩, hread, heq⟩ := Option.map_eq_some_iff.mp h
              cases heq
              obtain ⟨hitems, hrest⟩ := ihItems (hsuffix hskip ht) hread
              exact ⟨hitems, hrest.trans hskip⟩
            · cases h
              exact ⟨⟨List.nodup_nil, trivial⟩, htail⟩
            · obtain ⟨⟨pairs, t'⟩, hread, heq⟩ := Option.map_eq_some_iff.mp h
              cases heq
              obtain ⟨hpairs, hrest⟩ := ihMembers (hsuffix hskip ht) hread
              exact ⟨made_dictOf hpairs, hrest.trans hskip⟩
            · cases hnumber : readNumber floatRepr (c :: t) with
              | some r =>
                  rw [hnumber] at h
                  cases h
                  exact ⟨made_readNumber hrepr hnumber, suffix_readNumber hnumber⟩
              | none =>
                  rw [hnumber] at h
                  exact ⟨made_readConstant hnames h, suffix_readConstant h⟩
      · intro t items rest ht h
        rw [readItems_succ] at h
        obtain ⟨⟨v, t'⟩, hread, h⟩ := Option.bind_eq_some_iff.mp h
        obtain ⟨hv, ht'⟩ := ihValue ht hread
        dsimp only at h
        split_ifs at h
        · cases h
          exact ⟨⟨hv, trivial⟩, (suffix_tail_skip t').trans ht'⟩
        · obtain ⟨⟨more, t''⟩, hmore, heq⟩ := Option.map_eq_some_iff.mp h
          cases heq
          have hnext : skip (skip t').tail <:+ t :=
            (suffix_skip _).trans ((suffix_tail_skip t').trans ht')
          obtain ⟨hitems, hrest⟩ := ihItems (hsuffix hnext ht) hmore
          exact ⟨⟨hv, hitems⟩, hrest.trans hnext⟩
      · intro t members rest ht h
        rw [readMembers] at h
        split_ifs at h with hquote
        obtain ⟨⟨key, t₁⟩, hkey, h⟩ := Option.bind_eq_some_iff.mp h
        have ht₁ : t₁ <:+ t := (suffix_readChars hkey).trans (List.tail_suffix t)
        dsimp only at h
        split_ifs at h with hcolon
        obtain ⟨⟨v, t₂⟩, hread, h⟩ := Option.bind_eq_some_iff.mp h
        have hvalue : skip (skip t₁).tail <:+ t :=
          (suffix_skip _).trans ((suffix_tail_skip t₁).trans ht₁)
        obtain ⟨hv, ht₂⟩ := ihValue (hsuffix hvalue ht) hread
        have hmade : strings ⟨key⟩ := hchars (hsuffix (List.tail_suffix t) ht) hkey
        dsimp only at h
        split_ifs at h
        · cases h
          exact ⟨⟨hmade, hv, trivial⟩, (suffix_tail_skip t₂).trans (ht₂.trans hvalue)⟩
        · obtain ⟨⟨more, t₃⟩, hmore, heq⟩ := Option.map_eq_some_iff.mp h
          cases heq
          have hnext : skip (skip t₂).tail <:+ t :=
            (suffix_skip _).trans ((suffix_tail_skip t₂).trans (ht₂.trans hvalue))
          obtain ⟨hmembers, hrest⟩ := ihMembers (hsuffix hnext ht) hmore
          exact ⟨⟨hmade, hv, hmembers⟩, hrest.trans hnext⟩

/-- What is known of the strings of a text holds of those of the value it is loaded as. -/
theorem made_loads {texts : Points → Prop} (hsuffix : ∀ {s t}, s <:+ t → texts t → texts s)
    (hchars : ∀ {fuel t s rest}, texts t → readChars fuel t = some (s, rest) → strings ⟨s⟩)
    (hrepr : ∀ t, floats (floatRepr t)) (hnames : ∀ r ∈ ["nan", "inf", "-inf"], floats r)
    {t : Points} {v : PyJson} (ht : texts t) (h : loads floatRepr t = some v) :
    Made strings floats v := by
  unfold loads at h
  split_ifs at h
  obtain ⟨⟨w, rest⟩, hread, hresult⟩ := Option.bind_eq_some_iff.mp h
  dsimp only at hresult
  split_ifs at hresult
  cases hresult
  exact ((made_of_read hsuffix hchars hrepr hnames _).1 (hsuffix (suffix_skip t) ht) hread).1

end

end PyJsonText

end BlackMonolith.Library
