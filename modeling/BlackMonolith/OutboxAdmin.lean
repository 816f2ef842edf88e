import BlackMonolith.Library.PercentEncoding
import BlackMonolith.Outbox

/-!
# The replay endpoint of the outbox

An operator names the tenant whose dead letters are replayed in the query of the
request. The endpoint looks for a field spelled `tenant` and decodes its value
only, so a name in another spelling is not seen, and a plus sign is read inside an
escape.
-/
namespace BlackMonolith.Outbox
open Json Library PercentEncoding

def malformedQuery : String := "the query string is malformed"
def unreadableTenant : String := "tenant must be 1-128 printable characters"

/-! ## Decoding -/

/-- `u8::from_str_radix` in base 16 on two bytes, which takes a plus sign before a digit. -/
def fromStrRadix16 (h l : UInt8) : Option UInt8 :=
  if h = plus then (hexValue l).map UInt8.ofNat else escaped h l

/-- The loop of `percent_decode`. -/
def percentDecodeBytes : List UInt8 → Option (List UInt8)
  | [] => some []
  | [b] => if b = percent then none else some [plusToSpace b]
  | [b, c] => if b = percent then none else (percentDecodeBytes [c]).map (plusToSpace b :: ·)
  | b :: h :: l :: bs =>
      if b = percent then
        (fromStrRadix16 h l).bind fun byte => (percentDecodeBytes bs).map (byte :: ·)
      else (percentDecodeBytes (h :: l :: bs)).map (plusToSpace b :: ·)

def percentDecode (value : List Char) : Except String (List Char) :=
  match (percentDecodeBytes (Utf8.encode value)).bind Utf8.decode with
  | some decoded => .ok decoded
  | none => .error malformedQuery

/-- `str::split_once`. -/
def splitOnce (sep : Char) (cs : List Char) : Option (List Char × List Char) :=
  if sep ∈ cs then some (cs.takeWhile (· != sep), (cs.dropWhile (· != sep)).drop 1) else none

/-- The tenant a value names. -/
def readTenant (value : List Char) : Except String String :=
  match percentDecode value with
  | .error reason => .error reason
  | .ok decoded =>
      let trimmed := Text.trim (String.ofList decoded)
      if trimmed.isEmpty || 128 < Text.len trimmed || trimmed.toList.any Text.isControl then
        .error unreadableTenant
      else .ok trimmed

/-- The loop of `query_tenant`. -/
def queryPairs (found : Option String) : List (List Char) → Except String (Option String)
  | [] => .ok found
  | pair :: pairs =>
      if pair.isEmpty then queryPairs found pairs
      else
        match splitOnce '=' pair with
        | none => .error malformedQuery
        | some (name, value) =>
            if name ≠ "tenant".toList then queryPairs found pairs
            else
              match readTenant value with
              | .error reason => .error reason
              | .ok tenant => queryPairs (some tenant) pairs

def queryTenant (rawTarget : String) : Except String (Option String) :=
  match splitOnce '?' rawTarget.toList with
  | none => .ok none
  | some (_, query) => queryPairs none (query.splitOn '&')

/-! ## The request -/

inductive AdminAuth
  | authorized
  | rejected
  | unavailable
deriving Repr, DecidableEq

def minAdminTokenLen : ℕ := 16

/-- No usable credential means that nobody is an administrator. -/
def adminAuthorized (expectedToken authHeader : Option String) : AdminAuth :=
  match (expectedToken.map Text.trim).filter (!·.isEmpty) with
  | none => .unavailable
  | some expected =>
      if Text.len expected < minAdminTokenLen then .unavailable
      else
        match authHeader with
        | none => .rejected
        | some header =>
            if "Bearer ".toList.isPrefixOf header.toList then
              let supplied := header.toList.drop "Bearer ".length
              if supplied.isEmpty || supplied != expected.toList then .rejected else .authorized
            else .rejected

structure Response where
  status : ℕ
  body : Value
deriving Repr, DecidableEq

def refusal (status : ℕ) (error : String) : Response :=
  ⟨status, .object [("error", .string error)]⟩

/-- `POST /admin/replay-dead-letters`. -/
def handleReplay (serde : Serde) (expectedToken authHeader : Option String) (rawTarget : String)
    (now : ℕ) (spool : Spool) : Response × Spool :=
  match adminAuthorized expectedToken authHeader with
  | .rejected => (refusal 401 "invalid administrative credential", spool)
  | .unavailable => (refusal 503 "administrative authentication is unavailable", spool)
  | .authorized =>
      match queryTenant rawTarget with
      | .error reason => (refusal 422 reason, spool)
      | .ok tenant =>
          match replayDeadLetters serde tenant now spool with
          | .error error => (refusal 500 error, spool)
          | .ok r => (⟨200, .object [("replayed", .number (.int r.count))]⟩, ⟨r.pending.file, r.dead⟩)

/-! ## Plus signs inside escapes -/

/-- The text with a zero for every plus sign that follows a percent sign. -/
def unsign : List UInt8 → List UInt8
  | [] => []
  | [b] => [b]
  | b :: c :: bs => if b = percent ∧ c = plus then b :: 48 :: unsign bs else b :: unsign (c :: bs)

/-- A plus sign follows a percent sign. -/
def HasSignedEscape (bs : List UInt8) : Prop := [percent, plus] <:+: bs

section
variable {b h l : UInt8} {bs out : List UInt8}

theorem unsign_cons_of_ne (hb : b ≠ percent) : unsign (b :: bs) = b :: unsign bs := by
  cases bs with
  | nil => rfl
  | cons c bs => rw [unsign, if_neg fun hboth => hb hboth.1]

theorem unsign_percent_of_ne (hh : h ≠ plus) :
    unsign (percent :: h :: bs) = percent :: unsign (h :: bs) := by
  rw [unsign, if_neg fun hboth => hh hboth.2]

theorem unsign_signed : unsign (percent :: plus :: bs) = percent :: 48 :: unsign bs := by
  rw [unsign, if_pos ⟨rfl, rfl⟩]

theorem unsign_of_not_signed (hsigned : ¬HasSignedEscape bs) : unsign bs = bs := by
  induction bs using unsign.induct with
  | case1 => rfl
  | case2 b => rfl
  | case3 b c bs hboth ih =>
      rw [hboth.1, hboth.2] at hsigned
      exact absurd ⟨[], bs, rfl⟩ hsigned
  | case4 b c bs hboth ih =>
      rw [unsign, if_neg hboth, ih fun hrest => hsigned (hrest.trans (List.suffix_cons b _).isInfix)]

theorem hasSignedEscape_cons_iff_of_ne (hb : b ≠ percent) :
    HasSignedEscape (b :: bs) ↔ HasSignedEscape bs := by
  unfold HasSignedEscape
  rw [List.infix_cons_iff, List.cons_prefix_cons]
  constructor
  · rintro (⟨heq, -⟩ | hrest)
    · exact absurd heq.symm hb
    · exact hrest
  · exact Or.inr

theorem hasSignedEscape_percent_iff_of_ne (hh : h ≠ plus) :
    HasSignedEscape (percent :: h :: bs) ↔ HasSignedEscape (h :: bs) := by
  unfold HasSignedEscape
  rw [List.infix_cons_iff, List.cons_prefix_cons, List.cons_prefix_cons]
  constructor
  · rintro (⟨-, heq, -⟩ | hrest)
    · exact absurd heq.symm hh
    · exact hrest
  · exact Or.inr

theorem not_wellEscaped_of_signed (hsigned : HasSignedEscape bs) : ¬WellEscaped bs := by
  intro hall
  obtain ⟨before, after, rfl⟩ := hsigned
  rw [List.append_assoc] at hall
  obtain ⟨h, l, rest, byte, heq, hbyte⟩ := hall (plus :: after) ⟨before, rfl⟩
  obtain rfl : plus = h := (List.cons.inj heq).1
  cases hbyte

/-- The decoder reads a signed escape as if its sign were a zero. -/
theorem fromStrRadix16_of_ne (hh : h ≠ plus) : fromStrRadix16 h l = escaped h l := if_neg hh

theorem fromStrRadix16_plus : fromStrRadix16 plus l = escaped 48 l := by
  unfold fromStrRadix16 escaped
  rw [if_pos rfl]
  cases hexValue l with
  | none => rfl
  | some y => simp [hexValue]

theorem percentDecodeBytes_cons_of_ne (hb : b ≠ percent) :
    percentDecodeBytes (b :: bs) = (percentDecodeBytes bs).map (plusToSpace b :: ·) := by
  match bs with
  | [] => simp only [percentDecodeBytes, if_neg hb, Option.map_some]
  | [c] => simp only [percentDecodeBytes, if_neg hb]
  | h :: l :: rest => rw [percentDecodeBytes, if_neg hb]

theorem percentDecodeBytes_percent :
    percentDecodeBytes (percent :: h :: l :: bs) =
      (fromStrRadix16 h l).bind fun byte => (percentDecodeBytes bs).map (byte :: ·) := by
  rw [percentDecodeBytes, if_pos rfl]

theorem percentDecodeBytes_short (hshort : bs.length < 2) :
    percentDecodeBytes (percent :: bs) = none := by
  match bs with
  | [] => rfl
  | [c] => rfl
  | _ :: _ :: _ =>
      simp only [List.length_cons] at hshort
      omega

theorem unsign_cons_head (b : UInt8) (bs : List UInt8) : ∃ rest, unsign (b :: bs) = b :: rest := by
  cases bs with
  | nil => exact ⟨[], rfl⟩
  | cons c bs =>
      rw [unsign]
      split_ifs
      · exact ⟨_, rfl⟩
      · exact ⟨_, rfl⟩

theorem isSome_of_wellEscaped_unsign (hall : WellEscaped (unsign (percent :: h :: l :: bs))) :
    (fromStrRadix16 h l).isSome := by
  obtain ⟨rest, hl⟩ := unsign_cons_head l bs
  by_cases hplus : h = plus
  · subst hplus
    rw [unsign_signed, hl, wellEscaped_escape_iff] at hall
    rw [fromStrRadix16_plus]
    exact hall.1
  · rw [unsign_percent_of_ne hplus] at hall
    obtain ⟨h', l', rest', byte, heq, hbyte⟩ := hall _ (List.suffix_refl _)
    obtain ⟨x, y, hx, -, -⟩ := hexValue_of_escaped hbyte
    obtain ⟨front, hh⟩ := unsign_cons_head h (l :: bs)
    obtain rfl : h = h' := (List.cons.inj (hh.symm.trans heq)).1
    rw [unsign_cons_of_ne (ne_of_hexValue hx hexValue_percent), hl] at heq
    obtain rfl : l = l' := (List.cons.inj (List.cons.inj heq).2).1
    rw [fromStrRadix16_of_ne hplus, hbyte]
    rfl

def unsignDigit (h : UInt8) : UInt8 := if h = plus then 48 else h

/-- The escape that a signed or an unsigned one is read as. -/
theorem unsign_escape {byte : UInt8} (hbyte : fromStrRadix16 h l = some byte) (bs : List UInt8) :
    escaped (unsignDigit h) l = some byte ∧
      unsign (percent :: h :: l :: bs) = percent :: unsignDigit h :: l :: unsign bs := by
  unfold unsignDigit
  split_ifs with hplus
  · subst hplus
    rw [fromStrRadix16_plus] at hbyte
    obtain ⟨x, y, -, hy, -⟩ := hexValue_of_escaped hbyte
    refine ⟨hbyte, ?_⟩
    rw [unsign_signed, unsign_cons_of_ne (ne_of_hexValue hy hexValue_percent)]
  · rw [fromStrRadix16_of_ne hplus] at hbyte
    obtain ⟨x, y, hx, hy, -⟩ := hexValue_of_escaped hbyte
    refine ⟨hbyte, ?_⟩
    rw [unsign_percent_of_ne hplus, unsign_cons_of_ne (ne_of_hexValue hx hexValue_percent),
      unsign_cons_of_ne (ne_of_hexValue hy hexValue_percent)]

theorem not_wellEscaped_unsign_of_short (hshort : bs.length < 2) :
    ¬WellEscaped (unsign (percent :: bs)) := by
  match bs with
  | [] => exact not_wellEscaped_of_short hshort
  | [c] =>
      rw [unsign]
      split_ifs
      · exact not_wellEscaped_of_short hshort
      · exact not_wellEscaped_of_short hshort

/-- The decoder reads a text with its signs taken for zeros, and that text strictly. -/
theorem percentDecodeBytes_eq_some_iff :
    percentDecodeBytes bs = some out ↔ WellEscaped (unsign bs) ∧ formBytes (unsign bs) = out := by
  induction bs using escape_induction generalizing out with
  | nil => exact ⟨fun heq => ⟨wellEscaped_nil, Option.some.inj heq⟩, fun heq => congrArg some heq.2⟩
  | other b bs hb ih =>
      rw [percentDecodeBytes_cons_of_ne hb, unsign_cons_of_ne hb, wellEscaped_cons_iff_of_ne hb,
        formBytes_cons_of_ne hb, Option.map_eq_some_iff]
      simp only [ih]
      constructor
      · rintro ⟨rest, ⟨hall, rfl⟩, rfl⟩
        exact ⟨hall, rfl⟩
      · rintro ⟨hall, rfl⟩
        exact ⟨_, ⟨hall, rfl⟩, rfl⟩
  | short bs hshort =>
      rw [percentDecodeBytes_short hshort]
      constructor
      · exact fun hnone => nomatch hnone
      · exact fun hboth => absurd hboth.1 (not_wellEscaped_unsign_of_short hshort)
  | escape h l bs ih =>
      rw [percentDecodeBytes_percent]
      cases hbyte : fromStrRadix16 h l with
      | none =>
          constructor
          · exact fun hnone => nomatch hnone
          · rintro ⟨hall, -⟩
            have hsome := isSome_of_wellEscaped_unsign hall
            rw [hbyte] at hsome
            cases hsome
      | some byte =>
          obtain ⟨hescaped, hunsign⟩ := unsign_escape hbyte bs
          rw [hunsign, wellEscaped_escape_iff, formBytes_escape hescaped, hescaped, Option.bind_some,
            Option.map_eq_some_iff]
          simp only [ih, Option.isSome_some, true_and]
          constructor
          · rintro ⟨rest, ⟨hall, rfl⟩, rfl⟩
            exact ⟨hall, rfl⟩
          · rintro ⟨hall, rfl⟩
            exact ⟨_, ⟨hall, rfl⟩, rfl⟩

/-- A sign taken for a zero costs the text a percent sign. -/
theorem count_percent_formBytes (hall : WellEscaped (unsign bs)) :
    (formBytes (unsign bs)).count percent ≤ (formBytes bs).count percent ∧
      (HasSignedEscape bs →
        (formBytes (unsign bs)).count percent < (formBytes bs).count percent) := by
  induction bs using escape_induction with
  | nil => exact ⟨le_refl _, fun hsigned => nomatch List.infix_nil.mp hsigned⟩
  | other b bs hb ih =>
      rw [unsign_cons_of_ne hb] at hall ⊢
      have hrest := ih ((wellEscaped_cons_iff_of_ne hb).mp hall)
      rw [formBytes_cons_of_ne hb, formBytes_cons_of_ne hb, hasSignedEscape_cons_iff_of_ne hb]
      simp only [List.count_cons]
      exact ⟨Nat.add_le_add_right hrest.1 _, fun hsigned => Nat.add_lt_add_right (hrest.2 hsigned) _⟩
  | short bs hshort => exact absurd hall (not_wellEscaped_unsign_of_short hshort)
  | escape h l bs ih =>
      obtain ⟨byte, hbyte⟩ := Option.isSome_iff_exists.mp (isSome_of_wellEscaped_unsign hall)
      obtain ⟨hescaped, hunsign⟩ := unsign_escape hbyte bs
      obtain ⟨x, y, hx, hy, heq⟩ := hexValue_of_escaped hescaped
      rw [hunsign, wellEscaped_escape_iff] at hall
      have hrest := ih hall.2
      have hl := ne_of_hexValue hy hexValue_percent
      rw [hunsign, formBytes_escape hescaped]
      unfold unsignDigit at hx hescaped
      split_ifs at hx hescaped with hplus
      · subst hplus
        have hbyte' : byte ≠ percent := by
          have hsmall := hexValue_lt hy
          have hzero : x = 0 := (Option.some.inj hx).symm
          intro hpercent
          have hnat := congrArg UInt8.toNat (heq.symm.trans hpercent)
          rw [hzero, Utf8.toNat_ofNat_of_lt (by omega)] at hnat
          simp only [percent, UInt8.reduceToNat] at hnat
          omega
        rw [formBytes_signed, formBytes_cons_of_ne hl, List.count_cons_of_ne hbyte',
          List.count_cons_self, List.count_cons_of_ne (by decide), List.count_cons]
        constructor
        · omega
        · intro _
          omega
      · rw [formBytes_escape hescaped, hasSignedEscape_percent_iff_of_ne hplus,
          hasSignedEscape_cons_iff_of_ne (ne_of_hexValue hx hexValue_percent),
          hasSignedEscape_cons_iff_of_ne hl]
        simp only [List.count_cons]
        exact ⟨Nat.add_le_add_right hrest.1 _, fun hsigned => Nat.add_lt_add_right (hrest.2 hsigned) _⟩

end

/-! ## What is decoded -/

section
variable {value decoded : List Char}

theorem percentDecode_eq_ok_iff :
    percentDecode value = .ok decoded ↔ WellEscaped (unsign (Utf8.encode value)) ∧
      Utf8.decode (formBytes (unsign (Utf8.encode value))) = some decoded := by
  have hbytes : percentDecode value = .ok decoded ↔
      ∃ out, percentDecodeBytes (Utf8.encode value) = some out ∧ Utf8.decode out = some decoded := by
    unfold percentDecode
    rw [← Option.bind_eq_some_iff]
    split
    · next decoded' heq =>
        rw [heq]
        exact ⟨fun hok => congrArg some (Except.ok.inj hok), fun hsome => congrArg _ (Option.some.inj hsome)⟩
    · next heq =>
        rw [heq]
        exact ⟨fun herror => (nomatch herror), fun hnone => (nomatch hnone)⟩
  rw [hbytes]
  simp only [percentDecodeBytes_eq_some_iff]
  constructor
  · rintro ⟨out, ⟨hall, rfl⟩, hdecode⟩
    exact ⟨hall, hdecode⟩
  · exact fun hboth => ⟨_, ⟨hboth.1, rfl⟩, hboth.2⟩

/-- Escapes of two hexadecimal digits, whose bytes are UTF-8. -/
def Decodes (value decoded : List Char) : Prop :=
  WellEscaped (Utf8.encode value) ∧ Utf8.decode (formBytes (Utf8.encode value)) = some decoded

/-- The decoder accepts exactly the texts that decode, and decodes them. -/
def DecodesExactly (value : List Char) : Prop :=
  ∀ decoded, percentDecode value = .ok decoded ↔ Decodes value decoded

/-- A text with a sign in an escape that would decode if the sign were a zero. -/
def DecodesUnsigned (value : List Char) : Prop :=
  HasSignedEscape (Utf8.encode value) ∧ WellEscaped (unsign (Utf8.encode value)) ∧
    (Utf8.decode (formBytes (unsign (Utf8.encode value)))).isSome

theorem decodesExactly_iff : DecodesExactly value ↔ ¬DecodesUnsigned value := by
  unfold DecodesExactly
  simp only [percentDecode_eq_ok_iff]
  constructor
  · rintro hexact ⟨hsigned, hall, hsome⟩
    obtain ⟨decoded, hdecoded⟩ := Option.isSome_iff_exists.mp hsome
    exact not_wellEscaped_of_signed hsigned ((hexact decoded).mp ⟨hall, hdecoded⟩).1
  · intro hnot decoded
    by_cases hsigned : HasSignedEscape (Utf8.encode value)
    · constructor
      · rintro ⟨hall, hdecoded⟩
        exact absurd ⟨hsigned, hall, Option.isSome_iff_exists.mpr ⟨decoded, hdecoded⟩⟩ hnot
      · exact fun hdecodes => absurd hdecodes.1 (not_wellEscaped_of_signed hsigned)
    · rw [unsign_of_not_signed hsigned]
      exact Iff.rfl

/-- What is read of a text without a sign in an escape is what a form says. -/
theorem formDecode_of_percentDecode (h : percentDecode value = .ok decoded)
    (hsigned : ¬HasSignedEscape (Utf8.encode value)) : formDecode value = decoded := by
  have hdecode := (percentDecode_eq_ok_iff.mp h).2
  rw [unsign_of_not_signed hsigned] at hdecode
  exact Utf8.decodeLossy_of_decode hdecode

/-- A sign in an escape makes the decoder lose a percent sign. -/
theorem count_lt_of_signed (h : percentDecode value = .ok decoded)
    (hsigned : HasSignedEscape (Utf8.encode value)) :
    decoded.count '%' < (formDecode value).count '%' := by
  obtain ⟨hall, hdecode⟩ := percentDecode_eq_ok_iff.mp h
  have hlost := (count_percent_formBytes hall).2 hsigned
  have hform := Utf8.count_decodeLossy (b := percent) (by decide)
    (formBytes (Utf8.encode value))
  have hread : decoded.count '%' ≤ (formBytes (unsign (Utf8.encode value))).count percent := by
    rw [Utf8.decode_eq_some_iff.mp hdecode]
    exact Utf8.count_encode '%' decoded (by decide)
  exact hread.trans_lt (hlost.trans_le hform)

end

/-! ## The scope of a request -/

def queryOf (rawTarget : String) : List Char :=
  ((splitOnce '?' rawTarget.toList).map (·.2)).getD []

/-- The value of a field that is spelled `tenant`. -/
def spelledValue (field : List Char) : Option (List Char) :=
  (splitOnce '=' field).bind fun p => if p.1 = "tenant".toList then some p.2 else none

/-- A field that makes the endpoint refuse the request. -/
def Unreadable (field : List Char) : Prop :=
  field ≠ [] ∧ (splitOnce '=' field = none ∨
    ∃ value reason, spelledValue field = some value ∧ readTenant value = .error reason)

/-- The request is scoped to every tenant its query names, or refused. -/
def KeepsScope (rawTarget : String) : Prop :=
  ∀ value, ("tenant".toList, value) ∈ formParse (queryOf rawTarget) →
    (∃ reason, queryTenant rawTarget = .error reason) ∨
      queryTenant rawTarget = .ok (some (Text.trim (String.ofList value)))

/-- The query is refused, or names no tenant, or spells the name out, the last time
without a sign in an escape, and names one tenant only. -/
def SpellsScope (rawTarget : String) : Prop :=
  (∃ field ∈ (queryOf rawTarget).splitOn '&', Unreadable field) ∨
    (∀ value, ("tenant".toList, value) ∉ formParse (queryOf rawTarget)) ∨
    ∃ spelled tenant,
      (((queryOf rawTarget).splitOn '&').filterMap spelledValue).getLast? = some spelled ∧
        ¬HasSignedEscape (Utf8.encode spelled) ∧
          ∀ value, ("tenant".toList, value) ∈ formParse (queryOf rawTarget) →
            Text.trim (String.ofList value) = tenant

/-! Each field is bare, or spells the name, or is passed over. -/

inductive FieldKind (field : List Char) : Prop
  | bare : field ≠ [] → splitOnce '=' field = none → FieldKind field
  | spelled (value : List Char) : spelledValue field = some value → FieldKind field
  | other : spelledValue field = none → (field ≠ [] → splitOnce '=' field ≠ none) → FieldKind field

theorem fieldKind (field : List Char) : FieldKind field := by
  cases hspelled : spelledValue field with
  | some value => exact .spelled value hspelled
  | none =>
      by_cases hne : field ≠ []
      · by_cases hsplit : splitOnce '=' field = none
        · exact .bare hne hsplit
        · exact .other hspelled fun _ => hsplit
      · exact .other hspelled fun h => absurd h hne

theorem spelledValue_eq_some_iff {field value : List Char} :
    spelledValue field = some value ↔ splitOnce '=' field = some ("tenant".toList, value) := by
  unfold spelledValue
  rw [Option.bind_eq_some_iff]
  constructor
  · rintro ⟨⟨name, rest⟩, hsplit, hname⟩
    split_ifs at hname with heq
    cases hname
    rw [hsplit, ← heq]
  · intro hsplit
    exact ⟨_, hsplit, if_pos rfl⟩

section
variable {found : Option String} {field value : List Char} {pairs : List (List Char)}

theorem ne_nil_of_spelledValue (h : spelledValue field = some value) : field ≠ [] := by
  rintro rfl
  cases h

theorem queryPairs_bare (hne : field ≠ []) (hsplit : splitOnce '=' field = none) :
    queryPairs found (field :: pairs) = .error malformedQuery := by
  rw [queryPairs, if_neg (fun h => hne (List.isEmpty_iff.mp h)), hsplit]

theorem queryPairs_spelled (h : spelledValue field = some value) :
    queryPairs found (field :: pairs) =
      match readTenant value with
      | .error reason => .error reason
      | .ok tenant => queryPairs (some tenant) pairs := by
  have hsplit := spelledValue_eq_some_iff.mp h
  rw [queryPairs, if_neg (fun hempty => ne_nil_of_spelledValue h (List.isEmpty_iff.mp hempty)),
    hsplit]
  dsimp only
  rw [if_neg (not_not_intro rfl)]

theorem queryPairs_other (hspelled : spelledValue field = none)
    (hsplit : field ≠ [] → splitOnce '=' field ≠ none) :
    queryPairs found (field :: pairs) = queryPairs found pairs := by
  rw [queryPairs]
  split_ifs with hempty
  · rfl
  · obtain ⟨⟨name, value⟩, hpair⟩ :=
      Option.ne_none_iff_exists'.mp (hsplit fun h => hempty (List.isEmpty_iff.mpr h))
    have hname : name ≠ "tenant".toList := by
      rintro rfl
      rw [spelledValue_eq_some_iff.mpr hpair] at hspelled
      cases hspelled
    rw [hpair]
    dsimp only
    rw [if_pos hname]

theorem unreadable_spelled_iff (h : spelledValue field = some value) :
    Unreadable field ↔ ∃ reason, readTenant value = .error reason := by
  unfold Unreadable
  rw [spelledValue_eq_some_iff.mp h, h]
  constructor
  · rintro ⟨-, hnone | ⟨value', reason, heq, hreason⟩⟩
    · cases hnone
    · cases heq
      exact ⟨reason, hreason⟩
  · rintro ⟨reason, hreason⟩
    exact ⟨ne_nil_of_spelledValue h, Or.inr ⟨value, reason, rfl, hreason⟩⟩

theorem not_unreadable_other (hspelled : spelledValue field = none)
    (hsplit : field ≠ [] → splitOnce '=' field ≠ none) : ¬Unreadable field := by
  rintro ⟨hne, hnone | ⟨value, reason, heq, -⟩⟩
  · exact hsplit hne hnone
  · rw [hspelled] at heq
    cases heq

theorem queryPairs_error_iff :
    (∃ reason, queryPairs found pairs = .error reason) ↔ ∃ field ∈ pairs, Unreadable field := by
  induction pairs generalizing found with
  | nil => simp [queryPairs]
  | cons field pairs ih =>
      rw [List.exists_mem_cons_iff]
      cases fieldKind field with
      | bare hne hsplit =>
          rw [queryPairs_bare hne hsplit]
          exact ⟨fun _ => Or.inl ⟨hne, Or.inl hsplit⟩, fun _ => ⟨_, rfl⟩⟩
      | spelled value h =>
          rw [queryPairs_spelled h, unreadable_spelled_iff h]
          cases hread : readTenant value with
          | error reason => exact ⟨fun _ => Or.inl ⟨reason, rfl⟩, fun _ => ⟨reason, rfl⟩⟩
          | ok tenant =>
              dsimp only
              rw [ih, or_iff_right]
              rintro ⟨reason, hreason⟩
              cases hreason
      | other hspelled hsplit =>
          rw [queryPairs_other hspelled hsplit, ih,
            or_iff_right (not_unreadable_other hspelled hsplit)]

/-- The last field that spells the name decides. -/
theorem queryPairs_ok {r : Option String} (h : queryPairs found pairs = .ok r) :
    match (pairs.filterMap spelledValue).getLast? with
    | none => r = found
    | some value => ∃ tenant, readTenant value = .ok tenant ∧ r = some tenant := by
  induction pairs generalizing found with
  | nil => exact (Except.ok.inj h).symm
  | cons field pairs ih =>
      cases fieldKind field with
      | bare hne hsplit =>
          rw [queryPairs_bare hne hsplit] at h
          cases h
      | spelled value hvalue =>
          rw [queryPairs_spelled hvalue] at h
          split at h
          · cases h
          · next tenant hread =>
              have hrest := ih h
              rw [List.filterMap_cons, hvalue]
              dsimp only
              rw [List.getLast?_cons]
              cases hlast : (pairs.filterMap spelledValue).getLast? with
              | none =>
                  rw [hlast] at hrest
                  exact ⟨tenant, hread, hrest⟩
              | some later =>
                  rw [hlast] at hrest
                  exact hrest
      | other hspelled hsplit =>
          rw [queryPairs_other hspelled hsplit] at h
          rw [List.filterMap_cons, hspelled]
          exact ih h

end

section
variable {rawTarget tenant : String} {value : List Char}

theorem queryTenant_eq (rawTarget : String) :
    queryTenant rawTarget = queryPairs none ((queryOf rawTarget).splitOn '&') := by
  unfold queryTenant queryOf
  cases splitOnce '?' rawTarget.toList with
  | none => rfl
  | some p => rfl

theorem readTenant_ok (h : readTenant value = .ok tenant) :
    ∃ decoded, percentDecode value = .ok decoded ∧ tenant = Text.trim (String.ofList decoded) := by
  unfold readTenant at h
  split at h
  · cases h
  · next decoded hdecoded =>
      dsimp only at h
      split_ifs at h
      exact ⟨decoded, hdecoded, (Except.ok.inj h).symm⟩

/-- A field that spells the name is a parameter of that name. -/
theorem mem_formParse_of_spelled {field query : List Char} (hfield : field ∈ query.splitOn '&')
    (h : spelledValue field = some value) :
    ("tenant".toList, formDecode value) ∈ formParse query := by
  have hsplit := spelledValue_eq_some_iff.mp h
  have hform : formField field = ("tenant".toList, formDecode value) := by
    have hname : formDecode "tenant".toList = "tenant".toList := by decide
    unfold splitOnce at hsplit
    split_ifs at hsplit
    have hboth := Prod.mk.inj (Option.some.inj hsplit)
    unfold formField
    rw [hboth.1, hboth.2, hname]
  refine List.mem_map.mpr ⟨field, List.mem_filter.mpr ⟨hfield, ?_⟩, hform⟩
  rw [Bool.not_eq_true', List.isEmpty_eq_false_iff]
  exact ne_nil_of_spelledValue h

theorem count_trim (cs : List Char) :
    (Text.trim (String.ofList cs)).toList.count '%' = cs.count '%' := by
  unfold Text.trim
  rw [String.toList_ofList, String.toList_ofList]
  exact count_trimBoth (by decide) cs

theorem keepsScope_iff : KeepsScope rawTarget ↔ SpellsScope rawTarget := by
  unfold KeepsScope SpellsScope
  rw [queryTenant_eq, queryPairs_error_iff]
  by_cases hbad : ∃ field ∈ (queryOf rawTarget).splitOn '&', Unreadable field
  · exact ⟨fun _ => Or.inl hbad, fun _ value _ => Or.inl hbad⟩
  simp only [hbad, false_or]
  obtain ⟨scope, hscope⟩ : ∃ scope, queryPairs none ((queryOf rawTarget).splitOn '&') = .ok scope := by
    cases hresult : queryPairs none ((queryOf rawTarget).splitOn '&') with
    | error reason => exact absurd (queryPairs_error_iff.mp ⟨reason, hresult⟩) hbad
    | ok scope => exact ⟨scope, rfl⟩
  have hlast := queryPairs_ok hscope
  rw [hscope]
  cases hspelled : (((queryOf rawTarget).splitOn '&').filterMap spelledValue).getLast? with
  | none =>
      rw [hspelled] at hlast
      constructor
      · intro hkeeps
        left
        intro value hvalue
        rw [hlast] at hkeeps
        cases Except.ok.inj (hkeeps value hvalue)
      · rintro (hnone | ⟨spelled, tenant, heq, -⟩)
        · exact fun value hvalue => absurd hvalue (hnone value)
        · cases heq
  | some spelled =>
      rw [hspelled] at hlast
      obtain ⟨tenant, hread, rfl⟩ := hlast
      obtain ⟨decoded, hdecoded, rfl⟩ := readTenant_ok hread
      obtain ⟨field, hfield, hvalue⟩ := List.mem_filterMap.mp (List.mem_of_getLast? hspelled)
      have hparameter := mem_formParse_of_spelled hfield hvalue
      constructor
      · intro hkeeps
        refine Or.inr ⟨spelled, _, rfl, ?_, fun value hvalue =>
          (Option.some.inj (Except.ok.inj (hkeeps value hvalue))).symm⟩
        intro hsigned
        have hsame := Option.some.inj (Except.ok.inj (hkeeps _ hparameter))
        have hlost := count_lt_of_signed hdecoded hsigned
        rw [← count_trim decoded, hsame, count_trim] at hlost
        exact lt_irrefl _ hlost
      · rintro (hnone | ⟨spelled', tenant, heq, hsigned, hall⟩)
        · exact fun value hvalue => absurd hvalue (hnone value)
        · cases heq
          have hdecode := formDecode_of_percentDecode hdecoded hsigned
          intro value hvalue
          rw [hall value hvalue, ← hall _ hparameter, hdecode]

theorem mem_dead_of_replay {serde : Serde} {scope : String} {now : ℕ} {spool : Spool} {r : Replayed}
    (h : replayDeadLetters serde (some scope) now spool = .ok r) {record : SpoolRecord}
    (hrecord : record ∈ spool.dead) (hother : recordTenant serde record ≠ some scope) :
    record ∈ r.dead := by
  unfold replayDeadLetters at h
  dsimp only at h
  split_ifs at h
  · cases h
    exact hrecord
  · cases h
    simp only [selectDead, List.partition_eq_filter_filter, List.mem_filter]
    exact ⟨hrecord, Bool.not_eq_true' _ ▸ beq_false_of_ne hother⟩

/-- A request that keeps its scope leaves the letters of every other tenant. -/
theorem handleReplay_leaves_others {serde : Serde} {expectedToken authHeader : Option String}
    {now : ℕ} {spool : Spool} (hkeeps : KeepsScope rawTarget)
    (hnamed : ("tenant".toList, value) ∈ formParse (queryOf rawTarget)) {record : SpoolRecord}
    (hrecord : record ∈ spool.dead)
    (hother : recordTenant serde record ≠ some (Text.trim (String.ofList value))) :
    record ∈ (handleReplay serde expectedToken authHeader rawTarget now spool).2.dead := by
  unfold handleReplay
  split
  · exact hrecord
  · exact hrecord
  · rcases hkeeps value hnamed with ⟨reason, hreason⟩ | hscope
    · rw [hreason]
      exact hrecord
    · rw [hscope]
      dsimp only
      split
      · exact hrecord
      · next r hr => exact mem_dead_of_replay hr hrecord hother

/-- The scope of a replay is the tenant the request names exactly when the query
spells the name, a value is decoded exactly unless a sign in an escape is the one
thing wrong with it, and a scope that is kept leaves the letters of other tenants. -/
theorem replay_scope_iff (rawTarget : String) (value : List Char) :
    (KeepsScope rawTarget ↔ SpellsScope rawTarget) ∧
      (DecodesExactly value ↔ ¬DecodesUnsigned value) ∧
      (KeepsScope rawTarget → ∀ serde expectedToken authHeader now spool tenant,
        ("tenant".toList, tenant) ∈ formParse (queryOf rawTarget) → ∀ record ∈ spool.dead,
          recordTenant serde record ≠ some (Text.trim (String.ofList tenant)) →
            record ∈ (handleReplay serde expectedToken authHeader rawTarget now spool).2.dead) :=
  ⟨keepsScope_iff, decodesExactly_iff, fun hkeeps _ _ _ _ _ _ hnamed _ hrecord hother =>
    handleReplay_leaves_others hkeeps hnamed hrecord hother⟩

/-- The name in another spelling replays the letters of every tenant, and a sign is
taken for a digit. -/
theorem encoded_name_unscoped :
    queryTenant "/admin/replay-dead-letters?t%65nant=acme" = .ok none ∧
      ¬KeepsScope "/admin/replay-dead-letters?t%65nant=acme" ∧ ¬DecodesExactly "%+9".toList := by
  have hnone : queryTenant "/admin/replay-dead-letters?t%65nant=acme" = .ok none := by decide
  refine ⟨hnone, ?_, ?_⟩
  · intro hkeeps
    have hnamed : ("tenant".toList, "acme".toList) ∈
        formParse (queryOf "/admin/replay-dead-letters?t%65nant=acme") := by decide
    rcases hkeeps _ hnamed with ⟨reason, hreason⟩ | hscope
    · rw [hnone] at hreason
      cases hreason
    · rw [hnone] at hscope
      cases Except.ok.inj hscope
  · intro hexact
    have hread : percentDecode "%+9".toList = .ok ['\t'] := by decide
    have hdecodes := (hexact _).mp hread
    exact not_wellEscaped_of_signed ⟨[], "9".toList.flatMap String.utf8EncodeChar, rfl⟩ hdecodes.1

end

end BlackMonolith.Outbox
