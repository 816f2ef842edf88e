import Mathlib
import BlackMonolith.Library.FormUrlencoded
import BlackMonolith.Library.PercentEncoding
import BlackMonolith.SecretBoundary.Policy

/-!
# References to 1Password secrets

A reference names a vault, an item, at times a section, and a field. Its segments
are written in letters, digits, `-`, `_`, `.` and percent escapes. What the
program reads is the decoded segment, while dot segments and leading hyphens are
looked for in the text as written.
-/
namespace BlackMonolith.SecretBoundary
open Library Text PercentEncoding

structure ParsedSecretReference where
  raw : String
  vault : String
  item : String
  sectionName : Option String
  field : String
deriving Repr, DecidableEq

def hyphen : UInt8 := 45
def dot : UInt8 := 46

/-- The bytes that stand for themselves in a segment. -/
def isSegmentByte (b : UInt8) : Bool :=
  isByteAlphanumeric b || b == hyphen || b == 95 || b == dot

/-- Control bytes and the slash. -/
def isForbiddenEscape (b : UInt8) : Bool := b < 0x20 || b == 0x7F || b == 47

/-- `b as char`. -/
def byteChar (b : UInt8) : Char := Char.ofNat b.toNat

/-- A byte as two hexadecimal digits. -/
def upperHex (b : UInt8) : String :=
  String.ofList [FormUrlencoded.hexDigit (b.toNat / 16), FormUrlencoded.hexDigit (b.toNat % 16)]

/-- The first thing wrong with the bytes of a segment. -/
def segmentBytesError (segment : String) : List UInt8 → Option BoundaryError
  | [] => none
  | b :: bs =>
      if isSegmentByte b then segmentBytesError segment bs
      else if b = percent then
        match bs with
        | h :: l :: rest =>
            match escaped h l with
            | none => some (.invalidRequest
                s!"Invalid percent-encoding '%{byteChar h}{byteChar l}' in secret reference segment '{segment}'")
            | some byte =>
                if isForbiddenEscape byte then
                  some (.invalidRequest
                    s!"Forbidden percent-encoded byte 0x{upperHex byte} in secret reference segment '{segment}'")
                else segmentBytesError segment rest
        | _ => some (.invalidRequest
            s!"Incomplete percent-encoding in secret reference segment '{segment}'")
      else some (.invalidRequest
        s!"Disallowed character '{byteChar b}' in secret reference segment '{segment}'")

def segmentError (secretRef : String) (idx : ℕ) (segment : String) : Option BoundaryError :=
  if segment.isEmpty then
    some (.invalidRequest
      s!"Secret reference '{secretRef}' contains empty segment at index {idx}")
  else if 256 < Text.len segment then
    some (.invalidRequest
      s!"Secret reference segment at index {idx} exceeds maximum length of 256 characters")
  else if segment = "." ∨ segment = ".." then
    some (.invalidRequest
      s!"Secret reference '{secretRef}' contains forbidden traversal sequence '{segment}'")
  else if startsWith segment "-" then
    some (.invalidRequest
      s!"Secret reference segment '{segment}' cannot start with a hyphen (flag injection guard)")
  else segmentBytesError segment (bytes segment)

def segmentsError (secretRef : String) : ℕ → List String → Option BoundaryError
  | _, [] => none
  | idx, segment :: segments =>
      (segmentError secretRef idx segment).or (segmentsError secretRef (idx + 1) segments)

def parseSegments (secretRef : String) : List String → Option ParsedSecretReference
  | [vault, item, field] => some ⟨secretRef, vault, item, none, field⟩
  | [vault, item, sectionName, field] => some ⟨secretRef, vault, item, some sectionName, field⟩
  | _ => none

/-- What comes after `op://`, split at its slashes. -/
def splitSegments (secretRef : String) : List String :=
  ((secretRef.toList.drop 5).splitOn '/').map String.ofList

def validateSecretReference (secretRef : String) : Except BoundaryError ParsedSecretReference :=
  if Text.len secretRef < 8 then
    .error (.invalidRequest
      s!"Secret reference '{secretRef}' is too short; must begin with 'op://'")
  else if 1024 < Text.len secretRef then
    .error (.invalidRequest
      "Secret reference exceeds maximum allowed length of 1024 characters")
  else if !startsWith secretRef "op://" then
    .error (.invalidRequest s!"Secret reference '{secretRef}' must begin with 'op://'")
  else
    let remainder := secretRef.toList.drop 5
    if remainder.head? = some '/' ∨ remainder.getLast? = some '/' then
      .error (.invalidRequest
        s!"Secret reference '{secretRef}' contains invalid leading or trailing slash")
    else
      let segments := splitSegments secretRef
      match parseSegments secretRef segments with
      | none => .error (.invalidRequest
          s!"Secret reference '{secretRef}' has {segments.length} segments; expected 3 or 4 ('op://<vault>/<item>[/<section>]/<field>')")
      | some parsed =>
          match segmentsError secretRef 0 segments with
          | some e => .error e
          | none => .ok parsed

/-- The reference written back from its parts. -/
def ParsedSecretReference.joined (parsed : ParsedSecretReference) : String :=
  "op://" ++ "/".intercalate
    ([parsed.vault, parsed.item] ++ parsed.sectionName.toList ++ [parsed.field])

example : (validateSecretReference "op://Production%20Vault/db-creds/password").isOk = true := by
  decide +kernel

/-! ## The grammar -/

/-- A segment as it is written: sizes, characters, whole escapes, and no control
byte or slash behind them. -/
structure Written (segment : List UInt8) : Prop where
  size : 1 ≤ segment.length ∧ segment.length ≤ 256
  bytes : ∀ b ∈ segment, isSegmentByte b = true ∨ b = percent
  escapes : WellEscaped segment
  decoded : ∀ b ∈ percentDecode segment, isForbiddenEscape b = false

/-- A dot segment, or one that a command line reads as an option. -/
def Reserved (segment : List UInt8) : Prop :=
  segment = [dot] ∨ segment = [dot, dot] ∨ segment.head? = some hyphen

/-- The reference is `op://` and these segments with slashes between them. -/
structure Spells (secretRef : String) (segments : List String) : Prop where
  size : 8 ≤ Text.len secretRef ∧ Text.len secretRef ≤ 1024
  count : segments.length = 3 ∨ segments.length = 4
  joined : secretRef = "op://" ++ "/".intercalate segments
  written : ∀ segment ∈ segments, Written (Text.bytes segment)

/-- The documented grammar: what holds of the decoded segments counts. -/
def Grammatical (secretRef : String) : Prop :=
  ∃ segments, Spells secretRef segments ∧
    ∀ segment ∈ segments, ¬Reserved (percentDecode (bytes segment))

/-- A dot segment or a leading hyphen is hidden behind an escape. -/
def Disguised (secretRef : String) : Prop :=
  ∃ segments, Spells secretRef segments ∧ (∀ segment ∈ segments, ¬Reserved (bytes segment)) ∧
    ∃ segment ∈ segments, Reserved (percentDecode (bytes segment))

/-! ## The check of the bytes -/

theorem isForbiddenEscape_of_isSegmentByte {b : UInt8} (hb : isSegmentByte b = true) :
    isForbiddenEscape b = false := by
  simp only [isSegmentByte, isByteAlphanumeric, isByteDigit, isByteUpper, isByteLower, hyphen,
    dot, Bool.or_eq_true, Bool.and_eq_true, decide_eq_true_eq, beq_iff_eq,
    UInt8.le_iff_toNat_le, ← UInt8.toNat_inj] at hb
  simp only [isForbiddenEscape, Bool.or_eq_false_iff, decide_eq_false_iff_not, beq_eq_false_iff_ne,
    UInt8.lt_iff_toNat_lt, ne_eq, ← UInt8.toNat_inj, UInt8.reduceToNat] at hb ⊢
  omega

theorem isSegmentByte_of_hexValue {b : UInt8} {x : ℕ} (hb : hexValue b = some x) :
    isSegmentByte b = true := by
  unfold hexValue at hb
  simp only [isSegmentByte, isByteAlphanumeric, isByteDigit, isByteUpper, isByteLower, hyphen,
    dot, Bool.or_eq_true, Bool.and_eq_true, decide_eq_true_eq, beq_iff_eq,
    UInt8.le_iff_toNat_le, ← UInt8.toNat_inj, UInt8.reduceToNat]
  dsimp only at hb
  split_ifs at hb
  all_goals omega

theorem segmentBytesError_eq_none_iff (segment : String) (bs : List UInt8) :
    segmentBytesError segment bs = none ↔
      (∀ b ∈ bs, isSegmentByte b = true ∨ b = percent) ∧ WellEscaped bs ∧
        ∀ b ∈ percentDecode bs, isForbiddenEscape b = false := by
  induction bs using escape_induction with
  | nil => simp [segmentBytesError, percentDecode, wellEscaped_nil]
  | other b bs hb ih =>
      rw [segmentBytesError.eq_def, wellEscaped_cons_iff_of_ne hb, percentDecode_cons_of_ne hb]
      by_cases hseg : isSegmentByte b = true
      · simp [hseg, ih, isForbiddenEscape_of_isSegmentByte hseg]
      · simp [hseg, hb]
  | short bs hshort =>
      have hnot : segmentBytesError segment (percent :: bs) ≠ none := by
        cases bs with
        | nil => exact Option.some_ne_none _
        | cons b bs =>
            obtain rfl : bs = [] := List.length_eq_zero_iff.mp (Nat.lt_one_iff.mp
              (Nat.lt_of_succ_lt_succ hshort))
            exact Option.some_ne_none _
      simp [hnot, not_wellEscaped_of_short hshort]
  | escape h l bs ih =>
      rw [segmentBytesError.eq_def, wellEscaped_escape_iff]
      have hpercent : isSegmentByte percent = false := rfl
      cases hbyte : escaped h l with
      | none => simp [hpercent, hbyte]
      | some byte =>
          obtain ⟨x, y, hx, hy, -⟩ := hexValue_of_escaped hbyte
          rw [percentDecode_escape hbyte]
          cases hforbidden : isForbiddenEscape byte with
          | false => simp [hpercent, hbyte, hforbidden, ih, isSegmentByte_of_hexValue hx,
              isSegmentByte_of_hexValue hy]
          | true => simp [hpercent, hbyte, hforbidden]

/-! ## The check of a segment -/

theorem bytes_eq_iff (s t : String) : bytes s = bytes t ↔ s = t := by
  refine ⟨fun h => String.toList_inj.mp (Utf8.encode_injective h), fun h => h ▸ rfl⟩

theorem head_bytes_eq_hyphen_iff (s : String) :
    (bytes s).head? = some hyphen ↔ startsWith s "-" = true := by
  rw [startsWith, List.isPrefixOf_iff_prefix, List.head?_eq_some_iff]
  constructor
  · rintro ⟨rest, hrest⟩
    have hinitial : Utf8.encode ['-'] <+: Utf8.encode s.toList := ⟨rest, hrest.symm⟩
    exact Utf8.initial_of_encode_initial hinitial
  · rintro ⟨rest, hrest⟩
    exact ⟨Utf8.encode rest, (congrArg Utf8.encode hrest).symm⟩

theorem length_bytes (s : String) : (bytes s).length = Text.len s := Utf8.length_encode s

theorem segmentError_eq_none_iff (secretRef : String) (idx : ℕ) (segment : String) :
    segmentError secretRef idx segment = none ↔
      Written (bytes segment) ∧ ¬Reserved (bytes segment) := by
  have hempty : segment.isEmpty = true ↔ (bytes segment).length = 0 := by
    rw [length_bytes, Text.len, String.isEmpty_iff, String.utf8ByteSize_eq_zero_iff]
  have hreserved : Reserved (bytes segment) ↔
      (segment = "." ∨ segment = "..") ∨ startsWith segment "-" = true := by
    rw [Reserved, head_bytes_eq_hyphen_iff, ← bytes_eq_iff segment ".",
      ← bytes_eq_iff segment "..", or_assoc]
    rfl
  unfold segmentError
  rw [hreserved]
  by_cases hsize : 1 ≤ (bytes segment).length ∧ (bytes segment).length ≤ 256
  · rw [if_neg (by rw [hempty]; omega), if_neg (by rw [← length_bytes]; omega)]
    by_cases hdots : segment = "." ∨ segment = ".."
    · simp [hdots]
    · by_cases hhyphen : startsWith segment "-" = true
      · simp [hdots, hhyphen]
      · rw [if_neg hdots, if_neg hhyphen, segmentBytesError_eq_none_iff]
        constructor
        · rintro ⟨hbytes, hescapes, hdecoded⟩
          exact ⟨⟨hsize, hbytes, hescapes, hdecoded⟩, fun h => h.elim hdots hhyphen⟩
        · rintro ⟨hwritten, -⟩
          exact ⟨hwritten.bytes, hwritten.escapes, hwritten.decoded⟩
  · have hnot : ¬Written (bytes segment) := fun hwritten => hsize hwritten.size
    split_ifs with hfirst hlong
    · simp [hnot]
    · simp [hnot]
    all_goals
      rw [hempty] at hfirst
      rw [← length_bytes] at hlong
      omega

theorem segmentsError_eq_none_iff (secretRef : String) (idx : ℕ) (segments : List String) :
    segmentsError secretRef idx segments = none ↔
      ∀ segment ∈ segments, Written (bytes segment) ∧ ¬Reserved (bytes segment) := by
  induction segments generalizing idx with
  | nil => simp [segmentsError]
  | cons segment segments ih =>
      simp [segmentsError, segmentError_eq_none_iff, ih]

/-! ## Splitting and joining -/

theorem splitSegments_join {secretRef : String} (h : startsWith secretRef "op://" = true) :
    secretRef = "op://" ++ "/".intercalate (splitSegments secretRef) := by
  obtain ⟨remainder, hremainder⟩ := List.isPrefixOf_iff_prefix.mp h
  have hdrop : secretRef.toList.drop 5 = remainder := by
    rw [← hremainder]
    rfl
  rw [← String.toList_inj, String.toList_append, String.toList_intercalate, splitSegments, hdrop,
    List.map_map]
  have hmap : (remainder.splitOn '/').map (String.toList ∘ String.ofList) =
      remainder.splitOn '/' := by
    simp [Function.comp_def]
  rw [hmap, ← hremainder]
  exact congrArg _ (List.intercalate_splitOn '/').symm

theorem slash_notMem_of_written {segment : String} (h : Written (bytes segment)) :
    '/' ∉ segment.toList := by
  intro hmem
  have hbyte : (47 : UInt8) ∈ bytes segment := List.mem_flatMap.mpr ⟨'/', hmem, by decide⟩
  exact absurd (h.bytes 47 hbyte) (by decide)

variable {secretRef : String} {segments : List String}

theorem remainder_of_joined (h : secretRef = "op://" ++ "/".intercalate segments) :
    secretRef.toList.drop 5 = ['/'].intercalate (segments.map String.toList) := by
  rw [h, String.toList_append, String.toList_intercalate]
  rfl

theorem Spells.splitSegments (h : Spells secretRef segments) :
    splitSegments secretRef = segments := by
  have hne : segments.map String.toList ≠ [] := by
    intro hnil
    rw [List.map_eq_nil_iff.mp hnil] at h
    exact absurd h.count (by decide)
  have hslash : ∀ cs ∈ segments.map String.toList, '/' ∉ cs := by
    intro cs hcs
    obtain ⟨segment, hsegment, rfl⟩ := List.mem_map.mp hcs
    exact slash_notMem_of_written (h.written segment hsegment)
  unfold SecretBoundary.splitSegments
  rw [remainder_of_joined h.joined, List.splitOn_intercalate '/' hslash hne, List.map_map]
  simp [Function.comp_def]

theorem Spells.notMem_empty (h : Spells secretRef segments) : "" ∉ segments := by
  intro hmem
  have hsize := (h.written "" hmem).size
  exact absurd hsize (by decide)

/-- A slash at an end of the remainder leaves an empty segment. -/
theorem mem_splitSegments_of_slash
    (h : (secretRef.toList.drop 5).head? = some '/' ∨ (secretRef.toList.drop 5).getLast? = some '/') :
    "" ∈ splitSegments secretRef := by
  refine List.mem_map.mpr ⟨[], ?_, rfl⟩
  rcases h with hhead | hlast
  · obtain ⟨rest, hrest⟩ := List.head?_eq_some_iff.mp hhead
    rw [hrest, ← List.nil_append ('/' :: rest), List.splitOn_append_cons_self]
    exact List.mem_append_left _ List.mem_cons_self
  · obtain ⟨front, hfront⟩ := List.getLast?_eq_some_iff.mp hlast
    rw [hfront, List.splitOn_append_cons_self]
    exact List.mem_append_right _ List.mem_cons_self

theorem parseSegments_isSome_iff (secretRef : String) (segments : List String) :
    (parseSegments secretRef segments).isSome = true ↔
      segments.length = 3 ∨ segments.length = 4 := by
  match segments with
  | [] | [_] | [_, _] | [_, _, _] | [_, _, _, _] | _ :: _ :: _ :: _ :: _ :: _ =>
      simp [parseSegments]

theorem joined_of_parseSegments {parsed : ParsedSecretReference}
    (h : parseSegments secretRef segments = some parsed) :
    parsed.joined = "op://" ++ "/".intercalate segments := by
  match segments, h with
  | [_, _, _], h =>
      cases h
      rfl
  | [_, _, _, _], h =>
      cases h
      rfl

/-- What is accepted: the text as written decides about dots and hyphens. -/
theorem validateSecretReference_ok_iff (parsed : ParsedSecretReference) :
    validateSecretReference secretRef = .ok parsed ↔
      ∃ segments, Spells secretRef segments ∧
        (∀ segment ∈ segments, ¬Reserved (bytes segment)) ∧
        parseSegments secretRef segments = some parsed := by
  unfold validateSecretReference
  constructor
  · intro h
    dsimp only at h
    split_ifs at h with hshort hlong hstart hslash
    split at h
    · cases h
    · rename_i parsed' hparse
      split at h
      · cases h
      · rename_i herror
        cases h
        have hsegments := (segmentsError_eq_none_iff _ _ _).mp herror
        refine ⟨splitSegments secretRef, ⟨⟨by omega, by omega⟩, ?_, ?_, ?_⟩, ?_, hparse⟩
        · rw [← parseSegments_isSome_iff secretRef, hparse]
          rfl
        · exact splitSegments_join (by simpa using hstart)
        · exact fun segment hsegment => (hsegments segment hsegment).1
        · exact fun segment hsegment => (hsegments segment hsegment).2
  · rintro ⟨segments, hspells, hreserved, hparse⟩
    have hstart : startsWith secretRef "op://" = true := by
      rw [startsWith, List.isPrefixOf_iff_prefix]
      nth_rewrite 1 [hspells.joined]
      rw [String.toList_append]
      exact List.prefix_append _ _
    have hslash : ¬((secretRef.toList.drop 5).head? = some '/' ∨
        (secretRef.toList.drop 5).getLast? = some '/') := fun h =>
      hspells.notMem_empty (hspells.splitSegments ▸ mem_splitSegments_of_slash h)
    have herror : segmentsError secretRef 0 segments = none :=
      (segmentsError_eq_none_iff _ _ _).mpr fun segment hsegment =>
        ⟨hspells.written segment hsegment, hreserved segment hsegment⟩
    have hsize := hspells.size
    dsimp only
    rw [if_neg (by omega), if_neg (by omega), if_neg (by simp [hstart]), if_neg hslash,
      hspells.splitSegments, hparse]
    dsimp only
    rw [herror]

theorem accepted_iff : (∃ parsed, validateSecretReference secretRef = .ok parsed) ↔
    ∃ segments, Spells secretRef segments ∧ ∀ segment ∈ segments, ¬Reserved (bytes segment) := by
  simp only [validateSecretReference_ok_iff]
  constructor
  · rintro ⟨_, segments, hspells, hreserved, -⟩
    exact ⟨segments, hspells, hreserved⟩
  · rintro ⟨segments, hspells, hreserved⟩
    obtain ⟨parsed, hparse⟩ := Option.isSome_iff_exists.mp
      ((parseSegments_isSome_iff secretRef segments).mpr hspells.count)
    exact ⟨parsed, segments, hspells, hreserved, hparse⟩

/-! ## The grammar and the check -/

theorem reserved_percentDecode {segment : List UInt8} (h : Reserved segment) :
    Reserved (percentDecode segment) := by
  rcases h with rfl | rfl | hhead
  · exact .inl rfl
  · exact .inr (.inl rfl)
  · obtain ⟨rest, rfl⟩ := List.head?_eq_some_iff.mp hhead
    rw [percentDecode_cons_of_ne (by decide)]
    exact .inr (.inr rfl)

theorem Spells.unique {others : List String} (h : Spells secretRef segments)
    (hothers : Spells secretRef others) : segments = others :=
  h.splitSegments.symm.trans hothers.splitSegments

/-- The check decides the documented grammar, except where an escape hides a dot
segment or a leading hyphen. -/
theorem validateSecretReference_grammatical_iff (secretRef : String) :
    (((∃ parsed, validateSecretReference secretRef = .ok parsed) ↔ Grammatical secretRef) ∧
      ∀ parsed, validateSecretReference secretRef = .ok parsed → parsed.joined = secretRef) ↔
      ¬Disguised secretRef := by
  have hjoined : ∀ parsed, validateSecretReference secretRef = .ok parsed →
      parsed.joined = secretRef := by
    intro parsed h
    obtain ⟨segments, hspells, -, hparse⟩ := (validateSecretReference_ok_iff parsed).mp h
    rw [joined_of_parseSegments hparse, ← hspells.joined]
  rw [and_iff_left hjoined, accepted_iff]
  constructor
  · rintro hiff ⟨segments, hspells, hraw, segment, hsegment, hdecoded⟩
    obtain ⟨others, hothers, hgrammar⟩ := hiff.mp ⟨segments, hspells, hraw⟩
    obtain rfl := hspells.unique hothers
    exact hgrammar segment hsegment hdecoded
  · intro hdisguised
    constructor
    · rintro ⟨segments, hspells, hraw⟩
      exact ⟨segments, hspells, fun segment hsegment hdecoded =>
        hdisguised ⟨segments, hspells, hraw, segment, hsegment, hdecoded⟩⟩
    · rintro ⟨segments, hspells, hgrammar⟩
      exact ⟨segments, hspells, fun segment hsegment hraw =>
        hgrammar segment hsegment (reserved_percentDecode hraw)⟩

/-- Two escaped dots are accepted as a vault. -/
theorem escaped_dots_accepted :
    (∃ parsed, validateSecretReference "op://%2e%2e/item/field" = .ok parsed) ∧
      ¬Grammatical "op://%2e%2e/item/field" := by
  have hok : validateSecretReference "op://%2e%2e/item/field" =
      .ok ⟨"op://%2e%2e/item/field", "%2e%2e", "item", none, "field"⟩ := by decide +kernel
  refine ⟨⟨_, hok⟩, ?_⟩
  rintro ⟨segments, hspells, hgrammar⟩
  have hsplit : splitSegments "op://%2e%2e/item/field" = ["%2e%2e", "item", "field"] := by
    decide +kernel
  have hmem : "%2e%2e" ∈ segments := by
    rw [← hspells.splitSegments, hsplit]
    exact List.mem_cons_self
  have hdots : percentDecode (bytes "%2e%2e") = [dot, dot] := by decide +kernel
  exact hgrammar _ hmem (hdots ▸ .inr (.inl rfl))

end BlackMonolith.SecretBoundary
