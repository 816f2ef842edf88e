import Mathlib.Data.List.Basic

/-!
# The form-urlencoded query

A query is a list of pairs, each a key and a value in percent encoding. What is
serialized is read back as it was.
-/
namespace BlackMonolith.Library.FormUrlencoded

def hexDigit (n : ℕ) : Char := Char.ofNat (if n < 10 then 48 + n else 55 + n)

def hexValue (c : Char) : ℕ := if c.toNat < 58 then c.toNat - 48 else c.toNat - 55

/-- The bytes that stand for themselves. -/
def isUnreserved (n : ℕ) : Bool :=
  (48 ≤ n && n ≤ 57) || (65 ≤ n && n ≤ 90) || (97 ≤ n && n ≤ 122) || n == 42 || n == 45 ||
    n == 46 || n == 95

def encodeByte (b : UInt8) : List Char :=
  if isUnreserved b.toNat then [Char.ofNat b.toNat]
  else if b = 32 then ['+']
  else ['%', hexDigit (b.toNat / 16), hexDigit (b.toNat % 16)]

def decodeBytes : List Char → List UInt8
  | [] => []
  | '%' :: h :: l :: cs => UInt8.ofNat (hexValue h * 16 + hexValue l) :: decodeBytes cs
  | c :: cs => (if c = '+' then 32 else UInt8.ofNat c.toNat) :: decodeBytes cs

def encode (s : String) : List Char := s.toByteArray.data.toList.flatMap encodeByte

def decode (cs : List Char) : String :=
  match (ByteArray.mk (decodeBytes cs).toArray).utf8Decode? with
  | some s => String.ofList s.toList
  | none => ""

def serialize (pairs : List (String × String)) : List Char :=
  ['&'].intercalate (pairs.map fun p => encode p.1 ++ '=' :: encode p.2)

/-- A field is split at its first equals sign. -/
def parseField (cs : List Char) : String × String :=
  (decode (cs.takeWhile (· != '=')), decode ((cs.dropWhile (· != '=')).drop 1))

def parse (cs : List Char) : List (String × String) :=
  if cs = [] then [] else (cs.splitOn '&').map parseField

/-- A byte is encoded without a separator and read back. -/
def ReadsBack (b : UInt8) : Bool :=
  !(encodeByte b).contains '&' && !(encodeByte b).contains '=' &&
    match encodeByte b with
    | [c] => c != '%' && (if c = '+' then 32 else UInt8.ofNat c.toNat) == b
    | ['%', h, l] => UInt8.ofNat (hexValue h * 16 + hexValue l) == b
    | _ => false

theorem readsBack (b : UInt8) : ReadsBack b = true := by
  have hall : ∀ n : Fin 256, ReadsBack (UInt8.ofNat n) = true := by decide +kernel
  have hb := hall ⟨b.toNat, b.toNat_lt⟩
  rwa [UInt8.ofNat_toNat] at hb

theorem decodeBytes_encodeByte (b : UInt8) (cs : List Char) :
    decodeBytes (encodeByte b ++ cs) = b :: decodeBytes cs := by
  have hb := readsBack b
  unfold ReadsBack at hb
  split at hb
  · next c heq =>
      simp only [Bool.and_eq_true, bne_iff_ne, ne_eq, beq_iff_eq] at hb
      rw [heq, List.singleton_append, decodeBytes, hb.2.2]
      intro h l cs' hc
      exact absurd hc hb.2.1
  · next h l heq =>
      simp only [Bool.and_eq_true, beq_iff_eq] at hb
      rw [heq]
      change UInt8.ofNat (hexValue h * 16 + hexValue l) :: decodeBytes cs = _
      rw [hb.2]
  · simp at hb

theorem decodeBytes_flatMap (bs : List UInt8) : decodeBytes (bs.flatMap encodeByte) = bs := by
  induction bs with
  | nil => rfl
  | cons b bs ih => rw [List.flatMap_cons, decodeBytes_encodeByte, ih]

theorem decode_encode (s : String) : decode (encode s) = s := by
  unfold decode encode
  rw [decodeBytes_flatMap, Array.toArray_toList, ← String.utf8Encode_toList,
    List.utf8Decode?_utf8Encode]
  exact String.ofList_toList

theorem separators_notMem_encode (s : String) : '&' ∉ encode s ∧ '=' ∉ encode s := by
  unfold encode
  constructor
  · intro h
    obtain ⟨b, -, hb⟩ := List.mem_flatMap.mp h
    have hread := readsBack b
    simp only [ReadsBack, Bool.and_eq_true, Bool.not_eq_true', List.contains_eq_mem,
      decide_eq_false_iff_not] at hread
    exact hread.1.1 hb
  · intro h
    obtain ⟨b, -, hb⟩ := List.mem_flatMap.mp h
    have hread := readsBack b
    simp only [ReadsBack, Bool.and_eq_true, Bool.not_eq_true', List.contains_eq_mem,
      decide_eq_false_iff_not] at hread
    exact hread.1.2 hb

theorem parseField_encode (p : String × String) :
    parseField (encode p.1 ++ '=' :: encode p.2) = p := by
  have hkey : ∀ c ∈ encode p.1, (c != '=') = true := by
    intro c hc
    rw [bne_iff_ne]
    rintro rfl
    exact (separators_notMem_encode p.1).2 hc
  unfold parseField
  rw [List.takeWhile_append_of_pos hkey, List.dropWhile_append_of_pos hkey]
  simp [decode_encode]

theorem serialize_ne_nil {pairs : List (String × String)} (h : pairs ≠ []) :
    serialize pairs ≠ [] := by
  cases pairs with
  | nil => exact absurd rfl h
  | cons p pairs =>
      unfold serialize
      cases pairs with
      | nil => simp
      | cons p' pairs => simp [List.intercalate]

theorem parse_serialize (pairs : List (String × String)) : parse (serialize pairs) = pairs := by
  by_cases hne : pairs = []
  · subst hne
    rfl
  · unfold parse
    rw [if_neg (serialize_ne_nil hne)]
    unfold serialize
    rw [List.splitOn_intercalate]
    · rw [List.map_map]
      apply List.map_id''
      exact parseField_encode
    · intro field hfield hmem
      obtain ⟨p, -, rfl⟩ := List.mem_map.mp hfield
      rcases List.mem_append.mp hmem with hmem | hmem
      · exact (separators_notMem_encode p.1).1 hmem
      · rcases List.mem_cons.mp hmem with heq | hmem
        · cases heq
        · exact (separators_notMem_encode p.2).1 hmem
    · simpa using hne

end BlackMonolith.Library.FormUrlencoded
