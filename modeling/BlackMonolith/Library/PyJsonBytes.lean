import Mathlib
import BlackMonolith.Library.PyJsonText
import BlackMonolith.Library.Utf8

/-!
# JSON from bytes

`json.loads` takes the encoding of a list of bytes from its first few and decodes it
with surrogates let through, as the UTF encodings write them. `str.strip` of bytes
knows the white space of ASCII only.
-/
namespace BlackMonolith.Library
namespace PyJsonText

abbrev Bytes := List UInt8

namespace Bytes

def ofString (s : String) : Bytes := Utf8.encode s.toList

def isSpace (b : UInt8) : Bool := b = 0x20 || (0x09 ≤ b && b ≤ 0x0D)

/-- `bytes.strip`. -/
def strip (bs : Bytes) : Bytes := trimBoth isSpace bs

/-- `bytes.startswith`. -/
def startsWith (bs : Bytes) (s : String) : Bool := (ofString s).isPrefixOf bs

end Bytes

inductive ByteOrder
  | big
  | little
deriving Repr, DecidableEq

/-- The encodings a text may be in, those with a byte order mark apart. -/
inductive Encoding
  | utf8
  | utf8Sig
  | utf16 (order : ByteOrder)
  | utf16Marked (order : ByteOrder)
  | utf32 (order : ByteOrder)
  | utf32Marked (order : ByteOrder)
deriving Repr, DecidableEq

/-- `json.detect_encoding`. -/
def detectEncoding (bs : Bytes) : Encoding :=
  if [0x00, 0x00, 0xFE, 0xFF].isPrefixOf bs then .utf32Marked .big
  else if [0xFF, 0xFE, 0x00, 0x00].isPrefixOf bs then .utf32Marked .little
  else if [0xFE, 0xFF].isPrefixOf bs then .utf16Marked .big
  else if [0xFF, 0xFE].isPrefixOf bs then .utf16Marked .little
  else if [0xEF, 0xBB, 0xBF].isPrefixOf bs then .utf8Sig
  else
    match bs with
    | a :: b :: c :: d :: _ =>
        if a = 0 then if b = 0 then .utf32 .big else .utf16 .big
        else if b = 0 then if c = 0 ∧ d = 0 then .utf32 .little else .utf16 .little
        else .utf8
    | [a, b] =>
        if a = 0 then .utf16 .big
        else if b = 0 then .utf16 .little
        else .utf8
    | _ => .utf8

def point (n : ℕ) : CodePoint := Fin.ofNat 0x110000 n

/-- The value of a byte that continues a sequence. -/
def continuation (low high : ℕ) (b : UInt8) : Option ℕ :=
  if low ≤ b.toNat ∧ b.toNat ≤ high then some (b.toNat - 0x80) else none

/-- UTF-8 with surrogates. -/
def decodeUtf8 : Bytes → Option Points
  | [] => some []
  | a :: t =>
      if a.toNat < 0x80 then (decodeUtf8 t).map (point a.toNat :: ·)
      else if a.toNat < 0xC2 then none
      else
        match t with
        | [] => none
        | b :: t =>
            if a.toNat < 0xE0 then
              match continuation 0x80 0xBF b with
              | some m => (decodeUtf8 t).map (point ((a.toNat - 0xC0) * 64 + m) :: ·)
              | none => none
            else
              match t with
              | [] => none
              | c :: t =>
                  if a.toNat < 0xF0 then
                    match continuation (if a = 0xE0 then 0xA0 else 0x80) 0xBF b,
                        continuation 0x80 0xBF c with
                    | some m, some n =>
                        (decodeUtf8 t).map (point (((a.toNat - 0xE0) * 64 + m) * 64 + n) :: ·)
                    | _, _ => none
                  else if a.toNat < 0xF5 then
                    match t with
                    | [] => none
                    | d :: t =>
                        match continuation (if a = 0xF0 then 0x90 else 0x80)
                            (if a = 0xF4 then 0x8F else 0xBF) b,
                            continuation 0x80 0xBF c, continuation 0x80 0xBF d with
                        | some m, some n, some k =>
                            (decodeUtf8 t).map
                              (point ((((a.toNat - 0xF0) * 64 + m) * 64 + n) * 64 + k) :: ·)
                        | _, _, _ => none
                  else none

/-- The code units of UTF-16. -/
def unitsOf (order : ByteOrder) : Bytes → Option (List ℕ)
  | [] => some []
  | [_] => none
  | a :: b :: t =>
      let u := match order with
        | .big => a.toNat * 256 + b.toNat
        | .little => b.toNat * 256 + a.toNat
      (unitsOf order t).map (u :: ·)

/-- The code points of code units, with a surrogate that has no other as itself. -/
def pairUnits : List ℕ → Points
  | [] => []
  | [u] => [point u]
  | u :: v :: t =>
      if isHigh u && isLow v then
        point (0x10000 + (u - 0xD800) * 0x400 + (v - 0xDC00)) :: pairUnits t
      else point u :: pairUnits (v :: t)

def decodeUtf32 (order : ByteOrder) : Bytes → Option Points
  | [] => some []
  | a :: b :: c :: d :: t =>
      let n := match order with
        | .big => ((a.toNat * 256 + b.toNat) * 256 + c.toNat) * 256 + d.toNat
        | .little => ((d.toNat * 256 + c.toNat) * 256 + b.toNat) * 256 + a.toNat
      if n < 0x110000 then (decodeUtf32 order t).map (point n :: ·) else none
  | _ => none

/-- `bytes.decode` with `surrogatepass`. -/
def Encoding.decode (bs : Bytes) : Encoding → Option Points
  | utf8 => decodeUtf8 bs
  | utf8Sig => decodeUtf8 (bs.drop 3)
  | utf16 order => (unitsOf order bs).map pairUnits
  | utf16Marked order => (unitsOf order (bs.drop 2)).map pairUnits
  | utf32 order => decodeUtf32 order bs
  | utf32Marked order => decodeUtf32 order (bs.drop 4)

/-- `json.loads` of bytes. -/
def loadsBytes (floatRepr : Points → String) (bs : Bytes) : Option PyJson :=
  ((detectEncoding bs).decode bs).bind (loads floatRepr)

/-- `bytes.decode("utf-8")`. -/
def decodeStrict (bs : Bytes) : Option Points :=
  (decodeUtf8 bs).filter fun t => (PyString.mk t).Encodable

/-- The UTF-8 bytes of a text in ASCII. -/
def Bytes.ofAscii (t : Points) : Bytes := t.map fun c => UInt8.ofNat c.val

theorem decodeUtf8_ofAscii {t : Points} (h : ∀ c ∈ t, c.val < 0x80) :
    decodeUtf8 (Bytes.ofAscii t) = some t := by
  induction t with
  | nil => rfl
  | cons c t ih =>
      obtain ⟨hc, ht⟩ := List.forall_mem_cons.mp h
      have hval : (UInt8.ofNat c.val).toNat = c.val := Utf8.toNat_ofNat_of_lt (by omega)
      have hpoint : point c.val = c := Fin.ext (Nat.mod_eq_of_lt c.isLt)
      show decodeUtf8 (UInt8.ofNat c.val :: Bytes.ofAscii t) = _
      unfold decodeUtf8
      rw [hval, if_pos hc, ih ht, Option.map_some, hpoint]

theorem decodeStrict_ofAscii {t : Points} (h : ∀ c ∈ t, c.val < 0x80) :
    decodeStrict (Bytes.ofAscii t) = some t := by
  have hplain : (PyString.mk t).Encodable := by
    intro c hc
    have hlt := h c hc
    simp only [PyString.isSurrogate, Bool.and_eq_false_iff, decide_eq_false_iff_not]
    omega
  unfold decodeStrict
  rw [decodeUtf8_ofAscii h]
  exact Option.filter_some_pos (decide_eq_true hplain)

theorem encodable_of_decodeStrict {bs : Bytes} {t : Points} (h : decodeStrict bs = some t) :
    (PyString.mk t).Encodable := of_decide_eq_true (Option.filter_eq_some_iff.mp h).2

end PyJsonText

end BlackMonolith.Library
