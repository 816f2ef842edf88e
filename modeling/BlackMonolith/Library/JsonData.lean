import BlackMonolith.Library.InsertionMap
import BlackMonolith.Library.JsonEscapes
import Mathlib.Data.List.Basic

/-!
# JSON texts of JavaScript

`JSON.stringify` writes a value without white space; `JSON.parse` reads a text, the
last member of a name standing for all of them. What is written is read back. The
numbers are a parameter: each finite one has a text of its own, and 0 and -0 are one
number. One that is too large is read as infinite, and an infinite one is written null.
-/
namespace BlackMonolith.Library

abbrev CodeUnits := List UInt16

/-- What `JSON.parse` returns. -/
inductive JsonValue (ν : Type)
  | null
  | bool (b : Bool)
  | number (n : ν)
  | string (s : JsString)
  | array (items : List (JsonValue ν))
  | object (members : List (JsString × JsonValue ν))
deriving Inhabited

/-- A value in memory: a member may be `undefined`. -/
inductive JsData (ν : Type)
  | null
  | bool (b : Bool)
  | number (n : ν)
  | string (s : JsString)
  | array (items : List (JsData ν))
  | object (members : List (JsString × Option (JsData ν)))
deriving Inhabited

namespace JsonData

def isDigit (u : UInt16) : Bool := 0x30 ≤ u && u ≤ 0x39

/-- The units of a number's text. -/
def isNumberUnit (u : UInt16) : Bool :=
  isDigit u || u == 0x2D || u == 0x2B || u == 0x2E || u == 0x65 || u == 0x45

/-- `Number.prototype.toString`, `Number.isFinite`, and the numbers of JSON texts. -/
structure Numerals (ν : Type) where
  text : ν → CodeUnits
  finite : ν → Bool
  ofText : CodeUnits → Option ν
  ofNat : ℕ → ν
  text_ne_nil : ∀ n, text n ≠ []
  text_units : ∀ n, finite n = true → (text n).all isNumberUnit
  ofText_text : ∀ n, finite n = true → ofText (text n) = some n

def ascii (s : String) : CodeUnits := (JsString.ofString s).units

/-! ## Writing -/

def hexDigit (n : ℕ) : UInt16 := UInt16.ofNat (if n < 10 then 0x30 + n else 0x57 + n)

def shortLetter (u : UInt16) : UInt16 :=
  if u = 8 then 0x62 else if u = 9 then 0x74 else if u = 10 then 0x6E
  else if u = 12 then 0x66 else if u = 13 then 0x72 else u

def pieceText : JsString.JsonUnit → CodeUnits
  | .literal u => [u]
  | .short u => [0x5C, shortLetter u]
  | .escape u => [0x5C, 0x75, hexDigit (u.toNat / 4096 % 16), hexDigit (u.toNat / 256 % 16),
      hexDigit (u.toNat / 16 % 16), hexDigit (u.toNat % 16)]

def chars (s : JsString) : CodeUnits := (JsString.quoteUnits s.units).flatMap pieceText

/-- A string between quotation marks. -/
def quoted (s : JsString) : CodeUnits := 0x22 :: (chars s ++ [0x22])

def joined (pieces : List CodeUnits) : CodeUnits := [0x2C].intercalate pieces

section
variable {ν : Type} (numerals : Numerals ν)

mutual
/-- The text of a value whose numbers are finite. -/
def textOf : JsonValue ν → CodeUnits
  | .null => ascii "null"
  | .bool b => ascii (if b then "true" else "false")
  | .number n => numerals.text n
  | .string s => quoted s
  | .array items => 0x5B :: (joined (itemTexts items) ++ [0x5D])
  | .object members => 0x7B :: (joined (memberTexts members) ++ [0x7D])

def itemTexts : List (JsonValue ν) → List CodeUnits
  | [] => []
  | item :: items => textOf item :: itemTexts items

def memberTexts : List (JsString × JsonValue ν) → List CodeUnits
  | [] => []
  | (key, v) :: members => (quoted key ++ 0x3A :: textOf v) :: memberTexts members
end

mutual
/-- What a text can carry of a value. -/
def plain : JsData ν → JsonValue ν
  | .null => .null
  | .bool b => .bool b
  | .number n => if numerals.finite n then .number n else .null
  | .string s => .string s
  | .array items => .array (plainItems items)
  | .object members => .object (plainMembers members)

def plainItems : List (JsData ν) → List (JsonValue ν)
  | [] => []
  | item :: items => plain item :: plainItems items

def plainMembers : List (JsString × Option (JsData ν)) → List (JsString × JsonValue ν)
  | [] => []
  | (_, none) :: members => plainMembers members
  | (key, some v) :: members => (key, plain v) :: plainMembers members
end

/-- `JSON.stringify`. -/
def stringify (v : JsData ν) : CodeUnits := textOf numerals (plain numerals v)

mutual
/-- All numbers are finite. -/
def Finite : JsonValue ν → Prop
  | .null | .bool _ | .string _ => True
  | .number n => numerals.finite n = true
  | .array items => ItemsFinite items
  | .object members => MembersFinite members

def ItemsFinite : List (JsonValue ν) → Prop
  | [] => True
  | item :: items => Finite item ∧ ItemsFinite items

def MembersFinite : List (JsString × JsonValue ν) → Prop
  | [] => True
  | (_, v) :: members => Finite v ∧ MembersFinite members
end

end

section
variable {ν : Type}

mutual
/-- A parsed value as it stands in memory. -/
def toData : JsonValue ν → JsData ν
  | .null => .null
  | .bool b => .bool b
  | .number n => .number n
  | .string s => .string s
  | .array items => .array (toDataItems items)
  | .object members => .object (toDataMembers members)

def toDataItems : List (JsonValue ν) → List (JsData ν)
  | [] => []
  | item :: items => toData item :: toDataItems items

def toDataMembers : List (JsString × JsonValue ν) → List (JsString × Option (JsData ν))
  | [] => []
  | (key, v) :: members => (key, some (toData v)) :: toDataMembers members
end

section
variable (numerals : Numerals ν)

mutual
theorem plain_toData : (v : JsonValue ν) → Finite numerals v → plain numerals (toData v) = v
  | .null, _ | .bool _, _ | .string _, _ => rfl
  | .number _, hv => if_pos hv
  | .array items, hv => congrArg JsonValue.array (plainItems_toDataItems items hv)
  | .object members, hv => congrArg JsonValue.object (plainMembers_toDataMembers members hv)

theorem plainItems_toDataItems : (items : List (JsonValue ν)) → ItemsFinite numerals items →
    plainItems numerals (toDataItems items) = items
  | [], _ => rfl
  | item :: items, hv =>
      congrArg₂ List.cons (plain_toData item hv.1) (plainItems_toDataItems items hv.2)

theorem plainMembers_toDataMembers : (members : List (JsString × JsonValue ν)) →
    MembersFinite numerals members → plainMembers numerals (toDataMembers members) = members
  | [], _ => rfl
  | (key, v) :: members, hv =>
      congrArg₂ List.cons (congrArg (Prod.mk key) (plain_toData v hv.1))
        (plainMembers_toDataMembers members hv.2)
end

mutual
theorem finite_plain : (v : JsData ν) → Finite numerals (plain numerals v)
  | .null | .bool _ | .string _ => trivial
  | .number n => by
      rw [plain]
      split_ifs with hn
      · exact hn
      · exact trivial
  | .array items => itemsFinite_plainItems items
  | .object members => membersFinite_plainMembers members

theorem itemsFinite_plainItems : (items : List (JsData ν)) →
    ItemsFinite numerals (plainItems numerals items)
  | [] => trivial
  | item :: items => ⟨finite_plain item, itemsFinite_plainItems items⟩

theorem membersFinite_plainMembers : (members : List (JsString × Option (JsData ν))) →
    MembersFinite numerals (plainMembers numerals members)
  | [] => trivial
  | (_, none) :: members => membersFinite_plainMembers members
  | (_, some v) :: members => ⟨finite_plain v, membersFinite_plainMembers members⟩
end

end

mutual
/-- No two members of an object have one name. -/
def Distinct : JsonValue ν → Prop
  | .null | .bool _ | .number _ | .string _ => True
  | .array items => ItemsDistinct items
  | .object members => (members.map Prod.fst).Nodup ∧ MembersDistinct members

def ItemsDistinct : List (JsonValue ν) → Prop
  | [] => True
  | item :: items => Distinct item ∧ ItemsDistinct items

def MembersDistinct : List (JsString × JsonValue ν) → Prop
  | [] => True
  | (_, v) :: members => Distinct v ∧ MembersDistinct members
end

end

/-! ## Reading -/

def hexVal (u : UInt16) : Option ℕ :=
  if 0x30 ≤ u ∧ u ≤ 0x39 then some (u.toNat - 0x30)
  else if 0x61 ≤ u ∧ u ≤ 0x66 then some (u.toNat - 0x57)
  else if 0x41 ≤ u ∧ u ≤ 0x46 then some (u.toNat - 0x37)
  else none

/-- Four hexadecimal digits and what follows them. -/
def readHex : CodeUnits → Option (UInt16 × CodeUnits)
  | a :: b :: c :: d :: t =>
      match hexVal a, hexVal b, hexVal c, hexVal d with
      | some a, some b, some c, some d =>
          some (UInt16.ofNat (a * 4096 + b * 256 + c * 16 + d), t)
      | _, _, _, _ => none
  | _ => none

def simpleEscape (u : UInt16) : Option UInt16 :=
  if u = 0x22 ∨ u = 0x5C ∨ u = 0x2F then some u
  else if u = 0x62 then some 8
  else if u = 0x66 then some 12
  else if u = 0x6E then some 10
  else if u = 0x72 then some 13
  else if u = 0x74 then some 9
  else none

/-- What stands after a backslash. -/
def readEscape : CodeUnits → Option (UInt16 × CodeUnits)
  | [] => none
  | u :: t => if u = 0x75 then readHex t else (simpleEscape u).map fun v => (v, t)

/-- A string, after the opening quotation mark. -/
def readChars : ℕ → CodeUnits → Option (CodeUnits × CodeUnits)
  | 0, _ => none
  | _ + 1, [] => none
  | fuel + 1, u :: t =>
      if u = 0x22 then some ([], t)
      else if u = 0x5C then
        (readEscape t).bind fun (v, t) => (readChars fuel t).map fun (s, t) => (v :: s, t)
      else if u < 0x20 then none
      else (readChars fuel t).map fun (s, t) => (u :: s, t)

def isBlank (u : UInt16) : Bool := u == 0x20 || u == 0x09 || u == 0x0A || u == 0x0D

def skip (t : CodeUnits) : CodeUnits := t.dropWhile isBlank

/-- The last value of a name, at its first place. -/
def membersOf {ν : Type} (pairs : List (JsString × JsonValue ν)) : List (JsString × JsonValue ν) :=
  pairs.foldl (fun members pair => InsertionMap.setIn pair.1 pair.2 members) []

section
variable {ν : Type} (numerals : Numerals ν)

def constants : List (String × JsonValue ν) :=
  [("null", .null), ("true", .bool true), ("false", .bool false)]

def readConstant (t : CodeUnits) : Option (JsonValue ν × CodeUnits) :=
  constants.findSome? fun (word, v) =>
    if (ascii word).isPrefixOf t then some (v, t.drop (ascii word).length) else none

/-- A number goes on as long as its units do. -/
def readNumber (t : CodeUnits) : Option (JsonValue ν × CodeUnits) :=
  (numerals.ofText (t.takeWhile isNumberUnit)).map fun n => (.number n, t.dropWhile isNumberUnit)

mutual
def readValue : ℕ → CodeUnits → Option (JsonValue ν × CodeUnits)
  | 0, _ => none
  | _ + 1, [] => none
  | fuel + 1, u :: t =>
      if u = 0x22 then (readChars fuel t).map fun (s, t) => (.string ⟨s⟩, t)
      else if u = 0x5B then
        if (skip t).head? = some 0x5D then some (.array [], (skip t).tail)
        else (readItems fuel (skip t)).map fun (items, t) => (.array items, t)
      else if u = 0x7B then
        if (skip t).head? = some 0x7D then some (.object [], (skip t).tail)
        else (readMembers fuel (skip t)).map fun (pairs, t) => (.object (membersOf pairs), t)
      else if isNumberUnit u then readNumber numerals (u :: t)
      else readConstant (u :: t)

/-- The items that are left of an array, from the beginning of one. -/
def readItems : ℕ → CodeUnits → Option (List (JsonValue ν) × CodeUnits)
  | 0, _ => none
  | fuel + 1, t =>
      (readValue fuel t).bind fun (v, t) =>
        if (skip t).head? = some 0x5D then some ([v], (skip t).tail)
        else if (skip t).head? = some 0x2C then
          (readItems fuel (skip (skip t).tail)).map fun (items, t) => (v :: items, t)
        else none

/-- The members that are left of an object, from the beginning of a key. -/
def readMembers : ℕ → CodeUnits → Option (List (JsString × JsonValue ν) × CodeUnits)
  | 0, _ => none
  | fuel + 1, t =>
      if t.head? = some 0x22 then
        (readChars fuel t.tail).bind fun (key, t) =>
          if (skip t).head? = some 0x3A then
            (readValue fuel (skip (skip t).tail)).bind fun (v, t) =>
              if (skip t).head? = some 0x7D then some ([(⟨key⟩, v)], (skip t).tail)
              else if (skip t).head? = some 0x2C then
                (readMembers fuel (skip (skip t).tail)).map fun (pairs, t) => ((⟨key⟩, v) :: pairs, t)
              else none
          else none
      else none
end

/-- `JSON.parse`. -/
def parse (t : CodeUnits) : Option (JsonValue ν) :=
  (readValue numerals (t.length + 1) (skip t)).bind fun (v, rest) =>
    if (skip rest).isEmpty then some v else none

end

end JsonData
end BlackMonolith.Library
