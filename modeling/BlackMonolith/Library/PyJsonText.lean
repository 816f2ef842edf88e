import BlackMonolith.Library.InsertionMap
import BlackMonolith.Library.Python
import Mathlib.Data.Nat.Digits.Defs

/-!
# The text of Python's JSON values

`dumps` writes a value with every character that is not printable ASCII escaped, in
one line or indented; `loads` reads a text. What is written is read back, unless two
surrogates of a string come to stand for one character, or an integer has more digits
than are converted. What `float` makes of a number's text is a parameter.
-/
namespace BlackMonolith.Library
namespace PyJsonText

abbrev Points := List CodePoint

def chars (s : String) : Points := (PyString.ofString s).points

/-! ## Strings -/

def hexDigit (n : ℕ) : CodePoint := Fin.ofNat 0x110000 (if n < 10 then 0x30 + n else 0x57 + n)

/-- A code unit after a backslash. -/
def unicodeEscape (n : ℕ) : Points :=
  0x5C :: 0x75 :: [hexDigit (n / 4096 % 16), hexDigit (n / 256 % 16), hexDigit (n / 16 % 16),
    hexDigit (n % 16)]

/-- `ensure_ascii`. -/
def escape (c : CodePoint) : Points :=
  if c = 0x22 then [0x5C, 0x22]
  else if c = 0x5C then [0x5C, 0x5C]
  else if c = 0x0A then [0x5C, 0x6E]
  else if c = 0x0D then [0x5C, 0x72]
  else if c = 0x09 then [0x5C, 0x74]
  else if c = 0x0C then [0x5C, 0x66]
  else if c = 0x08 then [0x5C, 0x62]
  else if 0x20 ≤ c.val ∧ c.val ≤ 0x7E then [c]
  else if c.val < 0x10000 then unicodeEscape c.val
  else
    unicodeEscape (0xD800 + (c.val - 0x10000) / 0x400) ++
      unicodeEscape (0xDC00 + (c.val - 0x10000) % 0x400)

def quoted (s : PyString) : Points := 0x22 :: (s.points.flatMap escape ++ [0x22])

def isHigh (n : ℕ) : Bool := 0xD800 ≤ n && n ≤ 0xDBFF
def isLow (n : ℕ) : Bool := 0xDC00 ≤ n && n ≤ 0xDFFF

def hexVal (c : CodePoint) : Option ℕ :=
  if 0x30 ≤ c.val ∧ c.val ≤ 0x39 then some (c.val - 0x30)
  else if 0x61 ≤ c.val ∧ c.val ≤ 0x66 then some (c.val - 0x57)
  else if 0x41 ≤ c.val ∧ c.val ≤ 0x46 then some (c.val - 0x37)
  else none

/-- Four hexadecimal digits and what follows them. -/
def readHex : Points → Option (ℕ × Points)
  | a :: b :: c :: d :: t =>
      match hexVal a, hexVal b, hexVal c, hexVal d with
      | some a, some b, some c, some d => some (a * 4096 + b * 256 + c * 16 + d, t)
      | _, _, _, _ => none
  | _ => none

def simpleEscape (c : CodePoint) : Option CodePoint :=
  if c = 0x22 ∨ c = 0x5C ∨ c = 0x2F then some c
  else if c = 0x62 then some 0x08
  else if c = 0x66 then some 0x0C
  else if c = 0x6E then some 0x0A
  else if c = 0x72 then some 0x0D
  else if c = 0x74 then some 0x09
  else none

/-- The surrogate that completes the one before it, if an escape of one follows. -/
def readLow (n : ℕ) (t : Points) : Option (CodePoint × Points) :=
  if t.take 2 = [0x5C, 0x75] then
    (readHex (t.drop 2)).map fun (m, rest) =>
      if isLow m then
        (Fin.ofNat 0x110000 (0x10000 + (n - 0xD800) * 0x400 + (m - 0xDC00)), rest)
      else (Fin.ofNat 0x110000 n, t)
  else some (Fin.ofNat 0x110000 n, t)

/-- What stands after a backslash. -/
def readEscape : Points → Option (CodePoint × Points)
  | [] => none
  | c :: t =>
      if c = 0x75 then
        (readHex t).bind fun (n, t) =>
          if isHigh n then readLow n t else some (Fin.ofNat 0x110000 n, t)
      else (simpleEscape c).map fun d => (d, t)

/-- `scanstring`, after the opening quotation mark. -/
def readChars : ℕ → Points → Option (Points × Points)
  | 0, _ => none
  | _ + 1, [] => none
  | fuel + 1, c :: t =>
      if c = 0x22 then some ([], t)
      else if c = 0x5C then
        (readEscape t).bind fun (d, t) => (readChars fuel t).map fun (s, t) => (d :: s, t)
      else if c.val < 0x20 then none
      else (readChars fuel t).map fun (s, t) => (c :: s, t)

/-! ## Numbers -/

/-- The limit on the digits of an integer that is converted from or to text. -/
def maxStrDigits : ℕ := 4300

def digitsOf (n : ℕ) : List ℕ := if n = 0 then [0] else (Nat.digits 10 n).reverse

def decimal (n : ℕ) : Points := (digitsOf n).map fun d => Fin.ofNat 0x110000 (0x30 + d)

def intText (n : ℤ) : Points := if n < 0 then 0x2D :: decimal n.natAbs else decimal n.natAbs

/-- `float.__repr__`, and the names of the values that have no numeral. -/
def floatText (r : String) : Points :=
  if r = "nan" then chars "NaN"
  else if r = "inf" then chars "Infinity"
  else if r = "-inf" then chars "-Infinity"
  else chars r

def isDigit (c : CodePoint) : Bool := 0x30 ≤ c.val && c.val ≤ 0x39

def readSign : Points → Points × Points
  | [] => ([], [])
  | c :: t => if c = 0x2D then ([c], t) else ([], c :: t)

/-- Digits without a leading zero. -/
def readInteger : Points → Option (Points × Points)
  | [] => none
  | c :: t =>
      if c = 0x30 then some ([c], t)
      else if isDigit c then some (c :: t.takeWhile isDigit, t.dropWhile isDigit)
      else none

def readFraction : Points → Points × Points
  | [] => ([], [])
  | c :: t =>
      if c = 0x2E ∧ t.takeWhile isDigit ≠ [] then (c :: t.takeWhile isDigit, t.dropWhile isDigit)
      else ([], c :: t)

def readExponentSign : Points → Points × Points
  | [] => ([], [])
  | c :: t => if c = 0x2D ∨ c = 0x2B then ([c], t) else ([], c :: t)

def readExponent : Points → Points × Points
  | [] => ([], [])
  | c :: t =>
      let (sign, rest) := readExponentSign t
      if (c = 0x65 ∨ c = 0x45) ∧ rest.takeWhile isDigit ≠ [] then
        (c :: (sign ++ rest.takeWhile isDigit), rest.dropWhile isDigit)
      else ([], c :: t)

def valueOf (digits : Points) : ℕ := digits.foldl (fun n c => n * 10 + (c.val - 0x30)) 0

section
variable (floatRepr : Points → String)

def readNumber (t : Points) : Option (PyJson × Points) :=
  let (sign, t) := readSign t
  (readInteger t).bind fun (digits, t) =>
    let (fraction, t) := readFraction t
    let (exponent, t) := readExponent t
    if fraction = [] ∧ exponent = [] then
      if maxStrDigits < digits.length then none
      else some (.int (if sign = [] then valueOf digits else -valueOf digits), t)
    else some (.float (floatRepr (sign ++ digits ++ fraction ++ exponent)), t)

/-! ## Values -/

def isWhitespace (c : CodePoint) : Bool := c = 0x20 || c = 0x09 || c = 0x0A || c = 0x0D

def skip (t : Points) : Points := t.dropWhile isWhitespace

def constants : List (String × PyJson) :=
  [("null", .none), ("true", .bool true), ("false", .bool false), ("NaN", .float "nan"),
    ("Infinity", .float "inf"), ("-Infinity", .float "-inf")]

def readConstant (t : Points) : Option (PyJson × Points) :=
  constants.findSome? fun (word, v) =>
    if (chars word).isPrefixOf t then some (v, t.drop (chars word).length) else none

/-- `dict(pairs)`: a key keeps its first place and its last value. -/
def dictOf (pairs : List (PyString × PyJson)) : List (PyString × PyJson) :=
  pairs.foldl (fun d pair => InsertionMap.setIn pair.1 pair.2 d) []

mutual
/-- `scan_once`. -/
def readValue : ℕ → Points → Option (PyJson × Points)
  | 0, _ => none
  | _ + 1, [] => none
  | fuel + 1, c :: t =>
      if c = 0x22 then (readChars fuel t).map fun (s, t) => (.str ⟨s⟩, t)
      else if c = 0x5B then
        if (skip t).head? = some 0x5D then some (.list [], (skip t).tail)
        else (readItems fuel (skip t)).map fun (items, t) => (.list items, t)
      else if c = 0x7B then
        if (skip t).head? = some 0x7D then some (.dict [], (skip t).tail)
        else (readMembers fuel (skip t)).map fun (pairs, t) => (.dict (dictOf pairs), t)
      else
        match readNumber floatRepr (c :: t) with
        | some r => some r
        | none => readConstant (c :: t)

/-- The items that are left of an array, from the beginning of one. -/
def readItems : ℕ → Points → Option (List PyJson × Points)
  | 0, _ => none
  | fuel + 1, t =>
      (readValue fuel t).bind fun (v, t) =>
        if (skip t).head? = some 0x5D then some ([v], (skip t).tail)
        else if (skip t).head? = some 0x2C then
          (readItems fuel (skip (skip t).tail)).map fun (items, t) => (v :: items, t)
        else none

/-- The members that are left of an object, from the beginning of a key. -/
def readMembers : ℕ → Points → Option (List (PyString × PyJson) × Points)
  | 0, _ => none
  | fuel + 1, t =>
      if t.head? = some 0x22 then
        (readChars fuel t.tail).bind fun (key, t) =>
          if (skip t).head? = some 0x3A then
            (readValue fuel (skip (skip t).tail)).bind fun (v, t) =>
              if (skip t).head? = some 0x7D then some ([(⟨key⟩, v)], (skip t).tail)
              else if (skip t).head? = some 0x2C then
                (readMembers fuel (skip (skip t).tail)).map fun (pairs, t) => ((⟨key⟩, v) :: pairs, t)
              else none
          else none
      else none
end

/-- `json.loads`. -/
def loads (t : Points) : Option PyJson :=
  if t.head? = some 0xFEFF then none
  else
    (readValue floatRepr (t.length + 1) (skip t)).bind fun (v, rest) =>
      if (skip rest).isEmpty then some v else none

end

/-! ## Writing -/

/-- What `indent` and `separators` put between the parts of a value. -/
structure Layout where
  newline : ℕ → Points
  space : Points
  newline_blank : ∀ level, ∀ c ∈ newline level, isWhitespace c = true
  space_blank : ∀ c ∈ space, isWhitespace c = true

/-- `separators=(",", ":")`. -/
def compact : Layout where
  newline := fun _ => []
  space := []
  newline_blank := fun _ => List.forall_mem_nil _
  space_blank := List.forall_mem_nil _

/-- `indent=n`. -/
def indented (n : ℕ) : Layout where
  newline := fun level => 0x0A :: List.replicate (n * level) 0x20
  space := [0x20]
  newline_blank := by
    intro level c hc
    cases hc with
    | head => rfl
    | tail _ hc => rw [List.eq_of_mem_replicate hc]; rfl
  space_blank := by
    intro c hc
    rw [List.mem_singleton.mp hc]
    rfl

section
variable (layout : Layout)

mutual
def textAt : ℕ → PyJson → Points
  | _, .none => chars "null"
  | _, .bool b => if b then chars "true" else chars "false"
  | _, .int n => intText n
  | _, .float r => floatText r
  | _, .str s => quoted s
  | _, .list [] => [0x5B, 0x5D]
  | level, .list items =>
      0x5B :: (itemsAt (level + 1) items ++ layout.newline level ++ [0x5D])
  | _, .dict [] => [0x7B, 0x7D]
  | level, .dict members =>
      0x7B :: (membersAt (level + 1) members ++ layout.newline level ++ [0x7D])

def itemsAt : ℕ → List PyJson → Points
  | _, [] => []
  | level, [item] => layout.newline level ++ textAt level item
  | level, item :: items => layout.newline level ++ textAt level item ++ 0x2C :: itemsAt level items

def membersAt : ℕ → List (PyString × PyJson) → Points
  | _, [] => []
  | level, [(key, v)] =>
      layout.newline level ++ quoted key ++ 0x3A :: (layout.space ++ textAt level v)
  | level, (key, v) :: members =>
      layout.newline level ++ quoted key ++ 0x3A :: (layout.space ++ textAt level v) ++
        0x2C :: membersAt level members
end

end

mutual
/-- Whether every integer of a value can be converted to text. -/
def printsIntegers : PyJson → Bool
  | .int n => (decimal n.natAbs).length ≤ maxStrDigits
  | .list items => itemsPrintIntegers items
  | .dict members => membersPrintIntegers members
  | _ => true

def itemsPrintIntegers : List PyJson → Bool
  | [] => true
  | item :: items => printsIntegers item && itemsPrintIntegers items

def membersPrintIntegers : List (PyString × PyJson) → Bool
  | [] => true
  | (_, v) :: members => printsIntegers v && membersPrintIntegers members
end

/-- `json.dumps`. -/
def dumps (layout : Layout) (v : PyJson) : Option Points :=
  if printsIntegers v then some (textAt layout 0 v) else none

end PyJsonText

end BlackMonolith.Library
