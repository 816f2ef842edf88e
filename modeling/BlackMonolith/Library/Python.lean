import Mathlib
import BlackMonolith.Library.Lists
import BlackMonolith.Library.Utf16

/-!
# Python strings and JSON values

A Python string is a list of code points, in which surrogates may stand. One
that has any cannot be encoded as UTF-8. White space is what `str.strip` removes.
The values are those `json.loads` returns; of a float only its text is kept.
-/
namespace BlackMonolith.Library

abbrev CodePoint := Fin 0x110000

instance neZero_codePoints : NeZero 0x110000 := ⟨by decide⟩

structure PyString where
  points : List CodePoint
deriving Repr, DecidableEq

inductive UnicodeEncodeError
  | surrogatesNotAllowed
deriving Repr, DecidableEq

namespace PyString

def ofString (s : String) : PyString := ⟨s.toList.map fun c => ⟨c.toNat, toNat_lt c⟩⟩

theorem ofString_inj {s t : String} : ofString s = ofString t ↔ s = t := by
  constructor
  · intro h
    have hpoints : s.toList.map Char.toNat = t.toList.map Char.toNat := by
      have := congrArg (fun s => s.points.map Fin.val) h
      simpa [ofString, List.map_map, Function.comp_def] using this
    have hchar : Function.Injective Char.toNat := fun a b => Char.toNat_inj.mp
    exact String.toList_inj.mp (hchar.list_map hpoints)
  · rintro rfl
    rfl

def isSpace (c : CodePoint) : Bool :=
  let n := c.val
  (9 ≤ n && n ≤ 13) || (0x1C ≤ n && n ≤ 0x20) || n == 0x85 || n == 0xA0 || n == 0x1680 ||
    (0x2000 ≤ n && n ≤ 0x200A) || n == 0x2028 || n == 0x2029 || n == 0x202F || n == 0x205F ||
    n == 0x3000

/-- `str.strip`. -/
def strip (s : PyString) : PyString := ⟨trimBoth isSpace s.points⟩

@[simp] theorem strip_strip (s : PyString) : s.strip.strip = s.strip :=
  congrArg PyString.mk (trimBoth_trimBoth isSpace s.points)

def isSurrogate (c : CodePoint) : Bool := 0xD800 ≤ c.val && c.val ≤ 0xDFFF

def Encodable (s : PyString) : Prop := ∀ c ∈ s.points, isSurrogate c = false

-- Not by instance search, which would run through all code points.
instance (s : PyString) : Decidable s.Encodable :=
  decidable_of_iff (s.points.all fun c => !isSurrogate c) <| by
    simp only [Encodable, List.all_eq_true, Bool.not_eq_true']

def utf8Width (c : CodePoint) : ℕ :=
  if c.val < 0x80 then 1 else if c.val < 0x800 then 2 else if c.val < 0x10000 then 3 else 4

/-- `len(s.encode("utf-8"))`. -/
def encodedLength (s : PyString) : Except UnicodeEncodeError ℕ :=
  if s.Encodable then .ok (s.points.map utf8Width).sum else .error .surrogatesNotAllowed

theorem encodedLength_of_encodable {s : PyString} (h : s.Encodable) :
    s.encodedLength = .ok (s.points.map utf8Width).sum := if_pos h

theorem encodedLength_of_not_encodable {s : PyString} (h : ¬ s.Encodable) :
    s.encodedLength = .error .surrogatesNotAllowed := if_neg h

/-- A surrogate is no white space, so stripping keeps it. -/
theorem encodable_strip {s : PyString} : s.strip.Encodable ↔ s.Encodable := by
  have hkept : ∀ c, isSurrogate c = true → (c ∈ s.strip.points ↔ c ∈ s.points) := by
    intro c hc
    apply mem_trimBoth
    simp only [isSurrogate, Bool.and_eq_true, decide_eq_true_eq] at hc
    simp only [isSpace, Bool.or_eq_false_iff, Bool.and_eq_false_iff, decide_eq_false_iff_not,
      beq_eq_false_iff_ne]
    omega
  constructor
  · intro h c hc
    apply Bool.eq_false_iff.mpr
    intro hs
    exact Bool.eq_false_iff.mp (h c ((hkept c hs).mpr hc)) hs
  · intro h c hc
    apply Bool.eq_false_iff.mpr
    intro hs
    exact Bool.eq_false_iff.mp (h c ((hkept c hs).mp hc)) hs

end PyString

/-! ## Values -/

inductive PyJson
  | none
  | bool (b : Bool)
  | int (n : ℤ)
  | float (repr : String)
  | str (s : PyString)
  | list (items : List PyJson)
  | dict (members : List (PyString × PyJson))
deriving Repr, Inhabited

namespace PyJson

/-- `dict.get`; `none` is a key that is not there. -/
def get (members : List (PyString × PyJson)) (key : String) : Option PyJson :=
  (members.find? (·.1 = PyString.ofString key)).map (·.2)

/-- `bool(value)`. -/
def truthy : PyJson → Bool
  | .none => false
  | .bool b => b
  | .int n => n != 0
  | .float repr => repr != "0.0" && repr != "-0.0"
  | .str s => !s.points.isEmpty
  | .list items => !items.isEmpty
  | .dict members => !members.isEmpty

/-- The value of an instance of `int`, which the Booleans are. -/
def asInt : PyJson → Option ℤ
  | .int n => some n
  | .bool b => some (if b then 1 else 0)
  | _ => Option.none

def asStr : PyJson → Option PyString
  | .str s => some s
  | _ => Option.none

def asDict : PyJson → Option (List (PyString × PyJson))
  | .dict members => some members
  | _ => Option.none

end PyJson

end BlackMonolith.Library
