import Mathlib.Data.List.Basic

/-!
# JSON values

`serde_json::Value` as the workspace builds it: objects are maps ordered by key
and integers keep their exact value. A float is kept as the text `serde_json`
prints for it, since no modelled function computes with one.
-/
namespace BlackMonolith.Json

inductive Number
  | int (n : Int)
  | float (text : String)
deriving Repr, DecidableEq

/-- The text `serde_json` prints. -/
def Number.text : Number → String
  | .int n => Int.repr n
  | .float text => text

inductive Value
  | null
  | bool (b : Bool)
  | number (n : Number)
  | string (s : String)
  | array (items : List Value)
  | object (members : List (String × Value))
deriving Repr, Inhabited

namespace Value

/-! `deriving DecidableEq` does not reach the nested lists, so the instance is
given by the recursion of the type. -/

mutual
def decEq : (a b : Value) → Decidable (a = b)
  | .null, .null => isTrue rfl
  | .bool a, .bool b => decidable_of_iff (a = b) (by simp)
  | .number a, .number b => decidable_of_iff (a = b) (by simp)
  | .string a, .string b => decidable_of_iff (a = b) (by simp)
  | .array a, .array b =>
      match decEqItems a b with
      | isTrue h => isTrue (by rw [h])
      | isFalse h => isFalse fun e => h (by injection e)
  | .object a, .object b =>
      match decEqMembers a b with
      | isTrue h => isTrue (by rw [h])
      | isFalse h => isFalse fun e => h (by injection e)
  | .null, .bool _ | .null, .number _ | .null, .string _ | .null, .array _ | .null, .object _
  | .bool _, .null | .bool _, .number _ | .bool _, .string _ | .bool _, .array _
  | .bool _, .object _
  | .number _, .null | .number _, .bool _ | .number _, .string _ | .number _, .array _
  | .number _, .object _
  | .string _, .null | .string _, .bool _ | .string _, .number _ | .string _, .array _
  | .string _, .object _
  | .array _, .null | .array _, .bool _ | .array _, .number _ | .array _, .string _
  | .array _, .object _
  | .object _, .null | .object _, .bool _ | .object _, .number _ | .object _, .string _
  | .object _, .array _ => isFalse fun e => by injection e

def decEqItems : (a b : List Value) → Decidable (a = b)
  | [], [] => isTrue rfl
  | [], _ :: _ => isFalse fun e => by injection e
  | _ :: _, [] => isFalse fun e => by injection e
  | a :: as, b :: bs =>
      match decEq a b, decEqItems as bs with
      | isTrue h, isTrue hs => isTrue (by rw [h, hs])
      | isFalse h, _ => isFalse fun e => h (List.cons.inj e).1
      | _, isFalse hs => isFalse fun e => hs (List.cons.inj e).2

def decEqMembers : (a b : List (String × Value)) → Decidable (a = b)
  | [], [] => isTrue rfl
  | [], _ :: _ => isFalse fun e => by injection e
  | _ :: _, [] => isFalse fun e => by injection e
  | (k, a) :: as, (l, b) :: bs =>
      if hk : k = l then
        match decEq a b, decEqMembers as bs with
        | isTrue h, isTrue hs => isTrue (by rw [hk, h, hs])
        | isFalse h, _ => isFalse fun e => h (Prod.mk.inj (List.cons.inj e).1).2
        | _, isFalse hs => isFalse fun e => hs (List.cons.inj e).2
      else isFalse fun e => hk (Prod.mk.inj (List.cons.inj e).1).1
end

instance : DecidableEq Value := decEq

/-- `Value::get` with a string index. -/
def get : Value → String → Option Value
  | .object members, key => members.lookup key
  | _, _ => none

/-- `Value::as_str`. -/
def asStr : Value → Option String
  | .string s => some s
  | _ => none

/-- `Value::as_array`. -/
def asArray : Value → Option (List Value)
  | .array items => some items
  | _ => none

/-- `Value::as_object`. -/
def asObject : Value → Option (List (String × Value))
  | .object members => some members
  | _ => none

/-- `Map::insert`: objects are ordered by key. -/
def insertMember (key : String) (value : Value) : List (String × Value) → List (String × Value)
  | [] => [(key, value)]
  | (k, v) :: members =>
      if k = key then (key, value) :: members
      else if key < k then (key, value) :: (k, v) :: members
      else (k, v) :: insertMember key value members

theorem lookup_insertMember (key : String) (value : Value) (members : List (String × Value)) :
    (insertMember key value members).lookup key = some value := by
  induction members with
  | nil => simp only [insertMember, List.lookup_cons_self]
  | cons member members ih =>
      obtain ⟨k, v⟩ := member
      unfold insertMember
      split_ifs with hsame hbefore
      · rw [List.lookup_cons_self]
      · rw [List.lookup_cons_self]
      · have hne : (key == k) = false := beq_false_of_ne fun heq => hsame heq.symm
        simp only [List.lookup_cons, hne, ih]

theorem lookup_insertMember_ne {key key' : String} (h : key' ≠ key) (value : Value)
    (members : List (String × Value)) :
    (insertMember key value members).lookup key' = members.lookup key' := by
  have hne : (key' == key) = false := beq_false_of_ne h
  induction members with
  | nil => simp only [insertMember, List.lookup_cons, hne, List.lookup_nil]
  | cons member members ih =>
      obtain ⟨k, v⟩ := member
      unfold insertMember
      split_ifs with hsame hbefore
      · subst hsame
        simp only [List.lookup_cons, hne]
      · simp only [List.lookup_cons, hne]
      · simp only [List.lookup_cons, ih]

/-! ## String leaves -/

mutual
/-- The strings of a value in order; keys are none of them. -/
def strings : Value → List String
  | .string s => [s]
  | .array items => itemStrings items
  | .object members => memberStrings members
  | .null | .bool _ | .number _ => []

def itemStrings : List Value → List String
  | [] => []
  | item :: items => strings item ++ itemStrings items

def memberStrings : List (String × Value) → List String
  | [] => []
  | (_, value) :: members => strings value ++ memberStrings members
end

section
variable (f : String → String)

mutual
/-- The value with another string for each of its strings. -/
def mapStrings : Value → Value
  | .string s => .string (f s)
  | .array items => .array (mapItemStrings items)
  | .object members => .object (mapMemberStrings members)
  | other => other

def mapItemStrings : List Value → List Value
  | [] => []
  | item :: items => mapStrings item :: mapItemStrings items

def mapMemberStrings : List (String × Value) → List (String × Value)
  | [] => []
  | (key, value) :: members => (key, mapStrings value) :: mapMemberStrings members
end

mutual
theorem strings_mapStrings : (value : Value) → (mapStrings f value).strings = value.strings.map f
  | .string _ => rfl
  | .array items => strings_mapItemStrings items
  | .object members => strings_mapMemberStrings members
  | .null | .bool _ | .number _ => rfl

theorem strings_mapItemStrings : (items : List Value) →
    itemStrings (mapItemStrings f items) = (itemStrings items).map f
  | [] => rfl
  | item :: items => by
      simp only [mapItemStrings, itemStrings, List.map_append, strings_mapStrings item,
        strings_mapItemStrings items]

theorem strings_mapMemberStrings : (members : List (String × Value)) →
    memberStrings (mapMemberStrings f members) = (memberStrings members).map f
  | [] => rfl
  | (key, value) :: members => by
      simp only [mapMemberStrings, memberStrings, List.map_append, strings_mapStrings value,
        strings_mapMemberStrings members]
end

mutual
theorem mapStrings_eq_self : (value : Value) → (∀ s ∈ value.strings, f s = s) →
    mapStrings f value = value
  | .string s, h => congrArg string (h s List.mem_cons_self)
  | .array items, h => congrArg array (mapItemStrings_eq_self items h)
  | .object members, h => congrArg object (mapMemberStrings_eq_self members h)
  | .null, _ | .bool _, _ | .number _, _ => rfl

theorem mapItemStrings_eq_self : (items : List Value) → (∀ s ∈ itemStrings items, f s = s) →
    mapItemStrings f items = items
  | [], _ => rfl
  | item :: items, h => by
      have hitem := mapStrings_eq_self item fun s hs => h s (List.mem_append_left _ hs)
      have hitems := mapItemStrings_eq_self items fun s hs => h s (List.mem_append_right _ hs)
      rw [mapItemStrings, hitem, hitems]

theorem mapMemberStrings_eq_self : (members : List (String × Value)) →
    (∀ s ∈ memberStrings members, f s = s) → mapMemberStrings f members = members
  | [], _ => rfl
  | (key, value) :: members, h => by
      have hvalue := mapStrings_eq_self value fun s hs => h s (List.mem_append_left _ hs)
      have hmembers := mapMemberStrings_eq_self members fun s hs => h s (List.mem_append_right _ hs)
      rw [mapMemberStrings, hvalue, hmembers]
end

end

/-! ## Writing -/

def hexDigit (n : ℕ) : Char := if n < 10 then Char.ofNat (48 + n) else Char.ofNat (87 + n)

/-- A character inside a JSON string as `serde_json` writes it. -/
def escapeChar (c : Char) : List Char :=
  if c = '"' then ['\\', '"']
  else if c = '\\' then ['\\', '\\']
  else if c = '\n' then ['\\', 'n']
  else if c = '\r' then ['\\', 'r']
  else if c = '\t' then ['\\', 't']
  else if c.toNat = 8 then ['\\', 'b']
  else if c.toNat = 12 then ['\\', 'f']
  else if c.toNat < 0x20 then
    ['\\', 'u', '0', '0', hexDigit (c.toNat / 16), hexDigit (c.toNat % 16)]
  else [c]

def quote (s : String) : String :=
  "\"" ++ String.ofList (s.toList.flatMap escapeChar) ++ "\""

mutual
/-- `serde_json::to_string`. -/
def toString : Value → String
  | .null => "null"
  | .bool true => "true"
  | .bool false => "false"
  | .number n => n.text
  | .string s => quote s
  | .array items => "[" ++ String.intercalate "," (toStringItems items) ++ "]"
  | .object members => "\x7b" ++ String.intercalate "," (toStringMembers members) ++ "\x7d"

def toStringItems : List Value → List String
  | [] => []
  | item :: items => toString item :: toStringItems items

def toStringMembers : List (String × Value) → List String
  | [] => []
  | (key, value) :: members =>
      (quote key ++ ":" ++ toString value) :: toStringMembers members
end

@[simp] theorem asStr_string (s : String) : (Value.string s).asStr = some s := rfl
@[simp] theorem asArray_array (items : List Value) : (Value.array items).asArray = some items := rfl
@[simp] theorem get_object (members : List (String × Value)) (key : String) :
    (Value.object members).get key = members.lookup key := rfl

end Value

end BlackMonolith.Json
