import BlackMonolith.Library.JavaScript
import BlackMonolith.Library.Tally

/-!
# Plain objects as maps

An object literal used as a map has its own properties and those of `Object.prototype`. A
name that it does not own may still be inherited, and `__proto__` cannot be assigned a
primitive. A tally kept in such an object counts only under names that are not inherited.
-/
namespace BlackMonolith.Library

/-- The properties of `Object.prototype`. -/
inductive Inherited
  | constructor
  | defineGetter
  | defineSetter
  | hasOwnProperty
  | lookupGetter
  | lookupSetter
  | isPrototypeOf
  | propertyIsEnumerable
  | toString
  | valueOf
  | proto
  | toLocaleString
deriving Repr, DecidableEq

namespace Inherited

def all : List Inherited :=
  [.constructor, .defineGetter, .defineSetter, .hasOwnProperty, .lookupGetter, .lookupSetter,
    .isPrototypeOf, .propertyIsEnumerable, .toString, .valueOf, .proto, .toLocaleString]

def name : Inherited → JsString
  | .constructor => .ofString "constructor"
  | .defineGetter => .ofString "__defineGetter__"
  | .defineSetter => .ofString "__defineSetter__"
  | .hasOwnProperty => .ofString "hasOwnProperty"
  | .lookupGetter => .ofString "__lookupGetter__"
  | .lookupSetter => .ofString "__lookupSetter__"
  | .isPrototypeOf => .ofString "isPrototypeOf"
  | .propertyIsEnumerable => .ofString "propertyIsEnumerable"
  | .toString => .ofString "toString"
  | .valueOf => .ofString "valueOf"
  | .proto => .ofString "__proto__"
  | .toLocaleString => .ofString "toLocaleString"

def ofName (name : JsString) : Option Inherited := all.find? (·.name = name)

def functionText (name : JsString) : JsString :=
  ⟨(JsString.ofString "function ").units ++ name.units ++
    (JsString.ofString "() \x7b [native code] \x7d").units⟩

theorem name_of_ofName {name : JsString} {b : Inherited} (h : ofName name = some b) :
    b.name = name := by
  have hfound := List.find?_some (p := fun b : Inherited => decide (b.name = name)) h
  exact of_decide_eq_true hfound

/-- What the property reads when it is made a string. -/
def text : Inherited → JsString
  | .constructor => functionText (.ofString "Object")
  | .proto => .ofString "[object Object]"
  | b => functionText b.name

end Inherited

inductive Property (ν : Type*)
  | own (v : ν)
  | inherited (b : Inherited)
deriving Repr, DecidableEq

structure PlainObject (ν : Type*) where
  own : InsertionMap JsString ν

namespace PlainObject

section
variable {ν : Type*}

def get? (obj : PlainObject ν) (name : JsString) : Option (Property ν) :=
  match obj.own.get? name with
  | some v => some (.own v)
  | none => (Inherited.ofName name).map .inherited

/-- Assigning a primitive. -/
def set (obj : PlainObject ν) (name : JsString) (v : ν) : PlainObject ν :=
  if name = Inherited.proto.name then obj else ⟨obj.own.set name v⟩

variable {obj : PlainObject ν} {name name' : JsString} {v : ν}

theorem get?_of_plain (h : Inherited.ofName name = none) :
    obj.get? name = (obj.own.get? name).map .own := by
  unfold get?
  rw [h]
  cases obj.own.get? name <;> rfl

theorem get?_of_inherited {b : Inherited} (hown : obj.own.get? name = none)
    (h : Inherited.ofName name = some b) : obj.get? name = some (.inherited b) := by
  unfold get?
  rw [hown, h]
  rfl

theorem own_set_of_plain (h : Inherited.ofName name = none) :
    (obj.set name v).own = obj.own.set name v := by
  unfold set
  rw [if_neg]
  intro hproto
  rw [hproto] at h
  revert h
  decide

theorem get?_set_of_ne (h : name ≠ name') : (obj.set name v).get? name' = obj.get? name' := by
  unfold set
  split
  · rfl
  · unfold get?
    rw [InsertionMap.get?_set_of_ne h]

theorem get?_set_self (h : name ≠ Inherited.proto.name) :
    (obj.set name v).get? name = some (.own v) := by
  unfold set get?
  rw [if_neg h, InsertionMap.get?_set_self]

theorem set_proto : obj.set Inherited.proto.name v = obj := if_pos rfl

end

end PlainObject

/-! ## Tallies kept in an object -/

/-- What adding 1 makes of a property. -/
inductive Tallied
  | number (n : ℤ)
  | text (s : JsString)
deriving Repr, DecidableEq

namespace Tallied

/-- Adding 1 to a string appends its digit. -/
def appendOne (s : JsString) : Tallied := .text ⟨s.units ++ (JsString.ofString "1").units⟩

/-- `(value ?? 0) + 1`. -/
def plusOne : Option (Property Tallied) → Tallied
  | none => .number 1
  | some (.own (.number n)) => .number (n + 1)
  | some (.own (.text s)) => appendOne s
  | some (.inherited b) => appendOne b.text

def toInt : Tallied → ℤ
  | .number n => n
  | .text _ => 0

end Tallied

namespace PlainObject
open Tallied

/-- `obj[name] = (obj[name] ?? 0) + 1`. -/
def bump (obj : PlainObject Tallied) (name : JsString) : PlainObject Tallied :=
  obj.set name (plusOne (obj.get? name))

/-- The values are counts that add up to `total`. -/
def Counts (values : List Tallied) (total : ℕ) : Prop :=
  ∃ ns : List ℤ, (∀ n ∈ ns, 0 ≤ n) ∧ values = ns.map .number ∧ ns.sum = total

variable {obj : PlainObject Tallied} {start xs : List JsString} {name : JsString}

theorem bump_tallies (hname : Inherited.ofName name = none)
    (h : obj.own.Tallies .number start xs) :
    (obj.bump name).own.Tallies .number start (name :: xs) := by
  have hplus : plusOne (obj.get? name) = .number (xs.count name + 1) := by
    rw [get?_of_plain hname]
    by_cases hmem : name ∈ start ∨ name ∈ xs
    · rw [h.get?_of_mem hmem]
      rfl
    · rw [h.get?_of_notMem hmem, List.count_eq_zero_of_not_mem fun hxs => hmem (.inr hxs)]
      rfl
  unfold bump
  rw [own_set_of_plain hname, hplus]
  exact h.set name

/-- A run over names that are not inherited counts them. -/
theorem foldl_bump_tallies {ys : List JsString} (hys : ∀ y ∈ ys, Inherited.ofName y = none)
    (h : obj.own.Tallies .number start xs) :
    (ys.foldl bump obj).own.Tallies .number start (ys ++ xs) := by
  induction ys generalizing obj xs with
  | nil => exact h
  | cons y ys ih =>
    have hstep := bump_tallies (hys y List.mem_cons_self) h
    have hrest := ih (fun z hz => hys z (List.mem_cons_of_mem _ hz)) hstep
    exact hrest.perm List.perm_middle

/-- The name has a property that is no number. -/
def Spoiled (obj : PlainObject Tallied) (name : JsString) : Prop :=
  ∃ p, obj.get? name = some p ∧ ∀ n, p ≠ .own (.number n)

theorem Spoiled.bump (h : obj.Spoiled name) (other : JsString) :
    (obj.bump other).Spoiled name := by
  by_cases hother : other = name
  · rw [hother]
    by_cases hproto : name = Inherited.proto.name
    · unfold PlainObject.bump
      rw [hproto, set_proto]
      rw [hproto] at h
      exact h
    · have hget : (obj.bump name).get? name = some (.own (plusOne (obj.get? name))) :=
        get?_set_self hproto
      obtain ⟨p, hp, hnumber⟩ := h
      rw [hp] at hget
      refine ⟨_, hget, ?_⟩
      intro n
      cases p with
      | own v =>
        cases v with
        | number m => exact absurd rfl (hnumber m)
        | text s => exact fun heq => nomatch heq
      | inherited b => exact fun heq => nomatch heq
  · obtain ⟨p, hp, hnumber⟩ := h
    exact ⟨p, (get?_set_of_ne hother).trans hp, hnumber⟩

theorem Spoiled.foldl (h : obj.Spoiled name) (ys : List JsString) :
    (ys.foldl PlainObject.bump obj).Spoiled name := by
  induction ys generalizing obj with
  | nil => exact h
  | cons y ys ih => exact ih (h.bump y)

theorem Counts.of_tallies (h : obj.own.Tallies .number start xs) :
    Counts obj.own.values xs.length := by
  refine ⟨obj.own.values.map toInt, ?_, ?_, h.sum_values fun _ => rfl⟩
  · intro n hn
    obtain ⟨v, hv, rfl⟩ := List.mem_map.mp hn
    obtain ⟨k, -, rfl⟩ := h.mem_values hv
    exact Int.natCast_nonneg _
  · have hnumber : ∀ v ∈ obj.own.values, v = (Tallied.number ∘ toInt) v := by
      intro v hv
      obtain ⟨k, -, rfl⟩ := h.mem_values hv
      rfl
    rw [List.map_map, ← List.map_congr_left hnumber, List.map_id']

end PlainObject
end BlackMonolith.Library
