import BlackMonolith.Library.JsUtf8
import BlackMonolith.Library.JsonReading
import Mathlib.Data.List.Sort

/-!
# JSON values up to the order of members

Two values are alike when they are the same once the members of every object are
sorted by name. A text has no unpaired surrogates, whatever its strings have, so its
bytes determine the value.
-/
namespace BlackMonolith.Library
namespace JsonData

/-- The order of `Array.prototype.sort` on names. -/
def keyLe {α : Type} (a b : JsString × α) : Bool := decide (a.1.units ≤ b.1.units)

section
variable {ν : Type}

mutual
def sortKeys : JsonValue ν → JsonValue ν
  | .null => .null
  | .bool b => .bool b
  | .number n => .number n
  | .string s => .string s
  | .array items => .array (sortItems items)
  | .object members => .object ((sortMembers members).mergeSort keyLe)

def sortItems : List (JsonValue ν) → List (JsonValue ν)
  | [] => []
  | item :: items => sortKeys item :: sortItems items

def sortMembers : List (JsString × JsonValue ν) → List (JsString × JsonValue ν)
  | [] => []
  | (key, v) :: members => (key, sortKeys v) :: sortMembers members
end

/-- The same value, key order aside. -/
def Alike (v w : JsonValue ν) : Prop := sortKeys v = sortKeys w

theorem sortMembers_eq_map (members : List (JsString × JsonValue ν)) :
    sortMembers members = members.map fun member => (member.1, sortKeys member.2) := by
  induction members with
  | nil => rfl
  | cons member members ih =>
      rw [sortMembers, ih]
      rfl

theorem membersDistinct_iff {members : List (JsString × JsonValue ν)} :
    MembersDistinct members ↔ ∀ member ∈ members, Distinct member.2 := by
  induction members with
  | nil => exact ⟨fun _ => List.forall_mem_nil _, fun _ => trivial⟩
  | cons member members ih => rw [MembersDistinct, ih, List.forall_mem_cons]

mutual
theorem distinct_sortKeys : (v : JsonValue ν) → Distinct v → Distinct (sortKeys v)
  | .null, _ | .bool _, _ | .number _, _ | .string _, _ => trivial
  | .array items, hv => itemsDistinct_sortItems items hv
  | .object members, hv => by
      have hperm := List.mergeSort_perm (sortMembers members) keyLe
      have hkeys : (sortMembers members).map Prod.fst = members.map Prod.fst := by
        rw [sortMembers_eq_map, List.map_map]
        rfl
      constructor
      · rw [(hperm.map Prod.fst).nodup_iff, hkeys]
        exact hv.1
      · rw [membersDistinct_iff]
        intro member hmember
        exact membersDistinct_iff.mp (membersDistinct_sortMembers members hv.2) member
          (hperm.mem_iff.mp hmember)

theorem itemsDistinct_sortItems : (items : List (JsonValue ν)) → ItemsDistinct items →
    ItemsDistinct (sortItems items)
  | [], _ => trivial
  | item :: items, hv => ⟨distinct_sortKeys item hv.1, itemsDistinct_sortItems items hv.2⟩

theorem membersDistinct_sortMembers : (members : List (JsString × JsonValue ν)) →
    MembersDistinct members → MembersDistinct (sortMembers members)
  | [], _ => trivial
  | (_, v) :: members, hv => ⟨distinct_sortKeys v hv.1, membersDistinct_sortMembers members hv.2⟩
end

theorem membersFinite_iff {numerals : Numerals ν} {members : List (JsString × JsonValue ν)} :
    MembersFinite numerals members ↔ ∀ member ∈ members, Finite numerals member.2 := by
  induction members with
  | nil => exact ⟨fun _ => List.forall_mem_nil _, fun _ => trivial⟩
  | cons member members ih => rw [MembersFinite, ih, List.forall_mem_cons]

section
variable (numerals : Numerals ν)

mutual
theorem finite_sortKeys_iff : (v : JsonValue ν) →
    (Finite numerals (sortKeys v) ↔ Finite numerals v)
  | .null | .bool _ | .number _ | .string _ => Iff.rfl
  | .array items => itemsFinite_sortItems_iff items
  | .object members => by
      have hperm := List.mergeSort_perm (sortMembers members) keyLe
      rw [sortKeys, Finite, Finite, ← membersFinite_sortMembers_iff members, membersFinite_iff,
        membersFinite_iff]
      exact forall_congr' fun member => by rw [hperm.mem_iff]

theorem itemsFinite_sortItems_iff : (items : List (JsonValue ν)) →
    (ItemsFinite numerals (sortItems items) ↔ ItemsFinite numerals items)
  | [] => Iff.rfl
  | item :: items => and_congr (finite_sortKeys_iff item) (itemsFinite_sortItems_iff items)

theorem membersFinite_sortMembers_iff : (members : List (JsString × JsonValue ν)) →
    (MembersFinite numerals (sortMembers members) ↔ MembersFinite numerals members)
  | [] => Iff.rfl
  | (_, v) :: members => and_congr (finite_sortKeys_iff v) (membersFinite_sortMembers_iff members)
end

end

/-! ## The units of a text -/

theorem paired_ascii {s : String} (h : (ascii s).all (· < 0x80) = true) :
    JsString.Paired (ascii s) :=
  JsString.paired_of_ascii fun u hu => of_decide_eq_true (List.all_eq_true.mp h u hu)

theorem ascii_of_numberUnit {u : UInt16} (h : isNumberUnit u = true) : u < 0x80 := by
  simp only [isNumberUnit, isDigit, Bool.or_eq_true, Bool.and_eq_true, decide_eq_true_eq,
    beq_iff_eq, UInt16.le_iff_toNat_le, ← UInt16.toNat_inj, UInt16.reduceToNat] at h
  rw [UInt16.lt_iff_toNat_lt]
  show u.toNat < 128
  omega

theorem hexDigit_lt : ∀ n, n < 16 → hexDigit n < 0x80 := by
  decide

theorem paired_quoteUnit (u : UInt16) : JsString.Paired (pieceText (JsString.quoteUnit u)) := by
  unfold JsString.quoteUnit
  split_ifs with hshort hescape
  · apply JsString.paired_of_ascii
    have hu : u < 0x80 := by
      simp only [JsString.hasShortEscape, Bool.or_eq_true, Bool.and_eq_true, decide_eq_true_eq,
        beq_iff_eq, UInt16.le_iff_toNat_le, ← UInt16.toNat_inj, UInt16.reduceToNat] at hshort
      rw [UInt16.lt_iff_toNat_lt]
      show u.toNat < 128
      omega
    intro v hv
    simp only [pieceText, List.mem_cons, List.not_mem_nil, or_false] at hv
    rcases hv with rfl | rfl
    · decide
    · unfold shortLetter
      split_ifs <;> first | exact hu | decide
  · apply JsString.paired_of_ascii
    intro v hv
    simp only [pieceText, List.mem_cons, List.not_mem_nil, or_false] at hv
    rcases hv with rfl | rfl | rfl | rfl | rfl | rfl
    · decide
    · decide
    all_goals exact hexDigit_lt _ (Nat.mod_lt _ (by decide))
  · have hplain : (JsString.isHigh u || JsString.isLow u) = false := by
      simp only [Bool.or_eq_true, not_or, Bool.not_eq_true] at hescape
      rw [hescape.1.2, hescape.2]
      rfl
    exact JsString.wellFormedUnits_cons hplain

theorem paired_quoteUnits (us : CodeUnits) :
    JsString.Paired ((JsString.quoteUnits us).flatMap pieceText) := by
  induction us using JsString.quoteUnits.induct with
  | case1 => rfl
  | case2 u =>
      rw [JsString.quoteUnits, List.flatMap_singleton]
      exact paired_quoteUnit u
  | case3 u v us hpair ih =>
      rw [JsString.quoteUnits, if_pos hpair, List.flatMap_cons, List.flatMap_cons, ← List.append_assoc]
      apply JsString.Paired.append _ ih
      show JsString.wellFormedUnits (u :: v :: []) = _
      rw [JsString.wellFormedUnits, if_pos hpair]
      rfl
  | case4 u v us hpair ih =>
      rw [JsString.quoteUnits, if_neg hpair, List.flatMap_cons]
      exact (paired_quoteUnit u).append ih

theorem paired_quoted (s : JsString) : JsString.Paired (quoted s) :=
  ((paired_quoteUnits s.units).append (.cons (by decide) .nil)).cons (by decide)

theorem paired_joined {pieces : List CodeUnits} (h : ∀ piece ∈ pieces, JsString.Paired piece) :
    JsString.Paired (joined pieces) := by
  induction pieces with
  | nil => rfl
  | cons piece pieces ih =>
      obtain ⟨hpiece, hpieces⟩ := List.forall_mem_cons.mp h
      cases pieces with
      | nil =>
          rw [joined_singleton]
          exact hpiece
      | cons next pieces =>
          rw [joined_cons]
          exact hpiece.append ((ih hpieces).cons (by decide))

variable (numerals : Numerals ν)

mutual
theorem paired_textOf : (v : JsonValue ν) → Finite numerals v → JsString.Paired (textOf numerals v)
  | .null, _ => paired_ascii (by decide)
  | .bool true, _ => paired_ascii (by decide)
  | .bool false, _ => paired_ascii (by decide)
  | .number n, hv => JsString.paired_of_ascii fun u hu =>
      ascii_of_numberUnit (List.all_eq_true.mp (numerals.text_units n hv) u hu)
  | .string s, _ => paired_quoted s
  | .array items, hv =>
      ((paired_joined (paired_itemTexts items hv)).append (.cons (by decide) .nil)).cons (by decide)
  | .object members, hv => ((paired_joined (paired_memberTexts members hv)).append
      (.cons (by decide) .nil)).cons (by decide)

theorem paired_itemTexts : (items : List (JsonValue ν)) → ItemsFinite numerals items →
    ∀ piece ∈ itemTexts numerals items, JsString.Paired piece
  | [], _ => List.forall_mem_nil _
  | item :: items, hv =>
      List.forall_mem_cons.mpr ⟨paired_textOf item hv.1, paired_itemTexts items hv.2⟩

theorem paired_memberTexts : (members : List (JsString × JsonValue ν)) →
    MembersFinite numerals members → ∀ piece ∈ memberTexts numerals members, JsString.Paired piece
  | [], _ => List.forall_mem_nil _
  | (key, v) :: members, hv => List.forall_mem_cons.mpr
      ⟨(paired_quoted key).append ((paired_textOf v hv.1).cons (by decide)),
        paired_memberTexts members hv.2⟩
end

/-- The bytes of the sorted texts tell values apart, key order aside. -/
theorem alike_of_utf8 {v w : JsonValue ν} (hv : Distinct v) (hw : Distinct w)
    (hv' : Finite numerals v) (hw' : Finite numerals w)
    (h : JsString.utf8 (textOf numerals (sortKeys v)) =
      JsString.utf8 (textOf numerals (sortKeys w))) : Alike v w := by
  have hfinite := (finite_sortKeys_iff numerals v).mpr hv'
  have hfinite' := (finite_sortKeys_iff numerals w).mpr hw'
  exact textOf_injOn numerals (distinct_sortKeys v hv) (distinct_sortKeys w hw) hfinite hfinite'
    (JsString.utf8_injOn (paired_textOf numerals _ hfinite) (paired_textOf numerals _ hfinite') h)

end

end JsonData
end BlackMonolith.Library
