import Mathlib
import BlackMonolith.Json
import BlackMonolith.Library.JsonScan
import BlackMonolith.Library.Lists

/-!
# Texts of JSON values

What `serde_json` writes can be read back in one way only, whatever follows it: the
first character tells the kind of a value, a string ends at its first quotation
mark that is not escaped, and a number at the first character that is none of a
number's.
-/
namespace BlackMonolith.Json

/-! ## Values that are printed -/

def isNumberChar (c : Char) : Bool :=
  c.isDigit || c == '-' || c == '+' || c == '.' || c == 'e' || c == 'E'

/-- A float is printed with a point or an exponent. -/
def Number.Printed : Number → Prop
  | .int _ => True
  | .float text => (∀ c ∈ text.toList, isNumberChar c) ∧ ∃ c ∈ text.toList, c = '.' ∨ c = 'e'

namespace Value

mutual
/-- The values of `serde_json`: the keys of an object are distinct, and every float is
one it prints. -/
def Printed : Value → Prop
  | .null | .bool _ | .string _ => True
  | .number n => n.Printed
  | .array items => ItemsPrinted items
  | .object members => (members.map Prod.fst).Nodup ∧ MembersPrinted members

def ItemsPrinted : List Value → Prop
  | [] => True
  | item :: items => Printed item ∧ ItemsPrinted items

def MembersPrinted : List (String × Value) → Prop
  | [] => True
  | (_, value) :: members => Printed value ∧ MembersPrinted members
end

/-! ## Texts as lists of characters -/

def quoted (cs : List Char) : List Char := '"' :: (cs.flatMap escapeChar ++ ['"'])

mutual
def text : Value → List Char
  | .null => "null".toList
  | .bool true => "true".toList
  | .bool false => "false".toList
  | .number n => n.text.toList
  | .string s => quoted s.toList
  | .array items => '[' :: (itemsText items ++ [']'])
  | .object members => '\x7b' :: (membersText members ++ ['\x7d'])

def itemsText : List Value → List Char
  | [] => []
  | [item] => text item
  | item :: next :: items => text item ++ ',' :: itemsText (next :: items)

def membersText : List (String × Value) → List Char
  | [] => []
  | [(key, value)] => quoted key.toList ++ ':' :: text value
  | (key, value) :: next :: members =>
      quoted key.toList ++ ':' :: text value ++ ',' :: membersText (next :: members)
end

theorem toList_quote (s : String) : (quote s).toList = quoted s.toList := by
  simp [quote, quoted]

mutual
theorem toList_toString : (v : Value) → v.toString.toList = v.text
  | .null => rfl
  | .bool true => rfl
  | .bool false => rfl
  | .number _ => rfl
  | .string s => toList_quote s
  | .array items => by
      have hitems : ",".toList.intercalate ((toStringItems items).map String.toList) =
          itemsText items := toList_toStringItems items
      rw [toString, text, String.toList_append, String.toList_append, String.toList_intercalate,
        hitems, List.append_assoc]
      rfl
  | .object members => by
      have hmembers : ",".toList.intercalate ((toStringMembers members).map String.toList) =
          membersText members := toList_toStringMembers members
      rw [toString, text, String.toList_append, String.toList_append, String.toList_intercalate,
        hmembers, List.append_assoc]
      rfl

theorem toList_toStringItems : (items : List Value) →
    [','].intercalate ((toStringItems items).map String.toList) = itemsText items
  | [] => rfl
  | [item] => by
      rw [toStringItems, toStringItems, List.map_cons, toList_toString item]
      exact List.append_nil _
  | item :: next :: items => by
      have hrest := toList_toStringItems (next :: items)
      rw [toStringItems, List.map_cons, toList_toString item, itemsText, ← hrest, toStringItems,
        List.map_cons]
      rfl

theorem toList_toStringMembers : (members : List (String × Value)) →
    [','].intercalate ((toStringMembers members).map String.toList) = membersText members
  | [] => rfl
  | [(key, value)] => by
      rw [toStringMembers, toStringMembers, List.map_cons, String.toList_append,
        String.toList_append, toList_quote, toList_toString value, List.append_assoc]
      exact List.append_nil _
  | (key, value) :: next :: members => by
      have hrest := toList_toStringMembers (next :: members)
      rw [toStringMembers, List.map_cons, String.toList_append, String.toList_append, toList_quote,
        toList_toString value, membersText, ← hrest, toStringMembers, List.map_cons,
        List.append_assoc]
      rfl
end

/-! ## Strings -/

/-- The character at the front of a string's text, and what follows it. -/
def unescape : List Char → Option (Char × List Char)
  | '\\' :: '"' :: rest => some ('"', rest)
  | '\\' :: '\\' :: rest => some ('\\', rest)
  | '\\' :: 'n' :: rest => some ('\n', rest)
  | '\\' :: 'r' :: rest => some ('\r', rest)
  | '\\' :: 't' :: rest => some ('\t', rest)
  | '\\' :: 'b' :: rest => some (Char.ofNat 8, rest)
  | '\\' :: 'f' :: rest => some (Char.ofNat 12, rest)
  | '\\' :: 'u' :: '0' :: '0' :: h :: l :: rest =>
      some (Char.ofNat
        ((if h = '1' then 16 else 0) + if l.toNat < 58 then l.toNat - 48 else l.toNat - 87), rest)
  | '"' :: _ => none
  | c :: rest => some (c, rest)
  | [] => none

theorem unescape_escapeChar (c : Char) (rest : List Char) :
    unescape (escapeChar c ++ rest) = some (c, rest) := by
  unfold escapeChar
  split_ifs with h₁ h₂ h₃ h₄ h₅ h₆ h₇ h₈
  · rw [h₁]
    rfl
  · rw [h₂]
    rfl
  · rw [h₃]
    rfl
  · rw [h₄]
    rfl
  · rw [h₅]
    rfl
  · rw [← Char.ofNat_toNat c, h₆]
    rfl
  · rw [← Char.ofNat_toNat c, h₇]
    rfl
  · rw [← Char.ofNat_toNat c]
    generalize c.toNat = n at h₈
    interval_cases n <;> rfl
  · rw [List.singleton_append, unescape]
    all_goals
      intros
      first
        | exact h₁ ‹_›
        | exact h₂ ‹_›

theorem escapeChar_append_inj {c d : Char} {xs ys : List Char}
    (h : escapeChar c ++ xs = escapeChar d ++ ys) : c = d ∧ xs = ys := by
  have hread := congrArg unescape h
  rw [unescape_escapeChar, unescape_escapeChar] at hread
  exact Prod.mk.inj (Option.some.inj hread)

theorem escapeChar_ne_quote (c : Char) (xs ys : List Char) : escapeChar c ++ xs ≠ '"' :: ys := by
  intro h
  have hread := congrArg unescape h
  rw [unescape_escapeChar] at hread
  cases hread

theorem quoted_append_inj {cs ds xs ys : List Char} (h : quoted cs ++ xs = quoted ds ++ ys) :
    cs = ds ∧ xs = ys := by
  have hbody : cs.flatMap escapeChar ++ '"' :: xs = ds.flatMap escapeChar ++ '"' :: ys := by
    simpa [quoted] using h
  clear h
  induction cs generalizing ds with
  | nil =>
      cases ds with
      | nil => exact ⟨rfl, (List.cons.inj hbody).2⟩
      | cons d ds =>
          rw [List.flatMap_cons, List.append_assoc] at hbody
          exact absurd hbody.symm (escapeChar_ne_quote d _ _)
  | cons c cs ih =>
      cases ds with
      | nil =>
          rw [List.flatMap_cons, List.append_assoc] at hbody
          exact absurd hbody (escapeChar_ne_quote c _ _)
      | cons d ds =>
          rw [List.flatMap_cons, List.flatMap_cons, List.append_assoc, List.append_assoc] at hbody
          obtain ⟨rfl, hrest⟩ := escapeChar_append_inj hbody
          obtain ⟨rfl, hsame⟩ := ih hrest
          exact ⟨rfl, hsame⟩

/-! ## Numbers -/

theorem isNumberChar_of_int {n : ℤ} {c : Char} (h : c ∈ (Int.repr n).toList) :
    c.isDigit ∨ c = '-' := by
  have hdigits : ∀ m : ℕ, c ∈ (Nat.repr m).toList → c.isDigit := by
    intro m hc
    rw [Nat.repr, String.toList_ofList] at hc
    exact Nat.isDigit_of_mem_toDigits (by decide) (by decide) hc
  rw [Int.repr_eq_if] at h
  split_ifs at h
  · exact Or.inl (hdigits _ h)
  · rw [String.toList_append, List.mem_append] at h
    rcases h with hsign | hdigit
    · exact Or.inr (List.mem_singleton.mp hsign)
    · exact Or.inl (hdigits _ hdigit)

theorem isNumberChar_of_mem {n : Number} (hn : n.Printed) {c : Char} (h : c ∈ n.text.toList) :
    isNumberChar c := by
  cases n with
  | int n =>
      unfold isNumberChar
      rcases isNumberChar_of_int h with hdigit | rfl
      · rw [hdigit]
        rfl
      · rfl
  | float text => exact hn.1 c h

theorem number_ne_nil {n : Number} (hn : n.Printed) : n.text.toList ≠ [] := by
  cases n with
  | int n =>
      intro hnil
      have hempty : Int.repr n = "" := String.toList_inj.mp hnil
      rw [Int.repr_eq_if] at hempty
      split_ifs at hempty
      · exact Nat.repr_ne_empty hempty
      · exact absurd (congrArg String.toList hempty) (by simp)
  | float text =>
      obtain ⟨-, c, hc, -⟩ := hn
      exact List.ne_nil_of_mem hc

theorem number_text_injective {n m : Number} (hn : n.Printed) (hm : m.Printed)
    (h : n.text.toList = m.text.toList) : n = m := by
  have hpoint : ∀ i : ℤ, ∀ text : String, (Number.float text).Printed →
      (Int.repr i).toList ≠ text.toList := by
    rintro i text ⟨-, c, hc, hmark⟩ heq
    rw [← heq] at hc
    rcases isNumberChar_of_int hc with hdigit | rfl
    · rcases hmark with rfl | rfl
      · cases hdigit
      · cases hdigit
    · rcases hmark with hmark | hmark
      · cases hmark
      · cases hmark
  cases n with
  | int i =>
      cases m with
      | int j => rw [Int.repr_injective (String.toList_inj.mp h)]
      | float text => exact absurd h (hpoint i text hm)
  | float text =>
      cases m with
      | int j => exact absurd h.symm (hpoint j text hn)
      | float text' => exact congrArg Number.float (String.toList_inj.mp h)

/-! ## Values -/

/-- What may follow a value: the end of the text, or a character of no number. -/
def Stops (rest : List Char) : Prop := ∀ c ∈ rest.head?, isNumberChar c = false

theorem number_append_inj {n m : Number} (hn : n.Printed) (hm : m.Printed) {r s : List Char}
    (hr : Stops r) (hs : Stops s) (h : n.text.toList ++ r = m.text.toList ++ s) : n = m ∧ r = s := by
  have htake : ∀ {k : Number} {rest : List Char}, k.Printed → Stops rest →
      (k.text.toList ++ rest).takeWhile isNumberChar = k.text.toList := by
    intro k rest hk hrest
    rw [List.takeWhile_append_of_pos fun c hc => isNumberChar_of_mem hk hc]
    cases rest with
    | nil => exact List.append_nil _
    | cons c rest =>
        rw [List.takeWhile_cons_of_neg (by rw [hrest c rfl]; exact Bool.false_ne_true),
          List.append_nil]
  have hsame := congrArg (List.takeWhile isNumberChar) h
  rw [htake hn hr, htake hm hs] at hsame
  obtain rfl := number_text_injective hn hm hsame
  exact ⟨rfl, List.append_cancel_left h⟩

/-- The kind of a value. -/
def kind : Value → ℕ
  | .null => 0
  | .bool true => 1
  | .bool false => 2
  | .number _ => 3
  | .string _ => 4
  | .array _ => 5
  | .object _ => 6

/-- The kind of a value whose text begins with a character. -/
def kindOf (c : Char) : ℕ :=
  if c = 'n' then 0
  else if c = 't' then 1
  else if c = 'f' then 2
  else if c = '"' then 4
  else if c = '[' then 5
  else if c = '\x7b' then 6
  else if isNumberChar c then 3
  else 7

theorem text_head {v : Value} (hv : v.Printed) : ∃ c rest, v.text = c :: rest ∧ kindOf c = v.kind := by
  cases v with
  | null => exact ⟨_, _, rfl, rfl⟩
  | bool b =>
      cases b with
      | true => exact ⟨_, _, rfl, rfl⟩
      | false => exact ⟨_, _, rfl, rfl⟩
  | number n =>
      obtain ⟨c, rest, heq⟩ := List.exists_cons_of_ne_nil (number_ne_nil hv)
      have hc := isNumberChar_of_mem hv (heq ▸ List.mem_cons_self)
      refine ⟨c, rest, heq, ?_⟩
      unfold kindOf
      split_ifs with h₁ h₂ h₃ h₄ h₅ h₆
      · rw [h₁] at hc
        cases hc
      · rw [h₂] at hc
        cases hc
      · rw [h₃] at hc
        cases hc
      · rw [h₄] at hc
        cases hc
      · rw [h₅] at hc
        cases hc
      · rw [h₆] at hc
        cases hc
      · rfl
  | string s => exact ⟨_, _, rfl, rfl⟩
  | array items => exact ⟨_, _, rfl, rfl⟩
  | object members => exact ⟨_, _, rfl, rfl⟩

theorem kind_lt (v : Value) : v.kind < 7 := by
  cases v with
  | bool b => cases b <;> decide
  | null => decide
  | number n => exact (by decide : 3 < 7)
  | string s => exact (by decide : 4 < 7)
  | array items => exact (by decide : 5 < 7)
  | object members => exact (by decide : 6 < 7)

/-- No value begins with a separator. -/
theorem text_append_ne {v : Value} (hv : v.Printed) {c : Char} (hc : kindOf c = 7)
    (r s : List Char) : v.text ++ r ≠ c :: s := by
  obtain ⟨d, rest, heq, hd⟩ := text_head hv
  rw [heq, List.cons_append]
  intro h
  have hlt := kind_lt v
  rw [← hd, (List.cons.inj h).1, hc] at hlt
  exact absurd hlt (lt_irrefl 7)

theorem kind_eq {v w : Value} (hv : v.Printed) (hw : w.Printed) {r s : List Char}
    (h : v.text ++ r = w.text ++ s) : v.kind = w.kind := by
  obtain ⟨c, rest, hc, hv⟩ := text_head hv
  obtain ⟨d, rest', hd, hw⟩ := text_head hw
  rw [hc, hd, List.cons_append, List.cons_append] at h
  rw [← hv, ← hw, (List.cons.inj h).1]

/-- The text after the first of several items, up to the end of the array. -/
theorem stops_itemsTail (items : List Value) (rest : List Char) :
    Stops (match items with
      | [] => ']' :: rest
      | next :: items => ',' :: (itemsText (next :: items) ++ ']' :: rest)) := by
  cases items with
  | nil =>
      intro c hc
      cases hc
      rfl
  | cons next items =>
      intro c hc
      cases hc
      rfl

theorem itemsText_cons (item : Value) (items : List Value) (rest : List Char) :
    itemsText (item :: items) ++ ']' :: rest = item.text ++ match items with
      | [] => ']' :: rest
      | next :: items => ',' :: (itemsText (next :: items) ++ ']' :: rest) := by
  cases items with
  | nil => rfl
  | cons next items =>
      rw [itemsText, List.append_assoc]
      rfl

theorem stops_membersTail (members : List (String × Value)) (rest : List Char) :
    Stops (match members with
      | [] => '\x7d' :: rest
      | next :: members => ',' :: (membersText (next :: members) ++ '\x7d' :: rest)) := by
  cases members with
  | nil =>
      intro c hc
      cases hc
      rfl
  | cons next members =>
      intro c hc
      cases hc
      rfl

theorem membersText_cons (key : String) (value : Value) (members : List (String × Value))
    (rest : List Char) :
    membersText ((key, value) :: members) ++ '\x7d' :: rest =
      quoted key.toList ++ (':' :: (value.text ++ match members with
        | [] => '\x7d' :: rest
        | next :: members => ',' :: (membersText (next :: members) ++ '\x7d' :: rest))) := by
  cases members with
  | nil => simp [membersText]
  | cons next members => simp [membersText]

mutual
/-- Two values whose texts begin one text are the same, and so is what follows them. -/
theorem text_append_inj : (v w : Value) → v.Printed → w.Printed → ∀ {r s : List Char},
    Stops r → Stops s → v.text ++ r = w.text ++ s → v = w ∧ r = s
  | .null, w, hv, hw, r, s, _, _, h => by
      have hkind := kind_eq hv hw h
      cases w with
      | null => exact ⟨rfl, List.append_cancel_left h⟩
      | bool b => cases b <;> cases hkind
      | number _ | string _ | array _ | object _ => cases hkind
  | .bool b, w, hv, hw, r, s, _, _, h => by
      have hkind := kind_eq hv hw h
      cases w with
      | bool b' =>
          cases b <;> cases b' <;> first
            | exact ⟨rfl, List.append_cancel_left h⟩
            | cases hkind
      | null | number _ | string _ | array _ | object _ => cases b <;> cases hkind
  | .number n, w, hv, hw, r, s, hr, hs, h => by
      have hkind := kind_eq hv hw h
      cases w with
      | number m =>
          obtain ⟨rfl, hrest⟩ := number_append_inj hv hw hr hs h
          exact ⟨rfl, hrest⟩
      | bool b => cases b <;> cases hkind
      | null | string _ | array _ | object _ => cases hkind
  | .string t, w, hv, hw, r, s, _, _, h => by
      have hkind := kind_eq hv hw h
      cases w with
      | string t' =>
          obtain ⟨heq, hrest⟩ := quoted_append_inj h
          rw [String.toList_inj.mp heq]
          exact ⟨rfl, hrest⟩
      | bool b => cases b <;> cases hkind
      | null | number _ | array _ | object _ => cases hkind
  | .array items, w, hv, hw, r, s, _, _, h => by
      have hkind := kind_eq hv hw h
      cases w with
      | array items' =>
          have hbody : itemsText items ++ ']' :: r = itemsText items' ++ ']' :: s := by
            simpa [text] using h
          obtain ⟨rfl, hrest⟩ := itemsText_append_inj items items' hv hw hbody
          exact ⟨rfl, hrest⟩
      | bool b => cases b <;> cases hkind
      | null | number _ | string _ | object _ => cases hkind
  | .object members, w, hv, hw, r, s, _, _, h => by
      have hkind := kind_eq hv hw h
      cases w with
      | object members' =>
          have hbody : membersText members ++ '\x7d' :: r = membersText members' ++ '\x7d' :: s := by
            simpa [text] using h
          obtain ⟨rfl, hrest⟩ := membersText_append_inj members members' hv.2 hw.2 hbody
          exact ⟨rfl, hrest⟩
      | bool b => cases b <;> cases hkind
      | null | number _ | string _ | array _ => cases hkind

theorem itemsText_append_inj : (vs ws : List Value) → ItemsPrinted vs → ItemsPrinted ws →
    ∀ {r s : List Char}, itemsText vs ++ ']' :: r = itemsText ws ++ ']' :: s → vs = ws ∧ r = s
  | [], [], _, _, r, s, h => ⟨rfl, (List.cons.inj h).2⟩
  | [], w :: ws, _, hw, r, s, h => by
      rw [itemsText_cons] at h
      exact absurd h.symm (text_append_ne hw.1 rfl _ _)
  | v :: vs, [], hv, _, r, s, h => by
      rw [itemsText_cons] at h
      exact absurd h (text_append_ne hv.1 rfl _ _)
  | v :: vs, w :: ws, hv, hw, r, s, h => by
      rw [itemsText_cons, itemsText_cons] at h
      obtain ⟨rfl, hrest⟩ := text_append_inj v w hv.1 hw.1 (stops_itemsTail vs r)
        (stops_itemsTail ws s) h
      cases vs with
      | nil =>
          cases ws with
          | nil => exact ⟨rfl, (List.cons.inj hrest).2⟩
          | cons w' ws => exact absurd (List.cons.inj hrest).1 (by decide)
      | cons v' vs =>
          cases ws with
          | nil => exact absurd (List.cons.inj hrest).1 (by decide)
          | cons w' ws =>
              obtain ⟨heq, hsame⟩ :=
                itemsText_append_inj (v' :: vs) (w' :: ws) hv.2 hw.2 (List.cons.inj hrest).2
              rw [heq]
              exact ⟨rfl, hsame⟩

theorem membersText_append_inj : (vs ws : List (String × Value)) → MembersPrinted vs →
    MembersPrinted ws → ∀ {r s : List Char},
      membersText vs ++ '\x7d' :: r = membersText ws ++ '\x7d' :: s → vs = ws ∧ r = s
  | [], [], _, _, r, s, h => ⟨rfl, (List.cons.inj h).2⟩
  | [], (key, w) :: ws, _, hw, r, s, h => by
      rw [membersText_cons] at h
      exact absurd (List.cons.inj h).1 (by decide)
  | (key, v) :: vs, [], hv, _, r, s, h => by
      rw [membersText_cons] at h
      exact absurd (List.cons.inj h).1 (by decide)
  | (key, v) :: vs, (key', w) :: ws, hv, hw, r, s, h => by
      rw [membersText_cons, membersText_cons] at h
      obtain ⟨hkey, hvalue⟩ := quoted_append_inj h
      obtain ⟨rfl, hrest⟩ := text_append_inj v w hv.1 hw.1 (stops_membersTail vs r)
        (stops_membersTail ws s) (List.cons.inj hvalue).2
      rw [String.toList_inj.mp hkey]
      cases vs with
      | nil =>
          cases ws with
          | nil => exact ⟨rfl, (List.cons.inj hrest).2⟩
          | cons w' ws => exact absurd (List.cons.inj hrest).1 (by decide)
      | cons v' vs =>
          cases ws with
          | nil => exact absurd (List.cons.inj hrest).1 (by decide)
          | cons w' ws =>
              obtain ⟨heq, hsame⟩ :=
                membersText_append_inj (v' :: vs) (w' :: ws) hv.2 hw.2 (List.cons.inj hrest).2
              rw [heq]
              exact ⟨rfl, hsame⟩
end

/-- Values that are printed alike are the same. -/
theorem toString_injective {v w : Value} (hv : v.Printed) (hw : w.Printed)
    (h : v.toString = w.toString) : v = w := by
  have htext : v.text ++ [] = w.text ++ [] := by
    rw [← toList_toString, ← toList_toString, h]
  have hend : Stops [] := fun c hc => (nomatch hc)
  exact (text_append_inj v w hv hw hend hend htext).1

/-! ## Documents -/

open Library.JsonScan

theorem next_string_plain {depth : ℕ} {c : Char} (hquote : c ≠ '"') (hslash : c ≠ '\\') :
    next (.string depth) c = some (.string depth) := by
  simp only [next, if_neg hquote, if_neg hslash]

theorem hexDigit_plain {n : ℕ} (h : n < 16) : hexDigit n ≠ '"' ∧ hexDigit n ≠ '\\' := by
  interval_cases n <;> decide

theorem scan_escapeChar (depth : ℕ) (c : Char) :
    scan (.string depth) (escapeChar c) = some (.string depth) := by
  have hescape : ∀ d : Char, scan (.string depth) ['\\', d] = some (.string depth) := fun _ => rfl
  unfold escapeChar
  split_ifs with h₁ h₂ h₃ h₄ h₅ h₆ h₇ h₈
  iterate 7 exact hescape _
  · obtain ⟨hhigh, hhigh'⟩ := hexDigit_plain (show c.toNat / 16 < 16 by omega)
    obtain ⟨hlow, hlow'⟩ := hexDigit_plain (show c.toNat % 16 < 16 by omega)
    have hunicode : scan (.string depth) ['\\', 'u', '0', '0'] = some (.string depth) := rfl
    rw [show ['\\', 'u', '0', '0', hexDigit (c.toNat / 16), hexDigit (c.toNat % 16)] =
      ['\\', 'u', '0', '0'] ++ [hexDigit (c.toNat / 16), hexDigit (c.toNat % 16)] from rfl,
      scan_append, hunicode, Option.bind_some, scan_cons, next_string_plain hhigh hhigh',
      Option.bind_some, scan_cons, next_string_plain hlow hlow']
    rfl
  · rw [scan_cons, next_string_plain h₁ h₂]
    rfl

theorem scan_escaped (depth : ℕ) (cs : List Char) :
    scan (.string depth) (cs.flatMap escapeChar) = some (.string depth) := by
  induction cs with
  | nil => rfl
  | cons c cs ih => rw [List.flatMap_cons, scan_append, scan_escapeChar, Option.bind_some, ih]

theorem scan_quoted (depth : ℕ) (cs : List Char) :
    scan (.inside depth) (quoted cs) = some (.afterString depth) := by
  have hopen : next (.inside depth) '"' = some (.string depth) := rfl
  rw [quoted, scan_cons, hopen, Option.bind_some, scan_append, scan_escaped]
  rfl

theorem scan_number (depth : ℕ) {cs : List Char} (h : ∀ c ∈ cs, isNumberChar c) :
    scan (.inside depth) cs = some (.inside depth) := by
  induction cs with
  | nil => rfl
  | cons c cs ih =>
      have hc : isNumberChar c := h c List.mem_cons_self
      have hstay : next (.inside depth) c = some (.inside depth) := by
        have hne : ∀ d, isNumberChar d = false → c ≠ d := by
          rintro d hd rfl
          rw [hd] at hc
          cases hc
        simp [next, isOpening, isClosing, hne '"' rfl, hne '\x7b' rfl, hne '[' rfl, hne '\x7d' rfl,
          hne ']' rfl]
      rw [scan_cons, hstay, Option.bind_some, ih fun d hd => h d (List.mem_cons_of_mem c hd)]

/-- Brackets around what is scanned within them. -/
theorem scan_bracket {place : Place} {depth : ℕ} {opening closing : Char} {body : List Char}
    (hopening : next place opening = some (.inside depth))
    (hbody : ∃ p, scan (.inside depth) body = some p ∧ Between depth p)
    (hclosing : closing = '\x7d' ∨ closing = ']') :
    scan place (opening :: (body ++ [closing])) = some (close depth) := by
  obtain ⟨p, hscan, hbetween⟩ := hbody
  rw [scan_cons, hopening, Option.bind_some, scan_append, hscan, Option.bind_some, scan_cons,
    hbetween.closing hclosing]
  rfl

mutual
theorem scan_text : (v : Value) → v.Printed → ∀ depth,
    ∃ p, scan (.inside depth) v.text = some p ∧ Between depth p
  | .null, _, _ => ⟨_, rfl, Or.inl rfl⟩
  | .bool true, _, _ => ⟨_, rfl, Or.inl rfl⟩
  | .bool false, _, _ => ⟨_, rfl, Or.inl rfl⟩
  | .number _, h, depth =>
      ⟨_, scan_number depth fun _ hc => isNumberChar_of_mem h hc, Or.inl rfl⟩
  | .string s, _, depth => ⟨_, scan_quoted depth s.toList, Or.inr rfl⟩
  | .array items, h, depth =>
      ⟨_, scan_bracket rfl (scan_itemsText items h (depth + 1)) (Or.inr rfl), Or.inl rfl⟩
  | .object members, h, depth =>
      ⟨_, scan_bracket rfl (scan_membersText members h.2 (depth + 1)) (Or.inl rfl), Or.inl rfl⟩

theorem scan_itemsText : (items : List Value) → ItemsPrinted items → ∀ depth,
    ∃ p, scan (.inside depth) (itemsText items) = some p ∧ Between depth p
  | [], _, _ => ⟨_, rfl, Or.inl rfl⟩
  | [item], h, depth => scan_text item h.1 depth
  | item :: next :: items, h, depth => by
      obtain ⟨p, hitem, hbetween⟩ := scan_text item h.1 depth
      rw [itemsText, scan_append, hitem, Option.bind_some, scan_cons, hbetween.comma,
        Option.bind_some]
      exact scan_itemsText (next :: items) h.2 depth

theorem scan_membersText : (members : List (String × Value)) → MembersPrinted members → ∀ depth,
    ∃ p, scan (.inside depth) (membersText members) = some p ∧ Between depth p
  | [], _, _ => ⟨_, rfl, Or.inl rfl⟩
  | [(key, value)], h, depth => by
      obtain ⟨p, hvalue, hbetween⟩ := scan_text value h.1 depth
      refine ⟨p, ?_, hbetween⟩
      rw [membersText, scan_append, scan_quoted, Option.bind_some]
      exact hvalue
  | (key, value) :: next :: members, h, depth => by
      obtain ⟨p, hvalue, hbetween⟩ := scan_text value h.1 depth
      have hcolon : Library.JsonScan.next (.afterString depth) ':' = some (.inside depth) := rfl
      rw [membersText, List.append_assoc, scan_append, scan_quoted, Option.bind_some,
        List.cons_append, scan_cons, hcolon, Option.bind_some, scan_append, hvalue,
        Option.bind_some, scan_cons, hbetween.comma, Option.bind_some]
      exact scan_membersText (next :: members) h.2 depth
end

theorem scan_object {members : List (String × Value)} (h : (Value.object members).Printed)
    (depth : ℕ) : scan (.inside depth) (Value.object members).text = some (.inside depth) :=
  scan_bracket rfl (scan_membersText members h.2 (depth + 1)) (Or.inl rfl)

theorem document_object {members : List (String × Value)} (h : (Value.object members).Printed) :
    Document (Value.object members).text :=
  scan_bracket rfl (scan_membersText members h.2 0) (Or.inl rfl)

/-! ## One line -/

theorem printable_escapeChar {c d : Char} (h : d ∈ escapeChar c) : 0x20 ≤ d.toNat := by
  have hhex : ∀ n < 16, 0x20 ≤ (hexDigit n).toNat := by decide
  have hpair : ∀ e : Char, 0x20 ≤ e.toNat → d ∈ ['\\', e] → 0x20 ≤ d.toNat := by
    intro e he hmem
    rcases List.mem_cons.mp hmem with rfl | hmem
    · decide
    · rw [List.mem_singleton.mp hmem]
      exact he
  unfold escapeChar at h
  split_ifs at h with h₁ h₂ h₃ h₄ h₅ h₆ h₇ h₈
  iterate 7 exact hpair _ (by decide) h
  · simp only [List.mem_cons, List.not_mem_nil, or_false] at h
    rcases h with rfl | rfl | rfl | rfl | rfl | rfl
    iterate 4 decide
    · exact hhex _ (by omega)
    · exact hhex _ (by omega)
  · rw [List.mem_singleton.mp h]
    omega

theorem printable_quoted {cs : List Char} {c : Char} (h : c ∈ quoted cs) : 0x20 ≤ c.toNat := by
  rw [quoted, List.mem_cons, List.mem_append, List.mem_flatMap, List.mem_singleton] at h
  rcases h with rfl | ⟨d, -, hc⟩ | rfl
  · decide
  · exact printable_escapeChar hc
  · decide

theorem printable_number {c : Char} (h : isNumberChar c) : 0x20 ≤ c.toNat := by
  simp only [isNumberChar, Bool.or_eq_true, beq_iff_eq] at h
  rcases h with ((((hdigit | rfl) | rfl) | rfl) | rfl) | rfl
  · have hlow : 48 ≤ c.val.toNat := by
      simp only [Char.isDigit, Bool.and_eq_true, decide_eq_true_eq] at hdigit
      exact hdigit.1
    exact le_trans (by decide) hlow
  iterate 5 decide

mutual
/-- The text of a value is one line. -/
theorem printable_text : (v : Value) → v.Printed → ∀ c ∈ v.text, 0x20 ≤ c.toNat
  | .null, _ => Library.forall_mem_of_all (by decide)
  | .bool true, _ => Library.forall_mem_of_all (by decide)
  | .bool false, _ => Library.forall_mem_of_all (by decide)
  | .number _, h => fun _ hc => printable_number (isNumberChar_of_mem h hc)
  | .string _, _ => fun _ hc => printable_quoted hc
  | .array items, h => by
      intro c hc
      rw [text, List.mem_cons, List.mem_append, List.mem_singleton] at hc
      rcases hc with rfl | hc | rfl
      · decide
      · exact printable_itemsText items h c hc
      · decide
  | .object members, h => by
      intro c hc
      rw [text, List.mem_cons, List.mem_append, List.mem_singleton] at hc
      rcases hc with rfl | hc | rfl
      · decide
      · exact printable_membersText members h.2 c hc
      · decide

theorem printable_itemsText : (items : List Value) → ItemsPrinted items →
    ∀ c ∈ itemsText items, 0x20 ≤ c.toNat
  | [], _ => by simp [itemsText]
  | [item], h => printable_text item h.1
  | item :: next :: items, h => by
      intro c hc
      rw [itemsText, List.mem_append, List.mem_cons] at hc
      rcases hc with hc | rfl | hc
      · exact printable_text item h.1 c hc
      · decide
      · exact printable_itemsText (next :: items) h.2 c hc

theorem printable_membersText : (members : List (String × Value)) → MembersPrinted members →
    ∀ c ∈ membersText members, 0x20 ≤ c.toNat
  | [], _ => by simp [membersText]
  | [(key, value)], h => by
      intro c hc
      rw [membersText, List.mem_append, List.mem_cons] at hc
      rcases hc with hc | rfl | hc
      · exact printable_quoted hc
      · decide
      · exact printable_text value h.1 c hc
  | (key, value) :: next :: members, h => by
      intro c hc
      rw [membersText, List.mem_append, List.mem_append, List.mem_cons, List.mem_cons] at hc
      rcases hc with (hc | rfl | hc) | rfl | hc
      · exact printable_quoted hc
      · decide
      · exact printable_text value h.1 c hc
      · decide
      · exact printable_membersText (next :: members) h.2 c hc
end

end Value

end BlackMonolith.Json
