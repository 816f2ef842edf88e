import Mathlib.Data.List.Infix

/-!
# Brackets and strings of a JSON document

A scan of a document that is an object or an array: it follows strings and their
escapes and counts brackets, and asks of the rest only that a string is followed by a
separator or a bracket. Every such document is scanned to its end, so a text that is
not is none.
-/
namespace BlackMonolith.Library.JsonScan

/-- Where a scan stands; `depth` counts the brackets around the innermost one. -/
inductive Place
  | before
  | inside (depth : ℕ)
  | string (depth : ℕ)
  | escape (depth : ℕ)
  | afterString (depth : ℕ)
  | done
deriving Repr, DecidableEq

def isSpace (c : Char) : Bool := c == ' ' || c == '\t' || c == '\n' || c == '\r'

def isOpening (c : Char) : Bool := c == '\x7b' || c == '['

def isClosing (c : Char) : Bool := c == '\x7d' || c == ']'

/-- Behind a closing bracket. -/
def close : ℕ → Place
  | 0 => .done
  | depth + 1 => .inside depth

def next : Place → Char → Option Place
  | .before, c =>
      if isSpace c then some .before else if isOpening c then some (.inside 0) else none
  | .inside depth, c =>
      if c = '"' then some (.string depth)
      else if isOpening c then some (.inside (depth + 1))
      else if isClosing c then some (close depth)
      else some (.inside depth)
  | .string depth, c =>
      if c = '"' then some (.afterString depth)
      else if c = '\\' then some (.escape depth)
      else some (.string depth)
  | .escape depth, _ => some (.string depth)
  | .afterString depth, c =>
      if isSpace c then some (.afterString depth)
      else if c = ',' ∨ c = ':' then some (.inside depth)
      else if isClosing c then some (close depth)
      else none
  | .done, c => if isSpace c then some .done else none

def scan (place : Place) (cs : List Char) : Option Place := cs.foldlM next place

/-- The text is scanned as one object or array. -/
def Document (cs : List Char) : Prop := scan .before cs = some .done

instance (cs : List Char) : Decidable (Document cs) := inferInstanceAs (Decidable (_ = _))

@[simp] theorem scan_nil (place : Place) : scan place [] = some place := rfl

@[simp] theorem scan_cons (place : Place) (c : Char) (cs : List Char) :
    scan place (c :: cs) = (next place c).bind fun p => scan p cs := rfl

theorem scan_append (place : Place) (cs ds : List Char) :
    scan place (cs ++ ds) = (scan place cs).bind fun p => scan p ds := by
  unfold scan
  rw [List.foldlM_append]
  rfl

/-- A document ends with its last bracket. -/
theorem scan_done {cs : List Char} {c : Char} (hc : c ∈ cs) (hspace : isSpace c = false) :
    scan .done cs = none := by
  induction cs with
  | nil => cases hc
  | cons d cs ih =>
      cases hd : isSpace d with
      | true =>
          have hmem : c ∈ cs := by
            rcases List.mem_cons.mp hc with rfl | hmem
            · rw [hd] at hspace
              cases hspace
            · exact hmem
          simp [next, hd, ih hmem]
      | false => simp [next, hd]

/-- No part of a document that leaves out its end is one. -/
theorem not_document_of_append {cs ds : List Char} {c : Char} (h : Document (cs ++ ds))
    (hc : c ∈ ds) (hspace : isSpace c = false) : ¬Document cs := by
  intro hcs
  unfold Document at h hcs
  rw [scan_append, hcs, Option.bind_some, scan_done hc hspace] at h
  cases h

theorem next_ne_before {place place' : Place} {c : Char} (h : next place c = some place')
    (hne : place ≠ .before ∨ isSpace c = false) : place' ≠ .before := by
  rintro rfl
  have hclose : ∀ depth, close depth ≠ .before := by
    intro depth
    cases depth <;> exact Place.noConfusion
  cases place with
  | before =>
      have hspace := hne.resolve_left fun h => h rfl
      simp only [next, hspace, Bool.false_eq_true, if_false] at h
      split_ifs at h
      cases h
  | escape depth => cases h
  | inside depth | string depth | afterString depth | done =>
      simp only [next] at h
      split_ifs at h
      all_goals first
        | cases h
        | exact hclose _ (Option.some.inj h)

/-- Once begun, a document stays begun. -/
theorem scan_ne_before {place place' : Place} {cs : List Char} (h : scan place cs = some place')
    (hne : place ≠ .before) : place' ≠ .before := by
  induction cs generalizing place with
  | nil =>
      rw [scan_nil, Option.some_inj] at h
      rw [← h]
      exact hne
  | cons c cs ih =>
      rw [scan_cons] at h
      obtain ⟨p, hp, hrest⟩ := Option.bind_eq_some_iff.mp h
      exact ih hrest (next_ne_before hp (Or.inl hne))

/-- Between two values, or behind the last one. -/
def Between (depth : ℕ) (place : Place) : Prop := place = .inside depth ∨ place = .afterString depth

theorem Between.comma {depth : ℕ} {place : Place} (h : Between depth place) :
    next place ',' = some (.inside depth) := by
  rcases h with rfl | rfl <;> rfl

theorem Between.closing {depth : ℕ} {place : Place} (h : Between depth place) {c : Char}
    (hc : c = '\x7d' ∨ c = ']') : next place c = some (close depth) := by
  rcases h with rfl | rfl <;> rcases hc with rfl | rfl <;> rfl

/-- An object that begins with a key is no continuation of a document to its end, nor can
it follow one. -/
theorem scan_object_ne_done {place : Place} {key : Char} {body : List Char}
    (hplace : place ≠ .before)
    (hkey : isSpace key = false ∧ key ≠ ',' ∧ key ≠ ':' ∧ isClosing key = false)
    (hbody : ∀ depth, scan (.inside depth) ('\x7b' :: '"' :: key :: body) = some (.inside depth)) :
    scan place ('\x7b' :: '"' :: key :: body) ≠ some .done := by
  obtain ⟨hspace, hcomma, hcolon, hclosing⟩ := hkey
  have hafter : ∀ depth, next (.afterString depth) key = none := by
    intro depth
    simp [next, hspace, hcomma, hcolon, hclosing]
  cases place with
  | before => exact absurd rfl hplace
  | inside depth =>
      rw [hbody]
      exact fun h => Place.noConfusion (Option.some.inj h)
  | string depth =>
      have hquote : next (.string depth) '\x7b' = some (.string depth) := rfl
      have hend : next (.string depth) '"' = some (.afterString depth) := rfl
      simp [hquote, hend, hafter]
  | escape depth =>
      have hquote : next (.escape depth) '\x7b' = some (.string depth) := rfl
      have hend : next (.string depth) '"' = some (.afterString depth) := rfl
      simp [hquote, hend, hafter]
  | afterString depth =>
      have hnone : next (.afterString depth) '\x7b' = none := rfl
      simp [hnone]
  | done =>
      have hnone : next .done '\x7b' = none := rfl
      simp [hnone]

end BlackMonolith.Library.JsonScan
