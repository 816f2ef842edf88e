import BlackMonolith.TraceAudit.PiiScanner
import Mathlib.Data.List.Sort

/-!
# Redaction

Matches are replaced from the last start to the first, and one that overlaps a
match already replaced is skipped. The characters of a text may carry the place
they came from, which redaction keeps; what it leaves are then the places that no
match it applied covers.
-/
namespace BlackMonolith.TraceAudit
open Library

/-- The characters a text is made of, and those a placeholder is written with. -/
class Glyph (α : Type) where
  point : α → CodePoint
  mark : CodePoint → α
  point_mark : ∀ c, point (mark c) = c

instance : Glyph CodePoint := ⟨id, id, fun _ => rfl⟩

/-- A character with its place; a placeholder has none. -/
abbrev Traced := CodePoint × Option ℕ

instance : Glyph Traced := ⟨Prod.fst, fun c => (c, none), fun _ => rfl⟩

section
variable {α : Type} [Glyph α]

def points (t : List α) : Text := t.map Glyph.point

def placeholder (label : String) : List α := (text s!"[REDACTED:{label}]").map Glyph.mark

/-- `sorted` by start with `reverse`, which keeps the order of equal starts. -/
def byStartReversed (found : List PiiMatch) : List PiiMatch :=
  found.insertionSort fun a b => b.start ≤ a.start

def replaceMatches : ℕ → List PiiMatch → List α → List α
  | _, [], t => t
  | lastStart, m :: rest, t =>
      if lastStart < m.stop then replaceMatches lastStart rest t
      else replaceMatches m.start rest (t.take m.start ++ placeholder m.label ++ t.drop m.stop)

def redact (t : List α) (found : List PiiMatch) : List α :=
  replaceMatches (t.length + 1) (byStartReversed found) t

/-- The matches that are not skipped. -/
def keptFrom : ℕ → List PiiMatch → List PiiMatch
  | _, [] => []
  | lastStart, m :: rest =>
      if lastStart < m.stop then keptFrom lastStart rest else m :: keptFrom m.start rest

def kept (length : ℕ) (found : List PiiMatch) : List PiiMatch :=
  keptFrom (length + 1) (byStartReversed found)

end

def PiiMatch.Covers (m : PiiMatch) (i : ℕ) : Prop := m.start ≤ i ∧ i < m.stop

def Covered (found : List PiiMatch) (i : ℕ) : Prop := ∃ m ∈ found, m.Covers i

instance (m : PiiMatch) (i : ℕ) : Decidable (m.Covers i) := inferInstanceAs (Decidable (_ ∧ _))

instance (found : List PiiMatch) (i : ℕ) : Decidable (Covered found i) :=
  inferInstanceAs (Decidable (∃ m ∈ found, _))

/-- The places of a text, in order. -/
def places (t : List Traced) : List ℕ := t.filterMap Prod.snd

/-! ## What is skipped and what is kept -/

theorem mem_byStartReversed {found : List PiiMatch} {m : PiiMatch} :
    m ∈ byStartReversed found ↔ m ∈ found :=
  List.mem_insertionSort _

theorem stop_le_of_mem_keptFrom {lastStart : ℕ} {ms : List PiiMatch}
    (hms : ∀ m ∈ ms, m.start < m.stop) {m : PiiMatch} (h : m ∈ keptFrom lastStart ms) :
    m ∈ ms ∧ m.stop ≤ lastStart := by
  induction ms generalizing lastStart with
  | nil => cases h
  | cons a ms ih =>
      have hrest : ∀ m ∈ ms, m.start < m.stop := fun m hm => hms m (List.mem_cons_of_mem a hm)
      unfold keptFrom at h
      split_ifs at h with hskip
      · obtain ⟨hmem, hle⟩ := ih hrest h
        exact ⟨List.mem_cons_of_mem a hmem, hle⟩
      · have ha := hms a List.mem_cons_self
        cases h with
        | head => exact ⟨List.mem_cons_self, by omega⟩
        | tail _ h =>
            obtain ⟨hmem, hle⟩ := ih hrest h
            exact ⟨List.mem_cons_of_mem a hmem, by omega⟩

section
variable {α : Type} [Glyph α]

@[simp] theorem length_points (t : List α) : (points t).length = t.length := List.length_map _

@[simp] theorem points_append (t u : List α) : points (t ++ u) = points t ++ points u :=
  List.map_append

@[simp] theorem points_take (t : List α) (n : ℕ) : points (t.take n) = (points t).take n :=
  List.map_take

@[simp] theorem points_drop (t : List α) (n : ℕ) : points (t.drop n) = (points t).drop n :=
  List.map_drop

@[simp] theorem points_placeholder (label : String) :
    points (placeholder label : List α) = placeholder label := by
  unfold points placeholder
  rw [List.map_map]
  apply List.map_congr_left
  intro c _
  exact Glyph.point_mark c

/-- What stands after the last start is left alone. -/
theorem replaceMatches_append {lastStart : ℕ} {ms : List PiiMatch} {t u : List α}
    (hms : ∀ m ∈ ms, m.start < m.stop) (ht : lastStart ≤ t.length) :
    replaceMatches lastStart ms (t ++ u) = replaceMatches lastStart ms t ++ u := by
  induction ms generalizing lastStart t with
  | nil => rfl
  | cons m ms ih =>
      have hrest : ∀ m ∈ ms, m.start < m.stop := fun m' hm => hms m' (List.mem_cons_of_mem m hm)
      have hm := hms m List.mem_cons_self
      unfold replaceMatches
      split_ifs with hskip
      · exact ih hrest ht
      · rw [List.take_append_of_le_length (by omega), List.drop_append_of_le_length (by omega),
          ← List.append_assoc, ih hrest]
        simp only [List.length_append, List.length_take]
        omega

/-- The first match that fits leaves the front to the others. -/
theorem replaceMatches_kept {lastStart : ℕ} {m : PiiMatch} {ms : List PiiMatch} {t : List α}
    (hms : ∀ m ∈ ms, m.start < m.stop) (hm : m.start ≤ t.length) (hfits : m.stop ≤ lastStart) :
    replaceMatches lastStart (m :: ms) t =
      replaceMatches m.start ms (t.take m.start) ++ placeholder m.label ++ t.drop m.stop := by
  have hlength : m.start ≤ (t.take m.start).length := by
    rw [List.length_take]
    omega
  show (if lastStart < m.stop then _ else _) = _
  rw [if_neg (Nat.not_lt.mpr hfits), List.append_assoc, replaceMatches_append hms hlength,
    List.append_assoc]

/-- A character in the scanned text is what it is without its place. -/
theorem points_replaceMatches {lastStart : ℕ} {ms : List PiiMatch} {t : List α} :
    points (replaceMatches lastStart ms t) = replaceMatches lastStart ms (points t) := by
  induction ms generalizing lastStart t with
  | nil => rfl
  | cons m ms ih =>
      unfold replaceMatches
      split_ifs
      · exact ih
      · rw [ih]
        simp only [points_append, points_take, points_drop, points_placeholder]

theorem points_redact {t : List α} {found : List PiiMatch} :
    points (redact t found) = redact (points t) found := by
  unfold redact
  rw [points_replaceMatches, length_points]

end

/-! ## The places that are left -/

/-- The characters of a text come one place after the other. -/
def Consecutive (base : ℕ) (t : List Traced) : Prop :=
  t.map Prod.snd = (List.range' base t.length).map some

section
variable {base : ℕ} {t : List Traced}

theorem Consecutive.places_eq (h : Consecutive base t) : places t = List.range' base t.length := by
  have hmap : places t = (t.map Prod.snd).filterMap id := by
    rw [List.filterMap_map]
    rfl
  rw [hmap, h, List.filterMap_map]
  exact List.filterMap_some

theorem Consecutive.take (h : Consecutive base t) (n : ℕ) : Consecutive base (t.take n) := by
  unfold Consecutive at *
  rw [List.map_take, h, ← List.map_take, List.length_take]
  rcases Nat.le_total n t.length with hle | hle
  · rw [List.take_range'_of_length_ge hle, Nat.min_eq_left hle]
  · rw [List.take_range'_of_length_le hle, Nat.min_eq_right hle]

theorem Consecutive.drop (h : Consecutive base t) (n : ℕ) :
    Consecutive (base + n) (t.drop n) := by
  unfold Consecutive at *
  rw [List.map_drop, h, ← List.map_drop, List.length_drop, List.drop_range', Nat.mul_one]

@[simp] theorem places_append (t u : List Traced) : places (t ++ u) = places t ++ places u :=
  List.filterMap_append

@[simp] theorem places_placeholder (label : String) : places (placeholder label) = [] := by
  unfold places placeholder
  apply List.filterMap_eq_nil_iff.mpr
  intro c hc
  obtain ⟨_, _, rfl⟩ := List.mem_map.mp hc
  rfl

/-- Redaction leaves the places that no match it applies covers. -/
theorem places_replaceMatches {lastStart : ℕ} {ms : List PiiMatch}
    (hms : ∀ m ∈ ms, m.start < m.stop) (hlast : ∀ m ∈ ms, m.stop ≤ lastStart → m.stop ≤ t.length)
    (ht : Consecutive base t) :
    places (replaceMatches lastStart ms t) =
      (List.range' base t.length).filter fun i => ¬ Covered (keptFrom lastStart ms) (i - base) := by
  induction ms generalizing lastStart t with
  | nil =>
      symm
      rw [List.filter_eq_self.mpr]
      · exact ht.places_eq.symm
      · intro i _
        exact decide_eq_true fun ⟨m, hm, _⟩ => List.not_mem_nil hm
  | cons m ms ih =>
      have hrest : ∀ m ∈ ms, m.start < m.stop := fun m' hm => hms m' (List.mem_cons_of_mem m hm)
      have hm := hms m List.mem_cons_self
      unfold replaceMatches keptFrom
      split_ifs with hskip
      · exact ih hrest (fun m' hm' => hlast m' (List.mem_cons_of_mem m hm')) ht
      · have hstop := hlast m List.mem_cons_self (Nat.not_lt.mp hskip)
        have hlength : (t.take m.start).length = m.start := by
          rw [List.length_take]
          omega
        rw [List.append_assoc, replaceMatches_append hrest hlength.ge, places_append, places_append,
          places_placeholder, List.nil_append, ih hrest (by omega) (ht.take _),
          (ht.drop _).places_eq, hlength, List.length_drop]
        symm
        apply filter_range'_gap (Nat.le_of_lt hm) hstop
        · intro i hi
          have hnot : ¬ m.Covers (base + i - base) := fun hcovers => by
            have := hcovers.1
            omega
          apply decide_eq_decide.mpr
          simp only [Covered, List.exists_mem_cons_iff, hnot, false_or]
        · intro i hstart hi
          have hcovers : m.Covers (base + i - base) := ⟨by omega, by omega⟩
          simp only [Covered, List.exists_mem_cons_iff, hcovers, true_or, not_true, decide_false]
        · intro i hi
          apply decide_eq_true
          rintro ⟨m', hm', hstart, hstop'⟩
          cases hm' with
          | head => omega
          | tail _ hm' =>
              have hle := (stop_le_of_mem_keptFrom hrest hm').2
              omega

theorem places_redact {found : List PiiMatch} (hfound : ∀ m ∈ found, m.Inside (points t))
    (ht : Consecutive base t) :
    places (redact t found) =
      (List.range' base t.length).filter fun i => ¬ Covered (kept t.length found) (i - base) := by
  apply places_replaceMatches _ _ ht
  · intro m hm
    exact (hfound m (mem_byStartReversed.mp hm)).1
  · intro m hm _
    have hle := (hfound m (mem_byStartReversed.mp hm)).2
    rw [length_points] at hle
    exact hle

end

end BlackMonolith.TraceAudit
