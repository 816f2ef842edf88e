import Mathlib
import BlackMonolith.Library.Python

/-!
# The scanner for credentials

`scan` reports the spans of a text that look like a credential or a personal
datum, and the literal secrets it is given. Regular expressions, the Unicode
tables and the decoders are parameters; a span they report lies inside the text.
-/
namespace BlackMonolith.TraceAudit
open Library

abbrev Text := List CodePoint

/-- A text literal of the source. -/
def text (s : String) : Text := (PyString.ofString s).points

structure PiiMatch where
  label : String
  start : ℕ
  stop : ℕ
  value : Text
deriving Repr, DecidableEq

def slice (t : Text) (start stop : ℕ) : Text := (t.take stop).drop start

/-- What `re.finditer` reports, from left to right. -/
structure Pattern where
  label : String
  finditer : Text → List (ℕ × ℕ)
  inside : ∀ t, ∀ s ∈ finditer t, s.1 < s.2 ∧ s.2 ≤ t.length

/-- One of `_ENCODED_ATOMS` with its decoder; `none` is an atom it rejects. -/
structure EncodedAtom where
  encoding : String
  finditer : Text → List (ℕ × ℕ)
  inside : ∀ t, ∀ s ∈ finditer t, s.1 < s.2 ∧ s.2 ≤ t.length
  decode : Text → Option Text

/-- `unicodedata`, `re` and the decoders. A code point normalizes to a text in
its place, and its digit value is that of `isdigit` and `int`. -/
structure Engine where
  isFormat : CodePoint → Bool
  nfkc : CodePoint → Text
  digit : CodePoint → Option ℕ
  patterns : List Pattern
  encodedAtoms : List EncodedAtom

def minLiteralSecretLength : ℕ := 8
def literalCredentialLabel : String := "anthropic_api_key"
def maxEncodedChars : ℕ := 4096

section
variable (engine : Engine)

/-- Every second digit counts twice, from the one whose place has the parity of
the number of digits. -/
def luhnSum (digits : List ℕ) : ℕ :=
  (digits.zipIdx.map fun (digit, index) =>
    if index % 2 = digits.length % 2 then
      if 9 < digit * 2 then digit * 2 - 9 else digit * 2
    else digit).sum

def validCardNumber (value : Text) : Bool :=
  let digits := value.filterMap engine.digit
  13 ≤ digits.length && digits.length ≤ 19 && digits.dedup.length != 1 && luhnSum digits % 10 == 0

/-- The characters that are scanned, each with the place it stands for. -/
def candidate (t : Text) : List (CodePoint × ℕ) :=
  t.zipIdx.flatMap fun (c, index) =>
    if engine.isFormat c then [] else (engine.nfkc c).map fun value => (value, index)

/-- The matches of one pattern, in places of the text that was scanned. -/
def patternSpans (t : Text) (p : Pattern) : List (String × ℕ × ℕ) :=
  let normalized := (candidate engine t).map Prod.fst
  let offset := fun i => ((candidate engine t).map Prod.snd).getD i 0
  ((p.finditer normalized).filter fun s =>
      p.label != "credit_card" || validCardNumber engine (slice normalized s.1 s.2)).map
    fun s => (p.label, offset s.1, offset (s.2 - 1) + 1)

def toMatch (t : Text) : String × ℕ × ℕ → PiiMatch
  | (label, start, stop) => ⟨label, start, stop, slice t start stop⟩

def scanPlain (t : Text) : List PiiMatch :=
  (engine.patterns.flatMap (patternSpans engine t)).eraseDups.map (toMatch t)

/-- The atoms of one encoding that hide a finding. -/
def encodedMatches (t : Text) (atom : EncodedAtom) : List PiiMatch :=
  (atom.finditer t).filterMap fun (start, stop) =>
    let value := slice t start stop
    if maxEncodedChars < value.length then none
    else
      match (atom.decode value).map (scanPlain engine) with
      | some (finding :: _) =>
          some ⟨s!"encoded_{atom.encoding}_{finding.label}", start, stop, value⟩
      | _ => none

/-- The places of a secret, each after the end of the one before. -/
def occurrences (secret : Text) (place : ℕ) : ℕ → Text → List ℕ
  | _, [] => []
  | skip + 1, _ :: t => occurrences secret (place + 1) skip t
  | 0, c :: t =>
      if secret.isPrefixOf (c :: t) then
        place :: occurrences secret (place + 1) (secret.length - 1) t
      else occurrences secret (place + 1) 0 t

def literalMatches (t : Text) (literals : List Text) : List PiiMatch :=
  (literals.flatMap fun secret =>
    if secret.length < minLiteralSecretLength then []
    else (occurrences secret 0 0 t).map fun start =>
      PiiMatch.mk literalCredentialLabel start (start + secret.length) secret).eraseDups

def PiiMatch.overlaps (a b : PiiMatch) : Bool := a.start < b.stop && b.start < a.stop

/-- `scan`: a literal takes the place of every match that overlaps it. -/
def scan (t : Text) (literals : List Text) : List PiiMatch :=
  let found := scanPlain engine t ++ engine.encodedAtoms.flatMap (encodedMatches engine t)
  let known := literalMatches t literals
  found.filter (fun m => !known.any fun l => l.overlaps m) ++ known

end

/-! ## Spans lie inside the text -/

def PiiMatch.Inside (m : PiiMatch) (t : Text) : Prop := m.start < m.stop ∧ m.stop ≤ t.length

section
variable {engine : Engine} {t : Text}

theorem getD_mem {places : List ℕ} {i : ℕ} (h : i < places.length) : places.getD i 0 ∈ places := by
  rw [← List.getElem_eq_getD (h := h) 0]
  exact List.getElem_mem h

theorem getD_mono {places : List ℕ} (h : places.Pairwise (· ≤ ·)) {i j : ℕ} (hij : i ≤ j)
    (hj : j < places.length) : places.getD i 0 ≤ places.getD j 0 := by
  rcases Nat.lt_or_eq_of_le hij with hlt | rfl
  · rw [← List.getElem_eq_getD (h := Nat.lt_trans hlt hj) 0, ← List.getElem_eq_getD (h := hj) 0]
    exact List.pairwise_iff_getElem.mp h i j (Nat.lt_trans hlt hj) hj hlt
  · exact Nat.le_refl _

/-- The places of the scanned characters grow with them. -/
theorem candidate_ordered : ((candidate engine t).map Prod.snd).Pairwise (· ≤ ·) := by
  unfold candidate
  rw [List.map_flatMap, List.pairwise_flatMap]
  have hplaces : ∀ x : CodePoint × ℕ, ∀ i ∈ List.map Prod.snd
      (if engine.isFormat x.1 then [] else (engine.nfkc x.1).map fun value => (value, x.2)),
      i = x.2 := by
    intro x i hi
    split_ifs at hi
    · cases hi
    · simp only [List.map_map, List.mem_map, Function.comp_apply] at hi
      obtain ⟨_, _, rfl⟩ := hi
      rfl
  have hzip : (t.zipIdx.map Prod.snd).Pairwise (· < ·) := by
    rw [List.zipIdx_map_snd]
    exact List.pairwise_lt_range'
  constructor
  · intro x _
    apply List.pairwise_of_forall_mem_list
    intro i hi j hj
    rw [hplaces x i hi, hplaces x j hj]
  · refine (List.pairwise_map.mp hzip).imp fun {x y} hxy i hi j hj => ?_
    rw [hplaces x i hi, hplaces y j hj]
    exact Nat.le_of_lt hxy

theorem candidate_lt {i : ℕ} (h : i ∈ (candidate engine t).map Prod.snd) : i < t.length := by
  obtain ⟨x, hx, rfl⟩ := List.mem_map.mp h
  obtain ⟨y, hy, hmem⟩ := List.mem_flatMap.mp hx
  dsimp only at hmem
  split_ifs at hmem
  · cases hmem
  · obtain ⟨_, _, rfl⟩ := List.mem_map.mp hmem
    exact List.snd_lt_of_mem_zipIdx hy

theorem patternSpans_inside {p : Pattern} {label : String} {start stop : ℕ}
    (h : (label, start, stop) ∈ patternSpans engine t p) : start < stop ∧ stop ≤ t.length := by
  obtain ⟨s, hs, heq⟩ := List.mem_map.mp h
  obtain ⟨hlt, hle⟩ := p.inside _ s (List.mem_filter.mp hs).1
  have hlen : s.2 ≤ ((candidate engine t).map Prod.snd).length := by
    rw [List.length_map] at hle ⊢
    exact hle
  have hordered : ((candidate engine t).map Prod.snd).getD s.1 0 ≤
      ((candidate engine t).map Prod.snd).getD (s.2 - 1) 0 :=
    getD_mono candidate_ordered (by omega) (by omega)
  have hlast : ((candidate engine t).map Prod.snd).getD (s.2 - 1) 0 < t.length :=
    candidate_lt (getD_mem (by omega))
  simp only [Prod.mk.injEq] at heq
  omega

theorem scanPlain_inside {m : PiiMatch} (h : m ∈ scanPlain engine t) : m.Inside t := by
  obtain ⟨⟨label, start, stop⟩, hspan, rfl⟩ := List.mem_map.mp h
  obtain ⟨p, -, hp⟩ := List.mem_flatMap.mp (List.mem_eraseDups.mp hspan)
  exact patternSpans_inside hp

theorem encodedMatches_inside {atom : EncodedAtom} {m : PiiMatch}
    (h : m ∈ encodedMatches engine t atom) : m.Inside t := by
  obtain ⟨⟨start, stop⟩, hspan, hm⟩ := List.mem_filterMap.mp h
  dsimp only at hm
  split_ifs at hm
  split at hm
  · cases hm
    exact atom.inside t _ hspan
  · cases hm

theorem occurrences_inside {secret : Text} {place skip start : ℕ}
    (h : start ∈ occurrences secret place skip t) : start + secret.length ≤ place + t.length := by
  induction t generalizing place skip with
  | nil => cases h
  | cons c t ih =>
      rw [List.length_cons]
      cases skip with
      | succ skip =>
          have := ih h
          omega
      | zero =>
          unfold occurrences at h
          split_ifs at h with hfront
          · cases h with
            | head =>
                have hlen := (List.isPrefixOf_iff_prefix.mp hfront).length_le
                rw [List.length_cons] at hlen
                omega
            | tail _ h =>
                have := ih h
                omega
          · have := ih h
            omega

/-- A secret stands at each of its places. -/
theorem occurrences_initial {secret : Text} {place skip start : ℕ}
    (h : start ∈ occurrences secret place skip t) :
    place ≤ start ∧ secret <+: t.drop (start - place) := by
  induction t generalizing place skip with
  | nil => cases h
  | cons c t ih =>
      have hnext : ∀ {skip}, start ∈ occurrences secret (place + 1) skip t →
          place ≤ start ∧ secret <+: (c :: t).drop (start - place) := by
        intro skip h
        obtain ⟨hle, hinitial⟩ := ih h
        have hsub : start - place = (start - (place + 1)) + 1 := by omega
        exact ⟨by omega, by rwa [hsub, List.drop_succ_cons]⟩
      cases skip with
      | succ skip => exact hnext h
      | zero =>
          unfold occurrences at h
          split_ifs at h with hfront
          · cases h with
            | head =>
                rw [Nat.sub_self, List.drop_zero]
                exact ⟨Nat.le_refl _, List.isPrefixOf_iff_prefix.mp hfront⟩
            | tail _ h => exact hnext h
          · exact hnext h

theorem literalMatches_inside {literals : List Text} {m : PiiMatch}
    (h : m ∈ literalMatches t literals) : m.Inside t := by
  obtain ⟨secret, -, hsecret⟩ := List.mem_flatMap.mp (List.mem_eraseDups.mp h)
  split_ifs at hsecret with hshort
  · cases hsecret
  · obtain ⟨start, hstart, rfl⟩ := List.mem_map.mp hsecret
    have hend := occurrences_inside hstart
    unfold minLiteralSecretLength at hshort
    constructor
    · show start < start + secret.length
      omega
    · show start + secret.length ≤ t.length
      omega

theorem scan_inside {literals : List Text} {m : PiiMatch} (h : m ∈ scan engine t literals) :
    m.Inside t := by
  cases List.mem_append.mp h with
  | inl hfound =>
      cases List.mem_append.mp (List.mem_filter.mp hfound).1 with
      | inl hplain => exact scanPlain_inside hplain
      | inr hencoded =>
          obtain ⟨atom, -, hatom⟩ := List.mem_flatMap.mp hencoded
          exact encodedMatches_inside hatom
  | inr hknown => exact literalMatches_inside hknown

/-- A match carries the text of its span. -/
theorem scan_value {literals : List Text} {m : PiiMatch} (h : m ∈ scan engine t literals) :
    m.value = slice t m.start m.stop := by
  rcases List.mem_append.mp h with hfound | hknown
  · rcases List.mem_append.mp (List.mem_filter.mp hfound).1 with hplain | hencoded
    · obtain ⟨span, -, rfl⟩ := List.mem_map.mp hplain
      rfl
    · obtain ⟨atom, -, hatom⟩ := List.mem_flatMap.mp hencoded
      obtain ⟨span, -, hm⟩ := List.mem_filterMap.mp hatom
      dsimp only at hm
      split_ifs at hm
      split at hm
      · cases hm
        rfl
      · cases hm
  · obtain ⟨secret, -, hsecret⟩ := List.mem_flatMap.mp (List.mem_eraseDups.mp hknown)
    split_ifs at hsecret
    · cases hsecret
    · obtain ⟨start, hstart, rfl⟩ := List.mem_map.mp hsecret
      obtain ⟨rest, hrest⟩ := (occurrences_initial hstart).2
      unfold slice
      dsimp only
      rw [List.drop_take, Nat.add_sub_cancel_left, ← Nat.sub_zero start, ← hrest, List.take_left]

end

end BlackMonolith.TraceAudit
