import BlackMonolith.Library.Fallible
import BlackMonolith.Library.Python
import Mathlib.Data.List.Dedup

/-!
# The revoked-session registry of the Python modules

`_clean_id` is what stamps an id on an event and what both sides of the registry
compare. It raises on a string that cannot be encoded, and then the registry
keeps what it had. Which code points are printable is a parameter.
-/
namespace BlackMonolith.MonolithEvents
open Library

/-- What a caller may pass for an id. -/
inductive PyValue
  | str (s : PyString)
  | other
deriving Repr, DecidableEq

def maxIdLength : ℕ := 128

section
variable (isPrintable : CodePoint → Bool)

/-- `_clean_id`. -/
def cleanId : PyValue → Except UnicodeEncodeError (Option PyString)
  | .other => .ok none
  | .str value =>
      let trimmed := value.strip
      if trimmed.points = [] then .ok none
      else do
        let length ← trimmed.encodedLength
        if maxIdLength < length || trimmed.points.any fun c => !isPrintable c then .ok none
        else .ok (some trimmed)

def cleanIds : List PyValue → Except UnicodeEncodeError (List PyString)
  | [] => .ok []
  | item :: items => do
      let cleaned ← cleanId isPrintable item
      let rest ← cleanIds items
      .ok (cleaned.toList ++ rest)

/-- The ids of the frozen set, each once. -/
structure RevokedSessionRegistry where
  sessions : List PyString
deriving Repr, DecidableEq

namespace RevokedSessionRegistry

/-- The new registry and how many ids it holds; an exception leaves the old one. -/
def replace (sessionIds : List PyValue) :
    Except UnicodeEncodeError (ℕ × RevokedSessionRegistry) := do
  let cleaned ← cleanIds isPrintable sessionIds
  .ok (cleaned.dedup.length, ⟨cleaned.dedup⟩)

def isRevoked (registry : RevokedSessionRegistry) (sessionId : PyValue) :
    Except UnicodeEncodeError Bool := do
  match ← cleanId isPrintable sessionId with
  | none => .ok false
  | some cleaned => .ok (registry.sessions.contains cleaned)

end RevokedSessionRegistry

end

section
variable {isPrintable : CodePoint → Bool} {v : PyValue} {id : PyString} {items : List PyValue}

/-- Only what cannot be encoded raises. -/
theorem cleanId_returns_iff : (∃ r, cleanId isPrintable v = .ok r) ↔
    ∀ s, v = .str s → s.Encodable := by
  cases v with
  | other => exact ⟨fun _ s h => (by cases h), fun _ => ⟨none, rfl⟩⟩
  | str value =>
      simp only [PyValue.str.injEq, forall_eq', cleanId]
      split_ifs with hempty
      · refine ⟨fun _ => ?_, fun _ => ⟨none, rfl⟩⟩
        rw [← PyString.encodable_strip]
        intro c hc
        rw [hempty] at hc
        cases hc
      · by_cases henc : value.Encodable
        · rw [PyString.encodedLength_of_encodable (PyString.encodable_strip.mpr henc)]
          refine ⟨fun _ => henc, fun _ => ?_⟩
          simp only [bind, Except.bind]
          split
          · exact ⟨none, rfl⟩
          · exact ⟨some value.strip, rfl⟩
        · rw [PyString.encodedLength_of_not_encodable (mt PyString.encodable_strip.mp henc)]
          refine ⟨fun h => ?_, fun h => absurd h henc⟩
          obtain ⟨r, hr⟩ := h
          cases hr

/-- A clean id is clean already. -/
theorem cleanId_clean (h : cleanId isPrintable v = .ok (some id)) :
    cleanId isPrintable (.str id) = .ok (some id) := by
  cases v with
  | other => cases h
  | str value =>
      have hid : value.strip = id := by
        simp only [cleanId] at h
        split at h
        · cases h
        · obtain ⟨length, -, h⟩ := bind_eq_ok.mp h
          split at h
          · cases h
          · exact Option.some.inj (Except.ok.inj h)
      rw [← hid] at h ⊢
      simpa only [cleanId, PyString.strip_strip] using h

theorem cleanIds_returns_iff : (∃ r, cleanIds isPrintable items = .ok r) ↔
    ∀ s, .str s ∈ items → s.Encodable := by
  induction items with
  | nil => exact ⟨fun _ s h => (by cases h), fun _ => ⟨[], rfl⟩⟩
  | cons item items ih =>
      constructor
      · rintro ⟨r, hr⟩ s hs
        obtain ⟨cleaned, hcleaned, hr⟩ := bind_eq_ok.mp hr
        obtain ⟨rest, hrest, -⟩ := bind_eq_ok.mp hr
        cases hs with
        | head => exact cleanId_returns_iff.mp ⟨cleaned, hcleaned⟩ s rfl
        | tail _ hs => exact ih.mp ⟨rest, hrest⟩ s hs
      · intro h
        obtain ⟨cleaned, hcleaned⟩ : ∃ cleaned, cleanId isPrintable item = .ok cleaned :=
          cleanId_returns_iff.mpr fun s hs => h s (hs ▸ List.mem_cons_self)
        obtain ⟨rest, hrest⟩ := ih.mpr fun s hs => h s (List.mem_cons_of_mem item hs)
        refine ⟨cleaned.toList ++ rest, ?_⟩
        simp only [cleanIds, hcleaned, hrest, bind, Except.bind]

theorem mem_cleanIds {r : List PyString} (hr : cleanIds isPrintable items = .ok r) {item : PyValue}
    (hitem : item ∈ items) (hid : cleanId isPrintable item = .ok (some id)) : id ∈ r := by
  induction items generalizing r with
  | nil => cases hitem
  | cons first items ih =>
      obtain ⟨cleaned, hcleaned, hr⟩ := bind_eq_ok.mp hr
      obtain ⟨rest, hrest, hr⟩ := bind_eq_ok.mp hr
      cases hr
      cases hitem with
      | head =>
          cases hcleaned.symm.trans hid
          exact List.mem_append_left rest List.mem_cons_self
      | tail _ hitem => exact List.mem_append_right _ (ih hrest hitem)

namespace RevokedSessionRegistry

/-- A snapshot that can be encoded is adopted, and every id it names then matches. -/
theorem replace_adopts (hid : cleanId isPrintable v = .ok (some id)) (hmem : .str id ∈ items)
    (hitems : ∀ s, .str s ∈ items → s.Encodable) :
    ∃ count registry, replace isPrintable items = .ok (count, registry) ∧
      id ∈ registry.sessions ∧ isRevoked isPrintable registry v = .ok true := by
  obtain ⟨cleaned, hcleaned⟩ : ∃ cleaned, cleanIds isPrintable items = .ok cleaned :=
    cleanIds_returns_iff.mpr hitems
  have hin : id ∈ cleaned.dedup :=
    List.mem_dedup.mpr (mem_cleanIds hcleaned hmem (cleanId_clean hid))
  refine ⟨cleaned.dedup.length, ⟨cleaned.dedup⟩, ?_, hin, ?_⟩
  · simp only [replace, hcleaned, bind, Except.bind]
  · simp only [isRevoked, hid, bind, Except.bind, List.contains_iff_mem.mpr hin]

theorem replace_raises {s : PyString} (hs : .str s ∈ items) (henc : ¬ s.Encodable)
    (r : ℕ × RevokedSessionRegistry) : replace isPrintable items ≠ .ok r := by
  intro h
  obtain ⟨cleaned, hcleaned, -⟩ := bind_eq_ok.mp h
  exact henc (cleanIds_returns_iff.mp ⟨cleaned, hcleaned⟩ s hs)

end RevokedSessionRegistry

end

end BlackMonolith.MonolithEvents
