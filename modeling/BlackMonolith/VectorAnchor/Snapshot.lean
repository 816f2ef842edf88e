import Mathlib
import BlackMonolith.VectorAnchor.DetectorState

/-!
# Snapshots of the detector

`save` writes the tracker's documents with their hits, and the quarantine, as one
JSON text, and refuses a text of more than 32 MiB. How a float is printed is a
parameter. The text is ASCII, so that its length is the size of the file; failures
of the disk are left out.
-/
namespace BlackMonolith.VectorAnchor
open Library

/-! ## The size of a JSON text -/

/-- A character as `json.dumps` writes it. -/
def charBytes (c : Char) : ℕ :=
  if c = '"' ∨ c = '\\' ∨ c = '\n' ∨ c = '\r' ∨ c = '\t' ∨ c = Char.ofNat 8 ∨ c = Char.ofNat 12
  then 2
  else if ' ' ≤ c ∧ c ≤ '~' then 1
  else if c.toNat < 0x10000 then 6
  else 12

def stringBytes (s : String) : ℕ := 2 + (s.toList.map charBytes).sum

/-- What stands between the brackets of `n` members or items, besides them. -/
def commas (n : ℕ) : ℕ := n - 1

mutual
/-- The length of `json.dumps` without blanks after the separators. -/
def dumpsBytes : Json.Value → ℕ
  | .null => 4
  | .bool b => if b then 4 else 5
  | .number n => n.text.length
  | .string s => stringBytes s
  | .array items => 2 + itemsBytes items + commas items.length
  | .object members => 2 + membersBytes members + commas members.length

def itemsBytes : List Json.Value → ℕ
  | [] => 0
  | item :: items => dumpsBytes item + itemsBytes items

def membersBytes : List (String × Json.Value) → ℕ
  | [] => 0
  | (key, value) :: members => stringBytes key + 1 + dumpsBytes value + membersBytes members
end

/-! ## Snapshots -/

def jsonInt (n : ℕ) : Json.Value := .number (.int n)

section
variable {F : Type} (repr : F → Json.Number)

def embeddingJson (embedding : List F) : Json.Value :=
  .array (embedding.map fun value => .number (repr value))

/-- The hits of one document, by `str(query_id)`. -/
def recordJson (record : DocRecord (List F)) : Json.Value :=
  .object (record.entries.map fun hit => (Nat.repr hit.1, embeddingJson repr hit.2))

def FrequencyTracker.snapshot (t : FrequencyTracker (List F)) : Json.Value :=
  .object
    [("version", jsonInt 2), ("next_query_id", jsonInt t.nextQueryId),
      ("documents", .object (t.docs.entries.map fun entry => (entry.1, recordJson repr entry.2)))]

def QuarantinedDoc.snapshot (doc : QuarantinedDoc) : Json.Value :=
  .object
    [("doc_id", .string doc.docId), ("reason", .string doc.reason), ("score", jsonInt doc.score),
      ("preview", .string doc.preview), ("quarantined_at_ms", jsonInt doc.quarantinedAtMs)]

def Quarantine.snapshot (q : Quarantine) : List Json.Value := q.values.map (·.snapshot)

def maxStateBytes : ℕ := 32 * 1024 * 1024

def DetectorStateStore.payloadOf (store : DetectorStateStore F) (tracker : FrequencyTracker (List F))
    (quarantine : Quarantine) : Json.Value :=
  .object
    [("version", jsonInt 1), ("policy", store.policy), ("tracker", tracker.snapshot repr),
      ("quarantine", .array quarantine.snapshot)]

def DetectorStateStore.save (store : DetectorStateStore F) (tracker : FrequencyTracker (List F))
    (quarantine : Quarantine) : Except String StateFile :=
  let payload := store.payloadOf repr tracker quarantine
  if maxStateBytes < dumpsBytes payload then .error "detector state exceeds 32 MiB"
  else .ok (.json payload)

end

end BlackMonolith.VectorAnchor
