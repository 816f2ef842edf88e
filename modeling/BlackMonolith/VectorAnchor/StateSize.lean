import Mathlib.Algebra.Module.Defs
import Mathlib.Algebra.Order.BigOperators.Group.List
import Mathlib.Algebra.Order.Ring.Nat
import BlackMonolith.VectorAnchor.Restarts

/-!
# The size of a saved state

The text of a state adds up from its documents, the hits of each, their vectors and
the entries of the quarantine; bounds on these bound the text.
-/
namespace BlackMonolith.VectorAnchor
open Library

/-! ## The length of the text -/

theorem itemsBytes_map {α : Type} (f : α → Json.Value) (items : List α) :
    itemsBytes (items.map f) = (items.map fun item => dumpsBytes (f item)).sum := by
  induction items with
  | nil => simp [itemsBytes]
  | cons item items ih => simp [itemsBytes, ih]

theorem membersBytes_map {α : Type} (key : α → String) (value : α → Json.Value) (items : List α) :
    membersBytes (items.map fun item => (key item, value item)) =
      (items.map fun item => stringBytes (key item) + 1 + dumpsBytes (value item)).sum := by
  induction items with
  | nil => simp [membersBytes]
  | cons item items ih => simp [membersBytes, ih]

def digits (n : ℕ) : ℕ := (Int.repr n).length

section
variable {F : Type} (repr : F → Json.Number)

def vectorBytes (vec : List F) : ℕ :=
  2 + (vec.map fun value => (repr value).text.length).sum + commas vec.length

def recordBytes (record : DocRecord (List F)) : ℕ :=
  2 + (record.entries.map fun hit => stringBytes (Nat.repr hit.1) + 1 + vectorBytes repr hit.2).sum +
    commas record.size

def documentsBytes (docs : Documents F) : ℕ :=
  2 + (docs.entries.map fun entry => stringBytes entry.1 + 1 + recordBytes repr entry.2).sum +
    commas docs.size

/-- The fields of an entry, and 62 characters for their names and punctuation. -/
def entryBytes (doc : QuarantinedDoc) : ℕ :=
  62 + stringBytes doc.docId + stringBytes doc.reason + digits doc.score +
    stringBytes doc.preview + digits doc.quarantinedAtMs

def quarantineBytes (q : Quarantine) : ℕ := 2 + (q.values.map entryBytes).sum + commas q.size

/-- The parts of a state, and 91 characters for the names of its fields. -/
def stateBytes (cfg : DetectorConfig F) (s : RetrieverProxy (List F)) : ℕ :=
  91 + dumpsBytes cfg.policy + digits s.tracker.nextQueryId +
    documentsBytes repr s.tracker.docs + quarantineBytes s.quarantine

end

section
variable {F : Type} {repr : F → Json.Number} {cfg : DetectorConfig F} {s : RetrieverProxy (List F)}

theorem dumpsBytes_embedding (vec : List F) :
    dumpsBytes (embeddingJson repr vec) = vectorBytes repr vec := by
  rw [embeddingJson, dumpsBytes, itemsBytes_map, List.length_map]
  rfl

theorem dumpsBytes_record (record : DocRecord (List F)) :
    dumpsBytes (recordJson repr record) = recordBytes repr record := by
  rw [recordJson, dumpsBytes, membersBytes_map, List.length_map]
  simp only [dumpsBytes_embedding]
  rfl

theorem dumpsBytes_entry (doc : QuarantinedDoc) : dumpsBytes doc.snapshot = entryBytes doc := by
  have hdoc : dumpsBytes doc.snapshot = 2 +
      (stringBytes "doc_id" + 1 + stringBytes doc.docId + (stringBytes "reason" + 1 +
        stringBytes doc.reason + (stringBytes "score" + 1 + digits doc.score +
          (stringBytes "preview" + 1 + stringBytes doc.preview +
            (stringBytes "quarantined_at_ms" + 1 + digits doc.quarantinedAtMs + 0))))) + 4 := by
    simp only [QuarantinedDoc.snapshot, dumpsBytes, membersBytes, jsonInt]
    rfl
  have hnames : stringBytes "doc_id" = 8 ∧ stringBytes "reason" = 8 ∧ stringBytes "score" = 7 ∧
      stringBytes "preview" = 9 ∧ stringBytes "quarantined_at_ms" = 19 := by decide
  rw [hdoc]
  unfold entryBytes
  omega

theorem dumpsBytes_payload :
    dumpsBytes (cfg.store.payloadOf repr s.tracker s.quarantine) = stateBytes repr cfg s := by
  have hdocs : dumpsBytes (.object (s.tracker.docs.entries.map fun entry =>
      (entry.1, recordJson repr entry.2))) = documentsBytes repr s.tracker.docs := by
    rw [dumpsBytes, membersBytes_map, List.length_map]
    simp only [dumpsBytes_record]
    rfl
  have hquarantine : dumpsBytes (.array s.quarantine.snapshot) = quarantineBytes s.quarantine := by
    rw [dumpsBytes, Quarantine.snapshot, itemsBytes_map, List.length_map]
    simp only [dumpsBytes_entry, InsertionMap.values, List.length_map]
    rfl
  have htracker : dumpsBytes (s.tracker.snapshot repr) = 2 +
      (stringBytes "version" + 1 + 1 + (stringBytes "next_query_id" + 1 +
        digits s.tracker.nextQueryId + (stringBytes "documents" + 1 +
          documentsBytes repr s.tracker.docs + 0))) + 2 := by
    rw [← hdocs]
    simp only [FrequencyTracker.snapshot, dumpsBytes, membersBytes, jsonInt]
    rfl
  have hpayload : dumpsBytes (cfg.store.payloadOf repr s.tracker s.quarantine) = 2 +
      (stringBytes "version" + 1 + 1 + (stringBytes "policy" + 1 + dumpsBytes cfg.policy +
        (stringBytes "tracker" + 1 + dumpsBytes (s.tracker.snapshot repr) +
          (stringBytes "quarantine" + 1 + quarantineBytes s.quarantine + 0)))) + 3 := by
    rw [← hquarantine]
    simp only [DetectorStateStore.payloadOf, dumpsBytes, membersBytes, jsonInt]
    rfl
  have hnames : stringBytes "version" = 9 ∧ stringBytes "policy" = 8 ∧ stringBytes "tracker" = 9 ∧
      stringBytes "quarantine" = 12 ∧ stringBytes "next_query_id" = 15 ∧
      stringBytes "documents" = 11 := by decide
  rw [hpayload, htracker]
  unfold stateBytes
  omega

/-- A save is refused exactly if the state is too large. -/
theorem save_isOk : (cfg.store.save repr s.tracker s.quarantine).isOk = true ↔
    stateBytes repr cfg s ≤ maxStateBytes := by
  unfold DetectorStateStore.save
  dsimp only
  rw [dumpsBytes_payload]
  split_ifs with h
  · simp only [Except.isOk, Except.toBool, Bool.false_eq_true, false_iff]
    omega
  · simp only [Except.isOk, Except.toBool, true_iff]
    omega

end

/-! ## The largest state -/

theorem charBytes_le (c : Char) : charBytes c ≤ 12 := by
  unfold charBytes
  split_ifs <;> omega

theorem sum_map_le {α : Type} {f : α → ℕ} {bound : ℕ} (items : List α)
    (h : ∀ item ∈ items, f item ≤ bound) : (items.map f).sum ≤ items.length * bound := by
  have hsum := List.sum_le_card_nsmul (items.map f) bound fun n hn => by
    obtain ⟨item, hitem, rfl⟩ := List.mem_map.mp hn
    exact h item hitem
  rwa [List.length_map, smul_eq_mul] at hsum

theorem le_sum_map {α : Type} {f : α → ℕ} {bound : ℕ} (items : List α)
    (h : ∀ item ∈ items, bound ≤ f item) : items.length * bound ≤ (items.map f).sum := by
  have hsum := List.card_nsmul_le_sum (items.map f) bound fun n hn => by
    obtain ⟨item, hitem, rfl⟩ := List.mem_map.mp hn
    exact h item hitem
  rwa [List.length_map, smul_eq_mul] at hsum

theorem stringBytes_le {text : String} {n : ℕ} (h : text.length ≤ n) :
    stringBytes text ≤ 2 + n * 12 := by
  have hsum := sum_map_le text.toList fun c _ => charBytes_le c
  have hlength : text.toList.length * 12 ≤ n * 12 := Nat.mul_le_mul_right 12 h
  unfold stringBytes
  omega

/-- The bounds of a run: documents, hits of one, dimension, documents in
quarantine, and how long a number is printed. -/
structure Sizes where
  documents : ℕ
  hits : ℕ
  dimension : ℕ
  quarantined : ℕ
  printed : ℕ

namespace Sizes

def vector (b : Sizes) : ℕ := 2 + b.dimension * b.printed + b.dimension
def record (b : Sizes) : ℕ := 2 + b.hits * (b.printed + 3 + b.vector) + b.hits
def tracked (b : Sizes) : ℕ := 2 + b.documents * (1539 + b.record) + b.documents
def entry (b : Sizes) : ℕ := 5060 + 2 * b.printed
def total (b : Sizes) (policy : ℕ) : ℕ :=
  93 + policy + b.printed + b.tracked + b.quarantined * b.entry + b.quarantined

end Sizes

section
variable {F : Type} {repr : F → Json.Number} {cfg : DetectorConfig F} {s : RetrieverProxy (List F)}
  {P : List F → Prop} {b : Sizes}

def ShortIds (s : RetrieverProxy (List F)) : Prop :=
  (∀ id ∈ s.tracker.docs.keys, 1 ≤ id.length ∧ id.length ≤ 128) ∧
    ∀ id ∈ s.quarantine.keys, 1 ≤ id.length ∧ id.length ≤ 128

/-- The bounds hold of a state. -/
structure Sizes.Bound (b : Sizes) (repr : F → Json.Number) (s : RetrieverProxy (List F)) :
    Prop where
  documents : s.tracker.docs.size ≤ b.documents
  hits : ∀ id record, s.tracker.docs.get? id = some record → record.size ≤ b.hits
  dimension : ∀ d, s.tracker.embeddingDim = some d → d ≤ b.dimension
  quarantined : s.quarantine.size ≤ b.quarantined
  floats : ∀ value, (repr value).text.length ≤ b.printed
  queries : ∀ q < s.tracker.nextQueryId, stringBytes (Nat.repr q) ≤ b.printed + 2
  next : digits s.tracker.nextQueryId ≤ b.printed
  entries : ∀ doc ∈ s.quarantine.values,
    digits doc.score ≤ b.printed ∧ digits doc.quarantinedAtMs ≤ b.printed

theorem vectorBytes_le (hfloats : ∀ value, (repr value).text.length ≤ b.printed) {vec : List F}
    (h : vec.length ≤ b.dimension) : vectorBytes repr vec ≤ b.vector := by
  have hsum := sum_map_le vec fun value _ => hfloats value
  have hmul : vec.length * b.printed ≤ b.dimension * b.printed := Nat.mul_le_mul_right _ h
  unfold vectorBytes Sizes.vector commas
  omega

theorem recordBytes_le {record : DocRecord (List F)} (hsize : record.size ≤ b.hits)
    (hhits : ∀ hit ∈ record.entries,
      stringBytes (Nat.repr hit.1) ≤ b.printed + 2 ∧ vectorBytes repr hit.2 ≤ b.vector) :
    recordBytes repr record ≤ b.record := by
  have hsum := @sum_map_le _ (fun hit : ℕ × List F =>
    stringBytes (Nat.repr hit.1) + 1 + vectorBytes repr hit.2) (b.printed + 3 + b.vector)
    record.entries fun hit hhit => by
      obtain ⟨hkey, hvec⟩ := hhits hit hhit
      omega
  have hmul : record.entries.length * (b.printed + 3 + b.vector) ≤
      b.hits * (b.printed + 3 + b.vector) := Nat.mul_le_mul_right _ hsize
  unfold recordBytes Sizes.record commas
  omega

theorem documentsBytes_le {docs : Documents F} (hsize : docs.size ≤ b.documents)
    (hdocs : ∀ entry ∈ docs.entries, entry.1.length ≤ 128 ∧ recordBytes repr entry.2 ≤ b.record) :
    documentsBytes repr docs ≤ b.tracked := by
  have hsum := @sum_map_le _ (fun entry : String × DocRecord (List F) =>
    stringBytes entry.1 + 1 + recordBytes repr entry.2) (1539 + b.record) docs.entries
    fun entry hentry => by
      obtain ⟨hid, hrecord⟩ := hdocs entry hentry
      have hbytes := stringBytes_le hid
      omega
  have hmul : docs.entries.length * (1539 + b.record) ≤ b.documents * (1539 + b.record) :=
    Nat.mul_le_mul_right _ hsize
  unfold documentsBytes Sizes.tracked commas
  omega

theorem entryBytes_le {doc : QuarantinedDoc} (hid : doc.docId.length ≤ 128) (htexts : ShortTexts doc)
    (hscore : digits doc.score ≤ b.printed) (hat : digits doc.quarantinedAtMs ≤ b.printed) :
    entryBytes doc ≤ b.entry := by
  have hdocId := stringBytes_le hid
  have hreason := stringBytes_le htexts.2.1
  have hpreview := stringBytes_le htexts.2.2
  unfold entryBytes Sizes.entry
  omega

/-- No state is larger than its bounds allow. -/
theorem stateBytes_le (hinvariant : DetectorInvariant cfg s) (hsound : s.Sound cfg.toProxyConfig P)
    (hids : ShortIds s) (h : b.Bound repr s) :
    stateBytes repr cfg s ≤ b.total (dumpsBytes cfg.policy) := by
  have hdocs : documentsBytes repr s.tracker.docs ≤ b.tracked := by
    apply documentsBytes_le h.documents
    intro entry hentry
    have hget := InsertionMap.get?_eq_some_iff.mpr hentry
    refine ⟨(hids.1 entry.1 (List.mem_map_of_mem hentry)).2, ?_⟩
    apply recordBytes_le (h.hits _ _ hget)
    intro hit hhit
    have hvec := InsertionMap.get?_eq_some_iff.mpr hhit
    obtain ⟨hlt, hdim⟩ := hinvariant.hits _ _ hget _ _ hvec
    exact ⟨h.queries _ hlt, vectorBytes_le h.floats (h.dimension _ hdim)⟩
  have hsum := @sum_map_le _ entryBytes b.entry s.quarantine.values fun doc hdoc => by
    obtain ⟨id, hget⟩ := InsertionMap.mem_values_iff.mp hdoc
    obtain ⟨hid, htexts⟩ := hsound.quarantine id doc hget
    have hshort := hids.2 id (InsertionMap.has_iff.mp (Option.isSome_iff_exists.mpr ⟨doc, hget⟩))
    obtain ⟨hscore, hat⟩ := h.entries doc hdoc
    exact entryBytes_le (hid ▸ hshort.2) htexts hscore hat
  have hlength : s.quarantine.values.length = s.quarantine.size := by
    simp only [InsertionMap.values, InsertionMap.size, List.length_map]
  have hmul : s.quarantine.values.length * b.entry ≤ b.quarantined * b.entry :=
    Nat.mul_le_mul_right _ (hlength ▸ h.quarantined)
  have hquarantined := h.quarantined
  have hnext := h.next
  unfold stateBytes quarantineBytes Sizes.total commas
  omega

end

end BlackMonolith.VectorAnchor
