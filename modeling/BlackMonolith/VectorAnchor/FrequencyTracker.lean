import Mathlib.Data.Finset.Basic
import BlackMonolith.Library.InsertionMap

/-!
# The retrieval frequency tracker

For each document the tracker keeps the queries it ranked highly for and counts
the clusters of mutually similar ones among them. Vectors and their arithmetic
are parameters; a dictionary is a map in insertion order.
-/
namespace BlackMonolith.VectorAnchor
open Library

/-- Query vectors and the floating-point operations on them. -/
structure Vectors (V F : Type) where
  isFinite : V → Bool
  dim : V → ℕ
  normalize : V → V
  unitDot : V → V → F
  greater : F → F → Bool
  atLeast : F → F → Bool
  sorted : List V → List V

structure TrackerConfig (F : Type) where
  minDistinctTopics : ℕ
  topicSimilarity : F
  retentionHorizon : ℕ := 500
  maxQueriesPerDoc : ℕ := 8
  maxTrackedDocs : ℕ := 50000
deriving Repr

def sweepInterval : ℕ := 1000

/-- The queries a document ranked highly for, by query id. -/
abbrev DocRecord (V : Type) := InsertionMap ℕ V

structure FrequencyTracker (V : Type) where
  docs : InsertionMap String (DocRecord V)
  quarantined : Finset String
  nextQueryId : ℕ
  embeddingDim : Option ℕ

def FrequencyTracker.new {V : Type} : FrequencyTracker V := ⟨.empty, ∅, 0, none⟩

structure AnomalyResult where
  docId : String
  score : ℕ
  distinctTopics : ℕ
  totalQueries : ℕ
deriving Repr, DecidableEq

namespace FrequencyTracker
variable {V F : Type} (vectors : Vectors V F) (cfg : TrackerConfig F)

/-- The retained hit the new one most duplicates; ties go to the older one. -/
def mostSimilar (embedding : V) (qid : ℕ) (entries : List (ℕ × V)) : Option (F × ℕ) :=
  entries.foldl (fun best candidate =>
    if candidate.1 = qid then best
    else
      let similarity := vectors.unitDot embedding candidate.2
      match best with
      | none => some (similarity, candidate.1)
      | some (value, _) =>
          if vectors.greater similarity value then some (similarity, candidate.1) else best) none

def evictFor (record : DocRecord V) (qid : ℕ) (embedding : V) : DocRecord V :=
  match mostSimilar vectors embedding qid record.entries with
  | some (_, drop) => record.erase drop
  | none => record

/-- The loop of `_admit`; an eviction removes one hit, so the hits are fuel enough. -/
def evictExcess : ℕ → DocRecord V → ℕ → V → DocRecord V
  | 0, record, _, _ => record
  | fuel + 1, record, qid, embedding =>
      if cfg.maxQueriesPerDoc < record.size then
        evictExcess fuel (evictFor vectors record qid embedding) qid embedding
      else record

def admitHit (record : DocRecord V) (qid : ℕ) (embedding : V) : DocRecord V :=
  let record := record.set qid embedding
  evictExcess vectors cfg record.size record qid embedding

/-- The oldest query id still within the horizon. -/
def cutoff (t : FrequencyTracker V) : ℤ := t.nextQueryId - cfg.retentionHorizon

def pruneExpired (t : FrequencyTracker V) (record : DocRecord V) : DocRecord V :=
  record.filter fun qid _ => decide (t.cutoff cfg ≤ qid)

def enforceMaxTrackedDocs (t : FrequencyTracker V) : FrequencyTracker V :=
  t.docs.keys.foldl (fun t docId =>
    if t.docs.size ≤ cfg.maxTrackedDocs ∨ docId ∈ t.quarantined then t
    else { t with docs := t.docs.erase docId }) t

def prune (t : FrequencyTracker V) : FrequencyTracker V :=
  let pruned := t.docs.keys.foldl (fun t docId =>
    match t.docs.get? docId with
    | none => t
    | some record =>
        let record := t.pruneExpired cfg record
        if record.size = 0 ∧ docId ∉ t.quarantined then { t with docs := t.docs.erase docId }
        else { t with docs := t.docs.set docId record }) t
  pruned.enforceMaxTrackedDocs cfg

/-- One ranked document of a query: its record moves to the end of the dictionary. -/
def recordDoc (qid : ℕ) (embedding : V) (t : FrequencyTracker V) (docId : String) :
    FrequencyTracker V :=
  let record := (t.docs.get? docId).getD .empty
  { t with
    docs := (t.docs.erase docId).set docId
      (admitHit vectors cfg (t.pruneExpired cfg record) qid embedding) }

def recordQuery (t : FrequencyTracker V) (rankedDocIds : List String) (queryEmbedding : V) :
    Except String (FrequencyTracker V) :=
  if !vectors.isFinite queryEmbedding then
    .error "query embedding must be non-empty, numeric, and finite"
  else if t.embeddingDim.any (· ≠ vectors.dim queryEmbedding) then
    .error "query embedding dimensions must remain consistent"
  else
    let embedding := vectors.normalize queryEmbedding
    let qid := t.nextQueryId
    let t := { t with
      embeddingDim := some (vectors.dim queryEmbedding), nextQueryId := qid + 1 }
    let t := rankedDocIds.foldl (recordDoc vectors cfg qid embedding) t
    .ok (if qid % sweepInterval = 0 ∨ cfg.maxTrackedDocs < t.docs.size then t.prune cfg else t)

def liveEmbeddings (t : FrequencyTracker V) (record : DocRecord V) : List V :=
  (record.entries.filter fun hit => decide (t.cutoff cfg ≤ hit.1)).map Prod.snd

/-- Greedy clustering: a vector similar to no representative opens a cluster. -/
def clusterReps (embeddings : List V) : List V :=
  embeddings.foldl (fun reps embedding =>
    if reps.any fun rep => vectors.atLeast (vectors.unitDot embedding rep) cfg.topicSimilarity
    then reps else reps ++ [embedding]) []

def distinctTopicCount (t : FrequencyTracker V) (docId : String) : ℕ :=
  match t.docs.get? docId with
  | none => 0
  | some record => (clusterReps vectors cfg (vectors.sorted (t.liveEmbeddings cfg record))).length

def evaluate (t : FrequencyTracker V) (docId : String) : AnomalyResult where
  docId := docId
  score := t.distinctTopicCount vectors cfg docId
  distinctTopics := t.distinctTopicCount vectors cfg docId
  totalQueries := match t.docs.get? docId with
    | none => 0
    | some record => (t.liveEmbeddings cfg record).length

def anomalous (t : FrequencyTracker V) (docId : String) : Bool :=
  cfg.minDistinctTopics ≤ t.distinctTopicCount vectors cfg docId

/-- `tracker._quarantined.add`. -/
def markQuarantined (t : FrequencyTracker V) (docId : String) : FrequencyTracker V :=
  { t with quarantined := insert docId t.quarantined }

/-- `is_anomalous`, which also marks the document. -/
def isAnomalous (t : FrequencyTracker V) (docId : String) : FrequencyTracker V × Bool :=
  if t.anomalous vectors cfg docId then (t.markQuarantined docId, true) else (t, false)

def resetDoc (t : FrequencyTracker V) (docId : String) : FrequencyTracker V :=
  { t with docs := t.docs.erase docId, quarantined := t.quarantined.erase docId }

def forgetDocuments (t : FrequencyTracker V) (docIds : List String) : FrequencyTracker V :=
  docIds.foldl resetDoc t

/-! ## What the quarantined set depends on -/

section
variable {vectors : Vectors V F} {cfg : TrackerConfig F} {t : FrequencyTracker V}

theorem quarantined_enforceMaxTrackedDocs :
    (t.enforceMaxTrackedDocs cfg).quarantined = t.quarantined := by
  unfold enforceMaxTrackedDocs
  generalize t.docs.keys = keys
  induction keys generalizing t with
  | nil => rfl
  | cons docId keys ih =>
      rw [List.foldl_cons, ih]
      split <;> rfl

theorem quarantined_prune : (t.prune cfg).quarantined = t.quarantined := by
  unfold prune
  rw [quarantined_enforceMaxTrackedDocs]
  generalize t.docs.keys = keys
  induction keys generalizing t with
  | nil => rfl
  | cons docId keys ih =>
      rw [List.foldl_cons, ih]
      split
      · rfl
      · dsimp only
        split <;> rfl

theorem quarantined_recordDocs {qid : ℕ} {embedding : V} {docIds : List String} :
    (docIds.foldl (recordDoc vectors cfg qid embedding) t).quarantined = t.quarantined := by
  induction docIds generalizing t with
  | nil => rfl
  | cons docId docIds ih =>
      rw [List.foldl_cons, ih]
      rfl

/-- Recording a query quarantines nothing. -/
theorem quarantined_recordQuery {t' : FrequencyTracker V} {docIds : List String} {embedding : V}
    (h : t.recordQuery vectors cfg docIds embedding = .ok t') : t'.quarantined = t.quarantined := by
  unfold recordQuery at h
  split_ifs at h
  cases h
  split
  · rw [quarantined_prune, quarantined_recordDocs]
  · rw [quarantined_recordDocs]

theorem quarantined_forgetDocuments {docIds : List String} {docId : String} :
    docId ∈ (t.forgetDocuments docIds).quarantined ↔ docId ∈ t.quarantined ∧ docId ∉ docIds := by
  unfold forgetDocuments
  induction docIds generalizing t with
  | nil => simp
  | cons docId' docIds ih =>
      rw [List.foldl_cons, ih]
      simp only [resetDoc, Finset.mem_erase, List.mem_cons, not_or]
      tauto

/-- The verdict on a document does not depend on the quarantined set. -/
theorem anomalous_markQuarantined {docId docId' : String} :
    (t.markQuarantined docId').anomalous vectors cfg docId = t.anomalous vectors cfg docId := rfl

end

end FrequencyTracker

end BlackMonolith.VectorAnchor
