import Mathlib.Data.List.Sort
import BlackMonolith.Json
import BlackMonolith.VectorAnchor.RetrieverProxy

/-!
# Persisted detector state

A vector is a list of floats; the arithmetic on these, `int` on a text and `==`
on JSON values are those of Python and are parameters. The state file holds the
tracker's documents and the quarantine. It is read in stages: the quarantine,
the documents with their hits, the bound on tracked documents, and last the
tracker's own set of quarantined documents.
-/
namespace BlackMonolith.VectorAnchor
open Library

/-! ## Embeddings -/

/-- Floats, and what else of Python the state file is read with. `ofNumber` is
`float`, where `none` is an overflow. -/
structure PythonOps (F : Type) where
  zero : F
  add : F → F → F
  mul : F → F → F
  div : F → F → F
  sqrt : F → F
  isZero : F → Bool
  isFinite : F → Bool
  lt : F → F → Bool
  le : F → F → Bool
  ofNumber : Json.Number → Option F
  int : String → Option ℤ
  eq : Json.Value → Json.Value → Bool

section
variable {F : Type} (ops : PythonOps F)

def normalize (vec : List F) : List F :=
  let norm := ops.sqrt ((vec.map fun value => ops.mul value value).foldl ops.add ops.zero)
  if ops.isZero norm then vec else vec.map fun value => ops.div value norm

def unitDot (a b : List F) : F := (List.zipWith ops.mul a b).foldl ops.add ops.zero

/-- The order of tuples of floats. -/
def tupleLe : List F → List F → Bool
  | [], _ => true
  | _ :: _, [] => false
  | x :: xs, y :: ys => if ops.lt x y then true else if ops.lt y x then false else tupleLe xs ys

def embeddingVectors : Vectors (List F) F where
  isFinite := fun vec => !vec.isEmpty && vec.all ops.isFinite
  dim := List.length
  normalize := normalize ops
  unitDot := unitDot ops
  greater := fun a b => ops.lt b a
  atLeast := fun a b => ops.le b a
  sorted := fun vecs => vecs.insertionSort fun a b => tupleLe ops a b = true

/-- Normalizing keeps the dimension. -/
theorem dim_normalize (vec : List F) :
    (embeddingVectors ops).dim ((embeddingVectors ops).normalize vec) =
      (embeddingVectors ops).dim vec := by
  simp only [embeddingVectors, normalize]
  split
  · rfl
  · rw [List.length_map]

/-! ## The state file -/

/-- Only a `ValueError` makes the service start afresh. -/
inductive LoadError
  | valueError (message : String)
  | overflowError
deriving Repr, DecidableEq

inductive StateFile
  | absent
  | tooLarge
  | undecodable (message : String)
  | json (data : Json.Value)

abbrev Documents (F : Type) := InsertionMap String (DocRecord (List F))

/-- A document of the file that has hits, with the latest of them. -/
structure LoadedDoc (F : Type) where
  lastQuery : ℕ
  docId : String
  queries : DocRecord (List F)

def natOf : Option Json.Value → Option ℕ
  | some (.number (.int n)) => if 0 ≤ n then some n.toNat else none
  | _ => none

def readNumber : Json.Value → Except LoadError F
  | .number n =>
      match ops.ofNumber n with
      | none => .error .overflowError
      | some value =>
          if ops.isFinite value then .ok value
          else .error (.valueError "invalid persisted query embedding")
  | _ => .error (.valueError "invalid persisted query embedding")

def readNumbers : List Json.Value → Except LoadError (List F)
  | [] => .ok []
  | item :: items =>
      match readNumber ops item with
      | .error e => .error e
      | .ok value => (readNumbers items).map (value :: ·)

def readEmbedding : Json.Value → Except LoadError (List F)
  | .array items =>
      if 1 ≤ items.length ∧ items.length ≤ 4096 then readNumbers ops items
      else .error (.valueError "invalid persisted query embedding")
  | _ => .error (.valueError "invalid persisted query embedding")

/-- The hits of one document; `dim` is the dimension of the vectors so far. -/
def readQueries (nextQueryId : ℕ) : List (String × Json.Value) → Option ℕ → DocRecord (List F) →
    Except LoadError (Option ℕ × DocRecord (List F))
  | [], dim, queries => .ok (dim, queries)
  | (rawQueryId, rawEmbedding) :: rest, dim, queries =>
      match ops.int rawQueryId with
      | none => .error (.valueError "invalid persisted query id")
      | some queryId =>
          if 0 ≤ queryId ∧ queryId < nextQueryId then
            match readEmbedding ops rawEmbedding with
            | .error e => .error e
            | .ok embedding =>
                if dim.any (· ≠ embedding.length) then
                  .error (.valueError "persisted query embedding dimensions are inconsistent")
                else
                  readQueries nextQueryId rest (some embedding.length)
                    (queries.set queryId.toNat (normalize ops embedding))
          else .error (.valueError "invalid persisted query embedding")

def lastQuery (queries : DocRecord (List F)) : ℕ := queries.keys.foldl max 0

def readDocuments (maxQueriesPerDoc nextQueryId : ℕ) :
    List (String × Json.Value) → Option ℕ → Except LoadError (Option ℕ × List (LoadedDoc F))
  | [], dim => .ok (dim, [])
  | (docId, .object rawQueries) :: rest, dim =>
      if docId.length = 0 ∨ 128 < docId.length ∨ maxQueriesPerDoc < rawQueries.length then
        .error (.valueError "invalid persisted document frequency state")
      else
        match readQueries ops nextQueryId rawQueries dim .empty with
        | .error e => .error e
        | .ok (dim, queries) =>
            match readDocuments maxQueriesPerDoc nextQueryId rest dim with
            | .error e => .error e
            | .ok (dim, loaded) =>
                .ok (dim,
                  if queries.size = 0 then loaded
                  else ⟨lastQuery queries, docId, queries⟩ :: loaded)
  | _ :: _, _ => .error (.valueError "invalid persisted document frequency state")

/-- The documents in the order of their latest hits. -/
def loadedDocs (loaded : List (LoadedDoc F)) : Documents F :=
  (loaded.insertionSort fun a b => a.lastQuery ≤ b.lastQuery).foldl
    (fun docs doc => docs.set doc.docId doc.queries) .empty

/-- `from_snapshot` up to the bound on tracked documents. -/
def readTracker (maxQueriesPerDoc : ℕ) (data : Json.Value) :
    Except LoadError (FrequencyTracker (List F)) :=
  if (data.get "version").all fun version => !ops.eq version (.number (.int 2)) then
    .error (.valueError "unsupported frequency tracker state version")
  else
    match natOf (data.get "next_query_id"), data.get "documents" with
    | some nextQueryId, some (.object rawDocuments) =>
        if 100000 < rawDocuments.length then
          .error (.valueError "invalid frequency tracker state")
        else
          match readDocuments ops maxQueriesPerDoc nextQueryId rawDocuments none with
          | .error e => .error e
          | .ok (dim, loaded) => .ok ⟨loadedDocs loaded, ∅, nextQueryId, dim⟩
    | _, _ => .error (.valueError "invalid frequency tracker state")

def FrequencyTracker.fromSnapshot (cfg : TrackerConfig F) (data : Json.Value) :
    Except LoadError (FrequencyTracker (List F)) :=
  (readTracker ops cfg.maxQueriesPerDoc data).map (·.enforceMaxTrackedDocs cfg)

def Quarantine.readEntry (raw : Json.Value) : Except LoadError QuarantinedDoc :=
  match raw with
  | .object _ =>
      match (raw.get "doc_id").bind Json.Value.asStr, (raw.get "reason").bind Json.Value.asStr,
        natOf (raw.get "score"), (raw.get "preview").bind Json.Value.asStr,
        natOf (raw.get "quarantined_at_ms") with
      | some docId, some reason, some score, some preview, some quarantinedAtMs =>
          if 1 ≤ docId.length ∧ docId.length ≤ 128 ∧ 1 ≤ reason.length ∧ reason.length ≤ 128 ∧
              preview.length ≤ 160 then
            .ok ⟨docId, reason, score, preview, quarantinedAtMs⟩
          else .error (.valueError "invalid quarantine entry fields")
      | _, _, _, _, _ => .error (.valueError "invalid quarantine entry fields")
  | _ => .error (.valueError "invalid quarantine entry")

def Quarantine.readEntries : List Json.Value → Quarantine → Except LoadError Quarantine
  | [], quarantine => .ok quarantine
  | raw :: rest, quarantine =>
      match Quarantine.readEntry raw with
      | .error e => .error e
      | .ok doc =>
          match quarantine.add doc with
          | (quarantine, true) => readEntries rest quarantine
          | (_, false) => .error (.valueError "duplicate quarantine entry")

def Quarantine.fromSnapshot (data : List Json.Value) : Except LoadError Quarantine :=
  if 100000 < data.length then .error (.valueError "invalid quarantine state")
  else Quarantine.readEntries data .empty

structure DetectorStateStore (F : Type) where
  cfg : TrackerConfig F
  policy : Json.Value

/-- The quarantine and the tracker's part of a file that `load` takes. -/
def DetectorStateStore.payload (store : DetectorStateStore F) (data : Json.Value) :
    Except LoadError (Quarantine × Json.Value) :=
  if (data.get "version").all fun version => !ops.eq version (.number (.int 1)) then
    .error (.valueError "unsupported detector state")
  else if (data.get "policy").all fun policy => !ops.eq policy store.policy then
    .error (.valueError
      "persisted detector state uses different policy thresholds; reset it explicitly")
  else
    match data.get "tracker", data.get "quarantine" with
    | some (.object tracker), some (.array quarantine) =>
        (Quarantine.fromSnapshot quarantine).map (·, .object tracker)
    | _, _ => .error (.valueError "detector state payload is incomplete")

/-- `tracker._quarantined.update`. -/
def FrequencyTracker.updateQuarantined {V : Type} (t : FrequencyTracker V) (ids : List String) :
    FrequencyTracker V :=
  { t with quarantined := t.quarantined ∪ ids.toFinset }

def DetectorStateStore.load (store : DetectorStateStore F) :
    StateFile → Except LoadError (Option (FrequencyTracker (List F) × Quarantine))
  | .absent => .ok none
  | .tooLarge => .error (.valueError "detector state exceeds 32 MiB")
  | .undecodable message => .error (.valueError message)
  | .json data =>
      match store.payload ops data with
      | .error e => .error e
      | .ok (quarantine, trackerData) =>
          match FrequencyTracker.fromSnapshot ops store.cfg trackerData with
          | .error e => .error e
          | .ok tracker => .ok (some (tracker.updateQuarantined quarantine.keys, quarantine))

/-- A service that starts on the file; `none` is one that does not start. -/
def buildProxy (store : DetectorStateStore F) (file : StateFile) :
    Option (RetrieverProxy (List F)) :=
  match store.load ops file with
  | .ok (some (tracker, quarantine)) => some ⟨tracker, quarantine, ∅⟩
  | .ok none => some ⟨.new, .empty, ∅⟩
  | .error (.valueError _) => some ⟨.new, .empty, ∅⟩
  | .error .overflowError => none

end

end BlackMonolith.VectorAnchor
