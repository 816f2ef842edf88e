import BlackMonolith.VectorAnchor.FrequencyTracker

/-!
# The retrieval proxy

Every operation holds the state lock while it decides, so operations follow one
another. What lies outside is part of the operation: the answers of the embedder
and the collection, whether the session is revoked and whether saving the state
fails. A save that fails raises after the decision is made. The scan of a
document's text for instructions is a parameter.
-/
namespace BlackMonolith.VectorAnchor
open Library

structure QuarantinedDoc where
  docId : String
  reason : String
  score : ℕ
  preview : String
  quarantinedAtMs : ℕ
deriving Repr, DecidableEq

abbrev Quarantine := InsertionMap String QuarantinedDoc

namespace Quarantine

def isQuarantined (q : Quarantine) (docId : String) : Bool := q.has docId

/-- Adds a document and says whether it is new. -/
def add (q : Quarantine) (doc : QuarantinedDoc) : Quarantine × Bool :=
  if q.has doc.docId then (q, false) else (q.set doc.docId doc, true)

def removeMany (q : Quarantine) (docIds : List String) : Quarantine :=
  docIds.foldl (fun q docId => q.erase docId) q

end Quarantine

structure ProxyConfig (F : Type) where
  topK : ℕ
  candidateBuffer : ℕ
  topRankThreshold : ℕ
  tracker : TrackerConfig F

structure RetrieverProxy (V : Type) where
  tracker : FrequencyTracker V
  quarantine : Quarantine
  refusedSessions : Finset String

/-- What the collection answers: three lists of equal length. -/
structure Answer (D : Type) where
  ids : List String
  documents : List (Option String)
  distances : List D

/-- A retrieval, with what the outside answers. -/
structure Retrieval (V D : Type) where
  query : String
  k : Option ℕ
  tenantId : Option String
  agentId : Option String
  sessionId : Option String
  sessionRevoked : Bool
  embedding : Except String V
  answer : ℕ → Except String (Answer D)
  nowMs : ℕ
  saved : Bool

structure Candidate (D : Type) where
  id : String
  document : Option String
  distance : D

structure Withheld where
  id : String
  reason : String
deriving Repr, DecidableEq

structure RetrieveResult (D : Type) where
  query : String
  results : List (Candidate D)
  withheld : List Withheld
  quarantineSize : ℕ
  sessionQuarantined : Bool

/-- The lists of one pass over the candidates. -/
structure Scan (D : Type) where
  clean : List (Candidate D) := []
  withheld : List Withheld := []
  newlyQuarantined : List String := []

def saveFailed : String := "detector state could not be saved"

section
variable {V F D : Type} (vectors : Vectors V F) (inspectDocument : String → List String)
  (cfg : ProxyConfig F)

namespace RetrieverProxy

/-- Quarantines a document, in the quarantine and in the tracker. -/
def quarantineDoc (s : RetrieverProxy V) (doc : QuarantinedDoc) : RetrieverProxy V × Bool :=
  let (quarantine, newly) := s.quarantine.add doc
  ({ s with quarantine, tracker := s.tracker.markQuarantined doc.docId }, newly)

/-- The body of the loop over the candidates. -/
def inspectCandidate (nowMs : ℕ) (s : RetrieverProxy V × Scan D) (candidate : Candidate D) :
    RetrieverProxy V × Scan D :=
  let (proxy, scan) := s
  let text := candidate.document.getD ""
  let preview := String.ofList (text.toList.take 160)
  if proxy.quarantine.isQuarantined candidate.id then
    (proxy, { scan with withheld := scan.withheld ++ [⟨candidate.id, "already_quarantined"⟩] })
  else
    let indicators := inspectDocument text
    if indicators ≠ [] then
      let (proxy, newly) := proxy.quarantineDoc
        ⟨candidate.id, "retrieved_instruction_indicators", indicators.length, preview, nowMs⟩
      (proxy, { scan with
        newlyQuarantined := scan.newlyQuarantined ++ if newly then [candidate.id] else []
        withheld := scan.withheld ++ [⟨candidate.id, "retrieved_instruction_indicators"⟩] })
    else
      let (tracker, anomalous) := proxy.tracker.isAnomalous vectors cfg.tracker candidate.id
      let proxy := { proxy with tracker }
      if anomalous then
        let result := tracker.evaluate vectors cfg.tracker candidate.id
        let (proxy, newly) := proxy.quarantineDoc
          ⟨candidate.id, "universal_bait_frequency_anomaly", result.score, preview, nowMs⟩
        (proxy, { scan with
          newlyQuarantined := scan.newlyQuarantined ++ if newly then [candidate.id] else []
          withheld := scan.withheld ++ [⟨candidate.id, "quarantined_now"⟩] })
      else (proxy, { scan with clean := scan.clean ++ [candidate] })

/-- `zip` of the three lists of an answer. -/
def candidates : List String → List (Option String) → List D → List (Candidate D)
  | id :: ids, document :: documents, distance :: distances =>
      ⟨id, document, distance⟩ :: candidates ids documents distances
  | _, _, _ => []

def Answer.candidates (answer : Answer D) : List (Candidate D) :=
  RetrieverProxy.candidates answer.ids answer.documents answer.distances

/-- `zip` with `strict` raises at the end of the shortest list. -/
def Answer.uneven (answer : Answer D) : Bool :=
  answer.ids.length != answer.documents.length || answer.ids.length != answer.distances.length

def unattributedKey (tenantId agentId : Option String) : String :=
  let tenant := tenantId.getD ""
  let agent := agentId.getD ""
  if tenant.isEmpty && agent.isEmpty then "<unattributed>"
  else s!"<unattributed:{tenant}/{agent}>"

/-- Both refusals: nothing is served, and the caller is noted as refused. -/
def refuse (s : RetrieverProxy V) (key query : String) :
    RetrieverProxy V × Except String (RetrieveResult D) :=
  ({ s with refusedSessions := insert key s.refusedSessions },
    .ok ⟨query, [], [], s.quarantine.size, true⟩)

/-- `k`, or the configured number when none is asked for. -/
def effectiveK (k : Option ℕ) : ℕ := if k.getD 0 = 0 then cfg.topK else k.getD 0

/-- How many results the collection is asked for. -/
def requested (s : RetrieverProxy V) (k : Option ℕ) : ℕ :=
  effectiveK cfg k + cfg.candidateBuffer + min s.quarantine.keys.length 64

/-- The part of a retrieval under the lock, for an embedded query. -/
def retrieveLocked (s : RetrieverProxy V) (call : Retrieval V D) (embedding : V) :
    RetrieverProxy V × Except String (RetrieveResult D) :=
  match call.answer (s.requested cfg call.k) with
  | .error e => (s, .error e)
  | .ok answer =>
      match s.tracker.recordQuery vectors cfg.tracker (answer.ids.take cfg.topRankThreshold)
        embedding with
      | .error e => (s, .error e)
      | .ok tracker =>
          let (s, scan) := (Answer.candidates answer).foldl
            (inspectCandidate vectors inspectDocument cfg call.nowMs) ({ s with tracker }, {})
          if Answer.uneven answer then (s, .error "zip() arguments have different lengths")
          else if !call.saved then (s, .error saveFailed)
          else
            (s, .ok ⟨call.query, scan.clean.take (effectiveK cfg call.k), scan.withheld,
              s.quarantine.size, false⟩)

def retrieve (s : RetrieverProxy V) (call : Retrieval V D) :
    RetrieverProxy V × Except String (RetrieveResult D) :=
  match call.sessionId.filter (· ≠ "") with
  | none => s.refuse (unattributedKey call.tenantId call.agentId) call.query
  | some sessionId =>
      if call.sessionRevoked then s.refuse sessionId call.query
      else
        match call.embedding with
        | .error e => (s, .error e)
        | .ok embedding => s.retrieveLocked vectors inspectDocument cfg call embedding

structure ReleaseResult where
  docId : String
  released : Bool
  quarantinedCount : ℕ
deriving Repr, DecidableEq

/-- What a mutation answers once its state has been changed. -/
def persisted {α : Type} (saved : Bool) (answer : α) : Except String α :=
  if saved then .ok answer else .error saveFailed

def releaseQuarantine (s : RetrieverProxy V) (docId : String) (saved : Bool) :
    RetrieverProxy V × Except String ReleaseResult :=
  let quarantine := s.quarantine.removeMany [docId]
  ({ s with quarantine, tracker := s.tracker.resetDoc docId },
    persisted saved ⟨docId, s.quarantine.keys.contains docId, quarantine.keys.length⟩)

def resetDetection (s : RetrieverProxy V) (saved : Bool) : RetrieverProxy V × Except String Unit :=
  ({ s with tracker := .new, quarantine := .empty }, persisted saved ())

/-- The collection may refuse an upsert before anything is forgotten; else it
answers how many documents it holds. -/
def upsertDocuments (s : RetrieverProxy V) (documents : List (String × String))
    (stored : Except String ℕ) (saved : Bool) : RetrieverProxy V × Except String ℕ :=
  match stored with
  | .error e => (s, .error e)
  | .ok count =>
      let ids := documents.map Prod.fst
      ({ s with
        tracker := s.tracker.forgetDocuments ids
        quarantine := s.quarantine.removeMany ids }, persisted saved count)

end RetrieverProxy

/-- An operation, with what the outside answers. -/
inductive Operation (V D : Type)
  | retrieve (call : Retrieval V D)
  | upsertDocuments (documents : List (String × String)) (stored : Except String ℕ) (saved : Bool)
  | releaseQuarantine (docId : String) (saved : Bool)
  | resetDetection (saved : Bool)

namespace RetrieverProxy

def step (s : RetrieverProxy V) : Operation V D → RetrieverProxy V
  | .retrieve call => (s.retrieve vectors inspectDocument cfg call).1
  | .upsertDocuments documents stored saved => (s.upsertDocuments documents stored saved).1
  | .releaseQuarantine docId saved => (s.releaseQuarantine docId saved).1
  | .resetDetection saved => (s.resetDetection saved).1

def run (s : RetrieverProxy V) (ops : List (Operation V D)) : RetrieverProxy V :=
  ops.foldl (step vectors inspectDocument cfg) s

end RetrieverProxy

end

end BlackMonolith.VectorAnchor
