import Mathlib.Data.List.Sort
import BlackMonolith.Dashboard.EventStore
import BlackMonolith.Library.Eviction

/-!
# Session revocation and the circuit breaker

The store of a deployment without a database keeps its revocations, the modules
that reported on each session and the restore watermarks in maps of bounded
size. The database keeps a row for each session ever revoked, with the time of
its restore.
-/
namespace BlackMonolith.Dashboard
open Library

/-- The configured severities and layers; the layers are clamped to the known modules. -/
structure CircuitBreaker where
  severities : List Severity
  minLayers : ℕ
  pos : 1 ≤ minLayers
  le : minLayers ≤ knownModules.length

/-- `raw` is the trimmed, lower-case setting. -/
def circuitBreakerSeverities (raw : Option String) : List Severity :=
  if raw = some "info" then [.info, .warning, .critical]
  else if raw = some "warning" then [.warning, .critical]
  else [.critical]

/-- `raw` is the setting as a number, if it is an integer. -/
def circuitBreakerMinLayers (raw : Option ℤ) : ℕ :=
  match raw with
  | some n => if 1 ≤ n ∧ n ≤ knownModules.length then n.toNat else 2
  | none => 2

def circuitBreaker (severity : Option String) (minLayers : Option ℤ) : CircuitBreaker where
  severities := circuitBreakerSeverities severity
  minLayers := circuitBreakerMinLayers minLayers
  pos := by
    unfold circuitBreakerMinLayers
    split
    · split <;> omega
    · omega
  le := by
    unfold circuitBreakerMinLayers knownModules
    split
    · simp only [List.length_cons, List.length_nil]
      split <;> omega
    · decide

structure SessionRevocation where
  tenantId : Identity
  agentId : Identity
  sessionId : Identity
  revokedAt : ℕ
  reason : JsString
  triggeredBy : JsString
  layers : List ModuleName

structure MemoryStore where
  events : MemoryEvents
  revoked : InsertionMap JsString SessionRevocation
  modules : InsertionMap JsString (List ModuleName)
  restoredAt : InsertionMap JsString ℕ

def MemoryStore.init : MemoryStore := ⟨.empty, .empty, .empty, .empty⟩

structure RevokedSessionRow where
  revocation : SessionRevocation
  restoredAt : Option ℕ

structure Database where
  events : EventTable
  revokedSessions : InsertionMap (Identity × Identity × Identity) RevokedSessionRow

def Database.init : Database := ⟨.empty, .empty⟩

/-- Tenant, agent and session, separated by NUL. -/
def sessionKey (tenantId agentId sessionId : Identity) : JsString :=
  ⟨tenantId.text.units ++ 0 :: (agentId.text.units ++ 0 :: sessionId.text.units)⟩

/-- The agent and session of an event that has both. -/
def MonolithEvent.session (e : MonolithEvent) : Option (Identity × Identity) :=
  match e.agentId, e.sessionId with
  | some agentId, some sessionId => some (agentId, sessionId)
  | _, _ => none

def sessionQuarantined : JsString := .ofString "session_quarantined"

/-- Evidence for the breaker: refusals are consequences of a revocation. -/
def CircuitBreaker.qualifies (breaker : CircuitBreaker) (e : MonolithEvent) : Bool :=
  breaker.severities.contains e.severity && e.eventType ≠ sessionQuarantined

/-- A set of modules, sorted by name. -/
def sortedLayers (modules : List ModuleName) : List ModuleName :=
  knownModules.filter fun m => modules.contains m

/-! ## Revoking and restoring -/

/-- An optional text of at most `max` code units. -/
def text (value : JsString) (max : ℕ) (field : String) : Except String (Option JsString) :=
  let trimmed := value.trim
  if trimmed.units = [] then .ok none
  else if max < trimmed.length then .error s!"{field} must be at most {max} characters"
  else .ok (some trimmed)

def maxMemorySessions : ℕ := 5000

/-- Erases the oldest keys of a map, as many as it has above the bound. -/
def overflow {ν : Type} (m : InsertionMap JsString ν) : List JsString :=
  m.keys.take (m.size - maxMemorySessions)

def eraseAll {ν : Type} (keys : List JsString) (m : InsertionMap JsString ν) :
    InsertionMap JsString ν :=
  keys.foldl (·.erase ·) m

def MemoryStore.enforceSessionBound (s : MemoryStore) : MemoryStore :=
  if s.revoked.size ≤ maxMemorySessions && s.modules.size ≤ maxMemorySessions then s
  else
    let oldest := overflow s.revoked
    let modules := eraseAll oldest s.modules
    let restoredAt := eraseAll oldest s.restoredAt
    { s with
      revoked := eraseAll oldest s.revoked
      modules := eraseAll (overflow modules) modules
      restoredAt := eraseAll (overflow restoredAt) restoredAt }

def sessionQuarantinedReason : JsString := .ofString "Session quarantined"

/-- The checked reason and trigger of a revocation. -/
def revocationTexts (reason triggeredBy : JsString) : Except String (JsString × JsString) := do
  let cleanReason ← text reason 512 "reason"
  let cleanTrigger ← text triggeredBy 128 "triggered_by"
  .ok (cleanReason.getD sessionQuarantinedReason, cleanTrigger.getD (.ofString "operator"))

/-- Writes a revocation; any watermark of the session is superseded. -/
def MemoryStore.put (s : MemoryStore) (tenantId agentId sessionId : Identity)
    (reason triggeredBy : JsString) (layers : List ModuleName) (now : ℕ) : MemoryStore :=
  let key := sessionKey tenantId agentId sessionId
  let normalized := sortedLayers layers
  let merged :=
    if normalized.isEmpty then ((s.revoked.get? key).map (·.layers)).getD [] else normalized
  { s with
    revoked := s.revoked.set key
      { tenantId, agentId, sessionId, revokedAt := now, reason, triggeredBy, layers := merged }
    restoredAt := s.restoredAt.erase key }

/-- The in-memory half of `revokeSession`, with checked texts. -/
def MemoryStore.revoke (s : MemoryStore) (tenantId agentId sessionId : Identity)
    (reason triggeredBy : JsString) (layers : List ModuleName) (now : ℕ) : MemoryStore :=
  (s.put tenantId agentId sessionId reason triggeredBy layers now).enforceSessionBound

/-- The insert of `revokeSession`: an active revocation keeps its record. -/
def Database.revoke (db : Database) (tenantId agentId sessionId : Identity)
    (reason triggeredBy : JsString) (layers : List ModuleName) (now : ℕ) : Database :=
  let key := (tenantId.toWellFormed, agentId.toWellFormed, sessionId.toWellFormed)
  let excluded : SessionRevocation :=
    { tenantId := key.1
      agentId := key.2.1
      sessionId := key.2.2
      revokedAt := now
      reason := reason.toWellFormed
      triggeredBy := triggeredBy.toWellFormed
      layers := sortedLayers layers }
  let row : RevokedSessionRow :=
    match db.revokedSessions.get? key with
    | none => ⟨excluded, none⟩
    | some existing =>
        match existing.restoredAt with
        | none => existing
        | some _ =>
            { revocation :=
                { excluded with
                  layers :=
                    if excluded.layers.isEmpty then existing.revocation.layers
                    else excluded.layers }
              restoredAt := none }
  { db with revokedSessions := db.revokedSessions.set key row }

/-- The database half of `revokeSession`, with checked texts. A `text` column
takes no U+0000, and the call then fails. -/
def Database.revokeSession (db : Database) (tenantId agentId sessionId : Identity)
    (reason triggeredBy : JsString) (layers : List ModuleName) (now : ℕ) : Database :=
  if 0 ∈ reason.units ∨ 0 ∈ triggeredBy.units then db
  else db.revoke tenantId agentId sessionId reason triggeredBy layers now

/-- The flag says whether an active revocation was lifted. -/
def MemoryStore.restore (s : MemoryStore) (tenantId agentId sessionId : Identity) (now : ℕ) :
    MemoryStore × Bool :=
  let key := sessionKey tenantId agentId sessionId
  ({ s with
      revoked := s.revoked.erase key
      modules := s.modules.erase key
      restoredAt := s.restoredAt.set key now },
    s.revoked.has key)

def Database.restore (db : Database) (tenantId agentId sessionId : Identity) (now : ℕ) :
    Database × Bool :=
  let key := (tenantId.toWellFormed, agentId.toWellFormed, sessionId.toWellFormed)
  match db.revokedSessions.get? key with
  | some row =>
      if row.restoredAt = none then
        ({ db with
            revokedSessions := db.revokedSessions.set key { row with restoredAt := some now } },
          true)
      else (db, false)
  | none => (db, false)

/-- Newest first. -/
def newestFirst (revocations : List SessionRevocation) : List SessionRevocation :=
  revocations.insertionSort fun a b => b.revokedAt ≤ a.revokedAt

def MemoryStore.listRevokedSessions (s : MemoryStore) (tenantId : Identity) :
    List SessionRevocation :=
  newestFirst (s.revoked.values.filter (·.tenantId = tenantId))

def Database.listRevokedSessions (db : Database) (tenantId : Identity) :
    List SessionRevocation :=
  newestFirst ((db.revokedSessions.values.filter fun row =>
    row.revocation.tenantId = tenantId.toWellFormed ∧ row.restoredAt = none).map (·.revocation))

/-! ## The circuit breaker -/

/-- The sessions of a batch, each once. -/
def sessionsOf (events : List MonolithEvent) : List (Identity × Identity) :=
  (events.filterMap MonolithEvent.session).foldl
    (fun seen s => if seen.contains s then seen else seen ++ [s]) []

def breakerReason (layers : List ModuleName) : JsString :=
  ⟨(JsString.ofString "Cross-layer circuit breaker tripped across ").units ++
    (JsString.ofString ", ").units.intercalate (layers.map (·.text.units))⟩

def autoCircuitBreaker : JsString := .ofString "auto-circuit-breaker"

/-- Adds the modules of a batch to the sessions they report on. -/
def MemoryStore.addModules (breaker : CircuitBreaker) (tenantId : Identity) :
    List MonolithEvent → MemoryStore → MemoryStore
  | [], s => s
  | e :: events, s =>
      match e.session with
      | some (agentId, sessionId) =>
          if breaker.qualifies e then
            let key := sessionKey tenantId agentId sessionId
            let set := (s.modules.get? key).getD []
            let set := if set.contains e.moduleName then set else set ++ [e.moduleName]
            addModules breaker tenantId events { s with modules := s.modules.set key set }
          else addModules breaker tenantId events s
      | none => addModules breaker tenantId events s

def MemoryStore.ledger (s : MemoryStore) (tenantId : Identity) : List MonolithEvent :=
  s.events.values.filter (·.tenantId = tenantId)

/-- The events of a session that count after its restore. -/
def MemoryStore.sessionModules (s : MemoryStore) (breaker : CircuitBreaker)
    (tenantId agentId sessionId : Identity) : List ModuleName :=
  let key := sessionKey tenantId agentId sessionId
  let restoredAt := (s.restoredAt.get? key).getD 0
  (s.modules.get? key).getD [] ++
    ((s.ledger tenantId).filter fun e =>
      e.session = some (agentId, sessionId) && breaker.qualifies e &&
        restoredAt < e.receivedMs.getD e.timestampMs).map (·.moduleName)

/-- The loop over the sessions of a batch; `revokedAt i` is the clock as the
`i`-th of them is revoked. -/
def MemoryStore.evaluateSessions (breaker : CircuitBreaker) (tenantId : Identity)
    (revokedAt : ℕ → ℕ) : ℕ → List (Identity × Identity) → MemoryStore →
      MemoryStore × Except String Unit
  | _, [], s => (s, .ok ())
  | i, (agentId, sessionId) :: rest, s =>
      let layers := sortedLayers (s.sessionModules breaker tenantId agentId sessionId)
      if breaker.minLayers ≤ layers.length ∧
          s.revoked.has (sessionKey tenantId agentId sessionId) = false then
        match revocationTexts (breakerReason layers) autoCircuitBreaker with
        | .error e => (s, .error e)
        | .ok (reason, trigger) =>
            evaluateSessions breaker tenantId revokedAt (i + 1) rest
              (s.revoke tenantId agentId sessionId reason trigger layers (revokedAt i))
      else evaluateSessions breaker tenantId revokedAt (i + 1) rest s

/-- The distinct session ids of revocations. -/
def revokedSessionIds (revocations : List SessionRevocation) : List JsString :=
  (revocations.map (·.sessionId.text)).eraseDups

def MemoryStore.evaluateSessionCircuitBreaker (breaker : CircuitBreaker) (revokedAt : ℕ → ℕ)
    (events : List MonolithEvent) (s : MemoryStore) :
    MemoryStore × Except String (List JsString) :=
  match events with
  | [] => (s, .ok [])
  | first :: _ =>
      let tenantId := first.tenantId
      let s := (s.addModules breaker tenantId events).enforceSessionBound
      let r := s.evaluateSessions breaker tenantId revokedAt 0 (sessionsOf events)
      (r.1, r.2.map fun _ => revokedSessionIds (r.1.listRevokedSessions tenantId))

/-- What the query counts for one candidate. -/
def Database.sessionModules (db : Database) (breaker : CircuitBreaker)
    (tenantId agentId sessionId : Identity) : List ModuleName :=
  let watermark := (db.revokedSessions.get? (tenantId, agentId, sessionId)).bind (·.restoredAt)
  (db.events.values.filter fun row =>
    row.event.session = some (agentId, sessionId) && row.event.tenantId = tenantId &&
      breaker.qualifies row.event && watermark.all (· < row.receivedAt)).map (·.event.moduleName)

/-- The order in which a query returns its groups, which SQL leaves open. -/
abbrev GroupOrder := Scan ((Identity × Identity) × List ModuleName)

/-- The groups of the query. -/
def Database.layerRows (db : Database) (breaker : CircuitBreaker) (groups : GroupOrder)
    (tenantId : Identity) (candidates : List (Identity × Identity)) :
    List ((Identity × Identity) × List ModuleName) :=
  groups.read ((((candidates.map fun c =>
    (c.1.toWellFormed, c.2.toWellFormed)).eraseDups).map fun c =>
      (c, sortedLayers (db.sessionModules breaker tenantId.toWellFormed c.1 c.2))).filter
        fun row => !row.2.isEmpty)

def Database.revokeRows (breaker : CircuitBreaker) (tenantId : Identity) (revokedAt : ℕ → ℕ) :
    ℕ → List ((Identity × Identity) × List ModuleName) → Database →
      Database × Except String Unit
  | _, [], db => (db, .ok ())
  | i, ((agentId, sessionId), layers) :: rest, db =>
      if breaker.minLayers ≤ layers.length then
        match revocationTexts (breakerReason layers) autoCircuitBreaker with
        | .error e => (db, .error e)
        | .ok (reason, trigger) =>
            revokeRows breaker tenantId revokedAt (i + 1) rest
              (db.revoke tenantId agentId sessionId reason trigger layers (revokedAt i))
      else revokeRows breaker tenantId revokedAt (i + 1) rest db

def Database.evaluateSessionCircuitBreaker (breaker : CircuitBreaker) (groups : GroupOrder)
    (revokedAt : ℕ → ℕ) (events : List MonolithEvent) (db : Database) :
    Database × Except String (List JsString) :=
  match events with
  | [] => (db, .ok [])
  | first :: _ =>
      let tenantId := first.tenantId
      let r := db.revokeRows breaker tenantId revokedAt 0
        (db.layerRows breaker groups tenantId (sessionsOf events))
      (r.1, r.2.map fun _ => revokedSessionIds (r.1.listRevokedSessions tenantId))

end BlackMonolith.Dashboard
