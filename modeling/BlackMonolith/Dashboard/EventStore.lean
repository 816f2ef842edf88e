import BlackMonolith.Library.Fallible
import BlackMonolith.Library.InsertionMap
import BlackMonolith.Library.JavaScript

/-!
# The event ledger of the dashboard

`normalizeEvent` turns one JSON value into an event or refuses it. The ledger
is either a map in memory or a Postgres table; both are keyed by the event id,
across tenants. A text column holds its string as UTF-8 can carry it, and a
`uuid` column in lower case. Whatever else the table demands of a row is a
parameter.
-/
namespace BlackMonolith.Dashboard
open Library

inductive ModuleName
  | mcpShield
  | vectorAnchor
  | traceAudit
deriving Repr, DecidableEq

def ModuleName.text : ModuleName → JsString
  | .mcpShield => .ofString "mcp-shield"
  | .vectorAnchor => .ofString "vector-anchor"
  | .traceAudit => .ofString "trace-audit"

/-- The known modules, in the order of their names. -/
def knownModules : List ModuleName := [.mcpShield, .traceAudit, .vectorAnchor]

inductive Severity
  | info
  | warning
  | critical
deriving Repr, DecidableEq

def Severity.text : Severity → JsString
  | .info => .ofString "info"
  | .warning => .ofString "warning"
  | .critical => .ofString "critical"

def knownSeverities : List Severity := [.info, .warning, .critical]

def maxTextLength : ℕ := 512
def maxIdLength : ℕ := 128
def maxEventTimestampMs : ℤ := 32503680000000

def isControl (u : UInt16) : Bool := u < 0x20 || u == 0x7F

/-- What `identityText` accepts: a tenant, agent, session, trace or correlation id. -/
structure Identity where
  text : JsString
  trimmed : text.trim = text
  nonempty : text.units ≠ []
  bounded : text.length ≤ maxIdLength
  printable : text.units.all fun u => !isControl u
deriving DecidableEq

namespace Identity

theorem ext_text {a b : Identity} (h : a.text = b.text) : a = b := by
  cases a
  cases b
  cases h
  rfl

/-- The identity as a text column holds it. -/
def toWellFormed (id : Identity) : Identity where
  text := id.text.toWellFormed
  trimmed := JsString.trim_toWellFormed id.trimmed
  nonempty := by
    intro h
    have hlen := JsString.length_toWellFormed id.text
    unfold JsString.length at hlen
    rw [h] at hlen
    exact id.nonempty (List.eq_nil_of_length_eq_zero hlen.symm)
  bounded := by
    rw [JsString.length_toWellFormed]
    exact id.bounded
  printable := JsString.all_toWellFormed (by decide) id.printable

end Identity

def defaultTenant : Identity :=
  ⟨.ofString "default", by decide, by decide, by decide, by decide⟩

structure MonolithEvent where
  eventId : JsString
  schemaVersion : ℕ
  timestampMs : ℕ
  receivedMs : Option ℕ
  moduleName : ModuleName
  eventType : JsString
  severity : Severity
  details : List (JsString × JsValue)
  tenantId : Identity
  agentId : Option Identity
  sessionId : Option Identity
  traceId : Option Identity
  correlationId : Option Identity
  resourceType : Option JsString
  resourceId : Option JsString
  outcome : Option JsString
  policyVersion : Option JsString
  source : JsString

/-! ## Reading an event -/

def textError : String := "event text fields must be printable and at most 512 characters"

def optionalText : Option JsValue → Except String (Option JsString)
  | none | some .null => .ok none
  | some (.string value) =>
      let trimmed := value.trim
      if trimmed.units = [] || maxTextLength < trimmed.length || trimmed.units.any isControl then
        .error textError
      else .ok (some trimmed)
  | some _ => .error "event text fields must be strings"

def identityText (field : String) : Option JsValue → Except String (Option Identity)
  | none | some .null => .ok none
  | some (.string value) =>
      if h : value.trim.units ≠ [] ∧ value.trim.length ≤ maxIdLength ∧
          value.trim.units.all fun u => !isControl u then
        .ok (some ⟨value.trim, JsString.trim_trim value, h.1, h.2.1, h.2.2⟩)
      else .error s!"event.{field} must be printable and between 1 and 128 characters"
  | some _ => .error s!"event.{field} must be a string"

def isHexDigit (u : UInt16) : Bool :=
  (48 ≤ u && u ≤ 57) || (65 ≤ u && u ≤ 70) || (97 ≤ u && u ≤ 102)

/-- `UUID_PATTERN`. -/
def isUuid (s : JsString) : Bool :=
  s.length == 36 &&
    s.units.zipIdx.all fun (u, i) =>
      if i == 8 || i == 13 || i == 18 || i == 23 then u == 45 else isHexDigit u

/-! The fields `normalizeEvent` reads itself, each with its default. -/

def readSeverity : Option JsValue → Except String Severity
  | none => .ok .info
  | some (.string s) =>
      match knownSeverities.find? (·.text = s) with
      | some severity => .ok severity
      | none => .error "event.severity must be info, warning, or critical"
  | some _ => .error "event.severity must be info, warning, or critical"

def readTimestamp (now : ℕ) : Option JsValue → Except String ℕ
  | none => .ok now
  | some (.number (.integer n)) =>
      if 1 ≤ n ∧ n ≤ maxEventTimestampMs then .ok n.toNat
      else .error "event.timestamp_ms must be a supported positive Unix timestamp"
  | some _ => .error "event.timestamp_ms must be a supported positive Unix timestamp"

def readSchemaVersion : Option JsValue → Except String ℕ
  | none | some (.number (.integer 1)) => .ok 1
  | some (.number (.integer 2)) => .ok 2
  | some _ => .error "event.schema_version must be 1 or 2"

def readDetails : Option JsValue → Except String (List (JsString × JsValue))
  | none => .ok []
  | some (.object members) => .ok members
  | some _ => .error "event.details must be a JSON object"

def readEventId (randomUUID : JsString) : Option JsValue → Except String JsString
  | none | some .null => .ok randomUUID
  | some (.string s) => if isUuid s then .ok s else .error "event.event_id must be a UUID"
  | some _ => .error "event.event_id must be a UUID"

/-- `Date.now()` and `randomUUID()` are read once for each event. -/
def normalizeEvent (now : ℕ) (randomUUID : JsString) (raw : JsValue) :
    Except String MonolithEvent := do
  let .object value := raw | .error "each event must be a JSON object"
  let name ← optionalText (JsValue.get value "module")
  let some moduleName := name.bind fun n => knownModules.find? (·.text = n)
    | .error "event.module must identify a known module"
  let some eventType ← optionalText (JsValue.get value "event_type")
    | .error "event.event_type is required"
  let severity ← readSeverity (JsValue.get value "severity")
  let timestamp ← readTimestamp now (JsValue.get value "timestamp_ms")
  let schemaVersion ← readSchemaVersion (JsValue.get value "schema_version")
  let details ← readDetails (JsValue.get value "details")
  let eventId ← readEventId randomUUID (JsValue.get value "event_id")
  let tenantId ← identityText "tenant_id" (JsValue.get value "tenant_id")
  let agentId ← identityText "agent_id" (JsValue.get value "agent_id")
  let sessionId ← identityText "session_id" (JsValue.get value "session_id")
  let traceId ← identityText "trace_id" (JsValue.get value "trace_id")
  let correlationId ← identityText "correlation_id" (JsValue.get value "correlation_id")
  let resourceType ← optionalText (JsValue.get value "resource_type")
  let resourceId ← optionalText (JsValue.get value "resource_id")
  let outcome ← optionalText (JsValue.get value "outcome")
  let policyVersion ← optionalText (JsValue.get value "policy_version")
  let source ← optionalText (JsValue.get value "source")
  .ok
    { eventId, schemaVersion, timestampMs := timestamp, receivedMs := none, moduleName, eventType
      severity, details, tenantId := tenantId.getD defaultTenant, agentId, sessionId, traceId
      correlationId, resourceType, resourceId, outcome, policyVersion
      source := source.getD (.ofString "module") }

/-- What each field of an accepted event was read from. -/
structure Reads (now : ℕ) (randomUUID : JsString) (value : List (JsString × JsValue))
    (e : MonolithEvent) : Prop where
  moduleName : ∃ name, optionalText (JsValue.get value "module") = .ok (some name) ∧
    knownModules.find? (·.text = name) = some e.moduleName
  eventType : optionalText (JsValue.get value "event_type") = .ok (some e.eventType)
  severity : readSeverity (JsValue.get value "severity") = .ok e.severity
  timestampMs : readTimestamp now (JsValue.get value "timestamp_ms") = .ok e.timestampMs
  schemaVersion : readSchemaVersion (JsValue.get value "schema_version") = .ok e.schemaVersion
  details : readDetails (JsValue.get value "details") = .ok e.details
  eventId : readEventId randomUUID (JsValue.get value "event_id") = .ok e.eventId
  tenantId : ∃ tenant, identityText "tenant_id" (JsValue.get value "tenant_id") = .ok tenant ∧
    e.tenantId = tenant.getD defaultTenant
  agentId : identityText "agent_id" (JsValue.get value "agent_id") = .ok e.agentId
  sessionId : identityText "session_id" (JsValue.get value "session_id") = .ok e.sessionId
  traceId : identityText "trace_id" (JsValue.get value "trace_id") = .ok e.traceId
  correlationId :
    identityText "correlation_id" (JsValue.get value "correlation_id") = .ok e.correlationId
  resourceType : optionalText (JsValue.get value "resource_type") = .ok e.resourceType
  resourceId : optionalText (JsValue.get value "resource_id") = .ok e.resourceId
  outcome : optionalText (JsValue.get value "outcome") = .ok e.outcome
  policyVersion : optionalText (JsValue.get value "policy_version") = .ok e.policyVersion
  source : ∃ source, optionalText (JsValue.get value "source") = .ok source ∧
    e.source = source.getD (.ofString "module")
  receivedMs : e.receivedMs = none

theorem normalizeEvent_eq_ok_iff {now : ℕ} {randomUUID : JsString} {raw : JsValue}
    {e : MonolithEvent} : normalizeEvent now randomUUID raw = .ok e ↔
      ∃ value, raw = .object value ∧ Reads now randomUUID value e := by
  constructor
  · intro h
    unfold normalizeEvent at h
    split at h
    · next value =>
        refine ⟨value, rfl, ?_⟩
        obtain ⟨name, hname, h⟩ := bind_eq_ok.mp h
        split at h
        · next moduleName hmodule =>
            obtain ⟨type, htype, h⟩ := bind_eq_ok.mp h
            split at h
            · next eventType =>
                obtain ⟨severity, hseverity, h⟩ := bind_eq_ok.mp h
                obtain ⟨timestamp, htimestamp, h⟩ := bind_eq_ok.mp h
                obtain ⟨version, hversion, h⟩ := bind_eq_ok.mp h
                obtain ⟨details, hdetails, h⟩ := bind_eq_ok.mp h
                obtain ⟨eventId, heventId, h⟩ := bind_eq_ok.mp h
                obtain ⟨tenant, htenant, h⟩ := bind_eq_ok.mp h
                obtain ⟨agent, hagent, h⟩ := bind_eq_ok.mp h
                obtain ⟨session, hsession, h⟩ := bind_eq_ok.mp h
                obtain ⟨trace, htrace, h⟩ := bind_eq_ok.mp h
                obtain ⟨correlation, hcorrelation, h⟩ := bind_eq_ok.mp h
                obtain ⟨resourceType, hresourceType, h⟩ := bind_eq_ok.mp h
                obtain ⟨resourceId, hresourceId, h⟩ := bind_eq_ok.mp h
                obtain ⟨outcome, houtcome, h⟩ := bind_eq_ok.mp h
                obtain ⟨policy, hpolicy, h⟩ := bind_eq_ok.mp h
                obtain ⟨source, hsource, h⟩ := bind_eq_ok.mp h
                cases h
                obtain ⟨n, rfl, hfind⟩ := Option.bind_eq_some_iff.mp hmodule
                exact
                  { moduleName := ⟨n, hname, hfind⟩, eventType := htype, severity := hseverity
                    timestampMs := htimestamp, schemaVersion := hversion, details := hdetails
                    eventId := heventId, tenantId := ⟨tenant, htenant, rfl⟩, agentId := hagent
                    sessionId := hsession, traceId := htrace, correlationId := hcorrelation
                    resourceType := hresourceType, resourceId := hresourceId
                    outcome := houtcome, policyVersion := hpolicy
                    source := ⟨source, hsource, rfl⟩, receivedMs := rfl }
            · cases h
        · cases h
    · cases h
  · rintro ⟨value, rfl, h⟩
    obtain ⟨name, hname, hmodule⟩ := h.moduleName
    obtain ⟨tenant, htenant, heqTenant⟩ := h.tenantId
    obtain ⟨source, hsource, heqSource⟩ := h.source
    unfold normalizeEvent
    simp only [hname, Option.bind_some, hmodule, h.eventType, h.severity, h.timestampMs,
      h.schemaVersion, h.details, h.eventId, htenant, h.agentId, h.sessionId, h.traceId,
      h.correlationId, h.resourceType, h.resourceId, h.outcome, h.policyVersion, hsource,
      ← heqTenant, ← heqSource, bind, Except.bind]
    rw [← h.receivedMs]

/-- Only the session is read from the member `session_id`. -/
theorem Reads.withSession {now : ℕ} {randomUUID : JsString} {value value' : List (JsString × JsValue)}
    {e : MonolithEvent} {session : Option Identity} (h : Reads now randomUUID value e)
    (hother : ∀ name, JsString.ofString "session_id" ≠ JsString.ofString name →
      JsValue.get value' name = JsValue.get value name)
    (hsession : identityText "session_id" (JsValue.get value' "session_id") = .ok session) :
    Reads now randomUUID value' { e with sessionId := session } where
  moduleName := hother "module" (by decide) ▸ h.moduleName
  eventType := hother "event_type" (by decide) ▸ h.eventType
  severity := hother "severity" (by decide) ▸ h.severity
  timestampMs := hother "timestamp_ms" (by decide) ▸ h.timestampMs
  schemaVersion := hother "schema_version" (by decide) ▸ h.schemaVersion
  details := hother "details" (by decide) ▸ h.details
  eventId := hother "event_id" (by decide) ▸ h.eventId
  tenantId := hother "tenant_id" (by decide) ▸ h.tenantId
  agentId := hother "agent_id" (by decide) ▸ h.agentId
  sessionId := hsession
  traceId := hother "trace_id" (by decide) ▸ h.traceId
  correlationId := hother "correlation_id" (by decide) ▸ h.correlationId
  resourceType := hother "resource_type" (by decide) ▸ h.resourceType
  resourceId := hother "resource_id" (by decide) ▸ h.resourceId
  outcome := hother "outcome" (by decide) ▸ h.outcome
  policyVersion := hother "policy_version" (by decide) ▸ h.policyVersion
  source := hother "source" (by decide) ▸ h.source
  receivedMs := h.receivedMs

/-- The server stamps the time of receipt, not the sender. -/
theorem normalizeEvent_receivedMs {now : ℕ} {randomUUID : JsString} {raw : JsValue}
    {e : MonolithEvent} (h : normalizeEvent now randomUUID raw = .ok e) : e.receivedMs = none := by
  obtain ⟨value, -, hreads⟩ := normalizeEvent_eq_ok_iff.mp h
  exact hreads.receivedMs

/-- The event id an item brings itself. -/
def suppliedId : JsValue → Option JsString
  | .object value =>
      match JsValue.get value "event_id" with
      | some (.string s) => some s
      | _ => none
  | _ => none

/-- An id that is supplied is kept, so it is the same at every delivery. -/
theorem normalizeEvent_eventId {now : ℕ} {randomUUID id : JsString} {raw : JsValue}
    {e : MonolithEvent} (hid : suppliedId raw = some id)
    (h : normalizeEvent now randomUUID raw = .ok e) : e.eventId = id := by
  obtain ⟨value, rfl, hreads⟩ := normalizeEvent_eq_ok_iff.mp h
  have hread := hreads.eventId
  simp only [suppliedId] at hid
  split at hid
  · next hget =>
      cases hid
      simp only [hget, readEventId] at hread
      split at hread
      · cases hread
        rfl
      · cases hread
  · cases hid

/-! ## Storing events -/

structure PersistResult where
  inserted : Bool
  event : MonolithEvent

/-- The ledger of the in-memory store. -/
abbrev MemoryEvents := InsertionMap JsString MonolithEvent

/-- The event as it is stored at a time. -/
def MonolithEvent.stamp (e : MonolithEvent) (now : ℕ) : MonolithEvent :=
  { e with receivedMs := some (e.receivedMs.getD now) }

@[simp] theorem MonolithEvent.stamp_eventId (e : MonolithEvent) (now : ℕ) :
    (e.stamp now).eventId = e.eventId := rfl

@[simp] theorem MonolithEvent.stamp_tenantId (e : MonolithEvent) (now : ℕ) :
    (e.stamp now).tenantId = e.tenantId := rfl

/-- `received i` is the clock as the `i`-th event of the batch is stored. -/
def persistInMemory (received : ℕ → ℕ) :
    ℕ → List MonolithEvent → MemoryEvents → List PersistResult × MemoryEvents
  | _, [], store => ([], store)
  | i, event :: events, store =>
      match store.get? event.eventId with
      | some existing =>
          let rest := persistInMemory received (i + 1) events store
          (⟨false, existing⟩ :: rest.1, rest.2)
      | none =>
          let stored := event.stamp (received i)
          let rest := persistInMemory received (i + 1) events (store.set stored.eventId stored)
          (⟨true, stored⟩ :: rest.1, rest.2)

section
variable {received : ℕ → ℕ} {events : List MonolithEvent} {store : MemoryEvents} {id : JsString}
  {e : MonolithEvent} {i : ℕ}

/-- The in-memory ledger forgets nothing. -/
theorem persistInMemory_get? (h : store.get? id = some e) :
    (persistInMemory received i events store).2.get? id = some e := by
  induction events generalizing i store with
  | nil => exact h
  | cons event events ih =>
      simp only [persistInMemory]
      split
      · exact ih h
      · next hnone =>
          apply ih
          rw [InsertionMap.get?_set_of_ne]
          · exact h
          · intro heq
            rw [show event.eventId = id from heq, h] at hnone
            cases hnone

/-- What the ledger holds afterwards was there or comes from the batch. -/
theorem persistInMemory_origin
    (h : (persistInMemory received i events store).2.get? id = some e) :
    store.get? id = some e ∨ ∃ event ∈ events, ∃ j, event.eventId = id ∧
      e = event.stamp (received j) := by
  induction events generalizing i store with
  | nil => exact Or.inl h
  | cons event events ih =>
      simp only [persistInMemory] at h
      split at h
      · rcases ih h with hold | ⟨event', hmem, hev⟩
        · exact Or.inl hold
        · exact Or.inr ⟨event', List.mem_cons_of_mem _ hmem, hev⟩
      · rcases ih h with hold | ⟨event', hmem, hev⟩
        · rw [InsertionMap.get?_set] at hold
          split at hold
          · next heq =>
              exact Or.inr ⟨event, List.mem_cons_self, i, heq, (Option.some.inj hold).symm⟩
          · exact Or.inl hold
        · exact Or.inr ⟨event', List.mem_cons_of_mem _ hmem, hev⟩

/-- Every result of a batch names the event now stored under its id. -/
theorem persistInMemory_stored :
    List.Forall₂ (fun event result =>
        (persistInMemory received i events store).2.get? event.eventId = some result.event)
      events (persistInMemory received i events store).1 := by
  induction events generalizing i store with
  | nil => exact .nil
  | cons event events ih =>
      simp only [persistInMemory]
      split
      · next existing hexisting => exact .cons (persistInMemory_get? hexisting) ih
      · exact .cons (persistInMemory_get? InsertionMap.get?_set_self) ih

end

/-- A batch whose ids are all held already changes nothing. -/
theorem persistInMemory_of_held {received : ℕ → ℕ} {events : List MonolithEvent}
    {store : MemoryEvents} (h : ∀ e ∈ events, ∃ existing, store.get? e.eventId = some existing)
    (i : ℕ) : (persistInMemory received i events store).2 = store := by
  induction events generalizing i with
  | nil => rfl
  | cons event events ih =>
      obtain ⟨existing, hexisting⟩ := h event List.mem_cons_self
      simp only [persistInMemory, hexisting]
      exact ih (fun e he => h e (List.mem_cons_of_mem event he)) (i + 1)

structure EventRow where
  event : MonolithEvent
  receivedAt : ℕ

/-- The table `security_events`; its times are in microseconds. -/
abbrev EventTable := InsertionMap JsString EventRow

/-- The values of an insert as their columns hold them. -/
def eventRow (now : ℕ) (e : MonolithEvent) : EventRow where
  receivedAt := now
  event :=
    { e with
      eventId := e.eventId.asciiLowercase
      eventType := e.eventType.toWellFormed
      tenantId := e.tenantId.toWellFormed
      agentId := e.agentId.map Identity.toWellFormed
      sessionId := e.sessionId.map Identity.toWellFormed
      traceId := e.traceId.map Identity.toWellFormed
      correlationId := e.correlationId.map Identity.toWellFormed
      resourceType := e.resourceType.map JsString.toWellFormed
      resourceId := e.resourceId.map JsString.toWellFormed
      outcome := e.outcome.map JsString.toWellFormed
      policyVersion := e.policyVersion.map JsString.toWellFormed
      source := e.source.toWellFormed }

/-- Milliseconds, rounded as the cast to `bigint` does. -/
def fromRow (row : EventRow) : MonolithEvent :=
  { row.event with receivedMs := some ((row.receivedAt + 500) / 1000) }

/-- The checks on the row of a statement, and what the indexes take of a row that is
inserted. -/
structure TableChecks where
  accepts : EventRow → Bool
  indexes : EventRow → Bool

/-- `none` is a statement that fails, which aborts the transaction. -/
def insertEventWithClient (checks : TableChecks) (context : Identity) (now : ℕ)
    (event : MonolithEvent) (table : EventTable) : Option (PersistResult × EventTable) :=
  let row := eventRow now event
  if row.event.tenantId ≠ context.toWellFormed || !checks.accepts row then none
  else if table.has row.event.eventId then some (⟨false, event⟩, table)
  else if !checks.indexes row then none
  else some (⟨true, fromRow row⟩, table.set row.event.eventId row)

def insertEvents (checks : TableChecks) (context : Identity) (now : ℕ) :
    List MonolithEvent → EventTable → Option (List PersistResult × EventTable)
  | [], table => some ([], table)
  | event :: events, table =>
      match insertEventWithClient checks context now event table with
      | none => none
      | some (result, table) =>
          match insertEvents checks context now events table with
          | none => none
          | some (results, table) => some (result :: results, table)

end BlackMonolith.Dashboard
