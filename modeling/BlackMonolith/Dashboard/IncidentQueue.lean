import Mathlib.Data.List.Lex
import BlackMonolith.Library.Keyset
import BlackMonolith.Dashboard.Triage

/-!
# The incident queue

A page of the queue is read in one query, worst severity first and newest first
within it. Its cursor names the last row by severity, time and event id, the
time in whole milliseconds; Base64 and JSON carry it unchanged. Ids compare as
the database compares a `uuid`, and the comparison of text with a search term is
a parameter.
-/
namespace BlackMonolith.Dashboard
open Library

/-- `security_events` and `incident_triage`, keyed by the event id, a `uuid`. -/
structure Ledger where
  events : EventTable
  triage : InsertionMap JsString TriageRow
  keyed : ∀ id row, events.get? id = some row → row.event.eventId = id
  uuids : ∀ id row, events.get? id = some row → isUuid id

inductive StatusFilter
  | unresolved
  | triaged
  | all
  | only (status : IncidentStatus)
deriving Repr, DecidableEq

structure IncidentQuery where
  tenantId : Identity
  status : Option StatusFilter := none
  severity : Option Severity := none
  moduleName : Option ModuleName := none
  session : Option JsString := none
  agent : Option JsString := none
  q : Option JsString := none
  sinceMs : Option ℤ := none
  limit : Option ℤ := none

/-- `ilike` with a pattern, and the full-text search in the details of an event. -/
structure TextSearch where
  ilike : JsString → JsString → Bool
  details : JsString → List (JsString × JsValue) → Bool

/-- The `case` of the query. -/
def Severity.rank : Severity → ℕ
  | .critical => 0
  | .warning => 1
  | .info => 2

def StatusFilter.allows (filter : StatusFilter) (triage : Option TriageRow) : Bool :=
  let status := (triage.map (·.status)).getD .new
  match filter with
  | .unresolved => status = .new || status = .acknowledged
  | .triaged => triage.isSome
  | .all => true
  | .only wanted => status = wanted

def columnText (id : Option Identity) : JsString := (id.map (·.text)).getD ⟨[]⟩

def matchesText (search : TextSearch) (q : JsString) (row : EventRow) (triage : Option TriageRow) :
    Bool :=
  let percent := (JsString.ofString "%").units
  let needle : JsString := ⟨percent ++ q.toWellFormed.units ++ percent⟩
  let e := row.event
  [e.eventType, e.moduleName.text, e.severity.text,
    (triage.bind (·.assignee)).getD ⟨[]⟩, columnText e.sessionId, columnText e.agentId,
    columnText e.traceId, columnText e.correlationId].any (search.ilike needle) ||
    search.details q.toWellFormed e.details

/-- The `where` clause without the part of the cursor. -/
def selects (search : TextSearch) (query : IncidentQuery) (row : EventRow)
    (triage : Option TriageRow) : Bool :=
  row.event.tenantId = query.tenantId.toWellFormed &&
    (query.status.getD .unresolved).allows triage &&
    query.severity.all (row.event.severity = ·) &&
    query.moduleName.all (row.event.moduleName = ·) &&
    query.sinceMs.all (· ≤ (row.event.timestampMs : ℤ)) &&
    query.session.all (fun id => row.event.sessionId.map (·.text) = some id.toWellFormed) &&
    query.agent.all (fun id => row.event.agentId.map (·.text) = some id.toWellFormed) &&
    query.q.all (fun q => matchesText search q row triage)

/-! ## The order of the queue -/

/-- A `uuid` in lower case compares like the list of its characters. -/
def uuidKey (id : JsString) : List ℕ := id.units.map (·.toNat)

/-- The time of receipt and the id, as the database compares the pair. -/
abbrev Receipt := ℕ ×ₗ List ℕ

/-- Severity rank upwards, then receipt downwards. -/
abbrev QueueKey := ℕ ×ₗ Receiptᵒᵈ

def receipt (time : ℕ) (id : JsString) : Receipt := toLex (time, uuidKey id)

def queueKey (row : EventRow) : QueueKey :=
  toLex (row.event.severity.rank, OrderDual.toDual (receipt row.receivedAt row.event.eventId))

def inQueueOrder (a b : EventRow) : Prop := queueKey a ≤ queueKey b

instance : DecidableRel inQueueOrder := fun _ _ => inferInstanceAs (Decidable (_ ≤ _))
instance : Std.Total inQueueOrder := ⟨fun a b => le_total (queueKey a) (queueKey b)⟩
instance : IsTrans EventRow inQueueOrder := ⟨fun _ _ _ hab hbc => le_trans hab hbc⟩

/-! ## Cursors -/

structure IncidentCursor where
  severityRank : ℕ
  receivedMs : ℕ
  eventId : JsString
deriving Repr, DecidableEq

def maxSafeInteger : ℕ := 9007199254740991

def decodeIncidentCursor (cursor : IncidentCursor) : Except String IncidentCursor :=
  if 2 < cursor.severityRank ∨ cursor.receivedMs < 1 ∨ maxSafeInteger < cursor.receivedMs ∨
      isUuid cursor.eventId = false then
    .error "cursor is invalid or expired"
  else .ok cursor

structure Incident where
  event : MonolithEvent
  triage : Option Triage

def Ledger.toIncident (ledger : Ledger) (row : EventRow) : Incident where
  event := fromRow row
  triage := (ledger.triage.get? row.event.eventId).map toTriage

def encodeIncidentCursor (incident : Incident) : IncidentCursor where
  severityRank := incident.event.severity.rank
  receivedMs := incident.event.receivedMs.getD 0
  eventId := incident.event.eventId

/-- The condition a cursor adds: a greater rank, or the same and an earlier receipt. -/
def IncidentCursor.precedes (cursor : IncidentCursor) (row : EventRow) : Bool :=
  cursor.severityRank < row.event.severity.rank ||
    (row.event.severity.rank = cursor.severityRank &&
      receipt row.receivedAt row.event.eventId < receipt (cursor.receivedMs * 1000) cursor.eventId)

/-! ## The query -/

section
variable (search : TextSearch) (ledger : Ledger) (query : IncidentQuery)

/-- Every row the filters select, in the order of the queue. -/
def Ledger.queue : List EventRow :=
  (ledger.events.values.filter fun row =>
    selects search query row (ledger.triage.get? row.event.eventId)).insertionSort inQueueOrder

/-- The rows a page is taken from; without a cursor, all of them. -/
def Ledger.selectRows (cursor : Option IncidentCursor) : List EventRow :=
  (ledger.events.values.filter fun row =>
    selects search query row (ledger.triage.get? row.event.eventId) &&
      cursor.all (·.precedes row)).insertionSort inQueueOrder

def IncidentQuery.pageLimit : ℕ := (max 1 (min (query.limit.getD 200) 1000)).toNat

structure IncidentPage where
  incidents : List Incident
  nextCursor : Option IncidentCursor

def Ledger.listIncidents (cursor : Option IncidentCursor) : Except String IncidentPage := do
  let cursor ← cursor.mapM decodeIncidentCursor
  let limit := query.pageLimit
  let rows := (ledger.selectRows search query cursor).take (limit + 1)
  let incidents := (rows.take limit).map ledger.toIncident
  .ok
    { incidents
      nextCursor := if limit < rows.length then incidents.getLast?.map encodeIncidentCursor else none }

/-- The pages from a cursor on, following `next_cursor` until there is none. -/
inductive Ledger.Pages : Option IncidentCursor → List IncidentPage → Prop
  | last {cursor : Option IncidentCursor} {page : IncidentPage} :
      ledger.listIncidents search query cursor = .ok page → page.nextCursor = none →
      Pages cursor [page]
  | more {cursor : Option IncidentCursor} {page : IncidentPage} {next : IncidentCursor}
      {pages : List IncidentPage} :
      ledger.listIncidents search query cursor = .ok page → page.nextCursor = some next →
      Pages (some next) pages → Pages cursor (page :: pages)

end

end BlackMonolith.Dashboard
