import Mathlib
import BlackMonolith.Dashboard.EventStore

/-!
# The alert outbox

A critical event is committed with a row of `alert_outbox`. A dispatcher claims
a due row, posts it and writes the outcome, each in a transaction of its own; a
claim is a lease, since it only puts the next attempt five minutes off. Rows are
keyed by the event id. Every statement names its tenant, as row security does.

Times are in microseconds; `now()` is the time at which the transaction began.
The signature of the post and the checks of the configuration are left out.
-/
namespace BlackMonolith.Dashboard
open Library

inductive DeliveryStatus
  | pending
  | delivered
  | dead
deriving Repr, DecidableEq

/-- A row of `alert_outbox`. -/
structure AlertRow where
  tenantId : Identity
  payload : MonolithEvent
  status : DeliveryStatus
  attempts : ℕ
  nextAttemptAt : ℕ
  lastError : Option JsString
  createdAt : ℕ
  deliveredAt : Option ℕ

abbrev AlertTable := InsertionMap JsString AlertRow

def second : ℕ := 1000000
def maxDeliveryAttempts : ℕ := 10

/-- The row of a new job. -/
def newAlert (now : ℕ) (event : MonolithEvent) : AlertRow where
  tenantId := event.tenantId
  payload := event
  status := .pending
  attempts := 0
  nextAttemptAt := now
  lastError := none
  createdAt := now
  deliveredAt := none

/-- `enqueueAlertJob` of an event as it was persisted. -/
def enqueueAlertJob (now : ℕ) (event : MonolithEvent) (alerts : AlertTable) : AlertTable :=
  if alerts.has event.eventId then alerts else alerts.set event.eventId (newAlert now event)

/-! ## The dispatcher -/

/-- A claimed row, with the attempts as the claim left them. -/
structure ClaimedAlert where
  tenant : JsString
  eventId : JsString
  payload : MonolithEvent
  attempts : ℕ

/-- The `where` clause of the updates. -/
def ofEvent (tenant eventId id : JsString) (row : AlertRow) : Bool :=
  row.tenantId.text = tenant && id = eventId

def AlertRow.due (tenant : JsString) (now : ℕ) (row : AlertRow) : Bool :=
  row.tenantId.text = tenant && row.status = .pending && row.nextAttemptAt ≤ now

/-- The order in which due rows are taken. -/
def claimsBefore (a b : JsString × AlertRow) : Prop :=
  a.2.nextAttemptAt < b.2.nextAttemptAt ∨
    (a.2.nextAttemptAt = b.2.nextAttemptAt ∧ a.2.createdAt ≤ b.2.createdAt)

instance : DecidableRel claimsBefore := fun _ _ => inferInstanceAs (Decidable (_ ∨ _))

/-- The first due row that no other transaction has locked. -/
def claimable (locked : List JsString) (tenant : JsString) (now : ℕ) (alerts : AlertTable) :
    Option (JsString × AlertRow) :=
  ((alerts.entries.filter fun e => e.2.due tenant now && !locked.contains e.1).insertionSort
    claimsBefore).head?

def AlertRow.claimed (now : ℕ) (row : AlertRow) : AlertRow :=
  { row with
    attempts := row.attempts + 1
    nextAttemptAt := now + 300 * second
    lastError := none }

def claim (locked : List JsString) (tenant : JsString) (now : ℕ) (alerts : AlertTable) :
    Option (ClaimedAlert × AlertTable) :=
  (claimable locked tenant now alerts).map fun selected =>
    (⟨tenant, selected.1, selected.2.payload, selected.2.attempts + 1⟩,
      alerts.updateWhere (ofEvent tenant selected.1) (·.claimed now))

/-- The answer of the webhook, or the error of a request that got none. -/
inductive WebhookAnswer
  | status (code : ℕ)
  | failure (error : JsString)
deriving Repr, DecidableEq

/-- `response.ok`. -/
def responseOk (code : ℕ) : Bool := 200 ≤ code && code < 300

def isRetryable (code : ℕ) : Bool := code == 408 || code == 429 || 500 ≤ code

def WebhookAnswer.isPermanent : WebhookAnswer → Bool
  | .status code => !responseOk code && !isRetryable code
  | .failure _ => false

/-- What `deliver` writes. -/
inductive AlertOutcome
  | delivered
  | failed (message : JsString) (permanent : Bool)
deriving Repr, DecidableEq

def WebhookAnswer.outcome : WebhookAnswer → AlertOutcome
  | .status code =>
      if responseOk code then .delivered
      else .failed (.ofString s!"HTTP {code}") !isRetryable code
  | .failure error => .failed error false

def AlertRow.markDelivered (now : ℕ) (row : AlertRow) : AlertRow :=
  { row with status := .delivered, deliveredAt := some now, lastError := none }

/-- Whether `markFailed` gives up on a claim. -/
def ClaimedAlert.exhausted (alert : ClaimedAlert) (permanent : Bool) : Bool :=
  permanent || maxDeliveryAttempts ≤ alert.attempts

def AlertRow.markFailed (alert : ClaimedAlert) (message : JsString) (permanent : Bool) (now : ℕ)
    (row : AlertRow) : AlertRow :=
  { row with
    status := if alert.exhausted permanent then .dead else .pending
    nextAttemptAt := now + min 300 (2 ^ min alert.attempts 8) * second
    lastError := some (JsString.toWellFormed ⟨message.units.take 512⟩) }

def AlertOutcome.write (alert : ClaimedAlert) (now : ℕ) : AlertOutcome → AlertRow → AlertRow
  | .delivered => AlertRow.markDelivered now
  | .failed message permanent => AlertRow.markFailed alert message permanent now

/-- The update of an outcome: it asks for the event, not for the state it is in. -/
def writeOutcome (alert : ClaimedAlert) (now : ℕ) (outcome : AlertOutcome) (alerts : AlertTable) :
    AlertTable :=
  alerts.updateWhere (ofEvent alert.tenant alert.eventId) (outcome.write alert now)

/-! ## Operators and pruning -/

/-- The alerts of `replayDeadLetters`. -/
def AlertRow.deadOf (tenant : JsString) (row : AlertRow) : Bool :=
  row.tenantId.text = tenant && row.status = .dead

def AlertRow.replayed (now : ℕ) (row : AlertRow) : AlertRow :=
  { row with status := .pending, attempts := 0, nextAttemptAt := now, lastError := none }

def replayDeadAlerts (tenant : JsString) (now : ℕ) (alerts : AlertTable) : AlertTable :=
  alerts.updateWhere (fun _ row => row.deadOf tenant) (·.replayed now)

/-- The rows `prune_alert_deliveries` deletes, given the time before which they
were created. -/
def AlertRow.prunable (tenant : JsString) (cutoff : ℤ) (row : AlertRow) : Bool :=
  row.tenantId.text = tenant && (row.status = .delivered || row.status = .dead) &&
    (row.createdAt : ℤ) < cutoff

def pruneAlertDeliveries (tenant : JsString) (cutoff : ℤ) (alerts : AlertTable) : AlertTable :=
  alerts.filter fun _ row => !row.prunable tenant cutoff

/-- The cascade of deleted events. -/
def deleteAlertsOf (eventIds : List JsString) (alerts : AlertTable) : AlertTable :=
  alerts.filter fun id _ => !eventIds.contains id

end BlackMonolith.Dashboard
