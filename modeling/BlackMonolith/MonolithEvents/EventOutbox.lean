import BlackMonolith.Library.Eviction
import BlackMonolith.MonolithEvents.RevokedSessions

/-!
# The event outbox of the Python modules

Events wait in one SQLite table until the endpoint takes them. Each function
below is one transaction; a flush reads a batch, posts its rows one after the
other and records each answer in a transaction of its own. `json.loads`, the
printable code points, the clock and the jitter are parameters.
-/
namespace BlackMonolith.MonolithEvents
open Library

/-! ## The table -/

inductive Status
  | pending
  | dead
deriving Repr, DecidableEq

abbrev Payload := List UInt8

structure Row where
  eventId : PyString
  payload : Payload
  attempts : ℕ := 0
  nextAttemptMs : ℕ
  status : Status := .pending
  lastError : Option String := none
  createdMs : ℕ
  updatedMs : ℕ
  tenantId : Option PyString
deriving Repr, DecidableEq

/-- The rows of `event_outbox`, whose primary key is the event id. -/
structure Table where
  rows : List Row := []
  unique : (rows.map Row.eventId).Nodup := by decide

namespace Table

def ids (table : Table) : List PyString := table.rows.map Row.eventId

def insertOrIgnore (table : Table) (row : Row) : Table :=
  if h : row.eventId ∈ table.ids then table
  else
    { rows := table.rows ++ [row]
      unique := by
        rw [List.map_append, List.map_singleton]
        exact List.nodup_append.mpr ⟨table.unique, List.nodup_singleton _, by
          intro id hid other hother heq
          rw [List.mem_singleton.mp hother] at heq
          exact h (heq ▸ hid)⟩ }

def delete (table : Table) (p : Row → Bool) : Table where
  rows := table.rows.filter (!p ·)
  unique := List.Nodup.sublist (List.filter_sublist.map _) table.unique

/-- An update that leaves the key alone. -/
def update (table : Table) (p : Row → Bool) (f : Row → Row) (hf : ∀ r, (f r).eventId = r.eventId) :
    Table where
  rows := table.rows.map fun r => if p r then f r else r
  unique := by
    have hids : (table.rows.map fun r => if p r then f r else r).map Row.eventId =
        table.rows.map Row.eventId := by
      rw [List.map_map]
      refine List.map_congr_left fun r _ => ?_
      dsimp only [Function.comp_apply]
      split
      · exact hf r
      · rfl
    rw [hids]
    exact table.unique

def withStatus (table : Table) (status : Status) : List Row :=
  table.rows.filter (·.status = status)

end Table

/-! ## Limits -/

def permanentHttpStatuses : List ℕ := [400, 401, 403, 413, 422]
def maxEventPayloadBytes : ℕ := 256 * 1024
def batchSize : ℕ := 16

/-- The bounds an outbox is opened with. -/
structure Limits where
  maxAttempts : ℕ := 12
  maxPending : ℕ := 10000
  maxDead : ℕ := 2000
  deadRetentionMs : ℕ := 7 * 24 * 60 * 60 * 1000
  positive : 1 ≤ min maxAttempts (min maxPending (min maxDead deadRetentionMs)) := by decide

/-- The table after its limits have been enforced, and the rows they have deleted. -/
structure Trimmed where
  table : Table
  deleted : List Row

section
variable (limits : Limits) (scan : Scan Row) (timestamp : ℕ)

def expired (row : Row) : Bool :=
  row.status = .dead && row.updatedMs + limits.deadRetentionMs < timestamp

/-- A row that is dead for want of room. -/
def displaced (row : Row) : Row :=
  { row with
    status := .dead
    lastError := some "outbox_capacity"
    updatedMs := timestamp }

theorem displaced_eventId (row : Row) : (displaced timestamp row).eventId = row.eventId := rfl

/-- The oldest pending rows over the bound die. -/
def evictPending (table : Table) : Table :=
  let overflow := (table.withStatus .pending).length - limits.maxPending
  let evicted := (scan.oldest Row.createdMs overflow (table.withStatus .pending)).map Row.eventId
  table.update (·.eventId ∈ evicted) (displaced timestamp) (displaced_eventId timestamp)

/-- The ids of the oldest dead rows over the bound. -/
def surplusDead (table : Table) : List PyString :=
  let overflow := (table.withStatus .dead).length - limits.maxDead
  (scan.oldest Row.updatedMs overflow (table.withStatus .dead)).map Row.eventId

/-- `_enforce_limits_locked`. -/
def enforceLimits (table : Table) : Trimmed :=
  let retained := table.delete (expired limits timestamp)
  let evicted := evictPending limits scan timestamp retained
  let surplus := surplusDead limits scan evicted
  ⟨evicted.delete (·.eventId ∈ surplus),
    table.rows.filter (expired limits timestamp) ++ evicted.rows.filter (·.eventId ∈ surplus)⟩

end

/-! ## Enqueueing -/

inductive EnqueueError
  | valueError (message : String)
  | unicodeEncodeError
deriving Repr, DecidableEq

/-- What the module takes from the language. -/
structure Runtime where
  isPrintable : CodePoint → Bool
  loads : Payload → Option PyJson

section
variable (py : Runtime)

def pyValue : Option PyJson → PyValue
  | some (.str s) => .str s
  | _ => .other

/-- `_tenant_of_payload`. -/
def tenantOfPayload (payload : Payload) : Except UnicodeEncodeError (Option PyString) :=
  match py.loads payload with
  | some (.dict members) => cleanId py.isPrintable (pyValue (PyJson.get members "tenant_id"))
  | _ => .ok none

/-- The tenant a row is stored with. -/
def rowTenant (payload : Payload) (tenantId : Option PyString) :
    Except UnicodeEncodeError (Option PyString) := do
  match ← tenantId.elim (.ok none) fun id => cleanId py.isPrintable (.str id) with
  | some tenant => .ok (some tenant)
  | none => tenantOfPayload py payload

/-- `_backfill_tenant_ids`, on one row. -/
def backfillTenantId (row : Row) : Except UnicodeEncodeError Row :=
  match row.tenantId with
  | some _ => .ok row
  | none => (tenantOfPayload py row.payload).map fun tenant => { row with tenantId := tenant }

/-- The checks of `enqueue`, and the row it inserts. -/
def newRow (eventId : PyString) (payload : Payload) (tenantId : Option PyString) (now : ℕ) :
    Except EnqueueError Row :=
  if eventId.points = [] then .error (.valueError "event_id must be 1-128 printable characters")
  else
    match eventId.encodedLength with
    | .error _ => .error .unicodeEncodeError
    | .ok length =>
        if maxIdLength < length || eventId.points.any (!py.isPrintable ·) then
          .error (.valueError "event_id must be 1-128 printable characters")
        else if payload = [] ∨ maxEventPayloadBytes < payload.length then
          .error (.valueError "event payload must be 1-262144 bytes")
        else
          match rowTenant py payload tenantId with
          | .error _ => .error .unicodeEncodeError
          | .ok tenant =>
              .ok
                { eventId
                  payload
                  nextAttemptMs := now
                  createdMs := now
                  updatedMs := now
                  tenantId := tenant }

def enqueue (limits : Limits) (scan : Scan Row) (eventId : PyString) (payload : Payload)
    (tenantId : Option PyString) (now : ℕ) (table : Table) : Except EnqueueError Trimmed :=
  (newRow py eventId payload tenantId now).map fun row =>
    enforceLimits limits scan now (table.insertOrIgnore row)

end

/-! ## Flushing -/

/-- What a flush has read of a row. -/
structure Batched where
  eventId : PyString
  payload : Payload
  attempts : ℕ
deriving Repr, DecidableEq

/-- What `_post` returns: a status, 0 when there was no answer, and an error text. -/
structure Answer where
  status : ℕ
  error : String
deriving Repr, DecidableEq

def Answer.accepted (answer : Answer) : Bool := 200 ≤ answer.status && answer.status < 300

def due (timestamp : ℕ) (row : Row) : Bool :=
  row.status = .pending && row.nextAttemptMs ≤ timestamp

def selectBatch (scan : Scan Row) (timestamp : ℕ) (table : Table) : List Batched :=
  (scan.oldest Row.nextAttemptMs batchSize (table.rows.filter (due timestamp))).map fun r =>
    ⟨r.eventId, r.payload, r.attempts⟩

/-- The pause before the next attempt, without its jitter. -/
def delayMs (nextAttempt : ℕ) : ℕ := min 300000 (2 ^ min nextAttempt 8 * 1000)

section
variable (limits : Limits) (scan : Scan Row) (timestamp jitter : ℕ)

/-- A row that was refused for good, or once too often. -/
def exhausted (nextAttempt : ℕ) (error : String) (row : Row) : Row :=
  { row with
    status := .dead
    attempts := nextAttempt
    lastError := some (if error = "" then s!"delivery attempts exhausted ({nextAttempt})" else error)
    updatedMs := timestamp }

theorem exhausted_eventId (nextAttempt : ℕ) (error : String) (row : Row) :
    (exhausted timestamp nextAttempt error row).eventId = row.eventId := rfl

/-- A row that waits for another attempt; its status is what it is. -/
def deferred (nextAttempt : ℕ) (error : String) (row : Row) : Row :=
  { row with
    attempts := nextAttempt
    nextAttemptMs := timestamp + (delayMs nextAttempt + jitter)
    lastError := some error
    updatedMs := timestamp }

theorem deferred_eventId (nextAttempt : ℕ) (error : String) (row : Row) :
    (deferred timestamp jitter nextAttempt error row).eventId = row.eventId := rfl

/-- An accepted row goes, a refused or exhausted one dies and any other waits,
whatever has become of it since it was read. -/
def recordAnswer (item : Batched) (answer : Answer) (table : Table) : Table :=
  let nextAttempt := item.attempts + 1
  if answer.accepted then table.delete (·.eventId = item.eventId)
  else if answer.status ∈ permanentHttpStatuses ∨ limits.maxAttempts ≤ nextAttempt then
    table.update (·.eventId = item.eventId) (exhausted timestamp nextAttempt answer.error)
      (exhausted_eventId timestamp nextAttempt answer.error)
  else
    table.update (·.eventId = item.eventId) (deferred timestamp jitter nextAttempt answer.error)
      (deferred_eventId timestamp jitter nextAttempt answer.error)

/-- The transaction that records one answer of a flush. -/
def settle (item : Batched) (answer : Answer) (table : Table) : Trimmed :=
  enforceLimits limits scan timestamp (recordAnswer limits timestamp jitter item answer table)

end

/-- The answers and jitters of a flush are those of the posts it makes, by their position. -/
def flushOnce (limits : Limits) (scan : Scan Row) (timestamp : ℕ) (post : ℕ → Answer × ℕ)
    (table : Table) : Table :=
  (selectBatch scan timestamp table).zipIdx.foldl (fun table p =>
    (settle limits scan timestamp (post p.2).2 p.1 (post p.2).1 table).table) table

/-! ## Replaying -/

/-- The tenant a replay is for; none is every tenant. -/
def replayScope (py : Runtime) (tenantId : Option PyString) :
    Except EnqueueError (Option PyString) :=
  match tenantId with
  | none => .ok none
  | some id =>
      match cleanId py.isPrintable (.str id) with
      | .error _ => .error .unicodeEncodeError
      | .ok none => .error (.valueError "tenant must be 1-128 printable characters")
      | .ok (some tenant) => .ok (some tenant)

/-- The dead rows of a scope. -/
def replayed (scope : Option PyString) (row : Row) : Bool :=
  row.status = .dead && scope.all (row.tenantId = some ·)

/-- A replayed row starts over. -/
def revived (now : ℕ) (row : Row) : Row :=
  { row with
    status := .pending
    attempts := 0
    nextAttemptMs := 0
    lastError := none
    updatedMs := now }

theorem revived_eventId (now : ℕ) (row : Row) : (revived now row).eventId = row.eventId := rfl

/-- The rows that become pending again, and the count the caller is told. -/
def replayDeadLetters (py : Runtime) (tenantId : Option PyString) (now : ℕ) (table : Table) :
    Except EnqueueError (Table × ℕ) :=
  (replayScope py tenantId).map fun scope =>
    (table.update (replayed scope) (revived now) (revived_eventId now),
      (table.rows.filter (replayed scope)).length)

end BlackMonolith.MonolithEvents
