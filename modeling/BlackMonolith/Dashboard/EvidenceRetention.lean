import BlackMonolith.Dashboard.AlertOutbox
import BlackMonolith.Dashboard.IncidentQueue

/-!
# Evidence retention

`prune_security_events` deletes old events of one tenant, and the foreign keys
carry the deletion on to triage, audit and alert rows. It spares an event with a
triage row that is not resolved. The queue takes an event without a triage row
for a new one, which the deletion does not.

An `interval` compares by its span, with months of thirty days; subtracting one
from a time depends on the calendar and is a parameter. The setting that lets the
cascade pass the append-only trigger ends with the transaction.
-/
namespace BlackMonolith.Dashboard
open Library

/-! ## Counts of the queue -/

/-- `coalesce(t.status, 'new')`. -/
def triageStatus (triage : Option TriageRow) : IncidentStatus :=
  (triage.map (·.status)).getD .new

structure IncidentCounts where
  new : ℕ
  acknowledged : ℕ
  resolved : ℕ
deriving Repr, DecidableEq

/-- `counts.open`. -/
def IncidentCounts.unresolved (counts : IncidentCounts) : ℕ := counts.new + counts.acknowledged

def IncidentCounts.all (counts : IncidentCounts) : ℕ := counts.unresolved + counts.resolved

def Ledger.countOf (ledger : Ledger) (tenantId : Identity) (status : IncidentStatus) : ℕ :=
  ledger.events.values.countP fun row =>
    row.event.tenantId = tenantId.toWellFormed &&
      triageStatus (ledger.triage.get? row.event.eventId) = status

def Ledger.incidentCounts (ledger : Ledger) (tenantId : Identity) : IncidentCounts where
  new := ledger.countOf tenantId .new
  acknowledged := ledger.countOf tenantId .acknowledged
  resolved := ledger.countOf tenantId .resolved

/-- What the queue lists as open: a missing row counts as a new one. -/
def isOpen (triage : Option TriageRow) : Bool :=
  triageStatus triage = .new || triageStatus triage = .acknowledged

/-- The queue without filters of its own selects the open rows of the tenant. -/
theorem selects_open (search : TextSearch) (tenantId : Identity) (row : EventRow)
    (triage : Option TriageRow) :
    selects search { tenantId } row triage =
      (row.event.tenantId = tenantId.toWellFormed && isOpen triage) := by
  simp only [selects, Option.getD_none, Option.all_none, Bool.and_true]
  rfl

theorem countP_open {rows : List EventRow} (ofTenant : EventRow → Bool)
    (status : EventRow → IncidentStatus) :
    rows.countP (fun row => ofTenant row && status row = .new) +
        rows.countP (fun row => ofTenant row && status row = .acknowledged) =
      rows.countP fun row => ofTenant row && (status row = .new || status row = .acknowledged) := by
  induction rows with
  | nil => rfl
  | cons row rows ih =>
      simp only [List.countP_cons]
      cases ofTenant row with
      | false =>
          simp only [Bool.false_and, Bool.false_eq_true, if_false]
          omega
      | true =>
          cases status row <;> simp only [Bool.true_and, reduceCtorEq, decide_true, decide_false,
            Bool.or_false, Bool.or_true, Bool.false_eq_true, if_true, if_false] <;> omega

/-- The tabs count as open what the queue lists as open. -/
theorem incidentCounts_unresolved (search : TextSearch) (ledger : Ledger) (tenantId : Identity) :
    (ledger.incidentCounts tenantId).unresolved =
      (ledger.queue search { tenantId }).length := by
  simp only [Ledger.queue, List.length_insertionSort, ← List.countP_eq_length_filter, selects_open]
  exact countP_open _ _

/-- The open events are those the queue lists without filters, and the tabs count them. -/
structure Ledger.ListsOpen (ledger : Ledger) : Prop where
  listed : ∀ (search : TextSearch) (tenantId : Identity) (row : EventRow),
    row ∈ ledger.queue search { tenantId } ↔ row ∈ ledger.events.values ∧
      row.event.tenantId = tenantId.toWellFormed ∧
        isOpen (ledger.triage.get? row.event.eventId) = true
  counted : ∀ (search : TextSearch) (tenantId : Identity),
    (ledger.incidentCounts tenantId).unresolved = (ledger.queue search { tenantId }).length

theorem Ledger.listsOpen (ledger : Ledger) : ledger.ListsOpen where
  listed search tenantId row := by
    rw [Ledger.queue, List.mem_insertionSort, List.mem_filter, selects_open, Bool.and_eq_true,
      decide_eq_true_iff]
  counted search tenantId := incidentCounts_unresolved search ledger tenantId

/-! ## Pruning -/

/-- An `interval` of the database. -/
structure Interval where
  months : ℤ
  days : ℤ
  microseconds : ℤ
deriving Repr, DecidableEq

/-- The value two intervals are compared by. -/
def Interval.span (interval : Interval) : ℤ :=
  (interval.months * 30 + interval.days) * 86400000000 + interval.microseconds

def Interval.oneDay : Interval := ⟨0, 1, 0⟩
def Interval.tenYears : Interval := ⟨120, 0, 0⟩

/-- The evidence of all tenants: the ledger, the audit trails and the alerts. -/
structure EvidenceStore where
  ledger : Ledger
  audit : List (JsString × AuditRow)
  alerts : AlertTable

def tenantError : String := "prune_tenant must be a tenant identifier of 1 to 128 characters"
def retainError : String := "retain_for must be between 1 day and 10 years"

section
variable (subtract : ℕ → Interval → ℤ) (now : ℕ) (pruneTenant : Option JsString)
  (retainFor : Option Interval)

/-- An event of the tenant that is older than the interval; a comparison with
null is not true. -/
def EventRow.expired (row : EventRow) : Bool :=
  pruneTenant = some row.event.tenantId.text &&
    retainFor.any fun interval => (row.receivedAt : ℤ) < subtract now interval

/-- The `exists` of the deletion. -/
def underInvestigation (triage : Option TriageRow) : Bool := triage.any (·.status ≠ .resolved)

def Ledger.prunes (ledger : Ledger) (row : EventRow) : Bool :=
  row.expired subtract now pruneTenant retainFor &&
    !underInvestigation (ledger.triage.get? row.event.eventId)

end

/-- Deleting events with the triage rows that refer to them. -/
def Ledger.deleteWhere (ledger : Ledger) (p : EventRow → Bool) : Ledger where
  events := ledger.events.filter fun _ row => !p row
  triage := ledger.triage.filter fun id _ => !(ledger.events.get? id).any p
  keyed := by
    intro id row h
    rw [InsertionMap.get?_filter] at h
    exact ledger.keyed id row (Option.filter_eq_some_iff.mp h).1
  uuids := by
    intro id row h
    rw [InsertionMap.get?_filter] at h
    exact ledger.uuids id row (Option.filter_eq_some_iff.mp h).1

/-- The deletion and its cascades. -/
def EvidenceStore.deleteWhere (store : EvidenceStore) (p : EventRow → Bool) : EvidenceStore where
  ledger := store.ledger.deleteWhere p
  audit := store.audit.filter fun entry => !(store.ledger.events.get? entry.1).any p
  alerts := deleteAlertsOf ((store.ledger.events.values.filter p).map (·.event.eventId)) store.alerts

/-- `prune_security_events`, with the number of events removed. -/
def pruneSecurityEvents (subtract : ℕ → Interval → ℤ) (now : ℕ) (pruneTenant : Option JsString)
    (retainFor : Option Interval) (store : EvidenceStore) : Except String (ℕ × EvidenceStore) :=
  if pruneTenant.all fun tenant => tenant.codePoints < 1 || 128 < tenant.codePoints then
    .error tenantError
  else if retainFor.any fun interval =>
      interval.span < Interval.oneDay.span || Interval.tenYears.span < interval.span then
    .error retainError
  else
    let prunes := store.ledger.prunes subtract now pruneTenant retainFor
    .ok (store.ledger.events.values.countP prunes, store.deleteWhere prunes)

/-! ## What a deletion takes -/

/-- The event of an id is gone. -/
def EvidenceStore.Loses (store store' : EvidenceStore) (id : JsString) : Prop :=
  (store.ledger.events.get? id).isSome ∧ store'.ledger.events.get? id = none

section
variable {store store' : EvidenceStore} {p : EventRow → Bool} {id : JsString}

theorem get?_deleteWhere :
    (store.deleteWhere p).ledger.events.get? id =
      (store.ledger.events.get? id).filter fun row => !p row :=
  InsertionMap.get?_filter

theorem loses_deleteWhere :
    store.Loses (store.deleteWhere p) id ↔ (store.ledger.events.get? id).any p = true := by
  unfold EvidenceStore.Loses
  rw [get?_deleteWhere]
  cases store.ledger.events.get? id with
  | none => simp
  | some row => simp [Option.filter]

theorem triage_deleteWhere
    (h : (store.deleteWhere p).ledger.triage.get? id ≠ store.ledger.triage.get? id) :
    store.Loses (store.deleteWhere p) id := by
  rw [loses_deleteWhere]
  by_contra hnot
  apply h
  have hfilter : (store.deleteWhere p).ledger.triage.get? id =
      (store.ledger.triage.get? id).filter fun _ => !(store.ledger.events.get? id).any p :=
    InsertionMap.get?_filter
  rw [hfilter, Bool.eq_false_iff.mpr hnot]
  cases store.ledger.triage.get? id with
  | none => rfl
  | some row => rfl

theorem audit_deleteWhere {entry : JsString × AuditRow} (hentry : entry ∈ store.audit)
    (hgone : entry ∉ (store.deleteWhere p).audit) : store.Loses (store.deleteWhere p) entry.1 := by
  rw [loses_deleteWhere]
  by_contra hnot
  apply hgone
  exact List.mem_filter.mpr ⟨hentry, by rw [Bool.eq_false_iff.mpr hnot]; rfl⟩

/-- The ids whose alerts the cascade deletes are those of the deleted events. -/
theorem mem_deleted_ids :
    id ∈ (store.ledger.events.values.filter p).map (·.event.eventId) ↔
      (store.ledger.events.get? id).any p = true := by
  simp only [List.mem_map, List.mem_filter, InsertionMap.mem_values_iff, Option.any_eq_true]
  constructor
  · rintro ⟨row, ⟨⟨key, hrow⟩, hp⟩, rfl⟩
    exact ⟨row, (store.ledger.keyed key row hrow).symm ▸ hrow, hp⟩
  · rintro ⟨row, hrow, hp⟩
    exact ⟨row, ⟨⟨id, hrow⟩, hp⟩, store.ledger.keyed id row hrow⟩

theorem alerts_deleteWhere :
    (store.deleteWhere p).alerts.get? id =
      if (store.ledger.events.get? id).any p = true then none else store.alerts.get? id := by
  have hfilter : (store.deleteWhere p).alerts.get? id =
      (store.alerts.get? id).filter fun _ =>
        !((store.ledger.events.values.filter p).map (·.event.eventId)).contains id :=
    InsertionMap.get?_filter
  rw [hfilter]
  split_ifs with h
  · rw [List.contains_iff_mem.mpr (mem_deleted_ids.mpr h)]
    exact Option.filter_eq_none_iff.mpr fun _ _ => by simp
  · have hnot : ((store.ledger.events.values.filter p).map (·.event.eventId)).contains id = false :=
      Bool.eq_false_iff.mpr fun hmem => h (mem_deleted_ids.mp (List.contains_iff_mem.mp hmem))
    rw [hnot]
    cases store.alerts.get? id with
    | none => rfl
    | some row => rfl

end

/-! ## Open investigations -/

/-- Only expired events go that the queue does not list as open, with them their
own triage and audit rows, and nothing else. -/
structure DeletesClosed (expired : EventRow → Bool) (store store' : EvidenceStore) : Prop where
  events : ∀ id row, store.ledger.events.get? id = some row →
    store'.ledger.events.get? id = none →
      expired row = true ∧ isOpen (store.ledger.triage.get? id) = false
  kept : ∀ id row, store'.ledger.events.get? id = some row →
    store.ledger.events.get? id = some row
  triage : ∀ id, store'.ledger.triage.get? id ≠ store.ledger.triage.get? id → store.Loses store' id
  audit : ∀ entry ∈ store.audit, entry ∉ store'.audit → store.Loses store' entry.1
  auditKept : store'.audit.Sublist store.audit
  alerts : ∀ id, store'.alerts.get? id = store.alerts.get? id

section
variable {subtract : ℕ → Interval → ℤ} {now : ℕ} {pruneTenant : Option JsString}
  {retainFor : Option Interval} {store store' : EvidenceStore} {removed : ℕ}

/-- The subquery spares what is open, but for the missing row. -/
theorem underInvestigation_iff {triage : Option TriageRow} :
    underInvestigation triage = true ↔ isOpen triage = true ∧ triage ≠ none := by
  cases triage with
  | none => simp [underInvestigation]
  | some row => cases hstatus : row.status <;> simp [underInvestigation, isOpen, triageStatus, hstatus]

theorem prunes_iff {id : JsString} {row : EventRow}
    (hrow : store.ledger.events.get? id = some row) :
    store.ledger.prunes subtract now pruneTenant retainFor row = true ↔
      row.expired subtract now pruneTenant retainFor = true ∧
        (isOpen (store.ledger.triage.get? id) = true → store.ledger.triage.get? id = none) := by
  unfold Ledger.prunes
  rw [store.ledger.keyed id row hrow, Bool.and_eq_true, Bool.not_eq_true', Bool.eq_false_iff, ne_eq,
    underInvestigation_iff, not_and, not_not]

theorem pruneSecurityEvents_store
    (h : pruneSecurityEvents subtract now pruneTenant retainFor store = .ok (removed, store')) :
    store' = store.deleteWhere (store.ledger.prunes subtract now pruneTenant retainFor) := by
  unfold pruneSecurityEvents at h
  split_ifs at h
  cases h
  rfl

/-- The prune leaves open investigations, which are those of the queue, alone exactly when
every expired event has a triage row, and no closed one still has an alert. -/
theorem retention_keeps_open_iff
    (h : pruneSecurityEvents subtract now pruneTenant retainFor store = .ok (removed, store')) :
    store.ledger.ListsOpen ∧
    (DeletesClosed (EventRow.expired subtract now pruneTenant retainFor) store store' ↔
      ∀ id row, store.ledger.events.get? id = some row →
        row.expired subtract now pruneTenant retainFor = true →
          store.ledger.triage.get? id ≠ none ∧
            (isOpen (store.ledger.triage.get? id) = false → store.alerts.get? id = none)) := by
  refine ⟨store.ledger.listsOpen, ?_⟩
  obtain rfl := pruneSecurityEvents_store h
  constructor
  · intro hcloses id row hrow hexpired
    constructor
    · intro hmissing
      have hprunes := (prunes_iff hrow).mpr ⟨hexpired, fun _ => hmissing⟩
      have hany : (store.ledger.events.get? id).any
          (store.ledger.prunes subtract now pruneTenant retainFor) = true := by
        rw [hrow]
        exact hprunes
      have hgone := loses_deleteWhere.mpr hany
      have hclosed := (hcloses.events id row hrow hgone.2).2
      rw [hmissing] at hclosed
      cases hclosed
    · intro hclosed
      have hprunes := (prunes_iff hrow).mpr ⟨hexpired, fun hopen => by rw [hclosed] at hopen; cases hopen⟩
      rw [← hcloses.alerts id, alerts_deleteWhere, hrow]
      exact if_pos hprunes
  · intro hcond
    have hclosed : ∀ id row, store.ledger.events.get? id = some row →
        store.ledger.prunes subtract now pruneTenant retainFor row = true →
          row.expired subtract now pruneTenant retainFor = true ∧
            isOpen (store.ledger.triage.get? id) = false := by
      intro id row hrow hprunes
      obtain ⟨hexpired, hmissing⟩ := (prunes_iff hrow).mp hprunes
      refine ⟨hexpired, Bool.eq_false_iff.mpr fun hopen => ?_⟩
      exact (hcond id row hrow hexpired).1 (hmissing hopen)
    refine ⟨?_, ?_, fun id => triage_deleteWhere, fun entry => audit_deleteWhere,
      List.filter_sublist, ?_⟩
    · intro id row hrow hgone
      have hloses : store.Loses _ id := ⟨by rw [hrow]; rfl, hgone⟩
      rw [loses_deleteWhere, hrow] at hloses
      exact hclosed id row hrow hloses
    · intro id row hrow
      rw [get?_deleteWhere] at hrow
      exact (Option.filter_eq_some_iff.mp hrow).1
    · intro id
      rw [alerts_deleteWhere]
      split_ifs with hany
      · obtain ⟨row, hrow, hprunes⟩ := (Option.any_eq_true _ _).mp hany
        obtain ⟨hexpired, hopen⟩ := hclosed id row hrow hprunes
        exact ((hcond id row hrow hexpired).2 hopen).symm
      · rfl

/-- An event received at the beginning of time. -/
def ancientEvent : MonolithEvent where
  eventId := .ofString "00000000-0000-4000-8000-000000000001"
  schemaVersion := 2
  timestampMs := 1
  receivedMs := some 0
  moduleName := .traceAudit
  eventType := .ofString "reasoning_divergence"
  severity := .critical
  details := []
  tenantId := defaultTenant
  agentId := none
  sessionId := none
  traceId := none
  correlationId := none
  resourceType := none
  resourceId := none
  outcome := none
  policyVersion := none
  source := .ofString "module"

def resolvedTriage : TriageRow where
  status := .resolved
  assignee := none
  note := none
  resolution := some .falsePositive
  updatedAt := 2
  updatedBy := .ofString "operator"

def ancientEvents : EventTable := InsertionMap.empty.set ancientEvent.eventId ⟨ancientEvent, 0⟩

theorem ancientEvents_get? {id : JsString} {row : EventRow} (h : ancientEvents.get? id = some row) :
    id = ancientEvent.eventId ∧ row = ⟨ancientEvent, 0⟩ := by
  unfold ancientEvents at h
  rw [InsertionMap.get?_set] at h
  split_ifs at h with hid
  · exact ⟨hid.symm, (Option.some.inj h).symm⟩
  · cases h

/-- The event alone, with the triage rows given. -/
def ancientStore (triage : InsertionMap JsString TriageRow) : EvidenceStore where
  ledger :=
    { events := ancientEvents
      triage
      keyed := by
        intro id row h
        obtain ⟨rfl, rfl⟩ := ancientEvents_get? h
        rfl
      uuids := by
        intro id row h
        obtain ⟨rfl, -⟩ := ancientEvents_get? h
        decide }
  audit := []
  alerts := .empty

/-- The default of `retain_for`. -/
def ninetyDays : Interval := ⟨0, 90, 0⟩

def plainSubtract (now : ℕ) (interval : Interval) : ℤ := now - interval.span

def aYear : ℕ := 365 * 86400000000

theorem retention_keeps_open_resolved :
    ∃ store', pruneSecurityEvents plainSubtract aYear (some defaultTenant.text) (some ninetyDays)
        (ancientStore (InsertionMap.empty.set ancientEvent.eventId resolvedTriage)) =
          .ok (1, store') ∧
      DeletesClosed
        (EventRow.expired plainSubtract aYear (some defaultTenant.text) (some ninetyDays))
        (ancientStore (InsertionMap.empty.set ancientEvent.eventId resolvedTriage)) store' := by
  have hprune : pruneSecurityEvents plainSubtract aYear (some defaultTenant.text)
      (some ninetyDays) (ancientStore (InsertionMap.empty.set ancientEvent.eventId resolvedTriage)) =
        .ok (1, _) := rfl
  refine ⟨_, hprune, (retention_keeps_open_iff hprune).2.mpr ?_⟩
  intro id row hrow _
  obtain ⟨rfl, -⟩ := ancientEvents_get? hrow
  exact ⟨fun hmissing => (nomatch hmissing), fun _ => rfl⟩

/-- An event nobody has triaged is open, and the prune deletes it. -/
theorem untriaged_event_deleted :
    ∃ store', pruneSecurityEvents plainSubtract aYear (some defaultTenant.text) (some ninetyDays)
        (ancientStore .empty) = .ok (1, store') ∧
      isOpen ((ancientStore .empty).ledger.triage.get? ancientEvent.eventId) = true ∧
      store'.ledger.events.get? ancientEvent.eventId = none ∧
      ¬DeletesClosed
        (EventRow.expired plainSubtract aYear (some defaultTenant.text) (some ninetyDays))
        (ancientStore .empty) store' := by
  have hprune : pruneSecurityEvents plainSubtract aYear (some defaultTenant.text)
      (some ninetyDays) (ancientStore .empty) = .ok (1, _) := rfl
  refine ⟨_, hprune, rfl, rfl, ?_⟩
  intro hcloses
  have hclosed := (hcloses.events ancientEvent.eventId ⟨ancientEvent, 0⟩ rfl rfl).2
  cases hclosed

end

end BlackMonolith.Dashboard
