import Mathlib.Data.List.Sort
import Mathlib.Data.Prod.Lex
import Mathlib.Logic.Function.Basic
import BlackMonolith.Dashboard.EventStore

/-!
# Triage and its audit trail

A transition of one incident writes the triage row and appends an entry to the
audit trail, in one transaction. A transaction takes the advisory lock of the
event before it reads and keeps it until it ends; what it wrote is visible to
others once it commits, and a failing statement rolls it back. `now()` is the
time at which the transaction began, and the times of both rows are that one.
Entries of other incidents draw on the same sequence.
-/
namespace BlackMonolith.Dashboard
open Library

inductive IncidentStatus
  | new
  | acknowledged
  | resolved
deriving Repr, DecidableEq

inductive Resolution
  | truePositive
  | falsePositive
  | benign
  | duplicate
deriving Repr, DecidableEq

/-- A checked transition, with the actor of the credential. -/
structure Transition where
  status : IncidentStatus
  actor : JsString
  assignee : Option JsString
  note : Option JsString
  resolution : Option Resolution
deriving Repr, DecidableEq

/-- A row of `incident_triage`; its times are in microseconds. -/
structure TriageRow where
  status : IncidentStatus
  assignee : Option JsString
  note : Option JsString
  resolution : Option Resolution
  updatedAt : ℕ
  updatedBy : JsString
deriving Repr, DecidableEq

/-- A triage row as an incident shows it. -/
structure Triage where
  status : IncidentStatus
  assignee : Option JsString
  note : Option JsString
  resolution : Option Resolution
  updatedMs : ℕ
  updatedBy : JsString
deriving Repr, DecidableEq

/-- A row of `incident_audit`. -/
structure AuditRow where
  auditId : ℕ
  atTime : ℕ
  actor : JsString
  fromStatus : Option IncidentStatus
  toStatus : IncidentStatus
  assignee : Option JsString
  resolution : Option Resolution
  note : Option JsString
deriving Repr, DecidableEq

structure AuditEntry where
  auditId : ℕ
  atMs : ℕ
  actor : JsString
  fromStatus : Option IncidentStatus
  toStatus : IncidentStatus
  assignee : Option JsString
  resolution : Option Resolution
  note : Option JsString
deriving Repr, DecidableEq

/-- Milliseconds, rounded as the cast to `bigint` does. -/
def toMs (time : ℕ) : ℕ := (time + 500) / 1000

def toTriage (row : TriageRow) : Triage where
  status := row.status
  assignee := row.assignee
  note := row.note
  resolution := row.resolution
  updatedMs := toMs row.updatedAt
  updatedBy := row.updatedBy

/-! ## The store in memory -/

/-- The triage of one incident, its trail, newest first, and the last audit id. -/
structure MemoryDesk where
  triage : Option Triage
  trail : List AuditEntry
  lastAuditId : ℕ
deriving Repr, DecidableEq

def MemoryDesk.init : MemoryDesk := ⟨none, [], 0⟩

/-- `applyTransition` without a database, at a time in milliseconds. -/
def MemoryDesk.applyTransition (s : MemoryDesk) (t : Transition) (now : ℕ) : MemoryDesk :=
  let triage : Triage :=
    { status := t.status
      assignee := t.assignee.or (s.triage.bind (·.assignee))
      note := t.note.or (s.triage.bind (·.note))
      resolution := t.resolution
      updatedMs := now
      updatedBy := t.actor }
  let entry : AuditEntry :=
    { auditId := s.lastAuditId + 1
      atMs := now
      actor := t.actor
      fromStatus := s.triage.map (·.status)
      toStatus := t.status
      assignee := triage.assignee
      resolution := t.resolution
      note := t.note }
  ⟨some triage, entry :: s.trail, s.lastAuditId + 1⟩

/-! ## The transaction -/

/-- The upsert: an omitted assignee or note stays, the resolution is replaced. -/
def upsertTriage (existing : Option TriageRow) (t : Transition) (now : ℕ) : TriageRow where
  status := t.status
  assignee := t.assignee.or (existing.bind (·.assignee))
  note := t.note.or (existing.bind (·.note))
  resolution := t.resolution
  updatedAt := now
  updatedBy := t.actor

/-- The entry records the assignee that results. -/
def auditRow (auditId now : ℕ) (fromStatus : Option IncidentStatus) (t : Transition)
    (row : TriageRow) : AuditRow where
  auditId := auditId
  atTime := now
  actor := t.actor
  fromStatus := fromStatus
  toStatus := t.status
  assignee := row.assignee
  resolution := t.resolution
  note := t.note

/-- How far a call of `applyTransition` has come. -/
inductive Phase
  | begun
  | locked
  | read (fromStatus : Option IncidentStatus)
  | upserted (fromStatus : Option IncidentStatus) (row : TriageRow)
  | audited (row : TriageRow) (entry : AuditRow)
deriving Repr, DecidableEq

structure Transaction where
  transition : Transition
  start : ℕ
  phase : Phase
deriving Repr, DecidableEq

/-- The committed rows of one incident, oldest audit row last, the advisory lock
of its event, the sequence of the audit ids and the open transactions. -/
structure Desk where
  triage : Option TriageRow
  audit : List AuditRow
  sequence : ℕ
  holder : Option ℕ
  transactions : ℕ → Option Transaction

def Desk.init : Desk := ⟨none, [], 1, none, fun _ => none⟩

inductive Action
  | start (id : ℕ) (t : Transition) (now : ℕ)
  | lock (id : ℕ)
  | select (id : ℕ)
  | upsert (id : ℕ)
  | append (id : ℕ)
  | commit (id : ℕ)
  | rollback (id : ℕ)
  | elsewhere
deriving Repr, DecidableEq

def Desk.enter (s : Desk) (id : ℕ) (tx : Transaction) (phase : Phase) : Desk :=
  { s with transactions := Function.update s.transactions id (some { tx with phase }) }

/-- The end of a transaction releases its lock. -/
def Desk.close (s : Desk) (id : ℕ) : Desk :=
  { s with
    holder := if s.holder = some id then none else s.holder
    transactions := Function.update s.transactions id none }

/-- One statement of one transaction; `none` while it cannot be executed. -/
def Desk.step (s : Desk) : Action → Option Desk
  | .start id t now =>
      match s.transactions id with
      | none => some (s.enter id ⟨t, now, .begun⟩ .begun)
      | some _ => none
  | .lock id =>
      match s.transactions id, s.holder with
      | some tx, none =>
          if tx.phase = .begun then some { s.enter id tx .locked with holder := some id } else none
      | _, _ => none
  | .select id =>
      match s.transactions id with
      | some tx =>
          if tx.phase = .locked then some (s.enter id tx (.read (s.triage.map (·.status))))
          else none
      | none => none
  | .upsert id =>
      match s.transactions id with
      | some tx =>
          match tx.phase with
          | .read fromStatus =>
              some (s.enter id tx
                (.upserted fromStatus (upsertTriage s.triage tx.transition tx.start)))
          | _ => none
      | none => none
  | .append id =>
      match s.transactions id with
      | some tx =>
          match tx.phase with
          | .upserted fromStatus row =>
              let entry := auditRow s.sequence tx.start fromStatus tx.transition row
              some { s.enter id tx (.audited row entry) with sequence := s.sequence + 1 }
          | _ => none
      | none => none
  | .commit id =>
      match s.transactions id with
      | some tx =>
          match tx.phase with
          | .audited row entry => some { s.close id with triage := some row, audit := entry :: s.audit }
          | _ => none
      | none => none
  | .rollback id =>
      match s.transactions id with
      | some _ => some (s.close id)
      | none => none
  | .elsewhere => some { s with sequence := s.sequence + 1 }

def Desk.run (s : Desk) (actions : List Action) : Option Desk := actions.foldlM Desk.step s

/-! ## The trail -/

def toEntry (row : AuditRow) : AuditEntry where
  auditId := row.auditId
  atMs := toMs row.atTime
  actor := row.actor
  fromStatus := row.fromStatus
  toStatus := row.toStatus
  assignee := row.assignee
  resolution := row.resolution
  note := row.note

/-- `order by at desc, audit_id desc`. -/
def displayed (a b : AuditRow) : Prop := toLex (b.atTime, b.auditId) ≤ toLex (a.atTime, a.auditId)

instance : DecidableRel displayed := fun _ _ => inferInstanceAs (Decidable (_ ≤ _))

def Desk.getAuditTrail (s : Desk) : List AuditEntry :=
  (s.audit.insertionSort displayed).map toEntry

end BlackMonolith.Dashboard
