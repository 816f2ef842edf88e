import BlackMonolith.Library.PlainObjects
import BlackMonolith.Dashboard.IncidentQueue

/-!
# The session report

A report reduces the events of one agent run to numbers. The tallies by severity, by
module and by event type are kept in plain objects, and the class of an event is looked up
in one, so the numbers are exact when no event type is the name of an inherited property.
-/
namespace BlackMonolith.Dashboard
namespace SessionReport

open Library

/-! ## The class of an event -/

inductive EventClass
  | detection
  | operational
  | lifecycle
deriving Repr, DecidableEq

inductive EventClassification
  | listed (c : EventClass)
  | unknown
deriving Repr, DecidableEq

/-- `EVENT_CLASSES`. -/
def listedTypes : List (String × EventClass) :=
  [("corpus_poison_quarantine", .detection),
   ("pii_redacted", .detection),
   ("reasoning_divergence_terminate", .detection),
   ("schema_mismatch", .detection),
   ("secret_boundary_denial", .detection),
   ("session_quarantined", .detection),
   ("suspicious_catalog_entry", .detection),
   ("suspicious_description", .detection),
   ("suspicious_error_payload", .detection),
   ("suspicious_tool_output", .detection),
   ("tool_call_argument_flagged", .detection),
   ("tool_malformed", .detection),
   ("tool_pending_approval", .detection),
   ("tool_revoked", .detection),
   ("analysis_error", .operational),
   ("baseline_lock_failed", .operational),
   ("baseline_missing", .operational),
   ("baseline_persist_failed", .operational),
   ("baseline_reload_failed", .operational),
   ("configuration_invalid", .operational),
   ("generation_truncated", .operational),
   ("secret_operation_aborted", .operational),
   ("secret_operation_failed", .operational),
   ("upstream_stream_error", .operational),
   ("upstream_transport_refused", .operational),
   ("baseline_registered", .lifecycle),
   ("baseline_reloaded", .lifecycle),
   ("divergence_disabled", .lifecycle),
   ("generation_completed", .lifecycle),
   ("retrieval", .lifecycle),
   ("service_start", .lifecycle),
   ("service_stop", .lifecycle),
   ("secret_operation_executed", .lifecycle),
   ("tools_list_changed", .lifecycle)]

def eventClasses : PlainObject EventClass :=
  ⟨listedTypes.foldl (fun m (type, c) => m.set (.ofString type) c) .empty⟩

structure ClassifiableEvent where
  eventType : Option JsString
  severity : Option JsString

/-- `EVENT_CLASSES[type] ?? "unknown"`, which may also be what the object inherits. -/
def classifyEvent (event : ClassifiableEvent) : Property EventClassification :=
  match event.eventType with
  | none => .own .unknown
  | some type =>
    if type.units = [] then .own .unknown
    else
      match eventClasses.get? type with
      | none => .own .unknown
      | some (.own c) => .own (.listed c)
      | some (.inherited b) => .inherited b

def isDetectionEvent (event : ClassifiableEvent) : Bool :=
  classifyEvent event = .own (.listed .detection) &&
    (event.severity = some Severity.warning.text || event.severity = some Severity.critical.text)

def countDetections (events : List ClassifiableEvent) : ℕ :=
  events.foldl (fun detections event =>
    if isDetectionEvent event then detections + 1 else detections) 0

/-! ## The summary -/

def blockingOutcomes : List JsString :=
  ["blocked", "blocked_first_contact", "rewritten", "withheld", "withheld_revoked",
    "withheld_pending_approval", "withheld_malformed", "filtered", "quarantined", "terminated",
    "refused", "denied", "revoked"].map .ofString

def quarantineEvents : List JsString := [.ofString "corpus_poison_quarantine"]
def revocationEvents : List JsString := [.ofString "session_quarantined"]

structure SessionSummary where
  total : ℤ
  counted : ℕ
  truncated : Bool
  detections : ℕ
  blocks : ℕ
  quarantines : ℕ
  revocations : ℕ
  bySeverity : PlainObject Tallied
  byModule : PlainObject Tallied
  byEventType : PlainObject Tallied

/-- What the loop of `summarizeSession` carries. -/
structure Tallying where
  bySeverity : PlainObject Tallied
  byModule : PlainObject Tallied
  byEventType : PlainObject Tallied
  detections : ℕ
  blocks : ℕ
  quarantines : ℕ
  revocations : ℕ

def severityNames : List JsString :=
  [Severity.critical.text, Severity.warning.text, Severity.info.text]

def Tallying.start : Tallying where
  bySeverity := ⟨severityNames.foldl (fun m name => m.set name (.number 0)) .empty⟩
  byModule := ⟨.empty⟩
  byEventType := ⟨.empty⟩
  detections := 0
  blocks := 0
  quarantines := 0
  revocations := 0

/-- An incident as the classification reads it. -/
def classifiable (incident : Incident) : ClassifiableEvent where
  eventType := some incident.event.eventType
  severity := some incident.event.severity.text

def increment (condition : Bool) (n : ℕ) : ℕ := if condition then n + 1 else n

def Tallying.add (t : Tallying) (incident : Incident) : Tallying :=
  let type := incident.event.eventType
  let quarantine := quarantineEvents.contains type
  let revocation := revocationEvents.contains type
  { bySeverity := t.bySeverity.bump incident.event.severity.text
    byModule := t.byModule.bump incident.event.moduleName.text
    byEventType := t.byEventType.bump type
    quarantines := increment quarantine t.quarantines
    revocations := increment revocation t.revocations
    detections := increment (isDetectionEvent (classifiable incident)) t.detections
    blocks := increment (blockingOutcomes.contains (incident.event.outcome.getD ⟨[]⟩) ||
      quarantine || revocation) t.blocks }

def summarizeSession (incidents : List Incident) (sessionTotal : Option ℤ) : SessionSummary :=
  let t := incidents.foldl Tallying.add .start
  let counted := incidents.length
  let total : ℤ :=
    match sessionTotal with
    | some total => if (counted : ℤ) < total then total else counted
    | none => counted
  { total
    counted
    truncated := (counted : ℤ) < total
    detections := t.detections
    blocks := t.blocks
    quarantines := t.quarantines
    revocations := t.revocations
    bySeverity := t.bySeverity
    byModule := t.byModule
    byEventType := t.byEventType }

/-! ## The parts of the loop -/

theorem bySeverity_foldl (incidents : List Incident) (t : Tallying) :
    (incidents.foldl Tallying.add t).bySeverity =
      (incidents.map (·.event.severity.text)).foldl PlainObject.bump t.bySeverity := by
  rw [List.foldl_map]
  exact (List.foldl_hom Tallying.bySeverity fun _ _ => rfl).symm

theorem byModule_foldl (incidents : List Incident) (t : Tallying) :
    (incidents.foldl Tallying.add t).byModule =
      (incidents.map (·.event.moduleName.text)).foldl PlainObject.bump t.byModule := by
  rw [List.foldl_map]
  exact (List.foldl_hom Tallying.byModule fun _ _ => rfl).symm

def typesOf (incidents : List Incident) : List JsString := incidents.map (·.event.eventType)

theorem byEventType_foldl (incidents : List Incident) (t : Tallying) :
    (incidents.foldl Tallying.add t).byEventType =
      (typesOf incidents).foldl PlainObject.bump t.byEventType := by
  unfold typesOf
  rw [List.foldl_map]
  exact (List.foldl_hom Tallying.byEventType fun _ _ => rfl).symm

theorem detections_foldl (incidents : List Incident) :
    (incidents.foldl Tallying.add .start).detections =
      countDetections (incidents.map classifiable) := by
  unfold countDetections
  rw [List.foldl_map]
  exact (List.foldl_hom Tallying.detections fun _ _ => rfl).symm

/-! ## When the summary is exact -/

theorem severity_plain (severity : Severity) : Inherited.ofName severity.text = none := by
  cases severity <;> decide

theorem module_plain (moduleName : ModuleName) : Inherited.ofName moduleName.text = none := by
  cases moduleName <;> decide

/-- The class of an event is one of the four when its type is not inherited. -/
theorem classifyEvent_plain {type : JsString} (h : Inherited.ofName type = none)
    (severity : Option JsString) : ∃ c, classifyEvent ⟨some type, severity⟩ = .own c := by
  unfold classifyEvent
  dsimp only
  rw [PlainObject.get?_of_plain h]
  split
  · exact ⟨_, rfl⟩
  · cases eventClasses.own.get? type with
    | none => exact ⟨_, rfl⟩
    | some c => exact ⟨_, rfl⟩

theorem eventClasses_inherited (b : Inherited) : eventClasses.own.get? b.name = none := by
  cases b <;> decide

theorem classifyEvent_inherited {type : JsString} {b : Inherited}
    (h : Inherited.ofName type = some b) (severity : Option JsString) :
    classifyEvent ⟨some type, severity⟩ = .inherited b := by
  have hname := Inherited.name_of_ofName h
  have hnonempty : type.units ≠ [] := by
    rw [← hname]
    cases b <;> decide
  have hown : eventClasses.own.get? type = none := by
    rw [← hname]
    exact eventClasses_inherited b
  unfold classifyEvent
  dsimp only
  rw [if_neg hnonempty, PlainObject.get?_of_inherited hown h]

/-- The numbers of a summary are counts that partition the incidents. -/
structure ExactSummary (incidents : List Incident) (sessionTotal : Option ℤ) : Prop where
  counted : (summarizeSession incidents sessionTotal).counted = incidents.length
  bySeverity : PlainObject.Counts (summarizeSession incidents sessionTotal).bySeverity.own.values
    (summarizeSession incidents sessionTotal).counted
  byModule : PlainObject.Counts (summarizeSession incidents sessionTotal).byModule.own.values
    (summarizeSession incidents sessionTotal).counted
  byEventType : PlainObject.Counts (summarizeSession incidents sessionTotal).byEventType.own.values
    (summarizeSession incidents sessionTotal).counted
  occurrences : ∀ type ∈ typesOf incidents,
    (summarizeSession incidents sessionTotal).byEventType.get? type =
      some (.own (.number ((typesOf incidents).count type)))
  detections : (summarizeSession incidents sessionTotal).detections =
    countDetections (incidents.map classifiable)
  classes : ∀ incident ∈ incidents, ∃ c, classifyEvent (classifiable incident) = .own c

/-- No event type is the name of a property that an object literal inherits. -/
def PlainTypes (incidents : List Incident) : Prop :=
  ∀ type ∈ typesOf incidents, Inherited.ofName type = none

theorem bySeverity_tallies (incidents : List Incident) (sessionTotal : Option ℤ) :
    (summarizeSession incidents sessionTotal).bySeverity.own.Tallies .number
      severityNames.reverse (incidents.map (·.event.severity.text)) := by
  have hstart : Tallying.start.bySeverity.own.Tallies Tallied.number severityNames.reverse [] :=
    ((InsertionMap.tallies_empty.setZero _).setZero _).setZero _
  have hplain : ∀ name ∈ incidents.map (·.event.severity.text), Inherited.ofName name = none := by
    intro name hname
    obtain ⟨incident, -, rfl⟩ := List.mem_map.mp hname
    exact severity_plain incident.event.severity
  have hfold := PlainObject.foldl_bump_tallies hplain hstart
  rw [List.append_nil, ← bySeverity_foldl] at hfold
  exact hfold

theorem byModule_tallies (incidents : List Incident) (sessionTotal : Option ℤ) :
    (summarizeSession incidents sessionTotal).byModule.own.Tallies .number []
      (incidents.map (·.event.moduleName.text)) := by
  have hstart : Tallying.start.byModule.own.Tallies Tallied.number [] [] :=
    InsertionMap.tallies_empty
  have hplain : ∀ name ∈ incidents.map (·.event.moduleName.text),
      Inherited.ofName name = none := by
    intro name hname
    obtain ⟨incident, -, rfl⟩ := List.mem_map.mp hname
    exact module_plain incident.event.moduleName
  have hfold := PlainObject.foldl_bump_tallies hplain hstart
  rw [List.append_nil, ← byModule_foldl] at hfold
  exact hfold

theorem byEventType_tallies {incidents : List Incident} (h : PlainTypes incidents)
    (sessionTotal : Option ℤ) :
    (summarizeSession incidents sessionTotal).byEventType.own.Tallies .number []
      (typesOf incidents) := by
  have hstart : Tallying.start.byEventType.own.Tallies Tallied.number [] [] :=
    InsertionMap.tallies_empty
  have hfold := PlainObject.foldl_bump_tallies h hstart
  rw [List.append_nil, ← byEventType_foldl] at hfold
  exact hfold

/-- No number is kept under an inherited name, however often the type occurs. -/
theorem byEventType_inherited {type : JsString} {b : Inherited}
    (h : Inherited.ofName type = some b) (incidents : List Incident) (sessionTotal : Option ℤ)
    (n : ℤ) :
    (summarizeSession incidents sessionTotal).byEventType.get? type ≠ some (.own (.number n)) := by
  have hstart : Tallying.start.byEventType.Spoiled type :=
    ⟨.inherited b, PlainObject.get?_of_inherited rfl h, fun _ heq => nomatch heq⟩
  have hfold := hstart.foldl (typesOf incidents)
  rw [← byEventType_foldl] at hfold
  obtain ⟨p, hp, hnumber⟩ := hfold
  intro hget
  exact hnumber n (Option.some.inj (hp.symm.trans hget))

theorem exactSummary_of_plain {incidents : List Incident} (h : PlainTypes incidents)
    (sessionTotal : Option ℤ) : ExactSummary incidents sessionTotal := by
  have htypes := byEventType_tallies h sessionTotal
  constructor
  · rfl
  · have hcounts := PlainObject.Counts.of_tallies (bySeverity_tallies incidents sessionTotal)
    rw [List.length_map] at hcounts
    exact hcounts
  · have hcounts := PlainObject.Counts.of_tallies (byModule_tallies incidents sessionTotal)
    rw [List.length_map] at hcounts
    exact hcounts
  · have hcounts := PlainObject.Counts.of_tallies htypes
    unfold typesOf at hcounts
    rw [List.length_map] at hcounts
    exact hcounts
  · intro type htype
    rw [PlainObject.get?_of_plain (h type htype), htypes.get?_of_mem (.inr htype)]
    rfl
  · exact detections_foldl incidents
  · intro incident hincident
    exact classifyEvent_plain (h _ (List.mem_map_of_mem hincident)) _

theorem classifyEvent_own_iff (event : ClassifiableEvent) :
    (∃ c, classifyEvent event = .own c) ↔
      ∀ type, event.eventType = some type → Inherited.ofName type = none := by
  obtain ⟨eventType, severity⟩ := event
  constructor
  · intro ⟨c, hc⟩ type htype
    cases hname : Inherited.ofName type with
    | none => rfl
    | some b =>
      change eventType = some type at htype
      rw [htype, classifyEvent_inherited hname] at hc
      cases hc
  · intro hplain
    cases eventType with
    | none => exact ⟨.unknown, rfl⟩
    | some type => exact classifyEvent_plain (hplain type rfl) severity

/-- The summary is exact when and only when no event type is the name of a property that
every object inherits, and the class of an event is one of the four under that condition. -/
theorem summary_exact_iff (incidents : List Incident) (sessionTotal : Option ℤ)
    (event : ClassifiableEvent) :
    (ExactSummary incidents sessionTotal ↔ PlainTypes incidents) ∧
    ((∃ c, classifyEvent event = .own c) ↔
      ∀ type, event.eventType = some type → Inherited.ofName type = none) := by
  refine ⟨?_, classifyEvent_own_iff event⟩
  constructor
  · intro hexact type htype
    cases hname : Inherited.ofName type with
    | none => rfl
    | some b =>
      exact absurd (hexact.occurrences type htype)
        (byEventType_inherited hname incidents sessionTotal _)
  · exact fun h => exactSummary_of_plain h sessionTotal

def someUuid : JsString := .ofString "6f1c0f6a-2a1e-4b7d-9c3f-2f6b8d4e1a90"

/-- A warning of the tool layer with an event type of any name. -/
def rawWarning (type : JsString) : JsValue :=
  .object [(.ofString "module", .string (.ofString "mcp-shield")),
    (.ofString "event_type", .string type), (.ofString "severity", .string (.ofString "warning"))]

def warning (type : JsString) : MonolithEvent where
  eventId := someUuid
  schemaVersion := 1
  timestampMs := 1
  receivedMs := none
  moduleName := .mcpShield
  eventType := type
  severity := .warning
  details := []
  tenantId := defaultTenant
  agentId := none
  sessionId := none
  traceId := none
  correlationId := none
  resourceType := none
  resourceId := none
  outcome := none
  policyVersion := none
  source := .ofString "module"

theorem summary_of_inherited_names :
    let constructor : Incident := ⟨warning (.ofString "constructor"), none⟩
    let proto : Incident := ⟨warning (.ofString "__proto__"), none⟩
    normalizeEvent 1 someUuid (rawWarning (.ofString "constructor")) = .ok constructor.event ∧
    normalizeEvent 1 someUuid (rawWarning (.ofString "__proto__")) = .ok proto.event ∧
    (summarizeSession [constructor] none).byEventType.get? (.ofString "constructor") =
      some (.own (.text (.ofString "function Object() \x7b [native code] \x7d1"))) ∧
    (summarizeSession [proto] none).byEventType.own.values = [] ∧
    (summarizeSession [proto] none).counted = 1 ∧
    classifyEvent (classifiable constructor) = .inherited .constructor ∧
    ¬ ∀ incidents sessionTotal, ExactSummary incidents sessionTotal := by
  intro constructor proto
  refine ⟨rfl, rfl, ?_, ?_, rfl, ?_, ?_⟩
  · decide
  · decide
  · decide
  · intro hexact
    have hoccurs := (hexact [constructor] none).occurrences constructor.event.eventType
      List.mem_cons_self
    exact byEventType_inherited (b := .constructor) (by decide) _ _ _ hoccurs

end SessionReport
end BlackMonolith.Dashboard
