import BlackMonolith.JsonRpc
import BlackMonolith.Library.JavaScript
import BlackMonolith.Text

/-!
# The events of MCP-Shield

`identity` is read once from the environment; `build_shield_event` completes a
detection with it, and `serde_json` writes the event for the dashboard, which
parses it again. What `JSON.parse` makes of a number inside the details is a
parameter.
-/
namespace BlackMonolith.ShieldEvents
open Json JsonRpc Library

def maxIdLength : ℕ := 128
def schemaVersion : ℕ := 2
def policyVersion : String := "mcp-shield/1"

def cleanId (value : String) : Option String :=
  let trimmed := Text.trim value
  if trimmed.isEmpty || maxIdLength < trimmed.toList.length || trimmed.toList.any Text.isControl then
    none
  else some trimmed

/-- The variables `MONOLITH_TENANT_ID`, `MONOLITH_AGENT_ID` and `MONOLITH_SESSION_ID`. -/
structure Environment where
  tenantId : Option String
  agentId : Option String
  sessionId : Option String
deriving Repr, DecidableEq

structure Identity where
  tenantId : String
  agentId : Option String
  sessionId : Option String
deriving Repr, DecidableEq

def identity (env : Environment) : Identity where
  tenantId := (env.tenantId.bind cleanId).getD "default"
  agentId := env.agentId.bind cleanId
  sessionId := env.sessionId.bind cleanId

structure ShieldEvent where
  eventId : String
  timestampMs : ℕ
  eventType : String
  severity : Severity
  details : Value
  tenantId : String
  agentId : Option String
  sessionId : Option String
  traceId : Option String
  resourceType : Option String
  resourceId : Option String
  outcome : String
deriving Repr, DecidableEq

/-- The members of the details that name a resource, in order of preference. -/
def resourceKeys : List (String × String) :=
  [("tool", "tool"), ("resource", "resource"), ("prompt", "prompt"),
    ("operation", "operation_id")]

def resourceOf (details : Value) : Option (String × String) :=
  resourceKeys.findSome? fun (resourceType, key) =>
    (((details.get key).bind Value.asStr).bind cleanId).map fun id => (resourceType, id)

def outcomeOf (eventType : String) (severity : Severity) (details : Value) : String :=
  (((details.get "action").or (details.get "action_taken")).bind Value.asStr).getD <|
    if eventType = "baseline_registered" then "registered"
    else if eventType = "tools_list_changed" then "observed"
    else if eventType = "analysis_error" then "degraded"
    else if severity = .critical then "detected"
    else "reported"

/-- `eventId` and `now` are `new_event_id()` and `now_ms()`. -/
def buildShieldEvent (id : Identity) (eventId : String) (now : ℕ) (e : Event)
    (traceId : Option String) : ShieldEvent where
  eventId
  timestampMs := now
  eventType := e.eventType
  severity := e.severity
  details := e.details
  tenantId := id.tenantId
  agentId := id.agentId
  sessionId := id.sessionId
  traceId
  resourceType := (resourceOf e.details).map Prod.fst
  resourceId := (resourceOf e.details).map Prod.snd
  outcome := outcomeOf e.eventType e.severity e.details

def severityText : Severity → String
  | .info => "info"
  | .warning | .high => "warning"
  | .critical => "critical"

section
variable (readNumber : Number → JsNumber)

mutual
/-- A value of `serde_json` as `JSON.parse` reads it. -/
def ofJson : Value → JsValue
  | .null => .null
  | .bool b => .bool b
  | .number n => .number (readNumber n)
  | .string s => .string (.ofString s)
  | .array items => .array (ofJsonItems items)
  | .object members => .object (ofJsonMembers members)

def ofJsonItems : List Value → List JsValue
  | [] => []
  | item :: items => ofJson item :: ofJsonItems items

def ofJsonMembers : List (String × Value) → List (JsString × JsValue)
  | [] => []
  | (key, value) :: members => (.ofString key, ofJson value) :: ofJsonMembers members
end

/-- A field that is skipped when it is unknown. -/
def optionalField (name : String) (value : Option String) : List (JsString × JsValue) :=
  value.toList.map fun v => (.ofString name, .string (.ofString v))

def textField (name value : String) : JsString × JsValue :=
  (.ofString name, .string (.ofString value))

/-- The members up to the session, in the order of the fields. -/
def ShieldEvent.leadingMembers (e : ShieldEvent) : List (JsString × JsValue) :=
  [textField "event_id" e.eventId,
    (.ofString "schema_version", .number (.integer schemaVersion)),
    (.ofString "timestamp_ms", .number (.integer e.timestampMs)),
    textField "module" "mcp-shield",
    textField "event_type" e.eventType,
    textField "severity" (severityText e.severity),
    (.ofString "details", ofJson readNumber e.details),
    textField "source" "module",
    textField "tenant_id" e.tenantId] ++
  optionalField "agent_id" e.agentId

/-- The members after the session. -/
def ShieldEvent.trailingMembers (e : ShieldEvent) : List (JsString × JsValue) :=
  optionalField "trace_id" e.traceId ++
  optionalField "resource_type" e.resourceType ++
  optionalField "resource_id" e.resourceId ++
  [textField "outcome" e.outcome, textField "policy_version" policyVersion]

/-- The event as the dashboard parses it. -/
def ShieldEvent.toJs (e : ShieldEvent) : JsValue :=
  .object (e.leadingMembers readNumber ++ optionalField "session_id" e.sessionId ++
    e.trailingMembers)

end

@[simp] theorem optionalField_none (name : String) : optionalField name none = [] := rfl

@[simp] theorem optionalField_some (name value : String) :
    optionalField name (some value) = [(.ofString name, .string (.ofString value))] := rfl

theorem get_optionalField {name key : String} (h : JsString.ofString key ≠ JsString.ofString name)
    (value : Option String) : JsValue.get (optionalField key value) name = none := by
  cases value with
  | none => rfl
  | some v =>
      simp only [optionalField_some, JsValue.get, List.find?_cons, h, decide_false,
        List.find?_nil, Option.map_none]

theorem get_session_leadingMembers (readNumber : Number → JsNumber) (e : ShieldEvent) :
    JsValue.get (e.leadingMembers readNumber) "session_id" = none := by
  unfold ShieldEvent.leadingMembers
  rw [JsValue.get_append, get_optionalField (by decide), Option.or_none]
  rfl

theorem identity_session_none (env : Environment) :
    (identity { env with sessionId := none }).sessionId = none := rfl

theorem identity_session_some (env : Environment) (s : String) :
    (identity { env with sessionId := some s }).sessionId = cleanId s := by
  simp only [identity, Option.bind_some]

theorem cleanId_eq_some_iff {value id : String} : cleanId value = some id ↔
    Text.trim value = id ∧ id.toList ≠ [] ∧ id.toList.length ≤ maxIdLength ∧
      ∀ c ∈ id.toList, Text.isControl c = false := by
  unfold cleanId
  simp only
  split_ifs with h
  · simp only [Bool.or_eq_true, decide_eq_true_eq, List.any_eq_true] at h
    constructor
    · intro hnone
      cases hnone
    · rintro ⟨rfl, hne, hlen, hctrl⟩
      rcases h with (hempty | hlong) | ⟨c, hc, hcontrol⟩
      · rw [String.isEmpty_iff] at hempty
        rw [hempty] at hne
        exact absurd rfl hne
      · omega
      · rw [hctrl c hc] at hcontrol
        cases hcontrol
  · simp only [Bool.or_eq_true, decide_eq_true_eq, List.any_eq_true, not_or, not_exists, not_and,
      Nat.not_lt, Bool.not_eq_true] at h
    obtain ⟨⟨hne, hlen⟩, hctrl⟩ := h
    constructor
    · intro hid
      cases hid
      refine ⟨rfl, ?_, hlen, hctrl⟩
      intro hnil
      rw [String.toList_eq_nil_iff.mp hnil] at hne
      cases hne
    · rintro ⟨rfl, -⟩
      rfl

end BlackMonolith.ShieldEvents
