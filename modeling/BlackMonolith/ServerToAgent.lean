import BlackMonolith.AgentToServer
import BlackMonolith.Baseline.ToolsList

/-!
# From the server to the agent

`forward_server_to_agent` hands a response to the analysis of the request it
answers, and sends on what the analysis makes of it. Prose that a server can
place in an agent's context is inspected in errors, in the text of tool results
and in the catalogues of prompts and resources.

Trace ids and log output are left out. A rewritten line stands for the message
it serializes.
-/
namespace BlackMonolith.ServerToAgent
open Json JsonRpc Sanitizer AgentToServer Baseline

def errorRedactionNotice : String := "[MCP-Shield redacted suspicious error payload]"
def outputRedactionNotice : String := "[MCP-Shield redacted suspicious tool output]"

/-- The list a catalogue answers with, and the fields of an entry that are prose. -/
def catalogShape : InspectionKind → Option (String × List String)
  | .prompts => some ("prompts", ["name", "title", "description"])
  | .resources => some ("resources", ["name", "title", "description", "mimeType"])
  | .resourceTemplates => some ("resourceTemplates", ["name", "title", "description", "mimeType"])
  | .toolResult => none

/-- The list under a key of the result. -/
def resultArray (msg : JsonRpcMessage) (key : String) : Option (List Value) :=
  (msg.result.bind (·.get key)).bind Value.asArray

def rebuildResultArray (msg : JsonRpcMessage) (key : String) (values : List Value) :
    Except String JsonRpcMessage :=
  match msg.result.bind Value.asObject with
  | some members =>
      .ok { msg with result := some (.object (Value.insertMember key (.array values) members)) }
  | none => .error "rewriting a response that has no object result"

section
variable (unicode : Text.Unicode) (mode : ShieldMode)

/-! ## Errors -/

mutual
/-- Every flagged string becomes a notice; keys and the shape stay. -/
def neutralizeErrorProse : Value → Value × List Finding
  | .string text =>
      let hits := scanInjection unicode text
      if hits.isEmpty then (.string text, []) else (.string errorRedactionNotice, hits)
  | .array items =>
      let r := neutralizeItems items
      (.array r.1, r.2)
  | .object members =>
      let r := neutralizeMembers members
      (.object r.1, r.2)
  | other => (other, [])

def neutralizeItems : List Value → List Value × List Finding
  | [] => ([], [])
  | item :: items =>
      let r := neutralizeErrorProse item
      let rest := neutralizeItems items
      (r.1 :: rest.1, r.2 ++ rest.2)

def neutralizeMembers : List (String × Value) → List (String × Value) × List Finding
  | [] => ([], [])
  | (key, value) :: members =>
      let r := neutralizeErrorProse value
      let rest := neutralizeMembers members
      ((key, r.1) :: rest.1, r.2 ++ rest.2)
end

/-- The name of the tool as events carry it. -/
def resourceValue (inspection : PendingInspection) : Value :=
  (inspection.resourceId.map Value.string).getD .null

def findingsValue (findings : List Finding) : Value := .array (findings.map Finding.toValue)

def analyzeErrorResponse (msg : JsonRpcMessage) (error : Value) (inspection : PendingInspection) :
    Except String (Option JsonRpcMessage) × List Event :=
  let neutralized := neutralizeErrorProse unicode error
  if neutralized.2.isEmpty then (.ok none, [])
  else
    (if mode = .enforce then .ok (some { msg with error := some neutralized.1 }) else .ok none,
      [⟨"suspicious_error_payload", .critical, .object
        [("action", .string (if mode = .enforce then "redacted" else "reported")),
          ("findings", findingsValue neutralized.2), ("tool", resourceValue inspection)]⟩])

/-! ## Tool results -/

/-- The text of a text block. -/
def blockText (block : Value) : Option String :=
  ((block.get "text").bind Value.asStr).filter fun _ =>
    (block.get "type").bind Value.asStr = some "text"

/-- A flagged text block keeps its other members. -/
def redactBlock (block : Value) : Value :=
  match block with
  | .object members => .object (Value.insertMember "text" (.string outputRedactionNotice) members)
  | other => other

def blockFindings (block : Value) : List Finding :=
  match blockText block with
  | none => []
  | some text => scanDescription unicode text

def blockEvents (inspection : PendingInspection) (index : ℕ) (block : Value) : List Event :=
  let findings := blockFindings unicode block
  if findings.isEmpty then []
  else
    [⟨"suspicious_tool_output", .critical, .object
      [("action", .string (if mode = .enforce then "redacted" else "reported")),
        ("content_index", number index), ("findings", findingsValue findings),
        ("tool", resourceValue inspection)]⟩]

def analyzeToolResult (msg : JsonRpcMessage) (inspection : PendingInspection) :
    Except String (Option JsonRpcMessage) × List Event :=
  match resultArray msg "content" with
  | none => (.ok none, [])
  | some content =>
      let events := content.zipIdx.flatMap fun p => blockEvents unicode mode inspection p.2 p.1
      let changed := mode = .enforce && content.any fun block => !(blockFindings unicode block).isEmpty
      if changed then
        ((rebuildResultArray msg "content" (content.map fun block =>
          if (blockFindings unicode block).isEmpty then block else redactBlock block)).map some, events)
      else (.ok none, events)

/-! ## Catalogues -/

def entryName (entry : Value) : String :=
  ((((entry.get "name").or (entry.get "uri")).or (entry.get "uriTemplate")).bind
    Value.asStr).getD "<unnamed>"

def entryFindings (fields : List String) (entry : Value) : List Finding :=
  (fields.filterMap fun field => (entry.get field).bind Value.asStr).flatMap (scanDescription unicode)

/-- An entry that is not an object is left out in every mode. -/
def entryBlocked (fields : List String) (entry : Value) : Bool :=
  entry.asObject.isNone || (mode = .enforce && !(entryFindings unicode fields entry).isEmpty)

def entryEvents (listKey : String) (fields : List String) (entry : Value) : List Event :=
  let findings := entryFindings unicode fields entry
  if entry.asObject.isNone || findings.isEmpty then []
  else
    [⟨"suspicious_catalog_entry", .warning, .object
      [("action", .string (if mode = .enforce then "blocked" else "reported")),
        ("catalog", .string listKey), ("findings", findingsValue findings),
        ("resource", .string (entryName entry))]⟩]

def analyzeCatalog (msg : JsonRpcMessage) (listKey : String) (fields : List String) :
    Except String (Option JsonRpcMessage) × List Event :=
  match resultArray msg listKey with
  | none =>
      (.ok none, [⟨"analysis_error", .warning, .object
        [("reason", .string ("response missing result." ++ listKey ++ " array"))]⟩])
  | some entries =>
      let events := entries.flatMap (entryEvents unicode mode listKey fields)
      if entries.any (entryBlocked unicode mode fields) then
        ((rebuildResultArray msg listKey
          (entries.filter (!entryBlocked unicode mode fields ·))).map some, events)
      else (.ok none, events)

/-! ## Responses -/

/-- An error is inspected in place of a result. -/
def analyzeInspectableResponse (msg : JsonRpcMessage) (inspection : PendingInspection) :
    Except String (Option JsonRpcMessage) × List Event :=
  match msg.error with
  | some error => analyzeErrorResponse unicode mode msg error inspection
  | none =>
      match catalogShape inspection.kind with
      | none => analyzeToolResult unicode mode msg inspection
      | some (listKey, fields) => analyzeCatalog unicode mode msg listKey fields

end

/-! ## Forwarding -/

/-- The analysis a message of the server is handed to. -/
inductive Route
  | passThrough
  | toolsList
  | inspection (inspection : PendingInspection)
deriving Repr, DecidableEq

/-- A response takes its entry from the queue of tools/list requests, and only
where there is none from the other. -/
def routeResponse (s : Proxy) (msg : JsonRpcMessage) : Proxy × Route :=
  if msg.isJsonrpc2 && msg.isResponse then
    match msg.idKey with
    | none => (s, .passThrough)
    | some key =>
        let list := takePending s.pendingToolsList key
        if list.2 then ({ s with pendingToolsList := list.1 }, .toolsList)
        else
          let inspections := takeInspection s.pendingInspections key
          match inspections.2 with
          | some entry => ({ s with pendingInspections := inspections.1 }, .inspection entry)
          | none => (s, .passThrough)
  else (s, .passThrough)

/-- What becomes of one message of the server. -/
structure Relayed (δ : Type) where
  route : Route
  proxy : Proxy
  store : BaselineStore δ
  disk : Option Contents
  events : List Event
  rewritten : Option JsonRpcMessage

def listChangedEvents (msg : JsonRpcMessage) : List Event :=
  if msg.method = some "notifications/tools/list_changed" then
    [⟨"tools_list_changed", .info, .object []⟩]
  else []

/-- An analysis that fails leaves the message as it is, and is reported. -/
def analysisError (error : String) : Event :=
  ⟨"analysis_error", .warning, .object [("error", .string error)]⟩

section
variable {δ : Type} [DecidableEq δ] (cfg : Shield) (fmt : Format δ)
  (hmac : String → Except String String)

def forwardServerToAgent (env : Surroundings) (s : Proxy) (store : BaselineStore δ)
    (disk : Option Contents) (msg : JsonRpcMessage) : Relayed δ :=
  let announced := listChangedEvents msg
  match routeResponse s msg with
  | (s, .passThrough) => ⟨.passThrough, s, store, disk, announced, none⟩
  | (s, .toolsList) =>
      let analysis := analyzeToolsListWithBoundary cfg fmt hmac env msg store disk
      match analysis.outcome with
      | .ok (.analyzed rewritten) =>
          ⟨.toolsList, s, analysis.store, analysis.disk, announced ++ analysis.events, rewritten⟩
      | .ok .malformed =>
          ⟨.toolsList, s, analysis.store, analysis.disk, announced ++ analysis.events, none⟩
      | .error error =>
          ⟨.toolsList, s, analysis.store, analysis.disk,
            announced ++ analysis.events ++ [analysisError error], none⟩
  | (s, .inspection entry) =>
      match analyzeInspectableResponse cfg.unicode cfg.mode msg entry with
      | (.ok rewritten, events) =>
          ⟨.inspection entry, s, store, disk, announced ++ events, rewritten⟩
      | (.error error, events) =>
          ⟨.inspection entry, s, store, disk, announced ++ events ++ [analysisError error], none⟩

end

/-- The message the agent receives. -/
def Relayed.delivered {δ : Type} (r : Relayed δ) (msg : JsonRpcMessage) : JsonRpcMessage :=
  r.rewritten.getD msg

end BlackMonolith.ServerToAgent
