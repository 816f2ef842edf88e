import BlackMonolith.Baseline.Fingerprint
import BlackMonolith.JsonRpc
import BlackMonolith.Library.Sweep
import BlackMonolith.Sanitizer

/-!
# The analysis of a tools/list response

Every advertised tool is inspected on its own, compared with the baseline and
scanned; what the agent receives and what is reported follow from the verdicts.
The analysis runs between a reload and a save of the store. Log output is left
out.
-/
namespace BlackMonolith.Baseline
open Json JsonRpc Library Sanitizer

/-- The tools of a secret boundary, as far as the catalogue is concerned. -/
structure CatalogBoundary where
  isSecretTool : String → Bool
  getMcpToolDescriptors : List Value

/-- The configuration of a proxy, the debug form of a string, and the SHA-256
digest and the error texts that events carry. -/
structure Shield where
  mode : ShieldMode
  firstContact : FirstContact
  boundary : Option CatalogBoundary
  unicode : Text.Unicode
  debugStr : String → String
  contentSha256 : String → String
  displayLoadError : LoadError → String

/-! ## Defects -/

def maxToolNameLength : ℕ := 128

structure ToolDefect where
  reason : String
  withhold : Bool
deriving Repr, DecidableEq

/-- The name two tools may not share: trimmed, and not empty. -/
def toolIdentity (tool : Value) : Option String :=
  (((tool.get "name").bind Value.asStr).map Text.trim).filter (!·.isEmpty)

def inspectToolEntry (debugStr : String → String) (identities : List String) (index : ℕ)
    (tool : Value) : Option ToolDefect :=
  match tool.asObject with
  | none => some ⟨s!"tool at index {index} is not an object", true⟩
  | some object =>
      match toolIdentity tool with
      | none => some ⟨s!"tool at index {index} has no non-empty string name", true⟩
      | some name =>
          if maxToolNameLength < Text.len name then
            some ⟨s!"tool name at index {index} exceeds {maxToolNameLength} bytes", true⟩
          else if 1 < identities.count name then
            some ⟨s!"tools/list contains duplicate tool name {debugStr name}", true⟩
          else if (object.lookup "description").any (·.asStr.isNone) then
            some ⟨s!"tool {debugStr name} has a non-string description", true⟩
          else if ((object.lookup "inputSchema").bind Value.asObject).isNone then
            some ⟨s!"tool {debugStr name} has no object inputSchema", false⟩
          else none

def inspectToolEntries (debugStr : String → String) (tools : List Value) :
    List (Option ToolDefect) :=
  tools.zipIdx.map fun p => inspectToolEntry debugStr (tools.filterMap toolIdentity) p.2 p.1

/-! ## One tool -/

/-- A tool of the listing, what is wrong with it, and the time it is looked at. -/
structure Listed where
  tool : Value
  defect : Option ToolDefect
  now : ℕ

def Listed.name (item : Listed) : String :=
  ((item.tool.get "name").bind Value.asStr).getD "<unnamed>"

def Listed.isWithheld (item : Listed) : Bool := item.defect.any (·.withhold)

/-- What becomes of a tool in the list the agent receives. -/
inductive Disposition
  | kept
  | blocked
  | restored (tool : Value)
deriving Repr, DecidableEq

/-- A detection whose action depends on what the agent is sent. -/
structure DeferredEvent where
  event : Event
  claimsEnforcement : Bool
deriving Repr, DecidableEq

def deferred (eventType : String) (severity : Severity) (details : List (String × Value))
    (claimsEnforcement : Bool) : DeferredEvent :=
  ⟨⟨eventType, severity, .object details⟩, claimsEnforcement⟩

def defectEvents (item : Listed) : List DeferredEvent :=
  match item.defect with
  | none => []
  | some defect =>
      [deferred "tool_malformed" (if defect.withhold then .warning else .info)
        [("action", .string (if defect.withhold then "withheld_malformed" else "analysed")),
          ("reason", .string defect.reason), ("tool", .string item.name)] defect.withhold]

def number (n : ℕ) : Value := .number (.int n)

def modeText : ShieldMode → String
  | .enforce => "enforce"
  | .monitor => "monitor"

section
variable {δ : Type} [DecidableEq δ] (cfg : Shield) (fmt : Format δ)
  (hmac : String → Except String String)

def verdictEvents (item : Listed) (hash : String) (blocked : Bool) : Verdict → List DeferredEvent
  | .registered =>
      [deferred "baseline_registered" .info
        [("hash", .string hash), ("tool", .string item.name)] false]
  | .matching => []
  | .mismatch baseline =>
      let description := descriptionOf item.tool
      [deferred "schema_mismatch" .critical
        [("action", .string (if blocked then "rewritten" else "forwarded")),
          ("baseline_description_bytes", number (Text.len baseline.description)),
          ("baseline_description_sha256", .string (cfg.contentSha256 baseline.description)),
          ("baseline_hash", .string baseline.hash),
          ("current_description_bytes", number (Text.len description)),
          ("current_description_sha256", .string (cfg.contentSha256 description)),
          ("current_hash", .string hash),
          ("mode", .string (modeText cfg.mode)),
          ("tool", .string item.name)] blocked]

def suspiciousEvent (item : Listed) (findings : List Finding) (action : String)
    (claimsEnforcement : Bool) : DeferredEvent :=
  deferred "suspicious_description" .warning
    [("action", .string action), ("findings", .array (findings.map Finding.toValue)),
      ("tool", .string item.name)] claimsEnforcement

/-- The stored schema that replaces a mutated one: only in enforce mode, and only
if the baseline holds one. -/
def replacement : Verdict → Option Value
  | .mismatch baseline =>
      if cfg.mode = .enforce ∧ baseline.tool ≠ .null then some baseline.tool else none
  | .registered | .matching => none

/-- A tool whose fingerprint has been compared. -/
def judge (item : Listed) (findings : List Finding) (hash : String) (verdict : Verdict) :
    Disposition × List DeferredEvent :=
  let restored := replacement cfg verdict
  let compared := verdictEvents cfg item hash restored.isSome verdict
  let scanned :=
    if findings.isEmpty then []
    else
      [suspiciousEvent item findings
        (if cfg.mode = .enforce then if restored.isSome then "restored_baseline" else "blocked"
          else "reported") (cfg.mode = .enforce)]
  (match restored with
    | some tool => .restored tool
    | none => if !findings.isEmpty && cfg.mode = .enforce then .blocked else .kept,
    compared ++ scanned)

/-- A tool that cannot be fingerprinted ends the listing, with what was collected
about it. -/
def analyzeTool (store : BaselineStore δ) (item : Listed) :
    BaselineStore δ × Except (String × List DeferredEvent) (Disposition × List DeferredEvent) :=
  let events := defectEvents item
  if item.isWithheld then (store, .ok (.blocked, events))
  else if cfg.boundary.any (·.isSecretTool item.name) then (store, .ok (.blocked, events))
  else
    let description := descriptionOf item.tool
    let findings := scanDescription cfg.unicode description
    if store.isRevoked item.name then
      (store, .ok (.blocked, events ++ [deferred "tool_revoked" .warning
        [("action", .string "withheld_revoked"), ("tool", .string item.name)] true]))
    else if cfg.mode = .enforce && !findings.isEmpty && !store.contains item.name then
      (store, .ok (.blocked, events ++ [suspiciousEvent item findings "blocked_first_contact" true]))
    else
      match fingerprintTool hmac item.tool with
      | .error error => (store, .error (error, events))
      | .ok hash =>
          if cfg.firstContact = .approve && !store.contains item.name then
            let r := store.registerPending item.name hash description item.now item.tool
            (r.1, .ok (.blocked, events ++ [deferred "tool_pending_approval" .warning
              [("action", .string "withheld_pending_approval"),
                ("description", .string description), ("hash", .string hash),
                ("newly_parked", .bool r.2), ("tool", .string item.name)] true]))
          else
            let r := store.check item.name hash description item.now item.tool
            let judged := judge cfg item findings hash r.2
            (r.1, .ok (judged.1, events ++ judged.2))

/-! ## The listing -/

def listedTools (msg : JsonRpcMessage) : Option (List Value) :=
  (msg.result.bind (·.get "tools")).bind Value.asArray

def rebuildResponse (msg : JsonRpcMessage) (tools : List Value) : Except String JsonRpcMessage :=
  match msg.result with
  | none => .error "rewriting a response that has no result field"
  | some (.object members) =>
      .ok { msg with result := some (.object (Value.insertMember "tools" (.array tools) members)) }
  | some _ => .error "tools/list result is not a JSON object"

/-- The tools a listing leaves the agent. -/
def applyDispositions : List Value → List Disposition → List Value
  | tool :: tools, .kept :: rest => tool :: applyDispositions tools rest
  | _ :: tools, .blocked :: rest => applyDispositions tools rest
  | _ :: tools, .restored tool :: rest => tool :: applyDispositions tools rest
  | _, _ => []

/-- What a listing comes to: the store with what it registered, the detections,
and the response for the agent with whether it enforces anything. -/
structure Judged (δ : Type) where
  store : BaselineStore δ
  deferred : List DeferredEvent
  response : Except String (Option JsonRpcMessage × Bool)

def listing (clock : ℕ → ℕ) (tools : List Value) : List Listed :=
  (tools.zip (inspectToolEntries cfg.debugStr tools)).zipIdx.map fun p =>
    ⟨p.1.1, p.1.2, clock p.2⟩

/-- From the reload of the store to its save. -/
def judgeListing (clock : ℕ → ℕ) (msg : JsonRpcMessage) (tools : List Value)
    (store : BaselineStore δ) : Judged δ :=
  let r := sweep (analyzeTool cfg hmac) store (listing cfg clock tools)
  let events := r.2.1.flatMap (·.2)
  match r.2.2 with
  | some (_, last) =>
      ⟨r.1, events ++ last, .error "failed to fingerprint a tool schema"⟩
  | none =>
      let dispositions := r.2.1.map (·.1)
      let descriptors := (cfg.boundary.map (·.getMcpToolDescriptors)).getD []
      let enforced := dispositions.any (· ≠ .kept)
      if enforced || !descriptors.isEmpty then
        ⟨r.1, events, (rebuildResponse msg (applyDispositions tools dispositions ++ descriptors)).map
          fun line => (some line, enforced)⟩
      else ⟨r.1, events, .ok (none, enforced)⟩

/-- A claim of enforcement that did not reach the agent is corrected. -/
def emitDeferred (applied : Bool) (events : List DeferredEvent) : List Event :=
  events.map fun e =>
    if e.claimsEnforcement && !applied then
      { e.event with
        details := match e.event.details with
          | .object members =>
              .object (Value.insertMember "action" (.string "not_enforced") members)
          | other => other }
    else e.event

inductive AnalysisOutcome
  | malformed
  | analyzed (rewritten : Option JsonRpcMessage)
deriving Repr, DecidableEq

structure Analysis (δ : Type) where
  outcome : Except String AnalysisOutcome
  store : BaselineStore δ
  disk : Option Contents
  events : List Event

/-- The message the agent receives in answer to `msg`. -/
def Analysis.delivered {δ : Type} (a : Analysis δ) (msg : JsonRpcMessage) : JsonRpcMessage :=
  match a.outcome with
  | .ok (.analyzed (some line)) => line
  | _ => msg

def Analysis.rewrites {δ : Type} (a : Analysis δ) : Bool :=
  match a.outcome with
  | .ok (.analyzed rewritten) => rewritten.isSome
  | _ => false

/-- What the clock and the file system give one analysis. -/
structure Surroundings where
  clock : ℕ → ℕ
  lockError : Option String
  write : Except String ℕ

def lockEvents (env : Surroundings) : List Event :=
  env.lockError.toList.map fun error =>
    ⟨"baseline_lock_failed", .critical, .object [("error", .string error)]⟩

/-- The reload that begins an analysis, and its report. -/
def reload (disk : Option Contents) (store : BaselineStore δ) : BaselineStore δ × List Event :=
  match store.reloadIfChanged fmt hmac disk with
  | (store, .ok _) => (store, [])
  | (store, .error _) =>
      let r := store.takeReloadFailure
      (r.1, r.2.toList.map fun error =>
        ⟨"baseline_reload_failed", .critical, .object
          [("action", .string "continued_with_last_known_good_baseline"),
            ("error", .string (cfg.displayLoadError error))]⟩)

/-- The save that ends one. -/
def persist (write : Except String ℕ) (disk : Option Contents) (store : BaselineStore δ) :
    BaselineStore δ × Option Contents × List Event :=
  match store.saveIfDirty fmt write disk with
  | (store, disk, .ok _) => (store, disk, [])
  | (store, disk, .error _) =>
      let r := store.takePersistFailure
      (r.1, disk, r.2.toList.map fun error =>
        ⟨"baseline_persist_failed", .critical, .object
          [("action", .string "baseline_not_persisted"), ("error", .string error)]⟩)

def analyzeToolsListWithBoundary (env : Surroundings) (msg : JsonRpcMessage)
    (store : BaselineStore δ) (disk : Option Contents) : Analysis δ :=
  match listedTools msg with
  | none =>
      ⟨.ok .malformed, store, disk, lockEvents env ++
        [⟨"analysis_error", .warning, .object
          [("reason", .string "tools/list response missing result.tools array")]⟩]⟩
  | some tools =>
      let reloaded := reload cfg fmt hmac disk store
      let judged := judgeListing cfg hmac env.clock msg tools reloaded.1
      match judged.response with
      | .error error =>
          ⟨.error error, judged.store, disk,
            lockEvents env ++ reloaded.2 ++ emitDeferred false judged.deferred⟩
      | .ok (rewritten, enforced) =>
          let saved := persist fmt env.write disk judged.store
          ⟨.ok (.analyzed rewritten), saved.1, saved.2.1,
            lockEvents env ++ reloaded.2 ++ saved.2.2 ++
              emitDeferred (enforced && rewritten.isSome) judged.deferred⟩

end

end BlackMonolith.Baseline
