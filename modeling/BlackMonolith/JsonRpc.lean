import BlackMonolith.Json
import BlackMonolith.Text

/-!
# JSON-RPC messages and the events of the proxy

One record covers requests, notifications and responses, as in the source.
Correlation ids are tracked in bounded queues, oldest first.
-/
namespace BlackMonolith.JsonRpc
open Json

structure JsonRpcMessage where
  jsonrpc : Option String := none
  id : Option Value := none
  method : Option String := none
  params : Option Value := none
  result : Option Value := none
  error : Option Value := none
deriving Repr, DecidableEq

namespace JsonRpcMessage

def maxCorrelationIdBytes : ℕ := 256

def isResponse (m : JsonRpcMessage) : Bool :=
  m.method.isNone && (m.result.isSome || m.error.isSome)

def isJsonrpc2 (m : JsonRpcMessage) : Bool := m.jsonrpc == some "2.0"

/-- The key an id is correlated by; other ids are not tracked. -/
def idKey (m : JsonRpcMessage) : Option String :=
  match m.id with
  | some (.string s) =>
      if Text.len s ≤ maxCorrelationIdBytes then some (Value.string s).toString else none
  | some (.number n) => some n.text
  | _ => none

/-- A request to run a tool, whatever protocol version it declares. -/
def callsTool (m : JsonRpcMessage) : Bool := m.method == some "tools/call"

/-- The tool named by the parameters, when they are an object with a text name. -/
def toolName (m : JsonRpcMessage) : Option String :=
  m.params.bind fun p => (p.get "name").bind Value.asStr

end JsonRpcMessage

inductive ShieldMode
  | monitor
  | enforce
deriving Repr, DecidableEq

/-! ## Events -/

inductive Severity
  | info
  | warning
  | high
  | critical
deriving Repr, DecidableEq

/-- What a detection reports; ids, clock and identity are added on emission. -/
structure Event where
  eventType : String
  severity : Severity
  details : Value
deriving Repr, DecidableEq

/-! ## Pending requests -/

def maxPendingToolsList : ℕ := 1024

inductive InspectionKind
  | prompts
  | resources
  | resourceTemplates
  | toolResult
deriving Repr, DecidableEq

structure PendingInspection where
  key : String
  kind : InspectionKind
  resourceId : Option String
deriving Repr, DecidableEq

def inspectionKind (method : String) : Option InspectionKind :=
  if method = "prompts/list" then some .prompts
  else if method = "resources/list" then some .resources
  else if method = "resources/templates/list" then some .resourceTemplates
  else if method = "tools/call" then some .toolResult
  else none

section
variable {α : Type*} (key : α → String)

/-- Appends an entry in place of an older one with its key; a full queue evicts
its oldest entry, which is returned. -/
def track (pending : List α) (entry : α) : List α × Option α :=
  let queue := pending.eraseP (fun e => key e == key entry) ++ [entry]
  if maxPendingToolsList < queue.length then (queue.tail, queue.head?) else (queue, none)

/-- Removes the oldest entry with a key. -/
def take (pending : List α) (k : String) : List α × Option α :=
  (pending.eraseP fun e => key e == k, pending.find? fun e => key e == k)

end

def trackPending : List String → String → List String × Option String := track id

def takePending (pending : List String) (key : String) : List String × Bool :=
  let (rest, found) := take id pending key
  (rest, found.isSome)

def trackInspection :
    List PendingInspection → PendingInspection → List PendingInspection × Option PendingInspection :=
  track PendingInspection.key

def takeInspection :
    List PendingInspection → String → List PendingInspection × Option PendingInspection :=
  take PendingInspection.key

end BlackMonolith.JsonRpc
