import BlackMonolith.Library.Python
import BlackMonolith.TraceAudit.StreamBuffer

/-!
# The relay of a streamed answer

`AnthropicRelay` puts the text of an answer through the look-behind buffer and
keeps every other event back until the text that was read before it is out. It
ends an answer early when the auditor finds that the reasoning diverged or cannot
encode a credential it reports, when the upstream fails, and when it ends without
`message_stop`; a refusal follows then.
The divergence monitor is a predicate on the fragments observed so far.
-/
namespace BlackMonolith.TraceAudit
open Library

/-! ## Upstream events -/

abbrev Members := List (PyString × PyJson)

/-- An event of `iter_sse_events`: its name and its payload. -/
structure SseEvent where
  name : PyString
  data : Members
deriving Repr

def lit (s : String) : PyString := PyString.ofString s

def str (s : String) : PyJson := .str (lit s)

/-- `d[key] = value` for a key that is there. -/
def setMember (d : Members) (key : String) (value : PyJson) : Members :=
  d.map fun member => if member.1 = lit key then (member.1, value) else member

/-- The value of a key that holds a string. -/
def getStr (d : Members) (key : String) : Option PyString := (PyJson.get d key).bind PyJson.asStr

def getInt (d : Members) (key : String) : Option ℤ := (PyJson.get d key).bind PyJson.asInt

def getDict (d : Members) (key : String) : Option Members := (PyJson.get d key).bind PyJson.asDict

namespace SseEvent

/-- `data.get("type") or name`; one that is no string names no kind. -/
def kind (e : SseEvent) : Option PyString :=
  match PyJson.get e.data "type" with
  | some v => if v.truthy then v.asStr else some e.name
  | none => some e.name

def Is (e : SseEvent) (s : String) : Prop := e.kind = some (lit s)

instance (e : SseEvent) (s : String) : Decidable (e.Is s) := inferInstanceAs (Decidable (_ = _))

end SseEvent

/-- `AUDITED_DELTA_KINDS`. -/
inductive DeltaKind
  | text
  | inputJson
  | thinking
deriving Repr, DecidableEq

namespace DeltaKind

def typeName : DeltaKind → PyString
  | text => lit "text_delta"
  | inputJson => lit "input_json_delta"
  | thinking => lit "thinking_delta"

/-- `DELTA_PAYLOAD_FIELD`. -/
def payloadField : DeltaKind → String
  | text => "text"
  | inputJson => "partial_json"
  | thinking => "thinking"

def ofName (s : PyString) : Option DeltaKind :=
  [text, inputJson, thinking].find? (·.typeName = s)

end DeltaKind

def citationDeltaKind : PyString := lit "citations_delta"

namespace SseEvent

/-- The audited delta an event carries. -/
def auditedDelta (e : SseEvent) : Option (DeltaKind × Members) :=
  if e.Is "content_block_delta" then
    (getDict e.data "delta").bind fun delta =>
      ((getStr delta "type").bind DeltaKind.ofName).map fun kind => (kind, delta)
  else none

/-- `audited_delta_text`. -/
def deltaText (kind : DeltaKind) (delta : Members) : Text :=
  ((getStr delta kind.payloadField).map PyString.points).getD []

/-- The fragment the auditor is given; one without text is dropped. -/
def fragment (e : SseEvent) : Option (DeltaKind × Text) :=
  match e.auditedDelta with
  | some (kind, delta) =>
      if (deltaText kind delta).isEmpty then none else some (kind, deltaText kind delta)
  | none => none

end SseEvent

/-! ## The relay -/

structure GatewayConfig where
  engine : Engine
  /-- The credentials of the request. -/
  literals : List Text
  anthropicApiKey : Option Text
  /-- Whether the monitor ends an answer, on the fragments observed so far. -/
  diverges : List Text → Bool

/-- The request's credentials and the operator's fallback key. -/
def credentialLiterals (cfg : GatewayConfig) : List Text :=
  ((cfg.literals ++ [cfg.anthropicApiKey.getD []]).filter (!·.isEmpty)).eraseDups

def GatewayConfig.buffer (cfg : GatewayConfig) : BufferConfig where
  engine := cfg.engine
  literals := credentialLiterals cfg
  maxChars := piiCharWindow
  atLeast := by decide

structure QueuedEvent where
  event : SseEvent
  pushesBefore : ℕ
deriving Repr

structure AnthropicRelay where
  blockOfPush : List ℤ
  deltaKindOfPush : List DeltaKind
  queue : List QueuedEvent
  pushes : ℕ
  openBlocks : List ℤ
  clientBlocks : List ℤ
  sawMessageStop : Bool
deriving Repr

inductive ClientEvent
  | passthrough (event : SseEvent)
  | text (index : ℤ) (token : Text) (deltaKind : DeltaKind)
deriving Repr

namespace AnthropicRelay

def init : AnthropicRelay := ⟨[], [], [], 0, [], [], false⟩

/-- `_audit_citation`: the quoted passage with its matches redacted. -/
def auditCitation (cfg : GatewayConfig) (data : Members) : Members :=
  match getDict data "delta" with
  | none => data
  | some delta =>
    match getDict delta "citation" with
    | none => data
    | some citation =>
      match getStr citation "cited_text" with
      | none => data
      | some cited =>
        let found := scan cfg.engine cited.points cfg.literals
        if cited.points.isEmpty ∨ found.isEmpty then data
        else
          setMember data "delta" (.dict (setMember delta "citation" (.dict
            (setMember citation "cited_text" (.str ⟨redact cited.points found⟩)))))

def isCitation (e : SseEvent) : Prop :=
  e.Is "content_block_delta" ∧
    (getDict e.data "delta").bind (getStr · "type") = some citationDeltaKind

instance (e : SseEvent) : Decidable (isCitation e) := inferInstanceAs (Decidable (_ ∧ _))

/-- The event as it is queued. -/
def audited (cfg : GatewayConfig) (e : SseEvent) : SseEvent :=
  if isCitation e then { e with data := auditCitation cfg e.data } else e

/-- The matches `_audit_citation` reports. -/
def citationMatches (cfg : GatewayConfig) (e : SseEvent) : List PiiMatch :=
  if isCitation e then
    match ((getDict e.data "delta").bind (getDict · "citation")).bind (getStr · "cited_text") with
    | some cited => scan cfg.engine cited.points cfg.literals
    | none => []
  else []

/-- What the relay notes of an event that is not audited text. -/
def note (r : AnthropicRelay) (e : SseEvent) : AnthropicRelay :=
  if e.Is "message_stop" then { r with sawMessageStop := true }
  else if e.Is "content_block_start" then
    match getInt e.data "index" with
    | some index => { r with openBlocks := r.openBlocks ++ [index] }
    | none => r
  else if e.Is "content_block_stop" then
    match getInt e.data "index" with
    | some index => { r with openBlocks := r.openBlocks.erase index }
    | none => r
  else r

/-- `_source`: one upstream event is queued, or gives the auditor a fragment. -/
def read (cfg : GatewayConfig) (r : AnthropicRelay) (e : SseEvent) : AnthropicRelay × Option Text :=
  match e.auditedDelta with
  | some (kind, delta) =>
      let fragment := SseEvent.deltaText kind delta
      if fragment.isEmpty then (r, none)
      else
        ({ r with blockOfPush := r.blockOfPush ++ [(getInt e.data "index").getD 0]
                  deltaKindOfPush := r.deltaKindOfPush ++ [kind]
                  pushes := r.pushes + 1 }, some fragment)
  | none =>
      let r := r.note e
      ({ r with queue := r.queue ++ [⟨audited cfg e, r.pushes⟩] }, none)

/-- `_note_client_block`. -/
def noteClientBlock (r : AnthropicRelay) (e : SseEvent) : AnthropicRelay :=
  if getStr e.data "type" = some (lit "content_block_start") then
    match getInt e.data "index" with
    | some index => { r with clientBlocks := r.clientBlocks ++ [index] }
    | none => r
  else r

def isReady (through : ℤ) (q : QueuedEvent) : Bool := (q.pushesBefore : ℤ) ≤ through

/-- `_release_ready`, with what `run` makes of it: the events that wait for no
push after `through` are handed to the client. -/
def releaseReady (r : AnthropicRelay) (through : ℤ) : List ClientEvent × AnthropicRelay :=
  let ready := r.queue.takeWhile (isReady through)
  (ready.map fun q => .passthrough q.event,
    ready.foldl (fun r q => r.noteClientBlock q.event)
      { r with queue := r.queue.dropWhile (isReady through) })

/-- A fragment the auditor lets go, after everything that was read before it. -/
def deliver (r : AnthropicRelay) (token : BufferedToken CodePoint) :
    List ClientEvent × AnthropicRelay :=
  let index := r.blockOfPush.getD token.index 0
  let deltaKind := r.deltaKindOfPush.getD token.index .text
  let (events, r) := r.releaseReady token.index
  (events ++ [.text index token.token deltaKind], r)

def deliverAll (r : AnthropicRelay) : List (BufferedToken CodePoint) →
    List ClientEvent × AnthropicRelay
  | [] => ([], r)
  | token :: tokens =>
      let first := r.deliver token
      let rest := first.2.deliverAll tokens
      (first.1 ++ rest.1, rest.2)

end AnthropicRelay

/-! ## A run -/

/-- `secret_fingerprint` of every match; a value with a surrogate is a `ValueError`. -/
def fingerprinted (found : List PiiMatch) : Bool :=
  found.all fun m => decide (PyString.mk m.value).Encodable

inductive StopReason
  | reasoningDivergence
  | upstreamStreamError
deriving Repr, DecidableEq

/-- How the upstream stream ends: it is over, or reading it fails. -/
inductive Ending
  | eof
  | failure
deriving Repr, DecidableEq

structure RelayState where
  relay : AnthropicRelay
  buffer : PiiStreamBuffer CodePoint
  observed : List Text

namespace RelayState

def init : RelayState := ⟨.init, .init, []⟩

/-- Everything that waits is handed over before a refusal, and at the end. -/
def releaseAll (s : RelayState) : List ClientEvent × AnthropicRelay :=
  s.relay.releaseReady s.relay.pushes

/-- `audit_tokens` with one fragment, as far as `run` hears of it. -/
def audit (cfg : GatewayConfig) (s : RelayState) (token : Text) : List ClientEvent × RelayState :=
  let drained := s.buffer.push cfg.buffer token
  let delivered := s.relay.deliverAll drained.1.outputs
  let synced :=
    if drained.1.outputs.isEmpty then delivered.2.releaseReady (drained.2.releasedThrough + 1)
    else ([], delivered.2)
  (delivered.1 ++ synced.1, ⟨synced.2, drained.2, s.observed ++ [token]⟩)

/-- One upstream event. -/
def step (cfg : GatewayConfig) (s : RelayState) (e : SseEvent) : List ClientEvent × RelayState :=
  let (relay, fragment) := s.relay.read cfg e
  match fragment with
  | none => ([], { s with relay := relay })
  | some token => audit cfg { s with relay := relay } token

/-- Fingerprints are taken before anything is delivered. -/
def failsAt (cfg : GatewayConfig) (s : RelayState) (e : SseEvent) : Bool :=
  match e.fragment with
  | none => !fingerprinted (AnthropicRelay.citationMatches cfg e)
  | some (_, token) => !fingerprinted (s.buffer.push cfg.buffer token).1.found

/-- What is kept of such an event: a citation is not queued. -/
def failed (cfg : GatewayConfig) (s : RelayState) (e : SseEvent) : RelayState :=
  match e.fragment with
  | none => s
  | some _ => { s with relay := (s.relay.read cfg e).1 }

/-- The monitor looks at a fragment once what it lets go is delivered. -/
def divergesAt (cfg : GatewayConfig) (s : RelayState) (e : SseEvent) : Bool :=
  match e.fragment with
  | none => false
  | some (_, token) => cfg.diverges (s.observed ++ [token])

/-- The final flush, and the drain at the end of the audit. -/
def flush (cfg : GatewayConfig) (s : RelayState) : List ClientEvent × RelayState :=
  let drained := s.buffer.finish cfg.buffer
  let delivered := s.relay.deliverAll drained.1.outputs
  let synced := delivered.2.releaseReady (drained.2.releasedThrough + 1)
  let last := drained.2.finish cfg.buffer
  let rest := synced.2.deliverAll last.1.outputs
  (delivered.1 ++ synced.1 ++ rest.1, ⟨rest.2, last.2, s.observed⟩)

/-- The end of an answer whose audit failed. -/
def interrupted (s : RelayState) : List ClientEvent × AnthropicRelay × Option StopReason :=
  (s.releaseAll.1, s.releaseAll.2, some .upstreamStreamError)

/-- `run`: what the client is sent, the relay it leaves, and the reason of an
answer that was terminated. -/
def run (cfg : GatewayConfig) (ending : Ending) (s : RelayState) :
    List SseEvent → List ClientEvent × AnthropicRelay × Option StopReason
  | [] =>
      -- The second drain finds the buffer empty, so it has no match to report.
      if ending = .failure ∨ fingerprinted (s.buffer.finish cfg.buffer).1.found = false then
        s.interrupted
      else
        let (events, s) := s.flush cfg
        (events ++ s.releaseAll.1, s.releaseAll.2,
          if s.relay.sawMessageStop then none else some .upstreamStreamError)
  | e :: es =>
      if s.failsAt cfg e then (s.failed cfg e).interrupted
      else
        let (events, next) := s.step cfg e
        if s.divergesAt cfg e then
          (events ++ next.releaseAll.1, next.releaseAll.2, some .reasoningDivergence)
        else
          let rest := run cfg ending next es
          (events ++ rest.1, rest.2)

end RelayState

/-! ## The refusal -/

def safeRefusal : Text := text <|
  "[TraceAudit] Response terminated: the reasoning trace diverged from the " ++
  "safe baseline distribution and was stopped before completion. A safe " ++
  "refusal has been substituted for the remaining output."

def upstreamFailureRefusal : Text := text <|
  "[TraceAudit] Response terminated: the model stream ended before the " ++
  "answer was complete. No answer was produced."

def sse (type : String) (members : Members) : SseEvent :=
  ⟨lit type, (lit "type", str type) :: members⟩

namespace AnthropicRelay

def refusalText : StopReason → Text
  | .reasoningDivergence => safeRefusal
  | .upstreamStreamError => upstreamFailureRefusal

def startEvent (index : ℤ) : ClientEvent :=
  .passthrough <| sse "content_block_start" [(lit "index", .int index),
    (lit "content_block", .dict [(lit "type", str "text"), (lit "text", str "")])]

def stopEvent (index : ℤ) : ClientEvent :=
  .passthrough <| sse "content_block_stop" [(lit "index", .int index)]

def refusalEnd : List ClientEvent :=
  [.passthrough <| sse "message_delta"
      [(lit "delta", .dict [(lit "stop_reason", str "refusal"), (lit "stop_sequence", .none)]),
        (lit "usage", .dict [(lit "input_tokens", .int 0), (lit "output_tokens", .int 0)])],
    .passthrough <| sse "message_stop" []]

/-- The index after the last block the client was told of. -/
def nextBlock (clientBlocks : List ℤ) : ℤ :=
  match clientBlocks with
  | [] => 0
  | first :: rest => rest.foldl max first + 1

/-- `refusal_events`. -/
def refusalEvents (r : AnthropicRelay) (reason : StopReason) : List ClientEvent :=
  match r.openBlocks.getLast? with
  | some index =>
      (if index ∈ r.clientBlocks then [] else [startEvent index]) ++
        .text index (refusalText reason) .text :: r.openBlocks.map stopEvent ++ refusalEnd
  | none =>
      let index := nextBlock r.clientBlocks
      [startEvent index, .text index (refusalText reason) .text, stopEvent index] ++ refusalEnd

end AnthropicRelay

/-- `format_sse`: the name and the payload of the frame. -/
def ClientEvent.frame : ClientEvent → SseEvent
  | .passthrough e => e
  | .text index token deltaKind =>
      sse "content_block_delta" [(lit "index", .int index),
        (lit "delta", .dict [(lit "type", .str deltaKind.typeName),
          (lit deltaKind.payloadField, .str ⟨token⟩)])]

/-- `_relay_sse`. -/
def relaySse (cfg : GatewayConfig) (events : List SseEvent) (ending : Ending) : List SseEvent :=
  let (sent, relay, reason) := RelayState.init.run cfg ending events
  (match reason with
    | none => sent
    | some reason => sent ++ relay.refusalEvents reason).map ClientEvent.frame

end BlackMonolith.TraceAudit
