import BlackMonolith.SecretBoundary.Http

/-!
# The secret boundary broker

A request is authorised, its credential resolved and the operation executed;
every request leaves exactly one audit event. The wire adapter turns the result
into the response the caller reads.
-/
namespace BlackMonolith.SecretBoundary

inductive PolicyDecision
  | allowed
  | denied
deriving Repr, DecidableEq

inductive ExecutionOutcome
  | success
  | failure
  | notExecuted
deriving Repr, DecidableEq

structure SecurityEvent where
  eventId : String
  timestamp : ℕ
  correlationId : String
  agentId : String
  operationId : String
  decision : PolicyDecision
  denialReason : Option String
  credentialRef : Option String
  destinationHost : String
  outcome : ExecutionOutcome
  durationMs : Option ℕ
deriving Repr, DecidableEq

structure SecretBoundaryBroker where
  platform : Platform
  rules : List PolicyRule
  getSecret : String → Except BoundaryError String
  adapter : HttpOperationAdapter

/-- What the clock, the counters and the id generator give one request. -/
structure Moment where
  now : ℕ
  nowMillis : ℕ
  counter : ℕ
  eventId : String
  elapsedMs : ℕ
deriving Repr, DecidableEq

def Moment.correlationId (m : Moment) : String := s!"corr-{m.nowMillis}-{m.counter}"

/-- The host of the request, as the audit event names it. -/
def parsedHost (platform : Platform) (request : OperationRequest) : String :=
  match platform.parseUrl request.destinationUrl with
  | .ok url => url.host.getD "unknown-host"
  | .error _ => "unknown-host"

structure Outcome where
  events : List SecurityEvent
  result : Except BoundaryError OperationResponse

def SecretBoundaryBroker.execute (broker : SecretBoundaryBroker) (m : Moment)
    (request : OperationRequest) : Outcome :=
  let event : SecurityEvent :=
    { eventId := m.eventId
      timestamp := m.now
      correlationId := m.correlationId
      agentId := request.agentId
      operationId := request.operationId
      decision := .allowed
      denialReason := none
      credentialRef := none
      destinationHost := parsedHost broker.platform request
      outcome := .failure
      durationMs := some 0 }
  match evaluate broker.platform broker.rules request m.now with
  | .error e =>
      { events := [{ event with
          decision := .denied, denialReason := some e.display, outcome := .notExecuted }]
        result := .error e }
  | .ok rule =>
      let event := { event with credentialRef := some rule.approvedCredentialRef }
      match broker.getSecret rule.approvedCredentialRef with
      | .error e => { events := [event], result := .error e }
      | .ok secret =>
          match broker.adapter.execute broker.platform m.elapsedMs request secret with
          | .ok response =>
              { events := [{ event with
                  outcome := .success, durationMs := some response.durationMs }]
                result := .ok response }
          | .error e => { events := [event], result := .error e }

/-! ## The wire -/

structure WireRequest where
  agentId : String
  operationId : String
  destinationUrl : String
  method : String
  headers : List (String × String)
  body : Option String
deriving Repr, DecidableEq

structure WireResponse where
  success : Bool
  statusCode : Option ℕ
  responseBody : Option String
  responseHeaders : Option (List (String × String))
  errorMessage : Option String
  durationMs : Option ℕ
deriving Repr, DecidableEq

def WireResponse.failed (message : String) : WireResponse :=
  ⟨false, none, none, none, some message, none⟩

def wireResponse : Except BoundaryError OperationResponse → WireResponse
  | .ok r => ⟨true, some r.statusCode, some r.sanitizedBody, some r.sanitizedHeaders, none,
      some r.durationMs⟩
  | .error e => .failed e.display

def WireRequest.operation (wire : WireRequest) : OperationRequest where
  agentId := wire.agentId
  operationId := wire.operationId
  destinationUrl := wire.destinationUrl
  method := wire.method
  headers := wire.headers
  body := wire.body.map Text.bytes

def maxIdentifierLen : ℕ := 128
def maxUrlLen : ℕ := 2048

def payloadLimitError : String := "Request payload exceeds 1MB limit"
def lengthLimitError : String := "Identifier or URL length exceeds safety limits"

/-- `handle_json_request`, up to the final writing of the response as JSON. -/
def handleJsonRequest (fromStr : String → Except String WireRequest)
    (broker : SecretBoundaryBroker) (m : Moment) (json : String) : WireResponse :=
  if 1024 * 1024 < Text.len json then .failed payloadLimitError
  else
    match fromStr json with
    | .error e => .failed ("Invalid JSON wire request schema: " ++ e)
    | .ok wire =>
        if maxIdentifierLen < Text.len wire.agentId ||
            maxIdentifierLen < Text.len wire.operationId ||
            maxUrlLen < Text.len wire.destinationUrl then
          .failed lengthLimitError
        else wireResponse (broker.execute m wire.operation).result

end BlackMonolith.SecretBoundary
