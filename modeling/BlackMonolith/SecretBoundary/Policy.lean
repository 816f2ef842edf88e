import BlackMonolith.Text

/-!
# Requests, errors and policy of the secret boundary

The policy engine authorises a request against the one rule for its agent and
operation. URL parsing, time and the debug form of a list of strings come from
the platform. A `HashMap` is the list of its entries in iteration order.
-/
namespace BlackMonolith.SecretBoundary
open Text

inductive IpAddr
  | v4 (a b c d : UInt8)
  | v6 (s0 s1 s2 s3 s4 s5 s6 s7 : UInt16)
deriving Repr, DecidableEq

structure SocketAddr where
  ip : IpAddr
  port : ℕ
deriving Repr, DecidableEq

/-- A parsed URL, as far as the boundary reads it. -/
structure Url where
  scheme : String
  host : Option String
  port : Option ℕ
  portOrKnownDefault : Option ℕ
  path : String
  queryPairs : List (String × String)
deriving Repr, DecidableEq

/-- The crates and library functions the boundary relies on. -/
structure Platform where
  parseUrl : String → Except String Url
  parseIp : String → Option IpAddr
  displayIp : IpAddr → String
  displayTime : ℕ → String
  debugStrings : List String → String

inductive BoundaryError
  | policyDenied (message : String)
  | secretNotFound (message : String)
  | providerError (message : String)
  | operationNotAllowed (message : String)
  | destinationViolation (message : String)
  | ssrfBlocked (message : String)
  | executionFailed (message : String)
  | transportError (message : String)
  | serializationError (message : String)
  | invalidRequest (message : String)
  | configurationError (message : String)
deriving Repr, DecidableEq

def transportPrefix : String := "Network transport failure: "

def BoundaryError.display : BoundaryError → String
  | .policyDenied m => "Authorization policy denied request: " ++ m
  | .secretNotFound m => "Secret reference not found: " ++ m
  | .providerError m => "Credential provider failure: " ++ m
  | .operationNotAllowed m => "Operation is not allowed: " ++ m
  | .destinationViolation m => "Destination violates security policy: " ++ m
  | .ssrfBlocked m => "Blocked potential SSRF or forbidden network destination: " ++ m
  | .executionFailed m => "Operation execution failed: " ++ m
  | .transportError m => transportPrefix ++ m
  | .serializationError m => "Serialization or schema error: " ++ m
  | .invalidRequest m => "Invalid request parameters or payload: " ++ m
  | .configurationError m => "Configuration error: " ++ m

structure OperationRequest where
  agentId : String
  operationId : String
  destinationUrl : String
  method : String
  headers : List (String × String)
  body : Option (List UInt8)
deriving Repr, DecidableEq

structure PolicyRule where
  agentId : String
  operationId : String
  approvedCredentialRef : String
  destinationHost : String
  destinationPort : Option ℕ := none
  allowedMethods : List String := ["GET"]
  allowedPathPrefix : String := "/"
  permittedQueryParams : List String := []
  validUntil : Option ℕ := none
  requireHttps : Bool := true
deriving Repr, DecidableEq

/-- The slashes a path prefix ends in do not count. -/
def trimEndSlashes (s : String) : String := String.ofList (s.toList.rdropWhile (· == '/'))

/-- The prefix is the whole path, or ends at a segment boundary of it. -/
def pathMatchesPrefix (path allowedPathPrefix : String) : Bool :=
  let p := trimEndSlashes allowedPathPrefix
  p.isEmpty || path == p ||
    (startsWith path p && (path.toList.drop p.toList.length).head? == some '/')

def pathContainsTraversal (path : String) : Bool :=
  contains path ".." || contains path "%2e" || contains path "%2E"

/-- The header names the boundary sets itself. -/
def isReservedHeader (lower : String) : Bool :=
  lower == "authorization" || lower == "proxy-authorization" || lower == "host" ||
    lower == "cookie"

def hasControl (s : String) : Bool :=
  s.toList.contains '\r' || s.toList.contains '\n' || s.toList.contains (Char.ofNat 0)

/-- The first thing wrong with the headers of a request. -/
def headerDenial : List (String × String) → Option BoundaryError
  | [] => none
  | (key, value) :: headers =>
      if isReservedHeader (asciiLowercase key) then
        some (.policyDenied s!"Agent is prohibited from supplying header '{key}'")
      else if hasControl key || hasControl value then
        some (.invalidRequest
          "Header contains forbidden control characters (CRLF / null bytes)")
      else headerDenial headers

def schemeDefaultPort (scheme : String) : ℕ :=
  if scheme = "https" then 443 else if scheme = "http" then 80 else 0

section
variable (platform : Platform)

/-- The checks of a parsed destination against its rule. -/
def destinationDenial (rule : PolicyRule) (request : OperationRequest) (url : Url) :
    Option BoundaryError :=
  if rule.requireHttps && url.scheme != "https" then
    some (.destinationViolation
      s!"Insecure scheme '{url.scheme}' rejected; HTTPS is required for operation '{rule.operationId}'")
  else
    match url.host with
    | none => some (.destinationViolation "Destination URL lacks a valid host")
    | some host =>
        let effectivePort := url.port.getD (schemeDefaultPort url.scheme)
        let expectedPort := rule.destinationPort.getD (schemeDefaultPort url.scheme)
        let methodUpper := asciiUppercase request.method
        if !eqIgnoreAsciiCase host rule.destinationHost then
          some (.destinationViolation
            s!"Destination host '{host}' does not match policy approved host '{rule.destinationHost}'")
        else if effectivePort ≠ expectedPort then
          some (.destinationViolation
            s!"Destination port '{effectivePort}' violates policy expected port '{expectedPort}'")
        else if !rule.allowedMethods.any (eqIgnoreAsciiCase · methodUpper) then
          some (.operationNotAllowed
            s!"Method '{request.method}' is not in approved list: {platform.debugStrings rule.allowedMethods}")
        else if pathContainsTraversal url.path then
          some (.operationNotAllowed "Path contains forbidden traversal sequence ('..')")
        else if !pathMatchesPrefix url.path rule.allowedPathPrefix then
          some (.operationNotAllowed
            s!"Path '{url.path}' does not match approved prefix '{rule.allowedPathPrefix}'")
        else
          match url.queryPairs.find? fun q =>
            !rule.permittedQueryParams.any (eqIgnoreAsciiCase · q.1) with
          | some (key, _) => some (.invalidRequest
              s!"Query parameter '{key}' is not permitted by policy for operation '{rule.operationId}'")
          | none => none

/-- `PolicyEngine::evaluate` over the rules of the engine. -/
def evaluate (rules : List PolicyRule) (request : OperationRequest) (now : ℕ) :
    Except BoundaryError PolicyRule :=
  match headerDenial request.headers with
  | some e => .error e
  | none =>
      match rules.filter fun r =>
        r.agentId == request.agentId && r.operationId == request.operationId with
      | [] => .error (.policyDenied
          s!"No policy rule authorizes agent '{request.agentId}' for operation '{request.operationId}'")
      | _ :: _ :: _ => .error (.policyDenied
          s!"Ambiguous authorization: multiple rules match agent '{request.agentId}' and operation '{request.operationId}'")
      | [rule] =>
          match rule.validUntil.filter (· < now) with
          | some expiry => .error (.policyDenied
              s!"Policy authorization for operation '{rule.operationId}' expired at {platform.displayTime expiry}")
          | none =>
              match platform.parseUrl request.destinationUrl with
              | .error e =>
                  .error (.destinationViolation ("Malformed destination URL: " ++ e))
              | .ok url =>
                  match destinationDenial platform rule request url with
                  | some e => .error e
                  | none => .ok rule

end

end BlackMonolith.SecretBoundary
