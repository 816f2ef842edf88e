import BlackMonolith.Library.Utf8
import BlackMonolith.SecretBoundary.Destination

/-!
# The HTTP operation adapter

`execute` has two halves. Up to the request handed to the transport nothing of
the upstream is known; after it the transport's answer is turned into the
response or the error the agent receives. A body is kept as the text its bytes
encode, since the adapter builds it from text.
-/
namespace BlackMonolith.SecretBoundary
open Library Text

def redactedMarker : String := "[REDACTED]"

def isBlank (s : String) : Bool := (trim s).isEmpty

def redactSecretFromText (text secret : String) : String :=
  if isBlank secret then text else replace text secret redactedMarker

structure HttpAdapterConfig where
  maxResponseBytes : ℕ := 5 * 1024 * 1024
  timeoutSeconds : ℕ := 10
  allowPrivateIps : Bool := false
deriving Repr, DecidableEq

structure HttpRequestDetails where
  url : Url
  hostHeader : String
  method : String
  headers : List (String × String)
  body : Option (List UInt8)
  pinnedAddrs : List SocketAddr
  timeout : ℕ
  maxResponseBytes : ℕ
deriving Repr, DecidableEq

structure RawHttpResponse where
  statusCode : ℕ
  headers : List (String × String)
  body : List UInt8
deriving Repr, DecidableEq

structure OperationResponse where
  statusCode : ℕ
  sanitizedBody : String
  sanitizedHeaders : List (String × String)
  durationMs : ℕ
deriving Repr, DecidableEq

/-- An adapter with the resolver and transport it was built with. -/
structure HttpOperationAdapter where
  config : HttpAdapterConfig
  resolve : String → ℕ → Except BoundaryError (List SocketAddr)
  transport : HttpRequestDetails → Except BoundaryError RawHttpResponse

def sensitiveHeaders : List String :=
  ["set-cookie", "authorization", "www-authenticate", "proxy-authenticate",
    "x-amz-security-token", "proxy-authorization"]

def isSensitiveHeader (name : String) : Bool := sensitiveHeaders.contains (asciiLowercase name)

def filterResponseHeaders (headers : List (String × String)) : List (String × String) :=
  headers.filter fun h => !isSensitiveHeader h.1

/-- The headers of a caller, again refused if reserved or broken over lines. -/
def callerHeaderError : List (String × String) → Option BoundaryError
  | [] => none
  | (key, value) :: headers =>
      if isReservedHeader (asciiLowercase key) then
        some (.invalidRequest s!"Disallowed client-supplied header '{key}'")
      else if key.toList.contains '\r' || key.toList.contains '\n' ||
          value.toList.contains '\r' || value.toList.contains '\n' then
        some (.invalidRequest s!"CRLF injection attempt in header '{key}'")
      else callerHeaderError headers

def invalidSecret : BoundaryError :=
  .invalidRequest
    "Resolved secret contains characters that are not valid in an HTTP header value"

/-- Puts an entry into a `HashMap`. -/
def insertHeader (headers : List (String × String)) (key value : String) :
    List (String × String) :=
  headers.filter (·.1 != key) ++ [(key, value)]

/-- The request for the transport, with the credential in it. -/
def HttpOperationAdapter.prepare (adapter : HttpOperationAdapter) (platform : Platform)
    (request : OperationRequest) (secret : String) : Except BoundaryError HttpRequestDetails :=
  match platform.parseUrl request.destinationUrl with
  | .error e => .error (.destinationViolation ("Invalid URL syntax: " ++ e))
  | .ok url =>
      match resolveAndPinDestination platform adapter.resolve adapter.config.allowPrivateIps url with
      | .error e => .error e
      | .ok (hostHeader, _, pinnedAddrs) =>
          match callerHeaderError request.headers with
          | some e => .error e
          | none =>
              let authorization := "Bearer " ++ secret
              if hasControl authorization then .error invalidSecret
              else
                .ok
                  { url
                    hostHeader
                    method := request.method
                    headers := insertHeader request.headers "Authorization" authorization
                    body := request.body
                    pinnedAddrs
                    timeout := adapter.config.timeoutSeconds
                    maxResponseBytes := adapter.config.maxResponseBytes }

def isRedirect (status : ℕ) : Bool := 300 ≤ status && status ≤ 399

def redirectError (status : ℕ) : BoundaryError :=
  .destinationViolation
    s!"HTTP redirect status {status} received: automated redirects are prohibited to prevent credential exfiltration"

def sizeError (size limit : ℕ) : BoundaryError :=
  .transportError s!"Response size {size} bytes exceeds configured maximum of {limit} bytes"

/-- The transport's answer as the agent receives it. -/
def HttpOperationAdapter.finish (adapter : HttpOperationAdapter) (secret : String)
    (elapsedMs : ℕ) : Except BoundaryError RawHttpResponse → Except BoundaryError OperationResponse
  | .error e => .error (.transportError (redactSecretFromText e.display secret))
  | .ok raw =>
      if isRedirect raw.statusCode then .error (redirectError raw.statusCode)
      else if adapter.config.maxResponseBytes < raw.body.length then
        .error (sizeError raw.body.length adapter.config.maxResponseBytes)
      else
        .ok
          { statusCode := raw.statusCode
            sanitizedBody := redactSecretFromText (String.ofList (Utf8.decodeLossy raw.body)) secret
            sanitizedHeaders := filterResponseHeaders raw.headers
            durationMs := max elapsedMs 1 }

def HttpOperationAdapter.execute (adapter : HttpOperationAdapter) (platform : Platform)
    (elapsedMs : ℕ) (request : OperationRequest) (secret : String) :
    Except BoundaryError OperationResponse :=
  match adapter.prepare platform request secret with
  | .error e => .error e
  | .ok details => adapter.finish secret elapsedMs (adapter.transport details)

end BlackMonolith.SecretBoundary
