import BlackMonolith.Library.InsertionMap
import BlackMonolith.Library.Urllib
import BlackMonolith.Text

/-!
# The injector

The agent's model traffic goes through a proxy on the loopback interface, which
sends messages to TraceAudit, with the launch's correlation headers, and
everything else upstream. What `http.server` parses is given: the request target,
without white space, and the header list. A request counts as sent when a URL with
a host is handed to `urllib`; that `http.client` writes no selector with a control or
non-ASCII character is left out, as are the answers, the timeouts of the outbound
request and the choice of an ambient proxy.
-/
namespace BlackMonolith.Launcher
open Library Library.Urllib

/-! ## Configuration -/

/-- A service URL of the operator: `http` or `https` in lower case, and a path or none. -/
structure ServiceUrl where
  secure : Bool
  authority : List Char
  path : List Char
  authority_ne_nil : authority ≠ []
  plain : ∀ c ∈ authority, isDelimiter c = false
  rooted : path = [] ∨ path.head? = some '/'

namespace ServiceUrl

def scheme (url : ServiceUrl) : List Char := if url.secure then "https".toList else "http".toList

def text (url : ServiceUrl) : List Char :=
  url.scheme ++ ("://".toList ++ (url.authority ++ url.path))

/-- `url.rstrip("/")`. -/
def base (url : ServiceUrl) : List Char := url.text.rdropWhile (· = '/')

/-- What the slashes at the end leave of the path. -/
def basePath (url : ServiceUrl) : List Char := url.path.rdropWhile (· = '/')

end ServiceUrl

structure Correlation where
  sessionId : String
  agentId : String
  tenantId : String

structure InjectorConfig where
  rules : Rules
  traceAudit : ServiceUrl
  upstream : ServiceUrl
  correlation : Correlation
  maxForwardBytes : ℕ

def defaultMaxForwardBytes : ℕ := 32 * 1024 * 1024

/-! ## Requests -/

/-- `self.path`: a word of the request line. -/
structure RequestTarget where
  text : List Char
  ne_nil : text ≠ []
  noSpace : ∀ c ∈ text, isSpace c = false

/-- How a request body ends. -/
inductive Ending
  | eof
  | stalls
  | fails (error : String)
deriving Repr, DecidableEq

/-- What the client sends after the headers. -/
structure BodyStream where
  bytes : List UInt8
  ending : Ending
deriving Repr, DecidableEq

inductive ReadError
  | timeout
  | os (error : String)
deriving Repr, DecidableEq

/-- `rfile.read(length)`: the bytes that were read, and the body. A negative
length reads to the end. -/
def BodyStream.read (body : BodyStream) (length : ℤ) :
    List UInt8 × Except ReadError (List UInt8) :=
  if 0 ≤ length ∧ length ≤ body.bytes.length then
    (body.bytes.take length.toNat, .ok (body.bytes.take length.toNat))
  else
    match body.ending with
    | .eof => (body.bytes, .ok body.bytes)
    | .stalls => (body.bytes, .error .timeout)
    | .fails error => (body.bytes, .error (.os error))

structure Outbound where
  url : List Char
  method : String
  headers : List (String × String)
  data : Option (List UInt8)
deriving Repr, DecidableEq

/-- What becomes of a request. `dropped` is an exception that ends the handler. -/
inductive Outcome
  | refused (status : ℕ) (message : String)
  | dropped
  | forwarded (request : Outbound)
deriving Repr, DecidableEq

structure Handled where
  read : List UInt8
  outcome : Outcome
deriving Repr, DecidableEq

/-! ## Headers -/

/-- Header names are ASCII. -/
def hopByHop : List String :=
  ["connection", "keep-alive", "proxy-authenticate", "proxy-authorization", "te", "trailers",
    "transfer-encoding", "upgrade", "host", "content-length", "accept-encoding"]

def correlationPrefix : String := "x-monolith-"

def isCorrelation (name : String) : Bool :=
  Text.startsWith (Text.asciiLowercase name) correlationPrefix

def correlationHeaders (correlation : Correlation) : List (String × String) :=
  [("X-Monolith-Session-Id", correlation.sessionId), ("X-Monolith-Agent-Id", correlation.agentId),
    ("X-Monolith-Tenant-Id", correlation.tenantId)]

/-- Setting one entry after the other. -/
def setAll (entries : List (String × String)) (headers : InsertionMap String String) :
    InsertionMap String String :=
  entries.foldl (fun headers p => headers.set p.1 p.2) headers

def forwardHeaders (config : InjectorConfig) (headers : List (String × String)) (stamped : Bool) :
    InsertionMap String String :=
  let kept := headers.filter fun p =>
    !hopByHop.contains (Text.asciiLowercase p.1) && !isCorrelation p.1
  let identity := (setAll kept .empty).set "accept-encoding" "identity"
  if stamped then setAll (correlationHeaders config.correlation) identity else identity

/-- `str.capitalize`. -/
def capitalize (name : String) : String :=
  String.ofList <|
    match name.toList with
    | [] => []
    | c :: cs => Text.toAsciiUppercase c :: cs.map Text.toAsciiLowercase

/-- The headers of a `urllib.request.Request`. -/
def requestHeaders (headers : InsertionMap String String) : InsertionMap String String :=
  setAll (headers.entries.map fun p => (capitalize p.1, p.2)) .empty

/-! ## The target -/

/-- Empty and dot segments are dropped; two dots drop the segment before. -/
def resolveSegment (segments : List (List Char)) (segment : List Char) : List (List Char) :=
  if segment = [] ∨ segment = ['.'] then segments
  else if segment = ['.', '.'] then segments.dropLast
  else segments ++ [segment]

def normalizedPath (rules : Rules) (target : RequestTarget) : Option (List Char) :=
  (urlsplitPath rules target.text).map fun path =>
    '/' :: ['/'].intercalate (((unquote path).splitOn '/').foldl resolveSegment [])

def messagesPath : List Char := "/v1/messages".toList

namespace InjectorConfig
variable (config : InjectorConfig)

def auditUrl : List Char := config.traceAudit.base ++ messagesPath

def target (normalized : List Char) (target : RequestTarget) : List Char :=
  if normalized = messagesPath then config.auditUrl else config.upstream.base ++ target.text

def outbound (method : String) (target : RequestTarget) (headers : List (String × String))
    (body : List UInt8) : Outcome :=
  match normalizedPath config.rules target with
  | none => .dropped
  | some normalized =>
      let url := config.target normalized target
      match connection config.rules url with
      | none => .dropped
      | some _ =>
          .forwarded
            { url
              method
              headers := (requestHeaders (forwardHeaders config headers
                (normalized = messagesPath))).entries
              data := if body = [] then none else some body }

/-- `int(self.headers.get("content-length") or 0)`. -/
def contentLength (headers : List (String × String)) : Option ℤ :=
  match (headers.find? fun p => Text.asciiLowercase p.1 = "content-length").map Prod.snd with
  | none => some 0
  | some value => if value.isEmpty then some 0 else int config.rules.decimal value.toList

def proxy (method : String) (target : RequestTarget) (headers : List (String × String))
    (body : BodyStream) : Handled :=
  match config.contentLength headers with
  | none => ⟨[], .refused 400 "the content-length header is not a number"⟩
  | some length =>
      if (config.maxForwardBytes : ℤ) < length then
        ⟨[], .refused 413 "the request body is too large"⟩
      else
        let r := if length = 0 then ([], .ok []) else body.read length
        match r.2 with
        | .error .timeout => ⟨r.1, .refused 408 "the request body did not arrive in time"⟩
        | .error (.os error) =>
            ⟨r.1, .refused 400 ("the request body could not be read: " ++ error)⟩
        | .ok data => ⟨r.1, config.outbound method target headers data⟩

end InjectorConfig

end BlackMonolith.Launcher
