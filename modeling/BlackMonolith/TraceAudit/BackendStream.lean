import BlackMonolith.Library.Framing
import BlackMonolith.Library.PyJsonBytes

/-!
# Backend streams

Ollama answers with a JSON object in each line, an OpenAI-compatible server with an
event. The bytes arrive in network chunks; a reader takes the complete lines of what
has arrived and keeps the line in progress. Both readers are one loop over the parser
of a line. What `float` makes of a number's text is a parameter.
-/
namespace BlackMonolith.TraceAudit
open Library PyJsonText

def maxOllamaLineBytes : ℕ := 256 * 1024
def maxBackendTokenChars : ℕ := 8 * 1024

inductive Backend
  | ollama
  | openai
deriving Repr, DecidableEq

def Backend.title : Backend → String
  | ollama => "Ollama"
  | openai => "OpenAI"

/-- The `ValueError`s of a stream. -/
inductive BackendError
  | lineTooLong (backend : Backend)
  | notJson
  | notObject (backend : Backend)
  | invalidTypes
  | tokenTooLong
  | choicesNotList
  | choiceNotObject
  | deltaNotObject
  | fieldNotString (field : String)
deriving Repr, DecidableEq

/-- The message, except for what `json` itself raises. -/
def BackendError.message : BackendError → Option String
  | .lineTooLong backend => some (backend.title ++ " response line exceeds 256 KiB")
  | .notJson => none
  | .notObject backend => some (backend.title ++ " response line must be a JSON object")
  | .invalidTypes => some "Ollama response fields have invalid types"
  | .tokenTooLong => some "Ollama token exceeds 8192 characters"
  | .choicesNotList => some "OpenAI response choices must be a list"
  | .choiceNotObject => some "OpenAI choice must be a JSON object"
  | .deltaNotObject => some "OpenAI delta must be a JSON object"
  | .fieldNotString field => some ("OpenAI delta." ++ field ++ " must be a string")

/-- What a line holds: its tokens, and whether it is the last one. -/
abbrev LineContent := List PyString × Bool

section
variable (floatRepr : Points → String)

/-! ## Lines -/

/-- `_parse_ollama_line`. -/
def parseOllamaLine (line : Bytes) : Except BackendError LineContent :=
  if line.strip.isEmpty then .ok ([], false)
  else if maxOllamaLineBytes < line.length then .error (.lineTooLong .ollama)
  else
    match loadsBytes floatRepr line with
    | none => .error .notJson
    | some (.dict data) =>
        match (PyJson.get data "response").getD (.str ⟨[]⟩),
            (PyJson.get data "done").getD (.bool false) with
        | .str response, .bool done =>
            .ok (if response.points.isEmpty then [] else [response], done)
        | _, _ => .error .invalidTypes
    | some _ => .error (.notObject .ollama)

/-- The token in a field of a delta. -/
def deltaPiece (delta : List (PyString × PyJson)) (field : String) :
    Except BackendError (List PyString) :=
  match (PyJson.get delta field).getD .none with
  | .none => .ok []
  | .str piece => .ok (if piece.points.isEmpty then [] else [piece])
  | _ => .error (.fieldNotString field)

/-- `choice.get("delta") or {}`. -/
def deltaOf (choice : List (PyString × PyJson)) : Except BackendError (List (PyString × PyJson)) :=
  match PyJson.get choice "delta" with
  | none => .ok []
  | some value =>
      if value.truthy then
        match value with
        | .dict delta => .ok delta
        | _ => .error .deltaNotObject
      else .ok []

def finishes (choice : List (PyString × PyJson)) : Bool :=
  match (PyJson.get choice "finish_reason").getD .none with
  | .none => false
  | _ => true

def readChoice : PyJson → Except BackendError LineContent
  | .dict choice => do
      let delta ← deltaOf choice
      let reasoning ← deltaPiece delta "reasoning_content"
      let content ← deltaPiece delta "content"
      return (reasoning ++ content, finishes choice)
  | _ => .error .choiceNotObject

def readChoices : List PyJson → Except BackendError LineContent
  | [] => .ok ([], false)
  | choice :: choices => do
      let (tokens, done) ← readChoice choice
      let (more, last) ← readChoices choices
      return (tokens ++ more, done || last)

/-- What the line of an event holds after the name of its field. -/
def eventData (stripped : Bytes) : Bytes :=
  if stripped.startsWith "data:" then Bytes.strip (stripped.drop 5) else stripped

/-- `_parse_openai_line`. -/
def parseOpenaiLine (line : Bytes) : Except BackendError LineContent :=
  let stripped := line.strip
  if stripped.isEmpty || stripped.startsWith ":" || stripped.startsWith "event:" then
    .ok ([], false)
  else if maxOllamaLineBytes < line.length then .error (.lineTooLong .openai)
  else if (eventData stripped).isEmpty then .ok ([], false)
  else if eventData stripped = Bytes.ofString "[DONE]" then .ok ([], true)
  else
    match loadsBytes floatRepr (eventData stripped) with
    | none => .error .notJson
    | some (.dict data) =>
        match PyJson.get data "choices" with
        | some (.list choices) => readChoices choices
        | _ => .error .choicesNotList
    | some _ => .error (.notObject .openai)

def Backend.parseLine : Backend → Bytes → Except BackendError LineContent
  | ollama => parseOllamaLine floatRepr
  | openai => parseOpenaiLine floatRepr

/-- `_bounded_ollama_tokens`. -/
def boundedOllamaTokens (tokens : List PyString) (remaining : ℤ) :
    Except BackendError (List PyString) :=
  let selected := tokens.take (max remaining 0).toNat
  if selected.any fun token => maxBackendTokenChars < token.points.length then
    .error .tokenTooLong
  else .ok selected

/-! ## Streams -/

/-- The line that ends with a line feed. -/
def endsLine (held : Bytes) : Option Bytes :=
  if held.getLast? = some 0x0A then some held.dropLast else none

/-- The complete lines of what is pending, and the line in progress. -/
def takeLines (pending : Bytes) : List Bytes × Bytes := Framing.frames endsLine [] pending

/-- What a line yields after `yielded` tokens, and whether it is the last one. -/
def readLine (backend : Backend) (maxTokens : ℤ) (yielded : ℕ) (line : Bytes) :
    Except BackendError LineContent :=
  match backend.parseLine floatRepr line with
  | .error e => .error e
  | .ok (tokens, done) =>
      match boundedOllamaTokens tokens (maxTokens - yielded) with
      | .error e => .error e
      | .ok selected => .ok (selected, done)

/-- The state after some lines: reading on after so many tokens, or stopped, with an
error or without. -/
inductive Progress
  | on (yielded : ℕ)
  | stopped (raised : Option BackendError)
deriving Repr, DecidableEq

/-- The lines that are complete after a chunk. -/
def readLines (backend : Backend) (maxTokens : ℤ) : ℕ → List Bytes → List PyString × Progress
  | yielded, [] => ([], .on yielded)
  | yielded, line :: lines =>
      match readLine floatRepr backend maxTokens yielded line with
      | .error e => ([], .stopped (some e))
      | .ok (tokens, done) =>
          if maxTokens ≤ (yielded + tokens.length : ℕ) ∨ done then (tokens, .stopped none)
          else
            let (more, progress) := readLines backend maxTokens (yielded + tokens.length) lines
            (tokens ++ more, progress)

/-- The line that is in progress when the stream ends. -/
def readLast (backend : Backend) (maxTokens : ℤ) (yielded : ℕ) (pending : Bytes) :
    List PyString × Option BackendError :=
  if pending.strip.isEmpty then ([], none)
  else
    match readLine floatRepr backend maxTokens yielded pending with
    | .error e => ([], some e)
    | .ok (tokens, _) => (tokens, none)

/-- The chunks that are left: the tokens that are yielded and what is raised. -/
def readChunks (backend : Backend) (maxTokens : ℤ) :
    ℕ → Bytes → List Bytes → List PyString × Option BackendError
  | yielded, pending, [] => readLast floatRepr backend maxTokens yielded pending
  | yielded, pending, chunk :: chunks =>
      let (lines, rest) := takeLines (pending ++ chunk)
      match readLines floatRepr backend maxTokens yielded lines with
      | (tokens, .stopped raised) => (tokens, raised)
      | (tokens, .on yielded) =>
          if maxOllamaLineBytes < rest.length then (tokens, some (.lineTooLong backend))
          else
            let (more, raised) := readChunks backend maxTokens yielded rest chunks
            (tokens ++ more, raised)

/-- `_ollama_stream`, of the chunks of a response. -/
def ollamaStream (maxTokens : ℤ) (chunks : List Bytes) : List PyString × Option BackendError :=
  readChunks floatRepr .ollama maxTokens 0 [] chunks

/-- `_openai_stream`, of the chunks of a response. -/
def openaiStream (maxTokens : ℤ) (chunks : List Bytes) : List PyString × Option BackendError :=
  readChunks floatRepr .openai maxTokens 0 [] chunks

/-- `_backend_stream`, of a backend that answers over the network. -/
def backendStream : Backend → ℤ → List Bytes → List PyString × Option BackendError
  | .ollama => ollamaStream floatRepr
  | .openai => openaiStream floatRepr

end

end BlackMonolith.TraceAudit
