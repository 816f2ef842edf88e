import Mathlib
import BlackMonolith.Library.Python
import BlackMonolith.VectorAnchor.RetrieverProxy

/-!
# The server of the retrieval tool

Messages come as lines of standard input, one is served at a time, and the answers are the
lines of standard output. With each line stands what would come of asking the service.
`json.loads`, `repr` of a string and `str` of a value that is no string are parameters. An
exception that nothing catches ends the server.
-/
namespace BlackMonolith.VectorAnchor.McpServer
open Library

abbrev Members := List (PyString × PyJson)

def lit (s : String) : PyString := PyString.ofString s

def concat (parts : List PyString) : PyString := ⟨parts.flatMap PyString.points⟩

def joinLines (lines : List PyString) : PyString :=
  ⟨(lit "\n").points.intercalate (lines.map PyString.points)⟩

def obj (members : List (String × PyJson)) : PyJson :=
  .dict (members.map fun member => (lit member.1, member.2))

def str (s : String) : PyJson := .str (lit s)

/-- `dict.get`, with `None` for a key that is not there. -/
def getOrNone (members : Members) (key : String) : PyJson := (PyJson.get members key).getD .none

def asList : PyJson → Option (List PyJson)
  | .list items => some items
  | _ => none

def isNone : PyJson → Bool
  | .none => true
  | _ => false

def isStr (v : PyJson) (s : String) : Bool := v.asStr = some (lit s)

/-- How `json.loads` fails: with the errors of a malformed text, or otherwise. -/
inductive LoadFailure
  | malformed
  | other

structure Environment where
  vectorAnchorUrl : Option PyString
  session : Option PyString
  loads : PyString → Except LoadFailure PyJson
  str : PyJson → PyString
  repr : PyString → PyString

namespace Environment
variable (env : Environment)

/-- A value in a formatted string. -/
def format : PyJson → PyString
  | .str s => s
  | v => env.str v

def serviceUrl : PyString :=
  ⟨(env.vectorAnchorUrl.getD (lit "http://127.0.0.1:8001")).points.rdropWhile
    (· = Fin.ofNat 0x110000 0x2F)⟩

def sessionId : PyString := (env.session.getD ⟨[]⟩).strip

end Environment

def supportedProtocolVersions : List String := ["2024-11-05", "2025-03-26", "2025-06-18"]

def latestProtocolVersion : String := "2025-06-18"

def maxQueryLength : ℕ := 16384

def maxK : ℤ := 20

def toolSchema : PyJson := obj [
  ("name", str "retrieve"),
  ("description", str <|
    "Search the project knowledge base for passages relevant to a question. " ++
    "Documents that the corpus-poisoning detector has flagged are withheld " ++
    "before they reach you, and the result says how many were withheld, so " ++
    "a short answer is not necessarily a complete one."),
  ("inputSchema", obj [
    ("type", str "object"),
    ("properties", obj [
      ("query", obj [
        ("type", str "string"),
        ("description", str "The question or topic to look up."),
        ("minLength", .int 1),
        ("maxLength", .int maxQueryLength)]),
      ("k", obj [
        ("type", str "integer"),
        ("description", str <|
          "How many passages to return. Fewer than the default when " ++
          "the answer only needs a couple of them."),
        ("minimum", .int 1),
        ("maximum", .int maxK)])]),
    ("required", .list [str "query"])])]

/-! ## Answers -/

def error (requestId : PyJson) (code : ℤ) (message : PyString) : PyJson :=
  obj [("jsonrpc", str "2.0"), ("id", requestId),
    ("error", obj [("code", .int code), ("message", .str message)])]

def result (requestId value : PyJson) : PyJson :=
  obj [("jsonrpc", str "2.0"), ("id", requestId), ("result", value)]

def resultText (requestId : PyJson) (text : PyString) (isError : Bool) : PyJson :=
  result requestId <| obj [
    ("content", .list [obj [("type", str "text"), ("text", .str text)]]),
    ("isError", .bool isError)]

/-! ## The service -/

/-- What comes of sending a request: an exception, or a body as `json.loads` takes it. Of the
body of an error nothing may be readable. -/
inductive Exchange
  | unusableUrl
  | httpError (code : ℕ) (body : Option PyString)
  | unreachable (reason : PyString)
  | unanswered (error : PyString)
  | otherException
  | body (decoded : Except LoadFailure PyJson)

inductive CallFailure
  | runtimeError (message : PyString)
  | other

def errorDetail : Option PyString → PyString
  | some body => ⟨body.points.take 400⟩
  | none => lit "(the response body could not be read)"

def callService (env : Environment) : Exchange → Except CallFailure Members
  | .unusableUrl => .error <| .runtimeError <| concat
      [lit "VectorAnchor URL is not usable: ", env.repr (concat [env.serviceUrl, lit "/retrieve"]),
        lit ". Set MONOLITH_VECTOR_ANCHOR_URL to an absolute http(s) URL."]
  | .httpError code body => .error <| .runtimeError <| concat
      [lit s!"VectorAnchor returned HTTP {code}: ", errorDetail body]
  | .unreachable reason => .error <| .runtimeError <| concat
      [lit "VectorAnchor is unreachable at ", env.serviceUrl, lit ": ", reason,
        lit ". Is the service running?"]
  | .unanswered error => .error <| .runtimeError <| concat
      [lit "VectorAnchor did not answer at ", env.serviceUrl, lit ": ", error,
        lit ". Is the service running?"]
  | .otherException => .error .other
  | .body (.error .malformed) =>
      .error (.runtimeError (lit "VectorAnchor returned a response that is not JSON"))
  | .body (.error .other) => .error .other
  | .body (.ok (.dict decoded)) => .ok decoded
  | .body (.ok _) =>
      .error (.runtimeError (lit "VectorAnchor returned a response that is not an object"))

/-! ## The text of an answer -/

def listUnder (payload : Members) (key : String) : List PyJson :=
  (asList (getOrNone payload key)).getD []

def sessionQuarantined (payload : Members) : Bool :=
  (getOrNone payload "session_quarantined").truthy

/-- A member of a value, if the value is a dictionary. -/
def member (value : PyJson) (key : String) : PyJson :=
  match value with
  | .dict members => getOrNone members key
  | _ => .none

/-- The lines of one item. Only a string has the method `strip`. -/
def renderItem (env : Environment) (position : ℕ) (item : PyJson) : Option (List PyString) :=
  let document := member item "document"
  let identifier := member item "id"
  let header := lit s!"[{position}]"
  let header :=
    if identifier.truthy then concat [header, lit " ", env.format identifier] else header
  if document.truthy then document.asStr.map fun text => [header, text.strip, lit ""]
  else some [header, lit "", lit ""]

def renderItems (env : Environment) : ℕ → List PyJson → Option (List PyString)
  | _, [] => some []
  | position, item :: items =>
      (renderItem env position item).bind fun first =>
        (renderItems env (position + 1) items).map (first ++ ·)

/-- The text for the agent, or nothing where an item raises. -/
def render (env : Environment) (payload : Members) : Option PyString :=
  let results := listUnder payload "results"
  let withheld := listUnder payload "withheld"
  if sessionQuarantined payload then
    some <| lit <| "This session has been revoked by the corpus-poisoning circuit breaker, " ++
      "so nothing was retrieved."
  else
    let lines :=
      if results.isEmpty then some [lit "No passages matched that query."]
      else (renderItems env 1 results).map
        (lit s!"{results.length} passage(s) matched:" :: ·)
    let note :=
      if withheld.isEmpty then []
      else [lit <| s!"{withheld.length} document(s) were withheld by the corpus-poisoning " ++
        "filter and are not shown here."]
    lines.map fun lines => (joinLines (lines ++ note)).strip

/-! ## Serving -/

/-- The payload of a request. -/
structure Query where
  query : PyString
  k : Option ℤ
deriving DecidableEq

/-- What was asked of the service, what was sent, and whether an exception ended the server. -/
structure Served where
  asked : List Query := []
  sent : List PyJson := []
  crashed : Bool := false

/-- The number of passages, if it is an integer within the bounds; no Boolean is one. -/
def requestedK (arguments : Members) : Option ℤ :=
  match getOrNone arguments "k" with
  | .int k => if 1 ≤ k ∧ k ≤ maxK then some k else none
  | _ => none

def dictUnder (members : Members) (key : String) : Members :=
  (getOrNone members key).asDict.getD []

def noSession : PyString := lit <|
  "VectorAnchor cannot serve a retrieval without a session id. Set " ++
  "MONOLITH_SESSION_ID so the retrieval can be attributed to a " ++
  "session and revoked with it."

def handleCall (env : Environment) (requestId : PyJson) (params : Members)
    (exchange : Exchange) : Served :=
  let name := getOrNone params "name"
  let refused (text : PyString) : Served := { sent := [resultText requestId text true] }
  if !isStr name "retrieve" then
    { sent := [error requestId (-32602) (concat [lit "unknown tool: ", env.format name])] }
  else
    let arguments := dictUnder params "arguments"
    match (getOrNone arguments "query").asStr with
    | none => refused (lit "The query must be a non-empty string.")
    | some query =>
        if query.strip.points.isEmpty then refused (lit "The query must be a non-empty string.")
        else if maxQueryLength < query.points.length then refused (lit "The query is too long.")
        else if env.sessionId.points.isEmpty then refused noSession
        else
          let asked : List Query := [⟨query, requestedK arguments⟩]
          match callService env exchange with
          | .error (.runtimeError message) => { refused message with asked }
          | .error .other => { refused (lit "VectorAnchor did not answer.") with asked }
          | .ok response =>
              match render env response with
              -- The text is made outside the `try`.
              | none => { asked, crashed := true }
              | some text =>
                  { asked, sent := [resultText requestId text (sessionQuarantined response)] }

def protocolVersion (params : Members) : PyString :=
  match (getOrNone params "protocolVersion").asStr with
  | some requested =>
      if (supportedProtocolVersions.map lit).contains requested then requested
      else lit latestProtocolVersion
  | none => lit latestProtocolVersion

def handleMessage (env : Environment) (message : Members) (exchange : Exchange) : Served :=
  let method := getOrNone message "method"
  let requestId := getOrNone message "id"
  let params := dictUnder message "params"
  if isStr method "initialize" then
    if isNone requestId then {}
    else { sent := [result requestId <| obj [
      ("protocolVersion", .str (protocolVersion params)),
      ("capabilities", obj [("tools", obj [("listChanged", .bool false)])]),
      ("serverInfo", obj [("name", str "vector-anchor"), ("version", str "0.1.0")])]] }
  else if isStr method "notifications/initialized" || isStr method "initialized" then {}
  else if isStr method "ping" then
    if isNone requestId then {} else { sent := [result requestId (obj [])] }
  else if isStr method "tools/list" then
    if isNone requestId then {}
    else { sent := [result requestId (obj [("tools", .list [toolSchema])])] }
  else if isStr method "tools/call" then
    if isNone requestId then {} else handleCall env requestId params exchange
  else if isNone requestId then {}
  else { sent := [error requestId (-32601) (concat [lit "method not found: ", env.format method])] }

def handleLine (env : Environment) (line : PyString) (exchange : Exchange) : Served :=
  let line := line.strip
  if line.points.isEmpty then {}
  else match env.loads line with
    | .error .malformed => { sent := [error .none (-32700) (lit "parse error")] }
    | .error .other => { crashed := true }
    | .ok (.dict message) => handleMessage env message exchange
    | .ok _ => { sent := [error .none (-32600) (lit "invalid request")] }

/-- The loop over the lines, each with its exchange. -/
def serve (env : Environment) : List (PyString × Exchange) → Served
  | [] => {}
  | (line, exchange) :: inputs =>
      let first := handleLine env line exchange
      if first.crashed then first
      else
        let later := serve env inputs
        ⟨first.asked ++ later.asked, first.sent ++ later.sent, later.crashed⟩

/-! ## What the lines ask for -/

/-- The value on a line that is not blank. -/
def reading (env : Environment) (line : PyString) : Option (Except LoadFailure PyJson) :=
  if line.strip.points.isEmpty then none else some (env.loads line.strip)

def isNotification (message : Members) : Bool :=
  isNone (getOrNone message "id") || isStr (getOrNone message "method") "initialized" ||
    isStr (getOrNone message "method") "notifications/initialized"

/-- The id under which a line waits for an answer. -/
def awaited (env : Environment) (line : PyString) : Option PyJson :=
  match reading env line with
  | none => none
  | some (.ok (.dict message)) =>
      if isNotification message then none else some (getOrNone message "id")
  | some _ => some .none

/-- Queries that may be asked: not blank, not too long, and for a session. -/
structure Permitted (env : Environment) (query : Query) : Prop where
  present : query.query.strip.points ≠ []
  bounded : query.query.points.length ≤ maxQueryLength
  attributed : env.sessionId.points ≠ []
  positive : ∀ k ∈ query.k, 1 ≤ k ∧ k ≤ maxK

/-- The query of the parameters of a call. -/
def callQuery (env : Environment) (params : Members) : Option Query :=
  let arguments := dictUnder params "arguments"
  (getOrNone arguments "query").asStr.bind fun query =>
    if isStr (getOrNone params "name") "retrieve" ∧ query.strip.points ≠ [] ∧
        query.points.length ≤ maxQueryLength ∧ env.sessionId.points ≠ []
    then some ⟨query, requestedK arguments⟩ else none

/-- The query that a line asks for. -/
def retrieval (env : Environment) (line : PyString) : Option Query :=
  match reading env line with
  | some (.ok (.dict message)) =>
      if isStr (getOrNone message "method") "tools/call" ∧ ¬ isNone (getOrNone message "id")
      then callQuery env (dictUnder message "params") else none
  | _ => none

/-- A document that is there and is no string. -/
def Unrenderable (item : PyJson) : Prop :=
  (member item "document").truthy = true ∧ (member item "document").asStr = none

/-- What ends the server: a line that `json.loads` refuses otherwise than as malformed, and an
answer of the service with an item that raises. -/
def Kills (env : Environment) (input : PyString × Exchange) : Prop :=
  reading env input.1 = some (.error .other) ∨
    (retrieval env input.1).isSome ∧ ∃ response, input.2 = .body (.ok (.dict response)) ∧
      sessionQuarantined response = false ∧ ∃ item ∈ listUnder response "results",
        Unrenderable item

/-- The service has answered a query, and the session is not revoked. -/
def Answered (env : Environment) (input : PyString × Exchange) : Prop :=
  (retrieval env input.1).isSome ∧ ∃ response, input.2 = .body (.ok (.dict response)) ∧
    sessionQuarantined response = false

def has : PyJson → String → Bool
  | .dict members, key => (PyJson.get members key).isSome
  | _, _ => false

/-- An answer under an id, which is a success of the tool in one case. -/
structure Reply (requestId : PyJson) (success : Prop) (response : PyJson) : Prop where
  addressed : member response "id" = requestId
  single : has response "result" ≠ has response "error"
  success : member (member response "result") "isError" = .bool false ↔ success

@[simp] theorem lit_inj {s t : String} : lit s = lit t ↔ s = t := PyString.ofString_inj

@[simp] theorem get_obj {members : List (String × PyJson)} {key : String} :
    PyJson.get (members.map fun member => (lit member.1, member.2)) key =
      (members.find? fun member => member.1 = key).map Prod.snd := by
  rw [PyJson.get, List.find?_map, Option.map_map]
  congr 1
  refine List.find?_congr fun member _ => ?_
  exact decide_eq_decide.mpr lit_inj

theorem member_obj {members : List (String × PyJson)} {key : String} :
    member (obj members) key =
      ((members.find? fun member => member.1 = key).map Prod.snd).getD .none := by
  rw [obj, member, getOrNone, get_obj]

theorem has_obj {members : List (String × PyJson)} {key : String} :
    has (obj members) key = (members.find? fun member => member.1 = key).isSome := by
  rw [obj, has, get_obj, Option.isSome_map]

section
variable {env : Environment} {requestId : PyJson}

theorem reply_error (code : ℤ) (message : PyString) :
    Reply requestId False (error requestId code message) where
  addressed := by simp [error, member_obj]
  single := by simp [error, has_obj]
  success := by
    rw [error, member_obj]
    simp [member]

theorem reply_result {value : PyJson} {success : Prop}
    (h : member value "isError" = .bool false ↔ success) :
    Reply requestId success (result requestId value) where
  addressed := by simp [result, member_obj]
  single := by simp [result, has_obj]
  success := by simp [result, member_obj, h]

theorem reply_resultText (text : PyString) (isError : Bool) :
    Reply requestId (isError = false) (resultText requestId text isError) :=
  reply_result (by simp [member_obj])

theorem reply_refused (text : PyString) : Reply requestId False (resultText requestId text true) :=
  reply_result (by simp [member_obj])

/-! ## One call -/

variable {response params : Members} {exchange : Exchange}

theorem renderItem_eq_none {position : ℕ} {item : PyJson} :
    renderItem env position item = none ↔ Unrenderable item := by
  unfold renderItem Unrenderable
  cases hdocument : (member item "document").truthy with
  | false => simp [hdocument]
  | true => simp [hdocument]

theorem renderItems_eq_none {position : ℕ} {items : List PyJson} :
    renderItems env position items = none ↔ ∃ item ∈ items, Unrenderable item := by
  induction items generalizing position with
  | nil => simp [renderItems]
  | cons item items ih =>
      rw [renderItems, List.exists_mem_cons_iff, ← @ih (position + 1),
        ← @renderItem_eq_none env position item]
      cases renderItem env position item with
      | none => simp
      | some first => simp

theorem render_eq_none :
    render env response = none ↔ sessionQuarantined response = false ∧
      ∃ item ∈ listUnder response "results", Unrenderable item := by
  unfold render
  cases sessionQuarantined response with
  | true => simp
  | false =>
      cases hresults : listUnder response "results" with
      | nil => simp
      | cons item items => simp [renderItems_eq_none]

example : render ⟨none, none, fun _ => .error .malformed, fun _ => lit "", id⟩
    [(lit "results", .list [obj [("document", .int 7)]])] = none := by decide

theorem callService_eq_ok :
    callService env exchange = .ok response ↔ exchange = .body (.ok (.dict response)) := by
  unfold callService
  split
  all_goals simp_all

/-- What is done for a query that may be asked. -/
def answer (env : Environment) (requestId : PyJson) (query : Query) (exchange : Exchange) :
    Served :=
  match callService env exchange with
  | .error (.runtimeError message) =>
      { asked := [query], sent := [resultText requestId message true] }
  | .error .other =>
      { asked := [query], sent := [resultText requestId (lit "VectorAnchor did not answer.") true] }
  | .ok response =>
      match render env response with
      | none => { asked := [query], crashed := true }
      | some text =>
          { asked := [query], sent := [resultText requestId text (sessionQuarantined response)] }

theorem handleCall_of_some {query : Query} (h : callQuery env params = some query) :
    handleCall env requestId params exchange = answer env requestId query exchange := by
  unfold callQuery at h
  obtain ⟨text, htext, h⟩ := Option.bind_eq_some_iff.mp h
  split_ifs at h with hasked
  obtain ⟨hname, hpresent, hbounded, hsession⟩ := hasked
  cases h
  have hpresent : text.strip.points.isEmpty = false := by simpa using hpresent
  have hsession : env.sessionId.points.isEmpty = false := by simpa using hsession
  simp only [handleCall, hname, htext, hpresent, hsession, Nat.not_lt.mpr hbounded, Bool.not_true,
    Bool.false_eq_true, if_false]
  rfl

/-- Otherwise the call is refused. -/
theorem handleCall_of_none (h : callQuery env params = none) :
    ∃ response, handleCall env requestId params exchange = { sent := [response] } ∧
      Reply requestId False response := by
  unfold callQuery at h
  cases hname : isStr (getOrNone params "name") "retrieve" with
  | false =>
      simp only [handleCall, hname, Bool.not_false, if_true]
      exact ⟨_, rfl, reply_error _ _⟩
  | true =>
      simp only [handleCall, hname, Bool.not_true, Bool.false_eq_true, if_false]
      cases htext : (getOrNone (dictUnder params "arguments") "query").asStr with
      | none => exact ⟨_, rfl, reply_refused _⟩
      | some text =>
          simp only [hname, htext, Option.bind_some, true_and, ite_eq_right_iff, reduceCtorEq,
            imp_false, not_and] at h
          dsimp only
          split_ifs with hpresent hbounded hsession
          · exact ⟨_, rfl, reply_refused _⟩
          · exact ⟨_, rfl, reply_refused _⟩
          · exact ⟨_, rfl, reply_refused _⟩
          · exact absurd (by simpa using hsession)
              (h (by simpa using hpresent) (Nat.not_lt.mp hbounded))

end

/-! ## One line -/

/-- An answer to a line, under its id, a success where the service has answered a query. -/
def Answers (env : Environment) (input : PyString × Exchange) (response : PyJson) : Prop :=
  ∃ requestId ∈ awaited env input.1, Reply requestId (Answered env input) response

structure LineServed (env : Environment) (input : PyString × Exchange) (done : Served) : Prop where
  asked : done.asked = (retrieval env input.1).toList
  crashed : done.crashed = true ↔ Kills env input
  silent : done.crashed = true → done.sent = []
  sent : done.crashed = false →
    List.Forall₂ (Answers env) ([input].filter fun i => (awaited env i.1).isSome) done.sent

section
variable {env : Environment} {input : PyString × Exchange} {requestId response : PyJson}
  {message : Members}

theorem not_kills (hread : reading env input.1 ≠ some (.error .other))
    (hquery : retrieval env input.1 = none) : ¬ Kills env input := by
  intro h
  cases h with
  | inl h => exact hread h
  | inr h => rw [hquery] at h; cases h.1

theorem served_nothing (hread : reading env input.1 ≠ some (.error .other))
    (hquery : retrieval env input.1 = none) (hwaits : awaited env input.1 = none) :
    LineServed env input {} where
  asked := by rw [hquery]; rfl
  crashed := iff_of_false Bool.false_ne_true (not_kills hread hquery)
  silent := fun _ => rfl
  sent := fun _ => by
    rw [List.filter_singleton, hwaits]
    exact .nil

theorem served_one (hread : reading env input.1 ≠ some (.error .other))
    (hquery : retrieval env input.1 = none) (hwaits : awaited env input.1 = some requestId)
    (h : Reply requestId False response) : LineServed env input { sent := [response] } where
  asked := by rw [hquery]; rfl
  crashed := iff_of_false Bool.false_ne_true (not_kills hread hquery)
  silent := fun h => absurd h Bool.false_ne_true
  sent := fun _ => by
    have hnot : Answered env input ↔ False := by simp [Answered, hquery]
    rw [List.filter_singleton, hwaits]
    exact .cons ⟨requestId, hwaits, by rwa [hnot]⟩ .nil

theorem served_query {query : Query} {success : Prop} (hkills : ¬ Kills env input)
    (hquery : retrieval env input.1 = some query) (hwaits : awaited env input.1 = some requestId)
    (h : Reply requestId success response) (hsuccess : Answered env input ↔ success) :
    LineServed env input { asked := [query], sent := [response] } where
  asked := by rw [hquery]; rfl
  crashed := iff_of_false Bool.false_ne_true hkills
  silent := fun h => absurd h Bool.false_ne_true
  sent := fun _ => by
    rw [List.filter_singleton, hwaits]
    exact .cons ⟨requestId, hwaits, by rwa [hsuccess]⟩ .nil

/-- A query is asked once. It is answered unless the text of the answer cannot be made. -/
theorem served_answer {query : Query} (hread : reading env input.1 ≠ some (.error .other))
    (hquery : retrieval env input.1 = some query) (hwaits : awaited env input.1 = some requestId) :
    LineServed env input (answer env requestId query input.2) := by
  have hkills : Kills env input ↔
      ∃ response, callService env input.2 = .ok response ∧ render env response = none := by
    simp [Kills, hread, hquery, callService_eq_ok, render_eq_none]
  have hanswered : Answered env input ↔ ∃ response, callService env input.2 = .ok response ∧
      sessionQuarantined response = false := by
    simp [Answered, hquery, callService_eq_ok]
  unfold answer
  cases hcall : callService env input.2 with
  | error failure =>
      have hnot : ¬ Kills env input := by simp [hkills, hcall]
      have hfails : Answered env input ↔ False := by simp [hanswered, hcall]
      cases failure with
      | runtimeError text => exact served_query hnot hquery hwaits (reply_refused text) hfails
      | other => exact served_query hnot hquery hwaits (reply_refused _) hfails
  | ok response =>
      dsimp only
      cases hrender : render env response with
      | none =>
          have hkill : Kills env input := hkills.mpr ⟨response, hcall, hrender⟩
          exact ⟨by rw [hquery]; rfl, iff_of_true rfl hkill, fun _ => rfl, fun h => by cases h⟩
      | some text =>
          have hnot : ¬ Kills env input := by simp [hkills, hcall, hrender]
          have hiff : Answered env input ↔ sessionQuarantined response = false := by
            simp [hanswered, hcall]
          exact served_query hnot hquery hwaits (reply_resultText text _) hiff

/-- A value is one string at most. -/
theorem isStr_of_isStr {v : PyJson} {s : String} (h : isStr v s = true) (t : String) :
    isStr v t = decide (s = t) := by
  have hv : v.asStr = some (lit s) := of_decide_eq_true h
  simp [isStr, hv]

theorem served_message (hread : reading env input.1 = some (.ok (.dict message))) :
    LineServed env input (handleMessage env message input.2) := by
  have hfine : reading env input.1 ≠ some (.error .other) := by rw [hread]; simp
  have hwaits : awaited env input.1 =
      if isNotification message then none else some (getOrNone message "id") := by
    rw [awaited, hread]
  have hquery : retrieval env input.1 =
      if isStr (getOrNone message "method") "tools/call" ∧ ¬ isNone (getOrNone message "id")
      then callQuery env (dictUnder message "params") else none := by
    rw [retrieval, hread]
  unfold isNotification at hwaits
  unfold handleMessage
  dsimp only
  cases hid : isNone (getOrNone message "id") with
  | true =>
      simpa only [if_true, ite_self] using
        served_nothing hfine (by simp [hquery, hid]) (by simp [hwaits, hid])
  | false =>
      simp only [hid, Bool.false_or] at hwaits
      simp only [hid, Bool.false_eq_true, not_false_eq_true, and_true] at hquery
      cases hinitialize : isStr (getOrNone message "method") "initialize" with
      | true =>
          simp only [isStr_of_isStr hinitialize] at hwaits hquery ⊢
          exact served_one hfine hquery hwaits (reply_result (by simp [member_obj]))
      | false =>
      cases hinitialized : isStr (getOrNone message "method") "initialized" with
      | true =>
          simp only [isStr_of_isStr hinitialized] at hwaits hquery ⊢
          exact served_nothing hfine hquery hwaits
      | false =>
      cases hnotified : isStr (getOrNone message "method") "notifications/initialized" with
      | true =>
          simp only [isStr_of_isStr hnotified] at hwaits hquery ⊢
          exact served_nothing hfine hquery hwaits
      | false =>
      rw [hinitialized, hnotified] at hwaits
      cases hping : isStr (getOrNone message "method") "ping" with
      | true =>
          simp only [isStr_of_isStr hping] at hquery ⊢
          exact served_one hfine hquery hwaits (reply_result (by simp [member_obj]))
      | false =>
      cases hlist : isStr (getOrNone message "method") "tools/list" with
      | true =>
          simp only [isStr_of_isStr hlist] at hquery ⊢
          exact served_one hfine hquery hwaits (reply_result (by simp [member_obj]))
      | false =>
      cases hcall : isStr (getOrNone message "method") "tools/call" with
      | false =>
          simp only [hcall] at hquery
          exact served_one hfine hquery hwaits (reply_error _ _)
      | true =>
          simp only [hcall, if_true] at hquery
          cases hparams : callQuery env (dictUnder message "params") with
          | none =>
              obtain ⟨response, hserved, hreply⟩ := @handleCall_of_none env
                (getOrNone message "id") _ input.2 hparams
              simpa [hserved] using served_one hfine (hquery.trans hparams) hwaits hreply
          | some query =>
              rw [handleCall_of_some hparams]
              exact served_answer hfine (hquery.trans hparams) hwaits

theorem served_line : LineServed env input (handleLine env input.1 input.2) := by
  unfold handleLine
  cases hblank : input.1.strip.points.isEmpty with
  | true =>
      have hread : reading env input.1 = none := if_pos hblank
      simp only [hblank, if_true]
      exact served_nothing (by rw [hread]; simp) (by rw [retrieval, hread]) (by rw [awaited, hread])
  | false =>
      have hread : reading env input.1 = some (env.loads input.1.strip) := by
        rw [reading, hblank]
        rfl
      simp only [hblank, Bool.false_eq_true, if_false]
      cases hloads : env.loads input.1.strip with
      | error failure =>
          rw [hloads] at hread
          cases failure with
          | malformed =>
              exact served_one (by rw [hread]; simp) (by rw [retrieval, hread])
                (by rw [awaited, hread]) (reply_error _ _)
          | other =>
              exact ⟨by rw [retrieval, hread]; rfl, iff_of_true rfl (Or.inl hread), fun _ => rfl,
                fun h => by cases h⟩
      | ok value =>
          rw [hloads] at hread
          cases value with
          | dict message => exact served_message hread
          | _ =>
              exact served_one (by rw [hread]; simp) (by rw [retrieval, hread])
                (by rw [awaited, hread]) (reply_error _ _)

end

/-! ## Runs -/

section
variable {env : Environment} {D : Type}

theorem requestedK_bounds {arguments : Members} {k : ℤ} (h : requestedK arguments = some k) :
    1 ≤ k ∧ k ≤ maxK := by
  unfold requestedK at h
  split at h
  · split_ifs at h with hbounds
    cases h
    exact hbounds
  · cases h

theorem permitted_of_retrieval {line : PyString} {query : Query}
    (h : retrieval env line = some query) : Permitted env query := by
  unfold retrieval at h
  split at h
  · split_ifs at h
    obtain ⟨text, -, h⟩ := Option.bind_eq_some_iff.mp h
    split_ifs at h with hasked
    cases h
    exact ⟨hasked.2.1, hasked.2.2.1, hasked.2.2.2, fun k hk => requestedK_bounds hk⟩
  · cases h

/-- A run serves its lines up to the first that ends it. Those that wait for an answer have
theirs, in their order. Of the last line the query may have been asked, and nothing is sent. -/
structure RunServed (env : Environment) (inputs served rest : List (PyString × Exchange))
    (done : Served) : Prop where
  split : inputs = served ++ rest
  alive : ∀ input ∈ served, ¬ Kills env input
  fatal : ∀ input ∈ rest.head?, Kills env input
  crashed : done.crashed = true ↔ rest ≠ []
  answered : List.Forall₂ (Answers env) (served.filter fun i => (awaited env i.1).isSome) done.sent
  asked : done.asked = (served ++ rest.head?.toList).filterMap fun i => retrieval env i.1
  permitted : ∀ query ∈ done.asked, Permitted env query

theorem answers_of_run (env : Environment) (inputs : List (PyString × Exchange)) :
    ∃ served rest, RunServed env inputs served rest (serve env inputs) := by
  induction inputs with
  | nil =>
      refine ⟨[], [], rfl, List.forall_mem_nil _, ?_, ?_, .nil, rfl, List.forall_mem_nil _⟩
      · intro input hinput
        cases hinput
      · exact iff_of_false Bool.false_ne_true fun h => h rfl
  | cons input inputs ih =>
      obtain ⟨served, rest, ih⟩ := ih
      have hline := @served_line env input
      have hfirst : ∀ query ∈ (handleLine env input.1 input.2).asked, Permitted env query := by
        intro query hquery
        rw [hline.asked, Option.mem_toList] at hquery
        exact permitted_of_retrieval hquery
      unfold serve
      dsimp only
      cases hcrashed : (handleLine env input.1 input.2).crashed with
      | true =>
          refine ⟨[], input :: inputs, rfl, List.forall_mem_nil _, ?_,
            iff_of_true hcrashed (List.cons_ne_nil _ _), ?_, ?_, hfirst⟩
          · intro last hlast
            cases hlast
            exact hline.crashed.mp hcrashed
          · simp only [if_true, hline.silent hcrashed]
            exact .nil
          · simp only [if_true, hline.asked]
            rfl
      | false =>
          have hkills : ¬ Kills env input := by simp [← hline.crashed, hcrashed]
          refine ⟨input :: served, rest, by rw [ih.split]; rfl,
            List.forall_mem_cons.mpr ⟨hkills, ih.alive⟩, ih.fatal, ih.crashed, ?_, ?_, ?_⟩
          · simp only [Bool.false_eq_true, if_false]
            rw [← List.singleton_append, List.filter_append]
            exact List.rel_append (hline.sent hcrashed) ih.answered
          · simp only [Bool.false_eq_true, if_false, hline.asked, ih.asked]
            rw [List.cons_append, List.filterMap_cons]
            cases retrieval env input.1 with
            | none => rfl
            | some query => rfl
          · exact List.forall_mem_append.mpr ⟨hfirst, ih.permitted⟩

/-! ## The answers of the retrieval proxy -/

/-- What the service answers to a retrieval, as `json.loads` reads it. -/
def servicePayload (distance : D → PyJson) (found : RetrieveResult D) : Members :=
  let members : List (String × PyJson) := [
    ("query", str found.query),
    ("results", .list <| found.results.map fun candidate => obj [
      ("id", str candidate.id),
      ("document", (candidate.document.map str).getD .none),
      ("distance", distance candidate.distance)]),
    ("withheld", .list <| found.withheld.map fun doc => obj [
      ("id", str doc.id), ("reason", str doc.reason)]),
    ("quarantine_size", .int found.quarantineSize)]
  let members := if found.sessionQuarantined
    then members ++ [("session_quarantined", .bool true)] else members
  members.map fun member => (lit member.1, member.2)

theorem not_unrenderable {distance : D → PyJson} {found : RetrieveResult D} {item : PyJson}
    (h : item ∈ listUnder (servicePayload distance found) "results") : ¬ Unrenderable item := by
  have hresults : getOrNone (servicePayload distance found) "results" =
      .list (found.results.map fun candidate => obj [
        ("id", str candidate.id),
        ("document", (candidate.document.map str).getD .none),
        ("distance", distance candidate.distance)]) := by
    unfold servicePayload getOrNone
    dsimp only
    rw [get_obj]
    cases found.sessionQuarantined with
    | true => simp
    | false => simp
  rw [listUnder, hresults] at h
  obtain ⟨candidate, -, rfl⟩ := List.mem_map.mp h
  intro hbad
  obtain ⟨htruthy, hstr⟩ := hbad
  rw [member_obj] at htruthy hstr
  cases hdocument : candidate.document with
  | none => simp [hdocument, PyJson.truthy] at htruthy
  | some text => simp [hdocument, str, PyJson.asStr] at hstr

/-- With the retrieval proxy behind it only the reading of a line can end the server. -/
theorem all_served {distance : D → PyJson} {inputs : List (PyString × Exchange)}
    (hread : ∀ input ∈ inputs, reading env input.1 ≠ some (.error .other))
    (hservice : ∀ input ∈ inputs, ∀ response, input.2 = .body (.ok (.dict response)) →
      ∃ found, response = servicePayload distance found) :
    (serve env inputs).crashed = false := by
  obtain ⟨served, rest, hrun⟩ := answers_of_run env inputs
  rw [← Bool.not_eq_true, hrun.crashed, not_not]
  cases rest with
  | nil => rfl
  | cons input rest =>
      have hmem : input ∈ inputs := by rw [hrun.split]; simp
      cases hrun.fatal input rfl with
      | inl h => exact absurd h (hread input hmem)
      | inr h =>
          obtain ⟨-, response, hresponse, -, item, hitem, hbad⟩ := h
          obtain ⟨found, rfl⟩ := hservice input hmem response hresponse
          exact absurd hbad (not_unrenderable hitem)

end

end BlackMonolith.VectorAnchor.McpServer
