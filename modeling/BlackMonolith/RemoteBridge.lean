import Mathlib
import BlackMonolith.HttpTransport
import BlackMonolith.Library.Paths

/-!
# The remote bridge

The bridge reads JSON-RPC messages from stdin, a line each, and posts every one of them in a
task of its own. A `select!` waits for the next line and for a task that is done; the one that
comes drops the other, and with it what has been read of a line.
-/
namespace BlackMonolith.RemoteBridge
open Library Json HttpTransport

def maxStdinMessageBytes : ℕ := 1024 * 1024
def maxConcurrentRequests : ℕ := 64
def maxHttpResponseBytes : ℕ := 1024 * 1024

/-! ## A line -/

inductive LineRead
  | tooLong
  | more (bytes : List UInt8)
  | line (bytes rest : List UInt8)

/-- The part of `available` up to a line feed, which is taken. -/
def upToLineFeed (available : List UInt8) : List UInt8 :=
  match available.findIdx? (· = 10) with
  | some index => available.take (index + 1)
  | none => available

/-- One round of `read_bounded_line`, with `bytes` read before. -/
def readAvailable (bytes available : List UInt8) : LineRead :=
  let consumed := upToLineFeed available
  if maxStdinMessageBytes < bytes.length + consumed.length then .tooLong
  else if consumed.getLast? = some 10 then
    .line (bytes ++ consumed) (available.drop consumed.length)
  else .more (bytes ++ consumed)

/-- The line without its end. -/
def lineText (bytes : List UInt8) : List UInt8 :=
  if bytes.getLast? = some 10 then stripCr bytes.dropLast else bytes

/-! ## An answer -/

inductive BodyError
  | exceedsLimit
  | notUtf8
deriving DecidableEq

inductive PostError
  | send
  | sessionChanged
  | acceptedRequest
  | status (status : ℕ) (challenge : String) (body : List Char)
  | body (context : String) (error : BodyError)
  | unread (contexts : List String)
  | unwritten
  | invalidJson
  | notJsonRpc
  | contentType (other : String)
  | stream (error : BridgeError)
deriving DecidableEq

def BodyError.text : BodyError → String
  | .exceedsLimit => "remote MCP response exceeds 1 MiB"
  | .notUtf8 => "HTTP response body was not valid UTF-8"

/-- The texts of an error, the outermost first, without those of the network and of stdout;
`shown` writes a status and `debug` a string in quotes. -/
def PostError.texts (shown : ℕ → String) (debug : String → String) : PostError → List String
  | .send => ["POST MCP message"]
  | .sessionChanged => ["remote MCP server changed the active session identifier"]
  | .acceptedRequest => ["remote returned 202 Accepted for a JSON-RPC request"]
  | .status code challenge excerpt =>
      ["remote MCP server returned " ++ shown code ++
        (if challenge = "" then "" else " (" ++ challenge ++ ")") ++ ": " ++
          String.ofList excerpt]
  | .body context error => [context, error.text]
  | .unread contexts => contexts
  | .unwritten => []
  | .invalidJson => ["remote returned invalid JSON-RPC JSON"]
  | .notJsonRpc => ["message is not JSON-RPC 2.0"]
  | .contentType other => ["unsupported MCP response content type: " ++ debug other]
  | .stream error => [error.text]

/-- What the headers of a response say; of the last two, what `to_str` gives. -/
structure ResponseHead where
  status : ℕ
  session : Option (List UInt8) := none
  contentType : Option String := none
  wwwAuthenticate : Option String := none

def mediaType (contentType : Option String) : String :=
  let value := contentType.getD ""
  Text.asciiLowercase (Text.trim (String.ofList (value.toList.takeWhile (· ≠ ';'))))

def truncate (value : List Char) (limit : ℕ) : List Char :=
  if limit < value.length then value.take limit ++ "...".toList else value

/-- `read_bounded_response_text`, from what has been read on; a string with its bytes. -/
def readBoundedFrom (limit : ℕ) : List UInt8 → List (List UInt8) →
    Except BodyError (List UInt8 × List Char)
  | body, [] =>
      match Utf8.decode body with
      | some text => .ok (body, text)
      | none => .error .notUtf8
  | body, chunk :: chunks =>
      if limit < body.length + chunk.length then .error .exceedsLimit
      else readBoundedFrom limit (body ++ chunk) chunks

def readBoundedResponseText (chunks : List (List UInt8)) (limit : ℕ) :
    Except BodyError (List UInt8 × List Char) :=
  readBoundedFrom limit [] chunks

/-- The messages that were emitted for a request, and the error its task ends with. -/
abbrev Answer := List Value × Option PostError

section
variable (fromStr : List UInt8 → Option Value)

/-- What `post` does with the body of a response whose status is not 202. -/
def readBody (requestId : Option Value) (head : ResponseHead) (chunks : List (List UInt8)) :
    Answer :=
  if ¬ (200 ≤ head.status ∧ head.status < 300) then
    match readBoundedResponseText chunks maxHttpResponseBytes with
    | .error error => ([], some (.body "read remote MCP error response" error))
    | .ok (_, text) =>
        ([], some (.status head.status (head.wwwAuthenticate.getD "") (truncate text 512)))
  else if mediaType head.contentType = "application/json" then
    match readBoundedResponseText chunks maxHttpResponseBytes with
    | .error error => ([], some (.body "read JSON response" error))
    | .ok (body, _) =>
        match fromStr body with
        | none => ([], some .invalidJson)
        | some value => if validateJsonrpc value then ([value], none) else ([], some .notJsonRpc)
  else if mediaType head.contentType = "text/event-stream" then
    ((consumeSse fromStr requestId chunks).1,
      (consumeSse fromStr requestId chunks).2.map .stream)
  else ([], some (.contentType (mediaType head.contentType)))

/-- The error of `read_bounded_response_text` where a chunk after these cannot be read. -/
def unreadText (context : String) (chunks : List (List UInt8)) : Option Answer :=
  if readBoundedResponseText chunks maxHttpResponseBytes = .error .exceedsLimit then none
  else some ([], some (.unread [context, "read HTTP response body"]))

/-- What `post` does where a chunk after these cannot be read; `none` where it reads no more. -/
def readBodyFails (requestId : Option Value) (head : ResponseHead) (chunks : List (List UInt8)) :
    Option Answer :=
  if ¬ (200 ≤ head.status ∧ head.status < 300) then
    unreadText "read remote MCP error response" chunks
  else if mediaType head.contentType = "application/json" then
    unreadText "read JSON response" chunks
  else if mediaType head.contentType = "text/event-stream" then
    -- The stream is open as long as its end would be its next event.
    if (consumeSse fromStr requestId chunks).2 =
        if requestId.isSome then some .endedEarly else none then
      some ((consumeSse fromStr requestId chunks).1, some (.unread ["read MCP SSE response"]))
    else none
  else none

/-- What `post` does where a message cannot be written, after some that were. -/
def emitFails (requestId : Option Value) (head : ResponseHead) (chunks : List (List UInt8))
    (written : ℕ) : Option Answer :=
  let emitted := (readBody fromStr requestId head chunks).1
  if written < emitted.length then some (emitted.take written, some .unwritten) else none

end

/-! ## The bridge -/

/-- How far a task has come. -/
inductive Phase
  | spawned
  | sent
  | receiving (head : ResponseHead)
  | done (answer : Answer)

structure Task where
  number : ℕ
  message : Value
  phase : Phase := .spawned

def Task.requestId (task : Task) : Option Value := task.message.get "id"

inductive RunError
  | lineUnread
  | lineTooLong
  | lineNotUtf8
  | lineNotJson
  | lineNotJsonRpc
  | task (error : PostError)
deriving DecidableEq

def RunError.texts (shown : ℕ → String) (debug : String → String) : RunError → List String
  | .lineUnread => ["read JSON-RPC message from stdin"]
  | .lineTooLong => ["stdio JSON-RPC message exceeds 1 MiB"]
  | .lineNotUtf8 => ["stdio JSON-RPC message was not valid UTF-8"]
  | .lineNotJson => ["stdin contained invalid JSON-RPC JSON"]
  | .lineNotJsonRpc => ["message is not JSON-RPC 2.0"]
  | .task error => error.texts shown debug

/-- What was taken from stdin: a line that was handed on, or a part of one that was dropped. -/
inductive Segment
  | line (bytes : List UInt8)
  | dropped (bytes : List UInt8)

def Segment.bytes : Segment → List UInt8
  | .line bytes | .dropped bytes => bytes

def Segment.handedOn : Segment → Option (List UInt8)
  | .line bytes => some bytes
  | .dropped _ => none

/-- A POST: its message, with the number the message was accepted as, and the session header. -/
structure Posted where
  number : ℕ
  message : Value
  session : Option (List UInt8)

/-- What has happened; no step reads it. -/
structure Journal where
  arrived : List UInt8 := []
  segments : List Segment := []
  accepted : List Value := []
  posted : List Posted := []
  answers : List (ℕ × Answer) := []
  deleted : Option (List UInt8) := none

/-- `stdin` has arrived and is not consumed; `line` is what the read under way holds;
`draining` is after the loop. -/
structure Bridge where
  stdin : List UInt8 := []
  eof : Bool := false
  line : List UInt8 := []
  draining : Bool := false
  session : Option (List UInt8) := none
  tasks : List Task := []
  outcome : Option (Except RunError Unit) := none
  journal : Journal := {}

inductive BridgeAction
  | arrive (bytes : List UInt8)
  | close
  | read (count : ℕ)
  | readEnd
  | readFails
  | send (i : ℕ)
  | sendFails (i : ℕ)
  | headers (i : ℕ) (head : ResponseHead)
  | body (i : ℕ) (chunks : List (List UInt8))
  | bodyFails (i : ℕ) (chunks : List (List UInt8))
  | emitFails (i : ℕ) (chunks : List (List UInt8)) (written : ℕ)
  | join (i : ℕ)
  | finish

def canAcceptRequest (active : ℕ) : Bool := active < maxConcurrentRequests

namespace Bridge
variable (fromStr : List UInt8 → Option Value)

def fail (b : Bridge) (error : RunError) : Bridge := { b with outcome := some (.error error) }

/-- A line that was read. -/
def handOn (b : Bridge) (bytes : List UInt8) : Bridge :=
  let b := { b with line := [], journal.segments := b.journal.segments ++ [.line bytes] }
  match Utf8.decode (lineText bytes) with
  | none => b.fail .lineNotUtf8
  | some text =>
      if Text.trimList text = [] then b
      else
        match fromStr (lineText bytes) with
        | none => b.fail .lineNotJson
        | some message =>
            if validateJsonrpc message then
              { b with
                tasks := b.tasks ++ [{ number := b.journal.accepted.length, message }]
                journal.accepted := b.journal.accepted ++ [message] }
            else b.fail .lineNotJsonRpc

def setPhase (b : Bridge) (i : ℕ) (task : Task) (phase : Phase) : Bridge :=
  { b with tasks := b.tasks.set i { task with phase } }

/-- `remember_session`; `none` where the server has changed the session. -/
def rememberSession (b : Bridge) : Option (List UInt8) → Option Bridge
  | none => some b
  | some incoming =>
      match b.session with
      | none => some { b with session := some incoming }
      | some existing => if existing ≠ incoming then none else some b

/-- What the headers of a response do to its task. -/
def receive (b : Bridge) (i : ℕ) (task : Task) (head : ResponseHead) : Bridge :=
  match b.rememberSession head.session with
  | none => b.setPhase i task (.done ([], some .sessionChanged))
  | some b =>
      if head.status = 202 then
        b.setPhase i task
          (.done ([], if task.requestId.isSome then some .acceptedRequest else none))
      else b.setPhase i task (.receiving head)

/-- A task that is done is taken from the set; what the read under way holds is dropped. -/
def take (b : Bridge) (i : ℕ) (task : Task) (answer : Answer) : Bridge :=
  let b := { b with
    tasks := b.tasks.eraseIdx i
    line := []
    journal.segments := b.journal.segments ++ (if b.line = [] then [] else [.dropped b.line])
    journal.answers := b.journal.answers ++ [(task.number, answer)] }
  match answer.2 with
  | some error => b.fail (.task error)
  | none => b

/-- A step of a task that is in the phase in which it can be taken. -/
def onTask (b : Bridge) (i : ℕ) (f : Task → Option Bridge) : Option Bridge := b.tasks[i]?.bind f

def act (b : Bridge) : BridgeAction → Option Bridge
  | .arrive bytes =>
      if b.eof then none
      else some { b with stdin := b.stdin ++ bytes, journal.arrived := b.journal.arrived ++ bytes }
  | .close => some { b with eof := true }
  | .read count =>
      if !b.draining && canAcceptRequest b.tasks.length && 0 < count && count ≤ b.stdin.length then
        match readAvailable b.line (b.stdin.take count) with
        | .tooLong => some (b.fail .lineTooLong)
        | .more bytes => some { b with line := bytes, stdin := b.stdin.drop count }
        | .line bytes rest => some
            (handOn fromStr { b with stdin := rest ++ b.stdin.drop count } bytes)
      else none
  | .readEnd =>
      if !b.draining && canAcceptRequest b.tasks.length && b.eof && b.stdin.isEmpty then
        some (if b.line = [] then { b with draining := true } else handOn fromStr b b.line)
      else none
  | .readFails =>
      if !b.draining && canAcceptRequest b.tasks.length then some (b.fail .lineUnread) else none
  | .send i => b.onTask i fun task =>
      match task.phase with
      | .spawned => some
          { b.setPhase i task .sent with
            journal.posted := b.journal.posted ++ [⟨task.number, task.message, b.session⟩] }
      | _ => none
  | .sendFails i => b.onTask i fun task =>
      match task.phase with
      | .sent => some (b.setPhase i task (.done ([], some .send)))
      | _ => none
  | .headers i head => b.onTask i fun task =>
      match task.phase with
      | .sent => some (b.receive i task head)
      | _ => none
  | .body i chunks => b.onTask i fun task =>
      match task.phase with
      | .receiving head =>
          some (b.setPhase i task (.done (readBody fromStr task.requestId head chunks)))
      | _ => none
  | .bodyFails i chunks => b.onTask i fun task =>
      match task.phase with
      | .receiving head =>
          (readBodyFails fromStr task.requestId head chunks).map fun answer =>
            b.setPhase i task (.done answer)
      | _ => none
  | .emitFails i chunks written => b.onTask i fun task =>
      match task.phase with
      | .receiving head =>
          (RemoteBridge.emitFails fromStr task.requestId head chunks written).map fun answer =>
            b.setPhase i task (.done answer)
      | _ => none
  | .join i => b.onTask i fun task =>
      match task.phase with
      | .done answer => some (b.take i task answer)
      | _ => none
  | .finish =>
      if b.draining && b.tasks.isEmpty then some
        { b with outcome := some (.ok ()), journal.deleted := b.session }
      else none

/-- Nothing happens after `run` has returned. -/
def step (b : Bridge) (action : BridgeAction) : Option Bridge :=
  if b.outcome.isSome then none else act fromStr b action

end Bridge

/-- The lines that were handed on. -/
def Journal.lines (journal : Journal) : List (List UInt8) :=
  journal.segments.filterMap Segment.handedOn

/-! ## What an action does -/

namespace Bridge
variable {fromStr : List UInt8 → Option Value} {b b' : Bridge}

/-- What a line that is handed on leaves of the input. -/
def withLine (b : Bridge) (bytes : List UInt8) : Bridge :=
  { b with line := [], journal.segments := b.journal.segments ++ [.line bytes] }

theorem rememberSession_eq {incoming : Option (List UInt8)}
    (h : b.rememberSession incoming = some b') :
    ∃ session, b' = { b with session } ∧ (∀ v, b.session = some v → session = some v) ∧
      ∀ v, incoming = some v → session = some v := by
  unfold rememberSession at h
  split at h
  · cases h
    exact ⟨b.session, rfl, fun _ hv => hv, fun _ hv => (by cases hv)⟩
  · next incoming =>
      split at h
      · next hnone =>
          cases h
          refine ⟨some incoming, rfl, fun v hv => ?_, fun v hv => hv⟩
          rw [hnone] at hv
          cases hv
      · next existing hexisting =>
          split_ifs at h with hchanged
          cases h
          rw [not_not] at hchanged
          refine ⟨b.session, rfl, fun _ hv => hv, fun v hv => ?_⟩
          rw [hexisting, hchanged]
          exact hv

theorem act_read {count : ℕ} (h : act fromStr b (.read count) = some b') :
    (b.draining = false ∧ canAcceptRequest b.tasks.length = true ∧ 0 < count ∧
      count ≤ b.stdin.length) ∧
      (readAvailable b.line (b.stdin.take count) = .tooLong ∧ b' = b.fail .lineTooLong ∨
        (∃ bytes, readAvailable b.line (b.stdin.take count) = .more bytes ∧
          b' = { b with line := bytes, stdin := b.stdin.drop count }) ∨
        ∃ bytes rest, readAvailable b.line (b.stdin.take count) = .line bytes rest ∧
          b' = handOn fromStr { b with stdin := rest ++ b.stdin.drop count } bytes) := by
  rw [act] at h
  split_ifs at h with henabled
  simp only [Bool.and_eq_true, Bool.not_eq_true', decide_eq_true_eq] at henabled
  obtain ⟨⟨⟨hdraining, haccepts⟩, hpos⟩, hle⟩ := henabled
  refine ⟨⟨hdraining, haccepts, hpos, hle⟩, ?_⟩
  cases hread : readAvailable b.line (b.stdin.take count) with
  | tooLong =>
      rw [hread] at h
      exact Or.inl ⟨rfl, (Option.some.inj h).symm⟩
  | more bytes =>
      rw [hread] at h
      exact Or.inr (Or.inl ⟨bytes, rfl, (Option.some.inj h).symm⟩)
  | line bytes rest =>
      rw [hread] at h
      exact Or.inr (Or.inr ⟨bytes, rest, rfl, (Option.some.inj h).symm⟩)

theorem act_readEnd (h : act fromStr b .readEnd = some b') :
    (b.draining = false ∧ canAcceptRequest b.tasks.length = true ∧ b.eof = true ∧ b.stdin = []) ∧
      (b.line = [] ∧ b' = { b with draining := true } ∨
        b.line ≠ [] ∧ b' = handOn fromStr b b.line) := by
  rw [act] at h
  split_ifs at h with henabled hempty
  all_goals
    simp only [Bool.and_eq_true, Bool.not_eq_true', List.isEmpty_iff] at henabled
    obtain ⟨⟨⟨hdraining, haccepts⟩, heof⟩, hstdin⟩ := henabled
    refine ⟨⟨hdraining, haccepts, heof, hstdin⟩, ?_⟩
  · exact Or.inl ⟨hempty, (Option.some.inj h).symm⟩
  · exact Or.inr ⟨hempty, (Option.some.inj h).symm⟩

theorem act_send {i : ℕ} (h : act fromStr b (.send i) = some b') :
    ∃ task, b.tasks[i]? = some task ∧ task.phase = .spawned ∧
      b' = { b.setPhase i task .sent with
        journal.posted := b.journal.posted ++ [⟨task.number, task.message, b.session⟩] } := by
  obtain ⟨task, htask, h⟩ := Option.bind_eq_some_iff.mp h
  split at h
  · next hphase => exact ⟨task, htask, hphase, (Option.some.inj h).symm⟩
  · cases h

theorem act_sendFails {i : ℕ} (h : act fromStr b (.sendFails i) = some b') :
    ∃ task, b.tasks[i]? = some task ∧ task.phase = .sent ∧
      b' = b.setPhase i task (.done ([], some .send)) := by
  obtain ⟨task, htask, h⟩ := Option.bind_eq_some_iff.mp h
  split at h
  · next hphase => exact ⟨task, htask, hphase, (Option.some.inj h).symm⟩
  · cases h

theorem act_headers {i : ℕ} {head : ResponseHead}
    (h : act fromStr b (.headers i head) = some b') :
    ∃ task, b.tasks[i]? = some task ∧ task.phase = .sent ∧ b' = b.receive i task head := by
  obtain ⟨task, htask, h⟩ := Option.bind_eq_some_iff.mp h
  split at h
  · next hphase => exact ⟨task, htask, hphase, (Option.some.inj h).symm⟩
  · cases h

theorem act_body {i : ℕ} {chunks : List (List UInt8)}
    (h : act fromStr b (.body i chunks) = some b') :
    ∃ task head, b.tasks[i]? = some task ∧ task.phase = .receiving head ∧
      b' = b.setPhase i task (.done (readBody fromStr task.requestId head chunks)) := by
  obtain ⟨task, htask, h⟩ := Option.bind_eq_some_iff.mp h
  split at h
  · next head hphase => exact ⟨task, head, htask, hphase, (Option.some.inj h).symm⟩
  · cases h

theorem readBodyFails_error {requestId : Option Value} {head : ResponseHead}
    {chunks : List (List UInt8)} {answer : Answer}
    (h : readBodyFails fromStr requestId head chunks = some answer) : answer.2 ≠ none := by
  unfold readBodyFails unreadText at h
  split_ifs at h <;> cases h <;> exact Option.some_ne_none _

theorem emitFails_error {requestId : Option Value} {head : ResponseHead}
    {chunks : List (List UInt8)} {written : ℕ} {answer : Answer}
    (h : RemoteBridge.emitFails fromStr requestId head chunks written = some answer) :
    answer.2 ≠ none := by
  unfold RemoteBridge.emitFails at h
  dsimp only at h
  split_ifs at h
  cases h
  exact Option.some_ne_none _

/-- A body that cannot be read, or a message of it that cannot be written. -/
theorem act_fails {i : ℕ} {chunks : List (List UInt8)} {written : ℕ}
    (h : act fromStr b (.bodyFails i chunks) = some b' ∨
      act fromStr b (.emitFails i chunks written) = some b') :
    ∃ task head answer, b.tasks[i]? = some task ∧ task.phase = .receiving head ∧
      answer.2 ≠ none ∧ b' = b.setPhase i task (.done answer) := by
  rcases h with h | h
  · obtain ⟨task, htask, h⟩ := Option.bind_eq_some_iff.mp h
    split at h
    · next head hphase =>
        obtain ⟨answer, hanswer, rfl⟩ := Option.map_eq_some_iff.mp h
        exact ⟨task, head, answer, htask, hphase, readBodyFails_error hanswer, rfl⟩
    · cases h
  · obtain ⟨task, htask, h⟩ := Option.bind_eq_some_iff.mp h
    split at h
    · next head hphase =>
        obtain ⟨answer, hanswer, rfl⟩ := Option.map_eq_some_iff.mp h
        exact ⟨task, head, answer, htask, hphase, emitFails_error hanswer, rfl⟩
    · cases h

theorem act_readFails (h : act fromStr b .readFails = some b') : b' = b.fail .lineUnread := by
  rw [act] at h
  split_ifs at h
  exact (Option.some.inj h).symm

theorem act_join {i : ℕ} (h : act fromStr b (.join i) = some b') :
    ∃ task answer, b.tasks[i]? = some task ∧ task.phase = .done answer ∧
      b' = b.take i task answer := by
  obtain ⟨task, htask, h⟩ := Option.bind_eq_some_iff.mp h
  split at h
  · next answer hphase => exact ⟨task, answer, htask, hphase, (Option.some.inj h).symm⟩
  · cases h

theorem act_finish (h : act fromStr b .finish = some b') :
    (b.draining = true ∧ b.tasks = []) ∧
      b' = { b with outcome := some (.ok ()), journal.deleted := b.session } := by
  rw [act] at h
  split_ifs at h with henabled
  simp only [Bool.and_eq_true, List.isEmpty_iff] at henabled
  exact ⟨henabled, (Option.some.inj h).symm⟩

theorem act_of_step {action : BridgeAction} (h : b.step fromStr action = some b') :
    b.outcome = none ∧ act fromStr b action = some b' := by
  unfold step at h
  split_ifs at h with hended
  exact ⟨Option.not_isSome_iff_eq_none.mp hended, h⟩

end Bridge

end BlackMonolith.RemoteBridge
