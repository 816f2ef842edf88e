import BlackMonolith.JsonRpc
import BlackMonolith.Library.Paths
import BlackMonolith.Sanitizer

/-!
# From the agent to the server

`forward_agent_to_server` reads one line at a time. A call of a secret-bound
tool is answered by the secret boundary; a call of a revoked session, and one
whose arguments carry an injection or a credential, are refused; everything
else is forwarded as it came. Between lines, an answer of the dashboard may
replace the snapshot of revoked sessions.

`serde_json` parsing, the boundary and the environment are parameters.
-/
namespace BlackMonolith.AgentToServer
open Json JsonRpc Library Sanitizer

/-- A configured secret boundary: the tools it binds, and its answer to a call,
which is where it carries the call out. -/
structure Boundary where
  isSecretTool : String → Bool
  executeMcpToolCall : JsonRpcMessage → String

structure Config where
  mode : ShieldMode
  boundary : Option Boundary
  /-- The variable `MONOLITH_SESSION_ID`. -/
  monolithSessionId : Option String
  unicode : Text.Unicode
  parse : String → Option JsonRpcMessage
  fromStr : String → Option Value

/-- The state of one proxy process that its agent side reads or writes. -/
structure Proxy where
  pendingToolsList : List String
  pendingInspections : List PendingInspection
  reported : List String
  revokedSessions : List String
deriving Repr, DecidableEq

inductive Effect
  | toServer (line : String)
  | toAgent (line : String)
  | execute (msg : JsonRpcMessage)
  | emit (event : Event)
deriving Repr, DecidableEq

/-! ## Revoked sessions -/

/-- The ids an ingest response names as revoked, in the form they are kept. -/
def cleanSessionIds (ids : List Value) : List String :=
  ((ids.filterMap Value.asStr).map Text.trim).filter fun id =>
    !id.isEmpty && Text.len id ≤ 128 && id.toList.all fun c => !Text.isControl c

/-- Adopts the snapshot of an ingest response; a body without one changes nothing. -/
def observeRevokedSessions (cfg : Config) (body : String) (s : Proxy) : Proxy :=
  match ((cfg.fromStr body).bind (·.get "revoked_sessions")).bind Value.asArray with
  | some ids => { s with revokedSessions := cleanSessionIds ids }
  | none => s

def isSessionRevoked (s : Proxy) (sessionId : String) : Bool :=
  let sessionId := Text.trim sessionId
  if sessionId.isEmpty || 128 < Text.len sessionId then false
  else s.revokedSessions.contains sessionId

def configuredSessionId (cfg : Config) : Option String :=
  (cfg.monolithSessionId.map Text.trim).filter fun id => !id.isEmpty && Text.len id ≤ 128

/-- A tool result that refuses the call `msg` with a text for the agent. -/
def refusal (msg : JsonRpcMessage) (text : String) : String :=
  (Value.object
    [("id", msg.id.getD .null),
      ("jsonrpc", .string "2.0"),
      ("result", .object
        [("content", .array
            [.object [("text", .string text), ("type", .string "text")]]),
          ("isError", .bool true)])]).toString

def revokedNotice : String :=
  "[MCP-Shield] Agent session revoked by the cross-layer circuit breaker"

def blockedNotice : String := "[MCP-Shield] Outbound tool call blocked by security policy"

/-- The name a report gives the tool: only an object of parameters has one. -/
def reportedName (msg : JsonRpcMessage) : String := msg.toolName.getD "<unnamed>"

def quarantineEvent (cfg : Config) (sessionId : String) (msg : JsonRpcMessage) : Event :=
  { eventType := "session_quarantined"
    severity := .critical
    details := .object
      [("action_taken", .string (if cfg.mode = .enforce then "blocked" else "logged")),
        ("refusal", .string "tool_call"),
        ("session_id", .string sessionId),
        ("tool", .string (reportedName msg))] }

/-- A session that was already reported is refused without a second event. -/
def inspectRevokedSessionToolCall (cfg : Config) (s : Proxy) (msg : JsonRpcMessage) :
    Proxy × List Effect × Option String :=
  if !msg.isJsonrpc2 || !msg.callsTool then (s, [], none)
  else
    match (configuredSessionId cfg).filter (isSessionRevoked s) with
    | none => (s, [], none)
    | some sessionId =>
        ({ s with reported := pushNew s.reported sessionId },
          if s.reported.contains sessionId then [] else [.emit (quarantineEvent cfg sessionId msg)],
          if cfg.mode = .monitor then none else some (refusal msg revokedNotice))

/-! ## Outbound arguments -/

/-- The families that identify an injection or a credential leaving the agent. -/
def isBlocking (f : Finding) : Bool := f.kind != .shellCommand

def argumentEvent (cfg : Config) (msg : JsonRpcMessage) (scan : ScanResult) (blocking : Bool) :
    Event :=
  let (action, severity) := match cfg.mode, blocking with
    | .enforce, true => ("blocked", Severity.critical)
    | .enforce, false => ("reported", Severity.warning)
    | .monitor, _ => ("logged", Severity.high)
  { eventType := "tool_call_argument_flagged"
    severity
    details := .object
      [("action_taken", .string action),
        ("findings", .array (scan.findings.map Finding.toValue)),
        ("reason", .string scan.summary),
        ("tool", .string (reportedName msg))] }

def inspectOutboundToolCall (cfg : Config) (msg : JsonRpcMessage) :
    List Effect × Option String :=
  if !msg.isJsonrpc2 || !msg.callsTool then ([], none)
  else
    match msg.params.bind Value.asObject with
    | none => ([], none)
    | some params =>
        let scan := scanToolArguments cfg.unicode ((params.lookup "arguments").getD .null)
        let blocking := scan.findings.any isBlocking
        if scan.isSuspicious then
          ([.emit (argumentEvent cfg msg scan blocking)],
            if cfg.mode = .enforce && blocking then some (refusal msg blockedNotice) else none)
        else ([], none)

/-! ## Forwarding -/

def maxToolNameLength : ℕ := 128

def evictionEvent : Event :=
  { eventType := "analysis_error"
    severity := .warning
    details := .object
      [("cap", .number (.int maxPendingToolsList)),
        ("reason", .string "pending tools/list correlation capacity exceeded")] }

/-- The correlation a forwarded request leaves behind. -/
def trackRequest (s : Proxy) (msg : JsonRpcMessage) : Proxy × List Effect :=
  if !msg.isJsonrpc2 then (s, [])
  else
    match msg.idKey with
    | none => (s, [])
    | some key =>
        if msg.method = some "tools/list" then
          let (pending, evicted) := trackPending s.pendingToolsList key
          ({ s with pendingToolsList := pending },
            if evicted.isSome then [.emit evictionEvent] else [])
        else
          match msg.method.bind inspectionKind with
          | none => (s, [])
          | some kind =>
              let resourceId := if kind = .toolResult then
                  msg.toolName.map fun name => String.ofList (name.toList.take maxToolNameLength)
                else none
              let (pending, _) := trackInspection s.pendingInspections ⟨key, kind, resourceId⟩
              ({ s with pendingInspections := pending }, [])

/-- The boundary that takes a call away from the server. -/
def interceptor (cfg : Config) (msg : JsonRpcMessage) : Option Boundary :=
  cfg.boundary.filter fun b =>
    msg.isJsonrpc2 && msg.callsTool && msg.toolName.any b.isSecretTool

/-- One message of the agent, received as `line`. -/
def handleMessage (cfg : Config) (s : Proxy) (line : String) (msg : JsonRpcMessage) :
    Proxy × List Effect :=
  match interceptor cfg msg with
  | some boundary => (s, [.execute msg, .toAgent (boundary.executeMcpToolCall msg)])
  | none =>
      let (s, reports, refused) := inspectRevokedSessionToolCall cfg s msg
      match refused with
      | some answer => (s, reports ++ [.toAgent answer])
      | none =>
          let (findings, blocked) := inspectOutboundToolCall cfg msg
          match blocked with
          | some answer => (s, reports ++ findings ++ [.toAgent answer])
          | none =>
              let (s, warnings) := trackRequest s msg
              (s, reports ++ findings ++ warnings ++ [.toServer line])

/-! ## Runs -/

/-- The session of this proxy stands in the adopted snapshot. -/
def sessionRevoked (cfg : Config) (s : Proxy) : Bool :=
  (configuredSessionId cfg).any s.revokedSessions.contains

/-- A message of the agent, whether its session was revoked when it arrived,
and all that the proxy did about it. -/
structure Handled where
  msg : JsonRpcMessage
  revoked : Bool
  effects : List Effect
deriving Repr, DecidableEq

structure State where
  proxy : Proxy
  closed : Bool
  history : List Handled
deriving Repr, DecidableEq

def State.init : State := ⟨⟨[], [], [], []⟩, false, []⟩

inductive Input
  | line (text : String)
  | snapshot (body : String)
deriving Repr, DecidableEq

def step (cfg : Config) (s : State) : Input → Option State
  | .snapshot body => some { s with proxy := observeRevokedSessions cfg body s.proxy }
  | .line text =>
      if s.closed then none
      else if (Text.trim text).isEmpty then some s
      else
        match cfg.parse text with
        -- Invalid JSON-RPC ends the proxy.
        | none => some { s with closed := true }
        | some msg =>
            let (proxy, effects) := handleMessage cfg s.proxy text msg
            some { s with proxy, history := ⟨msg, sessionRevoked cfg s.proxy, effects⟩ :: s.history }

/-- The call was answered with the refusal of a revoked session, and neither
the server nor the boundary saw it. -/
structure Handled.Refused (h : Handled) : Prop where
  answered : .toAgent (refusal h.msg revokedNotice) ∈ h.effects
  notForwarded : ∀ line, .toServer line ∉ h.effects
  notExecuted : ∀ msg, .execute msg ∉ h.effects

/-- The secret boundary binds the tool that is called. -/
def secretBound (cfg : Config) (msg : JsonRpcMessage) : Bool :=
  cfg.boundary.any fun b => msg.toolName.any b.isSecretTool

section
variable {cfg : Config} {p : Proxy} {s : State} {msg : JsonRpcMessage}

theorem configuredSessionId_spec {id : String} (h : configuredSessionId cfg = some id) :
    Text.trim id = id ∧ id.isEmpty = false ∧ Text.len id ≤ 128 := by
  unfold configuredSessionId at h
  obtain ⟨hmap, hok⟩ := Option.filter_eq_some_iff.mp h
  obtain ⟨raw, -, rfl⟩ := Option.map_eq_some_iff.mp hmap
  simp only [Bool.and_eq_true, Bool.not_eq_true', decide_eq_true_eq] at hok
  exact ⟨Text.trim_trim raw, hok.1, hok.2⟩

/-- The lookup of the source and membership in the snapshot agree on the
session of the proxy. -/
theorem isSessionRevoked_configured {id : String} (h : configuredSessionId cfg = some id) :
    isSessionRevoked p id = p.revokedSessions.contains id := by
  obtain ⟨htrim, hne, hlen⟩ := configuredSessionId_spec h
  have hlong : ¬ 128 < Text.len id := Nat.not_lt.mpr hlen
  unfold isSessionRevoked
  simp only [htrim, hne, hlong, decide_false, Bool.or_false, Bool.false_eq_true, if_false]

theorem sessionRevoked_iff : sessionRevoked cfg p ↔
    ∃ id, (configuredSessionId cfg).filter (isSessionRevoked p) = some id := by
  unfold sessionRevoked
  cases hid : configuredSessionId cfg with
  | none => simp
  | some id => simp [Option.filter, isSessionRevoked_configured hid]

/-- Under enforcement a well-formed call of a revoked session is refused. -/
theorem inspectRevokedSessionToolCall_refuses (hmode : cfg.mode = .enforce)
    (hrev : sessionRevoked cfg p) (h2 : msg.isJsonrpc2) (hcall : msg.callsTool) :
    (inspectRevokedSessionToolCall cfg p msg).2.2 = some (refusal msg revokedNotice) := by
  obtain ⟨id, hid⟩ := sessionRevoked_iff.mp hrev
  unfold inspectRevokedSessionToolCall
  simp only [h2, hcall, hid, hmode, Bool.not_true, Bool.or_self, Bool.false_eq_true, if_false,
    reduceCtorEq]

/-- The reports of the revocation check are events. -/
theorem inspectRevokedSessionToolCall_reports :
    ∀ e ∈ (inspectRevokedSessionToolCall cfg p msg).2.1, ∃ event, e = .emit event := by
  intro e he
  unfold inspectRevokedSessionToolCall at he
  split at he
  · exact absurd he List.not_mem_nil
  · split at he
    · exact absurd he List.not_mem_nil
    · next id _ =>
        by_cases hrep : p.reported.contains id
        · simp only [hrep, if_true, List.not_mem_nil] at he
        · simp only [hrep, Bool.false_eq_true, if_false, List.mem_singleton] at he
          exact ⟨_, he⟩

theorem interceptor_of_secretBound (h2 : msg.isJsonrpc2) (hcall : msg.callsTool)
    (hs : secretBound cfg msg) : ∃ b, interceptor cfg msg = some b := by
  unfold secretBound at hs
  unfold interceptor
  cases hb : cfg.boundary with
  | none => simp [hb] at hs
  | some b =>
      rw [hb, Option.any_some] at hs
      exact ⟨b, by simp only [Option.filter, h2, hcall, hs, Bool.and_self, if_true]⟩

theorem interceptor_eq_none (h : ¬ msg.isJsonrpc2 ∨ ¬ secretBound cfg msg) :
    interceptor cfg msg = none := by
  unfold secretBound at h
  unfold interceptor
  cases hb : cfg.boundary with
  | none => rfl
  | some b =>
      rw [hb, Option.any_some] at h
      rcases h with h | h <;> simp [Option.filter, h]

/-- One call of a revoked session: it is refused exactly when it is JSON-RPC 2.0
and its tool is not secret-bound. -/
theorem handleMessage_refused_iff (line : String) (hmode : cfg.mode = .enforce) (hrev : sessionRevoked cfg p)
    (hcall : msg.callsTool) :
    (Handled.mk msg true (handleMessage cfg p line msg).2).Refused ↔
      msg.isJsonrpc2 ∧ ¬ secretBound cfg msg := by
  by_cases h2 : msg.isJsonrpc2
  · by_cases hs : secretBound cfg msg
    · obtain ⟨b, hb⟩ := interceptor_of_secretBound h2 hcall hs
      refine ⟨fun h => absurd ?_ (h.notExecuted msg), fun h => absurd hs h.2⟩
      simp only [handleMessage, hb]
      exact List.mem_cons_self
    · have hnone := interceptor_eq_none (Or.inr hs)
      have hanswer := inspectRevokedSessionToolCall_refuses hmode hrev h2 hcall
      have heffects : (handleMessage cfg p line msg).2 =
          (inspectRevokedSessionToolCall cfg p msg).2.1 ++
            [.toAgent (refusal msg revokedNotice)] := by
        simp only [handleMessage, hnone, hanswer]
      have hother : ∀ e, (∀ event, e ≠ .emit event) → (∀ answer, e ≠ .toAgent answer) →
          e ∉ (handleMessage cfg p line msg).2 := by
        intro e hemit hagent he
        rw [heffects] at he
        rcases List.mem_append.mp he with he | he
        · obtain ⟨event, rfl⟩ := inspectRevokedSessionToolCall_reports e he
          exact hemit event rfl
        · exact hagent _ (List.mem_singleton.mp he)
      refine ⟨fun _ => ⟨h2, hs⟩, fun _ => ⟨?_, fun l => ?_, fun m => ?_⟩⟩
      · change _ ∈ (handleMessage cfg p line msg).2
        rw [heffects]
        exact List.mem_append_right _ (List.mem_singleton_self _)
      · exact hother _ (fun _ => Effect.noConfusion) (fun _ => Effect.noConfusion)
      · exact hother _ (fun _ => Effect.noConfusion) (fun _ => Effect.noConfusion)
  · have hnone := @interceptor_eq_none cfg _ (Or.inl h2)
    refine ⟨fun h => absurd ?_ (h.notForwarded line), fun h => absurd h.1 h2⟩
    have hrevoked : inspectRevokedSessionToolCall cfg p msg = (p, [], none) := by
      simp [inspectRevokedSessionToolCall, h2]
    have hblocked : inspectOutboundToolCall cfg msg = ([], none) := by
      simp [inspectOutboundToolCall, h2]
    simp only [handleMessage, hnone, hrevoked, hblocked]
    exact List.mem_append_right _ (List.mem_singleton_self _)

/-- Each entry of the history is one message handled under the snapshot of its time. -/
def Handled.Sound (cfg : Config) (c : Handled) : Prop :=
  ∃ p line, c.revoked = sessionRevoked cfg p ∧ c.effects = (handleMessage cfg p line c.msg).2

theorem step_sound {i : Input} {t : State} (hs : ∀ c ∈ s.history, c.Sound cfg)
    (h : step cfg s i = some t) : ∀ c ∈ t.history, c.Sound cfg := by
  cases i with
  | snapshot body =>
      cases h
      exact hs
  | line text =>
      simp only [step] at h
      split_ifs at h
      · cases h
        exact hs
      · split at h
        · cases h
          exact hs
        · next msg hmsg =>
            cases h
            intro c hc
            rcases List.mem_cons.mp hc with rfl | hc
            · exact ⟨s.proxy, text, rfl, rfl⟩
            · exact hs c hc

/-- In every run, exactly the calls of a revoked session that are JSON-RPC 2.0
and name no secret-bound tool are refused. -/
theorem revoked_calls_refused {as : List Input} (hmode : cfg.mode = .enforce)
    (h : Path (step cfg) unguarded State.init as s) :
    ∀ c ∈ s.history, c.revoked → c.msg.callsTool →
      (c.Refused ↔ c.msg.isJsonrpc2 ∧ ¬ secretBound cfg c.msg) := by
  have hsound : ∀ c ∈ s.history, c.Sound cfg :=
    h.invariant (fun _ _ _ hs _ ht => step_sound hs ht) fun _ hc => absurd hc List.not_mem_nil
  intro c hc hrev hcall
  obtain ⟨p, line, hp, he⟩ := hsound c hc
  have hiff := handleMessage_refused_iff line hmode (hp ▸ hrev) hcall
  rw [← he] at hiff
  exact ⟨fun hr => hiff.mp ⟨hr.answered, hr.notForwarded, hr.notExecuted⟩,
    fun hr => ⟨(hiff.mpr hr).answered, (hiff.mpr hr).notForwarded, (hiff.mpr hr).notExecuted⟩⟩

end

/-! ## A run under a revoked session -/

def callMessage (jsonrpc : Option String) (tool : String) : JsonRpcMessage :=
  { jsonrpc
    id := some (.number (.int 1))
    method := some "tools/call"
    params := some (.object [("name", .string tool)]) }

def payLine : String :=
  "\x7b\"jsonrpc\":\"2.0\",\"id\":1,\"method\":\"tools/call\",\"params\":\x7b\"name\":\"pay\"\x7d\x7d"

def readLine : String :=
  "\x7b\"jsonrpc\":\"2.0\",\"id\":1,\"method\":\"tools/call\",\"params\":\x7b\"name\":\"read\"\x7d\x7d"

def bareReadLine : String :=
  "\x7b\"id\":1,\"method\":\"tools/call\",\"params\":\x7b\"name\":\"read\"\x7d\x7d"

def snapshotBody : String := "\x7b\"revoked_sessions\":[\"s1\"]\x7d"

/-- The session `s1` of a proxy whose boundary binds the tool `pay`; the parser
knows the lines of the runs below. -/
def boundConfig : Config :=
  { mode := .enforce
    boundary := some ⟨fun name => name == "pay", fun _ => "paid"⟩
    monolithSessionId := some "s1"
    unicode := Text.asciiOnly
    parse := fun line => [(payLine, callMessage (some "2.0") "pay"),
      (readLine, callMessage (some "2.0") "read"),
      (bareReadLine, callMessage none "read")].lookup line
    fromStr := fun body => if body = snapshotBody then
        some (.object [("revoked_sessions", .array [.string "s1"])])
      else none }

/-- Neither a secret-bound call nor one without a protocol version is refused. -/
theorem revoked_session_executes :
    ∃ s, execute (step boundConfig) State.init
        [.snapshot snapshotBody, .line bareReadLine, .line payLine] = some s ∧
      s.history.length = 2 ∧ ∀ c ∈ s.history, c.revoked ∧ c.msg.callsTool ∧ ¬ c.Refused := by
  refine ⟨_, rfl, rfl, ?_⟩
  intro c hc
  rcases List.mem_cons.mp hc with rfl | hc
  · exact ⟨by decide, rfl, fun h => h.notExecuted _ List.mem_cons_self⟩
  · obtain rfl := List.mem_singleton.mp hc
    exact ⟨by decide, rfl, fun h => h.notForwarded bareReadLine (by decide)⟩

theorem revoked_calls_refused_read :
    ∃ s, execute (step boundConfig) State.init [.snapshot snapshotBody, .line readLine] = some s ∧
      s.history.length = 1 ∧ ∀ c ∈ s.history, c.revoked ∧ c.Refused := by
  have h : execute (step boundConfig) State.init
      [.snapshot snapshotBody, .line readLine] = some _ := rfl
  refine ⟨_, h, rfl, ?_⟩
  intro c hc
  have hiff := revoked_calls_refused rfl (Path.of_execute h) c hc
  obtain rfl := List.mem_singleton.mp hc
  exact ⟨by decide, (hiff (by decide) rfl).mpr (by decide)⟩

end BlackMonolith.AgentToServer
