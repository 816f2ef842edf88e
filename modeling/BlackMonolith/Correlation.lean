import BlackMonolith.Baseline.ListingSafety
import BlackMonolith.Library.KeyedQueues
import BlackMonolith.ServerToAgent

/-!
# The correlation of responses with requests

Both sides of the proxy share two bounded queues of correlation keys. Beside
them stands a table without bounds, defined by what the agent and the server
have exchanged: a request is outstanding from the time it is forwarded until a
response carries its key. While the table stays within the bounds the queues
represent it, so each response is handed to the analysis of its request.
-/
namespace BlackMonolith.Correlation
open Json JsonRpc Library AgentToServer Baseline ServerToAgent

/-- One proxy: both sides are given the same mode, sanitizer and boundary. -/
structure Config where
  agent : AgentToServer.Config
  shield : Shield
  sameMode : shield.mode = agent.mode
  sameUnicode : shield.unicode = agent.unicode
  sameTools : shield.boundary.map (·.isSecretTool) = agent.boundary.map (·.isSecretTool)

/-- What a response finds when it arrives. -/
structure Arrival (δ : Type) where
  proxy : Proxy
  env : Surroundings
  store : BaselineStore δ
  disk : Option Contents

/-- A message that passed, and what the proxy did about it. -/
inductive Exchange (δ : Type)
  | request (msg : JsonRpcMessage) (effects : List Effect)
  | response (msg : JsonRpcMessage) (before : Arrival δ) (relayed : Relayed δ)

/-- The latest exchange comes first. -/
structure State (δ : Type) where
  proxy : Proxy
  store : BaselineStore δ
  closed : Bool := false
  history : List (Exchange δ) := []

inductive Input
  | agent (line : String)
  | server (line : String) (env : Surroundings) (disk : Option Contents)
  | snapshot (body : String)

def State.init {δ : Type} (store : BaselineStore δ) : State δ where
  proxy := ⟨[], [], [], []⟩
  store

section
variable {δ : Type} [DecidableEq δ] (cfg : Config) (fmt : Format δ)
  (hmac : String → Except String String)

/-- Invalid JSON-RPC from either side ends the proxy. -/
def step (s : State δ) : Input → Option (State δ)
  | .snapshot body => some { s with proxy := observeRevokedSessions cfg.agent body s.proxy }
  | .agent line =>
      if s.closed then none
      else if (Text.trim line).isEmpty then some s
      else
        match cfg.agent.parse line with
        | none => some { s with closed := true }
        | some msg =>
            let r := handleMessage cfg.agent s.proxy line msg
            some { s with proxy := r.1, history := .request msg r.2 :: s.history }
  | .server line env disk =>
      if s.closed then none
      else if (Text.trim line).isEmpty then some s
      else
        match cfg.agent.parse line with
        | none => some { s with closed := true }
        | some msg =>
            let r := forwardServerToAgent cfg.shield fmt hmac env s.proxy s.store disk msg
            some
              { s with
                proxy := r.proxy
                store := r.store
                history := .response msg ⟨s.proxy, env, s.store, disk⟩ r :: s.history }

end

/-! ## Outstanding requests -/

/-- The key a JSON-RPC 2.0 message is correlated by. -/
def correlationKey (msg : JsonRpcMessage) : Option String :=
  if msg.isJsonrpc2 then msg.idKey else none

def responseKey (msg : JsonRpcMessage) : Option String :=
  if msg.isResponse then correlationKey msg else none

def isForwarded (effects : List Effect) : Bool :=
  effects.any fun
    | .toServer _ => true
    | _ => false

/-- How the response to a request is to be inspected. -/
def inspectionOf (key : String) (kind : InspectionKind) (msg : JsonRpcMessage) :
    PendingInspection where
  key
  kind
  resourceId :=
    if kind = .toolResult then
      msg.toolName.map fun name => String.ofList (name.toList.take AgentToServer.maxToolNameLength)
    else none

/-- The requests without an answer, by key: the keys of tools/list requests, and
the inspections the other requests ask for. -/
structure Outstanding where
  toolsList : Finmap fun _ : String => String
  inspections : Finmap fun _ : String => PendingInspection

namespace Outstanding

/-- A request takes the place of an older one of its kind with its key. -/
def opened (t : Outstanding) (msg : JsonRpcMessage) : Outstanding :=
  match correlationKey msg with
  | none => t
  | some key =>
      if msg.method = some "tools/list" then { t with toolsList := t.toolsList.insert key key }
      else
        match msg.method.bind inspectionKind with
        | none => t
        | some kind => { t with inspections := t.inspections.insert key (inspectionOf key kind msg) }

/-- A response answers the tools/list request with its key, or else the other one. -/
def answered (t : Outstanding) (msg : JsonRpcMessage) : Outstanding :=
  match responseKey msg with
  | none => t
  | some key =>
      if key ∈ t.toolsList then { t with toolsList := t.toolsList.erase key }
      else { t with inspections := t.inspections.erase key }

def within (t : Outstanding) : Prop :=
  t.toolsList.keys.card ≤ maxPendingToolsList ∧ t.inspections.keys.card ≤ maxPendingToolsList

instance (t : Outstanding) : Decidable t.within := inferInstanceAs (Decidable (_ ∧ _))

end Outstanding

/-- The requests without an answer after some exchanges. -/
def outstanding {δ : Type} : List (Exchange δ) → Outstanding
  | [] => ⟨∅, ∅⟩
  | .request msg effects :: earlier =>
      if isForwarded effects then (outstanding earlier).opened msg else outstanding earlier
  | .response msg _ _ :: earlier => (outstanding earlier).answered msg

/-! ## The queues -/

section
variable {α : Type*} {key : α → String} {queue : List α} {table : Finmap fun _ : String => α}

/-- Nothing is evicted while the table stays within the bound. -/
theorem represents_track (h : Represents key queue table) (e : α)
    (hw : (table.insert (key e) e).keys.card ≤ maxPendingToolsList) :
    Represents key (track key queue e).1 (table.insert (key e) e) := by
  have hpushed := h.push e
  unfold track
  rw [if_neg]
  · exact hpushed
  · rw [hpushed.length_eq_card]
    omega

end

/-- The queues of the proxy hold the outstanding requests. -/
structure Tracks (p : Proxy) (t : Outstanding) : Prop where
  toolsList : Represents id p.pendingToolsList t.toolsList
  inspections : Represents PendingInspection.key p.pendingInspections t.inspections

/-- The processes agree on what is pending. -/
structure SamePending (p p' : Proxy) : Prop where
  toolsList : p'.pendingToolsList = p.pendingToolsList
  inspections : p'.pendingInspections = p.pendingInspections

theorem Tracks.congr {p p' : Proxy} {t : Outstanding} (h : Tracks p t) (hp : SamePending p p') :
    Tracks p' t := by
  constructor
  · rw [hp.toolsList]
    exact h.toolsList
  · rw [hp.inspections]
    exact h.inspections

theorem trackRequest_tracks {p : Proxy} {t : Outstanding} {msg : JsonRpcMessage} (h : Tracks p t)
    (hw : (t.opened msg).within) : Tracks (trackRequest p msg).1 (t.opened msg) := by
  unfold trackRequest
  unfold Outstanding.opened correlationKey at hw ⊢
  cases h2 : msg.isJsonrpc2 with
  | false => exact h
  | true =>
      simp only [h2, Bool.not_true, Bool.false_eq_true, if_false, if_true] at hw ⊢
      cases hkey : msg.idKey with
      | none => exact h
      | some key =>
          simp only [hkey] at hw ⊢
          by_cases hlist : msg.method = some "tools/list"
          · simp only [if_pos hlist] at hw ⊢
            exact ⟨represents_track h.toolsList key hw.1, h.inspections⟩
          · simp only [if_neg hlist] at hw ⊢
            cases hkind : msg.method.bind inspectionKind with
            | none => exact h
            | some kind =>
                simp only [hkind] at hw ⊢
                exact ⟨h.toolsList, represents_track h.inspections (inspectionOf key kind msg) hw.2⟩

/-! ## The agent -/

section
variable {cfg : AgentToServer.Config} {p : Proxy} {msg : JsonRpcMessage}

theorem inspectRevokedSessionToolCall_pending :
    SamePending p (inspectRevokedSessionToolCall cfg p msg).1 := by
  unfold inspectRevokedSessionToolCall
  split
  · exact ⟨rfl, rfl⟩
  · split
    · exact ⟨rfl, rfl⟩
    · exact ⟨rfl, rfl⟩

theorem inspectOutboundToolCall_reports :
    isForwarded (inspectOutboundToolCall cfg msg).1 = false := by
  unfold inspectOutboundToolCall
  split
  · rfl
  · split
    · rfl
    · dsimp only
      split
      · rfl
      · rfl

theorem isForwarded_append (effects effects' : List Effect) :
    isForwarded (effects ++ effects') = (isForwarded effects || isForwarded effects') :=
  List.any_append

theorem isForwarded_revoked :
    isForwarded (inspectRevokedSessionToolCall cfg p msg).2.1 = false := by
  unfold isForwarded
  rw [List.any_eq_false]
  intro e hmem
  obtain ⟨event, rfl⟩ := inspectRevokedSessionToolCall_reports e hmem
  exact Bool.false_ne_true

/-- A request is tracked exactly when it is forwarded. -/
theorem handleMessage_pending (line : String) :
    (isForwarded (handleMessage cfg p line msg).2 = false ∧
      SamePending p (handleMessage cfg p line msg).1) ∨
    (isForwarded (handleMessage cfg p line msg).2 = true ∧
      ∃ p', SamePending p p' ∧ (handleMessage cfg p line msg).1 = (trackRequest p' msg).1) := by
  unfold handleMessage
  split
  · exact Or.inl ⟨rfl, rfl, rfl⟩
  · dsimp only
    have hrevoked := @isForwarded_revoked cfg p msg
    have hpending := @inspectRevokedSessionToolCall_pending cfg p msg
    split
    · refine Or.inl ⟨?_, hpending⟩
      rw [isForwarded_append, hrevoked]
      rfl
    · split
      · refine Or.inl ⟨?_, hpending⟩
        rw [isForwarded_append, isForwarded_append, hrevoked, inspectOutboundToolCall_reports]
        rfl
      · refine Or.inr ⟨?_, _, hpending, rfl⟩
        rw [isForwarded_append]
        exact Bool.or_true _

end

/-! ## The server -/

section
variable {δ : Type} [DecidableEq δ] {cfg : Config} {fmt : Format δ}
  {hmac : String → Except String String} {store : BaselineStore δ} {disk : Option Contents}
  {p : Proxy} {t : Outstanding} {msg : JsonRpcMessage}

/-- What is handed to an analysis is sent on as the analysis leaves it. -/
def Handed (cfg : Config) (fmt : Format δ) (hmac : String → Except String String)
    (msg : JsonRpcMessage) (before : Arrival δ) (relayed : Relayed δ) : Prop :=
  match relayed.route with
  | .passThrough => True
  | .toolsList =>
      relayed.delivered msg =
        (analyzeToolsListWithBoundary cfg.shield fmt hmac before.env msg before.store
          before.disk).delivered msg
  | .inspection entry =>
      relayed.delivered msg =
        match (analyzeInspectableResponse cfg.shield.unicode cfg.shield.mode msg entry).1 with
        | .ok (some line) => line
        | _ => msg

/-- A response meets the analysis of the outstanding request with its key, and
leaves the entries of all other requests. -/
structure Correlated (cfg : Config) (fmt : Format δ) (hmac : String → Except String String)
    (t : Outstanding) (msg : JsonRpcMessage) (before : Arrival δ) (relayed : Relayed δ) :
    Prop where
  toolsList : ∀ key, responseKey msg = some key → key ∈ t.toolsList →
    relayed.route = .toolsList
  inspection : ∀ key entry, responseKey msg = some key → key ∉ t.toolsList →
    t.inspections.lookup key = some entry → relayed.route = .inspection entry
  handed : Handed cfg fmt hmac msg before relayed
  keepsToolsList : ∀ key ∈ before.proxy.pendingToolsList, responseKey msg ≠ some key →
    key ∈ relayed.proxy.pendingToolsList
  keepsInspections : ∀ entry ∈ before.proxy.pendingInspections, responseKey msg ≠ some entry.key →
    entry ∈ relayed.proxy.pendingInspections

/-- Where a response goes and which entry it takes, by its key. -/
theorem routeResponse_cases (p : Proxy) (msg : JsonRpcMessage) :
    (responseKey msg = none ∧ routeResponse p msg = (p, .passThrough)) ∨
    ∃ key, responseKey msg = some key ∧
      routeResponse p msg =
        if key ∈ p.pendingToolsList then
          ({ p with pendingToolsList := p.pendingToolsList.eraseP (· == key) }, .toolsList)
        else
          match p.pendingInspections.find? (·.key == key) with
          | some entry =>
              ({ p with pendingInspections := p.pendingInspections.eraseP (·.key == key) },
                .inspection entry)
          | none => (p, .passThrough) := by
  unfold responseKey correlationKey routeResponse
  cases h2 : msg.isJsonrpc2 with
  | false =>
      refine Or.inl ⟨?_, ?_⟩
      · split <;> rfl
      · rfl
  | true =>
      cases hresponse : msg.isResponse with
      | false => exact Or.inl ⟨rfl, rfl⟩
      | true =>
          cases hkey : msg.idKey with
          | none => exact Or.inl ⟨rfl, rfl⟩
          | some key =>
              refine Or.inr ⟨key, rfl, ?_⟩
              have hfound : (takePending p.pendingToolsList key).2 =
                  decide (key ∈ p.pendingToolsList) := by
                unfold takePending take
                rw [Bool.eq_iff_iff]
                simp only [id_eq, List.find?_isSome, beq_iff_eq, decide_eq_true_iff]
                constructor
                · intro h
                  obtain ⟨k, hmem, rfl⟩ := h
                  exact hmem
                · exact fun hmem => ⟨key, hmem, rfl⟩
              simp only [Bool.and_self, if_true, hfound, decide_eq_true_iff]
              split
              · rfl
              · rfl

theorem routeResponse_tracks (h : Tracks p t) : Tracks (routeResponse p msg).1 (t.answered msg) := by
  unfold Outstanding.answered
  rcases routeResponse_cases p msg with ⟨hnone, hroute⟩ | ⟨key, hkey, hroute⟩
  · rw [hnone, hroute]
    exact h
  · have hmem : key ∈ t.toolsList ↔ key ∈ p.pendingToolsList := by
      rw [← Finmap.mem_keys, h.toolsList.mem_keys, List.map_id]
    rw [hkey, hroute]
    simp only [hmem]
    split
    · exact ⟨h.toolsList.erase key, h.inspections⟩
    · split
      · exact ⟨h.toolsList, h.inspections.erase key⟩
      · next hnone =>
          refine ⟨h.toolsList, ?_⟩
          have herase : p.pendingInspections.eraseP (fun e => e.key == key) =
              p.pendingInspections := by
            rw [List.eraseP_of_forall_not]
            exact List.find?_eq_none.mp hnone
          have hkept := h.inspections.erase key
          rw [herase] at hkept
          exact hkept

theorem forward_route (env : Surroundings) :
    (forwardServerToAgent cfg.shield fmt hmac env p store disk msg).proxy =
        (routeResponse p msg).1 ∧
      (forwardServerToAgent cfg.shield fmt hmac env p store disk msg).route =
        (routeResponse p msg).2 ∧
      Handed cfg fmt hmac msg ⟨p, env, store, disk⟩
        (forwardServerToAgent cfg.shield fmt hmac env p store disk msg) := by
  unfold forwardServerToAgent
  cases hroute : routeResponse p msg with
  | mk p' route =>
      cases route with
      | passThrough => exact ⟨rfl, rfl, trivial⟩
      | toolsList =>
          dsimp only
          split
          · next rewritten houtcome =>
              refine ⟨rfl, rfl, ?_⟩
              dsimp only [Handed]
              unfold Analysis.delivered
              rw [houtcome]
              cases rewritten with
              | none => rfl
              | some line => rfl
          · next houtcome =>
              refine ⟨rfl, rfl, ?_⟩
              dsimp only [Handed]
              unfold Analysis.delivered
              rw [houtcome]
              rfl
          · next error houtcome =>
              refine ⟨rfl, rfl, ?_⟩
              dsimp only [Handed]
              unfold Analysis.delivered
              rw [houtcome]
              rfl
      | inspection entry =>
          dsimp only
          split
          · next rewritten events hanalysis =>
              refine ⟨rfl, rfl, ?_⟩
              dsimp only [Handed]
              rw [hanalysis]
              cases rewritten with
              | none => rfl
              | some line => rfl
          · next error events hanalysis =>
              refine ⟨rfl, rfl, ?_⟩
              dsimp only [Handed]
              rw [hanalysis]
              rfl

theorem forward_correlated (h : Tracks p t) (env : Surroundings) :
    Correlated cfg fmt hmac t msg ⟨p, env, store, disk⟩
      (forwardServerToAgent cfg.shield fmt hmac env p store disk msg) := by
  obtain ⟨hproxy, hroute, hhanded⟩ :=
    @forward_route _ _ cfg fmt hmac store disk p msg env
  have hmem : ∀ key, key ∈ t.toolsList ↔ key ∈ p.pendingToolsList := by
    intro key
    rw [← Finmap.mem_keys, h.toolsList.mem_keys, List.map_id]
  have hcases := routeResponse_cases p msg
  constructor
  · intro key hkey hlisted
    rw [hroute]
    rcases hcases with ⟨hnone, -⟩ | ⟨key', hkey', heq⟩
    · rw [hnone] at hkey
      cases hkey
    · rw [hkey'] at hkey
      cases hkey
      rw [heq, if_pos ((hmem key).mp hlisted)]
  · intro key entry hkey hunlisted hentry
    rw [hroute]
    rcases hcases with ⟨hnone, -⟩ | ⟨key', hkey', heq⟩
    · rw [hnone] at hkey
      cases hkey
    · rw [hkey'] at hkey
      cases hkey
      rw [h.inspections.lookup] at hentry
      rw [heq, if_neg fun hlisted => hunlisted ((hmem key).mpr hlisted), hentry]
  · exact hhanded
  · intro key hpending hother
    rw [hproxy]
    rcases hcases with ⟨-, heq⟩ | ⟨key', hkey', heq⟩
    · rw [heq]
      exact hpending
    · rw [heq]
      split
      · rw [List.mem_eraseP_of_neg]
        · exact hpending
        · intro hsame
          exact hother (hkey'.trans (congrArg some (beq_iff_eq.mp hsame).symm))
      · split
        · exact hpending
        · exact hpending
  · intro entry hpending hother
    rw [hproxy]
    rcases hcases with ⟨-, heq⟩ | ⟨key', hkey', heq⟩
    · rw [heq]
      exact hpending
    · rw [heq]
      split
      · exact hpending
      · split
        · rw [List.mem_eraseP_of_neg]
          · exact hpending
          · intro hsame
            exact hother (hkey'.trans (congrArg some (beq_iff_eq.mp hsame).symm))
        · exact hpending

/-! ## Runs -/

/-- The queues hold the outstanding requests, and each response has met the
analysis of the request that was outstanding under its key. -/
structure State.Sound (cfg : Config) (fmt : Format δ) (hmac : String → Except String String)
    (s : State δ) : Prop where
  tracks : Tracks s.proxy (outstanding s.history)
  correlated : ∀ earlier msg before relayed,
    .response msg before relayed :: earlier <:+ s.history →
      Correlated cfg fmt hmac (outstanding earlier) msg before relayed

/-- No step takes the outstanding requests of a kind over the bound. -/
def withinCapacity (cfg : Config) (fmt : Format δ) (hmac : String → Except String String)
    (s : State δ) (input : Input) : Prop :=
  ∀ s', step cfg fmt hmac s input = some s' → (outstanding s'.history).within

theorem State.init_sound (store : BaselineStore δ) :
    (State.init store).Sound cfg fmt hmac := by
  refine ⟨⟨Represents.nil, Represents.nil⟩, ?_⟩
  intro earlier msg before relayed hsuffix
  exact absurd (List.suffix_nil.mp hsuffix) (List.cons_ne_nil _ _)

theorem step_sound (s : State δ) (input : Input) (s' : State δ) (h : s.Sound cfg fmt hmac)
    (hg : withinCapacity cfg fmt hmac s input) (hstep : step cfg fmt hmac s input = some s') :
    s'.Sound cfg fmt hmac := by
  have hwithin := hg s' hstep
  cases input with
  | snapshot body =>
      cases hstep
      refine ⟨h.tracks.congr ?_, h.correlated⟩
      unfold observeRevokedSessions
      split
      · exact ⟨rfl, rfl⟩
      · exact ⟨rfl, rfl⟩
  | agent line =>
      simp only [step] at hstep
      split_ifs at hstep
      · cases hstep
        exact h
      · split at hstep
        · cases hstep
          exact ⟨h.tracks, h.correlated⟩
        · next msg _ =>
            cases hstep
            refine ⟨?_, ?_⟩
            · dsimp only [outstanding] at hwithin ⊢
              rcases @handleMessage_pending cfg.agent s.proxy msg line with
                ⟨hstays, hsame⟩ | ⟨hforwarded, p', hsame, htracked⟩
              · rw [hstays, if_neg Bool.false_ne_true]
                exact h.tracks.congr hsame
              · rw [hforwarded, if_pos rfl] at hwithin ⊢
                rw [htracked]
                exact trackRequest_tracks (h.tracks.congr hsame) hwithin
            · intro earlier msg' before relayed hsuffix
              rcases List.suffix_cons_iff.mp hsuffix with heq | hold
              · cases heq
              · exact h.correlated earlier msg' before relayed hold
  | server line env disk =>
      simp only [step] at hstep
      split_ifs at hstep
      · cases hstep
        exact h
      · split at hstep
        · cases hstep
          exact ⟨h.tracks, h.correlated⟩
        · next msg _ =>
            cases hstep
            refine ⟨?_, ?_⟩
            · dsimp only [outstanding]
              rw [(forward_route env).1]
              exact routeResponse_tracks h.tracks
            · intro earlier msg' before relayed hsuffix
              rcases List.suffix_cons_iff.mp hsuffix with heq | hold
              · cases heq
                exact forward_correlated h.tracks env
              · exact h.correlated earlier msg' before relayed hold

/-- In every run within the capacity, each response meets the analysis of the
request outstanding under its key, and takes no other entry. -/
theorem responses_correlated {store : BaselineStore δ} {s : State δ} {inputs : List Input}
    (h : Path (step cfg fmt hmac) (withinCapacity cfg fmt hmac) (State.init store) inputs s) :
    ∀ earlier msg before relayed, .response msg before relayed :: earlier <:+ s.history →
      Correlated cfg fmt hmac (outstanding earlier) msg before relayed :=
  (h.invariant step_sound (State.init_sound store)).correlated

end

/-! ## Runs of one exchange -/

def listRequest (id : Value) : JsonRpcMessage :=
  { jsonrpc := some "2.0", id := some id, method := some "tools/list" }

def callRequest (id : Value) : JsonRpcMessage :=
  { listRequest id with method := some "tools/call" }

def emptyResponse (id : Value) : JsonRpcMessage :=
  { jsonrpc := some "2.0", id := some id, result := some (.object []) }

def versionlessResponse (id : Value) : JsonRpcMessage :=
  { id := some id, result := some (.object []) }

def contentResponse (id : Value) : JsonRpcMessage :=
  { emptyResponse id with result := some (.object [("content", .array [])]) }

/-- An id of one byte more than ids that are tracked. -/
def longId : Value := .string (String.ofList (List.replicate 257 'x'))

/-- The texts of the messages stand for them. -/
def sampleConfig (messages : List (String × JsonRpcMessage)) : Config where
  agent :=
    { mode := .enforce
      boundary := none
      monolithSessionId := none
      unicode := Text.asciiOnly
      parse := fun line => messages.lookup line
      fromStr := fun _ => none }
  shield := plainShield .enforce
  sameMode := rfl
  sameUnicode := rfl
  sameTools := rfl

/-- The agent sends some messages, and the server the others after that. -/
def converse (requests responses : List JsonRpcMessage) : Option (State Contents) :=
  let sent := requests.zipIdx.map fun p => ("request " ++ Nat.repr p.2, p.1)
  let received := responses.zipIdx.map fun p => ("response " ++ Nat.repr p.2, p.1)
  execute (step (sampleConfig (sent ++ received)) plainFormat plainHmac) (State.init {})
    (sent.map (fun p => .agent p.1) ++
      received.map fun p => .server p.1 plainSurroundings none)

def Exchange.route? : Exchange Contents → Option Route
  | .request _ _ => none
  | .response _ _ relayed => some relayed.route

/-- Where the responses went, the latest first, when all requests were forwarded. -/
def routes (requests responses : List JsonRpcMessage) : Option (List Route) :=
  (converse requests responses).bind fun s =>
    if s.history.all fun
      | .request _ effects => isForwarded effects
      | .response _ _ _ => true
    then some (s.history.filterMap Exchange.route?) else none

set_option maxRecDepth 4000 in
/-- The answer to a tools/list request passes without an analysis: under a long
id, under a number spelled in another way, and without a protocol version. An id
that two requests share takes the answer of the one to the analysis of the other. -/
theorem responses_slip_through :
    routes [listRequest longId] [emptyResponse longId] = some [.passThrough] ∧
    routes [listRequest (number 1)] [emptyResponse (.number (.float "1.0"))] = some [.passThrough] ∧
    routes [listRequest (number 1)] [versionlessResponse (number 1)] = some [.passThrough] ∧
    routes [listRequest (number 1), callRequest (number 1)] [contentResponse (number 1)] =
      some [.toolsList] := by
  refine ⟨?_, ?_, ?_, ?_⟩
  · decide +kernel
  · decide +kernel
  · decide +kernel
  · decide +kernel

/-- Whether a step stays within the capacity. -/
def capacityLeft (cfg : Config) (s : State Contents) (input : Input) : Bool :=
  (step cfg plainFormat plainHmac s input).all fun s' => decide (outstanding s'.history).within

theorem withinCapacity_of_capacityLeft {cfg : Config} {s : State Contents} {input : Input}
    (h : capacityLeft cfg s input = true) : withinCapacity cfg plainFormat plainHmac s input := by
  intro s' hstep
  unfold capacityLeft at h
  rw [hstep, Option.all_some, decide_eq_true_iff] at h
  exact h

def callConfig : Config :=
  sampleConfig [("call", callRequest (number 1)), ("answer", contentResponse (number 1))]

/-- The answer to a tool call is inspected as a tool result. -/
theorem responses_correlated_call :
    ∃ s : State Contents, executeGuarded (step callConfig plainFormat plainHmac)
        (capacityLeft callConfig) (State.init {})
        [.agent "call", .server "answer" plainSurroundings none] = some s ∧
      ∀ earlier msg before relayed, .response msg before relayed :: earlier = s.history →
        relayed.route = .inspection ⟨"1", .toolResult, none⟩ := by
  have hrun : executeGuarded (step callConfig plainFormat plainHmac)
      (capacityLeft callConfig) (State.init {})
      [.agent "call", .server "answer" plainSurroundings none] = some _ := rfl
  have hpath := (Path.of_executeGuarded hrun).mono fun s input h => withinCapacity_of_capacityLeft h
  refine ⟨_, hrun, ?_⟩
  intro earlier msg before relayed heq
  have hcorrelated := responses_correlated hpath earlier msg before relayed (heq ▸ List.suffix_rfl)
  cases heq
  exact hcorrelated.inspection "1" _ rfl (by decide) rfl

end BlackMonolith.Correlation
