import BlackMonolith.Baseline.Fingerprint
import BlackMonolith.JsonRpc
import BlackMonolith.Library.InsertionMap

/-!
# The MCP configuration of a launched agent

The launcher rewrites the servers of the agent's MCP configuration so that each
is started through the shield, with one environment for all of them, from which
every shield process reads its own configuration. Python's `str` of a value that
is not a string is a parameter.
-/
namespace BlackMonolith.Launcher
open Json JsonRpc Library Baseline

/-- A `dict` from names to texts. -/
abbrev Environment := InsertionMap String String

/-- `dict.update`. -/
def update (env : Environment) (changes : List (String × String)) : Environment :=
  changes.foldl (fun env p => env.set p.1 p.2) env

theorem get?_update (env : Environment) {changes : List (String × String)}
    (hnodup : (changes.map Prod.fst).Nodup) (name : String) :
    (update env changes).get? name = (InsertionMap.lookupIn name changes).or (env.get? name) := by
  unfold update
  induction changes generalizing env with
  | nil => rfl
  | cons change changes ih =>
      obtain ⟨hnotin, hrest⟩ := List.nodup_cons.mp hnodup
      rw [List.foldl_cons, ih (env.set change.1 change.2) hrest, InsertionMap.get?_set]
      by_cases heq : change.1 = name
      · have hnone : InsertionMap.lookupIn name changes = none := by
          rw [← heq]
          exact (@InsertionMap.get?_eq_none_iff _ _ _ ⟨changes, hrest⟩ change.1).mpr hnotin
        rw [hnone, if_pos heq]
        simp only [InsertionMap.lookupIn, if_pos heq, Option.none_or, Option.some_or]
      · rw [if_neg heq]
        simp only [InsertionMap.lookupIn, if_neg heq]

/-! ## The environment of the shields -/

/-- What one launch is given. -/
structure Launch where
  dashboardUrl : String
  workdir : String
  tenantId : String
  agentId : String
  sessionId : String
  eventToken : Option String
  shieldKey : Option String
  allowInsecureDashboard : Bool

/-- `str.rstrip("/")`. -/
def rstripSlash (url : String) : String := String.ofList (url.toList.rdropWhile (· = '/'))

/-- A setting that is absent or empty is not set. -/
def optional (name : String) (value : Option String) : List (String × String) :=
  ((value.filter (!·.isEmpty)).map fun text => (name, text)).toList

def buildShieldEnv (launch : Launch) : Environment :=
  update InsertionMap.empty
    ([("MONOLITH_DASHBOARD_URL", rstripSlash launch.dashboardUrl ++ "/api/ingest"),
      ("MONOLITH_EVENT_OUTBOX_PATH", launch.workdir ++ "/mcp-shield-outbox.jsonl"),
      ("MCP_SHIELD_BASELINE", launch.workdir ++ "/mcp-shield-baseline.json"),
      ("MCP_SHIELD_MODE", "enforce"),
      ("MONOLITH_TENANT_ID", launch.tenantId),
      ("MONOLITH_AGENT_ID", launch.agentId),
      ("MONOLITH_SESSION_ID", launch.sessionId)] ++
    optional "MONOLITH_EVENT_TOKEN" launch.eventToken ++
    optional "MCP_SHIELD_KEY" launch.shieldKey ++
    if launch.allowInsecureDashboard then [("MONOLITH_ALLOW_INSECURE_DASHBOARD", "true")] else [])

/-! ## The servers -/

/-- An entry of the rewritten configuration: a server that is left as it was, or
a command with its environment. -/
inductive McpServer
  | remote (spec : Value)
  | stdio (command : String) (args : List String) (env : Environment)

section
variable (pyStr : Value → String)

/-- The arguments and the environment an entry asks for. -/
def specArgs (spec : Value) : List String :=
  (((spec.get "args").bind Value.asArray).getD []).map pyStr

def specEnv (spec : Value) : Environment :=
  update InsertionMap.empty
    ((((spec.get "env").bind Value.asObject).getD []).map fun p => (p.1, pyStr p.2))

/-- One entry; what is not an object is dropped. -/
def wrapServer (shield : Option String) (env : Environment) (spec : Value) : Option McpServer :=
  match spec.asObject with
  | none => none
  | some _ =>
      match ((spec.get "command").bind Value.asStr).filter (!·.isEmpty) with
      | none => some (.remote spec)
      | some command =>
          let serverEnv := update (specEnv pyStr spec) env.entries
          match shield with
          | none => some (.stdio command (specArgs pyStr spec) serverEnv)
          | some shield => some (.stdio shield (command :: specArgs pyStr spec) serverEnv)

/-- The memory layer's own server. -/
def vectorAnchorServer (shield : Option String) (env : Environment)
    (vectorAnchorUrl python script : String) : McpServer :=
  let vectorEnv := env.set "MONOLITH_VECTOR_ANCHOR_URL" vectorAnchorUrl
  match shield with
  | none => .stdio python [script] vectorEnv
  | some shield => .stdio shield [python, script] vectorEnv

def addServer (shield : Option String) (env : Environment) (wrapped : InsertionMap String McpServer)
    (p : String × Value) : InsertionMap String McpServer :=
  match wrapServer pyStr shield env p.2 with
  | none => wrapped
  | some server => wrapped.set p.1 server

def buildMcpConfig (servers : InsertionMap String Value) (shield : Option String) (env : Environment)
    (vectorAnchorUrl python script : String) : InsertionMap String McpServer :=
  let wrapped := servers.entries.foldl (addServer pyStr shield env) InsertionMap.empty
  wrapped.set "vector-anchor" (vectorAnchorServer shield env vectorAnchorUrl python script)

end

/-! ## One environment -/

section
variable {pyStr : Value → String} {shield : Option String} {env : Environment}

theorem wrapServer_env {spec : Value} {command : String} {args : List String}
    {serverEnv : Environment} (h : wrapServer pyStr shield env spec = some (.stdio command args serverEnv))
    {name value : String} (hset : env.get? name = some value) :
    serverEnv.get? name = some value := by
  have hupdated : serverEnv = update (specEnv pyStr spec) env.entries := by
    unfold wrapServer at h
    split at h
    · cases h
    · split at h
      · cases h
      · cases shield with
        | none =>
            cases h
            rfl
        | some shield =>
            cases h
            rfl
  rw [hupdated, get?_update _ env.nodup]
  show (env.get? name).or _ = some value
  rw [hset]
  rfl

/-- Every command of the configuration runs with a variable of this value. -/
def Carries (name value : String) (config : InsertionMap String McpServer) : Prop :=
  ∀ server command args serverEnv, config.get? server = some (.stdio command args serverEnv) →
    serverEnv.get? name = some value

theorem Carries.set {name value server : String} {config : InsertionMap String McpServer}
    {added : McpServer} (h : Carries name value config)
    (hadded : ∀ command args serverEnv, added = .stdio command args serverEnv →
      serverEnv.get? name = some value) : Carries name value (config.set server added) := by
  intro server' command args serverEnv hget
  rw [InsertionMap.get?_set] at hget
  split_ifs at hget
  · exact hadded command args serverEnv (Option.some.inj hget)
  · exact h server' command args serverEnv hget

theorem Carries.foldl {name value : String} (hset : env.get? name = some value)
    {config : InsertionMap String McpServer} (h : Carries name value config)
    (specs : List (String × Value)) :
    Carries name value (specs.foldl (addServer pyStr shield env) config) := by
  induction specs generalizing config with
  | nil => exact h
  | cons spec specs ih =>
      apply ih
      unfold addServer
      split
      · exact h
      · next added hadded =>
          apply h.set
          intro command args serverEnv heq
          subst heq
          exact wrapServer_env hadded hset

/-- Every command of the configuration runs with the environment of the launch. -/
theorem buildMcpConfig_carries {servers : InsertionMap String Value}
    {vectorAnchorUrl python script name value : String}
    (hname : name ≠ "MONOLITH_VECTOR_ANCHOR_URL") (hset : env.get? name = some value) :
    Carries name value (buildMcpConfig pyStr servers shield env vectorAnchorUrl python script) := by
  have hempty : Carries name value InsertionMap.empty := by
    intro server command args serverEnv hget
    cases hget
  apply (hempty.foldl hset servers.entries).set
  intro command args serverEnv heq
  have hvector : serverEnv = env.set "MONOLITH_VECTOR_ANCHOR_URL" vectorAnchorUrl := by
    unfold vectorAnchorServer at heq
    cases shield with
    | none =>
        cases heq
        rfl
    | some shield =>
        cases heq
        rfl
  rw [hvector, InsertionMap.get?_set_of_ne hname.symm]
  exact hset

theorem optional_cases (name : String) (value : Option String) :
    optional name value = [] ∨ ∃ text, optional name value = [(name, text)] := by
  unfold optional
  cases value.filter (!·.isEmpty) with
  | none => exact Or.inl rfl
  | some text => exact Or.inr ⟨text, rfl⟩

theorem buildShieldEnv_baseline (launch : Launch) :
    (buildShieldEnv launch).get? "MCP_SHIELD_BASELINE" =
      some (launch.workdir ++ "/mcp-shield-baseline.json") := by
  unfold buildShieldEnv
  rw [get?_update]
  · rfl
  · rcases optional_cases "MONOLITH_EVENT_TOKEN" launch.eventToken with htoken | ⟨token, htoken⟩ <;>
      rcases optional_cases "MCP_SHIELD_KEY" launch.shieldKey with hkey | ⟨key, hkey⟩ <;>
        rw [htoken, hkey] <;> cases launch.allowInsecureDashboard <;> simp

end

/-! ## The configuration of a shield -/

structure ShieldConfig where
  hmacKey : String
  baselinePath : String
  mode : ShieldMode
  firstContact : FirstContact
deriving Repr, DecidableEq

def devHmacKey : String := "mcp-shield-dev-key-do-not-use-in-prod"
def defaultBaselinePath : String := "baseline_hashes.json"

def parseFirstContact (raw : Option String) : FirstContact × Option String :=
  match raw with
  | none => (.trust, none)
  | some raw =>
      let trimmed := Text.trim raw
      if Text.asciiLowercase trimmed = "trust" then (.trust, none)
      else if Text.asciiLowercase trimmed = "approve" then (.approve, none)
      else (.approve, some trimmed)

def parseMode (raw : Option String) : ShieldMode :=
  match raw with
  | none => .enforce
  | some raw => if Text.asciiLowercase (Text.trim raw) = "monitor" then .monitor else .enforce

/-- `var` reads a variable of the process. -/
def ShieldConfig.fromEnv (var : String → Option String) : ShieldConfig where
  hmacKey := (var "MCP_SHIELD_KEY").getD devHmacKey
  baselinePath := (var "MCP_SHIELD_BASELINE").getD defaultBaselinePath
  mode := parseMode (var "MCP_SHIELD_MODE")
  firstContact := (parseFirstContact (var "MCP_SHIELD_FIRST_CONTACT")).1

end BlackMonolith.Launcher
