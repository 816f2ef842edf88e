import BlackMonolith.Baseline.StoreFile
import BlackMonolith.Baseline.ToolSteps
import BlackMonolith.Launcher.McpConfig

/-!
# Shields that share a baseline

Every shield of a launch is a process of its own, with its own configuration and
its own store, and one file for the stores of all. An analysis holds the lock of
the file, so analyses follow one another in any order.
-/
namespace BlackMonolith.Baseline
open Json JsonRpc Library Launcher

/-! ## The processes -/

/-- The shields of a host: the file each keeps its baseline in, and what it
analyses with. -/
structure Fleet (ι : Type) where
  path : ι → String
  cfg : ι → Shield
  hmac : ι → String → Except String String

structure FleetState (ι δ : Type) where
  files : String → Option Contents := fun _ => none
  stores : ι → Option (BaselineStore δ) := fun _ => none

/-- A server is started, or answers a tools/list request. -/
inductive FleetEvent (ι : Type)
  | start (server : ι)
  | respond (server : ι) (env : Surroundings) (msg : JsonRpcMessage)

def FleetEvent.server {ι : Type} : FleetEvent ι → ι
  | .start server => server
  | .respond server _ _ => server

section
variable {ι δ : Type} [DecidableEq ι] [DecidableEq δ] (fleet : Fleet ι) (fmt : Format δ)

/-- The state after an event, and the message the agent receives. A shield that
cannot load its baseline exits, and its server does not answer. -/
def fleetStep (sys : FleetState ι δ) : FleetEvent ι → FleetState ι δ × Option JsonRpcMessage
  | .start server =>
      ({ sys with
          stores := Function.update sys.stores server
            (load fmt (fleet.hmac server) (sys.files (fleet.path server))).toOption }, none)
  | .respond server env msg =>
      match sys.stores server with
      | none => (sys, none)
      | some store =>
          let a := analyzeToolsListWithBoundary (fleet.cfg server) fmt (fleet.hmac server) env msg
            store (sys.files (fleet.path server))
          ({ files := Function.update sys.files (fleet.path server) a.disk
             stores := Function.update sys.stores server (some a.store) }, some (a.delivered msg))

/-- The tools a shield looks at when it analyses a message. -/
def listedItems (cfg : Shield) (env : Surroundings) (msg : JsonRpcMessage) : List Listed :=
  ((listedTools msg).map (listing cfg env.clock)).getD []

def FleetEvent.items : FleetEvent ι → List Listed
  | .start _ => []
  | .respond server env msg => listedItems (fleet.cfg server) env msg

end

/-! ## The shields of a launch -/

/-- What a shield process has besides the environment of its configuration. -/
structure Host where
  inherited : String → Option String
  boundary : (String → Option String) → Option CatalogBoundary
  hmacSha256 : String → String → Except String String
  unicode : Text.Unicode
  debugStr : String → String
  contentSha256 : String → String
  displayLoadError : LoadError → String

def environmentOf : McpServer → Option Environment
  | .remote _ => none
  | .stdio _ _ env => some env

/-- A server of a configuration that runs behind a shield. -/
structure Shielded (config : InsertionMap String McpServer) where
  name : String
  isSome : ((config.get? name).bind environmentOf).isSome
deriving DecidableEq

section
variable {config : InsertionMap String McpServer}

def Shielded.environment (server : Shielded config) : Environment :=
  ((config.get? server.name).bind environmentOf).get server.isSome

/-- A variable of the shield process of a server. -/
def Host.var (host : Host) (server : Shielded config) (name : String) : Option String :=
  (server.environment.get? name).or (host.inherited name)

def Host.shieldConfig (host : Host) (server : Shielded config) : ShieldConfig :=
  .fromEnv (host.var server)

def Host.fleet (host : Host) (config : InsertionMap String McpServer) : Fleet (Shielded config) where
  path server := (host.shieldConfig server).baselinePath
  cfg server :=
    { mode := (host.shieldConfig server).mode
      firstContact := (host.shieldConfig server).firstContact
      boundary := host.boundary (host.var server)
      unicode := host.unicode
      debugStr := host.debugStr
      contentSha256 := host.contentSha256
      displayLoadError := host.displayLoadError }
  hmac server := host.hmacSha256 (host.shieldConfig server).hmacKey

theorem Shielded.environment_of_carries {name value : String} (h : Carries name value config)
    (server : Shielded config) : server.environment.get? name = some value := by
  obtain ⟨env, henv⟩ := Option.isSome_iff_exists.mp server.isSome
  have heq : server.environment = env := Option.get_of_eq_some _ henv
  obtain ⟨entry, hentry, hstdio⟩ := Option.bind_eq_some_iff.mp henv
  rw [heq]
  cases entry with
  | remote _ => cases hstdio
  | stdio command args serverEnv =>
      cases hstdio
      exact h server.name command args env hentry

/-- All shields of a launch keep their baselines in one file. -/
theorem launched_path (host : Host) (launch : Launch) (pyStr : Value → String)
    (servers : InsertionMap String Value) (shield vectorAnchorUrl python script : String)
    (server : Shielded (buildMcpConfig pyStr servers (some shield) (buildShieldEnv launch)
      vectorAnchorUrl python script)) :
    (host.fleet _).path server = launch.workdir ++ "/mcp-shield-baseline.json" := by
  have hvar : host.var server "MCP_SHIELD_BASELINE" =
      some (launch.workdir ++ "/mcp-shield-baseline.json") := by
    unfold Host.var
    rw [server.environment_of_carries
      (buildMcpConfig_carries (by decide) (buildShieldEnv_baseline launch))]
    rfl
  show ((host.var server "MCP_SHIELD_BASELINE").getD defaultBaselinePath) = _
  rw [hvar]
  rfl

end

end BlackMonolith.Baseline
