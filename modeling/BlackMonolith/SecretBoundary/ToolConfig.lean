import BlackMonolith.Json
import BlackMonolith.Library.InsertionMap
import BlackMonolith.SecretBoundary.Policy

/-!
# Tools of the secret boundary

A configuration names the tools that are mediated, each with a URL template and
the policy rule its requests are meant for. Loading it checks every tool and
fills the policy engine and the registry; a call is translated by the registry
into a request that the policy engine then judges. The check of the path of the
1Password program reads the path as the operating system does and is a parameter.
-/
namespace BlackMonolith.SecretBoundary
open Library Text

/-- The crates the configuration is read with. A URL is a value of the URL crate,
which the policy reads as `read` gives it. -/
structure Crates where
  Url : Type
  parse : String → Except String Url
  read : Url → SecretBoundary.Url
  username : Url → String
  password : Url → Option String
  appendPair : Url → String → String → Url
  display : Url → String
  toVec : List (String × Json.Value) → Except String (List UInt8)
  validateTrustedCliPath : String → Bool → Except BoundaryError Unit

/-- The policy engine reads URLs with the same crate. -/
def Crates.platform (crates : Crates) (platform : Platform) : Platform :=
  { platform with parseUrl := fun s => (crates.parse s).map crates.read }

structure SecretBoundToolDefinition where
  toolName : String
  operationId : String
  description : String
  inputSchema : Json.Value
  urlTemplate : String
  method : String
  permittedParams : List String
  policyRule : PolicyRule
deriving Repr, DecidableEq

def isQueryMethod (methodUpper : String) : Bool := methodUpper == "GET" || methodUpper == "HEAD"

def PolicyRule.permitsQuery (rule : PolicyRule) (key : String) : Bool :=
  rule.permittedQueryParams.any (eqIgnoreAsciiCase · key)

section
variable (crates : Crates)

/-- The checks of a parsed template against the rule of its tool. -/
def templateError (tool : SecretBoundToolDefinition) (parsed : Url) (userinfo : Bool) :
    Option BoundaryError :=
  if parsed.scheme ≠ "https" then
    some (.configurationError
      s!"Tool '{tool.toolName}' URL template must use HTTPS scheme, found '{parsed.scheme}'")
  else if userinfo then
    some (.configurationError
      s!"Tool '{tool.toolName}' URL template must not contain embedded userinfo or credentials")
  else
    match parsed.host with
    | none => some (.configurationError
        s!"Tool '{tool.toolName}' URL template lacks a valid host")
    | some host =>
        let methodUpper := asciiUppercase tool.method
        if !eqIgnoreAsciiCase host tool.policyRule.destinationHost then
          some (.configurationError
            s!"Tool '{tool.toolName}' destination host '{host}' does not match policy approved host '{tool.policyRule.destinationHost}'")
        else if !pathMatchesPrefix parsed.path tool.policyRule.allowedPathPrefix then
          some (.configurationError
            s!"Tool '{tool.toolName}' path '{parsed.path}' does not conform to policy path prefix '{tool.policyRule.allowedPathPrefix}'")
        else if pathContainsTraversal parsed.path then
          some (.configurationError
            s!"Tool '{tool.toolName}' path '{parsed.path}' contains a forbidden traversal sequence")
        else if !tool.policyRule.allowedMethods.any (eqIgnoreAsciiCase · methodUpper) then
          some (.configurationError
            s!"Tool '{tool.toolName}' method '{tool.method}' is not in policy allowed_methods list")
        else
          let unlisted := if isQueryMethod methodUpper then
              tool.permittedParams.find? fun p => !tool.policyRule.permitsQuery p
            else none
          match unlisted with
          | some param => some (.configurationError
              s!"Tool '{tool.toolName}' permits parameter '{param}' but the policy does not list it in permitted_query_params; a {methodUpper} request would always be denied")
          | none =>
              match parsed.queryPairs.find? fun q => !tool.policyRule.permitsQuery q.1 with
              | some (key, _) => some (.configurationError
                  s!"Tool '{tool.toolName}' URL template carries query parameter '{key}' which the policy does not list in permitted_query_params")
              | none => none

/-- `SecretBoundToolDefinition::validate`. -/
def SecretBoundToolDefinition.validate (tool : SecretBoundToolDefinition) :
    Except BoundaryError Unit :=
  match crates.parse tool.urlTemplate with
  | .error e => .error (.configurationError
      s!"Invalid URL template for tool '{tool.toolName}': {e}")
  | .ok template =>
      match templateError tool (crates.read template)
        (crates.username template != "" || (crates.password template).isSome) with
      | some e => .error e
      | none => .ok ()

/-! ## The registry -/

abbrev SecretToolRegistry := InsertionMap String SecretBoundToolDefinition

def SecretToolRegistry.registerTool (registry : SecretToolRegistry)
    (tool : SecretBoundToolDefinition) : Except BoundaryError SecretToolRegistry :=
  match tool.validate crates with
  | .error e => .error e
  | .ok () => .ok (registry.set tool.toolName tool)

/-- The text of a scalar argument. -/
def argumentText : Json.Value → Option String
  | .string s => some s
  | .number n => some n.text
  | .bool b => some (if b then "true" else "false")
  | _ => none

/-- The first argument that cannot be sent on. -/
def argumentError : List (String × Json.Value) → Option BoundaryError
  | [] => none
  | (key, value) :: arguments =>
      match value with
      | .null => argumentError arguments
      | .array _ | .object _ => some (.invalidRequest
          s!"Complex nested parameter types are disallowed for key '{key}'")
      | value =>
          if hasControl key then
            some (.invalidRequest
              s!"Control character injection detected in parameter key '{key}'")
          else if ((argumentText value).map hasControl).getD false then
            some (.invalidRequest s!"Control character injection detected in value for '{key}'")
          else argumentError arguments

/-- Arguments become query pairs; a null is left out. -/
def appendArguments (url : crates.Url) (arguments : List (String × Json.Value)) : crates.Url :=
  arguments.foldl (fun url argument =>
    match argumentText argument.2 with
    | some text => crates.appendPair url argument.1 text
    | none => url) url

/-- The arguments object of a call; no arguments are an empty one. -/
def argumentsObject : Json.Value → Option (List (String × Json.Value))
  | .object members => some members
  | .null => some []
  | _ => none

/-- `SecretToolRegistry::build_operation_request`. -/
def SecretToolRegistry.buildOperationRequest (registry : SecretToolRegistry)
    (toolName agentId : String) (arguments : Json.Value) :
    Except BoundaryError OperationRequest :=
  match registry.get? toolName with
  | none => .error (.invalidRequest
      s!"Tool '{toolName}' is not a registered secret-bound tool")
  | some tool =>
      match argumentsObject arguments with
      | none => .error (.invalidRequest "Tool arguments must be a JSON object")
      | some arguments =>
          match arguments.find? fun argument => !tool.permittedParams.contains argument.1 with
          | some (key, _) => .error (.invalidRequest
              s!"Unpermitted parameter '{key}' for tool '{toolName}'")
          | none =>
              match argumentError arguments with
              | some e => .error e
              | none =>
                  match crates.parse tool.urlTemplate with
                  | .error e => .error (.configurationError ("Malformed base URL: " ++ e))
                  | .ok template =>
                      let methodUpper := asciiUppercase tool.method
                      let request : OperationRequest :=
                        { agentId
                          operationId := tool.operationId
                          destinationUrl := crates.display template
                          method := methodUpper
                          headers := []
                          body := none }
                      if isQueryMethod methodUpper then
                        .ok { request with
                          destinationUrl := crates.display (appendArguments crates template arguments) }
                      else
                        match crates.toVec arguments with
                        | .error e => .error (.serializationError
                            ("Failed to serialize body: " ++ e))
                        | .ok body => .ok { request with body := some body }

end

/-! ## Providers -/

inductive OnePasswordAuthMode
  | systemAuth
  | serviceAccount (envVar : String)
  | sessionToken (account : String)
deriving Repr, DecidableEq

structure OnePasswordCliConfig where
  enabled : Bool := false
  cliPath : String := "op"
  timeoutSeconds : ℕ := 5
  maxOutputBytes : ℕ := 64 * 1024
  account : Option String := none
  authMode : OnePasswordAuthMode := .systemAuth
  requireAbsolutePath : Bool := false
deriving Repr, DecidableEq

inductive SecretProvider
  | mock (secrets : List (String × String))
  | env
  | onePasswordCli (config : OnePasswordCliConfig)
deriving Repr, DecidableEq

def defaultEnvSecretPrefix : String := "PBM_SECRET_"

/-- `EnvSecretProvider::validate_var_name`. -/
def validateVarName (secretRef : String) : Except BoundaryError String :=
  let varName := if startsWith secretRef "env://" then String.ofList (secretRef.toList.drop 6)
    else secretRef
  if varName.isEmpty || 256 < Text.len varName then
    .error (.invalidRequest
      s!"Environment secret reference '{secretRef}' is empty or exceeds maximum length")
  else if !startsWith varName defaultEnvSecretPrefix ||
      Text.len varName ≤ Text.len defaultEnvSecretPrefix then
    .error (.invalidRequest
      s!"Environment secret variable '{varName}' must begin with prefix '{defaultEnvSecretPrefix}'")
  else if !(bytes varName).all fun b => isByteUpper b || isByteDigit b || b == 95 then
    .error (.invalidRequest
      s!"Environment secret variable '{varName}' must contain only [A-Z0-9_]")
  else .ok varName

def validateAccountIdentifier (account : String) : Except BoundaryError Unit :=
  if account.isEmpty || 128 < Text.len account then
    .error (.configurationError "Account identifier must be between 1 and 128 characters")
  else if startsWith account "-" then
    .error (.configurationError
      s!"Account identifier '{account}' cannot start with a hyphen (flag injection guard)")
  else
    match account.toList.find? fun c =>
      !isAsciiAlphanumeric c && c != '-' && c != '_' && c != '.' with
    | some c => .error (.configurationError
        s!"Account identifier '{account}' contains disallowed character '{c}'")
    | none => .ok ()

def validateAuthMode : OnePasswordAuthMode → Except BoundaryError Unit
  | .systemAuth => .ok ()
  | .serviceAccount envVar =>
      if envVar.isEmpty || 128 < Text.len envVar ||
          !envVar.toList.all fun c => isAsciiAlphanumeric c || c == '_' then
        .error (.configurationError
          s!"Invalid service account environment variable name '{envVar}'")
      else .ok ()
  | .sessionToken account => validateAccountIdentifier account

/-- `OnePasswordCliProvider::new`. -/
def newOnePasswordCli (crates : Crates) (config : OnePasswordCliConfig) :
    Except BoundaryError SecretProvider := do
  crates.validateTrustedCliPath config.cliPath config.requireAbsolutePath
  if config.timeoutSeconds = 0 then
    throw (.configurationError "Timeout must be greater than zero")
  if config.maxOutputBytes = 0 ∨ 50 * 1024 * 1024 < config.maxOutputBytes then
    throw (.configurationError "max_output_bytes must be between 1 and 52428800 bytes")
  if let some account := config.account then
    validateAccountIdentifier account
  validateAuthMode config.authMode
  return .onePasswordCli config

/-! ## Loading a configuration -/

structure BoundaryConfig where
  enabled : Bool := false
  agentId : String := ""
  activeProvider : String := "mock"
  syntheticSecrets : List (String × String) := []
  onepasswordCli : Option OnePasswordCliConfig := none
  tools : List SecretBoundToolDefinition := []
deriving Repr, DecidableEq

structure ShieldSecretBoundary where
  provider : SecretProvider
  rules : List PolicyRule
  registry : SecretToolRegistry
  agentId : String

/-- `PolicyEngine::add_rule`. -/
def addRule (rules : List PolicyRule) (rule : PolicyRule) :
    Except BoundaryError (List PolicyRule) :=
  if rules.any fun r => r.agentId == rule.agentId && r.operationId == rule.operationId then
    .error (.configurationError
      s!"Ambiguous policy: duplicate rule for agent '{rule.agentId}' and operation '{rule.operationId}'")
  else .ok (rules ++ [rule])

section
variable (crates : Crates)

def selectProvider (config : BoundaryConfig) : Except String SecretProvider :=
  if config.activeProvider = "mock" then .ok (.mock config.syntheticSecrets)
  else if config.activeProvider = "env" then .ok .env
  else if config.activeProvider = "1password-cli" then
    match config.onepasswordCli with
    | none => .error "1Password CLI provider selected but `onepassword_cli` is not configured"
    | some cli =>
        if !cli.enabled then
          .error "1Password CLI provider selected but onepassword_cli.enabled is false"
        else
          match newOnePasswordCli crates cli with
          | .error e => .error s!"1Password CLI provider setup error: {e.display}"
          | .ok provider => .ok provider
  else .error s!"Unrecognized credential provider: '{config.activeProvider}'"

/-- One configured tool, on top of the rules and tools before it. -/
def addTool (agentId : String) (provider : SecretProvider)
    (loaded : List PolicyRule × SecretToolRegistry) (tool : SecretBoundToolDefinition) :
    Except String (List PolicyRule × SecretToolRegistry) :=
  if tool.policyRule.agentId ≠ agentId then
    .error s!"Tool '{tool.toolName}' policy rule authorizes agent '{tool.policyRule.agentId}' but this boundary serves '{agentId}'; a rule for another agent can never be matched"
  else
    match if provider = .env then validateVarName tool.policyRule.approvedCredentialRef
      else .ok "" with
    | .error e => .error
        s!"Tool '{tool.toolName}' has invalid env credential reference: {e.display}"
    | .ok _ =>
        match addRule loaded.1 tool.policyRule with
        | .error e => .error s!"Policy rule registration error: {e.display}"
        | .ok rules =>
            match loaded.2.registerTool crates tool with
            | .error e => .error s!"Tool registration error: {e.display}"
            | .ok registry => .ok (rules, registry)

/-- `ShieldSecretBoundary::from_config`. -/
def fromConfig (config : BoundaryConfig) : Except String ShieldSecretBoundary :=
  if !config.enabled then .error "Secret Boundary configuration is marked disabled"
  else
    let agentId := trim config.agentId
    if agentId.isEmpty then
      .error "Secret Boundary configuration must declare a non-empty `agent_id`; it is the identity the policy engine authorizes against"
    else if 128 < Text.len agentId || agentId.toList.any isControl then
      .error "Secret Boundary `agent_id` must be at most 128 printable characters"
    else
      match selectProvider crates config with
      | .error e => .error e
      | .ok provider =>
          match config.tools.foldlM (addTool crates agentId provider) ([], .empty) with
          | .error e => .error e
          | .ok (rules, registry) => .ok ⟨provider, rules, registry, agentId⟩

end

end BlackMonolith.SecretBoundary
