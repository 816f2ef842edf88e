import Mathlib
import BlackMonolith.Dashboard.CircuitBreaker
import BlackMonolith.Dashboard.RowPolicies
import BlackMonolith.Dashboard.TenantView

/-!
# Credentials of modules and operators

Both are read from settings of the environment, in which the members of a JSON object come in
the order in which `Object.entries` lists them. A token may stand there once only. SHA-256 is a
parameter, and a token is compared by its digest.
-/
namespace BlackMonolith.Dashboard.Credentials
open Library

/-- A setting: missing or empty, a text on which `JSON.parse` throws a message, or a value. -/
inductive Setting
  | missing
  | unparsable (message : String)
  | parsed (value : JsValue)

/-! ## Tokens of modules -/

/-- Modules and their tokens. -/
abbrev Modules := InsertionMap JsString JsString

/-- Tenants and their modules. -/
abbrev TokenMap := InsertionMap JsString Modules

/-- A value that is a usable token. -/
def usableToken : JsValue → Option JsString
  | .string s => if isBearerToken s then some s else none
  | _ => none

def isString : JsValue → Bool
  | .string _ => true
  | _ => false

def usableModules (members : List (JsString × JsValue)) : Modules :=
  .fromEntries (members.filterMap fun member =>
    (usableToken member.2).map fun token => (member.1, token))

/-- The credentials of a tenant, if any can be used. -/
def usableTenant (member : JsString × JsValue) : Option (JsString × Modules) :=
  if member.1.units = [] ∨ 128 < member.1.length then none
  else match member.2 with
    | .object members =>
        let modules := usableModules members
        if modules.entries.isEmpty then none else some (member.1, modules)
    | _ => none

namespace TokenMap

/-- Tenant, module and token of every credential. -/
def credentials (tokens : TokenMap) : List (JsString × JsString × JsString) :=
  tokens.entries.flatMap fun tenant => tenant.2.entries.map fun entry => (tenant.1, entry)

def allTokens (tokens : TokenMap) : List JsString := tokens.credentials.map fun c => c.2.2

def ensureUniqueCredentials (tokens : TokenMap) : Except String TokenMap :=
  if tokens.allTokens.Nodup then .ok tokens
  else .error "EVENT_INGEST_TOKENS_JSON must not reuse a token across tenants or modules."

/-- The token of a tenant's module. Of what the objects inherit nothing is named like a module. -/
def expected (tokens : TokenMap) (tenant : Identity) (moduleName : ModuleName) : Option JsString :=
  (tokens.get? tenant.text).bind fun modules => modules.get? moduleName.text

end TokenMap

def configuredTokens : Setting → Except String TokenMap
  | .missing => .error "EVENT_INGEST_TOKENS_JSON is not configured."
  | .unparsable message => .error message
  | .parsed (.object value) =>
      if value.all fun member => isString member.2 then
        let modules := usableModules value
        if modules.entries.isEmpty then
          .error "EVENT_INGEST_TOKENS_JSON has no usable module credentials."
        else TokenMap.ensureUniqueCredentials (.fromEntries [(defaultTenant.text, modules)])
      else
        let tenants : TokenMap := .fromEntries (value.filterMap usableTenant)
        if tenants.entries.isEmpty then
          .error "EVENT_INGEST_TOKENS_JSON has no usable tenant/module credentials."
        else TokenMap.ensureUniqueCredentials tenants
  | .parsed _ => .error "EVENT_INGEST_TOKENS_JSON must be a module-to-token object."

/-- The credentials as the endpoint looks them up; `none` is a misconfiguration. -/
def tokensOf (setting : Setting) : Option (Identity → ModuleName → Option JsString) :=
  (configuredTokens setting).toOption.map TokenMap.expected

theorem unique_of_configured {setting : Setting} {tokens : TokenMap}
    (h : configuredTokens setting = .ok tokens) : tokens.allTokens.Nodup := by
  have hensure : ∀ ts : TokenMap, ts.ensureUniqueCredentials = .ok tokens →
      tokens.allTokens.Nodup := by
    intro ts hts
    unfold TokenMap.ensureUniqueCredentials at hts
    split_ifs at hts with hunique
    cases hts
    exact hunique
  unfold configuredTokens at h
  split at h
  · cases h
  · cases h
  · dsimp only at h
    split_ifs at h
    · exact hensure _ h
    · exact hensure _ h
  · cases h

theorem mem_credentials {tokens : TokenMap} {tenant : Identity} {moduleName : ModuleName}
    {token : JsString} (h : tokens.expected tenant moduleName = some token) :
    (tenant.text, moduleName.text, token) ∈ tokens.credentials := by
  obtain ⟨modules, hmodules, htoken⟩ := Option.bind_eq_some_iff.mp h
  have htenant := InsertionMap.get?_eq_some_iff.mp hmodules
  have hentry := InsertionMap.get?_eq_some_iff.mp htoken
  exact List.mem_flatMap.mpr ⟨_, htenant, List.mem_map_of_mem hentry⟩

theorem ModuleName.text_inj {m m' : ModuleName} (h : m.text = m'.text) : m = m' := by
  revert h
  cases m <;> cases m' <;> decide

/-- Tokens of the configuration whose digests are the same are the same. -/
def DigestsApart (digest : JsString → List UInt8) (tokens : List JsString) : Prop :=
  ∀ s ∈ tokens, ∀ t ∈ tokens, digest s = digest t → s = t

section
variable {d : Deployment} {setting : Setting} {authorization : Option JsString}

/-- What a header must be to be let through. -/
theorem expected_of_authenticated {tokens : TokenMap} {tenant : Identity} {moduleName : ModuleName}
    (hconfigured : d.configuredTokens = tokensOf setting)
    (htokens : configuredTokens setting = .ok tokens)
    (h : authenticateIngest d authorization tenant moduleName = some true) :
    ∃ token, tokens.expected tenant moduleName = some token ∧
      d.digest (bearerToken authorization) = d.digest token := by
  rw [authenticateIngest, hconfigured, tokensOf, htokens] at h
  simp only [Except.toOption, Option.map_some, Option.some.injEq] at h
  split at h
  · next token htoken =>
      simp only [Bool.and_eq_true, beq_iff_eq] at h
      exact ⟨token, htoken, h.2⟩
  · cases h

/-- A header is good for one tenant and one module. -/
theorem authenticated_unique {tokens : TokenMap} {t t' : Identity} {m m' : ModuleName}
    (hconfigured : d.configuredTokens = tokensOf setting)
    (htokens : configuredTokens setting = .ok tokens)
    (hdigest : DigestsApart d.digest tokens.allTokens)
    (h : authenticateIngest d authorization t m = some true)
    (h' : authenticateIngest d authorization t' m' = some true) : t = t' ∧ m = m' := by
  obtain ⟨token, htoken, hsame⟩ := expected_of_authenticated hconfigured htokens h
  obtain ⟨token', htoken', hsame'⟩ := expected_of_authenticated hconfigured htokens h'
  have hmem := mem_credentials htoken
  have hmem' := mem_credentials htoken'
  have heq : token = token' := hdigest _ (List.mem_map_of_mem hmem) _ (List.mem_map_of_mem hmem')
    (hsame.symm.trans hsame')
  have hall := List.inj_on_of_nodup_map (unique_of_configured htokens) hmem hmem' heq
  exact ⟨Identity.ext_text (congrArg Prod.fst hall),
    ModuleName.text_inj (congrArg (fun c => c.2.1) hall)⟩

end

/-! ## The ledger -/

/-- All events of a store. -/
def allEvents : Store → List MonolithEvent
  | .memory s => s.events.values
  | .postgres db => db.events.values.map EventRow.event

/-- Requests to the endpoint, one after another. -/
def postAll (d : Deployment) (store : Store) (posts : List (Readings × IngestRequest)) : Store :=
  posts.foldl (fun store p => (post d p.1 p.2 store).1) store

/-- A tenant's name in the events of a store; a text column has it in well-formed form. -/
def heldTenant (tenant : Identity) : Store → Identity
  | .memory _ => tenant
  | .postgres _ => tenant.toWellFormed

theorem heldTenant_persist {context tenant : Identity} {d : Deployment} {r : Readings}
    {events : List MonolithEvent} {results : List PersistResult} {store store' : Store}
    (h : store.persistEvents d r events context = some (results, store')) :
    heldTenant tenant store' = heldTenant tenant store := by
  cases store with
  | memory s => cases h; rfl
  | postgres db =>
      obtain ⟨_, _, heq⟩ := Option.map_eq_some_iff.mp h
      cases heq
      rfl

/-- A store stays what it is. -/
theorem heldTenant_post (d : Deployment) (r : Readings) (req : IngestRequest) (store : Store)
    (tenant : Identity) : heldTenant tenant (post d r req store).1 = heldTenant tenant store := by
  unfold post
  split
  · rfl
  · rfl
  · unfold Store.ingest
    split
    · rfl
    · next results store' hpersist =>
        rw [← heldTenant_persist hpersist]
        cases store' with
        | memory s => rfl
        | postgres db => rfl

theorem heldTenant_postAll (d : Deployment) (posts : List (Readings × IngestRequest))
    (store : Store) (tenant : Identity) :
    heldTenant tenant (postAll d store posts) = heldTenant tenant store := by
  induction posts using List.reverseRecOn with
  | nil => rfl
  | append_singleton posts p ih =>
      rw [postAll, List.foldl_concat]
      exact (heldTenant_post d p.1 p.2 _ tenant).trans ih

/-- The header was let through for a tenant and a module under whose names a store holds the
event. -/
def Vouched (d : Deployment) (store : Store) (authorization : Option JsString) (tenant : Identity)
    (e : MonolithEvent) : Prop :=
  authenticateIngest d authorization tenant e.moduleName = some true ∧
    e.tenantId = heldTenant tenant store

theorem events_enforceSessionBound (s : MemoryStore) : s.enforceSessionBound.events = s.events := by
  unfold MemoryStore.enforceSessionBound
  split_ifs
  · rfl
  · rfl

theorem events_evaluateSessions (breaker : CircuitBreaker) (t : Identity) (revokedAt : ℕ → ℕ)
    (sessions : List (Identity × Identity)) (i : ℕ) (s : MemoryStore) :
    (s.evaluateSessions breaker t revokedAt i sessions).1.events = s.events := by
  induction sessions generalizing i s with
  | nil => rfl
  | cons session sessions ih =>
      rw [MemoryStore.evaluateSessions]
      split_ifs
      · cases revocationTexts _ _ with
        | error e => rfl
        | ok texts => exact (ih _ _).trans (events_enforceSessionBound _)
      · exact ih _ _

/-- The circuit breaker leaves the events alone. -/
theorem allEvents_evaluate (breaker : CircuitBreaker) (groups : GroupOrder) (revokedAt : ℕ → ℕ)
    (events : List MonolithEvent) (store : Store) :
    allEvents (store.evaluateSessionCircuitBreaker breaker groups revokedAt events).1 =
      allEvents store := by
  cases store with
  | memory s =>
      cases events with
      | nil => rfl
      | cons first rest =>
          refine congrArg InsertionMap.values ?_
          exact (events_evaluateSessions _ _ _ _ _ _).trans
            ((events_enforceSessionBound _).trans
              (MemoryStore.addModules_spec breaker first.tenantId _ s).1)
  | postgres db =>
      have hevents : (db.evaluateSessionCircuitBreaker breaker groups revokedAt events).1.events =
          db.events := Database.evaluate_events events
      exact congrArg (fun table : EventTable => table.values.map EventRow.event) hevents

section
variable {d : Deployment} {r : Readings} {req : IngestRequest} {events : List MonolithEvent}
  {store : Store} {e : MonolithEvent}

theorem authenticated_of_read (h : readBatch d r req = .ok events) :
    ∀ e ∈ events, authenticateIngest d req.authorization e.tenantId e.moduleName = some true := by
  unfold readBatch at h
  split at h
  · cases h
  · dsimp only at h
    split_ifs at h
    split at h
    · cases h
    · cases h
    · next first rest _ =>
        split_ifs at h with hmodule htenant
        split at h
        · cases h
        · cases h
        · next hauth =>
            cases h
            intro e he
            simp only [ne_eq, List.any_eq_true, decide_eq_true_eq, not_exists, not_and,
              not_not] at hmodule htenant
            rw [htenant e he, hmodule e he]
            exact hauth

/-- A row was there, or comes from the batch. -/
theorem insertEvents_origin {checks : TableChecks} {context : Identity} {now : ℕ}
    {table table' : EventTable} {results : List PersistResult} {id : JsString} {row : EventRow}
    (h : insertEvents checks context now events table = some (results, table'))
    (hrow : table'.get? id = some row) :
    table.get? id = some row ∨ ∃ event ∈ events, row = eventRow now event := by
  induction events generalizing table results with
  | nil => cases h; exact Or.inl hrow
  | cons event events ih =>
      rw [insertEvents] at h
      split at h
      · cases h
      · next result middle hfirst =>
          split at h
          · cases h
          · next rest last hrest =>
              cases h
              cases ih hrest with
              | inr hnew =>
                  obtain ⟨event', hmem, heq⟩ := hnew
                  exact Or.inr ⟨event', List.mem_cons_of_mem _ hmem, heq⟩
              | inl hmiddle =>
                  cases (insertEventWithClient_cases hfirst).2 with
                  | inl hheld => exact Or.inl (hheld.2.2 ▸ hmiddle)
                  | inr hset =>
                      rw [hset.2.2, InsertionMap.get?_set] at hmiddle
                      split_ifs at hmiddle with hkey
                      · cases hmiddle
                        exact Or.inr ⟨event, List.mem_cons_self, rfl⟩
                      · exact Or.inl hmiddle

/-- Storing a batch adds events of the batch only. -/
theorem mem_allEvents_persist {context : Identity} {results : List PersistResult} {store' : Store}
    (h : store.persistEvents d r events context = some (results, store'))
    (he : e ∈ allEvents store') : e ∈ allEvents store ∨ ∃ event ∈ events,
      e.moduleName = event.moduleName ∧ e.tenantId = heldTenant event.tenantId store := by
  cases store with
  | memory s =>
      cases h
      obtain ⟨id, hid⟩ := InsertionMap.mem_values_iff.mp he
      cases persistInMemory_origin hid with
      | inl hold => exact Or.inl (InsertionMap.mem_values_iff.mpr ⟨id, hold⟩)
      | inr hnew =>
          obtain ⟨event, hmem, j, -, rfl⟩ := hnew
          exact Or.inr ⟨event, hmem, rfl, rfl⟩
  | postgres db =>
      obtain ⟨⟨results', table⟩, hinsert, heq⟩ := Option.map_eq_some_iff.mp h
      cases heq
      obtain ⟨row, hrow, rfl⟩ := List.mem_map.mp he
      obtain ⟨id, hid⟩ := InsertionMap.mem_values_iff.mp hrow
      cases insertEvents_origin hinsert hid with
      | inl hold =>
          exact Or.inl (List.mem_map_of_mem (InsertionMap.mem_values_iff.mpr ⟨id, hold⟩))
      | inr hnew =>
          obtain ⟨event, hmem, rfl⟩ := hnew
          exact Or.inr ⟨event, hmem, rfl, rfl⟩

/-- What a request adds to the ledger is vouched for by its header. -/
theorem vouched_of_post (he : e ∈ allEvents (post d r req store).1) :
    e ∈ allEvents store ∨ ∃ tenant, Vouched d store req.authorization tenant e := by
  unfold post at he
  split at he
  · exact Or.inl he
  · exact Or.inl he
  · next first rest hread =>
      unfold Store.ingest at he
      split at he
      · exact Or.inl he
      · next results store' hpersist =>
          rw [allEvents_evaluate] at he
          cases mem_allEvents_persist hpersist he with
          | inl hold => exact Or.inl hold
          | inr hnew =>
              obtain ⟨event, hmem, hmodule, htenant⟩ := hnew
              refine Or.inr ⟨event.tenantId, ?_, htenant⟩
              rw [hmodule]
              exact authenticated_of_read hread event hmem

/-- Every new event of a ledger came with a header for its tenant and its module, which is good
for no other tenant and for no other module if different tokens have different digests. -/
theorem ledger_of_posts {setting : Setting} {posts : List (Readings × IngestRequest)}
    (hconfigured : d.configuredTokens = tokensOf setting)
    (he : e ∈ allEvents (postAll d store posts)) (hnew : e ∉ allEvents store) :
    ∃ p ∈ posts, ∃ tenant, Vouched d store p.2.authorization tenant e ∧
      ((∀ tokens, configuredTokens setting = .ok tokens → DigestsApart d.digest tokens.allTokens) →
        ∀ tenant' moduleName,
          authenticateIngest d p.2.authorization tenant' moduleName = some true →
            tenant' = tenant ∧ moduleName = e.moduleName) := by
  induction posts using List.reverseRecOn with
  | nil => exact absurd he hnew
  | append_singleton posts p ih =>
      rw [postAll, List.foldl_concat] at he
      cases vouched_of_post he with
      | inl hold =>
          obtain ⟨q, hq, hvouched⟩ := ih hold
          exact ⟨q, List.mem_append_left _ hq, hvouched⟩
      | inr hvouched =>
          obtain ⟨tenant, hauth, htenant⟩ := hvouched
          have hheld := htenant.trans (heldTenant_postAll d posts store tenant)
          refine ⟨p, List.mem_append_right _ (List.mem_singleton_self p), tenant, ⟨hauth, hheld⟩,
            fun hdigest tenant' moduleName hauth' => ?_⟩
          cases htokens : configuredTokens setting with
          | error error =>
              rw [authenticateIngest, hconfigured, tokensOf, htokens] at hauth
              cases hauth
          | ok tokens =>
              exact authenticated_unique hconfigured htokens (hdigest tokens htokens) hauth' hauth

end

/-- Two modules with their own tokens. -/
def sampleSetting : JsValue := .object
  [(.ofString "mcp-shield", .string (sampleToken defaultTenant .mcpShield)),
    (.ofString "trace-audit", .string (sampleToken defaultTenant .traceAudit))]

/-- The shield's event is in the ledger, and its header speaks for the shield only. -/
theorem shield_vouched :
    let d := { sampleDeployment with configuredTokens := tokensOf (.parsed sampleSetting) }
    ∃ e ∈ allEvents (postAll d (.memory .init) [(sampleReadings 9, shieldDetection)]),
      ∀ tenant moduleName, authenticateIngest d shieldDetection.authorization tenant moduleName =
        some true → moduleName = e.moduleName := by
  intro d
  have hlength : (allEvents (postAll d (.memory .init)
      [(sampleReadings 9, shieldDetection)])).length = 1 := by decide
  obtain ⟨e, he⟩ := List.exists_mem_of_length_pos (hlength.symm ▸ Nat.one_pos)
  have htokens : (configuredTokens (.parsed sampleSetting)).map TokenMap.allTokens =
      .ok [sampleToken defaultTenant .mcpShield, sampleToken defaultTenant .traceAudit] := by
    decide
  have hdigest : ∀ tokens, configuredTokens (.parsed sampleSetting) = .ok tokens →
      DigestsApart d.digest tokens.allTokens := by
    intro tokens h
    rw [h] at htokens
    rw [Except.ok.inj htokens]
    unfold DigestsApart
    decide
  have hconfigured : d.configuredTokens = tokensOf (.parsed sampleSetting) := rfl
  obtain ⟨p, hp, tenant, -, honly⟩ := ledger_of_posts hconfigured he List.not_mem_nil
  cases List.mem_singleton.mp hp
  exact ⟨e, he, fun tenant' moduleName h => (honly hdigest tenant' moduleName h).2⟩

/-! ## Tokens of operators -/

structure OperatorAccount where
  token : JsString
  role : RowPolicies.OperatorRole
  tenantId : JsString
deriving DecidableEq

/-- Who a request with a bearer token is. -/
structure Operator where
  actor : JsString
  role : RowPolicies.OperatorRole
  tenantId : JsString
deriving DecidableEq

def boundedId (value : Option JsValue) (fallback : Option JsString) : Option JsString :=
  let resolved := match value with
    | some (.string s) => some s.trim
    | _ => fallback
  resolved.filter fun s => s.units ≠ [] && s.length ≤ maxIdLength

def readRole : Option JsValue → Option RowPolicies.OperatorRole
  | some (.string s) =>
      if s = .ofString "viewer" then some .viewer
      else if s = .ofString "analyst" then some .analyst
      else if s = .ofString "admin" then some .admin
      else none
  | _ => none

/-- An account that can be used. A bare token is that of an administrator. -/
def usableAccount : JsValue → Option OperatorAccount
  | .string s =>
      if isBearerToken s then some ⟨s, .admin, .ofString "default"⟩ else none
  | .object value =>
      let token := match JsValue.get value "token" with
        | some (.string s) => s
        | _ => ⟨[]⟩
      if isBearerToken token then
        (readRole (JsValue.get value "role")).bind fun role =>
          (boundedId (JsValue.get value "tenant_id") (some (.ofString "default"))).map
            fun tenantId => ⟨token, role, tenantId⟩
      else none
  | _ => none

/-- An entry of the configuration under its trimmed name. -/
def usableOperator (member : JsString × JsValue) : Option (JsString × OperatorAccount) :=
  (boundedId (some (.string member.1)) none).bind fun actor =>
    (usableAccount member.2).map fun account => (actor, account)

def configuredOperators : Setting → Except String (InsertionMap JsString OperatorAccount)
  | .missing => .error "OPERATOR_TOKENS_JSON is not configured."
  | .unparsable _ => .error "OPERATOR_TOKENS_JSON must be valid JSON."
  | .parsed (.object value) =>
      let accounts := InsertionMap.fromEntries (value.filterMap usableOperator)
      if accounts.entries.isEmpty then .error <|
        "OPERATOR_TOKENS_JSON has no usable operator (tokens must be 16-512 header-safe " ++
          "characters)."
      else if (accounts.values.map OperatorAccount.token).Nodup then .ok accounts
      else .error "OPERATOR_TOKENS_JSON must not reuse a token across operators."
  | .parsed _ => .error "OPERATOR_TOKENS_JSON must be an operator-to-account object."

/-- The loop over all accounts, in the order in which they are enumerated. -/
def matchOperator (digest : JsString → List UInt8) (token : JsString)
    (accounts : List (JsString × OperatorAccount)) : Option Operator :=
  accounts.foldl (fun matched entry =>
    if digest token = digest entry.2.token then some ⟨entry.1, entry.2.role, entry.2.tenantId⟩
    else matched) none

/-- `enumerate` is `Object.entries`, which lists names like integers first. -/
def authenticateOperatorToken (digest : JsString → List UInt8)
    (enumerate : InsertionMap JsString OperatorAccount → List (JsString × OperatorAccount))
    (setting : Setting) (token : JsString) : Except String (Option Operator) :=
  if isBearerToken token then
    (configuredOperators setting).map fun accounts =>
      matchOperator digest token (enumerate accounts)
  else .ok none

section
variable {digest : JsString → List UInt8} {token : JsString} {value : List (JsString × JsValue)}
  {accounts : InsertionMap JsString OperatorAccount} {operator : Operator}

theorem configuredOperators_eq_ok
    (h : configuredOperators (.parsed (.object value)) = .ok accounts) :
    accounts = .fromEntries (value.filterMap usableOperator) ∧
      (accounts.values.map OperatorAccount.token).Nodup := by
  unfold configuredOperators at h
  dsimp only at h
  split_ifs at h with hempty hunique
  cases h
  exact ⟨rfl, hunique⟩

/-- Among different tokens at most one account is matched, wherever it stands. -/
theorem matchOperator_eq_some {entries : List (JsString × OperatorAccount)}
    (hunique : (entries.map fun entry => entry.2.token).Nodup)
    (hdigest : ∀ entry ∈ entries, digest token = digest entry.2.token → entry.2.token = token) :
    matchOperator digest token entries = some operator ↔
      (operator.actor, OperatorAccount.mk token operator.role operator.tenantId) ∈ entries := by
  induction entries using List.reverseRecOn with
  | nil => exact iff_of_false (fun h => by cases h) List.not_mem_nil
  | append_singleton entries entry ih =>
      rw [List.map_append, List.nodup_append_comm] at hunique
      obtain ⟨hfresh, hunique⟩ := List.nodup_cons.mp hunique
      obtain ⟨hdigest, hlast⟩ := List.forall_mem_append.mp hdigest
      rw [matchOperator, List.foldl_concat, ← matchOperator, List.mem_append, List.mem_singleton]
      split_ifs with hmatch
      · have htoken := hlast entry (List.mem_singleton_self entry) hmatch
        rw [Option.some.injEq]
        constructor
        · intro heq
          subst heq
          rw [← htoken]
          exact Or.inr rfl
        · intro h
          cases h with
          | inl hmem =>
              have hold : token ∈ entries.map fun entry => entry.2.token :=
                List.mem_map_of_mem (f := fun entry => entry.2.token) hmem
              rw [← htoken] at hold
              exact absurd hold hfresh
          | inr heq => rw [← heq]
      · rw [ih hunique hdigest]
        constructor
        · exact Or.inl
        · intro h
          cases h with
          | inl hmem => exact hmem
          | inr heq => exact absurd (by rw [← heq]) hmatch

/-- A token is an operator's if it is that of the last usable entry under the operator's name,
whatever the order of enumeration. -/
theorem operator_of_token
    {enumerate : InsertionMap JsString OperatorAccount → List (JsString × OperatorAccount)}
    (henumerate : ∀ accounts, (enumerate accounts).Perm accounts.entries)
    (haccounts : configuredOperators (.parsed (.object value)) = .ok accounts)
    (hdigest : ∀ account ∈ accounts.values, digest token = digest account.token →
      account.token = token) :
    authenticateOperatorToken digest enumerate (.parsed (.object value)) token =
        .ok (some operator) ↔
      isBearerToken token = true ∧
        InsertionMap.lookupIn operator.actor (value.filterMap usableOperator).reverse =
          some ⟨token, operator.role, operator.tenantId⟩ := by
  obtain ⟨hfrom, hunique⟩ := configuredOperators_eq_ok haccounts
  have hperm := henumerate accounts
  have hmatch : matchOperator digest token (enumerate accounts) = some operator ↔
      (operator.actor, OperatorAccount.mk token operator.role operator.tenantId) ∈
        enumerate accounts := by
    apply matchOperator_eq_some
    · rw [InsertionMap.values, List.map_map] at hunique
      exact (hperm.map _).nodup_iff.mpr hunique
    · intro entry hentry
      exact hdigest _ (List.mem_map_of_mem (hperm.mem_iff.mp hentry))
  rw [← InsertionMap.get?_fromEntries, ← hfrom, InsertionMap.get?_eq_some_iff, ← hperm.mem_iff,
    ← hmatch, authenticateOperatorToken, haccounts]
  cases isBearerToken token with
  | true => simp [Except.map]
  | false => simp

end

/-- Two entries with one name, of which the second counts. -/
def sampleOperators : List (JsString × JsValue) :=
  [(.ofString " ann", .string (.ofString "0123456789abcdef")),
    (.ofString "ann", .object [(.ofString "token", .string (.ofString "fedcba9876543210")),
      (.ofString "role", .string (.ofString "viewer"))])]

theorem second_entry_counts :
    authenticateOperatorToken (fun s => s.units.map (·.toUInt8)) InsertionMap.entries
        (.parsed (.object sampleOperators)) (.ofString "fedcba9876543210") =
      .ok (some ⟨.ofString "ann", .viewer, .ofString "default"⟩) := by
  have haccounts : configuredOperators (.parsed (.object sampleOperators)) =
      .ok (.fromEntries (sampleOperators.filterMap usableOperator)) := by
    unfold configuredOperators
    dsimp only
    rw [if_neg (by decide), if_pos (by decide)]
  refine (operator_of_token (fun accounts => .refl _) haccounts ?_).mpr ⟨by decide, by decide⟩
  decide

end BlackMonolith.Dashboard.Credentials
