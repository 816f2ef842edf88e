import BlackMonolith.Library.FormUrlencoded
import BlackMonolith.SecretBoundary.Authorisation
import BlackMonolith.SecretBoundary.ToolConfig

/-!
# Configured tools and the policy engine

The configuration is checked when it is loaded and every request is checked
again by the policy engine. The two readings agree on scheme, host, method, path
and query keys. Loading compares neither the port of a template with the port of
the rule nor the operation of a tool with the operation of its rule, and keeps
the last of several tools of one name.
-/
namespace BlackMonolith.SecretBoundary
open Library Text

/-- What the crates are documented to do, for the HTTPS URLs of the templates. -/
structure Crates.Lawful (crates : Crates) : Prop where
  parse_display : ∀ url, (crates.read url).scheme = "https" →
    crates.parse (crates.display url) = .ok url
  read_appendPair : ∀ url key value, (crates.read url).scheme = "https" →
    crates.read (crates.appendPair url key value) =
      { crates.read url with queryPairs := (crates.read url).queryPairs ++ [(key, value)] }
  toVec_ok : ∀ members, ∃ body, crates.toVec members = .ok body

/-! ## The checks of the policy -/

/-- The port a URL of a template is read with. -/
def effectivePort (url : Url) : ℕ := url.port.getD (schemeDefaultPort url.scheme)

def expectedPort (rule : PolicyRule) (url : Url) : ℕ :=
  rule.destinationPort.getD (schemeDefaultPort url.scheme)

/-- What the configuration checks of a template. -/
structure Conforms (rule : PolicyRule) (method : String) (url : Url) : Prop where
  scheme : url.scheme = "https"
  host : ∃ host, url.host = some host ∧ eqIgnoreAsciiCase host rule.destinationHost = true
  path : pathMatchesPrefix url.path rule.allowedPathPrefix = true
  untraversed : pathContainsTraversal url.path = false
  methods : rule.allowedMethods.any (eqIgnoreAsciiCase · (asciiUppercase method)) = true
  query : ∀ q ∈ url.queryPairs, rule.permitsQuery q.1 = true

section
variable {platform : Platform} {rule : PolicyRule} {request : OperationRequest} {url : Url}

/-- The policy accepts what the configuration checked, at the port of the rule. -/
theorem destinationDenial_eq_none_iff (h : Conforms rule request.method url) :
    destinationDenial platform rule request url = none ↔
      effectivePort url = expectedPort rule url := by
  obtain ⟨host, hhost, heq⟩ := h.host
  have hquery : url.queryPairs.find? (fun q =>
      !rule.permittedQueryParams.any (eqIgnoreAsciiCase · q.1)) = none := by
    rw [List.find?_eq_none]
    intro q hq
    have hpermitted := h.query q hq
    unfold PolicyRule.permitsQuery at hpermitted
    simp [hpermitted]
  unfold destinationDenial
  rw [hhost, hquery]
  simp only [h.scheme, bne_self_eq_false, Bool.and_false, Bool.false_eq_true, if_false, heq,
    Bool.not_true, h.methods, h.untraversed, h.path]
  unfold effectivePort expectedPort
  rw [h.scheme]
  split_ifs with hport <;> simp_all

theorem evaluate_ok_iff {rules : List PolicyRule} {now : ℕ}
    (hheaders : headerDenial request.headers = none) :
    evaluate platform rules request now = .ok rule ↔
      rules.filter (·.isFor request) = [rule] ∧ (∀ t, rule.validUntil = some t → now ≤ t) ∧
        ∃ url, platform.parseUrl request.destinationUrl = .ok url ∧
          destinationDenial platform rule request url = none := by
  unfold evaluate PolicyRule.isFor
  rw [hheaders]
  dsimp only
  cases rules.filter fun r => r.agentId == request.agentId && r.operationId == request.operationId with
  | nil => simp
  | cons rule' others =>
      cases others with
      | cons _ _ => simp
      | nil =>
          simp only [List.cons.injEq, and_true]
          cases hexpiry : rule'.validUntil.filter (· < now) with
          | some expiry =>
              obtain ⟨huntil, hexpired⟩ := Option.filter_eq_some_iff.mp hexpiry
              simp only [reduceCtorEq, false_iff]
              rintro ⟨rfl, htime, -⟩
              have hle := htime expiry huntil
              simp only [decide_eq_true_iff] at hexpired
              omega
          | none =>
              have htime : ∀ t, rule'.validUntil = some t → now ≤ t := by
                intro t ht
                rw [ht, Option.filter_eq_none_iff] at hexpiry
                simpa using hexpiry t rfl
              dsimp only
              cases hparse : platform.parseUrl request.destinationUrl with
              | error e => simp
              | ok url =>
                  dsimp only
                  cases hdenial : destinationDenial platform rule' request url with
                  | some e =>
                      simp only [reduceCtorEq, false_iff]
                      rintro ⟨rfl, -, url', heq, hnone⟩
                      cases heq
                      rw [hdenial] at hnone
                      cases hnone
                  | none =>
                      simp only [Except.ok.injEq]
                      constructor
                      · rintro rfl
                        exact ⟨rfl, htime, url, rfl, hdenial⟩
                      · exact fun h => h.1

end

/-- Query pairs the policy permits leave a conforming URL conforming. -/
theorem Conforms.append {rule : PolicyRule} {method : String} {url : Url}
    {pairs : List (String × String)} (h : Conforms rule method url)
    (hpairs : ∀ q ∈ pairs, rule.permitsQuery q.1 = true) :
    Conforms rule method { url with queryPairs := url.queryPairs ++ pairs } where
  scheme := h.scheme
  host := h.host
  path := h.path
  untraversed := h.untraversed
  methods := h.methods
  query := by
    intro q hq
    rcases List.mem_append.mp hq with hq | hq
    · exact h.query q hq
    · exact hpairs q hq

/-! ## The checks of the configuration -/

section
variable {crates : Crates} {tool : SecretBoundToolDefinition}

theorem permitsQuery_of_find? {α : Type} {rule : PolicyRule} {keys : List α} {key : α → String}
    (h : keys.find? (fun q => !rule.permitsQuery (key q)) = none) :
    ∀ q ∈ keys, rule.permitsQuery (key q) = true := by
  intro q hq
  have hnot := List.find?_eq_none.mp h q hq
  simpa using hnot

theorem templateError_eq_none {parsed : Url} {userinfo : Bool}
    (h : templateError tool parsed userinfo = none) :
    Conforms tool.policyRule tool.method parsed ∧
      (isQueryMethod (asciiUppercase tool.method) = true →
        ∀ p ∈ tool.permittedParams, tool.policyRule.permitsQuery p = true) := by
  unfold templateError at h
  cases hhost : parsed.host with
  | none =>
      rw [hhost] at h
      dsimp only at h
      split_ifs at h
  | some host =>
      rw [hhost] at h
      dsimp only at h
      by_cases hscheme : parsed.scheme ≠ "https"
      · rw [if_pos hscheme] at h
        cases h
      · rw [if_neg hscheme] at h
        have hconforms : ¬(!eqIgnoreAsciiCase host tool.policyRule.destinationHost) = true →
            ¬(!pathMatchesPrefix parsed.path tool.policyRule.allowedPathPrefix) = true →
            ¬pathContainsTraversal parsed.path = true →
            ¬(!tool.policyRule.allowedMethods.any
              (eqIgnoreAsciiCase · (asciiUppercase tool.method))) = true →
            parsed.queryPairs.find? (fun q => !tool.policyRule.permitsQuery q.1) = none →
              Conforms tool.policyRule tool.method parsed := by
          intro hhost' hpath htraversal hmethods hquery
          simp only [Bool.not_eq_true, Bool.not_eq_false'] at hhost' hpath htraversal hmethods
          exact ⟨not_not.mp hscheme, ⟨host, hhost, hhost'⟩, hpath, htraversal, hmethods,
            permitsQuery_of_find? hquery⟩
        split_ifs at h with huserinfo hhost' hpath htraversal hmethods hmethod
        · cases hparams : tool.permittedParams.find? fun p => !tool.policyRule.permitsQuery p with
          | some p =>
              rw [hparams] at h
              cases h
          | none =>
              rw [hparams] at h
              cases hquery : parsed.queryPairs.find? fun q => !tool.policyRule.permitsQuery q.1 with
              | some q =>
                  rw [hquery] at h
                  cases h
              | none =>
                  exact ⟨hconforms hhost' hpath htraversal hmethods hquery,
                    fun _ => @permitsQuery_of_find? _ _ _ id hparams⟩
        · cases hquery : parsed.queryPairs.find? fun q => !tool.policyRule.permitsQuery q.1 with
          | some q =>
              rw [hquery] at h
              cases h
          | none =>
              exact ⟨hconforms hhost' hpath htraversal hmethods hquery,
                fun hquery' => absurd hquery' hmethod⟩

theorem validate_ok (h : tool.validate crates = .ok ()) :
    ∃ template, crates.parse tool.urlTemplate = .ok template ∧
      Conforms tool.policyRule tool.method (crates.read template) ∧
      (isQueryMethod (asciiUppercase tool.method) = true →
        ∀ p ∈ tool.permittedParams, tool.policyRule.permitsQuery p = true) := by
  unfold SecretBoundToolDefinition.validate at h
  cases hparse : crates.parse tool.urlTemplate with
  | error e =>
      rw [hparse] at h
      cases h
  | ok template =>
      simp only [hparse] at h
      cases hcheck : templateError tool (crates.read template)
          (crates.username template != "" || (crates.password template).isSome) with
      | some e =>
          rw [hcheck] at h
          cases h
      | none => exact ⟨template, rfl, templateError_eq_none hcheck⟩

/-! ## The requests of a tool -/

/-- The arguments only add query pairs under their own names. -/
theorem read_appendArguments (hcrates : crates.Lawful) {url : crates.Url}
    (hscheme : (crates.read url).scheme = "https") (arguments : List (String × Json.Value)) :
    ∃ pairs, crates.read (appendArguments crates url arguments) =
      { crates.read url with queryPairs := (crates.read url).queryPairs ++ pairs } ∧
        ∀ q ∈ pairs, q.1 ∈ arguments.map Prod.fst := by
  induction arguments generalizing url with
  | nil => exact ⟨[], by simp [appendArguments], by simp⟩
  | cons argument arguments ih =>
      obtain ⟨key, value⟩ := argument
      unfold appendArguments
      rw [List.foldl_cons]
      cases htext : argumentText value with
      | none =>
          obtain ⟨pairs, hread, hkeys⟩ := ih hscheme
          exact ⟨pairs, hread, fun q hq => List.mem_cons_of_mem _ (hkeys q hq)⟩
      | some text =>
          have happended := hcrates.read_appendPair url key text hscheme
          have hscheme' : (crates.read (crates.appendPair url key text)).scheme = "https" := by
            rw [happended]
            exact hscheme
          obtain ⟨pairs, hread, hkeys⟩ := ih hscheme'
          refine ⟨(key, text) :: pairs, ?_, ?_⟩
          · refine hread.trans ?_
            rw [happended]
            simp
          · intro q hq
            rcases List.mem_cons.mp hq with rfl | hq
            · exact List.mem_cons_self
            · exact List.mem_cons_of_mem _ (hkeys q hq)

/-- A request of a tool is its template with the arguments added to the query. -/
structure BuiltFrom (crates : Crates) (tool : SecretBoundToolDefinition) (agentId : String)
    (template : crates.Url) (arguments : List (String × Json.Value))
    (request : OperationRequest) : Prop where
  agent : request.agentId = agentId
  operation : request.operationId = tool.operationId
  method : request.method = asciiUppercase tool.method
  headers : request.headers = []
  destination : request.destinationUrl =
    crates.display (appendArguments crates template arguments)
  permitted : arguments = [] ∨ isQueryMethod (asciiUppercase tool.method) = true ∧
    ∀ key ∈ arguments.map Prod.fst, key ∈ tool.permittedParams

theorem build_ok {registry : SecretToolRegistry} {toolName agentId : String}
    {arguments : Json.Value} {request : OperationRequest}
    (htool : registry.get? toolName = some tool)
    (h : registry.buildOperationRequest crates toolName agentId arguments = .ok request) :
    ∃ template members used, crates.parse tool.urlTemplate = .ok template ∧
      argumentsObject arguments = some members ∧
      used = (if isQueryMethod (asciiUppercase tool.method) then members else []) ∧
      (∀ key ∈ members.map Prod.fst, key ∈ tool.permittedParams) ∧
      BuiltFrom crates tool agentId template used request := by
  unfold SecretToolRegistry.buildOperationRequest at h
  rw [htool] at h
  dsimp only at h
  cases hobject : argumentsObject arguments with
  | none =>
      rw [hobject] at h
      cases h
  | some members =>
      rw [hobject] at h
      dsimp only at h
      cases hfind : members.find? fun argument => !tool.permittedParams.contains argument.1 with
      | some argument =>
          rw [hfind] at h
          cases h
      | none =>
          rw [hfind] at h
          dsimp only at h
          have hpermitted : ∀ key ∈ members.map Prod.fst, key ∈ tool.permittedParams := by
            intro key hkey
            obtain ⟨argument, hmem, rfl⟩ := List.mem_map.mp hkey
            have hnot := List.find?_eq_none.mp hfind argument hmem
            simpa using hnot
          cases herror : argumentError members with
          | some e =>
              rw [herror] at h
              cases h
          | none =>
              rw [herror] at h
              dsimp only at h
              cases hparse : crates.parse tool.urlTemplate with
              | error e =>
                  rw [hparse] at h
                  cases h
              | ok template =>
                  rw [hparse] at h
                  dsimp only at h
                  split_ifs at h with hquery
                  · cases h
                    exact ⟨template, members, members, rfl, rfl, (if_pos hquery).symm, hpermitted,
                      rfl, rfl, rfl, rfl, rfl, .inr ⟨hquery, hpermitted⟩⟩
                  · cases hbody : crates.toVec members with
                    | error e =>
                        rw [hbody] at h
                        cases h
                    | ok body =>
                        rw [hbody] at h
                        cases h
                        exact ⟨template, members, [], rfl, rfl, (if_neg hquery).symm, hpermitted,
                          rfl, rfl, rfl, rfl, rfl, .inl rfl⟩

/-- A call without arguments is always translated. -/
theorem build_null (hcrates : crates.Lawful) {registry : SecretToolRegistry}
    {toolName : String} (agentId : String) {template : crates.Url}
    (htool : registry.get? toolName = some tool)
    (hparse : crates.parse tool.urlTemplate = .ok template) :
    ∃ request, registry.buildOperationRequest crates toolName agentId .null = .ok request := by
  unfold SecretToolRegistry.buildOperationRequest
  rw [htool]
  simp only [argumentsObject, List.find?_nil, argumentError, hparse]
  split_ifs
  · exact ⟨_, rfl⟩
  · obtain ⟨body, hbody⟩ := hcrates.toVec_ok []
    rw [hbody]
    exact ⟨_, rfl⟩

/-- The policy reads in a request what the template says, with permitted keys only. -/
theorem conforms_of_built (hcrates : crates.Lawful) {agentId : String} {template : crates.Url}
    {arguments : List (String × Json.Value)} {request : OperationRequest}
    (hconforms : Conforms tool.policyRule tool.method (crates.read template))
    (hparams : isQueryMethod (asciiUppercase tool.method) = true →
      ∀ p ∈ tool.permittedParams, tool.policyRule.permitsQuery p = true)
    (hbuilt : BuiltFrom crates tool agentId template arguments request) (platform : Platform) :
    ∃ url, (crates.platform platform).parseUrl request.destinationUrl = .ok url ∧
      Conforms tool.policyRule request.method url ∧
      effectivePort url = effectivePort (crates.read template) ∧
      expectedPort tool.policyRule url = expectedPort tool.policyRule (crates.read template) := by
  obtain ⟨pairs, hread, hkeys⟩ := read_appendArguments hcrates hconforms.scheme arguments
  have hscheme : (crates.read (appendArguments crates template arguments)).scheme = "https" := by
    rw [hread]
    exact hconforms.scheme
  have hpairs : ∀ q ∈ pairs, tool.policyRule.permitsQuery q.1 = true := by
    intro q hq
    rcases hbuilt.permitted with rfl | ⟨hquery, hpermitted⟩
    · cases hkeys q hq
    · exact hparams hquery q.1 (hpermitted q.1 (hkeys q hq))
  refine ⟨crates.read (appendArguments crates template arguments), ?_, ?_, ?_, ?_⟩
  · unfold Crates.platform
    rw [hbuilt.destination]
    simp only [hcrates.parse_display _ hscheme, Except.map]
  · rw [hread, hbuilt.method]
    have happended := hconforms.append hpairs
    exact ⟨happended.scheme, happended.host, happended.path, happended.untraversed,
      by rw [asciiUppercase_idem]; exact happended.methods, happended.query⟩
  · rw [hread]
    rfl
  · rw [hread]
    rfl

end

/-! ## Loading -/

theorem filter_eq_singleton {α : Type} {p : α → Bool} {a : α} {l : List α} (hmem : a ∈ l)
    (ha : p a = true) (h : l.Pairwise fun x y => ¬(p x = true ∧ p y = true)) :
    l.filter p = [a] := by
  induction l with
  | nil => cases hmem
  | cons b l ih =>
      obtain ⟨hb, hl⟩ := List.pairwise_cons.mp h
      rcases List.mem_cons.mp hmem with rfl | hmem
      · rw [List.filter_cons_of_pos ha, List.filter_eq_nil_iff.mpr fun x hx hpx => hb x hx ⟨ha, hpx⟩]
      · rw [List.filter_cons_of_neg fun hpb => hb a hmem ⟨hpb, ha⟩]
        exact ih hmem hl

/-- Two rules that authorise the same operation of the same agent. -/
def PolicyRule.Clashes (r s : PolicyRule) : Prop :=
  r.agentId = s.agentId ∧ r.operationId = s.operationId

section
variable {crates : Crates} {agentId : String} {provider : SecretProvider}

theorem addTool_ok {loaded loaded' : List PolicyRule × SecretToolRegistry}
    {tool : SecretBoundToolDefinition}
    (h : addTool crates agentId provider loaded tool = .ok loaded') :
    tool.policyRule.agentId = agentId ∧ tool.validate crates = .ok () ∧
      (∀ r ∈ loaded.1, ¬r.Clashes tool.policyRule) ∧
      loaded' = (loaded.1 ++ [tool.policyRule], loaded.2.set tool.toolName tool) := by
  unfold addTool at h
  by_cases hagent : tool.policyRule.agentId ≠ agentId
  · rw [if_pos hagent] at h
    cases h
  · rw [if_neg hagent] at h
    split at h
    · cases h
    · unfold addRule SecretToolRegistry.registerTool at h
      by_cases hclash : (loaded.1.any fun r =>
          r.agentId == tool.policyRule.agentId && r.operationId == tool.policyRule.operationId) = true
      · rw [if_pos hclash] at h
        cases h
      · rw [if_neg hclash] at h
        dsimp only at h
        cases hvalid : tool.validate crates with
        | error e =>
            rw [hvalid] at h
            cases h
        | ok u =>
            rw [hvalid] at h
            cases h
            refine ⟨not_not.mp hagent, rfl, ?_, rfl⟩
            intro r hr hr'
            apply hclash
            rw [List.any_eq_true]
            exact ⟨r, hr, by simp [hr'.1, hr'.2]⟩

/-- What is loaded, over the tools that were loaded before. -/
theorem foldlM_addTool_ok {tools : List SecretBoundToolDefinition}
    {loaded loaded' : List PolicyRule × SecretToolRegistry}
    (h : tools.foldlM (addTool crates agentId provider) loaded = .ok loaded') :
    (∀ tool ∈ tools, tool.policyRule.agentId = agentId ∧ tool.validate crates = .ok ()) ∧
      (loaded.1.Pairwise (fun r s => ¬r.Clashes s) → loaded'.1.Pairwise fun r s => ¬r.Clashes s) ∧
      loaded'.1 = loaded.1 ++ tools.map (·.policyRule) ∧
      loaded'.2 = tools.foldl (fun registry tool => registry.set tool.toolName tool) loaded.2 := by
  induction tools generalizing loaded with
  | nil =>
      cases h
      simp
  | cons tool tools ih =>
      rw [List.foldlM_cons] at h
      cases hadd : addTool crates agentId provider loaded tool with
      | error e =>
          rw [hadd] at h
          cases h
      | ok loaded'' =>
          rw [hadd] at h
          obtain ⟨hagent, hvalid, hfresh, rfl⟩ := addTool_ok hadd
          obtain ⟨hall, hpairwise, hrules, hregistry⟩ := ih h
          refine ⟨?_, ?_, ?_, hregistry⟩
          · intro tool' hmem
            rcases List.mem_cons.mp hmem with rfl | hmem
            · exact ⟨hagent, hvalid⟩
            · exact hall tool' hmem
          · intro hdistinct
            apply hpairwise
            rw [List.pairwise_append]
            refine ⟨hdistinct, List.pairwise_singleton _ _, ?_⟩
            intro r hr s hs
            rw [List.mem_singleton.mp hs]
            exact hfresh r hr
          · rw [hrules]
            simp

/-- A name in the registry stands for the last tool of that name. -/
theorem get?_foldl_set (tools : List SecretBoundToolDefinition) (registry : SecretToolRegistry)
    (name : String) :
    (tools.foldl (fun registry tool => registry.set tool.toolName tool) registry).get? name =
      ((tools.reverse.find? (·.toolName = name)).or (registry.get? name)) := by
  induction tools generalizing registry with
  | nil => rfl
  | cons tool tools ih =>
      rw [List.foldl_cons, ih, InsertionMap.get?_set, List.reverse_cons, List.find?_append]
      by_cases heq : tool.toolName = name
      · simp [heq]
      · simp [heq]

/-- What an accepted configuration loads. -/
structure Loaded (crates : Crates) (config : BoundaryConfig) (boundary : ShieldSecretBoundary) :
    Prop where
  checked : ∀ tool ∈ config.tools,
    tool.policyRule.agentId = boundary.agentId ∧ tool.validate crates = .ok ()
  rules : boundary.rules = config.tools.map (·.policyRule)
  distinct : boundary.rules.Pairwise fun r s => ¬r.Clashes s
  registry : ∀ name, boundary.registry.get? name =
    config.tools.reverse.find? (·.toolName = name)

theorem fromConfig_ok {config : BoundaryConfig} {boundary : ShieldSecretBoundary}
    (h : fromConfig crates config = .ok boundary) : Loaded crates config boundary := by
  unfold fromConfig at h
  split_ifs at h
  dsimp only at h
  split_ifs at h
  cases hprovider : selectProvider crates config with
  | error e =>
      rw [hprovider] at h
      cases h
  | ok provider =>
      rw [hprovider] at h
      dsimp only at h
      cases hfold : config.tools.foldlM (addTool crates (trim config.agentId) provider)
          ([], .empty) with
      | error e =>
          rw [hfold] at h
          cases h
      | ok loaded =>
          obtain ⟨rules, registry⟩ := loaded
          rw [hfold] at h
          cases h
          obtain ⟨hall, hpairwise, hrules, hregistry⟩ := foldlM_addTool_ok hfold
          constructor
          · exact hall
          · simpa using hrules
          · exact hpairwise List.Pairwise.nil
          · intro name
            dsimp only at hregistry ⊢
            rw [hregistry, get?_foldl_set]
            simp

theorem Loaded.find_tool {config : BoundaryConfig} {boundary : ShieldSecretBoundary}
    (h : Loaded crates config boundary) {tool : SecretBoundToolDefinition}
    (hmem : tool ∈ config.tools) :
    ∃ tool' ∈ config.tools, tool'.toolName = tool.toolName ∧
      boundary.registry.get? tool.toolName = some tool' := by
  rw [h.registry]
  cases hfind : config.tools.reverse.find? (·.toolName = tool.toolName) with
  | none =>
      have hnot := List.find?_eq_none.mp hfind tool (List.mem_reverse.mpr hmem)
      simp at hnot
  | some tool' =>
      have hname := List.find?_some hfind
      have hmem' := List.mem_reverse.mp (List.mem_of_find?_eq_some hfind)
      exact ⟨tool', hmem', by simpa using hname, rfl⟩

/-- The rule of a configured tool is the only one for its agent and operation. -/
theorem Loaded.filter_rule {config : BoundaryConfig} {boundary : ShieldSecretBoundary}
    (h : Loaded crates config boundary) {tool : SecretBoundToolDefinition}
    (hmem : tool ∈ config.tools) {request : OperationRequest}
    (hagent : request.agentId = boundary.agentId)
    (hoperation : request.operationId = tool.policyRule.operationId) :
    boundary.rules.filter (·.isFor request) = [tool.policyRule] := by
  have hagent' := (h.checked tool hmem).1
  apply filter_eq_singleton
  · rw [h.rules]
    exact List.mem_map_of_mem hmem
  · simp [PolicyRule.isFor, hagent, hoperation, hagent']
  · apply h.distinct.imp
    rintro r s hclash ⟨hr, hs⟩
    simp only [PolicyRule.isFor, Bool.and_eq_true, beq_iff_eq] at hr hs
    exact hclash ⟨hr.1.trans hs.1.symm, hr.2.trans hs.2.symm⟩

end

/-! ## Agreement -/

section
variable (crates : Crates) (platform : Platform) (config : BoundaryConfig)
  (boundary : ShieldSecretBoundary)

/-- Whatever is built for a configured tool is authorised by its rule, and every
configured tool can be used. -/
structure Agrees : Prop where
  authorised : ∀ tool ∈ config.tools, ∀ arguments request now,
    boundary.registry.buildOperationRequest crates tool.toolName boundary.agentId arguments =
        .ok request →
      (∀ t, tool.policyRule.validUntil = some t → now ≤ t) →
        evaluate (crates.platform platform) boundary.rules request now = .ok tool.policyRule
  usable : ∀ tool ∈ config.tools, ∃ arguments request now rule,
    boundary.registry.buildOperationRequest crates tool.toolName boundary.agentId arguments =
      .ok request ∧
        evaluate (crates.platform platform) boundary.rules request now = .ok rule

/-- What loading leaves unchecked. -/
structure Consistent : Prop where
  names : (config.tools.map (·.toolName)).Nodup
  operations : ∀ tool ∈ config.tools, tool.operationId = tool.policyRule.operationId
  ports : ∀ tool ∈ config.tools, ∀ template, crates.parse tool.urlTemplate = .ok template →
    effectivePort (crates.read template) = expectedPort tool.policyRule (crates.read template)

end

section
variable {crates : Crates} {platform : Platform} {config : BoundaryConfig}
  {boundary : ShieldSecretBoundary}

/-- One request of a tool, judged by the policy. -/
theorem evaluate_built_iff (hcrates : crates.Lawful) (hloaded : Loaded crates config boundary)
    {tool : SecretBoundToolDefinition} (hmem : tool ∈ config.tools) {template : crates.Url}
    {arguments : List (String × Json.Value)} {request : OperationRequest} {now : ℕ}
    (hparse : crates.parse tool.urlTemplate = .ok template)
    (hbuilt : BuiltFrom crates tool boundary.agentId template arguments request)
    (hoperation : request.operationId = tool.policyRule.operationId)
    (htime : ∀ t, tool.policyRule.validUntil = some t → now ≤ t) :
    evaluate (crates.platform platform) boundary.rules request now = .ok tool.policyRule ↔
      effectivePort (crates.read template) = expectedPort tool.policyRule (crates.read template) := by
  obtain ⟨template', hparse', hconforms, hparams⟩ := validate_ok (hloaded.checked tool hmem).2
  rw [hparse] at hparse'
  cases hparse'
  obtain ⟨url, hurl, hconforms', heffective, hexpected⟩ :=
    conforms_of_built hcrates hconforms hparams hbuilt platform
  have hdenial : destinationDenial (crates.platform platform) tool.policyRule request url = none ↔
      effectivePort url = expectedPort tool.policyRule url :=
    destinationDenial_eq_none_iff hconforms'
  rw [heffective, hexpected] at hdenial
  rw [evaluate_ok_iff (by rw [hbuilt.headers]; rfl), ← hdenial]
  constructor
  · rintro ⟨-, -, url', hurl', hnone⟩
    rw [hurl] at hurl'
    cases hurl'
    exact hnone
  · intro hnone
    exact ⟨hloaded.filter_rule hmem hbuilt.agent hoperation, htime, url, hurl, hnone⟩

/-- A call without arguments, before the rule of the tool expires. -/
theorem null_call (hcrates : crates.Lawful) (hloaded : Loaded crates config boundary)
    {tool : SecretBoundToolDefinition} (hmem : tool ∈ config.tools) :
    ∃ tool' ∈ config.tools, ∃ template used request, tool'.toolName = tool.toolName ∧
      boundary.registry.get? tool.toolName = some tool' ∧
      crates.parse tool'.urlTemplate = .ok template ∧
      boundary.registry.buildOperationRequest crates tool.toolName boundary.agentId .null =
        .ok request ∧ BuiltFrom crates tool' boundary.agentId template used request := by
  obtain ⟨tool', hmem', hname, hget⟩ := hloaded.find_tool hmem
  obtain ⟨template, hparse, -⟩ := validate_ok (hloaded.checked tool' hmem').2
  obtain ⟨request, hbuild⟩ := build_null hcrates boundary.agentId hget hparse
  obtain ⟨template', -, used, hparse', -, -, -, hbuilt⟩ := build_ok hget hbuild
  rw [hparse] at hparse'
  cases hparse'
  exact ⟨tool', hmem', template, used, request, hname, hget, hparse, hbuild, hbuilt⟩

/-- With distinct names a tool answers to its own name. -/
theorem Loaded.get?_of_names (hloaded : Loaded crates config boundary)
    (hnames : (config.tools.map (·.toolName)).Nodup) {tool : SecretBoundToolDefinition}
    (hmem : tool ∈ config.tools) : boundary.registry.get? tool.toolName = some tool := by
  obtain ⟨tool', hmem', hname, hget⟩ := hloaded.find_tool hmem
  rw [hget, List.inj_on_of_nodup_map hnames hmem' hmem hname]

/-- If every tool is authorised by its own rule, the names tell the tools apart. -/
theorem names_nodup (hloaded : Loaded crates config boundary)
    (hoperation : ∀ tool ∈ config.tools, ∃ tool',
      boundary.registry.get? tool.toolName = some tool' ∧
        tool.policyRule.operationId = tool'.operationId) :
    (config.tools.map (·.toolName)).Nodup := by
  have hdistinct := hloaded.distinct
  rw [hloaded.rules, List.pairwise_map] at hdistinct
  rw [List.Nodup, List.pairwise_map]
  apply hdistinct.imp_of_mem
  intro tool other hmem hother hclash hname
  obtain ⟨tool', hget, hop⟩ := hoperation tool hmem
  obtain ⟨other', hget', hop'⟩ := hoperation other hother
  rw [hname, hget', Option.some.injEq] at hget
  rw [hget] at hop'
  exact hclash ⟨(hloaded.checked tool hmem).1.trans (hloaded.checked other hother).1.symm,
    hop.trans hop'.symm⟩

/-- What a request is authorised by is for its operation. -/
theorem operation_of_evaluate {platform : Platform} {rules : List PolicyRule}
    {request : OperationRequest} {now : ℕ} {rule : PolicyRule} (hheaders : request.headers = [])
    (h : evaluate platform rules request now = .ok rule) :
    rule.operationId = request.operationId := by
  obtain ⟨hfilter, -⟩ := (evaluate_ok_iff (by rw [hheaders]; rfl)).mp h
  have hmem : rule ∈ rules.filter (·.isFor request) := by
    rw [hfilter]
    exact List.mem_singleton_self rule
  have hfor := (List.mem_filter.mp hmem).2
  simp only [PolicyRule.isFor, Bool.and_eq_true, beq_iff_eq] at hfor
  exact hfor.2

theorem consistent_of_agrees (hcrates : crates.Lawful) (hloaded : Loaded crates config boundary)
    (h : Agrees crates platform config boundary) : Consistent crates config := by
  -- a call without arguments shows what its tool is judged by
  have hjudged : ∀ tool ∈ config.tools, ∃ tool' template used request,
      boundary.registry.get? tool.toolName = some tool' ∧
      crates.parse tool'.urlTemplate = .ok template ∧
      BuiltFrom crates tool' boundary.agentId template used request ∧
      tool.policyRule.operationId = tool'.operationId ∧
      evaluate (crates.platform platform) boundary.rules request 0 = .ok tool.policyRule := by
    intro tool hmem
    obtain ⟨tool', hmem', template, used, request, hname, hget, hparse, hbuild, hbuilt⟩ :=
      null_call hcrates hloaded hmem
    have heval := h.authorised tool hmem _ _ 0 hbuild fun t _ => Nat.zero_le t
    have hoperation := operation_of_evaluate hbuilt.headers heval
    exact ⟨tool', template, used, request, hget, hparse, hbuilt,
      hoperation.trans hbuilt.operation, heval⟩
  have hnames : (config.tools.map (·.toolName)).Nodup := by
    apply names_nodup hloaded
    intro tool hmem
    obtain ⟨tool', -, -, -, hget, -, -, hoperation, -⟩ := hjudged tool hmem
    exact ⟨tool', hget, hoperation⟩
  constructor
  · exact hnames
  · intro tool hmem
    obtain ⟨tool', -, -, -, hget, -, -, hoperation, -⟩ := hjudged tool hmem
    rw [hloaded.get?_of_names hnames hmem] at hget
    cases hget
    exact hoperation.symm
  · intro tool hmem template hparse
    obtain ⟨tool', template', used, request, hget, hparse', hbuilt, hoperation, heval⟩ :=
      hjudged tool hmem
    rw [hloaded.get?_of_names hnames hmem] at hget
    cases hget
    rw [hparse] at hparse'
    cases hparse'
    exact (evaluate_built_iff hcrates hloaded hmem hparse hbuilt
      (hbuilt.operation.trans hoperation.symm) fun t _ => Nat.zero_le t).mp heval

theorem agrees_of_consistent (hcrates : crates.Lawful) (hloaded : Loaded crates config boundary)
    (h : Consistent crates config) : Agrees crates platform config boundary := by
  have hauthorised : ∀ tool ∈ config.tools, ∀ arguments request now,
      boundary.registry.buildOperationRequest crates tool.toolName boundary.agentId arguments =
          .ok request →
        (∀ t, tool.policyRule.validUntil = some t → now ≤ t) →
          evaluate (crates.platform platform) boundary.rules request now =
            .ok tool.policyRule := by
    intro tool hmem arguments request now hbuild htime
    have hget := hloaded.get?_of_names h.names hmem
    obtain ⟨template, -, used, hparse, -, -, -, hbuilt⟩ := build_ok hget hbuild
    exact (evaluate_built_iff hcrates hloaded hmem hparse hbuilt
      (hbuilt.operation.trans (h.operations tool hmem)) htime).mpr (h.ports tool hmem template hparse)
  constructor
  · exact hauthorised
  · intro tool hmem
    obtain ⟨-, -, -, -, request, -, -, -, hbuild, -⟩ := null_call hcrates hloaded hmem
    exact ⟨.null, request, 0, tool.policyRule, hbuild,
      hauthorised tool hmem _ _ 0 hbuild fun t _ => Nat.zero_le t⟩

end

/-! ## A weather tool

The URLs of one host and path, at the default port of HTTPS or at another one. -/

structure WeatherUrl where
  alternate : Bool
  queryPairs : List (String × String)
deriving Repr, DecidableEq

def weatherBase (alternate : Bool) : String :=
  if alternate then "https://api.weather.example.com:8443/v1/forecast"
  else "https://api.weather.example.com/v1/forecast"

def WeatherUrl.query (url : WeatherUrl) : List Char :=
  if url.queryPairs = [] then [] else '?' :: FormUrlencoded.serialize url.queryPairs

def parseQuery (alternate : Bool) : List Char → Except String WeatherUrl
  | [] => .ok ⟨alternate, []⟩
  | '?' :: cs => .ok ⟨alternate, FormUrlencoded.parse cs⟩
  | _ => .error "relative URL without a base"

def parseWeather (s : String) : Except String WeatherUrl :=
  if (weatherBase true).toList.isPrefixOf s.toList then
    parseQuery true (s.toList.drop (weatherBase true).toList.length)
  else if (weatherBase false).toList.isPrefixOf s.toList then
    parseQuery false (s.toList.drop (weatherBase false).toList.length)
  else .error "relative URL without a base"

def weatherCrates : Crates where
  Url := WeatherUrl
  parse := parseWeather
  read := fun url => ⟨"https", some "api.weather.example.com",
    if url.alternate then some 8443 else none, some (if url.alternate then 8443 else 443),
    "/v1/forecast", url.queryPairs⟩
  username := fun _ => ""
  password := fun _ => none
  appendPair := fun url key value => { url with queryPairs := url.queryPairs ++ [(key, value)] }
  display := fun url => String.ofList ((weatherBase url.alternate).toList ++ url.query)
  toVec := fun _ => .ok []
  validateTrustedCliPath := fun _ _ => .ok ()

theorem parseQuery_query (url : WeatherUrl) : parseQuery url.alternate url.query = .ok url := by
  unfold WeatherUrl.query
  by_cases hempty : url.queryPairs = []
  · rw [if_pos hempty]
    cases url
    cases hempty
    rfl
  · rw [if_neg hempty, parseQuery, FormUrlencoded.parse_serialize]

theorem parseWeather_display (url : WeatherUrl) :
    parseWeather (String.ofList ((weatherBase url.alternate).toList ++ url.query)) = .ok url := by
  have hquery := parseQuery_query url
  unfold parseWeather
  rw [String.toList_ofList]
  cases halternate : url.alternate with
  | true =>
      rw [halternate] at hquery
      rw [if_pos (by simp), List.drop_left]
      exact hquery
  | false =>
      rw [halternate] at hquery
      have hother : (weatherBase true).toList.isPrefixOf ((weatherBase false).toList ++ url.query) =
          false := rfl
      rw [hother, if_neg Bool.false_ne_true, if_pos (by simp), List.drop_left]
      exact hquery

theorem weatherCrates_lawful : weatherCrates.Lawful where
  parse_display := fun url _ => by
    dsimp only [weatherCrates]
    exact parseWeather_display url
  read_appendPair := fun _ _ _ _ => rfl
  toVec_ok := fun _ => ⟨[], rfl⟩

def weatherTool (alternate : Bool) : SecretBoundToolDefinition where
  toolName := "fetch_weather"
  operationId := "op_fetch_weather"
  description := "Fetch current weather observations securely"
  inputSchema := .object [("type", .string "object")]
  urlTemplate := weatherBase alternate
  method := "GET"
  permittedParams := ["city", "units"]
  policyRule :=
    { agentId := "demo-agent"
      operationId := "op_fetch_weather"
      approvedCredentialRef := "mock://weather/api-key"
      destinationHost := "api.weather.example.com"
      allowedPathPrefix := "/v1/forecast"
      permittedQueryParams := ["city", "units"] }

def weatherConfig (alternate : Bool) : BoundaryConfig :=
  { enabled := true, agentId := "demo-agent", tools := [weatherTool alternate] }

theorem weatherConfig_accepted (alternate : Bool) :
    ∃ boundary, fromConfig weatherCrates (weatherConfig alternate) = .ok boundary := by
  have haccepted : (fromConfig weatherCrates (weatherConfig alternate)).isOk = true := by
    cases alternate <;> decide
  cases hload : fromConfig weatherCrates (weatherConfig alternate) with
  | error e =>
      rw [hload] at haccepted
      cases haccepted
  | ok boundary => exact ⟨boundary, rfl⟩

def weatherPlatform : Platform :=
  ⟨fun _ => .error "", fun _ => none, fun _ => "", fun _ => "", fun _ => ""⟩

theorem weather_consistent : Consistent weatherCrates (weatherConfig false) := by
  constructor
  · decide
  · intro tool hmem
    cases List.mem_singleton.mp hmem
    rfl
  · intro tool hmem template hparse
    cases List.mem_singleton.mp hmem
    have hparse' : parseWeather (weatherBase false) = .ok ⟨false, []⟩ := by decide
    rw [show weatherCrates.parse (weatherTool false).urlTemplate = .ok ⟨false, []⟩ from hparse'] at hparse
    cases hparse
    rfl

/-- An accepted configuration agrees with the policy engine exactly when it is
consistent in what loading leaves unchecked. -/
theorem config_agrees_iff {crates : Crates} {platform : Platform} {config : BoundaryConfig}
    {boundary : ShieldSecretBoundary} (hcrates : crates.Lawful)
    (haccepted : fromConfig crates config = .ok boundary) :
    Agrees crates platform config boundary ↔ Consistent crates config := by
  have hloaded := fromConfig_ok haccepted
  constructor
  · exact consistent_of_agrees hcrates hloaded
  · exact agrees_of_consistent hcrates hloaded

theorem config_agrees_weather : ∃ boundary,
    fromConfig weatherCrates (weatherConfig false) = .ok boundary ∧
      Agrees weatherCrates weatherPlatform (weatherConfig false) boundary := by
  obtain ⟨boundary, haccepted⟩ := weatherConfig_accepted false
  exact ⟨boundary, haccepted,
    (config_agrees_iff weatherCrates_lawful haccepted).mpr weather_consistent⟩

/-- A template at another port than its rule is accepted. -/
theorem alternate_port_denied : ∃ boundary,
    fromConfig weatherCrates (weatherConfig true) = .ok boundary ∧
      ¬Agrees weatherCrates weatherPlatform (weatherConfig true) boundary := by
  obtain ⟨boundary, haccepted⟩ := weatherConfig_accepted true
  refine ⟨boundary, haccepted, ?_⟩
  intro hagrees
  have hconsistent := consistent_of_agrees weatherCrates_lawful (fromConfig_ok haccepted) hagrees
  have hparse : parseWeather (weatherBase true) = .ok ⟨true, []⟩ := by decide
  have hports := hconsistent.ports (weatherTool true) (List.mem_singleton_self _) ⟨true, []⟩ hparse
  exact absurd hports (by decide)

end BlackMonolith.SecretBoundary
