import BlackMonolith.JsonText
import BlackMonolith.SecretBoundary.ConfigAgreement

/-!
# Requests stay inside their template

The names and values of a call are chosen by the agent. They are encoded into the
query of the template's URL, which is printed and parsed again before it is used.
A template may carry a query of its own, whose pairs come first and are kept.
-/
namespace BlackMonolith.SecretBoundary
open Library Text

/-- Appending a query pair leaves the other parts of an HTTPS URL alone. -/
structure Crates.KeepsRest (crates : Crates) (fragment : crates.Url → Option String) : Prop where
  fragment_appendPair : ∀ url key value, (crates.read url).scheme = "https" →
    fragment (crates.appendPair url key value) = fragment url
  username_appendPair : ∀ url key value, (crates.read url).scheme = "https" →
    crates.username (crates.appendPair url key value) = crates.username url
  password_appendPair : ∀ url key value, (crates.read url).scheme = "https" →
    crates.password (crates.appendPair url key value) = crates.password url

/-- The query pairs of the arguments of a call. -/
def sentPairs (arguments : List (String × Json.Value)) : List (String × String) :=
  arguments.filterMap fun argument => (argumentText argument.2).map (argument.1, ·)

/-- A request that names its template but for the query pairs of permitted arguments. -/
structure Confined (crates : Crates) (fragment : crates.Url → Option String)
    (tool : SecretBoundToolDefinition) (template : crates.Url)
    (arguments : List (String × Json.Value)) (request : OperationRequest) (url : crates.Url) :
    Prop where
  parsed : crates.parse request.destinationUrl = .ok url
  scheme : (crates.read url).scheme = (crates.read template).scheme
  host : (crates.read url).host = (crates.read template).host
  port : (crates.read url).port = (crates.read template).port
  knownPort : (crates.read url).portOrKnownDefault = (crates.read template).portOrKnownDefault
  path : (crates.read url).path = (crates.read template).path
  fragment : fragment url = fragment template
  username : crates.username url = crates.username template
  password : crates.password url = crates.password template
  headers : request.headers = []
  method : request.method = asciiUppercase tool.method
  permitted : ∀ key ∈ arguments.map Prod.fst, key ∈ tool.permittedParams
  /-- GET and HEAD append the arguments to the template's query, also one it names already. -/
  sent : (crates.read url).queryPairs = (crates.read template).queryPairs ++
    if isQueryMethod (asciiUppercase tool.method) then sentPairs arguments else []
  /-- Every query pair is the template's, or a permitted parameter with its own value. -/
  query : ∀ q ∈ (crates.read url).queryPairs, q ∈ (crates.read template).queryPairs ∨
    q.1 ∈ tool.permittedParams ∧
      ∃ value, (q.1, value) ∈ arguments ∧ argumentText value = some q.2
  /-- A parameter that the template's query does not name occurs once at most. -/
  once : ∀ param ∉ (crates.read template).queryPairs.map Prod.fst,
    ((crates.read url).queryPairs.filter (·.1 == param)).length ≤ 1

section
variable {crates : Crates} {fragment : crates.Url → Option String}

theorem sentPairs_cons (key : String) (value : Json.Value) (arguments : List (String × Json.Value)) :
    sentPairs ((key, value) :: arguments) =
      ((argumentText value).map (key, ·)).toList ++ sentPairs arguments := by
  unfold sentPairs
  rw [List.filterMap_cons]
  cases argumentText value with
  | none => rfl
  | some text => rfl

/-- The arguments are appended to the query in their order, and nothing else changes. -/
theorem read_append_sent (hcrates : crates.Lawful) (hrest : crates.KeepsRest fragment)
    {url : crates.Url} (hscheme : (crates.read url).scheme = "https")
    (arguments : List (String × Json.Value)) :
    crates.read (appendArguments crates url arguments) =
        { crates.read url with
          queryPairs := (crates.read url).queryPairs ++ sentPairs arguments } ∧
      fragment (appendArguments crates url arguments) = fragment url ∧
      crates.username (appendArguments crates url arguments) = crates.username url ∧
      crates.password (appendArguments crates url arguments) = crates.password url := by
  induction arguments generalizing url with
  | nil => simp [appendArguments, sentPairs]
  | cons argument arguments ih =>
      obtain ⟨key, value⟩ := argument
      unfold appendArguments
      rw [List.foldl_cons, sentPairs_cons]
      cases htext : argumentText value with
      | none => exact ih hscheme
      | some text =>
          have happended := hcrates.read_appendPair url key text hscheme
          have hscheme' : (crates.read (crates.appendPair url key text)).scheme = "https" := by
            rw [happended]
            exact hscheme
          obtain ⟨hread, hfragment, husername, hpassword⟩ := ih hscheme'
          refine ⟨?_, ?_, ?_, ?_⟩
          · refine hread.trans ?_
            rw [happended]
            simp
          · exact hfragment.trans (hrest.fragment_appendPair url key text hscheme)
          · exact husername.trans (hrest.username_appendPair url key text hscheme)
          · exact hpassword.trans (hrest.password_appendPair url key text hscheme)

theorem mem_sentPairs {arguments : List (String × Json.Value)} {q : String × String}
    (h : q ∈ sentPairs arguments) :
    ∃ value, (q.1, value) ∈ arguments ∧ argumentText value = some q.2 := by
  obtain ⟨⟨key, value⟩, hmem, hsome⟩ := List.mem_filterMap.mp h
  obtain ⟨text, htext, rfl⟩ := Option.map_eq_some_iff.mp hsome
  exact ⟨value, hmem, htext⟩

theorem sentPairs_keys_sublist (arguments : List (String × Json.Value)) :
    ((sentPairs arguments).map Prod.fst).Sublist (arguments.map Prod.fst) := by
  induction arguments with
  | nil => exact List.Sublist.refl _
  | cons argument arguments ih =>
      obtain ⟨key, value⟩ := argument
      rw [sentPairs_cons]
      cases argumentText value with
      | none => exact ih.cons key
      | some text => exact ih.cons_cons key

/-- Distinct names are sent once each. -/
theorem length_filter_sentPairs {arguments : List (String × Json.Value)}
    (h : (arguments.map Prod.fst).Nodup) (param : String) :
    ((sentPairs arguments).filter (·.1 == param)).length ≤ 1 := by
  have hnodup := h.sublist (sentPairs_keys_sublist arguments)
  have hcount := List.nodup_iff_count_le_one.mp hnodup param
  rwa [List.count_eq_countP, List.countP_map, List.countP_eq_length_filter] at hcount

theorem confined_of_built (hcrates : crates.Lawful) (hrest : crates.KeepsRest fragment)
    {tool : SecretBoundToolDefinition} {agentId : String} {template : crates.Url}
    {members used : List (String × Json.Value)} {request : OperationRequest}
    (hscheme : (crates.read template).scheme = "https") (hunique : (members.map Prod.fst).Nodup)
    (hused : used = if isQueryMethod (asciiUppercase tool.method) then members else [])
    (hpermitted : ∀ key ∈ members.map Prod.fst, key ∈ tool.permittedParams)
    (hbuilt : BuiltFrom crates tool agentId template used request) :
    Confined crates fragment tool template members request
      (appendArguments crates template used) := by
  obtain ⟨hread, hfragment, husername, hpassword⟩ := read_append_sent hcrates hrest hscheme used
  have hsub : used.Sublist members := by
    rw [hused]
    split_ifs
    · exact List.Sublist.refl _
    · exact List.nil_sublist _
  constructor
  · rw [hbuilt.destination, hcrates.parse_display _ (by rw [hread]; exact hscheme)]
  · rw [hread]
  · rw [hread]
  · rw [hread]
  · rw [hread]
  · rw [hread]
  · exact hfragment
  · exact husername
  · exact hpassword
  · exact hbuilt.headers
  · exact hbuilt.method
  · exact hpermitted
  · rw [hread, hused]
    split_ifs <;> rfl
  · intro q hq
    rw [hread] at hq
    rcases List.mem_append.mp hq with htemplate | hsent
    · exact .inl htemplate
    · obtain ⟨value, hmem, htext⟩ := mem_sentPairs hsent
      have hmember := hsub.subset hmem
      exact .inr ⟨hpermitted q.1 (List.mem_map_of_mem hmember), value, hmember, htext⟩
  · intro param hparam
    have htemplate : (crates.read template).queryPairs.filter (·.1 == param) = [] := by
      rw [List.filter_eq_nil_iff]
      intro q hq heq
      exact hparam (List.mem_map.mpr ⟨q, hq, beq_iff_eq.mp heq⟩)
    rw [hread]
    dsimp only
    rw [List.filter_append, htemplate, List.nil_append]
    exact length_filter_sentPairs (hunique.sublist (hsub.map Prod.fst)) param

end

/-! ## Every request of an accepted configuration

A request is followed for the weather tool, whose template may carry a query. -/

def cityArguments : Json.Value := .object [("city", .string "Paris")]

/-- The weather tool with a city in its template. -/
def parisConfig : BoundaryConfig :=
  { enabled := true, agentId := "demo-agent",
    tools := [{ weatherTool false with urlTemplate := weatherBase false ++ "?city=Paris" }] }

/-- The query pairs a call of the weather tool sends. -/
def weatherQuery (config : BoundaryConfig) (arguments : Json.Value) :
    Option (List (String × String)) :=
  match fromConfig weatherCrates config with
  | .error _ => none
  | .ok boundary =>
      match boundary.registry.buildOperationRequest weatherCrates "fetch_weather"
        boundary.agentId arguments with
      | .error _ => none
      | .ok request => (parseWeather request.destinationUrl).toOption.map (·.queryPairs)

theorem weatherQuery_eq_some {config : BoundaryConfig} {arguments : Json.Value}
    {pairs : List (String × String)} (h : weatherQuery config arguments = some pairs) :
    ∃ boundary request url, fromConfig weatherCrates config = .ok boundary ∧
      boundary.registry.buildOperationRequest weatherCrates "fetch_weather" boundary.agentId
        arguments = .ok request ∧
      weatherCrates.parse request.destinationUrl = .ok url ∧
      (weatherCrates.read url).queryPairs = pairs := by
  unfold weatherQuery at h
  cases haccepted : fromConfig weatherCrates config with
  | error e =>
      rw [haccepted] at h
      cases h
  | ok boundary =>
      rw [haccepted] at h
      dsimp only at h
      cases hbuild : boundary.registry.buildOperationRequest weatherCrates "fetch_weather"
          boundary.agentId arguments with
      | error e =>
          rw [hbuild] at h
          cases h
      | ok request =>
          rw [hbuild] at h
          dsimp only at h
          cases hparse : parseWeather request.destinationUrl with
          | error e =>
              rw [hparse] at h
              cases h
          | ok url =>
              rw [hparse] at h
              exact ⟨boundary, request, url, rfl, hbuild, hparse, Option.some.inj h⟩

theorem weatherCrates_keepsRest : weatherCrates.KeepsRest fun _ => none where
  fragment_appendPair := fun _ _ _ _ => rfl
  username_appendPair := fun _ _ _ _ => rfl
  password_appendPair := fun _ _ _ _ => rfl

theorem request_confined {crates : Crates} {fragment : crates.Url → Option String}
    {config : BoundaryConfig} {boundary : ShieldSecretBoundary} {toolName agentId : String}
    {arguments : Json.Value} {request : OperationRequest}
    (hcrates : crates.Lawful) (hrest : crates.KeepsRest fragment)
    (haccepted : fromConfig crates config = .ok boundary) (hprinted : arguments.Printed)
    (hbuild : boundary.registry.buildOperationRequest crates toolName agentId arguments =
      .ok request) :
    ∃ tool ∈ config.tools, tool.toolName = toolName ∧
      ∃ template members url, crates.parse tool.urlTemplate = .ok template ∧
        argumentsObject arguments = some members ∧
        Confined crates fragment tool template members request url := by
  have hloaded := fromConfig_ok haccepted
  cases hget : boundary.registry.get? toolName with
  | none =>
      unfold SecretToolRegistry.buildOperationRequest at hbuild
      rw [hget] at hbuild
      cases hbuild
  | some tool =>
      obtain ⟨template, members, used, hparse, hobject, hused, hpermitted, hbuilt⟩ :=
        build_ok hget hbuild
      rw [hloaded.registry] at hget
      have htool : tool ∈ config.tools := List.mem_reverse.mp (List.mem_of_find?_eq_some hget)
      have hname : tool.toolName = toolName := by simpa using List.find?_some hget
      obtain ⟨template', hparse', hconforms, -⟩ := validate_ok (hloaded.checked tool htool).2
      have htemplate : template' = template := Except.ok.inj (hparse'.symm.trans hparse)
      subst htemplate
      have hunique : (members.map Prod.fst).Nodup := by
        cases arguments with
        | object members' =>
            cases hobject
            exact hprinted.1
        | null =>
            cases hobject
            exact List.nodup_nil
        | _ => cases hobject
      exact ⟨tool, htool, hname, template', members, _, hparse, hobject,
        confined_of_built hcrates hrest hconforms.scheme hunique hused hpermitted hbuilt⟩

theorem request_confined_paris : ∃ boundary request,
    fromConfig weatherCrates (weatherConfig false) = .ok boundary ∧
      boundary.registry.buildOperationRequest weatherCrates "fetch_weather" boundary.agentId
        cityArguments = .ok request ∧
      ∃ tool ∈ (weatherConfig false).tools, tool.toolName = "fetch_weather" ∧
        ∃ template members url, weatherCrates.parse tool.urlTemplate = .ok template ∧
          argumentsObject cityArguments = some members ∧
          Confined weatherCrates (fun _ => none) tool template members request url := by
  have hquery : weatherQuery (weatherConfig false) cityArguments = some [("city", "Paris")] := by
    decide
  obtain ⟨boundary, request, -, haccepted, hbuild, -, -⟩ := weatherQuery_eq_some hquery
  have hprinted : cityArguments.Printed := ⟨List.nodup_singleton _, trivial, trivial⟩
  exact ⟨boundary, request, haccepted, hbuild, request_confined weatherCrates_lawful
    weatherCrates_keepsRest haccepted hprinted hbuild⟩

/-- A permitted parameter that the template names too is sent twice. -/
theorem city_sent_twice : ∃ boundary request url,
    fromConfig weatherCrates parisConfig = .ok boundary ∧
      boundary.registry.buildOperationRequest weatherCrates "fetch_weather" boundary.agentId
        cityArguments = .ok request ∧
      weatherCrates.parse request.destinationUrl = .ok url ∧
      (∀ tool ∈ parisConfig.tools, "city" ∈ tool.permittedParams) ∧
      ((weatherCrates.read url).queryPairs.filter (·.1 == "city")).length = 2 := by
  have hquery : weatherQuery parisConfig cityArguments =
      some [("city", "Paris"), ("city", "Paris")] := by decide
  obtain ⟨boundary, request, url, haccepted, hbuild, hparse, hpairs⟩ :=
    weatherQuery_eq_some hquery
  refine ⟨boundary, request, url, haccepted, hbuild, hparse, ?_, ?_⟩
  · intro tool htool
    cases List.mem_singleton.mp htool
    exact List.mem_cons_self
  · rw [hpairs]
    rfl

end BlackMonolith.SecretBoundary
