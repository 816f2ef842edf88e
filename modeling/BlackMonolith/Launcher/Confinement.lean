import BlackMonolith.Launcher.Injector

/-!
# The confinement of the injector

A target is appended to the upstream URL as it is. If it begins with a delimiter
the host is that of the URL; otherwise the text before its first delimiter
becomes part of the host. A length the client announces is compared with the
limit from above only, and a negative one reads the body to its end.
-/
namespace BlackMonolith.Launcher
open Library Library.Urllib

/-! ## Service URLs -/

namespace ServiceUrl
variable (url : ServiceUrl)

theorem scheme_plain : url.scheme ≠ [] ∧ ∀ c ∈ url.scheme, c ≠ ':' ∧ c ≠ '/' ∧ c ≠ '#' := by
  unfold scheme
  split
  · exact ⟨by decide, forall_mem_of_all (by decide)⟩
  · exact ⟨by decide, forall_mem_of_all (by decide)⟩

theorem rooted_path : Rooted url.path := by
  intro c hc
  rcases url.rooted with hnil | hslash
  · rw [hnil] at hc
    cases hc
  · rw [hslash] at hc
    cases hc
    rfl

theorem rooted_basePath : Rooted url.basePath :=
  url.rooted_path.of_initial (List.rdropWhile_prefix _ _)

/-- The slashes that are stripped are those of the path. -/
theorem base_eq :
    url.base = url.scheme ++ ("://".toList ++ (url.authority ++ url.basePath)) := by
  have hlast : url.authority.reverse.dropWhile (· = '/') = url.authority.reverse := by
    rw [List.dropWhile_eq_self_iff]
    intro hpos
    have hmem : url.authority.reverse[0] ∈ url.authority :=
      List.mem_reverse.mp (List.getElem_mem hpos)
    have hplain := url.plain _ hmem
    simp only [isDelimiter, Bool.or_eq_false_iff] at hplain
    rw [hplain.1.1]
    exact Bool.false_ne_true
  have hne : url.authority.reverse ≠ [] := by
    rw [Ne, List.reverse_eq_nil_iff]
    exact url.authority_ne_nil
  unfold base text basePath List.rdropWhile
  simp only [List.reverse_append, List.append_assoc, List.dropWhile_append, hlast]
  split
  · next hempty =>
      have hnil : url.path.reverse.dropWhile (· = '/') = [] := List.isEmpty_iff.mp hempty
      have hauthority : url.authority.reverse.isEmpty = false := by
        rw [List.isEmpty_eq_false_iff]
        exact hne
      rw [hnil, if_neg (by rw [hauthority]; exact Bool.false_ne_true)]
      simp
  · simp

/-- Where a request goes when a rooted text follows the host. -/
theorem connection_append (rules : Rules) {authority rest : List Char}
    (hauthority : ∀ c ∈ authority, isDelimiter c = false) (hrest : Rooted rest) :
    connection rules (url.scheme ++ ("://".toList ++ (authority ++ rest))) =
      reach rules url.scheme authority := by
  unfold connection
  rw [requestHost_append url.scheme_plain.1 url.scheme_plain.2 hauthority hrest]
  rfl

theorem connection_text (rules : Rules) :
    connection rules url.text = reach rules url.scheme url.authority :=
  url.connection_append rules url.plain url.rooted_path

end ServiceUrl

/-! ## The destination -/

/-- The part of a target before its first delimiter. -/
def RequestTarget.lead (target : RequestTarget) : List Char :=
  target.text.takeWhile (!isDelimiter ·)

section
variable {config : InjectorConfig} {target : RequestTarget}

theorem connection_auditUrl :
    connection config.rules config.auditUrl = connection config.rules config.traceAudit.text := by
  have hrooted : Rooted (config.traceAudit.basePath ++ messagesPath) := by
    intro c hc
    cases hpath : config.traceAudit.basePath with
    | nil =>
        rw [hpath] at hc
        cases hc
        rfl
    | cons d ds =>
        rw [hpath] at hc
        exact config.traceAudit.rooted_basePath c (by rw [hpath]; exact hc)
  rw [config.traceAudit.connection_text, InjectorConfig.auditUrl, config.traceAudit.base_eq]
  simp only [List.append_assoc]
  exact config.traceAudit.connection_append config.rules config.traceAudit.plain hrooted

/-- A path of the upstream URL shields its host. -/
theorem connection_of_basePath (h : config.upstream.basePath ≠ []) :
    connection config.rules (config.upstream.base ++ target.text) =
      connection config.rules config.upstream.text := by
  have hrooted : Rooted (config.upstream.basePath ++ target.text) := by
    intro c hc
    cases hpath : config.upstream.basePath with
    | nil => exact absurd hpath h
    | cons d ds =>
        rw [hpath] at hc
        exact config.upstream.rooted_basePath c (by rw [hpath]; exact hc)
  rw [config.upstream.connection_text, config.upstream.base_eq]
  simp only [List.append_assoc]
  exact config.upstream.connection_append config.rules config.upstream.plain hrooted

/-- Without one, the lead of the target joins it. -/
theorem connection_of_lead (h : config.upstream.basePath = []) :
    connection config.rules (config.upstream.base ++ target.text) =
      reach config.rules config.upstream.scheme (config.upstream.authority ++ target.lead) := by
  have hsplit : target.text = target.lead ++ target.text.dropWhile (!isDelimiter ·) :=
    List.takeWhile_append_dropWhile.symm
  have hplain : ∀ c ∈ config.upstream.authority ++ target.lead, isDelimiter c = false := by
    intro c hc
    rcases List.mem_append.mp hc with hhost | hlead
    · exact config.upstream.plain c hhost
    · have hnot := List.mem_takeWhile_imp hlead
      simpa using hnot
  rw [config.upstream.base_eq, h, List.append_nil]
  conv_lhs => rw [hsplit]
  have hassoc : config.upstream.scheme ++ ("://".toList ++ config.upstream.authority) ++
      (target.lead ++ target.text.dropWhile (!isDelimiter ·)) =
      config.upstream.scheme ++ ("://".toList ++ ((config.upstream.authority ++ target.lead) ++
        target.text.dropWhile (!isDelimiter ·))) := by
    simp only [List.append_assoc]
  rw [hassoc]
  exact config.upstream.connection_append config.rules hplain (rooted_dropWhile target.text)

/-- The destination is one of the two services. -/
def IsService (config : InjectorConfig) (destination : Option (List Char × ℤ)) : Prop :=
  destination = connection config.rules config.traceAudit.text ∨
    destination = connection config.rules config.upstream.text

/-- The lead of the target names no host and port of its own. -/
def LeavesHost (config : InjectorConfig) (target : RequestTarget) : Prop :=
  ∀ destination, reach config.rules config.upstream.scheme
      (config.upstream.authority ++ target.lead) = some destination →
    IsService config (some destination)

/-- What keeps a target with the services: that it is the messages path, that it
begins with a delimiter, that the upstream URL has a path, or that its lead
leaves the host alone. -/
def KeepsDestination (config : InjectorConfig) (target : RequestTarget) : Prop :=
  ∀ normalized, normalizedPath config.rules target = some normalized →
    normalized = messagesPath ∨ Rooted target.text ∨ config.upstream.basePath ≠ [] ∨
      LeavesHost config target

/-- Every request for the target that has a destination goes to a service. -/
theorem keepsDestination_iff : KeepsDestination config target ↔
    ∀ normalized, normalizedPath config.rules target = some normalized →
      ∀ destination, connection config.rules (config.target normalized target) = some destination →
        IsService config (some destination) := by
  constructor
  · intro h normalized hnormalized destination hdestination
    unfold InjectorConfig.target at hdestination
    split_ifs at hdestination with hmessages
    · rw [connection_auditUrl] at hdestination
      exact Or.inl hdestination.symm
    · by_cases hpath : config.upstream.basePath = []
      · rw [connection_of_lead hpath] at hdestination
        rcases h normalized hnormalized with heq | hrooted | hne | hleaves
        · exact absurd heq hmessages
        · have hlead : target.lead = [] := takeWhile_rooted hrooted
          rw [hlead, List.append_nil, ← config.upstream.connection_text] at hdestination
          exact Or.inr hdestination.symm
        · exact absurd hpath hne
        · exact hleaves destination hdestination
      · rw [connection_of_basePath hpath] at hdestination
        exact Or.inr hdestination.symm
  · intro h normalized hnormalized
    by_cases hmessages : normalized = messagesPath
    · exact Or.inl hmessages
    · by_cases hpath : config.upstream.basePath = []
      · refine Or.inr (Or.inr (Or.inr ?_))
        intro destination hdestination
        apply h normalized hnormalized destination
        unfold InjectorConfig.target
        rw [if_neg hmessages, connection_of_lead hpath]
        exact hdestination
      · exact Or.inr (Or.inr (Or.inl hpath))

end

/-! ## Headers -/

theorem asciiLowercase_capitalize (name : String) :
    Text.asciiLowercase (capitalize name) = Text.asciiLowercase name := by
  unfold capitalize Text.asciiLowercase
  rw [String.toList_ofList]
  congr 1
  cases name.toList with
  | nil => rfl
  | cons c cs =>
      rw [List.map_cons, List.map_cons, List.map_map, (Text.toAsciiLowercase_cases c).1]
      congr 1
      exact List.map_congr_left fun d _ => (Text.toAsciiLowercase_cases d).2

theorem isCorrelation_capitalize (name : String) :
    isCorrelation (capitalize name) = isCorrelation name := by
  unfold isCorrelation
  rw [asciiLowercase_capitalize]

/-- The correlation headers of a header map. -/
def correlated (headers : InsertionMap String String) : InsertionMap String String :=
  headers.filter fun name _ => isCorrelation name

theorem correlated_entries (headers : InsertionMap String String) :
    (correlated headers).entries = headers.entries.filter fun p => isCorrelation p.1 := rfl

theorem correlated_set (headers : InsertionMap String String) (name value : String) :
    correlated (headers.set name value) =
      if isCorrelation name then (correlated headers).set name value else correlated headers := by
  unfold correlated
  cases hname : isCorrelation name with
  | true => exact InsertionMap.filter_set_of_pos hname fun _ _ => hname
  | false => exact InsertionMap.filter_set_of_neg hname fun _ _ => hname

theorem correlated_setAll (entries : List (String × String)) (headers : InsertionMap String String) :
    correlated (setAll entries headers) =
      setAll (entries.filter fun p => isCorrelation p.1) (correlated headers) := by
  unfold setAll
  induction entries generalizing headers with
  | nil => rfl
  | cons entry entries ih =>
      rw [List.foldl_cons, ih, correlated_set, List.filter_cons]
      split
      · rw [List.foldl_cons]
      · rfl

/-- The headers the launcher stamps, as they are sent. -/
def stampedHeaders (correlation : Correlation) : List (String × String) :=
  [("X-monolith-session-id", correlation.sessionId), ("X-monolith-agent-id", correlation.agentId),
    ("X-monolith-tenant-id", correlation.tenantId)]

theorem correlated_forwardHeaders (config : InjectorConfig) (headers : List (String × String))
    (stamped : Bool) : (correlated (forwardHeaders config headers stamped)).entries =
      if stamped then correlationHeaders config.correlation else [] := by
  have hkept : (headers.filter fun p => !hopByHop.contains (Text.asciiLowercase p.1) &&
      !isCorrelation p.1).filter (fun p => isCorrelation p.1) = [] := by
    rw [List.filter_filter, List.filter_eq_nil_iff]
    intro p _
    cases isCorrelation p.1 with
    | true => simp
    | false => simp
  have hidentity : correlated ((setAll (headers.filter fun p =>
      !hopByHop.contains (Text.asciiLowercase p.1) && !isCorrelation p.1) .empty).set
        "accept-encoding" "identity") = .empty := by
    have haccept : isCorrelation "accept-encoding" = false := by decide
    rw [correlated_set, haccept, if_neg Bool.false_ne_true, correlated_setAll, hkept]
    rfl
  unfold forwardHeaders
  dsimp only
  cases stamped with
  | false =>
      rw [if_neg Bool.false_ne_true, if_neg Bool.false_ne_true, hidentity]
      rfl
  | true =>
      rw [if_pos rfl, if_pos rfl, correlated_setAll, hidentity]
      have hall : (correlationHeaders config.correlation).filter (fun p => isCorrelation p.1) =
          correlationHeaders config.correlation := by
        have hnames : isCorrelation "X-Monolith-Session-Id" = true ∧
            isCorrelation "X-Monolith-Agent-Id" = true ∧
            isCorrelation "X-Monolith-Tenant-Id" = true := by
          decide
        simp only [correlationHeaders, List.filter_cons, hnames, if_true, List.filter_nil]
      rw [hall]
      rfl

theorem correlated_requestHeaders (headers : InsertionMap String String) :
    correlated (requestHeaders headers) =
      setAll ((correlated headers).entries.map fun p => (capitalize p.1, p.2)) .empty := by
  unfold requestHeaders
  rw [correlated_setAll, List.filter_map]
  have hsame : headers.entries.filter ((fun p => isCorrelation p.1) ∘
      fun p : String × String => (capitalize p.1, p.2)) = (correlated headers).entries := by
    rw [correlated_entries]
    apply List.filter_congr
    intro p _
    simp only [Function.comp_apply, isCorrelation_capitalize]
  rw [hsame, show correlated .empty = .empty from rfl]

/-- An audited request has the launcher's correlation headers and no others, any
other request none. -/
theorem sent_correlation (config : InjectorConfig) (headers : List (String × String))
    (stamped : Bool) :
    (requestHeaders (forwardHeaders config headers stamped)).entries.filter
        (fun p => isCorrelation p.1) =
      if stamped then stampedHeaders config.correlation else [] := by
  rw [← correlated_entries, correlated_requestHeaders, correlated_forwardHeaders]
  cases stamped with
  | false => rfl
  | true =>
      have hnames : capitalize "X-Monolith-Session-Id" = "X-monolith-session-id" ∧
          capitalize "X-Monolith-Agent-Id" = "X-monolith-agent-id" ∧
          capitalize "X-Monolith-Tenant-Id" = "X-monolith-tenant-id" := by
        decide
      simp only [if_true, correlationHeaders, List.map_cons, List.map_nil, hnames]
      rfl

/-! ## Requests -/

section
variable {config : InjectorConfig} {method : String} {target : RequestTarget}
  {headers : List (String × String)}

/-- What is promised of a request that is sent. -/
structure Guarded (config : InjectorConfig) (target : RequestTarget) (sent : Outbound) : Prop where
  destination : IsService config (connection config.rules sent.url)
  audited : normalizedPath config.rules target = some messagesPath → sent.url = config.auditUrl
  correlation : sent.headers.filter (fun p => isCorrelation p.1) =
    if normalizedPath config.rules target = some messagesPath then stampedHeaders config.correlation
    else []

/-- Whatever the client sends as a body, no more than the limit is read, and what
is sent is guarded. -/
def Confined (config : InjectorConfig) (method : String) (target : RequestTarget)
    (headers : List (String × String)) : Prop :=
  ∀ body, (config.proxy method target headers body).read.length ≤ config.maxForwardBytes ∧
    ∀ sent, (config.proxy method target headers body).outcome = .forwarded sent →
      Guarded config target sent

/-- The announced length, where one is read, is refused or is not negative, and
then the target keeps its destination. -/
def Confinable (config : InjectorConfig) (target : RequestTarget) (headers : List (String × String)) :
    Prop :=
  ∀ length, config.contentLength headers = some length →
    (config.maxForwardBytes : ℤ) < length ∨ 0 ≤ length ∧ KeepsDestination config target

theorem outbound_cases {body : List UInt8} {sent : Outbound}
    (h : config.outbound method target headers body = .forwarded sent) :
    ∃ normalized destination, normalizedPath config.rules target = some normalized ∧
      connection config.rules (config.target normalized target) = some destination ∧
      sent.url = config.target normalized target ∧
      sent.headers = (requestHeaders (forwardHeaders config headers
        (normalized = messagesPath))).entries := by
  unfold InjectorConfig.outbound at h
  split at h
  · cases h
  · next normalized hnormalized =>
      dsimp only at h
      split at h
      · cases h
      · next destination hdestination =>
          cases h
          exact ⟨normalized, destination, hnormalized, hdestination, rfl, rfl⟩

/-- A target that keeps its destination is guarded whatever is sent for it. -/
theorem guarded_of_keeps (h : KeepsDestination config target) {body : List UInt8} {sent : Outbound}
    (hsent : config.outbound method target headers body = .forwarded sent) :
    Guarded config target sent := by
  obtain ⟨normalized, destination, hnormalized, hdestination, hurl, hheaders⟩ := outbound_cases hsent
  refine ⟨?_, ?_, ?_⟩
  · rw [hurl, hdestination]
    exact keepsDestination_iff.mp h normalized hnormalized destination hdestination
  · intro hmessages
    rw [hnormalized] at hmessages
    cases hmessages
    rw [hurl]
    exact if_pos rfl
  · rw [hheaders, sent_correlation, hnormalized]
    simp only [decide_eq_true_eq, Option.some.injEq]

theorem read_length_le {body : BodyStream} {length : ℤ} (hlow : 0 ≤ length) :
    ((body.read length).1.length : ℤ) ≤ length := by
  unfold BodyStream.read
  split
  · next hfits =>
      rw [List.length_take]
      omega
  · next hfits =>
      have hshort : (body.bytes.length : ℤ) < length := by
        by_contra hle
        exact hfits ⟨hlow, by omega⟩
      split
      · exact hshort.le
      · exact hshort.le
      · exact hshort.le

/-- What a request with a length that is accepted comes to. -/
theorem proxy_of_length {length : ℤ} (hlength : config.contentLength headers = some length)
    (hhigh : length ≤ config.maxForwardBytes) (body : BodyStream) :
    (config.proxy method target headers body).read =
        (if length = 0 then ([], .ok []) else body.read length).1 ∧
      ∀ sent, (config.proxy method target headers body).outcome = .forwarded sent ↔
        ∃ data, (if length = 0 then ([], .ok []) else body.read length).2 = .ok data ∧
          config.outbound method target headers data = .forwarded sent := by
  unfold InjectorConfig.proxy
  rw [hlength]
  dsimp only
  rw [if_neg (by omega)]
  generalize (if length = 0 then ([], .ok []) else body.read length) = r
  obtain ⟨bytes, outcome⟩ := r
  cases outcome with
  | ok data => simp
  | error error =>
      cases error with
      | timeout => simp
      | os error => simp

/-- A body of the announced length is read whole. -/
theorem read_announced {length : ℤ} (hlow : 0 ≤ length) :
    ∃ (body : BodyStream) (data : List UInt8),
      (if length = 0 then ([], .ok []) else body.read length).2 = .ok data := by
  by_cases hzero : length = 0
  · exact ⟨⟨[], .eof⟩, [], by rw [if_pos hzero]⟩
  · refine ⟨⟨List.replicate length.toNat 0, .eof⟩, List.replicate length.toNat 0, ?_⟩
    rw [if_neg hzero]
    unfold BodyStream.read
    rw [if_pos ⟨hlow, by rw [List.length_replicate]; omega⟩]
    rw [List.take_of_length_le (by rw [List.length_replicate])]

/-- A body that ends is read to its end when the announced length is negative. -/
theorem read_negative {length : ℤ} (hneg : length < 0) (bytes : List UInt8) :
    (BodyStream.read ⟨bytes, .eof⟩ length).1 = bytes := by
  unfold BodyStream.read
  rw [if_neg (by omega)]

end

/-- A request is confined, whatever body follows, exactly when its length is not
negative and its target keeps its destination, or its length is refused. -/
theorem confined_iff (config : InjectorConfig) (method : String) (target : RequestTarget)
    (headers : List (String × String)) :
    Confined config method target headers ↔ Confinable config target headers := by
  constructor
  · intro h length hlength
    by_cases hhigh : (config.maxForwardBytes : ℤ) < length
    · exact Or.inl hhigh
    · have hle : length ≤ config.maxForwardBytes := by omega
      refine Or.inr ?_
      have hlow : 0 ≤ length := by
        by_contra hneg
        have hread := (h ⟨List.replicate (config.maxForwardBytes + 1) 0, .eof⟩).1
        rw [(proxy_of_length hlength hle _).1, if_neg (by omega), read_negative (by omega),
          List.length_replicate] at hread
        omega
      refine ⟨hlow, keepsDestination_iff.mpr ?_⟩
      intro normalized hnormalized destination hdestination
      obtain ⟨body, data, hdata⟩ := read_announced hlow
      have hsent : config.outbound method target headers data =
          .forwarded
            { url := config.target normalized target
              method
              headers := (requestHeaders (forwardHeaders config headers
                (normalized = messagesPath))).entries
              data := if data = [] then none else some data } := by
        unfold InjectorConfig.outbound
        rw [hnormalized]
        dsimp only
        rw [hdestination]
      have hguarded := (h body).2 _ (((proxy_of_length hlength hle body).2 _).mpr
        ⟨data, hdata, hsent⟩)
      rw [← hdestination]
      exact hguarded.destination
  · intro h body
    cases hlength : config.contentLength headers with
    | none =>
        unfold InjectorConfig.proxy
        rw [hlength]
        exact ⟨Nat.zero_le _, fun sent hsent => by cases hsent⟩
    | some length =>
        rcases h length hlength with hhigh | ⟨hlow, hkeeps⟩
        · unfold InjectorConfig.proxy
          rw [hlength]
          dsimp only
          rw [if_pos hhigh]
          exact ⟨Nat.zero_le _, fun sent hsent => by cases hsent⟩
        · by_cases hhigh : (config.maxForwardBytes : ℤ) < length
          · unfold InjectorConfig.proxy
            rw [hlength]
            dsimp only
            rw [if_pos hhigh]
            exact ⟨Nat.zero_le _, fun sent hsent => by cases hsent⟩
          · have hle : length ≤ config.maxForwardBytes := by omega
            obtain ⟨hread, hsends⟩ := @proxy_of_length config method target headers length hlength
              hle body
            constructor
            · rw [hread]
              split
              · exact Nat.zero_le _
              · have hshort := @read_length_le body length hlow
                omega
            · intro sent hsent
              obtain ⟨data, -, houtbound⟩ := (hsends sent).mp hsent
              exact guarded_of_keeps hkeeps houtbound

/-! ## A target without a slash, a length below zero -/

def asciiDecimal (c : Char) : Option ℕ := if '0' ≤ c ∧ c ≤ '9' then some (c.toNat - 48) else none

/-- The services of a default launch, and a limit of four bytes. -/
def sampleInjector : InjectorConfig where
  rules := ⟨asciiDecimal, fun _ => true⟩
  traceAudit := ⟨false, "127.0.0.1:8002".toList, [], by decide, forall_mem_of_all (by decide),
    by decide⟩
  upstream := ⟨true, "api.anthropic.com".toList, [], by decide, forall_mem_of_all (by decide),
    by decide⟩
  correlation := ⟨"session", "agent", "tenant"⟩
  maxForwardBytes := 4

def foreignTarget : RequestTarget :=
  ⟨".example.net/v1/models".toList, by decide, forall_mem_of_all (by decide)⟩

def messagesTarget : RequestTarget := ⟨messagesPath, by decide, forall_mem_of_all (by decide)⟩

/-- The host of a target without a slash at its front is appended to the upstream
host, and a body of negative length is read whole. -/
theorem unconfined_requests :
    (∃ sent, (sampleInjector.proxy "GET" foreignTarget [] ⟨[], .eof⟩).outcome = .forwarded sent ∧
      connection sampleInjector.rules sent.url =
        some ("api.anthropic.com.example.net".toList, 443) ∧
      ¬IsService sampleInjector (connection sampleInjector.rules sent.url)) ∧
    (sampleInjector.proxy "POST" messagesTarget [("Content-Length", "-1")]
      ⟨[1, 2, 3, 4, 5], .eof⟩).read.length = 5 ∧
    ¬Confined sampleInjector "GET" foreignTarget [] ∧
    ¬Confined sampleInjector "POST" messagesTarget [("Content-Length", "-1")] := by
  have hsent : (sampleInjector.proxy "GET" foreignTarget [] ⟨[], .eof⟩).outcome =
      .forwarded
        { url := "https://api.anthropic.com.example.net/v1/models".toList
          method := "GET"
          headers := [("Accept-encoding", "identity")]
          data := none } := by
    decide
  have hreached : connection sampleInjector.rules
      "https://api.anthropic.com.example.net/v1/models".toList =
        some ("api.anthropic.com.example.net".toList, 443) := by
    decide
  have hforeign : ¬IsService sampleInjector
      (some ("api.anthropic.com.example.net".toList, 443)) := by
    unfold IsService
    decide
  have hread : (sampleInjector.proxy "POST" messagesTarget [("Content-Length", "-1")]
      ⟨[1, 2, 3, 4, 5], .eof⟩).read.length = 5 := by
    decide
  refine ⟨⟨_, hsent, hreached, ?_⟩, hread, ?_, ?_⟩
  · rw [hreached]
    exact hforeign
  · intro hconfined
    have hguarded := (hconfined ⟨[], .eof⟩).2 _ hsent
    have hservice := hguarded.destination
    rw [hreached] at hservice
    exact hforeign hservice
  · intro hconfined
    have hlimit := (hconfined ⟨[1, 2, 3, 4, 5], .eof⟩).1
    rw [hread] at hlimit
    exact absurd hlimit (by decide)

end BlackMonolith.Launcher
