import BlackMonolith.Library.DotSegments
import BlackMonolith.SecretBoundary.ConfigAgreement
import BlackMonolith.SecretBoundary.SecretReference

/-!
# What the policy engine authorises

The engine holds one rule for an agent and operation, whatever was added to it.
What it authorises is a conjunction of conditions on the request, and the path it
authorises stays under the prefix of the rule when an upstream decodes it and
resolves its dot segments.
-/
namespace BlackMonolith.SecretBoundary
open Library Text PercentEncoding DotSegments

/-- The engine after a sequence of calls of `add_rule`; a refused one changes nothing. -/
def addRules (calls : List PolicyRule) : List PolicyRule :=
  calls.foldl (fun rules rule => (addRule rules rule).toOption.getD rules) []

theorem addRules_unique (calls : List PolicyRule) :
    (addRules calls).Pairwise fun r s => ¬r.Clashes s := by
  have hstep : ∀ rules rule, rules.Pairwise (fun r s : PolicyRule => ¬r.Clashes s) →
      ((addRule rules rule).toOption.getD rules).Pairwise fun r s => ¬r.Clashes s := by
    intro rules rule h
    unfold addRule
    split_ifs with hany
    · exact h
    · refine List.pairwise_append.mpr ⟨h, List.pairwise_singleton _ _, ?_⟩
      intro r hr s hs
      cases List.mem_singleton.mp hs
      rintro ⟨hagent, hoperation⟩
      exact hany (List.any_eq_true.mpr ⟨r, hr, by simp [hagent, hoperation]⟩)
  have hfold : ∀ rules, rules.Pairwise (fun r s : PolicyRule => ¬r.Clashes s) →
      (calls.foldl (fun rules rule => (addRule rules rule).toOption.getD rules) rules).Pairwise
        fun r s => ¬r.Clashes s := by
    induction calls with
    | nil => exact fun _ h => h
    | cons rule calls ih => exact fun rules h => ih _ (hstep rules rule h)
  exact hfold [] List.Pairwise.nil

/-! ## The conditions -/

/-- The path is the prefix of the rule, or continues it after a slash. -/
def UnderPrefix (path allowedPathPrefix : String) : Prop :=
  path = trimEndSlashes allowedPathPrefix ∨
    (trimEndSlashes allowedPathPrefix).toList ++ ['/'] <+: path.toList

/-- The conditions on a parsed destination. -/
structure Destined (rule : PolicyRule) (request : OperationRequest) (url : Url) : Prop where
  https : rule.requireHttps = true → url.scheme = "https"
  host : ∃ host, url.host = some host ∧ eqIgnoreAsciiCase host rule.destinationHost = true
  port : effectivePort url = expectedPort rule url
  method : ∃ method ∈ rule.allowedMethods, asciiLowercase method = asciiLowercase request.method
  noDots : ¬['.', '.'] <:+: url.path.toList
  noEncodedDots : ¬['%', '2', 'e'] <:+: url.path.toList ∧ ¬['%', '2', 'E'] <:+: url.path.toList
  path : UnderPrefix url.path rule.allowedPathPrefix
  query : ∀ q ∈ url.queryPairs, ∃ param ∈ rule.permittedQueryParams,
    asciiLowercase param = asciiLowercase q.1

/-- A header the agent may set. -/
def CleanHeader (header : String × String) : Prop :=
  asciiLowercase header.1 ∉ ["authorization", "proxy-authorization", "host", "cookie"] ∧
    ∀ c ∈ ['\r', '\n', Char.ofNat 0], c ∉ header.1.toList ∧ c ∉ header.2.toList

/-- The conditions under which a rule authorises a request. -/
structure Authorises (platform : Platform) (rules : List PolicyRule) (request : OperationRequest)
    (now : ℕ) (rule : PolicyRule) : Prop where
  held : rule ∈ rules
  agent : rule.agentId = request.agentId
  operation : rule.operationId = request.operationId
  unique : ∀ other ∈ rules, other.agentId = request.agentId →
    other.operationId = request.operationId → other = rule
  unexpired : ∀ t, rule.validUntil = some t → now ≤ t
  headers : ∀ header ∈ request.headers, CleanHeader header
  destination : ∃ url, platform.parseUrl request.destinationUrl = .ok url ∧
    Destined rule request url

/-- A URL with a host has an empty path or one that begins with a slash. -/
def AbsolutePaths (platform : Platform) : Prop :=
  ∀ s url, platform.parseUrl s = .ok url → url.host.isSome = true →
    url.path = "" ∨ url.path.toList.head? = some '/'

theorem hasControl_iff (s : String) :
    hasControl s = true ↔ ∃ c ∈ ['\r', '\n', Char.ofNat 0], c ∈ s.toList := by
  simp only [hasControl, Bool.or_eq_true, List.contains_iff_mem, List.exists_mem_cons_iff,
    List.not_mem_nil, false_and, exists_false, or_false, or_assoc]

theorem isReservedHeader_iff (lower : String) : isReservedHeader lower = true ↔
    lower ∈ ["authorization", "proxy-authorization", "host", "cookie"] := by
  simp only [isReservedHeader, Bool.or_eq_true, beq_iff_eq, List.mem_cons, List.not_mem_nil,
    or_false, or_assoc]

theorem headerDenial_eq_none_iff (headers : List (String × String)) :
    headerDenial headers = none ↔ ∀ header ∈ headers, CleanHeader header := by
  induction headers with
  | nil => simp [headerDenial]
  | cons header headers ih =>
      obtain ⟨key, value⟩ := header
      rw [headerDenial, List.forall_mem_cons, CleanHeader, ← isReservedHeader_iff]
      by_cases hname : isReservedHeader (asciiLowercase key) = true
      · rw [if_pos hname]
        simp [hname]
      · rw [if_neg hname]
        by_cases hvalue : (hasControl key || hasControl value) = true
        · rw [if_pos hvalue]
          simp only [reduceCtorEq, false_iff]
          rintro ⟨⟨-, hclean⟩, -⟩
          rw [Bool.or_eq_true, hasControl_iff, hasControl_iff] at hvalue
          rcases hvalue with ⟨c, hc, hmem⟩ | ⟨c, hc, hmem⟩
          · exact (hclean c hc).1 hmem
          · exact (hclean c hc).2 hmem
        · rw [if_neg hvalue, ih]
          rw [Bool.or_eq_true, hasControl_iff, hasControl_iff] at hvalue
          refine ⟨fun h => ⟨⟨hname, fun c hc => ⟨?_, ?_⟩⟩, h⟩, And.right⟩
          · exact fun hmem => hvalue (.inl ⟨c, hc, hmem⟩)
          · exact fun hmem => hvalue (.inr ⟨c, hc, hmem⟩)

theorem pathMatchesPrefix_iff {path : String} (allowedPathPrefix : String)
    (habsolute : path = "" ∨ path.toList.head? = some '/') :
    pathMatchesPrefix path allowedPathPrefix = true ↔ UnderPrefix path allowedPathPrefix := by
  unfold pathMatchesPrefix UnderPrefix
  generalize trimEndSlashes allowedPathPrefix = front
  have hboundary : (startsWith path front &&
      (path.toList.drop front.toList.length).head? == some '/') = true ↔
      front.toList ++ ['/'] <+: path.toList := by
    rw [Bool.and_eq_true, startsWith, List.isPrefixOf_iff_prefix, beq_iff_eq]
    constructor
    · rintro ⟨⟨rest, hrest⟩, hhead⟩
      rw [← hrest, List.drop_left] at hhead
      obtain ⟨tail, rfl⟩ := List.head?_eq_some_iff.mp hhead
      exact ⟨tail, by rw [← hrest, List.append_assoc, List.singleton_append]⟩
    · rintro ⟨rest, hrest⟩
      rw [← hrest, List.append_assoc]
      exact ⟨List.prefix_append _ _, by rw [List.drop_left]; rfl⟩
  dsimp only
  rw [Bool.or_eq_true, Bool.or_eq_true, hboundary, beq_iff_eq, String.isEmpty_iff]
  constructor
  · rintro ((rfl | hsame) | hunder)
    · refine habsolute.imp_right fun hhead => ?_
      obtain ⟨tail, htail⟩ := List.head?_eq_some_iff.mp hhead
      exact ⟨tail, htail.symm⟩
    · exact .inl hsame
    · exact .inr hunder
  · rintro (hsame | hunder)
    · exact .inl (.inr hsame)
    · exact .inr hunder

theorem pathContainsTraversal_iff (path : String) :
    pathContainsTraversal path = false ↔ ¬['.', '.'] <:+: path.toList ∧
      ¬['%', '2', 'e'] <:+: path.toList ∧ ¬['%', '2', 'E'] <:+: path.toList := by
  have hoccurs (needle : List Char) : occursIn needle path.toList = false ↔
      ¬needle <:+: path.toList := by
    rw [← occursIn_iff, Bool.not_eq_true]
  unfold pathContainsTraversal Text.contains
  rw [Bool.or_eq_false_iff, Bool.or_eq_false_iff, hoccurs, hoccurs, hoccurs, and_assoc]
  rfl

theorem destinationDenial_none_iff {platform : Platform} {rule : PolicyRule}
    {request : OperationRequest} {url : Url}
    (habsolute : url.host.isSome = true → url.path = "" ∨ url.path.toList.head? = some '/') :
    destinationDenial platform rule request url = none ↔ Destined rule request url := by
  unfold destinationDenial
  by_cases hhttps : (rule.requireHttps && url.scheme != "https") = true
  · rw [if_pos hhttps]
    simp only [reduceCtorEq, false_iff]
    intro h
    rw [Bool.and_eq_true, bne_iff_ne] at hhttps
    exact hhttps.2 (h.https hhttps.1)
  rw [if_neg hhttps]
  have hscheme : rule.requireHttps = true → url.scheme = "https" := by
    intro hrequired
    rw [hrequired, Bool.true_and, bne_iff_ne, not_not] at hhttps
    exact hhttps
  cases hhost : url.host with
  | none =>
      simp only [reduceCtorEq, false_iff]
      intro h
      obtain ⟨host, hsome, -⟩ := h.host
      rw [hhost] at hsome
      cases hsome
  | some host =>
      have hmethod : rule.allowedMethods.any (eqIgnoreAsciiCase · (asciiUppercase request.method)) =
          true ↔ ∃ method ∈ rule.allowedMethods,
            asciiLowercase method = asciiLowercase request.method := by
        simp only [List.any_eq_true, eqIgnoreAsciiCase, beq_iff_eq, asciiLowercase_asciiUppercase]
      have hpath := pathMatchesPrefix_iff rule.allowedPathPrefix (habsolute (by rw [hhost]; rfl))
      have htraversal := pathContainsTraversal_iff url.path
      have hquery : url.queryPairs.find? (fun q =>
          !rule.permittedQueryParams.any (eqIgnoreAsciiCase · q.1)) = none ↔
          ∀ q ∈ url.queryPairs, ∃ param ∈ rule.permittedQueryParams,
            asciiLowercase param = asciiLowercase q.1 := by
        simp only [List.find?_eq_none, Bool.not_eq_true', Bool.not_eq_false, List.any_eq_true,
          eqIgnoreAsciiCase, beq_iff_eq]
      dsimp only
      constructor
      · intro h
        split_ifs at h with hname hport hlisted hdots hunder
        rw [Bool.not_eq_true', Bool.not_eq_false] at hname hlisted hunder
        have hclean := htraversal.mp (by simpa using hdots)
        have hpairs := hquery.mp (by
          split at h
          · cases h
          · assumption)
        exact ⟨hscheme, ⟨host, hhost, hname⟩, not_not.mp hport, hmethod.mp hlisted, hclean.1,
          hclean.2, hpath.mp hunder, hpairs⟩
      · intro h
        obtain ⟨host', hhost', hname⟩ := h.host
        obtain rfl : host' = host := Option.some.inj (hhost'.symm.trans hhost)
        have hdots := htraversal.mpr ⟨h.noDots, h.noEncodedDots⟩
        have hport := h.port
        unfold effectivePort expectedPort at hport
        rw [if_neg (by simp [hname]), if_neg (not_not.mpr hport),
          if_neg (by simp [hmethod.mpr h.method]), if_neg (by simp [hdots]),
          if_neg (by simp [hpath.mpr h.path]), hquery.mpr h.query]

/-- A request is authorised by exactly the rule that meets every condition. -/
theorem evaluate_authorises_iff {platform : Platform} {rules : List PolicyRule}
    {request : OperationRequest} {now : ℕ} {rule : PolicyRule}
    (hunique : rules.Pairwise fun r s => ¬r.Clashes s) (habsolute : AbsolutePaths platform) :
    evaluate platform rules request now = .ok rule ↔
      Authorises platform rules request now rule := by
  have hfor (r : PolicyRule) : r.isFor request = true ↔
      r.agentId = request.agentId ∧ r.operationId = request.operationId := by
    rw [PolicyRule.isFor, Bool.and_eq_true, beq_iff_eq, beq_iff_eq]
  constructor
  · intro h
    have hheaders : headerDenial request.headers = none := by
      unfold evaluate at h
      cases hdenial : headerDenial request.headers with
      | none => rfl
      | some e =>
          rw [hdenial] at h
          cases h
    obtain ⟨hfilter, htime, url, hurl, hdenial⟩ := (evaluate_ok_iff hheaders).mp h
    have hmem : rule ∈ rules.filter (·.isFor request) := by
      rw [hfilter]
      exact List.mem_singleton_self rule
    obtain ⟨hheld, hmatches⟩ := List.mem_filter.mp hmem
    refine ⟨hheld, ((hfor rule).mp hmatches).1, ((hfor rule).mp hmatches).2, ?_, htime,
      (headerDenial_eq_none_iff _).mp hheaders, url, hurl,
      (destinationDenial_none_iff (habsolute _ _ hurl)).mp hdenial⟩
    intro other hother hagent hoperation
    have hmem' : other ∈ rules.filter (·.isFor request) :=
      List.mem_filter.mpr ⟨hother, (hfor other).mpr ⟨hagent, hoperation⟩⟩
    rw [hfilter] at hmem'
    exact List.mem_singleton.mp hmem'
  · intro h
    obtain ⟨url, hurl, hdestined⟩ := h.destination
    rw [evaluate_ok_iff ((headerDenial_eq_none_iff _).mpr h.headers)]
    refine ⟨?_, h.unexpired, url, hurl,
      (destinationDenial_none_iff (habsolute _ _ hurl)).mpr hdestined⟩
    apply filter_eq_singleton h.held ((hfor rule).mpr ⟨h.agent, h.operation⟩)
    apply hunique.imp
    rintro r s hclash ⟨hr, hs⟩
    rw [hfor] at hr hs
    exact hclash ⟨hr.1.trans hs.1.symm, hr.2.trans hs.2.symm⟩

/-! ## What an upstream makes of the path -/

def slash : UInt8 := 47

theorem escaped_dot {h l : UInt8} (hdot : escaped h l = some dot) :
    h = 50 ∧ (l = 101 ∨ l = 69) := by
  obtain ⟨x, y, hx, hy, hbyte⟩ := hexValue_of_escaped hdot
  have hxlt := hexValue_lt hx
  have hylt := hexValue_lt hy
  have hvalue : x * 16 + y = 46 := by
    have hnat := congrArg UInt8.toNat hbyte
    rw [Utf8.toNat_ofNat_of_lt (by omega)] at hnat
    exact hnat.symm
  obtain ⟨rfl, rfl⟩ : x = 2 ∧ y = 14 := by omega
  unfold hexValue at hx hy
  simp only [← UInt8.toNat_inj, UInt8.reduceToNat]
  dsimp only at hx hy
  split_ifs at hx hy
  all_goals
    rw [Option.some.injEq] at hx hy
    omega

/-- No escape spells a dot. -/
def NoEncodedDot (bs : List UInt8) : Prop :=
  ¬[percent, 50, 101] <:+: bs ∧ ¬[percent, 50, 69] <:+: bs

theorem NoEncodedDot.suffix {xs ys : List UInt8} (h : NoEncodedDot ys) (hsuffix : xs <:+ ys) :
    NoEncodedDot xs :=
  ⟨fun hinside => h.1 (hinside.trans hsuffix.isInfix),
    fun hinside => h.2 (hinside.trans hsuffix.isInfix)⟩

theorem NoEncodedDot.escape {h l byte : UInt8} {bs : List UInt8}
    (hno : NoEncodedDot (percent :: h :: l :: bs)) (hbyte : escaped h l = some byte) :
    byte ≠ dot := by
  rintro rfl
  obtain ⟨rfl, rfl | rfl⟩ := escaped_dot hbyte
  · exact hno.1 ⟨[], bs, rfl⟩
  · exact hno.2 ⟨[], bs, rfl⟩

/-- A decoded dot was written. -/
theorem head_of_decoded_dot {bs : List UInt8} (hno : NoEncodedDot bs)
    (h : (percentDecode bs).head? = some dot) : bs.head? = some dot := by
  fun_cases percentDecode bs with
  | case4 h' l bs byte hbyte =>
      rw [percentDecode_escape hbyte] at h
      exact absurd (Option.some.inj h) (hno.escape hbyte)
  | case5 h' l bs hnone =>
      rw [percentDecode, if_pos rfl, hnone] at h
      exact h
  | case6 c h' l bs hc =>
      rw [percentDecode, if_neg hc] at h
      exact h
  | _ => exact h

/-- Two decoded dots in a row were written so. -/
theorem dots_of_decoded_dots {bs : List UInt8} (hno : NoEncodedDot bs)
    (h : [dot, dot] <:+: percentDecode bs) : [dot, dot] <:+: bs := by
  have hcons {c : UInt8} {rest : List UInt8} (hno : NoEncodedDot (c :: rest))
      (ih : [dot, dot] <:+: percentDecode rest → [dot, dot] <:+: rest)
      (h : [dot, dot] <:+: c :: percentDecode rest) : [dot, dot] <:+: c :: rest := by
    rcases List.infix_cons_iff.mp h with hinitial | hinside
    · obtain ⟨rfl, hnext⟩ := List.cons_prefix_cons.mp hinitial
      obtain ⟨tail, htail⟩ := hnext
      have hhead := head_of_decoded_dot (hno.suffix (List.suffix_cons _ _))
        (by rw [← htail]; rfl)
      obtain ⟨rest', rfl⟩ := List.head?_eq_some_iff.mp hhead
      exact ⟨[], rest', rfl⟩
    · exact (ih hinside).trans (List.suffix_cons c rest).isInfix
  fun_induction percentDecode bs with
  | case4 h' l bs byte hbyte ih =>
      have hsuffix : bs <:+ percent :: h' :: l :: bs := ⟨[percent, h', l], rfl⟩
      rcases List.infix_cons_iff.mp h with hinitial | hinside
      · exact absurd (List.cons_prefix_cons.mp hinitial).1.symm (hno.escape hbyte)
      · exact (ih (hno.suffix hsuffix) hinside).trans hsuffix.isInfix
  | case5 h' l bs hnone ih =>
      exact hcons hno (ih (hno.suffix (List.suffix_cons _ _))) h
  | case6 c h' l bs hc ih =>
      exact hcons hno (ih (hno.suffix (List.suffix_cons _ _))) h
  | _ => exact h

theorem under_decoded {path allowedPathPrefix : String}
    (h : UnderPrefix path allowedPathPrefix) :
    Under slash (percentDecode (bytes (trimEndSlashes allowedPathPrefix)))
      (percentDecode (bytes path)) := by
  rcases h with rfl | ⟨rest, hrest⟩
  · exact .inl rfl
  · have hpath : bytes path = bytes (trimEndSlashes allowedPathPrefix) ++ slash :: Utf8.encode rest := by
      unfold bytes
      rw [← hrest, List.flatMap_append, List.flatMap_append, List.append_assoc]
      rfl
    right
    rw [hpath, percentDecode_append_cons (by decide) (by decide)]
    exact ⟨percentDecode (Utf8.encode rest), by rw [List.append_assoc, List.singleton_append]⟩

/-- What an upstream that decodes a prefix makes of it. -/
def decodedPrefix (rule : PolicyRule) : List UInt8 :=
  percentDecode (bytes (trimEndSlashes rule.allowedPathPrefix))

/-- What an upstream that decodes a path and resolves it makes of it. -/
def resolvedPath (url : Url) : List UInt8 := resolve slash dot (percentDecode (bytes url.path))

/-- An authorised path stays under its prefix when it is decoded and resolved. -/
theorem Destined.resolved_under {rule : PolicyRule} {request : OperationRequest} {url : Url}
    (h : Destined rule request url) :
    Under slash (withoutDots slash dot (decodedPrefix rule)) (resolvedPath url) := by
  apply under_resolve (under_decoded h.path)
  intro hmem
  have hno : NoEncodedDot (bytes url.path) :=
    ⟨fun hinside => h.noEncodedDots.1
        (@Utf8.infix_of_encode_infix '%' percent ['2', 'e'] _ (by decide) (by decide) hinside),
      fun hinside => h.noEncodedDots.2
        (@Utf8.infix_of_encode_infix '%' percent ['2', 'E'] _ (by decide) (by decide) hinside)⟩
  exact h.noDots (@Utf8.infix_of_encode_infix '.' dot ['.'] _ (by decide) (by decide)
    (dots_of_decoded_dots hno (infix_of_mem_splitOn hmem)))

/-! ## Every engine -/

/-- A rule whose prefix spells a dot segment. -/
def dottedRule : PolicyRule :=
  { agentId := "demo-agent"
    operationId := "op_fetch"
    approvedCredentialRef := "mock://weather/api-key"
    destinationHost := "api.weather.example.com"
    allowedPathPrefix := "/a%2F." }

def dottedRequest : OperationRequest :=
  ⟨"demo-agent", "op_fetch", "https://api.weather.example.com/a%2F./x", "GET", [], none⟩

def dottedUrl : Url :=
  ⟨"https", some "api.weather.example.com", none, some 443, "/a%2F./x", []⟩

def dottedPlatform : Platform :=
  { weatherPlatform with
    parseUrl := fun s => if s = dottedRequest.destinationUrl then .ok dottedUrl else .error "" }

theorem dottedPlatform_absolute : AbsolutePaths dottedPlatform := by
  intro s url hurl _
  unfold dottedPlatform at hurl
  dsimp only at hurl
  split_ifs at hurl
  cases hurl
  exact .inr rfl

theorem dotted_authorised :
    evaluate dottedPlatform (addRules [dottedRule]) dottedRequest 0 = .ok dottedRule := by
  decide

/-- Whatever was added to it, the engine authorises by the conditions, and what it
authorises stays under the prefix. -/
theorem evaluate_sound (calls : List PolicyRule) {platform : Platform}
    (habsolute : AbsolutePaths platform) (request : OperationRequest) (now : ℕ)
    (rule : PolicyRule) :
    (evaluate platform (addRules calls) request now = .ok rule ↔
      Authorises platform (addRules calls) request now rule) ∧
    (evaluate platform (addRules calls) request now = .ok rule →
      ∃ url, platform.parseUrl request.destinationUrl = .ok url ∧
        Under slash (withoutDots slash dot (decodedPrefix rule)) (resolvedPath url) ∧
        ([dot] ∉ (decodedPrefix rule).splitOn slash →
          Under slash (decodedPrefix rule) (resolvedPath url))) := by
  have hiff := @evaluate_authorises_iff platform _ request now rule (addRules_unique calls) habsolute
  refine ⟨hiff, fun h => ?_⟩
  obtain ⟨url, hurl, hdestined⟩ := (hiff.mp h).destination
  have hunder := hdestined.resolved_under
  exact ⟨url, hurl, hunder, fun hdots => by rwa [withoutDots_eq_self hdots] at hunder⟩

theorem evaluate_sound_dotted :
    Authorises dottedPlatform (addRules [dottedRule]) dottedRequest 0 dottedRule :=
  (evaluate_sound [dottedRule] dottedPlatform_absolute dottedRequest 0 dottedRule).1.mp
    dotted_authorised

/-- The decoded prefix has a dot segment of its own, which the resolved path has lost. -/
theorem dotted_prefix_left :
    evaluate dottedPlatform (addRules [dottedRule]) dottedRequest 0 = .ok dottedRule ∧
      dottedPlatform.parseUrl dottedRequest.destinationUrl = .ok dottedUrl ∧
      ¬Under slash (decodedPrefix dottedRule) (resolvedPath dottedUrl) :=
  ⟨dotted_authorised, rfl, by decide⟩

end BlackMonolith.SecretBoundary
