import BlackMonolith.Library.Urllib
import BlackMonolith.Text

/-!
# Where a credential may be sent

The launcher, the Python modules and MCP-Shield each decide whether a URL may carry a
credential, over what their own parser reports of it: HTTPS everywhere, HTTP to the loopback
interface or on a trusted network, no credentials and no fragment in the URL. The launcher
trims the host once more. MCP-Shield tests the host in its brackets, and refuses a fragment
that is there but empty.
-/
namespace BlackMonolith.CredentialTransport
open Library

/-! ## The rule -/

/-- What a parser reports of a URL, as far as the rule goes. -/
structure Report where
  scheme : String
  host : Bool
  credentials : Bool
  fragment : Bool
  loopback : Bool
deriving Repr, DecidableEq

/-- A credential may be sent there. -/
def Report.Trusted (report : Report) (allowInsecure : Bool) : Prop :=
  report.host = true ∧ report.credentials = false ∧ report.fragment = false ∧
    (report.scheme = "https" ∨
      report.scheme = "http" ∧ (report.loopback = true ∨ allowInsecure = true))

instance (report : Report) (allowInsecure : Bool) : Decidable (report.Trusted allowInsecure) :=
  inferInstanceAs (Decidable (_ ∧ _))

/-- Nothing but the loopback test decides. -/
def Report.Undecided (report : Report) (allowInsecure : Bool) : Prop :=
  report.host = true ∧ report.credentials = false ∧ report.fragment = false ∧
    report.scheme = "http" ∧ allowInsecure = false

/-- Two loopback tests matter only where nothing else decides. -/
theorem Report.trusted_congr_iff {report : Report} {loopback allow : Bool} :
    ({ report with loopback }.Trusted allow ↔ report.Trusted allow) ↔
      (report.Undecided allow → loopback = report.loopback) := by
  constructor
  · rintro hsame ⟨hhost, hcredentials, hfragment, hscheme, hallow⟩
    unfold Report.Trusted at hsame
    rw [Bool.eq_iff_iff]
    simpa [hhost, hcredentials, hfragment, hscheme, hallow] using hsame
  · intro h
    by_cases hundecided : report.Undecided allow
    · rw [h hundecided]
    · unfold Report.Undecided at hundecided
      unfold Report.Trusted
      cases allow <;> tauto

/-! ## Python -/

/-- A text that is there and not empty. -/
def present (text : Option String) : Bool := text.getD "" != ""

/-- What `urlsplit` reports. -/
structure SplitUrl where
  scheme : String
  hostname : Option String
  username : Option String
  password : Option String
  fragment : String
deriving Repr, DecidableEq

/-- What is used of the standard library; `none` is a `ValueError`. -/
structure PythonUrls where
  urlsplit : String → Option SplitUrl
  /-- `ip_address(host).is_loopback`. -/
  isLoopback : String → Option Bool
  lower : String → String

def isBracket (c : Char) : Bool := c = '[' || c = ']'

/-- `host.strip().strip("[]")`. -/
def stripped (host : String) : String :=
  String.ofList (trimBoth isBracket (trimBoth Urllib.isSpace host.toList))

namespace Launcher
variable (py : PythonUrls)

/-- `_is_loopback_host`. -/
def isLoopbackHost (host : String) : Bool :=
  let host := py.lower (stripped host)
  if host = "localhost" ∨ host = "::1" then true else (py.isLoopback host).getD false

def credentialTransportIsTrusted (url : String) (allowInsecure : Bool) : Bool :=
  match py.urlsplit url with
  | none => false
  | some parsed =>
      if !present parsed.hostname || present parsed.username || present parsed.password ||
          parsed.fragment != "" then false
      else if parsed.scheme = "https" then true
      else if parsed.scheme ≠ "http" then false
      else if isLoopbackHost py (parsed.hostname.getD "") then true
      else allowInsecure

end Launcher

namespace Events
variable (py : PythonUrls)

def loopback (host : String) : Bool :=
  if host = "localhost" then true
  else if host = "" then false
  else (py.isLoopback host).getD false

def credentialTransportIsTrusted (value : String) (allowInsecure : Bool) : Bool :=
  match py.urlsplit value with
  | none => false
  | some parsed =>
      present parsed.hostname && !present parsed.username && !present parsed.password &&
        !(parsed.fragment != "") && (parsed.scheme == "https" ||
          (parsed.scheme == "http" && (loopback py (parsed.hostname.getD "") || allowInsecure)))

def report (parsed : SplitUrl) : Report where
  scheme := parsed.scheme
  host := present parsed.hostname
  credentials := present parsed.username || present parsed.password
  fragment := parsed.fragment != ""
  loopback := loopback py (parsed.hostname.getD "")

end Events

/-! ## MCP-Shield -/

/-- What `reqwest::Url` reports. -/
structure ParsedUrl where
  scheme : String
  hostStr : Option String
  username : String
  password : Option String
  fragment : Option String
deriving Repr, DecidableEq

structure UrlCrate where
  parse : String → Option ParsedUrl
  /-- `host.parse::<IpAddr>().is_ok_and(|address| address.is_loopback())`. -/
  isLoopback : String → Bool

namespace Shield
variable (crate : UrlCrate)

def loopback (host : String) : Bool :=
  Text.eqIgnoreAsciiCase host "localhost" || crate.isLoopback host

def parseDashboardUrl (value : String) (allowInsecureHttp : Bool) : Option ParsedUrl :=
  match crate.parse value with
  | none => none
  | some url =>
      if !(url.scheme == "http" || url.scheme == "https") || url.hostStr.isNone ||
          !url.username.isEmpty || url.password.isSome || url.fragment.isSome then none
      else if url.scheme == "http" && !(url.hostStr.any (loopback crate)) && !allowInsecureHttp then
        none
      else some url

/-- The host of an IPv6 address stands in brackets. -/
def unbracketed (host : String) : String :=
  match host.toList with
  | '[' :: rest => String.ofList rest.dropLast
  | _ => host

def report (url : ParsedUrl) : Report where
  scheme := url.scheme
  host := url.hostStr.isSome
  credentials := !url.username.isEmpty || url.password.isSome
  fragment := present url.fragment
  loopback := url.hostStr.any fun host => loopback crate (unbracketed host)

/-- A fragment that is there but empty, or a loopback address in brackets over HTTP. -/
def Slips (url : ParsedUrl) (allowInsecure : Bool) : Prop :=
  url.fragment = some "" ∨ url.scheme = "http" ∧ allowInsecure = false ∧
    ∃ host ∈ url.hostStr, host.toList.head? = some '[' ∧ loopback crate (unbracketed host) = true

end Shield

/-! ## What the libraries promise -/

/-- A host as the launcher trims it is another one. -/
def Padded (host : String) : Prop := stripped host ≠ host

structure PythonUrls.Documented (py : PythonUrls) : Prop where
  /-- The letters of an address may be of either case. -/
  lower : ∀ host, py.isLoopback (py.lower host) = py.isLoopback host
  ipv6 : py.isLoopback "::1" = some true
  localhost : py.lower "localhost" = "localhost"
  /-- `hostname` is in lower case. -/
  hostname : ∀ url parsed host, py.urlsplit url = some parsed → parsed.hostname = some host →
    py.lower host = "localhost" → host = "localhost"

/-- No address stands in brackets. -/
def UrlCrate.Documented (crate : UrlCrate) : Prop :=
  ∀ host, host.toList.head? = some '[' → crate.isLoopback host = false

/-! ## The launcher and the modules -/

section
variable {py : PythonUrls} {url : String} {parsed : SplitUrl} {allow : Bool}

/-- The modules' answer is the rule on what `urlsplit` reports. -/
theorem events_trusted_iff (h : py.urlsplit url = some parsed) :
    Events.credentialTransportIsTrusted py url allow = true ↔
      (Events.report py parsed).Trusted allow := by
  unfold Events.credentialTransportIsTrusted Report.Trusted Events.report
  rw [h]
  dsimp only
  simp only [Bool.and_eq_true, Bool.or_eq_true, Bool.not_eq_true', Bool.or_eq_false_iff,
    beq_iff_eq, and_assoc]

/-- The launcher's answer is the rule with its own test of the host. -/
theorem launcher_trusted_iff (h : py.urlsplit url = some parsed) :
    Launcher.credentialTransportIsTrusted py url allow = true ↔
      { Events.report py parsed with
        loopback := Launcher.isLoopbackHost py (parsed.hostname.getD "") }.Trusted allow := by
  unfold Launcher.credentialTransportIsTrusted Report.Trusted Events.report
  rw [h]
  dsimp only
  cases present parsed.hostname <;> cases present parsed.username <;>
    cases present parsed.password <;> cases parsed.fragment != "" <;>
    simp only [Bool.not_true, Bool.not_false, Bool.or_true, Bool.or_false, Bool.or_self,
      if_true, Bool.false_eq_true, if_false, reduceCtorEq, false_and, and_false, true_and]
  by_cases hsecure : parsed.scheme = "https"
  · simp only [hsecure, if_true, true_or]
  · by_cases hplain : parsed.scheme = "http"
    · cases Launcher.isLoopbackHost py (parsed.hostname.getD "") <;> simp [hplain]
    · simp [hsecure, hplain]

theorem eq_none_of_urlsplit (h : py.urlsplit url = none) :
    Launcher.credentialTransportIsTrusted py url allow = false ∧
      Events.credentialTransportIsTrusted py url allow = false := by
  unfold Launcher.credentialTransportIsTrusted Events.credentialTransportIsTrusted
  rw [h]
  exact ⟨rfl, rfl⟩

variable (py url allow) in
/-- A host in white space or brackets, over HTTP with nothing else against it, that is
loopback as the launcher trims it or as it stands, and not both. -/
def Disguised : Prop :=
  ∃ parsed host, py.urlsplit url = some parsed ∧ parsed.hostname = some host ∧
    (present parsed.username || present parsed.password) = false ∧ parsed.fragment = "" ∧
    parsed.scheme = "http" ∧ allow = false ∧ Padded host ∧
    Launcher.isLoopbackHost py host ≠ (py.isLoopback host).getD false

/-- A padded host is not `localhost`; an address with a scope can be padded. -/
theorem loopback_of_padded {host : String} (h : Padded host) :
    Events.loopback py host = (py.isLoopback host).getD false := by
  have hname : host ≠ "localhost" := by
    rintro rfl
    exact h (by decide)
  have hne : host ≠ "" := by
    rintro rfl
    exact h (by decide)
  unfold Events.loopback
  rw [if_neg hname, if_neg hne]

/-- A host that is not padded is the same to both. -/
theorem isLoopbackHost_eq (hpy : py.Documented) (hsplit : py.urlsplit url = some parsed)
    {host : String} (hhost : parsed.hostname = some host) (hne : host ≠ "")
    (h : ¬Padded host) : Launcher.isLoopbackHost py host = Events.loopback py host := by
  have hstripped : stripped host = host := not_not.mp h
  unfold Launcher.isLoopbackHost Events.loopback
  rw [hstripped, if_neg hne]
  dsimp only
  by_cases hname : host = "localhost"
  · rw [if_pos (.inl (by rw [hname, hpy.localhost])), if_pos hname]
  · have hlower : py.lower host ≠ "localhost" :=
      fun heq => hname (hpy.hostname url parsed host hsplit hhost heq)
    rw [if_neg hname, hpy.lower]
    by_cases hsix : py.lower host = "::1"
    · have hloopback := hpy.lower host
      rw [hsix, hpy.ipv6] at hloopback
      rw [if_pos (.inr hsix), ← hloopback]
      rfl
    · rw [if_neg (not_or.mpr ⟨hlower, hsix⟩)]

theorem isLoopbackHost_eq_iff (hpy : py.Documented) (hsplit : py.urlsplit url = some parsed)
    {host : String} (hhost : parsed.hostname = some host) (hne : host ≠ "") :
    Launcher.isLoopbackHost py host = Events.loopback py host ↔
      ¬(Padded host ∧ Launcher.isLoopbackHost py host ≠ (py.isLoopback host).getD false) := by
  by_cases hpadded : Padded host
  · rw [loopback_of_padded hpadded, not_and, not_not]
    exact ⟨fun h _ => h, fun h => h hpadded⟩
  · exact iff_of_true (isLoopbackHost_eq hpy hsplit hhost hne hpadded) fun h => hpadded h.1

theorem launcher_eq_events_iff (hpy : py.Documented) :
    Launcher.credentialTransportIsTrusted py url allow =
        Events.credentialTransportIsTrusted py url allow ↔ ¬Disguised py url allow := by
  unfold Disguised
  cases hsplit : py.urlsplit url with
  | none =>
      obtain ⟨hlauncher, hevents⟩ := @eq_none_of_urlsplit py url allow hsplit
      rw [hlauncher, hevents]
      refine iff_of_true rfl ?_
      rintro ⟨parsed, host, hsome, -⟩
      cases hsome
  | some parsed =>
      rw [Bool.eq_iff_iff, launcher_trusted_iff hsplit, events_trusted_iff hsplit,
        Report.trusted_congr_iff]
      constructor
      · rintro hsame ⟨parsed', host, hsome, hhost, hplain, hfragment, hscheme, hallow, hdisguised⟩
        obtain rfl := Option.some.inj hsome
        have hne : host ≠ "" := by
          rintro rfl
          exact hdisguised.1 (by decide)
        have hloopback := hsame ⟨by unfold Events.report; rw [hhost]; exact bne_iff_ne.mpr hne,
          hplain, by unfold Events.report; rw [hfragment]; rfl, hscheme, hallow⟩
        unfold Events.report at hloopback
        rw [hhost] at hloopback
        exact (isLoopbackHost_eq_iff hpy hsplit hhost hne).mp hloopback hdisguised
      · rintro hnot ⟨hthere, hplain, hfragment, hscheme, hallow⟩
        unfold Events.report at hthere hplain hfragment hscheme ⊢
        dsimp only at hthere hplain hfragment hscheme ⊢
        cases hhost : parsed.hostname with
        | none => rw [hhost] at hthere; cases hthere
        | some host =>
            rw [hhost] at hthere
            apply (isLoopbackHost_eq_iff hpy hsplit hhost (bne_iff_ne.mp hthere)).mpr
            intro hdisguised
            exact hnot ⟨parsed, host, rfl, hhost, hplain, bne_eq_false_iff_eq.mp hfragment, hscheme,
              hallow, hdisguised⟩

end

/-! ## MCP-Shield and the modules -/

section
variable {py : PythonUrls} {crate : UrlCrate} {value host : String} {url : ParsedUrl}
  {allow : Bool}

theorem loopback_of_bracketed (hcrate : crate.Documented) (h : host.toList.head? = some '[') :
    Shield.loopback crate host = false := by
  have hname : Text.eqIgnoreAsciiCase host "localhost" = false := by
    unfold Text.eqIgnoreAsciiCase Text.asciiLowercase
    rw [beq_eq_false_iff_ne]
    intro heq
    have hlist := congrArg String.toList heq
    rw [String.toList_ofList, String.toList_ofList] at hlist
    have hhead := congrArg List.head? hlist
    rw [List.head?_map, h] at hhead
    revert hhead
    decide
  unfold Shield.loopback
  rw [hname, hcrate host h]
  rfl

theorem unbracketed_of_ne (h : host.toList.head? ≠ some '[') : Shield.unbracketed host = host := by
  unfold Shield.unbracketed
  split
  · next rest heq =>
      rw [heq] at h
      exact absurd rfl h
  · rfl

theorem accepts_iff (h : crate.parse value = some url) :
    (Shield.parseDashboardUrl crate value allow).isSome = true ↔
      (url.scheme = "http" ∨ url.scheme = "https") ∧ url.hostStr.isSome = true ∧
        (Shield.report crate url).credentials = false ∧ url.fragment = none ∧
        (url.scheme = "http" → url.hostStr.any (Shield.loopback crate) = true ∨ allow = true) := by
  unfold Shield.parseDashboardUrl Shield.report
  rw [h]
  dsimp only
  cases hhost : url.hostStr with
  | none => simp
  | some host =>
      cases hfragment : url.fragment with
      | some fragment => simp
      | none =>
          cases hpassword : url.password with
          | some password => simp
          | none =>
              cases hplain : url.username.isEmpty with
              | false => simp
              | true =>
                  by_cases hscheme : url.scheme = "http"
                  · cases hloop : Shield.loopback crate host <;> cases allow <;>
                      simp [hscheme, hloop]
                  · by_cases hsecure : url.scheme = "https"
                    · simp [hsecure]
                    · simp [hscheme, hsecure]

/-- MCP-Shield accepts what the rule trusts on its own parser's report, unless it slips. -/
theorem shield_accepts_iff (hcrate : crate.Documented) (h : crate.parse value = some url) :
    (Shield.parseDashboardUrl crate value allow).isSome = true ↔
      (Shield.report crate url).Trusted allow ∧ ¬Shield.Slips crate url allow := by
  rw [accepts_iff h]
  unfold Report.Trusted Shield.Slips
  constructor
  · rintro ⟨hscheme, hhost, hplain, hfragment, hopen⟩
    obtain ⟨host, hhost'⟩ := Option.isSome_iff_exists.mp hhost
    rw [hhost', Option.any_some] at hopen
    refine ⟨⟨hhost, hplain, ?_, ?_⟩, ?_⟩
    · unfold Shield.report
      rw [hfragment]
      rfl
    · rcases hscheme with hscheme | hscheme
      · refine .inr ⟨hscheme, (hopen hscheme).imp_left fun hloop => ?_⟩
        have hbare : host.toList.head? ≠ some '[' := fun hbracket => by
          rw [loopback_of_bracketed hcrate hbracket] at hloop
          cases hloop
        unfold Shield.report
        dsimp only
        rw [hhost', Option.any_some, unbracketed_of_ne hbare]
        exact hloop
      · exact .inl hscheme
    · rintro (hempty | ⟨hhttp, hallow, host', hmem, hbracket, -⟩)
      · rw [hfragment] at hempty
        cases hempty
      · obtain rfl := Option.some.inj (hhost'.symm.trans hmem)
        rcases hopen hhttp with hloop | hflag
        · rw [loopback_of_bracketed hcrate hbracket] at hloop
          cases hloop
        · rw [hallow] at hflag
          cases hflag
  · rintro ⟨⟨hhost, hplain, hfragment, hsecure⟩, hslip⟩
    obtain ⟨host, hhost'⟩ := Option.isSome_iff_exists.mp hhost
    refine ⟨hsecure.symm.imp_left And.left, hhost, hplain, ?_, fun hhttp => ?_⟩
    · cases hthere : url.fragment with
      | none => rfl
      | some fragment =>
          unfold Shield.report present at hfragment
          rw [hthere, Option.getD_some] at hfragment
          exact absurd (.inl (hthere.trans (congrArg some (bne_eq_false_iff_eq.mp hfragment)))) hslip
    · rcases hsecure with hsecure | ⟨-, hloop | hflag⟩
      · have hboth : "http" = "https" := hhttp.symm.trans hsecure
        exact absurd hboth (by decide)
      · cases hallow : allow with
        | true => exact .inr rfl
        | false =>
            unfold Shield.report at hloop
            dsimp only at hloop
            rw [hhost', Option.any_some] at hloop
            rw [hhost', Option.any_some]
            by_cases hbracket : host.toList.head? = some '['
            · exact absurd (.inr ⟨hhttp, hallow, host, hhost', hbracket, hloop⟩) hslip
            · rw [unbracketed_of_ne hbracket] at hloop
              exact .inl hloop
      · exact .inr hflag

/-- The transport of a credential to the URL is decided alike everywhere. -/
def OneRule (py : PythonUrls) (crate : UrlCrate) (url : String) (allow : Bool) : Prop :=
  Launcher.credentialTransportIsTrusted py url allow =
      Events.credentialTransportIsTrusted py url allow ∧
    ∀ split parsed, py.urlsplit url = some split → crate.parse url = some parsed →
      ((Shield.parseDashboardUrl crate url allow).isSome = true ↔
        Events.credentialTransportIsTrusted py url allow = true)

/-- The three decide alike exactly when no padded host divides the launcher and the modules,
and, where both parsers accept the URL, the rule says the same of their reports unless
MCP-Shield slips. -/
theorem one_transport_rule_iff (hpy : py.Documented) (hcrate : crate.Documented) :
    OneRule py crate value allow ↔ ¬Disguised py value allow ∧
      ∀ split parsed, py.urlsplit value = some split → crate.parse value = some parsed →
        (((Events.report py split).Trusted allow ↔ (Shield.report crate parsed).Trusted allow) ↔
          ¬((Shield.report crate parsed).Trusted allow ∧ Shield.Slips crate parsed allow)) := by
  unfold OneRule
  rw [launcher_eq_events_iff hpy]
  apply and_congr_right'
  refine forall_congr' fun split => forall_congr' fun parsed => forall_congr' fun hsplit =>
    forall_congr' fun hparsed => ?_
  rw [shield_accepts_iff hcrate hparsed, events_trusted_iff hsplit]
  tauto

end

/-! Parsers that know five URLs. -/

def paddedUrl : String := "http://localhost :3000"
def scopedUrl : String := "http://[::1% ]:3000"
def bracketedUrl : String := "http://[::1]:3000"
def taggedUrl : String := "https://dashboard.example.com/#"
def shortUrl : String := "http://127.1:3000"

def knownSplits : PythonUrls where
  urlsplit := fun url =>
    if url = paddedUrl then some ⟨"http", some "localhost ", none, none, ""⟩
    else if url = scopedUrl then some ⟨"http", some "::1% ", none, none, ""⟩
    else if url = bracketedUrl then some ⟨"http", some "::1", none, none, ""⟩
    else if url = taggedUrl then some ⟨"https", some "dashboard.example.com", none, none, ""⟩
    else if url = shortUrl then some ⟨"http", some "127.1", none, none, ""⟩
    else none
  isLoopback := fun host => if host = "::1" ∨ host = "::1% " then some true else none
  lower := id

def knownParses : UrlCrate where
  parse := fun url =>
    if url = bracketedUrl then some ⟨"http", some "[::1]", "", none, none⟩
    else if url = taggedUrl then some ⟨"https", some "dashboard.example.com", "", none, some ""⟩
    else if url = shortUrl then some ⟨"http", some "127.0.0.1", "", none, none⟩
    else none
  isLoopback := fun host => host = "127.0.0.1" || host = "::1"

theorem knownSplits_documented : knownSplits.Documented where
  lower _ := rfl
  ipv6 := rfl
  localhost := rfl
  hostname _ _ _ _ _ h := h

theorem knownParses_documented : knownParses.Documented := by
  intro host hbracket
  unfold knownParses
  dsimp only
  rw [Bool.or_eq_false_iff, decide_eq_false_iff_not, decide_eq_false_iff_not]
  constructor
  · rintro rfl
    exact absurd hbracket (by decide)
  · rintro rfl
    exact absurd hbracket (by decide)

theorem one_transport_rule_insecure : OneRule knownSplits knownParses bracketedUrl true := by
  apply (one_transport_rule_iff knownSplits_documented knownParses_documented).mpr
  constructor
  · rintro ⟨_, _, _, _, _, _, _, hallow, -⟩
    cases hallow
  · intro split parsed hsplit hparsed
    obtain rfl := Option.some.inj hsplit
    obtain rfl := Option.some.inj hparsed
    refine iff_of_true (by decide) ?_
    rintro ⟨-, hempty | ⟨-, hallow, -⟩⟩
    · cases hempty
    · cases hallow

/-- The launcher alone trusts the first URL, and alone refuses the second; MCP-Shield alone
refuses the next two, and alone accepts the last. -/
theorem transport_rules_differ :
    (Launcher.credentialTransportIsTrusted knownSplits paddedUrl false = true ∧
        Events.credentialTransportIsTrusted knownSplits paddedUrl false = false) ∧
      (Launcher.credentialTransportIsTrusted knownSplits scopedUrl false = false ∧
        Events.credentialTransportIsTrusted knownSplits scopedUrl false = true) ∧
      (Events.credentialTransportIsTrusted knownSplits bracketedUrl false = true ∧
        Shield.parseDashboardUrl knownParses bracketedUrl false = none) ∧
      (Events.credentialTransportIsTrusted knownSplits taggedUrl false = true ∧
        Shield.parseDashboardUrl knownParses taggedUrl false = none) ∧
      (Events.credentialTransportIsTrusted knownSplits shortUrl false = false ∧
        (Shield.parseDashboardUrl knownParses shortUrl false).isSome = true) := by
  decide

end BlackMonolith.CredentialTransport
