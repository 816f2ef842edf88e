import Mathlib.Tactic.Tauto
import BlackMonolith.SecretBoundary.AddressSpace
import BlackMonolith.SecretBoundary.Http

/-!
# Pinned destinations

A resolution that succeeds returns the addresses the transport is pinned to. It
succeeds exactly when the URL is admitted by name and every address it stands
for passes the checks.
-/
namespace BlackMonolith.SecretBoundary
open Text

/-- The part of a resolution that looks at no address. -/
def AdmittedByName (url : Url) (host : String) (port : ℕ) : Prop :=
  (url.scheme = "http" ∨ url.scheme = "https") ∧ url.host = some host ∧
    url.portOrKnownDefault = some port ∧ isLoopbackName (asciiLowercase host) = false ∧
    isMetadataName (asciiLowercase host) = false

section
variable (platform : Platform) (resolve : String → ℕ → Except BoundaryError (List SocketAddr))

/-- The addresses a host stands for: its literal, or the answer of the resolver. -/
def standsFor (host : String) (port : ℕ) : Except BoundaryError (List SocketAddr) :=
  match platform.parseIp (trimBrackets host) with
  | some ip => .ok [⟨ip, port⟩]
  | none => resolve host port

end

section
variable {platform : Platform} {resolve : String → ℕ → Except BoundaryError (List SocketAddr)}
  {allowPrivateIps : Bool} {url : Url}

theorem validateIpSafety_ok {ip : IpAddr} :
    validateIpSafety platform allowPrivateIps ip = .ok () ↔
      isDangerousIp allowPrivateIps ip = false := by
  unfold validateIpSafety
  cases isDangerousIp allowPrivateIps ip <;> simp

theorem validated_iff {α : Type} {addrs : List SocketAddr} {x y : α} :
    (do
      for addr in addrs do
        validateIpSafety platform allowPrivateIps addr.ip
      .ok x : Except BoundaryError α) = .ok y ↔
      (∀ addr ∈ addrs, isDangerousIp allowPrivateIps addr.ip = false) ∧ x = y := by
  induction addrs with
  | nil => simp [pure, Except.pure, bind, Except.bind]
  | cons addr addrs ih =>
      rw [List.forall_mem_cons, ← @validateIpSafety_ok platform]
      cases hcheck : validateIpSafety platform allowPrivateIps addr.ip with
      | error e => simp [hcheck, bind, Except.bind]
      | ok u => simpa [hcheck, bind, Except.bind, pure, Except.pure] using ih

/-- What is done once the name is admitted. -/
theorem checked_iff {host host' : String} {port port' : ℕ} {addrs : List SocketAddr} :
    (match platform.parseIp (trimBrackets host) with
      | some ip => do
          validateIpSafety platform allowPrivateIps ip
          .ok (host, port, [⟨ip, port⟩])
      | none => do
          let addrs ← resolve host port
          if addrs.isEmpty then
            .error (.destinationViolation s!"DNS resolution returned no addresses for '{host}'")
          else
            for addr in addrs do
              validateIpSafety platform allowPrivateIps addr.ip
            .ok (host, port, addrs) : Except BoundaryError (String × ℕ × List SocketAddr)) =
        .ok (host', port', addrs) ↔
      (host = host' ∧ port = port') ∧ standsFor platform resolve host port = .ok addrs ∧
        addrs ≠ [] ∧ ∀ addr ∈ addrs, isDangerousIp allowPrivateIps addr.ip = false := by
  unfold standsFor
  cases platform.parseIp (trimBrackets host) with
  | some ip =>
      dsimp only
      have hcheck := @validateIpSafety_ok platform allowPrivateIps ip
      cases hvalid : validateIpSafety platform allowPrivateIps ip with
      | error e =>
          rw [hvalid] at hcheck
          simp only [reduceCtorEq, false_iff, Bool.not_eq_false] at hcheck
          simp only [bind, Except.bind, reduceCtorEq, Except.ok.injEq, false_iff]
          rintro ⟨-, rfl, -, hsafe⟩
          simp [hcheck] at hsafe
      | ok u =>
          have hsafe := hcheck.mp hvalid
          simp only [bind, Except.bind, Except.ok.injEq, Prod.mk.injEq, and_assoc]
          constructor
          · rintro ⟨rfl, rfl, rfl⟩
            simp [hsafe]
          · rintro ⟨rfl, rfl, rfl, -⟩
            exact ⟨rfl, rfl, rfl⟩
  | none =>
      dsimp only
      cases resolve host port with
      | error e => simp [bind, Except.bind]
      | ok answer =>
          cases answer with
          | nil =>
              simp only [bind, Except.bind, List.isEmpty_nil, if_true, reduceCtorEq, false_iff,
                Except.ok.injEq]
              rintro ⟨-, rfl, h, -⟩
              exact h rfl
          | cons addr answer =>
              have hloop := @validated_iff platform allowPrivateIps _ (addr :: answer)
                (host, port, addr :: answer) (host', port', addrs)
              refine hloop.trans ?_
              simp only [Prod.mk.injEq, Except.ok.injEq]
              constructor
              · rintro ⟨hsafe, rfl, rfl, rfl⟩
                exact ⟨⟨rfl, rfl⟩, rfl, List.cons_ne_nil _ _, hsafe⟩
              · rintro ⟨⟨rfl, rfl⟩, rfl, -, hsafe⟩
                exact ⟨hsafe, rfl, rfl, rfl⟩

theorem resolve_ok_iff {host : String} {port : ℕ} {addrs : List SocketAddr} :
    resolveAndPinDestination platform resolve allowPrivateIps url = .ok (host, port, addrs) ↔
      AdmittedByName url host port ∧ standsFor platform resolve host port = .ok addrs ∧
        addrs ≠ [] ∧ ∀ addr ∈ addrs, isDangerousIp allowPrivateIps addr.ip = false := by
  unfold resolveAndPinDestination AdmittedByName
  by_cases hscheme : url.scheme ≠ "http" ∧ url.scheme ≠ "https"
  · rw [if_pos hscheme]
    simp [hscheme]
  · rw [if_neg hscheme]
    have hscheme' : url.scheme = "http" ∨ url.scheme = "https" := by tauto
    cases hhost : url.host with
    | none => simp
    | some host' =>
        cases hport : url.portOrKnownDefault with
        | none => simp
        | some port' =>
            dsimp only
            split_ifs with hloopback hmetadata
            · simp only [Option.some.injEq, false_iff]
              rintro ⟨⟨-, rfl, -, h, -⟩, -⟩
              simp [h] at hloopback
            · simp only [Option.some.injEq, false_iff]
              rintro ⟨⟨-, rfl, -, -, h⟩, -⟩
              simp [h] at hmetadata
            · refine checked_iff.trans ?_
              simp only [Option.some.injEq]
              constructor
              · rintro ⟨⟨rfl, rfl⟩, hanswer, hsafe⟩
                simp only [Bool.not_eq_true] at hloopback hmetadata
                exact ⟨⟨hscheme', rfl, rfl, hloopback, hmetadata⟩, hanswer, hsafe⟩
              · rintro ⟨⟨-, rfl, rfl, -⟩, hanswer, hsafe⟩
                exact ⟨⟨rfl, rfl⟩, hanswer, hsafe⟩

end

/-! ## What reaches the transport -/

/-- `HttpOperationAdapter::execute` over a transport with a state of its own. -/
def HttpOperationAdapter.executeOver {σ : Type} (adapter : HttpOperationAdapter)
    (platform : Platform)
    (executeRequest : σ → HttpRequestDetails → σ × Except BoundaryError RawHttpResponse) (s : σ)
    (elapsedMs : ℕ) (request : OperationRequest) (secret : String) :
    σ × Except BoundaryError OperationResponse :=
  match adapter.prepare platform request secret with
  | .error e => (s, .error e)
  | .ok details =>
      let (s, answer) := executeRequest s details
      (s, adapter.finish secret elapsedMs answer)

theorem execute_eq_executeOver (adapter : HttpOperationAdapter) (platform : Platform)
    (elapsedMs : ℕ) (request : OperationRequest) (secret : String) :
    adapter.execute platform elapsedMs request secret =
      (adapter.executeOver platform (fun _ details => ((), adapter.transport details)) ()
        elapsedMs request secret).2 := by
  unfold HttpOperationAdapter.execute HttpOperationAdapter.executeOver
  cases adapter.prepare platform request secret with
  | error e => rfl
  | ok details => rfl

/-- A prepared request is pinned to what its URL resolved to. -/
theorem prepare_pinned {adapter : HttpOperationAdapter} {platform : Platform}
    {request : OperationRequest} {secret : String} {details : HttpRequestDetails}
    (h : adapter.prepare platform request secret = .ok details) :
    platform.parseUrl request.destinationUrl = .ok details.url ∧ ∃ port,
      resolveAndPinDestination platform adapter.resolve adapter.config.allowPrivateIps details.url =
        .ok (details.hostHeader, port, details.pinnedAddrs) := by
  unfold HttpOperationAdapter.prepare at h
  cases hurl : platform.parseUrl request.destinationUrl with
  | error e =>
      rw [hurl] at h
      cases h
  | ok url =>
      simp only [hurl] at h
      cases hpin : resolveAndPinDestination platform adapter.resolve adapter.config.allowPrivateIps
          url with
      | error e =>
          rw [hpin] at h
          cases h
      | ok pinned =>
          obtain ⟨host, port, addrs⟩ := pinned
          simp only [hpin] at h
          split at h
          · cases h
          · split_ifs at h
            cases h
            exact ⟨rfl, port, hpin⟩

/-! ## The destinations of a URL -/

section
variable (platform : Platform) (adapter : HttpOperationAdapter) (url : Url)

/-- The resolution of a URL by an adapter. -/
def HttpOperationAdapter.pin : Except BoundaryError (String × ℕ × List SocketAddr) :=
  resolveAndPinDestination platform adapter.resolve adapter.config.allowPrivateIps url

/-- A URL resolves only to addresses a request may reach, and only these are
handed to the transport. -/
structure Pinned : Prop where
  safe : ∀ host port addrs, adapter.pin platform url = .ok (host, port, addrs) →
    standsFor platform adapter.resolve host port = .ok addrs ∧ addrs ≠ [] ∧
      ∀ addr ∈ addrs, ¬Forbidden adapter.config.allowPrivateIps addr.ip
  closed : ∀ host port addrs, url.host = some host → url.portOrKnownDefault = some port →
    standsFor platform adapter.resolve host port = .ok addrs →
      (∃ addr ∈ addrs, Forbidden adapter.config.allowPrivateIps addr.ip) →
        ∃ e, adapter.pin platform url = .error e
  embedded : ∀ s0 s1 s2 s3 s4 s5 s6 s7 a b c d, Embeds4 (IpAddr.v6 s0 s1 s2 s3 s4 s5 s6 s7).number →
    (IpAddr.v4 a b c d).number = (IpAddr.v6 s0 s1 s2 s3 s4 s5 s6 s7).number % 2 ^ 32 →
      (validateIpSafety platform adapter.config.allowPrivateIps (.v6 s0 s1 s2 s3 s4 s5 s6 s7) =
        .ok () ↔ validateIpSafety platform adapter.config.allowPrivateIps (.v4 a b c d) = .ok ())
  transported : ∀ {σ : Type}
    (executeRequest : σ → HttpRequestDetails → σ × Except BoundaryError RawHttpResponse) (s : σ)
    (elapsedMs : ℕ) (request : OperationRequest) (secret : String),
    platform.parseUrl request.destinationUrl = .ok url →
      let after := (adapter.executeOver platform executeRequest s elapsedMs request secret).1
      after = s ∨ ∃ details port, details.url = url ∧
        adapter.pin platform url = .ok (details.hostHeader, port, details.pinnedAddrs) ∧
          after = (executeRequest s details).1

end

theorem embedded_verdict {allowPrivateIps : Bool} {s0 s1 s2 s3 s4 s5 s6 s7 : UInt16}
    {a b c d : UInt8} (hembeds : Embeds4 (IpAddr.v6 s0 s1 s2 s3 s4 s5 s6 s7).number)
    (hnumber : (IpAddr.v4 a b c d).number =
      (IpAddr.v6 s0 s1 s2 s3 s4 s5 s6 s7).number % 2 ^ 32) :
    isDangerousIp allowPrivateIps (.v6 s0 s1 s2 s3 s4 s5 s6 s7) =
      isDangerousIp allowPrivateIps (.v4 a b c d) := by
  rw [isDangerousIp_embeds4 hembeds]
  rw [← embedded4_number] at hnumber
  rw [embedded4, ← dotted_inj hnumber]

theorem transported {adapter : HttpOperationAdapter} {platform : Platform} {url : Url} {σ : Type}
    (executeRequest : σ → HttpRequestDetails → σ × Except BoundaryError RawHttpResponse) (s : σ)
    (elapsedMs : ℕ) (request : OperationRequest) (secret : String)
    (hurl : platform.parseUrl request.destinationUrl = .ok url) :
    let after := (adapter.executeOver platform executeRequest s elapsedMs request secret).1
    after = s ∨ ∃ details port, details.url = url ∧
      adapter.pin platform url = .ok (details.hostHeader, port, details.pinnedAddrs) ∧
        after = (executeRequest s details).1 := by
  unfold HttpOperationAdapter.executeOver
  cases hprepare : adapter.prepare platform request secret with
  | error e =>
      left
      rfl
  | ok details =>
      right
      obtain ⟨hurl', port, hpin⟩ := prepare_pinned hprepare
      have heq : details.url = url := by
        rw [hurl] at hurl'
        exact (Except.ok.inj hurl').symm
      refine ⟨details, port, heq, ?_, rfl⟩
      rw [← heq]
      exact hpin

/-- A URL is pinned to safe addresses exactly when no overlooked address passes
among addresses that all pass. -/
theorem pinned_iff (platform : Platform) (adapter : HttpOperationAdapter) (url : Url) :
    Pinned platform adapter url ↔
      ∀ host port addrs, AdmittedByName url host port →
        standsFor platform adapter.resolve host port = .ok addrs →
          (∃ addr ∈ addrs, isDangerousIp adapter.config.allowPrivateIps addr.ip = true) ∨
            ∀ addr ∈ addrs, ¬Overlooked addr.ip := by
  constructor
  · intro hpinned host port addrs hname hstands
    by_cases hdanger : ∃ addr ∈ addrs,
        isDangerousIp adapter.config.allowPrivateIps addr.ip = true
    · left
      exact hdanger
    · right
      intro addr hmem hover
      have hsafe : ∀ addr ∈ addrs, isDangerousIp adapter.config.allowPrivateIps addr.ip = false := by
        simpa using hdanger
      have hpin := resolve_ok_iff.mpr ⟨hname, hstands, List.ne_nil_of_mem hmem, hsafe⟩
      obtain ⟨-, -, hallowed⟩ := hpinned.safe host port addrs hpin
      exact hallowed addr hmem (forbidden_of_overlooked hover)
  · intro hcond
    have hsafe : ∀ host port addrs, adapter.pin platform url = .ok (host, port, addrs) →
        standsFor platform adapter.resolve host port = .ok addrs ∧ addrs ≠ [] ∧
          ∀ addr ∈ addrs, ¬Forbidden adapter.config.allowPrivateIps addr.ip := by
      intro host port addrs hpin
      obtain ⟨hname, hstands, hne, hpass⟩ := resolve_ok_iff.mp hpin
      refine ⟨hstands, hne, ?_⟩
      intro addr hmem hforbidden
      rcases hcond host port addrs hname hstands with ⟨addr', hmem', hdanger⟩ | hseen
      · rw [hpass addr' hmem'] at hdanger
        cases hdanger
      · have hdanger := dangerous_of_forbidden hforbidden (hseen addr hmem)
        rw [hpass addr hmem] at hdanger
        cases hdanger
    constructor
    · exact hsafe
    · intro host port addrs hhost hport hstands ⟨addr, hmem, hforbidden⟩
      cases hpin : adapter.pin platform url with
      | error e => exact ⟨e, rfl⟩
      | ok pinned =>
          obtain ⟨host', port', addrs'⟩ := pinned
          obtain ⟨hname, -⟩ := resolve_ok_iff.mp hpin
          obtain ⟨hstands', -, hallowed⟩ := hsafe _ _ _ hpin
          rw [hname.2.1, Option.some.injEq] at hhost
          rw [hname.2.2.1, Option.some.injEq] at hport
          subst hhost hport
          rw [hstands, Except.ok.injEq] at hstands'
          subst hstands'
          exact absurd hforbidden (hallowed addr hmem)
    · intro s0 s1 s2 s3 s4 s5 s6 s7 a b c d hembeds hnumber
      rw [validateIpSafety_ok, validateIpSafety_ok, embedded_verdict hembeds hnumber]
    · intro σ executeRequest s elapsedMs request secret hurl
      exact transported executeRequest s elapsedMs request secret hurl

/-! A name that resolves into the benchmarking block of IPv6. -/

def benchmarkUrl : Url where
  scheme := "https"
  host := some "bench.example.com"
  port := none
  portOrKnownDefault := some 443
  path := "/"
  queryPairs := []

def benchmarkAddr : SocketAddr := ⟨.v6 0x2001 2 0 0 0 0 0 1, 443⟩

def benchmarkPlatform : Platform :=
  ⟨fun _ => .ok benchmarkUrl, fun _ => none, fun _ => "", fun _ => "", fun _ => ""⟩

def benchmarkAdapter : HttpOperationAdapter :=
  ⟨{}, fun _ _ => .ok [benchmarkAddr], fun _ => .error (.transportError "")⟩

theorem benchmarking_reached :
    (∃ port, benchmarkAdapter.pin benchmarkPlatform benchmarkUrl =
      .ok ("bench.example.com", port, [⟨.v6 0x2001 2 0 0 0 0 0 1, 443⟩])) ∧
      ¬Pinned benchmarkPlatform benchmarkAdapter benchmarkUrl := by
  have hname : AdmittedByName benchmarkUrl "bench.example.com" 443 := by
    refine ⟨.inr rfl, rfl, rfl, ?_, ?_⟩ <;> decide +kernel
  have hpin : benchmarkAdapter.pin benchmarkPlatform benchmarkUrl =
      .ok ("bench.example.com", 443, [benchmarkAddr]) :=
    resolve_ok_iff.mpr ⟨hname, rfl, List.cons_ne_nil _ _, by decide⟩
  refine ⟨⟨443, hpin⟩, ?_⟩
  intro h
  obtain ⟨-, -, hallowed⟩ := h.safe _ _ _ hpin
  apply hallowed benchmarkAddr (List.mem_singleton_self _)
  exact .inl ⟨.benchmarking, rfl, by decide⟩

end BlackMonolith.SecretBoundary
