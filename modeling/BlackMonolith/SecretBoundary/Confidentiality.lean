import BlackMonolith.SecretBoundary.Broker

/-!
# What the broker gives away of a secret

The body of a response and the text of a transport error pass the redaction,
which leaves no occurrence of a secret that shares no character with the
marker. Response headers are only filtered by name, and the prefix put before a
redacted error is not part of what was redacted. The condition on the upstream
answer below says that neither gap is used.
-/
namespace BlackMonolith.SecretBoundary
open Library Text

/-- The secret is a substring of a text. -/
def Occurs (secret text : String) : Prop := secret.toList <:+: text.toList

instance (secret text : String) : Decidable (Occurs secret text) :=
  decidable_of_iff _ occursIn_iff

def SecurityEvent.texts (e : SecurityEvent) : List String :=
  [e.eventId, e.correlationId, e.agentId, e.operationId, e.destinationHost] ++
    e.denialReason.toList ++ e.credentialRef.toList

def WireResponse.texts (w : WireResponse) : List String :=
  w.responseBody.toList ++ ((w.responseHeaders.getD []).flatMap fun h => [h.1, h.2]) ++
    w.errorMessage.toList

/-- No text of the outcome contains the secret. -/
structure Confidential (secret : String) (out : Outcome) : Prop where
  body : ∀ r, out.result = .ok r → ¬ Occurs secret r.sanitizedBody
  headers : ∀ r, out.result = .ok r →
    ∀ h ∈ r.sanitizedHeaders, ¬ Occurs secret h.1 ∧ ¬ Occurs secret h.2
  error : ∀ e, out.result = .error e → ¬ Occurs secret e.display
  audit : ∀ e ∈ out.events, ∀ t ∈ e.texts, ¬ Occurs secret t
  wire : ∀ t ∈ (wireResponse out.result).texts, ¬ Occurs secret t

def OperationRequest.texts (r : OperationRequest) : List String :=
  [r.agentId, r.operationId, r.destinationUrl, r.method] ++
    (r.headers.flatMap fun h => [h.1, h.2]) ++
    (r.body.map fun b => String.ofList (Utf8.decodeLossy b)).toList

def PolicyRule.texts (r : PolicyRule) : List String :=
  [r.agentId, r.operationId, r.approvedCredentialRef, r.destinationHost, r.allowedPathPrefix] ++
    r.allowedMethods ++ r.permittedQueryParams

section
variable (broker : SecretBoundaryBroker) (m : Moment) (request : OperationRequest)

/-- The transport's answer, when the request gets as far as the transport. -/
def SecretBoundaryBroker.upstream : Option (Except BoundaryError RawHttpResponse) :=
  match evaluate broker.platform broker.rules request m.now with
  | .error _ => none
  | .ok rule =>
      match broker.getSecret rule.approvedCredentialRef with
      | .error _ => none
      | .ok secret =>
          match broker.adapter.prepare broker.platform request secret with
          | .error _ => none
          | .ok details => some (broker.adapter.transport details)

/-- The messages the program composes itself for this request, from its own
text, the request, the rule and numbers; neither the secret nor any text of the
upstream is in them. -/
def SecretBoundaryBroker.ownMessages : List String :=
  [m.eventId, m.correlationId, parsedHost broker.platform request] ++
    (match evaluate broker.platform broker.rules request m.now with
      | .error e => [e.display]
      | .ok _ => []) ++
    (match broker.adapter.prepare broker.platform request "" with
      | .error e => [e.display]
      | .ok _ => []) ++
    (match broker.upstream m request with
      | some (.ok raw) =>
          [(redirectError raw.statusCode).display,
            (sizeError raw.body.length broker.adapter.config.maxResponseBytes).display]
      | _ => [])

/-- A resolved secret that nothing but the upstream can give away. -/
structure Foreign (secret : String) : Prop where
  resolved : ∀ rule, evaluate broker.platform broker.rules request m.now = .ok rule →
    broker.getSecret rule.approvedCredentialRef = .ok secret
  nonblank : isBlank secret = false
  marker : ∀ c ∈ secret.toList, c ∉ redactedMarker.toList
  inRequest : ∀ t ∈ request.texts, ¬ Occurs secret t
  inRules : ∀ rule ∈ broker.rules, ∀ t ∈ rule.texts, ¬ Occurs secret t
  inMessages : ∀ t ∈ broker.ownMessages m request, ¬ Occurs secret t

end

/-- The condition on the upstream: no header that is passed on contains the
secret, and no occurrence begins in the prefix of an error message and ends
before the first one that is redacted. -/
def Contained (adapter : HttpOperationAdapter) (secret : String) :
    Except BoundaryError RawHttpResponse → Prop
  | .error e =>
      ¬ secret.toList <:+:
        transportPrefix.toList ++ beforeFirst secret.toList e.display.toList
  | .ok raw =>
      isRedirect raw.statusCode = false →
        raw.body.length ≤ adapter.config.maxResponseBytes →
          ∀ h ∈ raw.headers, isSensitiveHeader h.1 = false →
            ¬ Occurs secret h.1 ∧ ¬ Occurs secret h.2

section
variable {broker : SecretBoundaryBroker} {m : Moment} {request : OperationRequest}
  {secret : String}

theorem toList_ne_nil_of_not_blank (h : isBlank secret = false) : secret.toList ≠ [] := by
  intro hnil
  have hempty : secret = "" := String.toList_eq_nil_iff.mp hnil
  rw [hempty] at h
  exact absurd h (by decide)

theorem redactedMarker_ne_nil : redactedMarker.toList ≠ [] := by decide

/-- A redacted text does not contain the secret. -/
theorem not_occurs_redacted (hb : isBlank secret = false)
    (hm : ∀ c ∈ secret.toList, c ∉ redactedMarker.toList) (text : String) :
    ¬ Occurs secret (redactSecretFromText text secret) := by
  unfold Occurs redactSecretFromText replace
  rw [hb, if_neg Bool.false_ne_true, String.toList_ofList]
  exact not_infix_replaceAll (toList_ne_nil_of_not_blank hb) redactedMarker_ne_nil hm _

/-- A transport error contains the secret only across its prefix. -/
theorem occurs_transportError_iff (hb : isBlank secret = false)
    (hm : ∀ c ∈ secret.toList, c ∉ redactedMarker.toList) (text : String) :
    Occurs secret (BoundaryError.transportError (redactSecretFromText text secret)).display ↔
      secret.toList <:+: transportPrefix.toList ++ beforeFirst secret.toList text.toList := by
  unfold Occurs redactSecretFromText replace BoundaryError.display
  rw [hb, if_neg Bool.false_ne_true, String.toList_append, String.toList_ofList]
  exact infix_append_replaceAll_iff (toList_ne_nil_of_not_blank hb) redactedMarker_ne_nil hm _ _

/-- The response or error itself gives nothing away. -/
structure ResultConfidential (secret : String)
    (result : Except BoundaryError OperationResponse) : Prop where
  body : ∀ r, result = .ok r → ¬ Occurs secret r.sanitizedBody
  headers : ∀ r, result = .ok r →
    ∀ h ∈ r.sanitizedHeaders, ¬ Occurs secret h.1 ∧ ¬ Occurs secret h.2
  error : ∀ e, result = .error e → ¬ Occurs secret e.display

theorem resultConfidential_error_iff {e : BoundaryError} :
    ResultConfidential secret (.error e) ↔ ¬ Occurs secret e.display := by
  constructor
  · exact fun h => h.error e rfl
  · intro h
    refine ⟨fun _ hr => (by cases hr), fun _ hr => (by cases hr), ?_⟩
    intro e' he
    cases he
    exact h

/-- The wire response has no text but those of the result. -/
theorem wire_of_result {result : Except BoundaryError OperationResponse}
    (h : ResultConfidential secret result) :
    ∀ t ∈ (wireResponse result).texts, ¬ Occurs secret t := by
  intro t ht
  cases result with
  | error e =>
      obtain rfl : t = e.display := by
        simpa [wireResponse, WireResponse.failed, WireResponse.texts] using ht
      exact h.error e rfl
  | ok r =>
      have hmem : t = r.sanitizedBody ∨ ∃ p ∈ r.sanitizedHeaders, t = p.1 ∨ t = p.2 := by
        simpa [wireResponse, WireResponse.texts] using ht
      rcases hmem with rfl | ⟨p, hp, rfl | rfl⟩
      · exact h.body r rfl
      · exact (h.headers r rfl p hp).1
      · exact (h.headers r rfl p hp).2

/-- The second half of the adapter, whatever the transport answered. -/
theorem finish_confidential_iff {adapter : HttpOperationAdapter} {elapsedMs : ℕ}
    {answer : Except BoundaryError RawHttpResponse} (hb : isBlank secret = false)
    (hm : ∀ c ∈ secret.toList, c ∉ redactedMarker.toList)
    (hown : ∀ raw, answer = .ok raw → ¬ Occurs secret (redirectError raw.statusCode).display ∧
      ¬ Occurs secret (sizeError raw.body.length adapter.config.maxResponseBytes).display) :
    ResultConfidential secret (adapter.finish secret elapsedMs answer) ↔
      Contained adapter secret answer := by
  cases answer with
  | error e =>
      unfold HttpOperationAdapter.finish Contained
      rw [resultConfidential_error_iff, occurs_transportError_iff hb hm]
  | ok raw =>
      obtain ⟨hredirect, hsize⟩ := hown raw rfl
      unfold HttpOperationAdapter.finish Contained
      simp only []
      split_ifs with h₁ h₂
      · rw [resultConfidential_error_iff]
        exact ⟨fun _ h => absurd (h.symm.trans h₁) Bool.false_ne_true, fun _ => hredirect⟩
      · rw [resultConfidential_error_iff]
        exact ⟨fun _ _ h => absurd h₂ (Nat.not_lt.mpr h), fun _ => hsize⟩
      · have hkept : ∀ p, p ∈ filterResponseHeaders raw.headers ↔
            p ∈ raw.headers ∧ isSensitiveHeader p.1 = false := by
          intro p
          simp [filterResponseHeaders, List.mem_filter]
        constructor
        · intro h _ _ p hp hs
          exact h.headers _ rfl p ((hkept p).mpr ⟨hp, hs⟩)
        · intro h
          refine ⟨?_, ?_, fun _ hr => (by cases hr)⟩
          · rintro r hr
            cases hr
            dsimp only
            exact not_occurs_redacted hb hm (String.ofList (Utf8.decodeLossy raw.body))
          · rintro r hr p hp
            cases hr
            obtain ⟨hmem, hs⟩ := (hkept p).mp hp
            exact h (Bool.eq_false_iff.mpr h₁) (Nat.le_of_not_lt h₂) p hmem hs

/-- The rule that authorises a request is one of the rules of the engine. -/
theorem mem_of_evaluate {platform : Platform} {rules : List PolicyRule} {now : ℕ}
    {rule : PolicyRule} (h : evaluate platform rules request now = .ok rule) : rule ∈ rules := by
  unfold evaluate at h
  split at h
  · cases h
  · split at h
    · cases h
    · cases h
    · next only hone =>
        have hmem : only ∈ rules := by
          have hfilter : only ∈ rules.filter fun r =>
              r.agentId == request.agentId && r.operationId == request.operationId := by
            rw [hone]
            exact List.mem_singleton_self only
          exact (List.mem_filter.mp hfilter).1
        split at h
        · cases h
        · split at h
          · cases h
          · split at h
            · cases h
            · cases h
              exact hmem

/-- The texts every audit event of a request carries. -/
def eventBase (broker : SecretBoundaryBroker) (m : Moment) (request : OperationRequest) :
    List String :=
  [m.eventId, m.correlationId, request.agentId, request.operationId,
    parsedHost broker.platform request]

theorem execute_denied {e : BoundaryError}
    (h : evaluate broker.platform broker.rules request m.now = .error e) :
    (broker.execute m request).result = .error e ∧
      (broker.execute m request).events.flatMap SecurityEvent.texts =
        eventBase broker m request ++ [e.display] := by
  unfold SecretBoundaryBroker.execute
  rw [h]
  exact ⟨rfl, rfl⟩

/-- An authorised request with a resolved secret has the adapter's result. -/
theorem execute_resolved {rule : PolicyRule}
    (h : evaluate broker.platform broker.rules request m.now = .ok rule)
    (hs : broker.getSecret rule.approvedCredentialRef = .ok secret) :
    (broker.execute m request).result =
        broker.adapter.execute broker.platform m.elapsedMs request secret ∧
      (broker.execute m request).events.flatMap SecurityEvent.texts =
        eventBase broker m request ++ [rule.approvedCredentialRef] := by
  unfold SecretBoundaryBroker.execute
  simp only [h, hs]
  cases broker.adapter.execute broker.platform m.elapsedMs request secret with
  | ok response => exact ⟨rfl, rfl⟩
  | error e => exact ⟨rfl, rfl⟩

/-- An outcome is confidential when its audit texts and its result are. -/
theorem confidential_iff_result {out : Outcome}
    (haudit : ∀ t ∈ out.events.flatMap SecurityEvent.texts, ¬ Occurs secret t) :
    Confidential secret out ↔ ResultConfidential secret out.result := by
  constructor
  · intro h
    exact ⟨h.body, h.headers, h.error⟩
  · intro h
    have hevents : ∀ e ∈ out.events, ∀ t ∈ e.texts, ¬ Occurs secret t :=
      fun e he t ht => haudit t (List.mem_flatMap.mpr ⟨e, he, ht⟩)
    exact ⟨h.body, h.headers, h.error, hevents, wire_of_result h⟩

theorem Foreign.not_occurs_eventBase (h : Foreign broker m request secret) :
    ∀ t ∈ eventBase broker m request, ¬ Occurs secret t := by
  have hagent : ¬ Occurs secret request.agentId := h.inRequest _ (by simp [OperationRequest.texts])
  have hop : ¬ Occurs secret request.operationId := h.inRequest _ (by simp [OperationRequest.texts])
  have hid : ¬ Occurs secret m.eventId :=
    h.inMessages _ (by simp [SecretBoundaryBroker.ownMessages])
  have hcorr : ¬ Occurs secret m.correlationId :=
    h.inMessages _ (by simp [SecretBoundaryBroker.ownMessages])
  have hhost : ¬ Occurs secret (parsedHost broker.platform request) :=
    h.inMessages _ (by simp [SecretBoundaryBroker.ownMessages])
  intro t ht
  simp only [eventBase, List.mem_cons, List.not_mem_nil, or_false] at ht
  rcases ht with rfl | rfl | rfl | rfl | rfl <;> assumption

/-- A request is refused whatever the secret is, or for a character of the secret. -/
theorem prepare_error {adapter : HttpOperationAdapter} {platform : Platform} {e : BoundaryError}
    (h : adapter.prepare platform request secret = .error e) :
    adapter.prepare platform request "" = .error e ∨
      e = invalidSecret ∧ hasControl ("Bearer " ++ secret) = true := by
  unfold HttpOperationAdapter.prepare at h ⊢
  cases hparse : platform.parseUrl request.destinationUrl with
  | error reason =>
      rw [hparse] at h
      exact .inl h
  | ok url =>
      rw [hparse] at h
      dsimp only at h ⊢
      cases hpin : resolveAndPinDestination platform adapter.resolve adapter.config.allowPrivateIps
          url with
      | error reason =>
          rw [hpin] at h
          exact .inl h
      | ok pinned =>
          rw [hpin] at h
          dsimp only at h ⊢
          cases hcaller : callerHeaderError request.headers with
          | some reason =>
              rw [hcaller] at h
              exact .inl h
          | none =>
              rw [hcaller] at h
              dsimp only at h
              split_ifs at h with hcontrol
              cases h
              exact .inr ⟨rfl, hcontrol⟩

/-- The refusal of a secret has no control character, and such a secret has one. -/
theorem not_occurs_invalidSecret (h : hasControl ("Bearer " ++ secret) = true) :
    ¬ Occurs secret invalidSecret.display := by
  have hnone : ∀ c ∈ ['\r', '\n', '\x00'],
      c ∉ "Bearer ".toList ∧ c ∉ invalidSecret.display.toList := by
    have hsplit : invalidSecret.display.toList = _ := String.toList_append
    rw [hsplit]
    simp
  intro hoccurs
  have hcontrol : ∃ c ∈ ['\r', '\n', '\x00'], c ∈ "Bearer ".toList ++ secret.toList := by
    simpa [hasControl, or_assoc] using h
  obtain ⟨c, hlisted, hc⟩ := hcontrol
  obtain ⟨hscheme, hmessage⟩ := hnone c hlisted
  rcases List.mem_append.mp hc with hbearer | hsecret
  · exact hscheme hbearer
  · exact hmessage (hoccurs.subset hsecret)

/-- Nothing that keeps a request from the transport gives the secret away. -/
theorem Foreign.not_occurs_prepare (h : Foreign broker m request secret) {e : BoundaryError}
    (he : broker.adapter.prepare broker.platform request secret = .error e) :
    ¬ Occurs secret e.display := by
  rcases prepare_error he with hother | ⟨rfl, hcontrol⟩
  · exact h.inMessages _ (by simp [SecretBoundaryBroker.ownMessages, hother])
  · exact not_occurs_invalidSecret hcontrol

/-- A caller on the wire is answered with the outcome, with what is wrong with the
text of the request, or with one of two fixed refusals. -/
theorem handleJsonRequest_texts {fromStr : String → Except String WireRequest} {json : String}
    {wire : WireRequest} (hjson : fromStr json = .ok wire)
    (h : Confidential secret (broker.execute m wire.operation)) :
    ∀ t ∈ (handleJsonRequest fromStr broker m json).texts, Occurs secret t →
      t = payloadLimitError ∨ t = lengthLimitError := by
  have hfailed : ∀ message, (WireResponse.failed message).texts = [message] := fun _ => rfl
  intro t ht hoccurs
  unfold handleJsonRequest at ht
  rw [hjson] at ht
  dsimp only at ht
  split_ifs at ht
  · rw [hfailed] at ht
    exact .inl (List.mem_singleton.mp ht)
  · rw [hfailed] at ht
    exact .inr (List.mem_singleton.mp ht)
  · exact absurd hoccurs (h.wire t ht)

theorem execute_confidential_iff (h : Foreign broker m request secret) :
    Confidential secret (broker.execute m request) ↔
      ∀ answer, broker.upstream m request = some answer →
        Contained broker.adapter secret answer := by
  cases heval : evaluate broker.platform broker.rules request m.now with
  | error e =>
      obtain ⟨hresult, htexts⟩ := execute_denied heval
      have hdisplay : ¬ Occurs secret e.display :=
        h.inMessages _ (by simp [SecretBoundaryBroker.ownMessages, heval])
      have hnone : broker.upstream m request = none := by
        unfold SecretBoundaryBroker.upstream
        rw [heval]
      rw [confidential_iff_result, hresult, resultConfidential_error_iff, hnone]
      · exact ⟨fun _ _ hsome => (by cases hsome), fun _ => hdisplay⟩
      · rw [htexts]
        intro t ht
        rcases List.mem_append.mp ht with ht | ht
        · exact h.not_occurs_eventBase t ht
        · rw [List.mem_singleton.mp ht]
          exact hdisplay
  | ok rule =>
      have hs := h.resolved rule heval
      obtain ⟨hresult, htexts⟩ := execute_resolved heval hs
      rw [confidential_iff_result, hresult]
      · unfold HttpOperationAdapter.execute
        cases hprep : broker.adapter.prepare broker.platform request secret with
        | error e =>
            have hdisplay : ¬ Occurs secret e.display := h.not_occurs_prepare hprep
            have hnone : broker.upstream m request = none := by
              simp only [SecretBoundaryBroker.upstream, heval, hs, hprep]
            simp only [resultConfidential_error_iff, hnone]
            exact ⟨fun _ _ hsome => (by cases hsome), fun _ => hdisplay⟩
        | ok details =>
            have hsome : broker.upstream m request = some (broker.adapter.transport details) := by
              simp only [SecretBoundaryBroker.upstream, heval, hs, hprep]
            have hown : ∀ raw, broker.adapter.transport details = .ok raw →
                ¬ Occurs secret (redirectError raw.statusCode).display ∧
                  ¬ Occurs secret
                    (sizeError raw.body.length broker.adapter.config.maxResponseBytes).display := by
              intro raw hraw
              constructor <;> apply h.inMessages <;>
                simp [SecretBoundaryBroker.ownMessages, hsome, hraw]
            simp only [hsome, Option.some.injEq, forall_eq']
            exact finish_confidential_iff h.nonblank h.marker hown
      · rw [htexts]
        intro t ht
        rcases List.mem_append.mp ht with ht | ht
        · exact h.not_occurs_eventBase t ht
        · rw [List.mem_singleton.mp ht]
          exact h.inRules rule (mem_of_evaluate heval) _ (by simp [PolicyRule.texts])

/-- The secret stays inside exactly when the upstream's answer, if the request
gets that far, uses neither of the two gaps; and then a caller on the wire does
not get it either. -/
theorem confidential_iff (h : Foreign broker m request secret) :
    (Confidential secret (broker.execute m request) ↔
      ∀ answer, broker.upstream m request = some answer →
        Contained broker.adapter secret answer) ∧
    (Confidential secret (broker.execute m request) →
      ∀ fromStr json wire, fromStr json = .ok wire → wire.operation = request →
        ∀ t ∈ (handleJsonRequest fromStr broker m json).texts, Occurs secret t →
          t = payloadLimitError ∨ t = lengthLimitError) := by
  refine ⟨execute_confidential_iff h, ?_⟩
  rintro hkept fromStr json wire hjson rfl
  exact handleJsonRequest_texts hjson hkept

end

/-! ## An upstream that echoes the credential -/

def samplePlatform : Platform where
  parseUrl := fun _ => .ok
    { scheme := "https"
      host := some "api.test"
      port := none
      portOrKnownDefault := some 443
      path := "/v1/pay"
      queryPairs := [] }
  parseIp := fun _ => none
  displayIp := fun _ => "203.0.114.7"
  displayTime := fun _ => ""
  debugStrings := fun _ => ""

def sampleRule : PolicyRule where
  agentId := "agent"
  operationId := "pay"
  approvedCredentialRef := "billing"
  destinationHost := "api.test"
  allowedPathPrefix := "/v1"

def sampleRequest : OperationRequest where
  agentId := "agent"
  operationId := "pay"
  destinationUrl := "https://api.test/v1/pay"
  method := "GET"
  headers := []
  body := none

def sampleMoment : Moment where
  now := 0
  nowMillis := 0
  counter := 1
  eventId := "e1"
  elapsedMs := 3

/-- A broker whose one credential is `sk-42`, and whose upstream gives this answer. -/
def sampleBroker (answer : Except BoundaryError RawHttpResponse) : SecretBoundaryBroker where
  platform := samplePlatform
  rules := [sampleRule]
  getSecret := fun _ => .ok "sk-42"
  adapter :=
    { config := {}
      resolve := fun _ port => .ok [⟨.v4 203 0 114 7, port⟩]
      transport := fun _ => answer }

def echoed (headers : List (String × String)) : RawHttpResponse :=
  ⟨200, headers, Text.bytes "sk-42"⟩

theorem foreign_echoed (headers : List (String × String)) :
    Foreign (sampleBroker (.ok (echoed headers))) sampleMoment sampleRequest "sk-42" where
  resolved := fun _ _ => rfl
  nonblank := by decide
  marker := Library.forall_mem_of_all (by decide)
  inRequest := by decide
  inRules := by
    change ∀ rule ∈ [sampleRule], ∀ t ∈ rule.texts, ¬ Occurs "sk-42" t
    decide
  inMessages := by
    change ∀ t ∈ ["e1", sampleMoment.correlationId, "api.test", (redirectError 200).display,
      (sizeError 5 ({} : HttpAdapterConfig).maxResponseBytes).display], ¬ Occurs "sk-42" t
    decide +kernel

theorem upstream_echoed (headers : List (String × String)) :
    (sampleBroker (.ok (echoed headers))).upstream sampleMoment sampleRequest =
      some (.ok (echoed headers)) := rfl

/-- Echoed in the body and in a header the filter drops, the secret stays inside. -/
theorem confidential_iff_body :
    Confidential "sk-42" ((sampleBroker (.ok (echoed [("Set-Cookie", "k=sk-42")]))).execute
      sampleMoment sampleRequest) := by
  apply (confidential_iff (foreign_echoed _)).1.mpr
  intro answer hanswer
  rw [upstream_echoed] at hanswer
  cases hanswer
  exact fun _ _ => by decide

/-- Echoed in any other header it reaches the caller. -/
theorem header_gives_secret_away :
    Foreign (sampleBroker (.ok (echoed [("X-Echo", "Bearer sk-42")]))) sampleMoment sampleRequest
        "sk-42" ∧
      ¬ Confidential "sk-42" ((sampleBroker (.ok (echoed [("X-Echo", "Bearer sk-42")]))).execute
        sampleMoment sampleRequest) := by
  refine ⟨foreign_echoed _, ?_⟩
  intro h
  have hheaders := h.headers _ rfl ("X-Echo", "Bearer sk-42") List.mem_cons_self
  exact absurd hheaders.2 (by decide)

end BlackMonolith.SecretBoundary
