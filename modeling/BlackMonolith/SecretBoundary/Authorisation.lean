import BlackMonolith.SecretBoundary.Broker

/-!
# What the broker calls

The calls of the broker are recorded in order, over a provider and an executor
whose answers may depend on all that happened before. A request ends in one of
three ways, and what is called follows from the verdict of the policy alone.
-/
namespace BlackMonolith.SecretBoundary

/-- A call of the broker, with what came back. -/
inductive Call
  | getSecret (secretRef : String) (answer : Except BoundaryError String)
  | execute (request : OperationRequest) (secret : String)
      (answer : Except BoundaryError OperationResponse)
  | logEvent (event : SecurityEvent)

/-- A provider and an executor with a state of their own. -/
structure Services (σ : Type) where
  getSecret : σ → String → σ × Except BoundaryError String
  execute : σ → OperationRequest → String → σ × Except BoundaryError OperationResponse

structure Handling (σ : Type) where
  state : σ
  calls : List Call
  result : Except BoundaryError OperationResponse

section
variable {σ : Type} (platform : Platform) (rules : List PolicyRule) (services : Services σ)

/-- The event of a request, before its decision and outcome are known. -/
def draftEvent (m : Moment) (request : OperationRequest) : SecurityEvent where
  eventId := m.eventId
  timestamp := m.now
  correlationId := m.correlationId
  agentId := request.agentId
  operationId := request.operationId
  decision := .allowed
  denialReason := none
  credentialRef := none
  destinationHost := parsedHost platform request
  outcome := .failure
  durationMs := some 0

/-- `SecretBoundaryBroker::execute` over any provider and executor. -/
def handle (m : Moment) (s : σ) (request : OperationRequest) : Handling σ :=
  let event := draftEvent platform m request
  match evaluate platform rules request m.now with
  | .error e =>
      ⟨s, [.logEvent { event with
        decision := .denied, denialReason := some e.display, outcome := .notExecuted }], .error e⟩
  | .ok rule =>
      let secretRef := rule.approvedCredentialRef
      let event := { event with credentialRef := some secretRef }
      match services.getSecret s secretRef with
      | (s, .error e) => ⟨s, [.getSecret secretRef (.error e), .logEvent event], .error e⟩
      | (s, .ok secret) =>
          match services.execute s request secret with
          | (s, .ok response) =>
              ⟨s, [.getSecret secretRef (.ok secret), .execute request secret (.ok response),
                .logEvent { event with
                  outcome := .success, durationMs := some response.durationMs }], .ok response⟩
          | (s, .error e) =>
              ⟨s, [.getSecret secretRef (.ok secret), .execute request secret (.error e),
                .logEvent event], .error e⟩

def Call.isLogEvent : Call → Bool
  | .logEvent _ => true
  | _ => false

def Call.isGetSecret : Call → Bool
  | .getSecret _ _ => true
  | _ => false

def PolicyRule.isFor (rule : PolicyRule) (request : OperationRequest) : Bool :=
  rule.agentId == request.agentId && rule.operationId == request.operationId

/-- The audit event says what was called and what came of it. -/
structure Truthful (m : Moment) (request : OperationRequest) (h : Handling σ)
    (event : SecurityEvent) : Prop where
  identity : event.agentId = request.agentId ∧ event.operationId = request.operationId
  denied : event.decision = .denied ↔ ∃ e, evaluate platform rules request m.now = .error e
  reason : event.denialReason = match evaluate platform rules request m.now with
    | .error e => some e.display
    | .ok _ => none
  credential : ∀ secretRef, event.credentialRef = some secretRef ↔
    ∃ answer, .getSecret secretRef answer ∈ h.calls
  notExecuted : event.outcome = .notExecuted ↔ ∀ call ∈ h.calls, call.isLogEvent
  success : event.outcome = .success ↔
    ∃ secret response, .execute request secret (.ok response) ∈ h.calls ∧ h.result = .ok response
  failure : event.outcome = .failure ↔
    ∃ e, h.result = .error e ∧ ((∃ secretRef, .getSecret secretRef (.error e) ∈ h.calls) ∨
      ∃ secret, .execute request secret (.error e) ∈ h.calls)

/-- One audit event, at the end; the provider is asked at most once, and for the
credential of the only rule for the request; the executor gets what it answered. -/
structure Authorised (m : Moment) (request : OperationRequest) (h : Handling σ) : Prop where
  audited : ∃ calls event, h.calls = calls ++ [.logEvent event] ∧
    (∀ call ∈ calls, call.isLogEvent = false) ∧ Truthful platform rules m request h event
  secrets : h.calls.countP Call.isGetSecret ≤ 1
  authority : ∀ secretRef answer, .getSecret secretRef answer ∈ h.calls →
    ∃ rule, evaluate platform rules request m.now = .ok rule ∧
      rules.filter (·.isFor request) = [rule] ∧ secretRef = rule.approvedCredentialRef
  execution : ∀ request' secret answer, .execute request' secret answer ∈ h.calls →
    request' = request ∧ ∃ before secretRef after,
      h.calls = before ++ .getSecret secretRef (.ok secret) :: after ∧
        .execute request' secret answer ∈ after
  denied : ∀ e, evaluate platform rules request m.now = .error e →
    h.result = .error e ∧ ∀ call ∈ h.calls, call.isLogEvent

end

section
variable {σ : Type} {platform : Platform} {rules : List PolicyRule} {services : Services σ}
  {m : Moment} {request : OperationRequest} {rule : PolicyRule}

/-- The policy accepts a request under the only rule for it. -/
theorem evaluate_ok (h : evaluate platform rules request m.now = .ok rule) :
    rules.filter (·.isFor request) = [rule] := by
  unfold evaluate at h
  unfold PolicyRule.isFor
  split at h
  · cases h
  · split at h
    · cases h
    · cases h
    · next rule' hfilter =>
        split at h
        · cases h
        · split at h
          · cases h
          · split at h
            · cases h
            · cases h
              exact hfilter

theorem authorised_denied {e : BoundaryError} {event : SecurityEvent} {s : σ}
    (hpolicy : evaluate platform rules request m.now = .error e)
    (hevent : event = { draftEvent platform m request with
      decision := .denied, denialReason := some e.display, outcome := .notExecuted }) :
    Authorised platform rules m request (⟨s, [.logEvent event], .error e⟩ : Handling σ) := by
  subst hevent
  constructor
  · refine ⟨[], _, rfl, by simp, ?_⟩
    constructor
    · exact ⟨rfl, rfl⟩
    · simp [hpolicy]
    · simp [hpolicy]
    · simp [draftEvent]
    · simp [Call.isLogEvent]
    · simp
    · simp
  · simp [Call.isGetSecret]
  · simp
  · simp
  · intro e' heq
    rw [hpolicy] at heq
    cases heq
    simp [Call.isLogEvent]

theorem authorised_provider {e : BoundaryError} {event : SecurityEvent} {s : σ}
    (hpolicy : evaluate platform rules request m.now = .ok rule)
    (hevent : event = { draftEvent platform m request with
      credentialRef := some rule.approvedCredentialRef }) :
    Authorised platform rules m request
      (⟨s, [.getSecret rule.approvedCredentialRef (.error e), .logEvent event], .error e⟩ :
        Handling σ) := by
  subst hevent
  constructor
  · refine ⟨[_], _, rfl, by simp [Call.isLogEvent], ?_⟩
    constructor
    · exact ⟨rfl, rfl⟩
    · simp [hpolicy, draftEvent]
    · simp [hpolicy, draftEvent]
    · simp [eq_comm]
    · simp [Call.isLogEvent, draftEvent]
    · simp [draftEvent]
    · simp [draftEvent]
  · simp [Call.isGetSecret, List.countP_cons]
  · intro secretRef answer hmem
    simp only [List.mem_cons, Call.getSecret.injEq, reduceCtorEq, List.not_mem_nil, or_false] at hmem
    exact ⟨rule, hpolicy, evaluate_ok hpolicy, hmem.1⟩
  · simp
  · intro e' heq
    rw [hpolicy] at heq
    cases heq

theorem authorised_executor {secret : String} {event : SecurityEvent} {s : σ}
    {answer : Except BoundaryError OperationResponse}
    (hpolicy : evaluate platform rules request m.now = .ok rule)
    (hevent : event = { draftEvent platform m request with
      credentialRef := some rule.approvedCredentialRef
      outcome := match answer with
        | .ok _ => .success
        | .error _ => .failure
      durationMs := match answer with
        | .ok response => some response.durationMs
        | .error _ => some 0 }) :
    Authorised platform rules m request
      (⟨s, [.getSecret rule.approvedCredentialRef (.ok secret), .execute request secret answer,
        .logEvent event], answer⟩ : Handling σ) := by
  subst hevent
  constructor
  · refine ⟨[_, _], _, rfl, by simp [Call.isLogEvent], ?_⟩
    constructor
    · exact ⟨rfl, rfl⟩
    · simp [hpolicy, draftEvent]
    · simp [hpolicy, draftEvent]
    · simp [eq_comm]
    · cases answer <;> simp [Call.isLogEvent]
    · cases answer <;> simp
    · cases answer <;> simp
  · simp [Call.isGetSecret, List.countP_cons]
  · intro secretRef answer' hmem
    simp only [List.mem_cons, Call.getSecret.injEq, reduceCtorEq, List.not_mem_nil, or_false] at hmem
    exact ⟨rule, hpolicy, evaluate_ok hpolicy, hmem.1⟩
  · intro request' secret' answer' hmem
    simp only [List.mem_cons, Call.execute.injEq, reduceCtorEq, List.not_mem_nil, or_false,
      false_or] at hmem
    obtain ⟨rfl, rfl, rfl⟩ := hmem
    exact ⟨rfl, [], _, _, rfl, List.mem_cons_self⟩
  · intro e' heq
    rw [hpolicy] at heq
    cases heq

/-- Every request is handled with the authority of the policy, and truthfully audited. -/
theorem request_authorised (platform : Platform) (rules : List PolicyRule)
    (services : Services σ) (m : Moment) (s : σ) (request : OperationRequest) :
    Authorised platform rules m request (handle platform rules services m s request) := by
  unfold handle
  cases hpolicy : evaluate platform rules request m.now with
  | error e => exact authorised_denied hpolicy rfl
  | ok rule =>
      dsimp only
      cases hsecret : services.getSecret s rule.approvedCredentialRef with
      | mk s' answer =>
          cases answer with
          | error e => exact authorised_provider hpolicy rfl
          | ok secret =>
              dsimp only
              cases hexecute : services.execute s' request secret with
              | mk s'' answer =>
                  cases answer with
                  | error e => exact authorised_executor hpolicy rfl
                  | ok response => exact authorised_executor hpolicy rfl

end

/-! ## The broker of the HTTP adapter -/

/-- The provider and the executor of a broker. -/
def SecretBoundaryBroker.services (broker : SecretBoundaryBroker) (m : Moment) : Services Unit where
  getSecret := fun _ secretRef => ((), broker.getSecret secretRef)
  execute := fun _ request secret =>
    ((), broker.adapter.execute broker.platform m.elapsedMs request secret)

def Call.event? : Call → Option SecurityEvent
  | .logEvent event => some event
  | _ => none

/-- What the broker returns and audits is what its calls come to. -/
theorem execute_eq_handle (broker : SecretBoundaryBroker) (m : Moment)
    (request : OperationRequest) :
    let h := handle broker.platform broker.rules (broker.services m) m () request
    broker.execute m request = ⟨h.calls.filterMap Call.event?, h.result⟩ := by
  intro h
  unfold h handle SecretBoundaryBroker.execute
  cases evaluate broker.platform broker.rules request m.now with
  | error e => rfl
  | ok rule =>
      dsimp only [SecretBoundaryBroker.services]
      cases broker.getSecret rule.approvedCredentialRef with
      | error e => rfl
      | ok secret =>
          dsimp only
          cases broker.adapter.execute broker.platform m.elapsedMs request secret with
          | error e => rfl
          | ok response => rfl

end BlackMonolith.SecretBoundary
