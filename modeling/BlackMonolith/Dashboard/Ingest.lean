import BlackMonolith.Dashboard.IncidentStore

/-!
# The ingest endpoint

`POST` reads a batch, normalises and authenticates it, stores its events and
lets the circuit breaker judge the sessions they belong to. Publishing to
subscribers and queueing alerts do not touch the state or the response and are
left out.
-/
namespace BlackMonolith.Dashboard
open Library

inductive Store
  | memory (s : MemoryStore)
  | postgres (db : Database)

/-- The configuration: the breaker, the checks of the table, the digest of
tokens, and the ingest tokens by tenant and module unless they are misconfigured. -/
structure Deployment where
  breaker : CircuitBreaker
  checks : TableChecks
  digest : JsString → List UInt8
  configuredTokens : Option (Identity → ModuleName → Option JsString)

/-- What the clock, the id generator and the breaker's query give one request.
Times are past the epoch. -/
structure Readings where
  timestamp : ℕ → ℕ
  randomUUID : ℕ → JsString
  received : ℕ → ℕ
  transaction : ℕ
  revokedAt : ℕ → ℕ
  groups : GroupOrder
  received_pos : ∀ i, 0 < received i

/-- The JSON body, or the status and text `readJsonBody` fails with, and the
authorization header. -/
structure IngestRequest where
  body : Except (ℕ × String) JsValue
  authorization : Option JsString

structure IngestResult where
  accepted : ℕ
  duplicates : ℕ
  eventIds : List JsString
  revokedSessions : List JsString
deriving Repr, DecidableEq

/-- A response: 201 with a result, or another status with an error. -/
inductive Response
  | created (result : IngestResult)
  | failed (status : ℕ) (error : String)
deriving Repr, DecidableEq

def Response.isCreated : Response → Bool
  | .created _ => true
  | .failed _ _ => false

/-! ## Authentication -/

def isTokenUnit (u : UInt16) : Bool :=
  (48 ≤ u && u ≤ 57) || (65 ≤ u && u ≤ 90) || (97 ≤ u && u ≤ 122) ||
    (JsString.ofString "-._~+/=").units.contains u

def isBearerToken (token : JsString) : Bool :=
  16 ≤ token.length && token.length ≤ 512 && token.units.all isTokenUnit

def bearerPrefix : JsString := .ofString "Bearer "

def bearerToken (authorization : Option JsString) : JsString :=
  match authorization with
  | some header =>
      if bearerPrefix.units.isPrefixOf header.units then ⟨header.units.drop bearerPrefix.length⟩
      else ⟨[]⟩
  | none => ⟨[]⟩

/-- `none` is a misconfiguration. -/
def authenticateIngest (d : Deployment) (authorization : Option JsString) (tenant : Identity)
    (moduleName : ModuleName) : Option Bool :=
  d.configuredTokens.map fun tokens =>
    let token := bearerToken authorization
    match tokens tenant moduleName with
    | some expected =>
        expected.units ≠ [] && isBearerToken token && d.digest token == d.digest expected
    | none => false

/-! ## Stores -/

/-- The events of a batch as the ledger holds them, and the store with them. -/
def MemoryStore.store (s : MemoryStore) (r : Readings) (events : List MonolithEvent) :
    List MonolithEvent × MemoryStore :=
  let p := persistInMemory r.received 0 events s.events
  (p.1.map (·.event), { s with events := p.2 })

/-- `persistEvents` for a batch of one tenant; `none` is a database error. -/
def Store.persistEvents (d : Deployment) (r : Readings) (events : List MonolithEvent)
    (tenantId : Identity) : Store → Option (List PersistResult × Store)
  | .memory s =>
      let p := persistInMemory r.received 0 events s.events
      some (p.1, .memory { s with events := p.2 })
  | .postgres db =>
      (insertEvents d.checks tenantId r.transaction events db.events).map fun p =>
        (p.1, .postgres { db with events := p.2 })

def Store.evaluateSessionCircuitBreaker (breaker : CircuitBreaker) (groups : GroupOrder)
    (revokedAt : ℕ → ℕ) (events : List MonolithEvent) :
    Store → Store × Except String (List JsString)
  | .memory s =>
      let r := s.evaluateSessionCircuitBreaker breaker revokedAt events
      (.memory r.1, r.2)
  | .postgres db =>
      let r := db.evaluateSessionCircuitBreaker breaker groups revokedAt events
      (.postgres r.1, r.2)

/-! ## The handler -/

def normalizeAll (r : Readings) : ℕ → List JsValue → Except String (List MonolithEvent)
  | _, [] => .ok []
  | i, item :: items => do
      let event ← normalizeEvent (r.timestamp i) (r.randomUUID i) item
      let events ← normalizeAll r (i + 1) items
      .ok (event :: events)

def itemsOf : JsValue → List JsValue
  | .array items => items
  | body => [body]

/-- The part of `POST` before the ledger: the authenticated batch. -/
def readBatch (d : Deployment) (r : Readings) (req : IngestRequest) :
    Except (ℕ × String) (List MonolithEvent) :=
  match req.body with
  | .error e => .error e
  | .ok body =>
      let items := itemsOf body
      if items.length = 0 ∨ 100 < items.length then .error (422, "submit between 1 and 100 events")
      else
        match normalizeAll r 0 items with
        | .error e => .error (422, e)
        | .ok [] => .error (422, "invalid event")
        | .ok (first :: rest) =>
            let events := first :: rest
            if events.any (·.moduleName ≠ first.moduleName) then
              .error (422, "a batch may contain events from one module only")
            else if events.any (·.tenantId ≠ first.tenantId) then
              .error (422, "a batch may contain events from one tenant only")
            else
              match authenticateIngest d req.authorization first.tenantId first.moduleName with
              | none => .error (503, "ingest authentication is unavailable")
              | some false => .error (401, "invalid module credential")
              | some true => .ok events

theorem normalizeAll_receivedMs {r : Readings} {i : ℕ} {items : List JsValue}
    {events : List MonolithEvent} (h : normalizeAll r i items = .ok events) :
    ∀ e ∈ events, e.receivedMs = none := by
  induction items generalizing i events with
  | nil =>
      cases h
      simp
  | cons item items ih =>
      simp only [normalizeAll] at h
      cases hitem : normalizeEvent (r.timestamp i) (r.randomUUID i) item with
      | error e =>
          rw [hitem] at h
          cases h
      | ok event =>
          rw [hitem] at h
          cases hrest : normalizeAll r (i + 1) items with
          | error e =>
              simp only [hrest] at h
              cases h
          | ok rest =>
              simp only [hrest] at h
              cases h
              intro e he
              cases he with
              | head => exact normalizeEvent_receivedMs hitem
              | tail _ he => exact ih hrest e he

theorem normalizeAll_eventIds {r : Readings} {i : ℕ} {items : List JsValue}
    {events : List MonolithEvent} (hids : ∀ item ∈ items, (suppliedId item).isSome)
    (h : normalizeAll r i items = .ok events) :
    events.map (fun e => some e.eventId) = items.map suppliedId := by
  induction items generalizing i events with
  | nil =>
      cases h
      rfl
  | cons item items ih =>
      obtain ⟨id, hid⟩ := Option.isSome_iff_exists.mp (hids item List.mem_cons_self)
      have hids' : ∀ item' ∈ items, (suppliedId item').isSome :=
        fun item' hmem => hids item' (List.mem_cons_of_mem item hmem)
      simp only [normalizeAll] at h
      cases hitem : normalizeEvent (r.timestamp i) (r.randomUUID i) item with
      | error e =>
          rw [hitem] at h
          cases h
      | ok event =>
          rw [hitem] at h
          cases hrest : normalizeAll r (i + 1) items with
          | error e =>
              simp only [hrest] at h
              cases h
          | ok rest =>
              simp only [hrest] at h
              cases h
              rw [List.map_cons, List.map_cons, ih hids' hrest, hid,
                normalizeEvent_eventId hid hitem]

/-- A batch that is let through is the normalised body, of one tenant. -/
theorem readBatch_ok {d : Deployment} {r : Readings} {req : IngestRequest}
    {events : List MonolithEvent} (h : readBatch d r req = .ok events) :
    (∃ body, req.body = .ok body ∧ normalizeAll r 0 (itemsOf body) = .ok events) ∧
      ∃ first rest, events = first :: rest ∧ ∀ e ∈ events, e.tenantId = first.tenantId := by
  unfold readBatch at h
  split at h
  · cases h
  · next body hbody =>
    dsimp only at h
    split at h
    · cases h
    · split at h
      · cases h
      · cases h
      · next first rest hevents =>
          split at h
          · cases h
          · split at h
            · cases h
            · next htenant =>
                split at h
                · cases h
                · cases h
                · cases h
                  refine ⟨⟨body, hbody, hevents⟩, first, rest, rfl, ?_⟩
                  intro e he
                  simp only [ne_eq, List.any_eq_true, decide_eq_true_eq, not_exists, not_and,
                    not_not] at htenant
                  exact htenant e he

def ingestResult (persisted : List PersistResult)
    (revokedSessions : Except String (List JsString)) : IngestResult where
  accepted := persisted.countP (·.inserted)
  duplicates := persisted.countP (!·.inserted)
  eventIds := persisted.map (·.event.eventId)
  revokedSessions := match revokedSessions with
    | .ok ids => ids
    | .error _ => []

/-- The part of `POST` from the ledger on. -/
def Store.ingest (d : Deployment) (r : Readings) (events : List MonolithEvent)
    (tenantId : Identity) (store : Store) : Store × Response :=
  match store.persistEvents d r events tenantId with
  | none => (store, .failed 503 "event collector is temporarily unavailable")
  | some (persisted, store) =>
      let e := store.evaluateSessionCircuitBreaker d.breaker r.groups r.revokedAt
        (persisted.map (·.event))
      (e.1, .created (ingestResult persisted e.2))

def post (d : Deployment) (r : Readings) (req : IngestRequest) (store : Store) :
    Store × Response :=
  match readBatch d r req with
  | .error (status, error) => (store, .failed status error)
  | .ok [] => (store, .failed 422 "invalid event")
  | .ok (first :: rest) => store.ingest d r (first :: rest) first.tenantId

end BlackMonolith.Dashboard
