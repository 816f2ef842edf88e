import BlackMonolith.Dashboard.Ingest
import BlackMonolith.Library.JsonEscapes
import BlackMonolith.Library.Utf16

/-!
# What the table of events can hold

The columns and checks of `monolith.security_events`, and which of the events
that `normalizeEvent` accepts a row can be made of. Text and `jsonb` hold no
U+0000, `jsonb` no unpaired surrogate, and `length` counts code points. How deep a
value may be nested and how long the text search vector of the details is are parameters.
-/
namespace BlackMonolith.Dashboard
open Library

/-! ## Columns -/

/-- A `text` column, into which a string goes as UTF-8. -/
abbrev TextColumn (s : JsString) : Prop := 0 ∉ s.units

/-- A `text` column with `check (length(…) between 1 and 128)`. -/
abbrev IdentityColumn (s : JsString) : Prop :=
  TextColumn s ∧ 1 ≤ s.codePoints ∧ s.codePoints ≤ 128

mutual
/-- The value is written by `JSON.stringify` and read by `jsonb`. -/
def jsonbColumn : JsValue → Bool
  | .null | .bool _ | .number _ => true
  | .string s => s.jsonbAccepts
  | .array items => jsonbItems items
  | .object members => jsonbMembers members

def jsonbItems : List JsValue → Bool
  | [] => true
  | item :: items => jsonbColumn item && jsonbItems items

def jsonbMembers : List (JsString × JsValue) → Bool
  | [] => true
  | (key, value) :: members => key.jsonbAccepts && jsonbColumn value && jsonbMembers members
end

/-- The members of an object. -/
abbrev Details := List (JsString × JsValue)

/-- The parts of the server and the database that bound the details of an event. -/
structure DetailLimits where
  /-- `JSON.stringify` writes the details without overflowing the call stack. -/
  stringifies : Details → Bool
  /-- The parser of `jsonb` takes a text that is nested like the details. -/
  parses : Details → Bool
  /-- The bytes of the lexemes and positions of `to_tsvector('simple', details::text)`. -/
  searchBytes : Details → ℕ

/-- A `jsonb` column. -/
def DetailLimits.jsonbDetails (limits : DetailLimits) (details : Details) : Bool :=
  jsonbMembers details && limits.parses details

/-- A `tsvector` is less than a megabyte long. -/
def maxSearchBytes : ℕ := 2 ^ 20 - 1

/-- `security_events_details_search_idx` has an entry for the details. -/
def DetailLimits.indexes (limits : DetailLimits) (details : Details) : Bool :=
  decide (limits.searchBytes details ≤ maxSearchBytes)

/-- The row has a value of its type in every column and passes every check. -/
structure Storable (limits : DetailLimits) (row : EventRow) : Prop where
  eventId : isUuid row.event.eventId
  schemaVersion : 1 ≤ row.event.schemaVersion ∧ row.event.schemaVersion ≤ 2
  occurredAtMs : 0 < row.event.timestampMs ∧ row.event.timestampMs < 2 ^ 63
  moduleName : TextColumn row.event.moduleName.text ∧
    row.event.moduleName.text ∈
      [.ofString "mcp-shield", .ofString "vector-anchor", .ofString "trace-audit"]
  eventType : TextColumn row.event.eventType
  severity : TextColumn row.event.severity.text ∧
    row.event.severity.text ∈ [.ofString "info", .ofString "warning", .ofString "critical"]
  details : limits.jsonbDetails row.event.details
  tenantId : IdentityColumn row.event.tenantId.text
  agentId : ∀ id ∈ row.event.agentId, IdentityColumn id.text
  sessionId : ∀ id ∈ row.event.sessionId, IdentityColumn id.text
  traceId : ∀ id ∈ row.event.traceId, IdentityColumn id.text
  correlationId : ∀ id ∈ row.event.correlationId, IdentityColumn id.text
  resourceType : ∀ s ∈ row.event.resourceType, TextColumn s
  resourceId : ∀ s ∈ row.event.resourceId, TextColumn s
  outcome : ∀ s ∈ row.event.outcome, TextColumn s
  policyVersion : ∀ s ∈ row.event.policyVersion, TextColumn s
  source : TextColumn row.event.source

instance (limits : DetailLimits) (row : EventRow) : Decidable (Storable limits row) :=
  decidable_of_iff
    (isUuid row.event.eventId ∧
      (1 ≤ row.event.schemaVersion ∧ row.event.schemaVersion ≤ 2) ∧
      (0 < row.event.timestampMs ∧ row.event.timestampMs < 2 ^ 63) ∧
      (TextColumn row.event.moduleName.text ∧ row.event.moduleName.text ∈
        [.ofString "mcp-shield", .ofString "vector-anchor", .ofString "trace-audit"]) ∧
      TextColumn row.event.eventType ∧
      (TextColumn row.event.severity.text ∧
        row.event.severity.text ∈ [.ofString "info", .ofString "warning", .ofString "critical"]) ∧
      limits.jsonbDetails row.event.details ∧
      IdentityColumn row.event.tenantId.text ∧
      (∀ id ∈ row.event.agentId, IdentityColumn id.text) ∧
      (∀ id ∈ row.event.sessionId, IdentityColumn id.text) ∧
      (∀ id ∈ row.event.traceId, IdentityColumn id.text) ∧
      (∀ id ∈ row.event.correlationId, IdentityColumn id.text) ∧
      (∀ s ∈ row.event.resourceType, TextColumn s) ∧
      (∀ s ∈ row.event.resourceId, TextColumn s) ∧
      (∀ s ∈ row.event.outcome, TextColumn s) ∧
      (∀ s ∈ row.event.policyVersion, TextColumn s) ∧
      TextColumn row.event.source)
    ⟨fun ⟨h₁, h₂, h₃, h₄, h₅, h₆, h₇, h₈, h₉, h₁₀, h₁₁, h₁₂, h₁₃, h₁₄, h₁₅, h₁₆, h₁₇⟩ =>
        ⟨h₁, h₂, h₃, h₄, h₅, h₆, h₇, h₈, h₉, h₁₀, h₁₁, h₁₂, h₁₃, h₁₄, h₁₅, h₁₆, h₁₇⟩,
      fun ⟨h₁, h₂, h₃, h₄, h₅, h₆, h₇, h₈, h₉, h₁₀, h₁₁, h₁₂, h₁₃, h₁₄, h₁₅, h₁₆, h₁₇⟩ =>
        ⟨h₁, h₂, h₃, h₄, h₅, h₆, h₇, h₈, h₉, h₁₀, h₁₁, h₁₂, h₁₃, h₁₄, h₁₅, h₁₆, h₁₇⟩⟩

/-- What `monolith.security_events` takes. -/
def securityEvents (limits : DetailLimits) : TableChecks where
  accepts := fun row => limits.stringifies row.event.details && decide (Storable limits row)
  indexes := fun row => limits.indexes row.event.details

/-! ## Reading the strings of the details -/

mutual
/-- Every string in a value, member names included. -/
def allStrings : JsValue → List JsString
  | .null | .bool _ | .number _ => []
  | .string s => [s]
  | .array items => itemStrings items
  | .object members => memberStrings members

def itemStrings : List JsValue → List JsString
  | [] => []
  | item :: items => allStrings item ++ itemStrings items

def memberStrings : List (JsString × JsValue) → List JsString
  | [] => []
  | (key, value) :: members => key :: (allStrings value ++ memberStrings members)
end

mutual
theorem jsonbColumn_iff : (value : JsValue) →
    (jsonbColumn value = true ↔ ∀ s ∈ allStrings value, s.Clean)
  | .null | .bool _ | .number _ => by
      simp only [jsonbColumn, allStrings, List.not_mem_nil, false_implies, implies_true]
  | .string s => by
      simp only [jsonbColumn, allStrings, List.mem_singleton, forall_eq, JsString.jsonbAccepts_iff]
  | .array items => jsonbItems_iff items
  | .object members => jsonbMembers_iff members

theorem jsonbItems_iff : (items : List JsValue) →
    (jsonbItems items = true ↔ ∀ s ∈ itemStrings items, s.Clean)
  | [] => by simp only [jsonbItems, itemStrings, List.not_mem_nil, false_implies, implies_true]
  | item :: items => by
      simp only [jsonbItems, itemStrings, Bool.and_eq_true, jsonbColumn_iff item,
        jsonbItems_iff items, List.forall_mem_append]

theorem jsonbMembers_iff : (members : List (JsString × JsValue)) →
    (jsonbMembers members = true ↔ ∀ s ∈ memberStrings members, s.Clean)
  | [] => by simp only [jsonbMembers, memberStrings, List.not_mem_nil, false_implies, implies_true]
  | (key, value) :: members => by
      simp only [jsonbMembers, memberStrings, Bool.and_eq_true, JsString.jsonbAccepts_iff,
        jsonbColumn_iff value, jsonbMembers_iff members, List.forall_mem_cons,
        List.forall_mem_append, and_assoc]
end

/-- The details of a received value. -/
def detailsOf : JsValue → Details
  | .object value =>
      match JsValue.get value "details" with
      | some (.object details) => details
      | _ => []
  | _ => []

/-- No string in the details, member names included, has U+0000 or an unpaired surrogate,
and they are not nested too deep to be written and read. -/
def Writable (limits : DetailLimits) (details : Details) : Prop :=
  (∀ s ∈ memberStrings details, s.Clean) ∧ limits.stringifies details ∧ limits.parses details

/-! ## The other columns -/

theorem textColumn_toWellFormed {s : JsString} (h : TextColumn s) : TextColumn s.toWellFormed := by
  have hall : s.units.all (· != 0) := by
    rw [List.all_eq_true]
    intro u hu
    rw [bne_iff_ne]
    rintro rfl
    exact h hu
  intro hmem
  have := List.all_eq_true.mp (JsString.all_toWellFormed (by decide) hall) 0 hmem
  revert this
  decide

theorem textColumn_of_printable {s : JsString} (h : s.units.any isControl = false) :
    TextColumn s := by
  intro hmem
  have := List.any_eq_false.mp h 0 hmem
  revert this
  decide

/-- Every identity fits its column. -/
theorem identityColumn (id : Identity) : IdentityColumn id.text := by
  have hprintable : id.text.units.any isControl = false := by
    rw [List.any_eq_false]
    intro u hu
    have := List.all_eq_true.mp id.printable u hu
    rw [Bool.not_eq_true'] at this
    exact Bool.eq_false_iff.mp this
  refine ⟨textColumn_of_printable hprintable, JsString.countCodePoints_pos id.nonempty, ?_⟩
  exact Nat.le_trans (JsString.countCodePoints_le_length id.text.units) id.bounded

theorem optionalText_textColumn {v : Option JsValue} {r : Option JsString}
    (h : optionalText v = .ok r) : ∀ s ∈ r.map JsString.toWellFormed, TextColumn s := by
  have htext : ∀ s ∈ r, TextColumn s := by
    unfold optionalText at h
    split at h
    · cases h
      intro s hs
      cases hs
    · cases h
      intro s hs
      cases hs
    · dsimp only at h
      split at h
      · cases h
      · next hok =>
          cases h
          intro s hs
          cases hs
          simp only [Bool.or_eq_true, not_or, Bool.not_eq_true] at hok
          exact textColumn_of_printable hok.2
    · cases h
  intro s hs
  obtain ⟨t, ht, rfl⟩ := Option.map_eq_some_iff.mp hs
  exact textColumn_toWellFormed (htext t ht)

theorem isHexDigit_lowercase {u : UInt16} (h : isHexDigit u = true) :
    isHexDigit (if 65 ≤ u && u ≤ 90 then u + 32 else u) = true := by
  split_ifs with hupper
  · simp only [isHexDigit, Bool.or_eq_true, Bool.and_eq_true, decide_eq_true_eq,
      UInt16.le_iff_toNat_le, UInt16.toNat_add, UInt16.reduceToNat] at h hupper ⊢
    omega
  · exact h

/-- A `uuid` column takes an id in either case. -/
theorem isUuid_asciiLowercase {s : JsString} (h : isUuid s = true) :
    isUuid s.asciiLowercase = true := by
  simp only [isUuid, Bool.and_eq_true, JsString.asciiLowercase, JsString.length,
    List.length_map] at h ⊢
  refine ⟨h.1, ?_⟩
  rw [List.zipIdx_map, List.all_map, List.all_eq_true]
  intro x hx
  have hunit := List.all_eq_true.mp h.2 x hx
  obtain ⟨u, i⟩ := x
  simp only [Function.comp_apply, Prod.map_apply, id_eq] at hunit ⊢
  by_cases hdash : (i == 8 || i == 13 || i == 18 || i == 23) = true
  · rw [if_pos hdash, beq_iff_eq] at hunit ⊢
    rw [hunit]
    decide
  · rw [if_neg hdash] at hunit ⊢
    simpa only [Bool.and_eq_true] using isHexDigit_lowercase hunit

/-! ## Accepted events -/

section
variable {limits : DetailLimits} {now clock : ℕ} {randomUUID : JsString} {raw : JsValue}
  {e : MonolithEvent}

theorem readTimestamp_bounds {v : Option JsValue} {t : ℕ} (hnow : 0 < now ∧ now < 2 ^ 53)
    (h : readTimestamp now v = .ok t) : 0 < t ∧ t < 2 ^ 63 := by
  unfold readTimestamp at h
  split at h
  · cases h
    exact ⟨hnow.1, Nat.lt_trans hnow.2 (by decide)⟩
  · next n =>
      split at h
      · next hbounds =>
          cases h
          unfold maxEventTimestampMs at hbounds
          omega
      · cases h
  · cases h

theorem readSchemaVersion_bounds {v : Option JsValue} {n : ℕ}
    (h : readSchemaVersion v = .ok n) : 1 ≤ n ∧ n ≤ 2 := by
  unfold readSchemaVersion at h
  split at h
  · cases h
    decide
  · cases h
    decide
  · cases h
    decide
  · cases h

theorem readDetails_eq {value details : Details}
    (h : readDetails (JsValue.get value "details") = .ok details) :
    details = detailsOf (.object value) := by
  show details = match JsValue.get value "details" with
    | some (.object details) => details
    | _ => []
  unfold readDetails at h
  split at h
  · next hget =>
      cases h
      rw [hget]
  · next hget =>
      cases h
      rw [hget]
  · cases h

theorem readEventId_uuid {v : Option JsValue} {id : JsString} (huuid : isUuid randomUUID = true)
    (h : readEventId randomUUID v = .ok id) : isUuid id = true := by
  unfold readEventId at h
  split at h
  · cases h
    exact huuid
  · cases h
    exact huuid
  · split at h
    · next hid =>
        cases h
        exact hid
    · cases h
  · cases h

theorem moduleColumn (m : ModuleName) : TextColumn m.text ∧
    m.text ∈ [.ofString "mcp-shield", .ofString "vector-anchor", .ofString "trace-audit"] := by
  cases m with
  | mcpShield => decide
  | vectorAnchor => decide
  | traceAudit => decide

theorem severityColumn (s : Severity) : TextColumn s.text ∧
    s.text ∈ [.ofString "info", .ofString "warning", .ofString "critical"] := by
  cases s with
  | info => decide
  | warning => decide
  | critical => decide

theorem details_of_normalized (h : normalizeEvent now randomUUID raw = .ok e) :
    e.details = detailsOf raw := by
  obtain ⟨value, rfl, hreads⟩ := normalizeEvent_eq_ok_iff.mp h
  exact readDetails_eq hreads.details

/-- An accepted event makes a row exactly when `jsonb` takes its details. -/
theorem storable_iff (hnow : 0 < now ∧ now < 2 ^ 53) (huuid : isUuid randomUUID = true)
    (h : normalizeEvent now randomUUID raw = .ok e) :
    Storable limits (eventRow clock e) ↔
      (∀ s ∈ memberStrings (detailsOf raw), s.Clean) ∧ limits.parses (detailsOf raw) := by
  rw [← details_of_normalized h, ← jsonbMembers_iff, ← Bool.and_eq_true]
  obtain ⟨value, rfl, hreads⟩ := normalizeEvent_eq_ok_iff.mp h
  constructor
  · exact Storable.details
  · intro hdetails
    obtain ⟨source, hsource, heqSource⟩ := hreads.source
    have hfields := fun (v : Option JsValue) (r : Option JsString) (hv : optionalText v = .ok r) =>
      optionalText_textColumn hv
    have hsourceColumn : TextColumn e.source.toWellFormed := by
      rw [heqSource]
      cases source with
      | none => decide
      | some s => exact hfields _ _ hsource _ rfl
    have hidentity : ∀ field : Option Identity, ∀ id ∈ field.map Identity.toWellFormed,
        IdentityColumn id.text := fun _ id _ => identityColumn id
    exact
      { eventId := isUuid_asciiLowercase (readEventId_uuid huuid hreads.eventId)
        schemaVersion := readSchemaVersion_bounds hreads.schemaVersion
        occurredAtMs := readTimestamp_bounds hnow hreads.timestampMs
        moduleName := moduleColumn e.moduleName
        eventType := hfields _ _ hreads.eventType _ rfl
        severity := severityColumn e.severity
        details := hdetails
        tenantId := identityColumn _
        agentId := hidentity e.agentId
        sessionId := hidentity e.sessionId
        traceId := hidentity e.traceId
        correlationId := hidentity e.correlationId
        resourceType := hfields _ _ hreads.resourceType
        resourceId := hfields _ _ hreads.resourceId
        outcome := hfields _ _ hreads.outcome
        policyVersion := hfields _ _ hreads.policyVersion
        source := hsourceColumn }

/-- A row is checked whether or not its id is held, and indexed only if it is not. -/
theorem insertEventWithClient_isSome_iff {checks : TableChecks} {table : EventTable} :
    (insertEventWithClient checks e.tenantId clock e table).isSome ↔
      checks.accepts (eventRow clock e) = true ∧
        (table.has (eventRow clock e).event.eventId = true ∨
          checks.indexes (eventRow clock e) = true) := by
  have htenant : (eventRow clock e).event.tenantId = e.tenantId.toWellFormed := rfl
  unfold insertEventWithClient
  dsimp only
  rw [htenant]
  cases haccepts : checks.accepts (eventRow clock e) with
  | false =>
      rw [Bool.not_false, Bool.or_true, if_pos rfl]
      exact ⟨fun h => (nomatch h), fun h => (nomatch h.1)⟩
  | true =>
      rw [if_neg (by simp)]
      cases hheld : table.has (eventRow clock e).event.eventId with
      | true => exact ⟨fun _ => ⟨rfl, .inl rfl⟩, fun _ => rfl⟩
      | false =>
          cases hindexes : checks.indexes (eventRow clock e) with
          | true => exact ⟨fun _ => ⟨rfl, .inr rfl⟩, fun _ => rfl⟩
          | false => exact ⟨fun h => (nomatch h), fun h => (nomatch h.2)⟩

theorem securityEvents_accepts_iff (hnow : 0 < now ∧ now < 2 ^ 53)
    (huuid : isUuid randomUUID = true) (h : normalizeEvent now randomUUID raw = .ok e) :
    (securityEvents limits).accepts (eventRow clock e) = true ↔
      Writable limits (detailsOf raw) := by
  have hdetails := details_of_normalized h
  unfold securityEvents Writable
  rw [Bool.and_eq_true, decide_eq_true_eq, storable_iff hnow huuid h, ← hdetails, and_left_comm]
  rfl

/-- An event the validator lets through can be committed exactly when its details can be
written and, unless its id is held already, the search index has an entry for them. -/
theorem accepted_event_committed_iff (limits : DetailLimits) (hnow : 0 < now ∧ now < 2 ^ 53)
    (huuid : isUuid randomUUID = true) (h : normalizeEvent now randomUUID raw = .ok e)
    (clock : ℕ) (table : EventTable) :
    (Storable limits (eventRow clock e) ∧
      (insertEventWithClient (securityEvents limits) e.tenantId clock e table).isSome) ↔
        Writable limits (detailsOf raw) ∧
          (table.has e.eventId.asciiLowercase = true ∨
            limits.indexes (detailsOf raw) = true) := by
  have hdetails := details_of_normalized h
  have hindexes : (securityEvents limits).indexes (eventRow clock e) =
      limits.indexes (detailsOf raw) := congrArg limits.indexes hdetails
  rw [insertEventWithClient_isSome_iff, securityEvents_accepts_iff hnow huuid h, hindexes,
    storable_iff hnow huuid h]
  constructor
  · exact And.right
  · intro hcommits
    exact ⟨⟨hcommits.1.1, hcommits.1.2.2⟩, hcommits⟩

end

/-! An event with plain details, and one whose tool name ends in U+0000. -/

def uuidText : JsString := .ofString "6f1c0f6a-2a1e-4b7d-9c3f-2f6b8d4e1a90"

def mismatchEvent (tool : JsString) : JsValue :=
  .object
    [(.ofString "module", .string (.ofString "mcp-shield")),
      (.ofString "event_type", .string (.ofString "schema_mismatch")),
      (.ofString "details", .object [(.ofString "tool", .string tool)])]

/-- Limits that no small value reaches. -/
def wideLimits : DetailLimits where
  stringifies := fun _ => true
  parses := fun _ => true
  searchBytes := fun details => (memberStrings details).foldl (fun bytes s => bytes + s.length) 0

theorem plain_event_committed : ∃ e,
    normalizeEvent 1 uuidText (mismatchEvent (.ofString "read_file")) = .ok e ∧
      Storable wideLimits (eventRow 1 e) ∧
        (insertEventWithClient (securityEvents wideLimits) e.tenantId 1 e .empty).isSome := by
  have hok : ∃ e, normalizeEvent 1 uuidText (mismatchEvent (.ofString "read_file")) = .ok e := by
    apply exists_ok_of_isSome
    decide
  obtain ⟨e, he⟩ := hok
  exact ⟨e, he, (accepted_event_committed_iff wideLimits (by decide) (by decide) he 1 .empty).mpr
    ⟨⟨by decide, rfl, rfl⟩, .inr (by decide)⟩⟩

theorem nul_event_refused : ∃ e,
    normalizeEvent 1 uuidText (mismatchEvent ⟨[0x72, 0]⟩) = .ok e ∧
      ¬ Storable wideLimits (eventRow 1 e) ∧
        (insertEventWithClient (securityEvents wideLimits) e.tenantId 1 e .empty).isSome =
          false := by
  have hok : ∃ e, normalizeEvent 1 uuidText (mismatchEvent ⟨[0x72, 0]⟩) = .ok e := by
    apply exists_ok_of_isSome
    decide
  obtain ⟨e, he⟩ := hok
  have hunclean : ¬ ∀ s ∈ memberStrings (detailsOf (mismatchEvent ⟨[0x72, 0]⟩)), s.Clean := by
    decide
  refine ⟨e, he, ?_, ?_⟩
  · rw [storable_iff (by decide) (by decide) he]
    exact fun h => hunclean h.1
  · rw [Bool.eq_false_iff, Ne, insertEventWithClient_isSome_iff,
      securityEvents_accepts_iff (by decide) (by decide) he]
    exact fun h => hunclean h.1.1

/-! ## Batches -/

section
variable {r : Readings} {d : Deployment}

theorem normalizeAll_forall₂ {i : ℕ} {items : List JsValue} {events : List MonolithEvent}
    (h : normalizeAll r i items = .ok events) :
    List.Forall₂ (fun item e => ∃ j, normalizeEvent (r.timestamp j) (r.randomUUID j) item = .ok e)
      items events := by
  induction items generalizing i events with
  | nil =>
      cases h
      exact .nil
  | cons item items ih =>
      obtain ⟨event, hevent, h⟩ := bind_eq_ok.mp h
      obtain ⟨rest, hrest, h⟩ := bind_eq_ok.mp h
      cases h
      exact .cons ⟨i, hevent⟩ (ih hrest)

/-- The rows a batch adds to the table. -/
def newRows (clock : ℕ) : List MonolithEvent → EventTable → List EventRow
  | [], _ => []
  | event :: events, table =>
      let row := eventRow clock event
      if table.has row.event.eventId then newRows clock events table
      else row :: newRows clock events (table.set row.event.eventId row)

theorem insertEvents_isSome_iff {checks : TableChecks} {context : Identity} {clock : ℕ}
    {events : List MonolithEvent} (hcontext : ∀ e ∈ events, e.tenantId = context)
    (table : EventTable) :
    (insertEvents checks context clock events table).isSome ↔
      (∀ e ∈ events, checks.accepts (eventRow clock e) = true) ∧
        ∀ row ∈ newRows clock events table, checks.indexes row = true := by
  induction events generalizing table with
  | nil =>
      simp only [insertEvents, newRows, Option.isSome_some, List.not_mem_nil, false_implies,
        implies_true, and_self]
  | cons event events ih =>
      have hrest := ih fun e he => hcontext e (List.mem_cons_of_mem event he)
      have htenant : (eventRow clock event).event.tenantId = context.toWellFormed :=
        congrArg Identity.toWellFormed (hcontext event List.mem_cons_self)
      rw [List.forall_mem_cons, insertEvents, newRows]
      unfold insertEventWithClient
      dsimp only
      rw [htenant]
      cases haccepts : checks.accepts (eventRow clock event) with
      | false =>
          rw [Bool.not_false, Bool.or_true, if_pos rfl]
          exact ⟨fun h => (nomatch h), fun h => (nomatch h.1.1)⟩
      | true =>
          rw [if_neg (by simp)]
          cases hheld : table.has (eventRow clock event).event.eventId with
          | true =>
              rw [if_pos rfl, if_pos rfl, eq_self, true_and, ← hrest table]
              dsimp only
              cases insertEvents checks context clock events table with
              | none => rfl
              | some results => rfl
          | false =>
              rw [if_neg Bool.false_ne_true, if_neg Bool.false_ne_true, List.forall_mem_cons]
              cases hindexes : checks.indexes (eventRow clock event) with
              | false =>
                  rw [Bool.not_false, if_pos rfl]
                  exact ⟨fun h => (nomatch h), fun h => (nomatch h.2.1)⟩
              | true =>
                  rw [Bool.not_true, if_neg Bool.false_ne_true, eq_self, true_and, true_and,
                    ← hrest]
                  dsimp only
                  cases insertEvents checks context clock events
                      (table.set (eventRow clock event).event.eventId (eventRow clock event)) with
                  | none => rfl
                  | some results => rfl

/-- A batch that passed validation and authentication is answered with 201, rather
than 503 at every delivery, exactly when the details of all its events can be written and
the search index has entries for the rows it adds. -/
theorem post_created_iff {req : IngestRequest} {events : List MonolithEvent} {db : Database}
    (limits : DetailLimits) (hchecks : d.checks = securityEvents limits)
    (huuid : ∀ i, isUuid (r.randomUUID i) = true)
    (hnow : ∀ i, 0 < r.timestamp i ∧ r.timestamp i < 2 ^ 53)
    (h : readBatch d r req = .ok events) :
    (post d r req (.postgres db)).2.isCreated ↔
      (∀ body, req.body = .ok body → ∀ item ∈ itemsOf body, Writable limits (detailsOf item)) ∧
        ∀ row ∈ newRows r.transaction events db.events,
          limits.indexes row.event.details = true := by
  obtain ⟨⟨body, hbody, hnormalized⟩, first, rest, rfl, htenant⟩ := readBatch_ok h
  have hpairs := normalizeAll_forall₂ hnormalized
  have hwritable : (∀ e ∈ first :: rest,
      (securityEvents limits).accepts (eventRow r.transaction e) = true) ↔
      ∀ item ∈ itemsOf body, Writable limits (detailsOf item) := by
    constructor
    · intro haccepts item hitem
      obtain ⟨e, he, j, hj⟩ := exists_right_of_forall₂ hpairs hitem
      exact (securityEvents_accepts_iff (hnow j) (huuid j) hj).mp (haccepts e he)
    · intro hwritable e he
      obtain ⟨item, hitem, j, hj⟩ := exists_left_of_forall₂ hpairs he
      exact (securityEvents_accepts_iff (hnow j) (huuid j) hj).mpr (hwritable item hitem)
  have hinserted := @insertEvents_isSome_iff (securityEvents limits) first.tenantId
    r.transaction (first :: rest) htenant db.events
  simp only [hbody, Except.ok.injEq, forall_eq']
  rw [← hwritable]
  refine Iff.trans ?_ hinserted
  simp only [post, h, Store.ingest, Store.persistEvents, hchecks]
  cases insertEvents (securityEvents limits) first.tenantId r.transaction (first :: rest)
      db.events with
  | none => exact Iff.rfl
  | some results => exact ⟨fun _ => rfl, fun _ => rfl⟩

end

end BlackMonolith.Dashboard
