import Mathlib
import BlackMonolith.Library.JavaScript
import BlackMonolith.Library.RowSecurity

/-!
# The row policies of the dashboard

The dashboard's role reads and writes seven tables under row policies, which compare a row with
the tenant, or with the session digest, that the transaction has set. Of the columns of a table
those are named that a policy or a key reads; `rest` is the others. Whatever else a table demands
of a row is a parameter.
-/
namespace BlackMonolith.Dashboard.RowPolicies
open Library Library.RowSecurity

inductive TableName
  | securityEvents
  | incidentTriage
  | incidentAudit
  | benchmarkRuns
  | operatorSessions
  | alertOutbox
  | revokedSessions
deriving DecidableEq

structure SecurityEvent (δ : Type) where
  eventId : String
  tenantId : String
  rest : δ

structure IncidentTriage (δ : Type) where
  eventId : String
  rest : δ

structure IncidentAudit (δ : Type) where
  auditId : ℕ
  eventId : String
  rest : δ

structure BenchmarkRun (δ : Type) where
  runId : String
  module : String
  detector : String
  tenantId : String
  rest : δ

inductive OperatorRole
  | viewer
  | analyst
  | admin
deriving DecidableEq

/-- Times are in milliseconds. -/
structure OperatorSession where
  sessionHash : String
  actor : String
  role : OperatorRole
  tenantId : String
  issuedAt : ℕ
  expiresAt : ℕ
  revokedAt : Option ℕ := none
  lastSeenAt : ℕ
deriving DecidableEq

structure AlertJob (δ : Type) where
  eventId : String
  tenantId : String
  rest : δ

structure RevokedSession (δ : Type) where
  tenantId : String
  agentId : String
  sessionId : String
  rest : δ

abbrev TableRow (δ : Type) : TableName → Type
  | .securityEvents => SecurityEvent δ
  | .incidentTriage => IncidentTriage δ
  | .incidentAudit => IncidentAudit δ
  | .benchmarkRuns => BenchmarkRun δ
  | .operatorSessions => OperatorSession
  | .alertOutbox => AlertJob δ
  | .revokedSessions => RevokedSession δ

/-- The primary keys. -/
def primaryKey {δ : Type} : (i : TableName) → TableRow δ i → List String × ℕ
  | .securityEvents, row => ([row.eventId], 0)
  | .incidentTriage, row => ([row.eventId], 0)
  | .incidentAudit, row => ([], row.auditId)
  | .benchmarkRuns, row => ([row.runId, row.module, row.detector], 0)
  | .operatorSessions, row => ([row.sessionHash], 0)
  | .alertOutbox, row => ([row.eventId], 0)
  | .revokedSessions, row => ([row.tenantId, row.agentId, row.sessionId], 0)

/-! ## The context of a transaction -/

/-- The settings `monolith.tenant_id` and `monolith.session_hash`; one that is not set is the
empty string. -/
structure DatabaseContext where
  tenantId : String := ""
  sessionHash : String := ""
  now : ℕ

def nullif (setting : String) : Option String := if setting = "" then none else some setting

namespace DatabaseContext

def tenantIs (c : DatabaseContext) (tenantId : String) : Bool := nullif c.tenantId = some tenantId

def sessionIs (c : DatabaseContext) (sessionHash : String) : Bool :=
  nullif c.sessionHash = some sessionHash

end DatabaseContext

/-! ## The policies -/

section
variable {δ : Type}

/-- The event a triage or audit row is about is one of the tenant. -/
def eventOfTenant (c : DatabaseContext) (db : Tables (TableRow δ)) (eventId : String) : Bool :=
  (db .securityEvents).any fun e => e.eventId = eventId && c.tenantIs e.tenantId

/-- The policies for `monolith_app`, after all migrations. -/
def policy : (i : TableName) → RowPolicy DatabaseContext (TableRow δ) i
  | .securityEvents =>
      { select := some fun c _ row => c.tenantIs row.tenantId
        insert := some fun c _ row => c.tenantIs row.tenantId }
  | .incidentTriage =>
      { select := some fun c db row => eventOfTenant c db row.eventId
        insert := some fun c db row => eventOfTenant c db row.eventId
        update := some (fun c db row => eventOfTenant c db row.eventId,
          fun c db row => eventOfTenant c db row.eventId) }
  | .incidentAudit =>
      { select := some fun c db row => eventOfTenant c db row.eventId
        insert := some fun c db row => eventOfTenant c db row.eventId }
  | .benchmarkRuns =>
      { select := some fun c _ row => c.tenantIs row.tenantId
        insert := some fun c _ row => c.tenantIs row.tenantId }
  | .operatorSessions =>
      { select := some fun c _ row => c.sessionIs row.sessionHash
        insert := some fun c _ row => c.tenantIs row.tenantId
        update := some (fun c _ row => c.sessionIs row.sessionHash,
          fun c _ row => c.sessionIs row.sessionHash)
        delete := some fun c _ row => c.tenantIs row.tenantId &&
          (row.revokedAt.isSome || row.expiresAt ≤ c.now) }
  | .alertOutbox =>
      { select := some fun c _ row => c.tenantIs row.tenantId
        insert := some fun c _ row => c.tenantIs row.tenantId
        update := some (fun c _ row => c.tenantIs row.tenantId,
          fun c _ row => c.tenantIs row.tenantId)
        delete := some fun c _ row => c.tenantIs row.tenantId }
  | .revokedSessions =>
      { select := some fun c _ row => c.tenantIs row.tenantId
        insert := some fun c _ row => c.tenantIs row.tenantId
        update := some (fun c _ row => c.tenantIs row.tenantId,
          fun c _ row => c.tenantIs row.tenantId)
        delete := some fun c _ row => c.tenantIs row.tenantId }

/-- `demands` are the other constraints of the tables. -/
def schema (demands : (i : TableName) → Tables (TableRow δ) → TableRow δ i → Bool) :
    Schema DatabaseContext (TableRow δ) (List String × ℕ) where
  key := primaryKey
  constraint := demands
  policy := policy

end

/-! ## Transactions -/

inductive Scope
  | tenant (tenantId : String)
  | session (sessionHash : String)
  | pool
deriving DecidableEq

/-- `withTenantDb` and `withSessionDb` check what they set; a query of the pool sets nothing. -/
def Scope.context (now : ℕ) : Scope → Option DatabaseContext
  | .tenant tenantId =>
      if tenantId = "" || 128 < (JsString.ofString tenantId).length then none
      else some { tenantId, now }
  | .session sessionHash =>
      if sessionHash.length = 64 &&
          sessionHash.toList.all (fun ch => ch.isDigit || ('a' ≤ ch && ch ≤ 'f')) then
        some { sessionHash, now }
      else none
  | .pool => some { now }

structure UnitOfWork (δ : Type) where
  scope : Scope
  now : ℕ
  work : Work (TableRow δ) Unit

section
variable {δ : Type} (demands : (i : TableName) → Tables (TableRow δ) → TableRow δ i → Bool)

def UnitOfWork.run (db : Tables (TableRow δ)) (transaction : UnitOfWork δ) :
    Tables (TableRow δ) :=
  match transaction.scope.context transaction.now with
  | none => db
  | some c => (schema demands).transact c db transaction.work

def UnitOfWork.runAll (db : Tables (TableRow δ)) (transactions : List (UnitOfWork δ)) :
    Tables (TableRow δ) :=
  transactions.foldl (UnitOfWork.run demands) db

/-- What the transaction is told, with the tables it is told it from. -/
def UnitOfWork.replies (db : Tables (TableRow δ)) (transaction : UnitOfWork δ) :
    List (Tables (TableRow δ) × Reply (TableRow δ)) :=
  match transaction.scope.context transaction.now with
  | none => []
  | some c => (schema demands).replies c db transaction.work

end

/-! ## Whose a row is -/

section
variable {δ : Type}

/-- A row of a tenant. Whoever holds the token of an operator's session may change its row, so
the sessions with the digests `hashes` are left out. -/
def belongsTo (tenantId : String) (hashes : List String) (events : List (SecurityEvent δ)) :
    (i : TableName) → TableRow δ i → Bool
  | .securityEvents, row => row.tenantId = tenantId
  | .incidentTriage, row => events.any fun e => e.tenantId = tenantId && e.eventId = row.eventId
  | .incidentAudit, row => events.any fun e => e.tenantId = tenantId && e.eventId = row.eventId
  | .benchmarkRuns, row => row.tenantId = tenantId
  | .operatorSessions, row => row.tenantId = tenantId && !hashes.contains row.sessionHash
  | .alertOutbox, row => row.tenantId = tenantId
  | .revokedSessions, row => row.tenantId = tenantId

/-- The rows of a tenant. -/
def rowsOf (tenantId : String) (hashes : List String) (db : Tables (TableRow δ)) :
    Tables (TableRow δ) :=
  fun i => (db i).filter (belongsTo tenantId hashes (db .securityEvents) i)

/-- What a transaction may be told of the tables. -/
def MayBeTold (db : Tables (TableRow δ)) (x : Σ i, TableRow δ i) : Scope → Prop
  | .tenant tenantId => x.1 ≠ .operatorSessions ∧
      belongsTo tenantId [] (db .securityEvents) x.1 x.2 = true
  | .session sessionHash => ∃ row : OperatorSession, x = ⟨.operatorSessions, row⟩ ∧
      row.sessionHash = sessionHash
  | .pool => False

/-! ## What the policies keep apart -/

variable {demands : (i : TableName) → Tables (TableRow δ) → TableRow δ i → Bool}
  {c : DatabaseContext} {db db' : Tables (TableRow δ)} {t : String} {hashes : List String}

theorem nullif_eq_some {setting value : String} (h : nullif setting = some value) :
    setting = value ∧ value ≠ "" := by
  unfold nullif at h
  split_ifs at h with hempty
  cases h
  exact ⟨rfl, hempty⟩

theorem tenantIs_iff {tenantId : String} :
    c.tenantIs tenantId = true ↔ nullif c.tenantId = some tenantId := decide_eq_true_iff

theorem sessionIs_iff {sessionHash : String} :
    c.sessionIs sessionHash = true ↔ nullif c.sessionHash = some sessionHash := decide_eq_true_iff

/-- The context is not the tenant's, and not that of one of its sessions outside the digests. -/
structure Foreign (t : String) (hashes : List String) (c : DatabaseContext) : Prop where
  tenant : c.tenantIs t = false
  session : ∀ sessionHash, c.sessionIs sessionHash = true → sessionHash ∈ hashes

theorem Foreign.ne (h : Foreign t hashes c) {tenantId : String}
    (htenant : c.tenantIs tenantId = true) : decide (tenantId = t) = false := by
  apply decide_eq_false
  rintro rfl
  rw [h.tenant] at htenant
  cases htenant

/-- The tables of a run, as far as a tenant is concerned. -/
structure SameRows (t : String) (hashes : List String) (db db' : Tables (TableRow δ)) : Prop where
  keyed : ((db' .securityEvents).map (primaryKey .securityEvents)).Nodup
  rows : ∀ i, (db' i).filter (belongsTo t hashes (db .securityEvents) i) =
    (db i).filter (belongsTo t hashes (db .securityEvents) i)

theorem SameRows.event_mem (h : SameRows t hashes db db') {e : SecurityEvent δ}
    (he : e ∈ db .securityEvents) (ht : e.tenantId = t) : e ∈ db' .securityEvents := by
  have hmem : e ∈ (db .securityEvents).filter
      (belongsTo t hashes (db .securityEvents) .securityEvents) :=
    List.mem_filter.mpr ⟨he, decide_eq_true ht⟩
  rw [← h.rows .securityEvents] at hmem
  exact (List.mem_filter.mp hmem).1

/-- An event has one tenant. -/
theorem SameRows.event_foreign (h : SameRows t hashes db db') (hforeign : Foreign t hashes c)
    {eventId : String} (hevent : eventOfTenant c db' eventId = true) :
    ((db .securityEvents).any fun e => e.tenantId = t && e.eventId = eventId) = false := by
  rw [List.any_eq_false]
  intro e he heq
  rw [Bool.and_eq_true, decide_eq_true_iff, decide_eq_true_iff] at heq
  obtain ⟨e', he', hheld⟩ := List.any_eq_true.mp hevent
  rw [Bool.and_eq_true, decide_eq_true_iff] at hheld
  have hkey : primaryKey .securityEvents e = primaryKey .securityEvents e' := by
    rw [primaryKey, primaryKey, heq.2, hheld.1]
  have hsame : e = e' :=
    List.inj_on_of_nodup_map h.keyed (h.event_mem he heq.1) he' hkey
  rw [← hsame, heq.1, hforeign.tenant] at hheld
  cases hheld.2

/-- No policy lets a foreign context write a row of the tenant. -/
theorem SameRows.shields (h : SameRows t hashes db db') (hforeign : Foreign t hashes c) :
    (schema demands).Shields c db' (belongsTo t hashes (db .securityEvents)) := by
  have hsession : ∀ row : OperatorSession, c.sessionIs row.sessionHash = true →
      (decide (row.tenantId = t) && !hashes.contains row.sessionHash) = false := by
    intro row hrow
    rw [List.contains_iff_mem.mpr (hforeign.session _ hrow)]
    exact Bool.and_false _
  constructor
  · intro i row hrow
    cases i with
    | securityEvents => exact hforeign.ne hrow
    | incidentTriage => exact h.event_foreign hforeign hrow
    | incidentAudit => exact h.event_foreign hforeign hrow
    | benchmarkRuns => exact hforeign.ne hrow
    | operatorSessions => exact (congrArg (· && _) (hforeign.ne hrow)).trans (Bool.false_and _)
    | alertOutbox => exact hforeign.ne hrow
    | revokedSessions => exact hforeign.ne hrow
  · intro i row hrow
    cases i with
    | securityEvents => cases hrow
    | incidentTriage => exact h.event_foreign hforeign hrow
    | incidentAudit => cases hrow
    | benchmarkRuns => cases hrow
    | operatorSessions => exact hsession row hrow
    | alertOutbox => exact hforeign.ne hrow
    | revokedSessions => exact hforeign.ne hrow
  · intro i row hrow
    cases i with
    | securityEvents => cases hrow
    | incidentTriage => exact h.event_foreign hforeign hrow
    | incidentAudit => cases hrow
    | benchmarkRuns => cases hrow
    | operatorSessions => exact hsession row hrow
    | alertOutbox => exact hforeign.ne hrow
    | revokedSessions => exact hforeign.ne hrow
  · intro i row hrow
    cases i with
    | securityEvents => cases hrow
    | incidentTriage => cases hrow
    | incidentAudit => cases hrow
    | benchmarkRuns => cases hrow
    | operatorSessions =>
        exact (congrArg (· && _) (hforeign.ne ((Bool.and_eq_true _ _).mp hrow).1)).trans
          (Bool.false_and _)
    | alertOutbox => exact hforeign.ne hrow
    | revokedSessions => exact hforeign.ne hrow

theorem SameRows.run (h : SameRows t hashes db db') (hforeign : Foreign t hashes c)
    {s : Statement (TableRow δ)} {db₁ : Tables (TableRow δ)} {reply : Reply (TableRow δ)}
    (hs : (schema demands).run c db' s = .ok (db₁, reply)) : SameRows t hashes db db₁ := by
  refine ⟨?_, fun i => ?_⟩
  · exact Schema.run_keyed (S := schema demands) h.keyed hs
  · rw [Schema.run_shielded (h.shields hforeign) hs i, h.rows i]

theorem context_foreign {scope : Scope} {now : ℕ} (hscope : scope ≠ .tenant t)
    (hhashes : ∀ sessionHash, scope = .session sessionHash → sessionHash ∈ hashes)
    (h : scope.context now = some c) : Foreign t hashes c := by
  unfold Scope.context at h
  split at h
  · next tenantId =>
      split_ifs at h
      cases h
      refine ⟨decide_eq_false fun htenant => hscope ?_, fun sessionHash hsession => ?_⟩
      · exact congrArg Scope.tenant (nullif_eq_some (tenantIs_iff.mp (decide_eq_true htenant))).1
      · cases sessionIs_iff.mp hsession
  · next sessionHash =>
      split_ifs at h
      cases h
      refine ⟨decide_eq_false fun htenant => ?_, fun other hsession => ?_⟩
      · cases htenant
      · rw [← (nullif_eq_some (sessionIs_iff.mp hsession)).1]
        exact hhashes _ rfl
  · cases h
    refine ⟨decide_eq_false fun htenant => ?_, fun other hsession => ?_⟩
    · cases htenant
    · cases sessionIs_iff.mp hsession

theorem SameRows.transaction (h : SameRows t hashes db db') {transaction : UnitOfWork δ}
    (hscope : transaction.scope ≠ .tenant t)
    (hhashes : ∀ sessionHash, transaction.scope = .session sessionHash → sessionHash ∈ hashes) :
    SameRows t hashes db (transaction.run demands db') := by
  unfold UnitOfWork.run
  split
  · exact h
  · next c hc =>
      have hforeign := context_foreign hscope hhashes hc
      exact Schema.transact_invariant (fun _ _ _ _ hsame hs => hsame.run hforeign hs) h

theorem SameRows.runAll (h : SameRows t hashes db db') {transactions : List (UnitOfWork δ)}
    (hscope : ∀ x ∈ transactions, x.scope ≠ .tenant t)
    (hhashes : ∀ x ∈ transactions, ∀ sessionHash, x.scope = .session sessionHash →
      sessionHash ∈ hashes) :
    SameRows t hashes db (UnitOfWork.runAll demands db' transactions) := by
  induction transactions generalizing db' with
  | nil => exact h
  | cons x transactions ih =>
      obtain ⟨hx, hrest⟩ := List.forall_mem_cons.mp hscope
      obtain ⟨hxhashes, hresthashes⟩ := List.forall_mem_cons.mp hhashes
      exact ih (h.transaction hx hxhashes) hrest hresthashes

theorem belongsTo_congr {events events' : List (SecurityEvent δ)}
    (h : events'.filter (fun e => e.tenantId = t) = events.filter (fun e => e.tenantId = t))
    (i : TableName) (row : TableRow δ i) :
    belongsTo t hashes events' i row = belongsTo t hashes events i row := by
  have hany : ∀ eventId : String,
      (events'.any fun e => e.tenantId = t && e.eventId = eventId) =
        events.any fun e => e.tenantId = t && e.eventId = eventId := by
    intro eventId
    rw [← List.any_filter, ← List.any_filter, h]
  cases i with
  | incidentTriage => exact hany _
  | incidentAudit => exact hany _
  | _ => rfl

theorem SameRows.rowsOf_eq (h : SameRows t hashes db db') :
    rowsOf t hashes db' = rowsOf t hashes db := by
  funext i
  unfold rowsOf
  rw [← h.rows i]
  apply List.filter_congr
  intro row _
  exact belongsTo_congr (h.rows .securityEvents) i row

theorem tenantIs_unique {tenantId other : String} (htenant : c.tenantIs tenantId = true)
    (hother : c.tenantIs other = true) : tenantId = other := by
  rw [tenantIs_iff] at htenant hother
  exact Option.some.inj (htenant.symm.trans hother)

/-- Under a tenant's context only its rows can be read. -/
theorem mayRead_tenant (hc : c.tenantIs t = true) (hsession : nullif c.sessionHash = none)
    {i : TableName} {row : TableRow δ i} (h : (schema demands).mayRead c db row = true) :
    i ≠ .operatorSessions ∧ belongsTo t [] (db .securityEvents) i row = true := by
  have hevent : ∀ eventId : String, eventOfTenant c db eventId = true →
      ((db .securityEvents).any fun e => e.tenantId = t && e.eventId = eventId) = true := by
    intro eventId hevent
    obtain ⟨e, he, hheld⟩ := List.any_eq_true.mp hevent
    rw [Bool.and_eq_true] at hheld
    refine List.any_eq_true.mpr ⟨e, he, ?_⟩
    rw [Bool.and_eq_true]
    exact ⟨decide_eq_true (tenantIs_unique hheld.2 hc), hheld.1⟩
  have htenant : ∀ tenantId : String, c.tenantIs tenantId = true →
      decide (tenantId = t) = true :=
    fun tenantId htenant => decide_eq_true (tenantIs_unique htenant hc)
  cases i with
  | securityEvents => exact ⟨by decide, htenant _ h⟩
  | incidentTriage => exact ⟨by decide, hevent _ h⟩
  | incidentAudit => exact ⟨by decide, hevent _ h⟩
  | benchmarkRuns => exact ⟨by decide, htenant _ h⟩
  | operatorSessions =>
      have hread := sessionIs_iff.mp h
      rw [hsession] at hread
      cases hread
  | alertOutbox => exact ⟨by decide, htenant _ h⟩
  | revokedSessions => exact ⟨by decide, htenant _ h⟩

/-- Without a tenant only the row of the session can be read. -/
theorem mayRead_session (hc : nullif c.tenantId = none)
    {i : TableName} {row : TableRow δ i} (h : (schema demands).mayRead c db row = true) :
    ∃ session : OperatorSession, (⟨i, row⟩ : Σ i, TableRow δ i) = ⟨.operatorSessions, session⟩ ∧
      c.sessionIs session.sessionHash = true := by
  have htenant : ∀ tenantId : String, c.tenantIs tenantId = false := by
    intro tenantId
    unfold DatabaseContext.tenantIs
    rw [hc]
    rfl
  have hgoes : ∀ {P : Prop} (tenantId : String), c.tenantIs tenantId = true → P := by
    intro P tenantId htrue
    rw [htenant] at htrue
    cases htrue
  have hevent : ∀ {P : Prop} (eventId : String), eventOfTenant c db eventId = true → P := by
    intro P eventId hheld
    obtain ⟨e, -, he⟩ := List.any_eq_true.mp hheld
    exact hgoes _ ((Bool.and_eq_true _ _).mp he).2
  cases i with
  | securityEvents => exact hgoes _ h
  | incidentTriage => exact hevent _ h
  | incidentAudit => exact hevent _ h
  | benchmarkRuns => exact hgoes _ h
  | operatorSessions => exact ⟨row, rfl, h⟩
  | alertOutbox => exact hgoes _ h
  | revokedSessions => exact hgoes _ h

theorem mayBeTold {transaction : UnitOfWork δ} {entry : Tables (TableRow δ) × Reply (TableRow δ)}
    (hentry : entry ∈ transaction.replies demands db) {x : Σ i, TableRow δ i}
    (hx : x ∈ entry.2.rows) : MayBeTold entry.1 x transaction.scope := by
  unfold UnitOfWork.replies at hentry
  split at hentry
  · cases hentry
  · next c hc =>
      have hread : (schema demands).mayRead c entry.1 x.2 = true :=
        (Schema.replies_readable (fun _ _ _ _ _ _ => trivial) trivial entry hentry).2 x hx
      unfold Scope.context at hc
      cases hscope : transaction.scope with
      | tenant tenantId =>
          rw [hscope] at hc
          dsimp only at hc
          split_ifs at hc with hvalid
          cases hc
          rw [Bool.or_eq_true, not_or] at hvalid
          apply mayRead_tenant _ rfl hread
          rw [tenantIs_iff, nullif, if_neg (fun hempty => hvalid.1 (decide_eq_true hempty))]
      | session sessionHash =>
          rw [hscope] at hc
          dsimp only at hc
          split_ifs at hc
          cases hc
          obtain ⟨session, hsession, hhash⟩ := mayRead_session rfl hread
          exact ⟨session, hsession, (nullif_eq_some (sessionIs_iff.mp hhash)).1.symm⟩
      | pool =>
          rw [hscope] at hc
          cases hc
          obtain ⟨session, -, hhash⟩ := mayRead_session rfl hread
          cases sessionIs_iff.mp hhash

/-- The session digests that transactions set. -/
def sessionHashes (transactions : List (UnitOfWork δ)) : List String :=
  transactions.filterMap fun transaction => match transaction.scope with
    | .session sessionHash => some sessionHash
    | _ => none

/-- Whatever statements transactions make and in whatever order they run: the rows of a tenant
that is not theirs stay as they are, except for operators' sessions whose digest one of them has
set; and what a transaction is told are rows of its tenant, or the session with its digest. -/
theorem tenants_apart (hkeyed : ((db .securityEvents).map (primaryKey .securityEvents)).Nodup)
    {transactions : List (UnitOfWork δ)} (hscope : ∀ x ∈ transactions, x.scope ≠ .tenant t) :
    rowsOf t (sessionHashes transactions) (UnitOfWork.runAll demands db transactions) =
        rowsOf t (sessionHashes transactions) db ∧
      ∀ x ∈ transactions, ∀ (tables : Tables (TableRow δ)),
        ∀ entry ∈ x.replies demands tables, ∀ row ∈ entry.2.rows,
          MayBeTold entry.1 row x.scope := by
  have hsame : SameRows t (sessionHashes transactions) db db := ⟨hkeyed, fun _ => rfl⟩
  refine ⟨(hsame.runAll hscope ?_).rowsOf_eq, fun x _ tables entry hentry row hrow =>
    mayBeTold hentry hrow⟩
  intro x hx sessionHash hsession
  refine List.mem_filterMap.mpr ⟨x, hx, ?_⟩
  rw [hsession]

/-- A detection and a revoked session of the tenant `a`. -/
def detectionOfA : Tables (TableRow Unit)
  | .securityEvents => [⟨"1", "a", ()⟩]
  | .incidentTriage => [⟨"1", ()⟩]
  | .revokedSessions => [⟨"a", "agent", "session", ()⟩]
  | _ => []

/-- The tenant `b` tries to lift every revocation and to take the triage rows over. -/
def hostile : UnitOfWork Unit where
  scope := .tenant "b"
  now := 0
  work :=
    .statement (.delete .revokedSessions (fun _ _ => true) true) fun _ =>
    .statement (.insert .securityEvents (fun _ => [⟨"2", "b", ()⟩]) .refuse false) fun _ =>
    .statement (.update .incidentTriage (fun _ _ => true) (fun _ _ => ⟨"2", ()⟩) true) fun _ =>
    .done ()

theorem tenants_apart_hostile :
    let demands := fun _ _ _ => true
    rowsOf "a" [] (UnitOfWork.runAll demands detectionOfA [hostile]) = rowsOf "a" [] detectionOfA ∧
      (UnitOfWork.runAll demands detectionOfA [hostile] .securityEvents).length = 2 := by
  have hkeyed : ((detectionOfA .securityEvents).map (primaryKey .securityEvents)).Nodup :=
    List.nodup_singleton _
  have hscope : ∀ x ∈ [hostile], x.scope ≠ .tenant "a" :=
    List.forall_mem_singleton.mpr (by decide)
  exact ⟨(tenants_apart hkeyed hscope).1, by decide +kernel⟩

end

end BlackMonolith.Dashboard.RowPolicies
