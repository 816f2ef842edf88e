import BlackMonolith.Library.Paths
import BlackMonolith.Dashboard.Revocations
import BlackMonolith.Dashboard.Ingest

/-!
# The circuit breaker over runs

The rule: a session is revoked when its events of qualifying severity received
after its last restore come from enough distinct modules. The database applies
it in every run. The in-memory store does so while its maps stay within their
bound, no restore is asked for a session that is not revoked, and no event is
evaluated again that its session's last restore has settled.
-/
namespace BlackMonolith.Dashboard
open Library

/-! ## The rule -/

/-- The modules of the unsettled evidence of a session in a ledger, whose events
are paired with the time they were received. -/
def evidence (breaker : CircuitBreaker) (ledger : List (MonolithEvent × ℕ))
    (session : Identity × Identity) (restored : Option ℕ) : List ModuleName :=
  (ledger.filter fun p =>
    p.1.session = some session && breaker.qualifies p.1 && restored.all (· < p.2)).map
      (·.1.moduleName)

/-- Enough distinct modules. -/
def Unsettled (breaker : CircuitBreaker) (ledger : List (MonolithEvent × ℕ))
    (session : Identity × Identity) (restored : Option ℕ) : Prop :=
  breaker.minLayers ≤ (evidence breaker ledger session restored).toFinset.card

instance (breaker : CircuitBreaker) (ledger : List (MonolithEvent × ℕ))
    (session : Identity × Identity) (restored : Option ℕ) :
    Decidable (Unsettled breaker ledger session restored) :=
  inferInstanceAs (Decidable (_ ≤ _))

theorem mem_evidence {breaker : CircuitBreaker} {ledger : List (MonolithEvent × ℕ)}
    {session : Identity × Identity} {restored : Option ℕ} {m : ModuleName} :
    m ∈ evidence breaker ledger session restored ↔
      ∃ p ∈ ledger, p.1.session = some session ∧ breaker.qualifies p.1 ∧
        restored.all (· < p.2) ∧ p.1.moduleName = m := by
  simp only [evidence, List.mem_map, List.mem_filter, Bool.and_eq_true, decide_eq_true_eq,
    and_assoc]

/-! ## What the rule reads of a store -/

def receivedAt (e : MonolithEvent) : ℕ := e.receivedMs.getD e.timestampMs

def MemoryStore.record (s : MemoryStore) (t : Identity) : List (MonolithEvent × ℕ) :=
  (s.ledger t).map fun e => (e, receivedAt e)

def Database.record (db : Database) (t : Identity) : List (MonolithEvent × ℕ) :=
  (db.events.values.filter (·.event.tenantId = t.toWellFormed)).map fun row =>
    (row.event, row.receivedAt)

def Store.record (t : Identity) : Store → List (MonolithEvent × ℕ)
  | .memory s => s.record t
  | .postgres db => db.record t

/-- A session as the store writes it. -/
def Store.session (c : Identity × Identity) : Store → Identity × Identity
  | .memory _ => c
  | .postgres _ => (c.1.toWellFormed, c.2.toWellFormed)

def Store.isRevoked (t : Identity) (c : Identity × Identity) : Store → Bool
  | .memory s => s.revoked.has (sessionKey t c.1 c.2)
  | .postgres db => db.isActive (rowKey t c.1 c.2)

def Store.revoke (t a se : Identity) (reason trigger : JsString) (layers : List ModuleName)
    (now : ℕ) : Store → Store
  | .memory s => .memory (s.revoke t a se reason trigger layers now)
  | .postgres db => .postgres (db.revokeSession t a se reason trigger layers now)

/-- The flag says whether an active revocation was lifted. -/
def Store.restore (t a se : Identity) (now : ℕ) : Store → Store × Bool
  | .memory s => ((.memory (s.restore t a se now).1), (s.restore t a se now).2)
  | .postgres db => ((.postgres (db.restore t a se now).1), (db.restore t a se now).2)

/-! ## Runs of one tenant -/

inductive BreakerAction
  | ingest (r : Readings) (req : IngestRequest)
  | revoke (a se : Identity) (reason trigger : JsString) (layers : List ModuleName) (now : ℕ)
  | restore (a se : Identity) (now : ℕ)

/-- A store with the time of the last restore of each session. -/
structure BreakerRun where
  store : Store
  lastRestore : Identity × Identity → Option ℕ

def BreakerRun.init (useDatabase : Bool) : BreakerRun :=
  ⟨if useDatabase then .postgres .init else .memory .init, fun _ => none⟩

/-- An ingest of another tenant is not a step of this run. -/
def breakerStep (d : Deployment) (t : Identity) (run : BreakerRun) :
    BreakerAction → Option BreakerRun
  | .ingest r req =>
      match readBatch d r req with
      | .error _ => some run
      | .ok events =>
          if events.all (·.tenantId = t) then some { run with store := (post d r req run.store).1 }
          else none
  | .revoke a se reason trigger layers now =>
      match revocationTexts reason trigger with
      | .error _ => some run
      | .ok texts =>
          some { run with store := run.store.revoke t a se texts.1 texts.2 layers now }
  | .restore a se now =>
      let r := run.store.restore t a se now
      some
        { store := r.1
          lastRestore :=
            if r.2 then Function.update run.lastRestore (run.store.session (a, se)) (some now)
            else run.lastRestore }

/-! ## The guard of the in-memory store -/

/-- `events` are those of a batch as the ledger of `s` holds them. No one of
them is settled evidence of a session in good standing, and the maps stay
within their bound. -/
structure FreshEvidence (breaker : CircuitBreaker) (t : Identity)
    (lastRestore : Identity × Identity → Option ℕ) (s : MemoryStore)
    (events : List MonolithEvent) : Prop where
  unsettled : ∀ e ∈ events, breaker.qualifies e → ∀ c, e.session = some c →
    s.revoked.has (sessionKey t c.1 c.2) = false → (lastRestore c).all (· < receivedAt e)
  modules : (s.modules.keys ++ evidenceKeys breaker t events).toFinset.card ≤ maxMemorySessions
  revoked : (s.revoked.keys ++ ((sessionsOf events).filter fun c =>
    Unsettled breaker (s.record t) c (lastRestore c)).map fun c =>
      sessionKey t c.1 c.2).toFinset.card ≤ maxMemorySessions

def breakerGuard (d : Deployment) (t : Identity) (run : BreakerRun) (action : BreakerAction) :
    Prop :=
  match run.store, action with
  | .postgres _, _ => True
  | .memory s, .ingest r req => ∀ events, readBatch d r req = .ok events →
      FreshEvidence d.breaker t run.lastRestore (s.store r events).2 (s.store r events).1
  | .memory s, .revoke a se _ _ _ _ =>
      (s.revoked.keys ++ [sessionKey t a se]).toFinset.card ≤ maxMemorySessions
  | .memory s, .restore a se _ => s.revoked.has (sessionKey t a se)

/-! ## The in-memory store -/

section
variable {d : Deployment} {breaker : CircuitBreaker} {t : Identity}
  {last : Identity × Identity → Option ℕ} {s : MemoryStore}

theorem mem_record {p : MonolithEvent × ℕ} :
    p ∈ s.record t ↔ ∃ id, s.events.get? id = some p.1 ∧ p.1.tenantId = t ∧ p.2 = receivedAt p.1 := by
  simp only [MemoryStore.record, MemoryStore.ledger, List.mem_map, List.mem_filter,
    InsertionMap.mem_values_iff, decide_eq_true_eq]
  constructor
  · rintro ⟨e, ⟨⟨id, hid⟩, ht⟩, rfl⟩
    exact ⟨id, hid, ht, rfl⟩
  · rintro ⟨id, hid, ht, hr⟩
    exact ⟨p.1, ⟨⟨id, hid⟩, ht⟩, Prod.ext rfl hr.symm⟩

/-- The maps of the store agree with the ledger and the restores, wherever no
revocation is active. -/
structure MemoryStore.Settled (breaker : CircuitBreaker) (t : Identity)
    (last : Identity × Identity → Option ℕ) (s : MemoryStore) : Prop where
  tenant : ∀ id e, s.events.get? id = some e → e.tenantId = t
  received : ∀ id e, s.events.get? id = some e → 0 < receivedAt e
  watermark : ∀ c : Identity × Identity, s.revoked.has (sessionKey t c.1 c.2) = false →
    s.restoredAt.get? (sessionKey t c.1 c.2) = last c
  modules : ∀ c : Identity × Identity, s.revoked.has (sessionKey t c.1 c.2) = false →
    ∀ m ∈ (s.modules.get? (sessionKey t c.1 c.2)).getD [],
      m ∈ evidence breaker (s.record t) c (last c)
  bounded : s.modules.size ≤ maxMemorySessions

/-- Where no revocation is active, the code counts the evidence. -/
theorem MemoryStore.Settled.trips_iff (h : s.Settled breaker t last) {c : Identity × Identity}
    (hc : s.revoked.has (sessionKey t c.1 c.2) = false) :
    s.Trips breaker t c ↔ Unsettled breaker (s.record t) c (last c) := by
  have hsame : (s.sessionModules breaker t c.1 c.2).toFinset =
      (evidence breaker (s.record t) c (last c)).toFinset := by
    ext m
    simp only [List.mem_toFinset, MemoryStore.sessionModules, List.mem_append]
    rw [h.watermark c hc]
    constructor
    · rintro (hm | hm)
      · exact h.modules c hc m hm
      · simp only [List.mem_map, List.mem_filter, Bool.and_eq_true, decide_eq_true_eq] at hm
        obtain ⟨e, ⟨hledger, ⟨hsession, hq⟩, hlate⟩, hm⟩ := hm
        refine mem_evidence.mpr ⟨(e, receivedAt e), ?_, hsession, hq, ?_, hm⟩
        · exact List.mem_map.mpr ⟨e, hledger, rfl⟩
        · cases hlast : last c with
          | none => rfl
          | some restored =>
              rw [hlast] at hlate
              exact decide_eq_true hlate
    · intro hm
      obtain ⟨p, hp, hsession, hq, hlate, hname⟩ := mem_evidence.mp hm
      obtain ⟨id, hid, htenant, hreceived⟩ := mem_record.mp hp
      refine Or.inr (List.mem_map.mpr ⟨p.1, ?_, hname⟩)
      have hledger : p.1 ∈ s.ledger t := List.mem_filter.mpr
        ⟨InsertionMap.mem_values_iff.mpr ⟨id, hid⟩, decide_eq_true htenant⟩
      refine List.mem_filter.mpr ⟨hledger, ?_⟩
      simp only [Bool.and_eq_true, decide_eq_true_eq]
      refine ⟨⟨hsession, hq⟩, ?_⟩
      have hpos := h.received id p.1 hid
      cases hlast : last c with
      | none => exact hpos
      | some restored =>
          rw [hlast] at hlate
          simp only [Option.all_some, decide_eq_true_eq] at hlate
          rw [hreceived] at hlate
          exact hlate
  unfold MemoryStore.Trips Unsettled
  rw [sortedLayers_length, hsame]

/-- A ledger that only grows keeps the store settled. -/
theorem MemoryStore.Settled.grow (h : s.Settled breaker t last) {events : MemoryEvents}
    (hgrow : ∀ id e, s.events.get? id = some e → events.get? id = some e)
    (htenant : ∀ id e, events.get? id = some e → e.tenantId = t)
    (hreceived : ∀ id e, events.get? id = some e → 0 < receivedAt e) :
    { s with events }.Settled breaker t last := by
  refine ⟨htenant, hreceived, h.watermark, ?_, h.bounded⟩
  intro c hc m hm
  obtain ⟨p, hp, hrest⟩ := mem_evidence.mp (h.modules c hc m hm)
  obtain ⟨id, hid, hp'⟩ := mem_record.mp hp
  exact mem_evidence.mpr ⟨p, mem_record.mpr ⟨id, hgrow id p.1 hid, hp'⟩, hrest⟩

theorem MemoryStore.Settled.store (h : s.Settled breaker t last) {r : Readings}
    {events : List MonolithEvent} (htenant : ∀ e ∈ events, e.tenantId = t)
    (hnew : ∀ e ∈ events, e.receivedMs = none) :
    (s.store r events).2.Settled breaker t last := by
  unfold MemoryStore.store
  refine h.grow ?_ ?_ ?_
  · exact fun id e he => persistInMemory_get? he
  · intro id e he
    rcases persistInMemory_origin he with hold | ⟨event, hmem, j, -, rfl⟩
    · exact h.tenant id e hold
    · exact htenant event hmem
  · intro id e he
    rcases persistInMemory_origin he with hold | ⟨event, hmem, j, -, rfl⟩
    · exact h.received id e hold
    · simp only [receivedAt, MonolithEvent.stamp, hnew event hmem, Option.getD_some,
        Option.getD_none]
      exact r.received_pos j

theorem record_congr {s s' : MemoryStore} (h : s'.events = s.events) : s'.record t = s.record t := by
  unfold MemoryStore.record MemoryStore.ledger
  rw [h]

/-- Adding the modules of a batch that the ledger holds keeps the store settled. -/
theorem MemoryStore.Settled.addModules (h : s.Settled breaker t last) {events : List MonolithEvent}
    (hstored : ∀ e ∈ events, ∃ id, s.events.get? id = some e)
    (hf : FreshEvidence breaker t last s events) :
    (s.addModules breaker t events).Settled breaker t last := by
  obtain ⟨hevents, hrevoked, hrestored, hkeys, hmodules⟩ :=
    MemoryStore.addModules_spec breaker t events s
  have hbounded : (s.addModules breaker t events).modules.size ≤ maxMemorySessions :=
    (InsertionMap.size_le_card fun k hk => List.mem_toFinset.mpr (hkeys k hk)).trans hf.modules
  refine ⟨hevents ▸ h.tenant, hevents ▸ h.received, ?_, ?_, hbounded⟩
  · rw [hrevoked, hrestored]
    exact h.watermark
  · intro c hc m hm
    rw [hrevoked] at hc
    rw [record_congr hevents]
    rcases hmodules _ m hm with hold | ⟨e, he, hq, hname, c', hsession, hkey⟩
    · exact h.modules c hc m hold
    · have hsame : c = c' := by
        obtain ⟨-, h₁, h₂⟩ := sessionKey_inj.mp hkey
        exact Prod.ext h₁ h₂
      subst hsame
      obtain ⟨id, hid⟩ := hstored e he
      refine mem_evidence.mpr ⟨(e, receivedAt e), ?_, hsession, hq, ?_, hname⟩
      · exact mem_record.mpr ⟨id, hid, h.tenant id e hid, rfl⟩
      · exact hf.unsettled e he hq c hsession hc

/-- Revoking keeps the store settled. -/
theorem MemoryStore.Settled.revokedOnly (h : s.Settled breaker t last) {s' : MemoryStore}
    {hit : JsString → Prop} (hs' : s.RevokedOnly s' hit) : s'.Settled breaker t last := by
  have hbefore : ∀ k, s'.revoked.has k = false → s.revoked.has k = false := fun k hk =>
    Bool.eq_false_iff.mpr fun hold => Bool.eq_false_iff.mp hk ((hs'.revoked k).mpr (Or.inl hold))
  refine ⟨hs'.events ▸ h.tenant, hs'.events ▸ h.received, ?_, ?_, hs'.modules ▸ h.bounded⟩
  · intro c hc
    rw [hs'.restoredAt _ hc]
    exact h.watermark c (hbefore _ hc)
  · intro c hc
    rw [hs'.modules, record_congr hs'.events]
    exact h.modules c (hbefore _ hc)

/-- The evaluation of a batch follows the rule. -/
theorem MemoryStore.Settled.evaluate (h : s.Settled breaker t last) {revokedAt : ℕ → ℕ}
    {events : List MonolithEvent} (hne : events ≠ [])
    (hstored : ∀ e ∈ events, ∃ id, s.events.get? id = some e)
    (hf : FreshEvidence breaker t last s events) :
    ∃ s' ids, s.evaluateSessionCircuitBreaker breaker revokedAt events = (s', .ok ids) ∧
      s'.Settled breaker t last ∧ s'.events = s.events ∧
        ∀ c : Identity × Identity, s'.revoked.has (sessionKey t c.1 c.2) ↔
          s.revoked.has (sessionKey t c.1 c.2) ∨
            c ∈ sessionsOf events ∧ Unsettled breaker (s.record t) c (last c) := by
  cases events with
  | nil => exact absurd rfl hne
  | cons first rest =>
      have htenant : first.tenantId = t := by
        obtain ⟨id, hid⟩ := hstored first List.mem_cons_self
        exact h.tenant id first hid
      obtain ⟨hevents, hrevoked, -⟩ := MemoryStore.addModules_spec breaker t (first :: rest) s
      have hsettled := h.addModules hstored hf
      have hrevokedKeys : ∀ k ∈ (s.addModules breaker t (first :: rest)).revoked.keys,
          k ∈ (s.revoked.keys ++ ((sessionsOf (first :: rest)).filter fun c =>
            Unsettled breaker (s.record t) c (last c)).map fun c =>
              sessionKey t c.1 c.2).toFinset := by
        rw [hrevoked]
        exact fun k hk => List.mem_toFinset.mpr (List.mem_append_left _ hk)
      have hbound : (s.addModules breaker t (first :: rest)).enforceSessionBound =
          s.addModules breaker t (first :: rest) :=
        MemoryStore.enforceSessionBound_of_le
          ((InsertionMap.size_le_card hrevokedKeys).trans hf.revoked) hsettled.bounded
      have hunfold : s.evaluateSessionCircuitBreaker breaker revokedAt (first :: rest) =
          let r := (s.addModules breaker t (first :: rest)).evaluateSessions breaker t revokedAt 0
            (sessionsOf (first :: rest))
          (r.1, r.2.map fun _ => revokedSessionIds (r.1.listRevokedSessions t)) := by
        simp only [MemoryStore.evaluateSessionCircuitBreaker, htenant, hbound]
      generalize s.addModules breaker t (first :: rest) = s₁ at *
      have hrest : ∀ c ∈ sessionsOf (first :: rest), s₁.Trips breaker t c →
          sessionKey t c.1 c.2 ∈ (s.revoked.keys ++ ((sessionsOf (first :: rest)).filter fun c =>
            Unsettled breaker (s.record t) c (last c)).map fun c =>
              sessionKey t c.1 c.2).toFinset := by
        intro c hc htrip
        cases hhas : s₁.revoked.has (sessionKey t c.1 c.2) with
        | true => exact hrevokedKeys _ (InsertionMap.has_iff.mp hhas)
        | false =>
            have hrule := (hsettled.trips_iff hhas).mp htrip
            rw [record_congr hevents] at hrule
            refine List.mem_toFinset.mpr (List.mem_append_right _ (List.mem_map.mpr ⟨c, ?_, rfl⟩))
            exact List.mem_filter.mpr ⟨hc, decide_eq_true hrule⟩
      obtain ⟨s', heval, hs'⟩ := @MemoryStore.evaluateSessions_spec breaker t revokedAt _ _ 0 _
        ⟨hsettled.bounded, hf.revoked, hrevokedKeys, hrest⟩
      refine ⟨s', revokedSessionIds (s'.listRevokedSessions t), ?_, hsettled.revokedOnly hs',
        hs'.events.trans hevents, ?_⟩
      · rw [hunfold, heval]
        rfl
      · intro c
        rw [hs'.revoked, hrevoked]
        constructor
        · rintro (hold | ⟨c', hc', hkey, htrip⟩)
          · exact Or.inl hold
          · obtain ⟨-, h₁, h₂⟩ := sessionKey_inj.mp hkey
            have hsame : c = c' := Prod.ext h₁ h₂
            subst hsame
            cases hhas : s₁.revoked.has (sessionKey t c.1 c.2) with
            | true => exact Or.inl (hrevoked ▸ hhas)
            | false =>
                exact Or.inr ⟨hc', record_congr hevents ▸ (hsettled.trips_iff hhas).mp htrip⟩
        · rintro (hold | ⟨hc, hrule⟩)
          · exact Or.inl hold
          · cases hhas : s₁.revoked.has (sessionKey t c.1 c.2) with
            | true => exact Or.inl (hrevoked ▸ hhas)
            | false =>
                refine Or.inr ⟨c, hc, rfl, (hsettled.trips_iff hhas).mpr ?_⟩
                exact (record_congr hevents).symm ▸ hrule

end

/-! ## The database -/

section
variable {breaker : CircuitBreaker} {t : Identity} {last : Identity × Identity → Option ℕ}
  {db : Database}

def storedSession (c : Identity × Identity) : Identity × Identity :=
  (c.1.toWellFormed, c.2.toWellFormed)

/-- The restore times of the rows are those of the last restores, wherever no
revocation is active. -/
def Database.Settled (t : Identity) (last : Identity × Identity → Option ℕ) (db : Database) :
    Prop :=
  ∀ c : Identity × Identity, db.isActive (rowKey t c.1 c.2) = false →
    (db.revokedSessions.get? (rowKey t c.1 c.2)).bind (·.restoredAt) = last (storedSession c)

/-- Where no revocation is active, the query counts the evidence. -/
theorem Database.Settled.layers (h : db.Settled t last) {c : Identity × Identity}
    (hc : db.isActive (rowKey t c.1 c.2) = false) :
    (sortedLayers (db.sessionModules breaker t.toWellFormed c.1.toWellFormed
      c.2.toWellFormed)).length =
        (evidence breaker (db.record t) (storedSession c) (last (storedSession c))).toFinset.card := by
  rw [sortedLayers_length]
  congr 1
  ext m
  have hwatermark := h c hc
  unfold rowKey at hwatermark
  rw [List.mem_toFinset, List.mem_toFinset, mem_evidence]
  simp only [Database.sessionModules, hwatermark, Database.record, storedSession, List.mem_map,
    List.mem_filter, Bool.and_eq_true, decide_eq_true_eq]
  constructor
  · rintro ⟨row, ⟨hrow, ⟨⟨hsession, htenant⟩, hq⟩, hlate⟩, hname⟩
    exact ⟨_, ⟨row, ⟨hrow, htenant⟩, rfl⟩, hsession, hq, hlate, hname⟩
  · rintro ⟨_, ⟨row, ⟨hrow, htenant⟩, rfl⟩, hsession, hq, hlate, hname⟩
    exact ⟨row, ⟨hrow, ⟨⟨hsession, htenant⟩, hq⟩, hlate⟩, hname⟩

theorem Database.Settled.revokedOnly (h : db.Settled t last) {db' : Database}
    {hit : Identity × Identity × Identity → Prop} (hdb : db.RevokedOnly db' hit) :
    db'.Settled t last := by
  intro c hc
  rw [hdb.rows _ hc]
  refine h c (Bool.eq_false_iff.mpr fun hold => ?_)
  exact Bool.eq_false_iff.mp hc ((hdb.revoked _).mpr (Or.inl hold))

/-- The groups of the query, by session. -/
theorem Database.mem_layerRows {groups : GroupOrder} {candidates : List (Identity × Identity)}
    {row : (Identity × Identity) × List ModuleName} :
    row ∈ db.layerRows breaker groups t candidates ↔ ∃ c ∈ candidates,
      row = (storedSession c, sortedLayers (db.sessionModules breaker t.toWellFormed
        c.1.toWellFormed c.2.toWellFormed)) ∧ row.2 ≠ [] := by
  simp only [Database.layerRows, (groups.perm _).mem_iff, List.mem_filter, List.mem_map,
    List.mem_eraseDups, Bool.not_eq_true', List.isEmpty_eq_false_iff]
  constructor
  · rintro ⟨⟨_, ⟨c, hc, rfl⟩, rfl⟩, hne⟩
    exact ⟨c, hc, rfl, hne⟩
  · rintro ⟨c, hc, rfl, hne⟩
    exact ⟨⟨_, ⟨c, hc, rfl⟩, rfl⟩, hne⟩

/-- The evaluation of a batch follows the rule. -/
theorem Database.Settled.evaluate (h : db.Settled t last) {groups : GroupOrder}
    {revokedAt : ℕ → ℕ} {events : List MonolithEvent} (hne : events ≠ [])
    (htenant : ∀ e ∈ events, e.tenantId.toWellFormed = t.toWellFormed) :
    ∃ db' ids, db.evaluateSessionCircuitBreaker breaker groups revokedAt events =
        (db', .ok ids) ∧
      db'.Settled t last ∧ db'.events = db.events ∧
        ∀ c ∈ sessionsOf events, db'.isActive (rowKey t c.1 c.2) ↔
          db.isActive (rowKey t c.1 c.2) ∨
            Unsettled breaker (db.record t) (storedSession c) (last (storedSession c)) := by
  cases events with
  | nil => exact absurd rfl hne
  | cons first rest =>
      have hfirst := htenant first List.mem_cons_self
      have hrows : ∀ row ∈ db.layerRows breaker groups first.tenantId (sessionsOf (first :: rest)),
          ∃ modules, row.2 = sortedLayers modules := by
        intro row hrow
        obtain ⟨c, -, rfl, -⟩ := Database.mem_layerRows.mp hrow
        exact ⟨_, rfl⟩
      obtain ⟨db', heval, hdb'⟩ := @Database.revokeRows_spec breaker first.tenantId revokedAt _ hrows
        0 db
      refine ⟨db', revokedSessionIds (db'.listRevokedSessions first.tenantId), ?_,
        h.revokedOnly hdb', hdb'.events, ?_⟩
      · simp only [Database.evaluateSessionCircuitBreaker, heval]
        rfl
      · intro c hc
        rw [hdb'.revoked]
        cases hactive : db.isActive (rowKey t c.1 c.2) with
        | true => simp
        | false =>
            simp only [Bool.false_eq_true, false_or]
            unfold Unsettled
            rw [← h.layers hactive]
            constructor
            · rintro ⟨row, hrow, hkey, hlayers⟩
              obtain ⟨c', -, rfl, -⟩ := Database.mem_layerRows.mp hrow
              have hsame : storedSession c = storedSession c' := by
                have hpair := congrArg Prod.snd hkey
                simpa only [rowKey, storedSession, Identity.toWellFormed_toWellFormed] using hpair
              have h₁ : c.1.toWellFormed = c'.1.toWellFormed := congrArg Prod.fst hsame
              have h₂ : c.2.toWellFormed = c'.2.toWellFormed := congrArg Prod.snd hsame
              rw [h₁, h₂, ← hfirst]
              exact hlayers
            · intro hlayers
              rw [← hfirst] at hlayers
              refine ⟨_, Database.mem_layerRows.mpr ⟨c, hc, rfl, ?_⟩, ?_, hlayers⟩
              · intro hnil
                have hpos := breaker.pos
                dsimp only at hnil
                rw [hnil, List.length_nil] at hlayers
                omega
              · simp only [rowKey, storedSession, Identity.toWellFormed_toWellFormed, hfirst]

theorem insertEvents_tenant {checks : TableChecks} {now : ℕ} {events : List MonolithEvent}
    {table table' : EventTable} {results : List PersistResult}
    (htenant : ∀ e ∈ events, e.tenantId = t)
    (h : insertEvents checks t now events table = some (results, table')) :
    results.length = events.length ∧
      ∀ p ∈ results, p.event.tenantId = t ∨ p.event.tenantId = t.toWellFormed := by
  induction events generalizing table results with
  | nil =>
      cases h
      exact ⟨rfl, by simp⟩
  | cons event events ih =>
      simp only [insertEvents] at h
      split at h
      · cases h
      · next result table₁ hone =>
          split at h
          · cases h
          · next results' table₂ hrest =>
              cases h
              obtain ⟨hlen, hall⟩ :=
                ih (fun e he => htenant e (List.mem_cons_of_mem event he)) hrest
              refine ⟨congrArg (· + 1) hlen, ?_⟩
              intro p hp
              rcases List.mem_cons.mp hp with rfl | hp
              · have hevent := htenant event List.mem_cons_self
                unfold insertEventWithClient at hone
                dsimp only at hone
                split_ifs at hone
                · cases hone
                  exact Or.inl hevent
                · cases hone
                  exact Or.inr (congrArg Identity.toWellFormed hevent)
              · exact hall p hp

end

/-! ## Runs -/

section
variable {d : Deployment} {t : Identity} {run : BreakerRun}

def BreakerRun.Settled (d : Deployment) (t : Identity) (run : BreakerRun) : Prop :=
  match run.store with
  | .memory s => s.Settled d.breaker t run.lastRestore
  | .postgres db => db.Settled t run.lastRestore

theorem init_settled (useDatabase : Bool) : (BreakerRun.init useDatabase).Settled d t := by
  cases useDatabase with
  | false =>
      refine ⟨fun id e h => ?_, fun id e h => ?_, fun _ _ => rfl, fun c hc m hm => ?_, ?_⟩
      · cases h
      · cases h
      · cases hm
      · exact Nat.zero_le _
  | true => exact fun _ _ => rfl

/-- What `post` does with a batch it has read. -/
theorem post_of_read {r : Readings} {req : IngestRequest} {events : List MonolithEvent}
    (hread : readBatch d r req = .ok events) (htenant : ∀ e ∈ events, e.tenantId = t)
    (store : Store) : post d r req store = store.ingest d r events t := by
  obtain ⟨-, first, rest, rfl, -⟩ := readBatch_ok hread
  unfold post
  rw [hread]
  simp only [htenant first List.mem_cons_self]

/-- One ingest: the store stays settled, and the sessions of the events it
evaluates follow the rule. -/
theorem ingest_spec (h : run.Settled d t) {r : Readings} {req : IngestRequest}
    {events : List MonolithEvent} (hread : readBatch d r req = .ok events)
    (htenant : ∀ e ∈ events, e.tenantId = t) (hg : breakerGuard d t run (.ingest r req)) :
    BreakerRun.Settled d t { run with store := (post d r req run.store).1 } ∧
      ∀ persisted store', run.store.persistEvents d r events t = some (persisted, store') →
        ∀ p ∈ persisted, ∀ c, p.event.session = some c →
          ((post d r req run.store).1.isRevoked t c ↔ run.store.isRevoked t c ∨
            Unsettled d.breaker ((post d r req run.store).1.record t) (run.store.session c)
              (run.lastRestore (run.store.session c))) := by
  obtain ⟨⟨body, -, hbody⟩, first, rest, hevents, -⟩ := readBatch_ok hread
  have hnew := normalizeAll_receivedMs hbody
  rw [post_of_read hread htenant]
  obtain ⟨store, last⟩ := run
  cases store with
  | memory s =>
      have hsettled : s.Settled d.breaker t last := h
      have hstored := @persistInMemory_stored r.received events s.events 0
      have hne : (s.store r events).1 ≠ [] := by
        intro hnil
        have hlen := hstored.length_eq
        rw [show (persistInMemory r.received 0 events s.events).1 = [] from
          List.map_eq_nil_iff.mp hnil, hevents] at hlen
        cases hlen
      have hheld : ∀ e ∈ (s.store r events).1, ∃ id, (s.store r events).2.events.get? id = some e := by
        intro e he
        obtain ⟨p, hp, rfl⟩ := List.mem_map.mp he
        obtain ⟨event, -, hid⟩ := exists_left_of_forall₂ hstored hp
        exact ⟨event.eventId, hid⟩
      obtain ⟨s', ids, heval, hs', hledger, hrule⟩ :=
        @MemoryStore.Settled.evaluate _ _ _ _ (hsettled.store htenant hnew) r.revokedAt _ hne hheld
          (hg events hread)
      have hpost : (Store.memory s).ingest d r events t = (.memory s', .created
          (ingestResult (persistInMemory r.received 0 events s.events).1 (.ok ids))) := by
        unfold Store.ingest Store.persistEvents
        dsimp only
        unfold Store.evaluateSessionCircuitBreaker
        dsimp only [MemoryStore.store] at heval ⊢
        rw [heval]
      rw [hpost]
      refine ⟨hs', ?_⟩
      intro persisted store' hp p hmem c hc
      cases hp
      have hc' : c ∈ sessionsOf (s.store r events).1 :=
        mem_sessionsOf.mpr ⟨p.event, List.mem_map.mpr ⟨p, hmem, rfl⟩, hc⟩
      have hrecord : s'.record t = (s.store r events).2.record t := record_congr hledger
      simp only [Store.isRevoked, Store.record, Store.session, hrule, hc', true_and, hrecord]
      rfl
  | postgres db =>
      have hsettled : db.Settled t last := h
      cases hinsert : insertEvents d.checks t r.transaction events db.events with
      | none =>
          have hpost : (Store.postgres db).ingest d r events t =
              (.postgres db, .failed 503 "event collector is temporarily unavailable") := by
            simp only [Store.ingest, Store.persistEvents, hinsert, Option.map_none]
          rw [hpost]
          refine ⟨hsettled, ?_⟩
          intro persisted store' hp
          simp only [Store.persistEvents, hinsert, Option.map_none] at hp
          cases hp
      | some inserted =>
          obtain ⟨results, table⟩ := inserted
          obtain ⟨hlen, htenants⟩ := insertEvents_tenant htenant hinsert
          have hstored : { db with events := table }.Settled t last := hsettled
          have hne : results.map (·.event) ≠ [] := by
            intro hnil
            rw [List.map_eq_nil_iff.mp hnil, hevents] at hlen
            cases hlen
          have htenants' : ∀ e ∈ results.map (·.event),
              e.tenantId.toWellFormed = t.toWellFormed := by
            intro e he
            obtain ⟨p, hp, rfl⟩ := List.mem_map.mp he
            rcases htenants p hp with heq | heq
            · rw [heq]
            · rw [heq, Identity.toWellFormed_toWellFormed]
          obtain ⟨db', ids, heval, hdb', hledger, hrule⟩ :=
            @Database.Settled.evaluate d.breaker _ _ _ hstored r.groups r.revokedAt _ hne htenants'
          have hpost : (Store.postgres db).ingest d r events t =
              (.postgres db', .created (ingestResult results (.ok ids))) := by
            simp only [Store.ingest, Store.persistEvents, hinsert, Option.map_some,
              Store.evaluateSessionCircuitBreaker, heval]
          rw [hpost]
          refine ⟨hdb', ?_⟩
          intro persisted store' hp p hmem c hc
          simp only [Store.persistEvents, hinsert, Option.map_some, Option.some.injEq,
            Prod.mk.injEq] at hp
          obtain ⟨rfl, -⟩ := hp
          have hc' : c ∈ sessionsOf (results.map (·.event)) :=
            mem_sessionsOf.mpr ⟨p.event, List.mem_map.mpr ⟨p, hmem, rfl⟩, hc⟩
          have hrecord : db'.record t = { db with events := table }.record t := by
            unfold Database.record
            rw [hledger]
          simp only [Store.isRevoked, Store.record, Store.session, hrule c hc', hrecord]
          rfl

/-- A restore lifts the revocation, forgets the modules and moves the watermark. -/
theorem MemoryStore.Settled.restore {breaker : CircuitBreaker}
    {last : Identity × Identity → Option ℕ} {s : MemoryStore} (h : s.Settled breaker t last)
    (a se : Identity) (now : ℕ) :
    (s.restore t a se now).1.Settled breaker t (Function.update last (a, se) (some now)) := by
  have hother : ∀ c : Identity × Identity, c ≠ (a, se) →
      sessionKey t c.1 c.2 ≠ sessionKey t a se := by
    intro c hne heq
    obtain ⟨-, h₁, h₂⟩ := sessionKey_inj.mp heq
    exact hne (Prod.ext h₁ h₂)
  unfold MemoryStore.restore
  refine ⟨h.tenant, h.received, ?_, ?_, InsertionMap.size_erase_le.trans h.bounded⟩
  · intro c hc
    by_cases hsame : c = (a, se)
    · subst hsame
      rw [Function.update_self]
      exact InsertionMap.get?_set_self
    · rw [Function.update_of_ne hsame, InsertionMap.get?_set_of_ne (hother c hsame).symm]
      refine h.watermark c ?_
      simpa only [InsertionMap.has_erase, hother c hsame, decide_false, Bool.not_false,
        Bool.true_and] using hc
  · intro c hc m hm
    by_cases hsame : c = (a, se)
    · subst hsame
      simp only [InsertionMap.get?_erase, if_true, Option.getD_none, List.not_mem_nil] at hm
    · rw [Function.update_of_ne hsame]
      simp only [InsertionMap.get?_erase, if_neg (hother c hsame)] at hm
      refine h.modules c ?_ m hm
      simpa only [InsertionMap.has_erase, hother c hsame, decide_false, Bool.not_false,
        Bool.true_and] using hc

/-- A restore does nothing, or moves the watermark of an active revocation. -/
theorem Database.restore_cases (db : Database) (a se : Identity) (now : ℕ) :
    db.restore t a se now = (db, false) ∨
      ∃ row : RevokedSessionRow, db.restore t a se now =
        ({ db with
            revokedSessions :=
              db.revokedSessions.set (rowKey t a se) { row with restoredAt := some now } },
          true) := by
  unfold Database.restore rowKey
  dsimp only
  split
  · next row _ =>
      split
      · exact Or.inr ⟨row, rfl⟩
      · exact Or.inl rfl
  · exact Or.inl rfl

theorem Database.Settled.restore {last : Identity × Identity → Option ℕ} {db : Database}
    (h : db.Settled t last) (a se : Identity) (now : ℕ) :
    (db.restore t a se now).1.Settled t
      (if (db.restore t a se now).2 then
        Function.update last (storedSession (a, se)) (some now) else last) := by
  rcases db.restore_cases a se now with hnone | ⟨row, hrestore⟩
  · rw [hnone]
    exact h
  · rw [hrestore]
    intro c hc
    unfold Database.isActive at hc
    dsimp only at hc ⊢
    by_cases hsame : storedSession c = storedSession (a, se)
    · have hkey : rowKey t c.1 c.2 = rowKey t a se := congrArg (Prod.mk t.toWellFormed) hsame
      rw [if_pos rfl, hsame, Function.update_self, hkey, InsertionMap.get?_set_self]
      rfl
    · have hkey : rowKey t a se ≠ rowKey t c.1 c.2 :=
        fun heq => hsame (congrArg Prod.snd heq).symm
      rw [InsertionMap.get?_set_of_ne hkey] at hc ⊢
      rw [if_pos rfl, Function.update_of_ne hsame]
      exact h c hc

/-- What one guarded step preserves. -/
theorem step_settled (run : BreakerRun) (action : BreakerAction) (run' : BreakerRun)
    (h : run.Settled d t) (hg : breakerGuard d t run action)
    (hstep : breakerStep d t run action = some run') : run'.Settled d t := by
  cases action with
  | ingest r req =>
      simp only [breakerStep] at hstep
      split at hstep
      · cases hstep
        exact h
      · next events hread =>
          split at hstep
          · next htenant =>
              cases hstep
              have htenant' : ∀ e ∈ events, e.tenantId = t := fun e he =>
                of_decide_eq_true (List.all_eq_true.mp htenant e he)
              exact (ingest_spec h hread htenant' hg).1
          · cases hstep
  | revoke a se reason trigger layers now =>
      simp only [breakerStep] at hstep
      split at hstep
      · cases hstep
        exact h
      · next texts _ =>
          cases hstep
          obtain ⟨store, last⟩ := run
          cases store with
          | memory s =>
              have hsettled : s.Settled d.breaker t last := h
              have hcard : (s.revoked.keys ++ [sessionKey t a se]).toFinset.card ≤
                maxMemorySessions := hg
              have hput : s.revoke t a se texts.1 texts.2 layers now =
                  s.put t a se texts.1 texts.2 layers now := by
                refine MemoryStore.revoke_eq_put hsettled.bounded hcard ?_ ?_
                · exact fun k hk => List.mem_toFinset.mpr (List.mem_append_left _ hk)
                · exact List.mem_toFinset.mpr (List.mem_append_right _ List.mem_cons_self)
              simp only [BreakerRun.Settled, Store.revoke, hput]
              exact hsettled.revokedOnly MemoryStore.put_spec
          | postgres db =>
              have hsettled : db.Settled t last := h
              simp only [BreakerRun.Settled, Store.revoke, Database.revokeSession]
              split_ifs
              · exact hsettled
              · exact hsettled.revokedOnly
                  (Database.revoke_spec db t a se texts.1 texts.2 layers now)
  | restore a se now =>
      simp only [breakerStep] at hstep
      cases hstep
      obtain ⟨store, last⟩ := run
      cases store with
      | memory s =>
          have hsettled : s.Settled d.breaker t last := h
          have hlifted : (s.restore t a se now).2 = true := hg
          simp only [BreakerRun.Settled, Store.restore, hlifted, if_true, Store.session]
          exact hsettled.restore a se now
      | postgres db =>
          have hsettled : db.Settled t last := h
          exact hsettled.restore a se now

/-- In every guarded run, the evaluation of each batch follows the rule. -/
theorem breaker_exact {useDatabase : Bool} {actions : List BreakerAction}
    (h : Path (breakerStep d t) (breakerGuard d t) (BreakerRun.init useDatabase) actions run)
    {r : Readings} {req : IngestRequest} {events : List MonolithEvent} (hread : readBatch d r req = .ok events)
    (htenant : ∀ e ∈ events, e.tenantId = t) (hg : breakerGuard d t run (.ingest r req))
    {persisted : List PersistResult} {store' : Store}
    (hp : run.store.persistEvents d r events t = some (persisted, store')) :
    ∀ p ∈ persisted, ∀ c, p.event.session = some c →
      ((post d r req run.store).1.isRevoked t c ↔ run.store.isRevoked t c ∨
        Unsettled d.breaker ((post d r req run.store).1.record t) (run.store.session c)
          (run.lastRestore (run.store.session c))) := by
  have hsettled : run.Settled d t := h.invariant step_settled (init_settled useDatabase)
  exact (ingest_spec hsettled hread htenant hg).2 persisted store' hp

end

/-! ## A restored session -/

/-- A token of its own for each tenant and module. -/
def sampleToken (tenant : Identity) (moduleName : ModuleName) : JsString :=
  ⟨(JsString.ofString "0123456789abcdef-").units ++
    (moduleName.text.units ++ (JsString.ofString ".").units ++ tenant.text.units)⟩

def sampleDeployment : Deployment where
  breaker := circuitBreaker none none
  checks := ⟨fun _ => true, fun _ => true⟩
  digest := fun s => s.units.map (·.toUInt8)
  configuredTokens := some fun tenant moduleName => some (sampleToken tenant moduleName)

/-- A request at a time. -/
def sampleReadings (now : ℕ) : Readings where
  timestamp := fun _ => now + 1
  randomUUID := fun _ => .ofString "00000000-0000-4000-8000-00000000ffff"
  received := fun _ => now + 1
  transaction := now + 1
  revokedAt := fun _ => now + 1
  groups := .inOrder
  received_pos := fun _ => Nat.succ_pos now

def sampleAgent : Identity := ⟨.ofString "a", by decide, by decide, by decide, by decide⟩
def sampleSession : Identity := ⟨.ofString "s", by decide, by decide, by decide, by decide⟩

/-- One critical event of the session, from a module with its credential. -/
def detection (moduleName : ModuleName) (eventId : String) : IngestRequest where
  body := .ok (.object
    [(.ofString "module", .string moduleName.text),
      (.ofString "event_type", .string (.ofString "breach")),
      (.ofString "severity", .string (.ofString "critical")),
      (.ofString "event_id", .string (.ofString eventId)),
      (.ofString "agent_id", .string sampleAgent.text),
      (.ofString "session_id", .string sampleSession.text)])
  authorization := some ⟨bearerPrefix.units ++ (sampleToken defaultTenant moduleName).units⟩

def shieldDetection : IngestRequest :=
  detection .mcpShield "00000000-0000-4000-8000-000000000001"
def auditDetection : IngestRequest :=
  detection .traceAudit "00000000-0000-4000-8000-000000000002"

/-- Two detections trip the breaker, the session is restored, and both are delivered again. -/
def restoredThenRedelivered : List BreakerAction :=
  [.ingest (sampleReadings 9) shieldDetection, .ingest (sampleReadings 19) auditDetection,
    .restore sampleAgent sampleSession 30, .ingest (sampleReadings 39) shieldDetection]

theorem redelivery_undoes_restore :
    ∃ run, execute (breakerStep sampleDeployment defaultTenant) (BreakerRun.init false)
        restoredThenRedelivered = some run ∧
      run.lastRestore (sampleAgent, sampleSession) = some 30 ∧
      run.store.isRevoked defaultTenant (sampleAgent, sampleSession) = false ∧
      ¬ Unsettled sampleDeployment.breaker
        ((post sampleDeployment (sampleReadings 49) auditDetection run.store).1.record
          defaultTenant)
        (sampleAgent, sampleSession) (run.lastRestore (sampleAgent, sampleSession)) ∧
      (post sampleDeployment (sampleReadings 49) auditDetection run.store).1.isRevoked defaultTenant
        (sampleAgent, sampleSession) = true := by
  refine ⟨_, rfl, ?_, ?_, ?_, ?_⟩
  · rfl
  · rfl
  · decide
  · rfl

/-- A delivery of its own, after the restore. -/
def laterDetection : IngestRequest :=
  detection .mcpShield "00000000-0000-4000-8000-000000000003"

def shieldRun : BreakerRun :=
  ⟨(post sampleDeployment (sampleReadings 9) shieldDetection (.memory .init)).1, fun _ => none⟩

def trippedRun : BreakerRun :=
  ⟨(post sampleDeployment (sampleReadings 19) auditDetection shieldRun.store).1, fun _ => none⟩

def restoredRun : BreakerRun where
  store := (trippedRun.store.restore defaultTenant sampleAgent sampleSession 30).1
  lastRestore := Function.update (fun _ => none) (sampleAgent, sampleSession) (some 30)

theorem fresh_shield : breakerGuard sampleDeployment defaultTenant (BreakerRun.init false)
    (.ingest (sampleReadings 9) shieldDetection) := by
  intro events h
  cases h
  refine ⟨?_, by decide, by decide⟩
  intro e he _ c _ _
  rfl

theorem fresh_audit : breakerGuard sampleDeployment defaultTenant shieldRun
    (.ingest (sampleReadings 19) auditDetection) := by
  intro events h
  cases h
  refine ⟨?_, by decide, by decide⟩
  intro e he _ c _ _
  rfl

theorem fresh_later : breakerGuard sampleDeployment defaultTenant restoredRun
    (.ingest (sampleReadings 39) laterDetection) := by
  intro events h
  cases h
  refine ⟨?_, by decide, by decide⟩
  intro e he _ c hc _
  have he := List.mem_singleton.mp he
  subst he
  cases hc
  rfl

/-- The batch of a request that is let through. -/
def batchOf (r : Readings) (req : IngestRequest) : List MonolithEvent :=
  match readBatch sampleDeployment r req with
  | .ok events => events
  | .error _ => []

/-- What tripped the breaker before the restore does not count after it. -/
theorem breaker_exact_after_restore :
    (post sampleDeployment (sampleReadings 39) laterDetection restoredRun.store).1.isRevoked
      defaultTenant (sampleAgent, sampleSession) = false := by
  have hpath : Path (breakerStep sampleDeployment defaultTenant)
      (breakerGuard sampleDeployment defaultTenant) (BreakerRun.init false)
      [.ingest (sampleReadings 9) shieldDetection, .ingest (sampleReadings 19) auditDetection,
        .restore sampleAgent sampleSession 30] restoredRun :=
    .step rfl fresh_shield (.step rfl fresh_audit (.step rfl rfl (.done restoredRun)))
  have hread : readBatch sampleDeployment (sampleReadings 39) laterDetection =
    .ok (batchOf (sampleReadings 39) laterDetection) := rfl
  have htenant : ∀ e ∈ batchOf (sampleReadings 39) laterDetection,
      e.tenantId = defaultTenant := by
    intro e he
    cases he with
    | head => rfl
    | tail _ he => cases he
  have hrule := breaker_exact hpath hread htenant fresh_later rfl _ List.mem_cons_self
    (sampleAgent, sampleSession) rfl
  rw [Bool.eq_false_iff, ne_eq, hrule]
  decide

end BlackMonolith.Dashboard
