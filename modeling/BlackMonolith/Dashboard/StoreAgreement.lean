import BlackMonolith.Dashboard.TwoStores

/-!
# The revocation stores agree over guarded runs

Both stores list the same active revocations after every guarded run, and each
keeps the record of a revocation until a restore of its session.
-/
namespace BlackMonolith.Dashboard
open Library

/-! ## Runs -/

section
variable {breaker : CircuitBreaker} {st st' : TwoStores}

theorem MemoryStore.revoke_of_room {s : MemoryStore} {t a se : Identity} {reason trigger : JsString}
    {layers : List ModuleName} {now : ℕ} (hmodules : s.modules.size ≤ maxMemorySessions)
    (hinactive : s.revoked.has (sessionKey t a se) = false)
    (hroom : s.revoked.size < maxMemorySessions) :
    s.revoke t a se reason trigger layers now = s.put t a se reason trigger layers now := by
  unfold MemoryStore.revoke
  refine MemoryStore.enforceSessionBound_of_le ?_ hmodules
  have hkey : sessionKey t a se ∉ s.revoked.entries.map Prod.fst :=
    InsertionMap.get?_eq_none_iff.mp (InsertionMap.get?_of_not_has hinactive)
  simp only [MemoryStore.put, InsertionMap.size, InsertionMap.set,
    InsertionMap.setIn_of_notMem hkey, List.length_append, List.length_singleton] at hroom ⊢
  omega

theorem Database.revokeSession_of_taken {db : Database} {t a se : Identity}
    {reason trigger : JsString} {layers : List ModuleName} {now : ℕ} (hreason : 0 ∉ reason.units)
    (htrigger : 0 ∉ trigger.units) :
    db.revokeSession t a se reason trigger layers now =
      db.revoke t a se reason trigger layers now := if_neg (not_or.mpr ⟨hreason, htrigger⟩)

/-- A ledger that only grows backs the module sets. -/
theorem TwoStores.Agree.grow (h : st.Agree breaker) {ledger : MemoryEvents} {table : EventTable}
    (hgrow : ∀ e ∈ st.memory.events.values, e ∈ ledger.values) :
    TwoStores.Agree breaker
      ⟨{ st.memory with events := ledger }, { st.database with events := table }⟩ := by
  refine ⟨h.keyed, h.rowed, h.records, ?_, h.bounded⟩
  intro t c hc m hm
  obtain ⟨e, he, hrest⟩ := MemoryStore.mem_reporting.mp (h.reported t c hc m hm)
  exact MemoryStore.mem_reporting.mpr ⟨e, hgrow e he, hrest⟩

theorem TwoStores.keeps_restore {s : MemoryStore} {db : Database} {t a se : Identity}
    (memoryNow databaseNow : ℕ) (hwf : KeyWellFormed (t, a, se))
    {k : Identity × Identity × Identity} (hk : k ≠ (t, a, se)) :
    TwoStores.Keeps ⟨s, db⟩
      ⟨(s.restore t a se memoryNow).1, (db.restore t a se databaseNow).1⟩ k := by
  constructor
  · intro r hr
    have hne : sessionKey k.1 k.2.1 k.2.2 ≠ sessionKey t a se := by
      intro heq
      obtain ⟨h₁, h₂, h₃⟩ := sessionKey_inj.mp heq
      exact hk (Prod.ext h₁ (Prod.ext h₂ h₃))
    simp only [MemoryStore.active, MemoryStore.restore, InsertionMap.get?_erase, if_neg hne]
    exact hr
  · intro r hr
    dsimp only
    rw [Database.active_restore k hwf, if_neg hk]
    exact hr

/-- One guarded call: the stores still agree, and it lifts only what it restores. -/
theorem stores_step {call : RevocationCall} (h : st.Agree breaker)
    (hg : storesGuard breaker st call) (hstep : storesStep breaker st call = some st') :
    st'.Agree breaker ∧ ∀ k : Identity × Identity × Identity,
      (∀ m d, call ≠ .restore k.1 k.2.1 k.2.2 m d) → st.Keeps st' k := by
  cases call with
  | revoke t a se reason trigger layers memoryNow databaseNow =>
      simp only [storesStep] at hstep
      cases htexts : revocationTexts reason trigger with
      | error e =>
          rw [htexts] at hstep
          cases hstep
          exact ⟨h, fun k _ => TwoStores.Keeps.refl _ k⟩
      | ok texts =>
          rw [htexts] at hstep
          cases hstep
          obtain ⟨hreason, htrigger⟩ := hg.texts texts htexts
          rw [MemoryStore.revoke_of_room h.bounded hg.inactive hg.room,
            Database.revokeSession_of_taken hreason.2 htrigger.2]
          exact ⟨h.put memoryNow databaseNow hg.wellFormed hreason.1 htrigger.1 hg.layers
            hg.inactive, fun k _ => TwoStores.keeps_put memoryNow databaseNow hg.inactive k⟩
  | restore t a se memoryNow databaseNow =>
      cases hstep
      refine ⟨h.restore memoryNow databaseNow hg, fun k hk => ?_⟩
      apply TwoStores.keeps_restore memoryNow databaseNow hg
      rintro rfl
      exact hk memoryNow databaseNow rfl
  | evaluate batch ledger table groups memoryNow databaseNow =>
      cases hstep
      obtain ⟨hagree, hkeeps⟩ := (h.grow hg.1).evaluate hg.2 groups memoryNow databaseNow
      exact ⟨hagree, fun k _ => hkeeps k⟩

theorem stores_run {calls : List RevocationCall}
    (hrun : Path (storesStep breaker) (storesGuard breaker) st calls st') (h : st.Agree breaker) :
    st'.Agree breaker ∧ ∀ k : Identity × Identity × Identity,
      (∀ m d, .restore k.1 k.2.1 k.2.2 m d ∉ calls) → st.Keeps st' k := by
  induction hrun with
  | done st => exact ⟨h, fun k _ => TwoStores.Keeps.refl st k⟩
  | step hstep hg _ ih =>
      obtain ⟨hagree, hkeeps⟩ := stores_step h hg hstep
      obtain ⟨hagree', hkeeps'⟩ := ih hagree
      refine ⟨hagree', fun k hk => (hkeeps k ?_).trans (hkeeps' k ?_)⟩
      · exact fun m d heq => hk m d (heq ▸ List.mem_cons_self)
      · exact fun m d hmem => hk m d (List.mem_cons_of_mem _ hmem)

/-! ## Listings -/

theorem mem_newestFirst {r : SessionRevocation} {revocations : List SessionRevocation} :
    r ∈ newestFirst revocations ↔ r ∈ revocations := List.mem_insertionSort _

theorem TwoStores.Agree.memory_lists (h : st.Agree breaker) {t : Identity}
    {r : SessionRevocation} :
    r ∈ st.memory.listRevokedSessions t ↔ st.memory.active r.key = some r ∧ r.tenantId = t := by
  unfold MemoryStore.listRevokedSessions
  rw [mem_newestFirst, List.mem_filter, InsertionMap.mem_values_iff, decide_eq_true_eq]
  constructor
  · rintro ⟨⟨k, hk⟩, ht⟩
    refine ⟨?_, ht⟩
    unfold MemoryStore.active SessionRevocation.key
    rw [← (h.keyed k r hk).1]
    exact hk
  · rintro ⟨hactive, ht⟩
    exact ⟨⟨_, hactive⟩, ht⟩

theorem TwoStores.Agree.database_lists (h : st.Agree breaker) {t : Identity}
    (ht : t.IsWellFormed) {r : SessionRevocation} :
    r ∈ st.database.listRevokedSessions t ↔
      st.database.active r.key = some r ∧ r.tenantId = t := by
  have ht' : t.toWellFormed = t := ht
  unfold Database.listRevokedSessions Database.active
  rw [mem_newestFirst, ht', Option.map_eq_some_iff]
  simp only [List.mem_map, List.mem_filter, InsertionMap.mem_values_iff, decide_eq_true_eq,
    Option.filter_eq_some_iff]
  constructor
  · rintro ⟨row, ⟨⟨k, hk⟩, htenant, hnone⟩, rfl⟩
    exact ⟨⟨row, ⟨(h.rowed k row hk).1 ▸ hk, hnone⟩, rfl⟩, htenant⟩
  · rintro ⟨⟨row, ⟨hrow, hnone⟩, rfl⟩, htenant⟩
    exact ⟨row, ⟨⟨_, hrow⟩, htenant, hnone⟩, rfl⟩

/-- Values that tell their keys apart are listed once. -/
theorem values_nodup {κ ν : Type} [DecidableEq κ] {m : InsertionMap κ ν}
    (h : ∀ k k' v, m.get? k = some v → m.get? k' = some v → k = k') : m.values.Nodup := by
  refine List.Nodup.map_on ?_ (List.Nodup.of_map _ m.nodup)
  intro e he e' he' heq
  refine Prod.ext (h e.1 e'.1 e.2 ?_ ?_) heq
  · exact InsertionMap.get?_eq_some_iff.mpr he
  · exact InsertionMap.get?_eq_some_iff.mpr (heq ▸ he')

theorem TwoStores.Agree.listings (h : st.Agree breaker) {t : Identity} (ht : t.IsWellFormed) :
    List.Perm ((st.memory.listRevokedSessions t).map (·.shown))
      ((st.database.listRevokedSessions t).map (·.shown)) := by
  have hkey : ∀ r r' : SessionRevocation, r.shown = r'.shown → r.key = r'.key := by
    intro r r' heq
    simp only [SessionRevocation.shown, Prod.mk.injEq] at heq
    exact Prod.ext heq.1 (Prod.ext heq.2.1 heq.2.2.1)
  rw [List.perm_ext_iff_of_nodup]
  · intro x
    simp only [List.mem_map, h.memory_lists, h.database_lists ht]
    constructor
    · rintro ⟨r, ⟨hr, rfl⟩, rfl⟩
      have hrecords := h.records r.key (h.keyed _ r hr).2
      rw [hr] at hrecords
      obtain ⟨r', hr', hshown⟩ := Option.map_eq_some_iff.mp hrecords.symm
      have hsame := hkey r' r hshown
      exact ⟨r', ⟨hsame ▸ hr', congrArg Prod.fst hsame⟩, hshown⟩
    · rintro ⟨r, ⟨hr, rfl⟩, rfl⟩
      obtain ⟨row, hrow, -⟩ := Option.map_eq_some_iff.mp hr
      have hwf := (h.rowed _ row (Option.filter_eq_some_iff.mp hrow).1).2
      have hrecords := h.records r.key hwf
      rw [hr] at hrecords
      obtain ⟨r', hr', hshown⟩ := Option.map_eq_some_iff.mp hrecords
      have hsame := hkey r' r hshown
      exact ⟨r', ⟨hsame ▸ hr', congrArg Prod.fst hsame⟩, hshown⟩
  · refine List.Nodup.map_on ?_ ?_
    · intro r hr r' hr' heq
      have hactive := (h.memory_lists.mp hr).1
      rw [hkey r r' heq, (h.memory_lists.mp hr').1] at hactive
      exact (Option.some.inj hactive).symm
    · refine (List.perm_insertionSort _ _).nodup_iff.mpr (List.Nodup.filter _ (values_nodup ?_))
      intro k k' r hk hk'
      exact (h.keyed k r hk).1.trans (h.keyed k' r hk').1.symm
  · refine List.Nodup.map_on ?_ ?_
    · intro r hr r' hr' heq
      have hactive := ((h.database_lists ht).mp hr).1
      rw [hkey r r' heq, ((h.database_lists ht).mp hr').1] at hactive
      exact (Option.some.inj hactive).symm
    · refine (List.perm_insertionSort _ _).nodup_iff.mpr (List.Nodup.map_on ?_ ?_)
      · intro row hrow row' hrow' heq
        obtain ⟨k, hk⟩ := InsertionMap.mem_values_iff.mp (List.mem_filter.mp hrow).1
        obtain ⟨k', hk'⟩ := InsertionMap.mem_values_iff.mp (List.mem_filter.mp hrow').1
        have hsame : k = k' := by
          rw [(h.rowed k row hk).1, (h.rowed k' row' hk').1, heq]
        rw [hsame, hk'] at hk
        exact (Option.some.inj hk).symm
      · refine List.Nodup.filter _ (values_nodup ?_)
        intro k k' row hk hk'
        exact (h.rowed k row hk).1.trans (h.rowed k' row hk').1.symm

/-- The database lists no revocations of a tenant whose name it cannot hold. -/
theorem Database.listed_wellFormed {db : Database} {r : SessionRevocation}
    (h : r ∈ db.listRevokedSessions r.tenantId) : r.tenantId.IsWellFormed := by
  unfold Database.listRevokedSessions at h
  simp only [mem_newestFirst, List.mem_map, List.mem_filter, decide_eq_true_eq] at h
  obtain ⟨row, ⟨-, htenant, -⟩, rfl⟩ := h
  exact htenant.symm

/-- A guarded revocation is recorded as the call says. -/
theorem revoke_records {t a se : Identity} {reason trigger : JsString}
    {layers : List ModuleName} {memoryNow databaseNow : ℕ} {texts : JsString × JsString}
    (h : st.Agree breaker)
    (hg : RevokeGuard t a se reason trigger layers st.memory st.database)
    (htexts : revocationTexts reason trigger = .ok texts)
    (hstep : storesStep breaker st
      (.revoke t a se reason trigger layers memoryNow databaseNow) = some st') :
    st'.memory.active (t, a, se) =
        some ⟨t, a, se, memoryNow, texts.1, texts.2, sortedLayers layers⟩ ∧
      st'.database.active (t, a, se) =
        some ⟨t, a, se, databaseNow, texts.1, texts.2, sortedLayers layers⟩ := by
  obtain ⟨hreason, htrigger⟩ := hg.texts texts htexts
  have hk : KeyWellFormed (t, a, se) := hg.wellFormed
  have hnone := (TwoStores.Agree.active_none_iff h hk).mp hg.inactive
  simp only [storesStep, htexts, Option.some.injEq] at hstep
  subst hstep
  dsimp only
  rw [MemoryStore.revoke_of_room h.bounded hg.inactive hg.room,
    MemoryStore.put_of_inactive hg.inactive,
    Database.revokeSession_of_taken hreason.2 htrigger.2,
    Database.revoke_of_inactive hk hreason.1 htrigger.1 hg.layers hnone]
  simp [MemoryStore.active, Database.active]

/-- The stores agree after every guarded run. From any point of it on, each keeps
every record it lists until a restore of its session, the record of a new
revocation being that of the call. -/
theorem stores_agree {before after : List RevocationCall}
    (hbefore : Path (storesStep breaker) (storesGuard breaker) .init before st)
    (hafter : Path (storesStep breaker) (storesGuard breaker) st after st') :
    (∀ t : Identity, t.IsWellFormed →
      List.Perm ((st'.memory.listRevokedSessions t).map (·.shown))
        ((st'.database.listRevokedSessions t).map (·.shown))) ∧
    (∀ r : SessionRevocation,
      (∀ m d, .restore r.tenantId r.agentId r.sessionId m d ∉ after) →
        (r ∈ st.memory.listRevokedSessions r.tenantId →
          r ∈ st'.memory.listRevokedSessions r.tenantId) ∧
        (r ∈ st.database.listRevokedSessions r.tenantId →
          r ∈ st'.database.listRevokedSessions r.tenantId)) ∧
    ∀ t a se reason trigger layers memoryNow databaseNow texts rest,
      after = .revoke t a se reason trigger layers memoryNow databaseNow :: rest →
      revocationTexts reason trigger = .ok texts → (∀ m d, .restore t a se m d ∉ rest) →
        ⟨t, a, se, memoryNow, texts.1, texts.2, sortedLayers layers⟩ ∈
          st'.memory.listRevokedSessions t ∧
        ⟨t, a, se, databaseNow, texts.1, texts.2, sortedLayers layers⟩ ∈
          st'.database.listRevokedSessions t := by
  have hst : st.Agree breaker := (stores_run hbefore (TwoStores.init_agree breaker)).1
  obtain ⟨hst', hkeeps⟩ := stores_run hafter hst
  refine ⟨fun t ht => hst'.listings ht, ?_, ?_⟩
  · intro r hr
    have hkept := hkeeps r.key hr
    constructor
    · intro hlisted
      exact hst'.memory_lists.mpr ⟨hkept.1 r (hst.memory_lists.mp hlisted).1, rfl⟩
    · intro hlisted
      have hwf := Database.listed_wellFormed hlisted
      exact (hst'.database_lists hwf).mpr
        ⟨hkept.2 r ((hst.database_lists hwf).mp hlisted).1, rfl⟩
  · intro t a se reason trigger layers memoryNow databaseNow texts rest hcalls htexts hr
    subst hcalls
    cases hafter with
    | step hstep hg hrest =>
        obtain ⟨hmid, -⟩ := stores_step hst hg hstep
        obtain ⟨-, hkept⟩ := stores_run hrest hmid
        obtain ⟨hmemory, hdatabase⟩ := revoke_records hst hg htexts hstep
        have hkept := hkept (t, a, se) hr
        exact ⟨hst'.memory_lists.mpr ⟨hkept.1 _ hmemory, rfl⟩,
          (hst'.database_lists hg.wellFormed.1).mpr ⟨hkept.2 _ hdatabase, rfl⟩⟩

end

/-! ## A second call, and a batch that trips -/

def analystSession : Identity := ⟨.ofString "analysed", by decide, by decide, by decide, by decide⟩
def reportSession : Identity := ⟨.ofString "reported", by decide, by decide, by decide, by decide⟩
def reportAgent : Identity := ⟨.ofString "agent", by decide, by decide, by decide, by decide⟩

def analystCall (reason : String) (now : ℕ) : RevocationCall :=
  .revoke defaultTenant reportAgent analystSession (.ofString reason) (.ofString "analyst")
    [.mcpShield] now (1000 * now)

/-- The second call finds the session revoked. -/
theorem second_call_overwrites : ∃ st st',
    execute (storesStep (circuitBreaker none none)) .init [analystCall "confirmed exfiltration" 5] =
      some st ∧
    storesStep (circuitBreaker none none) st (analystCall "quarantined" 6) = some st' ∧
    ¬ List.Perm ((st'.memory.listRevokedSessions defaultTenant).map (·.shown))
      ((st'.database.listRevokedSessions defaultTenant).map (·.shown)) ∧
    ∃ r ∈ st.memory.listRevokedSessions defaultTenant,
      r.reason = .ofString "confirmed exfiltration" ∧
        ∀ r' ∈ st'.memory.listRevokedSessions defaultTenant, r'.reason ≠ r.reason := by
  refine ⟨_, _, rfl, rfl, ?_, _, List.mem_singleton.mpr rfl, rfl, ?_⟩
  · exact fun h => absurd (List.isPerm_iff.mpr h) (by decide)
  · intro r' hr'
    have hr' := List.mem_singleton.mp hr'
    subst hr'
    decide

def sampleReport (moduleName : ModuleName) (eventId : String) : MonolithEvent where
  eventId := .ofString eventId
  schemaVersion := 1
  timestampMs := 10
  receivedMs := some 10
  moduleName := moduleName
  eventType := .ofString "breach"
  severity := .critical
  details := []
  tenantId := defaultTenant
  agentId := some reportAgent
  sessionId := some reportSession
  traceId := none
  correlationId := none
  resourceType := none
  resourceId := none
  outcome := none
  policyVersion := none
  source := .ofString "detector"

def sampleBatch : List MonolithEvent :=
  [sampleReport .mcpShield "1", sampleReport .traceAudit "2"]

def sampleLedger : MemoryEvents :=
  ⟨sampleBatch.map fun e => (e.eventId, e), by decide⟩

def sampleTable : EventTable :=
  ⟨sampleBatch.map fun e => (e.eventId, eventRow 10000 e), by decide⟩

def batchCall : RevocationCall :=
  .evaluate sampleBatch sampleLedger sampleTable .inOrder (fun _ => 11) (fun _ => 11000)

def afterAnalyst : TwoStores :=
  ((storesStep (circuitBreaker none none) .init (analystCall "confirmed exfiltration" 5))).getD .init

theorem analystCall_guarded : storesGuard (circuitBreaker none none) .init
    (analystCall "confirmed exfiltration" 5) := by
  refine ⟨by decide, ?_, rfl, by decide, ?_⟩
  · intro texts htexts
    cases htexts
    decide
  · intro _ row hrow
    cases hrow

theorem batchCall_guarded :
    storesGuard (circuitBreaker none none) afterAnalyst batchCall := by
  refine ⟨?_, ?_⟩
  · intro e he
    cases he
  · intro first hfirst
    cases hfirst
    refine ⟨by decide, fun e he => he, by decide, ?_, ?_, by decide,
      by decide⟩
    · intro e he c _ _
      cases he with
      | head => rfl
      | tail _ he =>
          have he := List.mem_singleton.mp he
          subst he
          rfl
    · intro c hc _
      have hc := List.mem_singleton.mp hc
      subst hc
      refine ⟨?_, ?_⟩
      · decide
      · decide

theorem stores_agree_after_batch : ∃ st, execute (storesStep (circuitBreaker none none)) .init
      [analystCall "confirmed exfiltration" 5, batchCall] = some st ∧
    List.Perm ((st.memory.listRevokedSessions defaultTenant).map (·.shown))
      ((st.database.listRevokedSessions defaultTenant).map (·.shown)) := by
  refine ⟨_, rfl, ?_⟩
  have hbefore : Path (storesStep (circuitBreaker none none))
      (storesGuard (circuitBreaker none none)) .init [analystCall "confirmed exfiltration" 5]
        afterAnalyst := .step rfl analystCall_guarded (.done _)
  have hafter : Path (storesStep (circuitBreaker none none))
      (storesGuard (circuitBreaker none none)) afterAnalyst [batchCall] _ :=
    .step rfl batchCall_guarded (.done _)
  exact (stores_agree hbefore hafter).1 defaultTenant (by decide)

end BlackMonolith.Dashboard
