import BlackMonolith.Library.Paths
import BlackMonolith.Dashboard.Revocations

/-!
# The two revocation stores, side by side

The same calls are made on the in-memory store and on the database, each with
readings of its own clock. The database keeps the record of an active
revocation whatever is called. The in-memory store writes a new record over it,
forgets the oldest revocations beyond its bound, and remembers neither the
layers of a lifted revocation nor which sessions had one. A call that meets the
guard does none of this, and keeps the two in agreement.
-/
namespace BlackMonolith.Dashboard
open Library

/-! ## Calls on both stores -/

structure TwoStores where
  memory : MemoryStore
  database : Database

def TwoStores.init : TwoStores := ⟨.init, .init⟩

/-- The ledgers of an evaluation are those its batch was stored in. -/
inductive RevocationCall
  | revoke (t a se : Identity) (reason trigger : JsString) (layers : List ModuleName)
      (memoryNow databaseNow : ℕ)
  | restore (t a se : Identity) (memoryNow databaseNow : ℕ)
  | evaluate (batch : List MonolithEvent) (ledger : MemoryEvents) (table : EventTable)
      (groups : GroupOrder) (memoryNow databaseNow : ℕ → ℕ)

/-- A text that is refused leaves both stores as they are; one with U+0000 is
refused by the database alone. -/
def storesStep (breaker : CircuitBreaker) (st : TwoStores) : RevocationCall → Option TwoStores
  | .revoke t a se reason trigger layers memoryNow databaseNow =>
      match revocationTexts reason trigger with
      | .error _ => some st
      | .ok texts => some
          { memory := st.memory.revoke t a se texts.1 texts.2 layers memoryNow
            database := st.database.revokeSession t a se texts.1 texts.2 layers databaseNow }
  | .restore t a se memoryNow databaseNow => some
      { memory := (st.memory.restore t a se memoryNow).1
        database := (st.database.restore t a se databaseNow).1 }
  | .evaluate batch ledger table groups memoryNow databaseNow => some
      { memory := ({ st.memory with events := ledger }.evaluateSessionCircuitBreaker breaker
          memoryNow batch).1
        database := ({ st.database with events := table }.evaluateSessionCircuitBreaker breaker
          groups databaseNow batch).1 }

/-- What the two stores are to agree on; each stamps its own time. -/
def SessionRevocation.shown (r : SessionRevocation) :
    Identity × Identity × Identity × JsString × JsString × List ModuleName :=
  (r.tenantId, r.agentId, r.sessionId, r.reason, r.triggeredBy, r.layers)

/-! ## The guard -/

/-- No unpaired surrogates, which the driver replaces. -/
def Identity.IsWellFormed (id : Identity) : Prop := id.toWellFormed = id

instance (id : Identity) : Decidable id.IsWellFormed := inferInstanceAs (Decidable (_ = _))

/-- Received after the last restore of the session, as the store has it. -/
def MemoryStore.late (s : MemoryStore) (t : Identity) (c : Identity × Identity)
    (e : MonolithEvent) : Bool :=
  (s.restoredAt.get? (sessionKey t c.1 c.2)).getD 0 < e.receivedMs.getD e.timestampMs

def Database.late (db : Database) (t : Identity) (c : Identity × Identity) (row : EventRow) :
    Bool :=
  ((db.revokedSessions.get? (t, c.1, c.2)).bind (·.restoredAt)).all (· < row.receivedAt)

/-- An event of the session that counts if it is late. -/
def Reports (breaker : CircuitBreaker) (t : Identity) (c : Identity × Identity)
    (e : MonolithEvent) : Prop :=
  e.tenantId = t ∧ e.session = some c ∧ breaker.qualifies e = true

instance (breaker : CircuitBreaker) (t : Identity) (c : Identity × Identity)
    (e : MonolithEvent) : Decidable (Reports breaker t c e) :=
  inferInstanceAs (Decidable (_ ∧ _ ∧ _))

/-- The ledgers hold the same reports on a session, on the same side of its restore. -/
structure SameReports (breaker : CircuitBreaker) (t : Identity) (c : Identity × Identity)
    (s : MemoryStore) (db : Database) : Prop where
  forth : ∀ e ∈ s.events.values, Reports breaker t c e → ∃ row ∈ db.events.values,
    Reports breaker t c row.event ∧ row.event.moduleName = e.moduleName ∧
      db.late t c row = s.late t c e
  back : ∀ row ∈ db.events.values, Reports breaker t c row.event → ∃ e ∈ s.events.values,
    Reports breaker t c e ∧ e.moduleName = row.event.moduleName ∧ s.late t c e = db.late t c row

/-- The modules that reported on a session after its restore. -/
def MemoryStore.reporting (s : MemoryStore) (breaker : CircuitBreaker) (t : Identity)
    (c : Identity × Identity) : List ModuleName :=
  (s.events.values.filter fun e => Reports breaker t c e && s.late t c e).map (·.moduleName)

/-- A batch of one tenant, from the ledger. For its sessions that are not
revoked, it holds late reports only and the ledgers agree. The maps of the
in-memory store stay within their bound. -/
structure BatchGuard (breaker : CircuitBreaker) (t : Identity) (batch : List MonolithEvent)
    (s : MemoryStore) (db : Database) : Prop where
  tenant : ∀ e ∈ batch, e.tenantId = t
  stored : ∀ e ∈ batch, e ∈ s.events.values
  wellFormed : ∀ c ∈ sessionsOf batch, t.IsWellFormed ∧ c.1.IsWellFormed ∧ c.2.IsWellFormed
  late : ∀ e ∈ batch, ∀ c, Reports breaker t c e →
    s.revoked.has (sessionKey t c.1 c.2) = false → s.late t c e = true
  same : ∀ c ∈ sessionsOf batch, s.revoked.has (sessionKey t c.1 c.2) = false →
    SameReports breaker t c s db
  modules : (s.modules.keys ++ evidenceKeys breaker t batch).toFinset.card ≤ maxMemorySessions
  revoked : (s.revoked.keys ++ ((sessionsOf batch).filter fun c =>
    breaker.minLayers ≤ (s.reporting breaker t c).toFinset.card).map fun c =>
      sessionKey t c.1 c.2).toFinset.card ≤ maxMemorySessions

/-- The database takes the texts as they are, the session is not revoked, there
is room for it, and layers are named unless an earlier revocation of the session
named none either. -/
structure RevokeGuard (t a se : Identity) (reason trigger : JsString) (layers : List ModuleName)
    (s : MemoryStore) (db : Database) : Prop where
  wellFormed : t.IsWellFormed ∧ a.IsWellFormed ∧ se.IsWellFormed
  texts : ∀ texts, revocationTexts reason trigger = .ok texts →
    (texts.1.toWellFormed = texts.1 ∧ 0 ∉ texts.1.units) ∧
      (texts.2.toWellFormed = texts.2 ∧ 0 ∉ texts.2.units)
  inactive : s.revoked.has (sessionKey t a se) = false
  room : s.revoked.size < maxMemorySessions
  layers : sortedLayers layers = [] → ∀ row, db.revokedSessions.get? (t, a, se) = some row →
    row.revocation.layers = []

def storesGuard (breaker : CircuitBreaker) (st : TwoStores) : RevocationCall → Prop
  | .revoke t a se reason trigger layers _ _ =>
      RevokeGuard t a se reason trigger layers st.memory st.database
  | .restore t a se _ _ => t.IsWellFormed ∧ a.IsWellFormed ∧ se.IsWellFormed
  | .evaluate batch ledger table _ _ _ =>
      (∀ e ∈ st.memory.events.values, e ∈ ledger.values) ∧
        ∀ first ∈ batch.head?, BatchGuard breaker first.tenantId batch
          { st.memory with events := ledger } { st.database with events := table }

/-! ## One revocation on both stores -/

def SessionRevocation.key (r : SessionRevocation) : Identity × Identity × Identity :=
  (r.tenantId, r.agentId, r.sessionId)

def KeyWellFormed (k : Identity × Identity × Identity) : Prop :=
  k.1.IsWellFormed ∧ k.2.1.IsWellFormed ∧ k.2.2.IsWellFormed

def MemoryStore.active (s : MemoryStore) (k : Identity × Identity × Identity) :
    Option SessionRevocation :=
  s.revoked.get? (sessionKey k.1 k.2.1 k.2.2)

def Database.active (db : Database) (k : Identity × Identity × Identity) :
    Option SessionRevocation :=
  ((db.revokedSessions.get? k).filter (·.restoredAt = none)).map (·.revocation)

theorem rowKey_of_wellFormed {t a se : Identity} (h : KeyWellFormed (t, a, se)) :
    rowKey t a se = (t, a, se) := by
  obtain ⟨ht, ha, hse⟩ := h
  exact Prod.ext ht (Prod.ext ha hse)

section
variable {t a se : Identity} {reason trigger : JsString} {layers : List ModuleName} {now : ℕ}
  {db : Database}

/-- An active revocation keeps its row. -/
theorem Database.revoke_of_active {r : SessionRevocation} (h : KeyWellFormed (t, a, se))
    (hactive : db.active (t, a, se) = some r) (k : Identity × Identity × Identity) :
    (db.revoke t a se reason trigger layers now).revokedSessions.get? k =
      db.revokedSessions.get? k := by
  have hkey := rowKey_of_wellFormed h
  obtain ⟨row, hrow, -⟩ := Option.map_eq_some_iff.mp hactive
  obtain ⟨hget, hnone⟩ := Option.filter_eq_some_iff.mp hrow
  have hnone' : row.restoredAt = none := of_decide_eq_true hnone
  unfold rowKey at hkey
  simp only [Database.revoke, hkey, hget, hnone', InsertionMap.get?_set]
  split_ifs with heq
  · rw [← heq, hget]
  · rfl

/-- A session that is not revoked gets the record of the call. -/
theorem Database.revoke_of_inactive (h : KeyWellFormed (t, a, se))
    (hreason : reason.toWellFormed = reason) (htrigger : trigger.toWellFormed = trigger)
    (hlayers : sortedLayers layers = [] → ∀ row, db.revokedSessions.get? (t, a, se) = some row →
      row.revocation.layers = [])
    (hinactive : db.active (t, a, se) = none) :
    db.revoke t a se reason trigger layers now =
      { db with
        revokedSessions := db.revokedSessions.set (t, a, se)
          ⟨⟨t, a, se, now, reason, trigger, sortedLayers layers⟩, none⟩ } := by
  have ht : t.toWellFormed = t := h.1
  have ha : a.toWellFormed = a := h.2.1
  have hse : se.toWellFormed = se := h.2.2
  unfold Database.revoke
  simp only [ht, ha, hse, hreason, htrigger]
  cases hget : db.revokedSessions.get? (t, a, se) with
  | none => rfl
  | some row =>
      cases hrestored : row.restoredAt with
      | none =>
          simp [Database.active, hget, hrestored] at hinactive
      | some restored =>
          have hsame : (if (sortedLayers layers).isEmpty then row.revocation.layers
              else sortedLayers layers) = sortedLayers layers := by
            split_ifs with hempty
            · rw [List.isEmpty_iff.mp hempty]
              exact hlayers (List.isEmpty_iff.mp hempty) row hget
            · rfl
          simp only [hrestored, hsame]

/-- Without an earlier record there are no layers to keep. -/
theorem MemoryStore.put_of_inactive {s : MemoryStore}
    (hinactive : s.revoked.has (sessionKey t a se) = false) :
    s.put t a se reason trigger layers now =
      { s with
        revoked := s.revoked.set (sessionKey t a se)
          ⟨t, a, se, now, reason, trigger, sortedLayers layers⟩
        restoredAt := s.restoredAt.erase (sessionKey t a se) } := by
  unfold MemoryStore.put
  simp only [InsertionMap.get?_of_not_has hinactive, Option.map_none, Option.getD_none]
  split_ifs with hempty
  · rw [List.isEmpty_iff.mp hempty]
  · rfl

end

/-! ## The agreement -/

/-- Both stores hold the same records under their own keys, and the module sets
of sessions that are not revoked are backed by late reports. -/
structure TwoStores.Agree (breaker : CircuitBreaker) (st : TwoStores) : Prop where
  keyed : ∀ k r, st.memory.revoked.get? k = some r →
    k = sessionKey r.tenantId r.agentId r.sessionId ∧ KeyWellFormed r.key
  rowed : ∀ k row, st.database.revokedSessions.get? k = some row →
    k = row.revocation.key ∧ KeyWellFormed k
  records : ∀ k, KeyWellFormed k →
    (st.memory.active k).map (·.shown) = (st.database.active k).map (·.shown)
  reported : ∀ t (c : Identity × Identity), st.memory.revoked.has (sessionKey t c.1 c.2) = false →
    ∀ m ∈ (st.memory.modules.get? (sessionKey t c.1 c.2)).getD [],
      m ∈ st.memory.reporting breaker t c
  bounded : st.memory.modules.size ≤ maxMemorySessions

theorem TwoStores.init_agree (breaker : CircuitBreaker) : TwoStores.init.Agree breaker := by
  refine ⟨?_, ?_, fun _ _ => rfl, ?_, Nat.zero_le _⟩
  · intro k r hr
    cases hr
  · intro k row hrow
    cases hrow
  · intro t c _ m hm
    cases hm

section
variable {breaker : CircuitBreaker} {s : MemoryStore} {db : Database}

theorem TwoStores.Agree.active_none_iff (h : TwoStores.Agree breaker ⟨s, db⟩)
    {k : Identity × Identity × Identity} (hk : KeyWellFormed k) :
    s.revoked.has (sessionKey k.1 k.2.1 k.2.2) = false ↔ db.active k = none := by
  have hrecords := h.records k hk
  unfold InsertionMap.has
  rw [Option.isSome_eq_false_iff, Option.isNone_iff_eq_none]
  constructor
  · intro hnone
    simp only [MemoryStore.active, hnone, Option.map_none] at hrecords
    exact Option.map_eq_none_iff.mp hrecords.symm
  · intro hnone
    simp only [hnone, Option.map_none] at hrecords
    exact Option.map_eq_none_iff.mp hrecords

/-- A watermark counts only while its session is not revoked. -/
theorem MemoryStore.mem_reporting {t : Identity} {c : Identity × Identity} {m : ModuleName} :
    m ∈ s.reporting breaker t c ↔
      ∃ e ∈ s.events.values, Reports breaker t c e ∧ s.late t c e = true ∧ e.moduleName = m := by
  simp only [MemoryStore.reporting, List.mem_map, List.mem_filter, Bool.and_eq_true,
    decide_eq_true_eq, and_assoc]

theorem MemoryStore.reporting_congr {s s' : MemoryStore} {t : Identity} {c : Identity × Identity}
    (hevents : s'.events = s.events)
    (hrestored : s'.restoredAt.get? (sessionKey t c.1 c.2) =
      s.restoredAt.get? (sessionKey t c.1 c.2)) :
    s'.reporting breaker t c = s.reporting breaker t c := by
  unfold MemoryStore.reporting MemoryStore.late
  rw [hevents, hrestored]

/-- Revoking a session that neither store holds revoked. -/
theorem TwoStores.Agree.put (h : TwoStores.Agree breaker ⟨s, db⟩) {t a se : Identity}
    {reason trigger : JsString} {layers : List ModuleName} (memoryNow databaseNow : ℕ)
    (hk : KeyWellFormed (t, a, se)) (hreason : reason.toWellFormed = reason)
    (htrigger : trigger.toWellFormed = trigger)
    (hlayers : sortedLayers layers = [] → ∀ row, db.revokedSessions.get? (t, a, se) = some row →
      row.revocation.layers = [])
    (hinactive : s.revoked.has (sessionKey t a se) = false) :
    TwoStores.Agree breaker
      ⟨s.put t a se reason trigger layers memoryNow,
        db.revoke t a se reason trigger layers databaseNow⟩ := by
  have hnone := (h.active_none_iff hk).mp hinactive
  rw [MemoryStore.put_of_inactive hinactive,
    Database.revoke_of_inactive hk hreason htrigger hlayers hnone]
  refine ⟨?_, ?_, ?_, ?_, h.bounded⟩
  · intro k r hr
    simp only [InsertionMap.get?_set] at hr
    split_ifs at hr with heq
    · cases hr
      exact ⟨heq.symm, hk⟩
    · exact h.keyed k r hr
  · intro k row hrow
    simp only [InsertionMap.get?_set] at hrow
    split_ifs at hrow with heq
    · cases hrow
      exact ⟨heq.symm, heq ▸ hk⟩
    · exact h.rowed k row hrow
  · intro k hwf
    by_cases heq : (t, a, se) = k
    · subst heq
      simp [MemoryStore.active, Database.active, SessionRevocation.shown]
    · have hne : sessionKey t a se ≠ sessionKey k.1 k.2.1 k.2.2 := by
        intro hkey
        obtain ⟨h₁, h₂, h₃⟩ := sessionKey_inj.mp hkey
        exact heq (Prod.ext h₁ (Prod.ext h₂ h₃))
      have hold := h.records k hwf
      simp only [MemoryStore.active, Database.active] at hold ⊢
      rwa [InsertionMap.get?_set_of_ne hne, InsertionMap.get?_set_of_ne heq]
  · intro t' c hc m hm
    simp only [InsertionMap.has_set, Bool.or_eq_false_iff, decide_eq_false_iff_not] at hc
    have hold := h.reported t' c hc.2 m hm
    rw [@MemoryStore.reporting_congr breaker s _ t' c]
    · exact hold
    · rfl
    · rw [InsertionMap.get?_erase, if_neg fun heq => hc.1 heq.symm]

theorem Database.active_restore (k : Identity × Identity × Identity) {t a se : Identity} (h : KeyWellFormed (t, a, se)) (now : ℕ) :
    (db.restore t a se now).1.active k = if k = (t, a, se) then none else db.active k := by
  have hkey : (t.toWellFormed, a.toWellFormed, se.toWellFormed) = (t, a, se) :=
    rowKey_of_wellFormed h
  unfold Database.restore
  simp only [hkey]
  cases hget : db.revokedSessions.get? (t, a, se) with
  | none =>
      split_ifs with heq
      · simp [Database.active, heq, hget]
      · rfl
  | some row =>
      by_cases hnone : row.restoredAt = none
      · simp only [if_pos hnone, Database.active, InsertionMap.get?_set]
        by_cases heq : k = (t, a, se)
        · simp [heq]
        · rw [if_neg heq, if_neg fun h' => heq h'.symm]
      · simp only [if_neg hnone]
        split_ifs with heq
        · simp [Database.active, heq, hget, hnone]
        · rfl

theorem TwoStores.Agree.restore (h : TwoStores.Agree breaker ⟨s, db⟩) {t a se : Identity}
    (memoryNow databaseNow : ℕ) (hk : KeyWellFormed (t, a, se)) :
    TwoStores.Agree breaker
      ⟨(s.restore t a se memoryNow).1, (db.restore t a se databaseNow).1⟩ := by
  refine ⟨?_, ?_, ?_, ?_, InsertionMap.size_erase_le.trans h.bounded⟩
  · intro k r hr
    simp only [MemoryStore.restore, InsertionMap.get?_erase] at hr
    split_ifs at hr
    exact h.keyed k r hr
  · intro k row hrow
    have hkey : (t.toWellFormed, a.toWellFormed, se.toWellFormed) = (t, a, se) :=
      rowKey_of_wellFormed hk
    simp only [Database.restore, hkey] at hrow
    cases hget : db.revokedSessions.get? (t, a, se) with
    | none =>
        simp only [hget] at hrow
        exact h.rowed k row hrow
    | some row₀ =>
        simp only [hget] at hrow
        split_ifs at hrow
        · simp only [InsertionMap.get?_set] at hrow
          split_ifs at hrow with heq
          · cases hrow
            exact heq ▸ h.rowed _ row₀ hget
          · exact h.rowed k row hrow
        · exact h.rowed k row hrow
  · intro k hwf
    have hold := h.records k hwf
    dsimp only
    rw [Database.active_restore k hk]
    simp only [MemoryStore.active, MemoryStore.restore, InsertionMap.get?_erase] at hold ⊢
    by_cases heq : k = (t, a, se)
    · simp [heq]
    · have hne : sessionKey k.1 k.2.1 k.2.2 ≠ sessionKey t a se := by
        intro hkey
        obtain ⟨h₁, h₂, h₃⟩ := sessionKey_inj.mp hkey
        exact heq (Prod.ext h₁ (Prod.ext h₂ h₃))
      rwa [if_neg hne, if_neg heq]
  · intro t' c hc m hm
    simp only [MemoryStore.restore, InsertionMap.has_erase, InsertionMap.get?_erase] at hc hm
    by_cases heq : sessionKey t' c.1 c.2 = sessionKey t a se
    · simp [heq] at hm
    · rw [if_neg heq] at hm
      have hsame := @MemoryStore.reporting_congr breaker s (s.restore t a se memoryNow).1 t' c rfl
        (InsertionMap.get?_set_of_ne fun h' => heq h'.symm)
      dsimp only
      rw [hsame]
      refine h.reported t' c ?_ m hm
      simpa [heq] using hc

/-! ## One evaluation on both stores -/

theorem revocationTexts_breaker_wellFormed (modules : List ModuleName) :
    ∀ texts ∈ (revocationTexts (breakerReason (sortedLayers modules)) autoCircuitBreaker).toOption,
      texts.1.toWellFormed = texts.1 ∧ texts.2.toWellFormed = texts.2 := by
  unfold sortedLayers
  generalize (fun m => modules.contains m) = f
  cases h₁ : f .mcpShield <;> cases h₂ : f .traceAudit <;> cases h₃ : f .vectorAnchor <;>
    simp only [knownModules, List.filter, h₁, h₂, h₃] <;> decide +kernel

/-- Records of active revocations that a call leaves as they are. -/
def TwoStores.Keeps (st st' : TwoStores) (k : Identity × Identity × Identity) : Prop :=
  (∀ r, st.memory.active k = some r → st'.memory.active k = some r) ∧
    ∀ r, st.database.active k = some r → st'.database.active k = some r

theorem TwoStores.Keeps.refl (st : TwoStores) (k : Identity × Identity × Identity) :
    st.Keeps st k := ⟨fun _ => id, fun _ => id⟩

theorem TwoStores.Keeps.trans {st st' st'' : TwoStores} {k : Identity × Identity × Identity}
    (h : st.Keeps st' k) (h' : st'.Keeps st'' k) : st.Keeps st'' k :=
  ⟨fun r hr => h'.1 r (h.1 r hr), fun r hr => h'.2 r (h.2 r hr)⟩

theorem Database.active_congr {db' : Database} {k : Identity × Identity × Identity}
    (h : db'.revokedSessions.get? k = db.revokedSessions.get? k) : db'.active k = db.active k := by
  unfold Database.active
  rw [h]

/-- The same rows, but for the times they were written at. -/
def Database.SameRecords (db db' : Database) : Prop :=
  ∀ k, (db.revokedSessions.get? k).map (fun row => (row.revocation.shown, row.restoredAt)) =
    (db'.revokedSessions.get? k).map fun row => (row.revocation.shown, row.restoredAt)

theorem Database.SameRecords.refl (db : Database) : db.SameRecords db := fun _ => rfl

theorem Database.SameRecords.trans {db₁ db₂ db₃ : Database} (h : db₁.SameRecords db₂)
    (h' : db₂.SameRecords db₃) : db₁.SameRecords db₃ := fun k => (h k).trans (h' k)

theorem Database.SameRecords.row {db db' : Database} (h : db.SameRecords db')
    {k : Identity × Identity × Identity} {row' : RevokedSessionRow}
    (hrow' : db'.revokedSessions.get? k = some row') :
    ∃ row, db.revokedSessions.get? k = some row ∧ row.revocation.shown = row'.revocation.shown ∧
      row.restoredAt = row'.restoredAt := by
  have hk := h k
  rw [hrow', Option.map_some, Option.map_eq_some_iff] at hk
  obtain ⟨row, hrow, hsame⟩ := hk
  exact ⟨row, hrow, congrArg Prod.fst hsame, congrArg Prod.snd hsame⟩

theorem Database.SameRecords.active {db db' : Database} (h : db.SameRecords db')
    (k : Identity × Identity × Identity) :
    (db.active k).map (·.shown) = (db'.active k).map (·.shown) := by
  have hk := h k
  unfold Database.active
  cases hdb : db.revokedSessions.get? k with
  | none =>
      rw [hdb, Option.map_none, eq_comm, Option.map_eq_none_iff] at hk
      rw [hk]
  | some row =>
      cases hdb' : db'.revokedSessions.get? k with
      | none =>
          rw [hdb, hdb'] at hk
          cases hk
      | some row' =>
          rw [hdb, hdb', Option.map_some, Option.map_some, Option.some.injEq] at hk
          obtain ⟨hshown, hrestored⟩ := Prod.ext_iff.mp hk
          dsimp only at hshown hrestored
          cases hnone : row.restoredAt with
          | none => simp [Option.filter, hnone, hrestored ▸ hnone, hshown]
          | some restored => simp [Option.filter, hnone, hrestored ▸ hnone]

/-- The agreement reads no times. -/
theorem TwoStores.Agree.sameRecords (h : TwoStores.Agree breaker ⟨s, db⟩) {db' : Database}
    (hsame : db.SameRecords db') : TwoStores.Agree breaker ⟨s, db'⟩ := by
  refine ⟨h.keyed, ?_, ?_, h.reported, h.bounded⟩
  · intro k row' hrow'
    obtain ⟨row, hrow, hshown, -⟩ := hsame.row hrow'
    obtain ⟨hkey, hwf⟩ := h.rowed k row hrow
    refine ⟨?_, hwf⟩
    simp only [SessionRevocation.shown, Prod.mk.injEq] at hshown
    rw [hkey]
    exact Prod.ext hshown.1 (Prod.ext hshown.2.1 hshown.2.2.1)
  · intro k hk
    exact (h.records k hk).trans (hsame.active k)

/-! ### Revocations in any order -/

section
variable {t a se : Identity} {reason trigger : JsString} {layers : List ModuleName} {now : ℕ}
  {k : Identity × Identity × Identity}

theorem Database.revoke_get?_of_ne (h : rowKey t a se ≠ k) :
    (db.revoke t a se reason trigger layers now).revokedSessions.get? k =
      db.revokedSessions.get? k := InsertionMap.get?_set_of_ne h

/-- The row of a session is written from what was there. -/
theorem Database.revoke_get?_self {db' : Database}
    (h : db.revokedSessions.get? (rowKey t a se) = db'.revokedSessions.get? (rowKey t a se)) :
    (db.revoke t a se reason trigger layers now).revokedSessions.get? (rowKey t a se) =
      (db'.revoke t a se reason trigger layers now).revokedSessions.get? (rowKey t a se) := by
  unfold rowKey at h ⊢
  simp only [Database.revoke, InsertionMap.get?_set_self, h]

end

/-- What was written before decides what is written, not when. -/
theorem Database.SameRecords.revoke {db db' : Database} (h : db.SameRecords db') (t a se : Identity)
    (reason trigger : JsString) (layers : List ModuleName) (now now' : ℕ) :
    (db.revoke t a se reason trigger layers now).SameRecords
      (db'.revoke t a se reason trigger layers now') := by
  intro k
  by_cases heq : rowKey t a se = k
  · subst heq
    simp only [Database.revoke, rowKey, InsertionMap.get?_set_self, Option.map_some,
      Option.some.injEq]
    cases hrow' : db'.revokedSessions.get? (t.toWellFormed, a.toWellFormed, se.toWellFormed) with
    | none =>
        have hk := h (t.toWellFormed, a.toWellFormed, se.toWellFormed)
        rw [hrow', Option.map_none, Option.map_eq_none_iff] at hk
        rw [hk]
        rfl
    | some row' =>
        obtain ⟨row, hrow, hshown, hrestored⟩ := h.row hrow'
        rw [hrow]
        dsimp only
        rw [hrestored]
        cases hrestored' : row'.restoredAt with
        | none => exact Prod.ext hshown hrestored
        | some restored =>
            have hlayers : row.revocation.layers = row'.revocation.layers := by
              simp only [SessionRevocation.shown, Prod.mk.injEq] at hshown
              exact hshown.2.2.2.2.2
            simp only [SessionRevocation.shown, hlayers]
  · rw [Database.revoke_get?_of_ne heq, Database.revoke_get?_of_ne heq]
    exact h k

/-- Two sessions are revoked in either order. -/
theorem Database.revoke_comm {t a se t' a' se' : Identity}
    {reason trigger reason' trigger' : JsString} {layers layers' : List ModuleName} {now now' : ℕ}
    (hne : rowKey t a se ≠ rowKey t' a' se') :
    ((db.revoke t a se reason trigger layers now).revoke t' a' se' reason' trigger' layers'
        now').SameRecords
      ((db.revoke t' a' se' reason' trigger' layers' now').revoke t a se reason trigger layers
        now) := by
  intro k
  refine congrArg _ ?_
  by_cases h : rowKey t a se = k
  · subst h
    rw [Database.revoke_get?_of_ne hne.symm]
    exact Database.revoke_get?_self (Database.revoke_get?_of_ne hne.symm).symm
  · rw [Database.revoke_get?_of_ne h]
    by_cases h' : rowKey t' a' se' = k
    · subst h'
      exact Database.revoke_get?_self (Database.revoke_get?_of_ne h)
    · rw [Database.revoke_get?_of_ne h', Database.revoke_get?_of_ne h',
        Database.revoke_get?_of_ne h]

section
variable {t : Identity} {revokedAt : ℕ → ℕ}

/-- One turn of the loop over the groups. -/
theorem Database.revokeRows_cons (breaker : CircuitBreaker) (t : Identity) (revokedAt : ℕ → ℕ)
    {row : (Identity × Identity) × List ModuleName}
    (hrow : ∃ modules, row.2 = sortedLayers modules) :
    ∃ texts : JsString × JsString, ∀ rows i (db : Database),
      db.revokeRows breaker t revokedAt i (row :: rows) =
        (if breaker.minLayers ≤ row.2.length then
          db.revoke t row.1.1 row.1.2 texts.1 texts.2 row.2 (revokedAt i) else db).revokeRows
            breaker t revokedAt (i + 1) rows := by
  obtain ⟨modules, hmodules⟩ := hrow
  obtain ⟨texts, htexts⟩ := revocationTexts_breaker modules
  refine ⟨texts, fun rows i db => ?_⟩
  rw [← hmodules] at htexts
  simp only [Database.revokeRows, htexts]
  split_ifs <;> rfl

theorem Database.SameRecords.revokeRows {db db' : Database}
    {rows : List ((Identity × Identity) × List ModuleName)}
    (hrows : ∀ row ∈ rows, ∃ modules, row.2 = sortedLayers modules) (h : db.SameRecords db')
    (i j : ℕ) :
    (db.revokeRows breaker t revokedAt i rows).1.SameRecords
      (db'.revokeRows breaker t revokedAt j rows).1 := by
  induction rows generalizing db db' i j with
  | nil => exact h
  | cons row rows ih =>
      obtain ⟨texts, hcons⟩ := Database.revokeRows_cons breaker t revokedAt
        (hrows row List.mem_cons_self)
      rw [hcons, hcons]
      refine ih (fun row' hrow' => hrows row' (List.mem_cons_of_mem row hrow')) ?_ (i + 1) (j + 1)
      split_ifs
      · exact h.revoke _ _ _ _ _ _ _ _
      · exact h

/-- The order of the groups decides only the times. -/
theorem Database.revokeRows_perm {rows rows' : List ((Identity × Identity) × List ModuleName)}
    (hperm : rows.Perm rows') (hrows : ∀ row ∈ rows, ∃ modules, row.2 = sortedLayers modules)
    (hkeys : ∀ row ∈ rows, ∀ row' ∈ rows,
      rowKey t row.1.1 row.1.2 = rowKey t row'.1.1 row'.1.2 → row = row')
    {db db' : Database} (h : db.SameRecords db') (i j : ℕ) :
    (db.revokeRows breaker t revokedAt i rows).1.SameRecords
      (db'.revokeRows breaker t revokedAt j rows').1 := by
  induction hperm generalizing db db' i j with
  | nil => exact h
  | @cons row rows rows' _ ih =>
      obtain ⟨texts, hcons⟩ := Database.revokeRows_cons breaker t revokedAt
        (hrows row List.mem_cons_self)
      rw [hcons, hcons]
      refine ih (fun r hr => hrows r (List.mem_cons_of_mem row hr))
        (fun r hr r' hr' => hkeys r (List.mem_cons_of_mem row hr) r' (List.mem_cons_of_mem row hr'))
        ?_ (i + 1) (j + 1)
      split_ifs
      · exact h.revoke _ _ _ _ _ _ _ _
      · exact h
  | swap row₁ row₂ rows =>
      by_cases hkey : rowKey t row₂.1.1 row₂.1.2 = rowKey t row₁.1.1 row₁.1.2
      · have hsame := hkeys row₂ List.mem_cons_self row₁
          (List.mem_cons_of_mem row₂ List.mem_cons_self) hkey
        subst hsame
        exact h.revokeRows hrows i j
      · obtain ⟨texts₂, hcons₂⟩ := Database.revokeRows_cons breaker t revokedAt
          (hrows row₂ List.mem_cons_self)
        obtain ⟨texts₁, hcons₁⟩ := Database.revokeRows_cons breaker t revokedAt
          (hrows row₁ (List.mem_cons_of_mem row₂ List.mem_cons_self))
        rw [hcons₂, hcons₁, hcons₁, hcons₂]
        refine Database.SameRecords.revokeRows (fun row hrow => hrows row
          (List.mem_cons_of_mem row₂ (List.mem_cons_of_mem row₁ hrow))) ?_ (i + 1 + 1) (j + 1 + 1)
        split_ifs
        · exact ((h.revoke _ _ _ _ _ _ _ _).revoke _ _ _ _ _ _ _ _).trans
            (Database.revoke_comm hkey)
        · exact h.revoke _ _ _ _ _ _ _ _
        · exact h.revoke _ _ _ _ _ _ _ _
        · exact h
  | @trans rows₁ rows₂ rows₃ h₁₂ _ ih₁ ih₂ =>
      have hrows₂ : ∀ row ∈ rows₂, ∃ modules, row.2 = sortedLayers modules :=
        fun row hrow => hrows row (h₁₂.mem_iff.mpr hrow)
      have hkeys₂ : ∀ row ∈ rows₂, ∀ row' ∈ rows₂,
          rowKey t row.1.1 row.1.2 = rowKey t row'.1.1 row'.1.2 → row = row' :=
        fun row hrow row' hrow' =>
          hkeys row (h₁₂.mem_iff.mpr hrow) row' (h₁₂.mem_iff.mpr hrow')
      exact (ih₁ hrows hkeys h i j).trans (ih₂ hrows₂ hkeys₂ (Database.SameRecords.refl db') j j)

/-- An active revocation keeps its record, whatever is called. -/
theorem Database.active_revoke {a se : Identity} {reason trigger : JsString}
    {layers : List ModuleName} {now : ℕ} {k : Identity × Identity × Identity}
    {r : SessionRevocation} (hr : db.active k = some r) :
    (db.revoke t a se reason trigger layers now).active k = some r := by
  by_cases hkey : rowKey t a se = k
  · obtain ⟨row, hrow, hr'⟩ := Option.map_eq_some_iff.mp hr
    obtain ⟨hget, hnone⟩ := Option.filter_eq_some_iff.mp hrow
    have hnone' : row.restoredAt = none := of_decide_eq_true hnone
    unfold rowKey at hkey
    simp [Database.active, Database.revoke, hkey, hget, hnone', hr']
  · exact (Database.active_congr (Database.revoke_get?_of_ne hkey)).trans hr

theorem Database.active_revokeRows {rows : List ((Identity × Identity) × List ModuleName)} {i : ℕ}
    {k : Identity × Identity × Identity} {r : SessionRevocation} (hr : db.active k = some r) :
    (db.revokeRows breaker t revokedAt i rows).1.active k = some r := by
  induction rows generalizing db i with
  | nil => exact hr
  | cons row rows ih =>
      simp only [Database.revokeRows]
      split
      · split
        · exact hr
        · exact ih (Database.active_revoke hr)
      · exact ih hr

end

/-- A new record leaves the other ones as they are. -/
theorem MemoryStore.active_put {t a se : Identity} {reason trigger : JsString}
    {layers : List ModuleName} {now : ℕ}
    (hinactive : s.revoked.has (sessionKey t a se) = false) {k : Identity × Identity × Identity}
    {r : SessionRevocation} (hr : s.active k = some r) :
    (s.put t a se reason trigger layers now).active k = some r := by
  rw [MemoryStore.put_of_inactive hinactive]
  have hne : sessionKey t a se ≠ sessionKey k.1 k.2.1 k.2.2 := by
    intro heq
    rw [heq] at hinactive
    have hnone := InsertionMap.get?_of_not_has hinactive
    rw [show s.revoked.get? (sessionKey k.1 k.2.1 k.2.2) = some r from hr] at hnone
    cases hnone
  exact (InsertionMap.get?_set_of_ne hne).trans hr

/-- A revocation on both stores leaves the other records as they are. -/
theorem TwoStores.keeps_put {t a se : Identity}
    {reason trigger : JsString} {layers : List ModuleName} (memoryNow databaseNow : ℕ)
    (hinactive : s.revoked.has (sessionKey t a se) = false) (k : Identity × Identity × Identity) :
    TwoStores.Keeps ⟨s, db⟩
      ⟨s.put t a se reason trigger layers memoryNow,
        db.revoke t a se reason trigger layers databaseNow⟩ k :=
  ⟨fun _ hr => MemoryStore.active_put hinactive hr, fun _ hr => Database.active_revoke hr⟩

theorem MemoryStore.RevokedOnly.sessionModules {s' : MemoryStore} {hit : JsString → Prop}
    (h : s.RevokedOnly s' hit) {t a se : Identity}
    (hc : s'.revoked.has (sessionKey t a se) = false) :
    s'.sessionModules breaker t a se = s.sessionModules breaker t a se := by
  unfold MemoryStore.sessionModules MemoryStore.ledger
  simp only [h.events, h.modules, h.restoredAt _ hc]

/-- The groups of the query for some sessions, given the layers found for each. -/
def layerGroups (L : Identity × Identity → List ModuleName) (sessions : List (Identity × Identity)) :
    List ((Identity × Identity) × List ModuleName) :=
  (sessions.map fun c => (c, L c)).filter fun row => !row.2.isEmpty

theorem layerGroups_sorted {L : Identity × Identity → List ModuleName}
    (hL : ∀ c, ∃ modules, L c = sortedLayers modules) {sessions : List (Identity × Identity)}
    {row : (Identity × Identity) × List ModuleName} (hrow : row ∈ layerGroups L sessions) :
    ∃ modules, row.2 = sortedLayers modules := by
  obtain ⟨c, -, rfl⟩ := List.mem_map.mp (List.mem_of_mem_filter hrow)
  exact hL c

/-- One group for each key. -/
theorem layerGroups_keys {t : Identity} {L : Identity × Identity → List ModuleName}
    {sessions : List (Identity × Identity)}
    (hwf : ∀ c ∈ sessions, KeyWellFormed (t, c.1, c.2))
    {row row' : (Identity × Identity) × List ModuleName} (hrow : row ∈ layerGroups L sessions)
    (hrow' : row' ∈ layerGroups L sessions)
    (hkey : rowKey t row.1.1 row.1.2 = rowKey t row'.1.1 row'.1.2) : row = row' := by
  obtain ⟨c, hc, rfl⟩ := List.mem_map.mp (List.mem_of_mem_filter hrow)
  obtain ⟨c', hc', rfl⟩ := List.mem_map.mp (List.mem_of_mem_filter hrow')
  rw [rowKey_of_wellFormed (hwf c hc), rowKey_of_wellFormed (hwf c' hc')] at hkey
  have hsame : c = c' := congrArg Prod.snd hkey
  rw [hsame]

theorem layerGroups_cons {L : Identity × Identity → List ModuleName} {c : Identity × Identity}
    {rest : List (Identity × Identity)} : layerGroups L (c :: rest) =
      if L c = [] then layerGroups L rest else (c, L c) :: layerGroups L rest := by
  unfold layerGroups
  rw [List.map_cons, List.filter_cons]
  by_cases hempty : L c = []
  · simp [hempty]
  · simp [hempty]

/-- A session that is revoked, or reported by too few layers, does not change the records. -/
theorem Database.revokeRows_idle {t : Identity} {L : Identity × Identity → List ModuleName}
    (hL : ∀ c, ∃ modules, L c = sortedLayers modules) {c : Identity × Identity}
    (hk : KeyWellFormed (t, c.1, c.2))
    (hidle : breaker.minLayers ≤ (L c).length → ∃ r, db.active (t, c.1, c.2) = some r)
    (rest : List (Identity × Identity)) (revokedAt : ℕ → ℕ) (j : ℕ) :
    (db.revokeRows breaker t revokedAt j (layerGroups L rest)).1.SameRecords
      (db.revokeRows breaker t revokedAt j (layerGroups L (c :: rest))).1 := by
  have hrest : ∀ row ∈ layerGroups L rest, ∃ modules, row.2 = sortedLayers modules :=
    fun row hrow => layerGroups_sorted hL hrow
  rw [layerGroups_cons]
  by_cases hempty : L c = []
  · rw [if_pos hempty]
    exact Database.SameRecords.refl _
  · obtain ⟨texts, hcons⟩ := @Database.revokeRows_cons breaker t revokedAt (c, L c) (hL c)
    rw [if_neg hempty, hcons]
    apply Database.SameRecords.revokeRows hrest
    by_cases hmin : breaker.minLayers ≤ (L c).length
    · obtain ⟨r, hr⟩ := hidle hmin
      have hrows := @Database.revoke_of_active t c.1 c.2 texts.1 texts.2 (L c) (revokedAt j) db r
        hk hr
      rw [if_pos hmin]
      exact fun k => by rw [hrows k]
    · rw [if_neg hmin]
      exact Database.SameRecords.refl db

/-- The loops over the sessions of a batch, from stores that agree. Where no
revocation is active both find the same layers; an active one is passed over by
the one store and kept by the other. -/
theorem TwoStores.Agree.evaluateSessions {t : Identity} {K : Finset JsString}
    {L : Identity × Identity → List ModuleName} (hL : ∀ c, ∃ modules, L c = sortedLayers modules)
    (memoryNow databaseNow : ℕ → ℕ) {rest : List (Identity × Identity)}
    (h : TwoStores.Agree breaker ⟨s, db⟩) (hroomy : s.Roomy breaker t K rest)
    (hsame : ∀ c ∈ rest, s.revoked.has (sessionKey t c.1 c.2) = false →
      sortedLayers (s.sessionModules breaker t c.1 c.2) = L c)
    (hwf : ∀ c ∈ rest, KeyWellFormed (t, c.1, c.2)) (i j : ℕ) :
    ∃ s', s.evaluateSessions breaker t memoryNow i rest = (s', .ok ()) ∧
      TwoStores.Agree breaker
        ⟨s', (db.revokeRows breaker t databaseNow j (layerGroups L rest)).1⟩ ∧
      ∀ k r, s.active k = some r → s'.active k = some r := by
  induction rest generalizing s db i j with
  | nil => exact ⟨s, rfl, h, fun _ _ => id⟩
  | cons c rest ih =>
      have hwf' : ∀ c' ∈ rest, KeyWellFormed (t, c'.1, c'.2) :=
        fun c' hc' => hwf c' (List.mem_cons_of_mem c hc')
      have hsame' : ∀ c' ∈ rest, s.revoked.has (sessionKey t c'.1 c'.2) = false →
          sortedLayers (s.sessionModules breaker t c'.1 c'.2) = L c' :=
        fun c' hc' => hsame c' (List.mem_cons_of_mem c hc')
      have hk := hwf c List.mem_cons_self
      have hlayers := hsame c List.mem_cons_self
      by_cases htrips : breaker.minLayers ≤ (L c).length ∧
          s.revoked.has (sessionKey t c.1 c.2) = false
      · obtain ⟨hmin, hhas⟩ := htrips
        have hlayers := hlayers hhas
        obtain ⟨modules, hmodules⟩ := hL c
        obtain ⟨texts, htexts⟩ := revocationTexts_breaker modules
        have htextsWf := revocationTexts_breaker_wellFormed modules texts (by rw [htexts]; rfl)
        rw [← hmodules] at htexts
        have hne : L c ≠ [] := by
          intro hnil
          have hpos := breaker.pos
          rw [hnil, List.length_nil] at hmin
          omega
        have htrip : s.Trips breaker t c := by
          unfold MemoryStore.Trips
          rw [hlayers]
          exact hmin
        have hput := @MemoryStore.revoke_eq_put s t c.1 c.2 texts.1 texts.2 (L c) (memoryNow i) K
          hroomy.modules hroomy.card hroomy.revoked
            (hroomy.tripping c List.mem_cons_self htrip)
        rw [layerGroups_cons, if_neg hne]
        simp only [MemoryStore.evaluateSessions, Database.revokeRows, hlayers, hhas, hmin,
          and_self, if_true, htexts, hput]
        have hone : s.RevokedOnly (s.put t c.1 c.2 texts.1 texts.2 (L c) (memoryNow i))
            (· = sessionKey t c.1 c.2) := MemoryStore.put_spec
        have hnonempty : sortedLayers (L c) = [] → ∀ row,
            db.revokedSessions.get? (t, c.1, c.2) = some row → row.revocation.layers = [] := by
          intro hnil
          obtain ⟨m, hm⟩ := List.exists_mem_of_ne_nil _ hne
          rw [← mem_sortedLayers, hnil] at hm
          cases hm
        obtain ⟨s', hs', hagree, hkeeps⟩ :=
          ih (h.put (memoryNow i) (databaseNow j) hk htextsWf.1 htextsWf.2 hnonempty hhas)
            (hroomy.revokedOnly htrip hone) (by
              intro c' hc' hfree
              have hbefore : s.revoked.has (sessionKey t c'.1 c'.2) = false :=
                Bool.eq_false_iff.mpr fun hold =>
                  Bool.eq_false_iff.mp hfree ((hone.revoked _).mpr (Or.inl hold))
              rw [hone.sessionModules hfree]
              exact hsame' c' hc' hbefore) hwf' (i + 1) (j + 1)
        exact ⟨s', hs', hagree, fun k r hr => hkeeps k r (MemoryStore.active_put hhas hr)⟩
      · have hskip : s.evaluateSessions breaker t memoryNow i (c :: rest) =
            s.evaluateSessions breaker t memoryNow (i + 1) rest := by
          cases hhas : s.revoked.has (sessionKey t c.1 c.2) with
          | true =>
              simp only [MemoryStore.evaluateSessions, hhas, Bool.true_eq_false, and_false, if_false]
          | false =>
              have hmin : ¬ breaker.minLayers ≤ (L c).length := fun hmin => htrips ⟨hmin, hhas⟩
              simp only [MemoryStore.evaluateSessions, hlayers hhas, hmin, false_and, if_false]
        have hidle : breaker.minLayers ≤ (L c).length → ∃ r, db.active (t, c.1, c.2) = some r := by
          intro hmin
          rw [← Option.ne_none_iff_exists', ne_eq, ← h.active_none_iff hk]
          exact fun hhas => htrips ⟨hmin, hhas⟩
        obtain ⟨s', hs', hagree, hkeeps⟩ := ih h hroomy.tail hsame' hwf' (i + 1) j
        exact ⟨s', hskip.trans hs',
          hagree.sameRecords (Database.revokeRows_idle hL hk hidle rest databaseNow j), hkeeps⟩

theorem sortedLayers_congr {modules modules' : List ModuleName}
    (h : ∀ m, m ∈ modules ↔ m ∈ modules') : sortedLayers modules = sortedLayers modules' := by
  unfold sortedLayers
  apply List.filter_congr
  intro m _
  rw [Bool.eq_iff_iff, List.contains_iff_mem, List.contains_iff_mem]
  exact h m

theorem MemoryStore.mem_sessionModules {t : Identity} {c : Identity × Identity} {m : ModuleName} :
    m ∈ s.sessionModules breaker t c.1 c.2 ↔
      m ∈ (s.modules.get? (sessionKey t c.1 c.2)).getD [] ∨ m ∈ s.reporting breaker t c := by
  rw [MemoryStore.mem_reporting]
  simp only [MemoryStore.sessionModules, MemoryStore.ledger, Reports, MemoryStore.late,
    List.mem_append, List.mem_map, List.mem_filter, Bool.and_eq_true, decide_eq_true_eq]
  constructor
  · rintro (hm | ⟨e, ⟨⟨he, ht⟩, ⟨hsession, hq⟩, hlate⟩, hname⟩)
    · exact Or.inl hm
    · exact Or.inr ⟨e, he, ⟨ht, hsession, hq⟩, hlate, hname⟩
  · rintro (hm | ⟨e, he, ⟨ht, hsession, hq⟩, hlate, hname⟩)
    · exact Or.inl hm
    · exact Or.inr ⟨e, ⟨⟨he, ht⟩, ⟨hsession, hq⟩, hlate⟩, hname⟩

theorem Database.mem_sessionModules {t : Identity} {c : Identity × Identity} {m : ModuleName} :
    m ∈ db.sessionModules breaker t c.1 c.2 ↔ ∃ row ∈ db.events.values,
      Reports breaker t c row.event ∧ db.late t c row = true ∧ row.event.moduleName = m := by
  simp only [Database.sessionModules, Reports, Database.late, List.mem_map, List.mem_filter,
    Bool.and_eq_true, decide_eq_true_eq]
  constructor
  · rintro ⟨row, ⟨hrow, ⟨⟨hsession, ht⟩, hq⟩, hlate⟩, hname⟩
    exact ⟨row, hrow, ⟨ht, hsession, hq⟩, hlate, hname⟩
  · rintro ⟨row, hrow, ⟨ht, hsession, hq⟩, hlate, hname⟩
    exact ⟨row, ⟨hrow, ⟨⟨hsession, ht⟩, hq⟩, hlate⟩, hname⟩

/-- The same reports come from the same modules. -/
theorem SameReports.modules {t : Identity} {c : Identity × Identity}
    (h : SameReports breaker t c s db) (m : ModuleName) :
    m ∈ s.reporting breaker t c ↔ m ∈ db.sessionModules breaker t c.1 c.2 := by
  rw [MemoryStore.mem_reporting, Database.mem_sessionModules]
  constructor
  · rintro ⟨e, he, hreports, hlate, hname⟩
    obtain ⟨row, hrow, hreports', hname', hlate'⟩ := h.forth e he hreports
    exact ⟨row, hrow, hreports', hlate'.trans hlate, hname'.trans hname⟩
  · rintro ⟨row, hrow, hreports, hlate, hname⟩
    obtain ⟨e, he, hreports', hname', hlate'⟩ := h.back row hrow hreports
    exact ⟨e, he, hreports', hlate'.trans hlate, hname'.trans hname⟩

theorem sessionsOf_nodup (batch : List MonolithEvent) : (sessionsOf batch).Nodup := by
  have hfold : ∀ (cs seen : List (Identity × Identity)), seen.Nodup →
      (cs.foldl (fun seen c => if seen.contains c then seen else seen ++ [c]) seen).Nodup := by
    intro cs
    induction cs with
    | nil => exact fun _ hseen => hseen
    | cons c cs ih =>
        intro seen hseen
        rw [List.foldl_cons]
        split
        · exact ih seen hseen
        · next hnew =>
            apply ih
            rw [← List.concat_eq_append]
            exact List.Nodup.concat (fun hmem => hnew (List.contains_iff_mem.mpr hmem)) hseen
  exact hfold _ [] List.nodup_nil

theorem Database.layerRows_of_wellFormed {groups : GroupOrder} {t : Identity}
    {batch : List MonolithEvent}
    (hwf : ∀ c ∈ sessionsOf batch, KeyWellFormed (t, c.1, c.2)) :
    db.layerRows breaker groups t (sessionsOf batch) =
      groups.read (layerGroups (fun c => sortedLayers (db.sessionModules breaker t c.1 c.2))
        (sessionsOf batch)) := by
  have hsame : (sessionsOf batch).map (fun c => (c.1.toWellFormed, c.2.toWellFormed)) =
      sessionsOf batch := by
    have hid : ∀ c ∈ sessionsOf batch, (c.1.toWellFormed, c.2.toWellFormed) = id c :=
      fun c hc => Prod.ext (hwf c hc).2.1 (hwf c hc).2.2
    rw [List.map_congr_left hid, List.map_id]
  unfold Database.layerRows layerGroups
  rw [hsame, eraseDups_of_nodup (sessionsOf_nodup batch)]
  cases hsessions : sessionsOf batch with
  | nil => rfl
  | cons c rest =>
      have ht : t.toWellFormed = t := (hwf c (hsessions ▸ List.mem_cons_self)).1
      rw [ht]

/-- Adding the modules of a guarded batch. -/
theorem TwoStores.Agree.addModules (h : TwoStores.Agree breaker ⟨s, db⟩) {t : Identity}
    {batch : List MonolithEvent} (hg : BatchGuard breaker t batch s db) :
    TwoStores.Agree breaker ⟨s.addModules breaker t batch, db⟩ := by
  obtain ⟨hevents, hrevoked, hrestored, hkeys, hmodules⟩ :=
    MemoryStore.addModules_spec breaker t batch s
  refine ⟨?_, h.rowed, ?_, ?_, ?_⟩
  · dsimp only
    rw [hrevoked]
    exact h.keyed
  · intro k hk
    have hold := h.records k hk
    simp only [MemoryStore.active, hrevoked] at hold ⊢
    exact hold
  · intro t' c hc m hm
    dsimp only at hc hm ⊢
    rw [hrevoked] at hc
    rw [MemoryStore.reporting_congr hevents (by rw [hrestored])]
    rcases hmodules _ m hm with hold | ⟨e, he, hq, hname, c', hsession, hkey⟩
    · exact h.reported t' c hc m hold
    · obtain ⟨rfl, h₁, h₂⟩ := sessionKey_inj.mp hkey
      have hsame : c = c' := Prod.ext h₁ h₂
      subst hsame
      have hreports : Reports breaker t' c e := ⟨hg.tenant e he, hsession, hq⟩
      exact MemoryStore.mem_reporting.mpr
        ⟨e, hg.stored e he, hreports, hg.late e he c hreports hc, hname⟩
  · exact (InsertionMap.size_le_card fun k hk => List.mem_toFinset.mpr (hkeys k hk)).trans
      hg.modules

/-- The sessions that are revoked, or that a guarded batch can revoke, fit into the store. -/
theorem BatchGuard.exists_cover {t : Identity} {batch : List MonolithEvent}
    (hg : BatchGuard breaker t batch s db) :
    ∃ K : Finset JsString, K.card ≤ maxMemorySessions ∧ (∀ k ∈ s.revoked.keys, k ∈ K) ∧
      ∀ c ∈ sessionsOf batch, breaker.minLayers ≤ (s.reporting breaker t c).toFinset.card →
        sessionKey t c.1 c.2 ∈ K := by
  refine ⟨_, hg.revoked, ?_, ?_⟩
  · exact fun k hk => List.mem_toFinset.mpr (List.mem_append_left _ hk)
  · intro c hc hmin
    refine List.mem_toFinset.mpr (List.mem_append_right _ (List.mem_map.mpr ⟨c, ?_, rfl⟩))
    exact List.mem_filter.mpr ⟨hc, decide_eq_true hmin⟩

/-- One evaluation of a guarded batch. -/
theorem TwoStores.Agree.evaluate (h : TwoStores.Agree breaker ⟨s, db⟩)
    {batch : List MonolithEvent}
    (hg : ∀ first ∈ batch.head?, BatchGuard breaker first.tenantId batch s db)
    (groups : GroupOrder) (memoryNow databaseNow : ℕ → ℕ) :
    TwoStores.Agree breaker ⟨(s.evaluateSessionCircuitBreaker breaker memoryNow batch).1,
      (db.evaluateSessionCircuitBreaker breaker groups databaseNow batch).1⟩ ∧
    ∀ k, TwoStores.Keeps ⟨s, db⟩ ⟨(s.evaluateSessionCircuitBreaker breaker memoryNow batch).1,
      (db.evaluateSessionCircuitBreaker breaker groups databaseNow batch).1⟩ k := by
  cases batch with
  | nil => exact ⟨h, TwoStores.Keeps.refl _⟩
  | cons first rest =>
      have hg : BatchGuard breaker first.tenantId (first :: rest) s db := hg first rfl
      obtain ⟨hevents, hrevoked, hrestored, -⟩ :=
        MemoryStore.addModules_spec breaker first.tenantId (first :: rest) s
      have hadded := h.addModules hg
      obtain ⟨K, hcard, hold, hnew⟩ := hg.exists_cover
      rw [← hrevoked] at hold
      have hbound := MemoryStore.enforceSessionBound_of_le
        ((InsertionMap.size_le_card hold).trans hcard) hadded.bounded
      have hreporting : ∀ c : Identity × Identity,
          (s.addModules breaker first.tenantId (first :: rest)).reporting breaker
            first.tenantId c = s.reporting breaker first.tenantId c :=
        fun c => MemoryStore.reporting_congr hevents (by rw [hrestored])
      simp only [MemoryStore.evaluateSessionCircuitBreaker, Database.evaluateSessionCircuitBreaker,
        hbound, Database.layerRows_of_wellFormed hg.wellFormed]
      generalize s.addModules breaker first.tenantId (first :: rest) = s₁ at *
      -- the module sets add nothing to the late reports of a session that is not revoked
      have hmodules : ∀ c : Identity × Identity,
          s₁.revoked.has (sessionKey first.tenantId c.1 c.2) = false → ∀ m,
            m ∈ s₁.sessionModules breaker first.tenantId c.1 c.2 ↔
              m ∈ s.reporting breaker first.tenantId c := by
        intro c hc m
        rw [MemoryStore.mem_sessionModules, ← hreporting c, or_iff_right_iff_imp]
        exact hadded.reported first.tenantId c hc m
      have hroomy : s₁.Roomy breaker first.tenantId K (sessionsOf (first :: rest)) := by
        refine ⟨hadded.bounded, hcard, hold, ?_⟩
        intro c hc htrip
        cases hhas : s₁.revoked.has (sessionKey first.tenantId c.1 c.2) with
        | true => exact hold _ (InsertionMap.has_iff.mp hhas)
        | false =>
            apply hnew c hc
            unfold MemoryStore.Trips at htrip
            rwa [sortedLayers_congr (hmodules c hhas), sortedLayers_length] at htrip
      have hsame : ∀ c ∈ sessionsOf (first :: rest),
          s₁.revoked.has (sessionKey first.tenantId c.1 c.2) = false →
            sortedLayers (s₁.sessionModules breaker first.tenantId c.1 c.2) =
              sortedLayers (db.sessionModules breaker first.tenantId c.1 c.2) := by
        intro c hc hhas
        apply sortedLayers_congr
        intro m
        rw [hmodules c hhas]
        exact (hg.same c hc (hrevoked ▸ hhas)).modules m
      obtain ⟨s', hs', hagree, hkeeps⟩ := hadded.evaluateSessions (fun c => ⟨_, rfl⟩)
        memoryNow databaseNow hroomy hsame hg.wellFormed 0 0
      rw [hs']
      refine ⟨hagree.sameRecords ?_, fun k => ⟨fun r hr => hkeeps k r ?_, fun r hr => ?_⟩⟩
      · exact Database.revokeRows_perm (groups.perm _).symm
          (fun row hrow => layerGroups_sorted (fun c => ⟨_, rfl⟩) hrow)
          (fun row hrow row' hrow' => layerGroups_keys hg.wellFormed hrow hrow')
          (Database.SameRecords.refl db) 0 0
      · unfold MemoryStore.active at hr ⊢
        rwa [hrevoked]
      · exact Database.active_revokeRows hr

end

end BlackMonolith.Dashboard
