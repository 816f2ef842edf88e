import BlackMonolith.Dashboard.Revocations
import BlackMonolith.Dashboard.Ingest

/-!
# The part of a store that belongs to a tenant

Restricting a store to a tenant commutes with ingesting a batch of that tenant,
and a batch of another tenant leaves the restriction alone. Both hold while no
event id of a batch is held by another tenant, and while the maps of the
in-memory store stay within their bound.
-/
namespace BlackMonolith.Dashboard
open Library

/-! ## The in-memory store -/

/-- The key is that of a session of the tenant. -/
def ownedBy (t : Identity) (key : JsString) : Bool := (t.text.units ++ [0]).isPrefixOf key.units

theorem ownedBy_sessionKey (t t' a se : Identity) :
    ownedBy t (sessionKey t' a se) = decide (t' = t) := by
  unfold ownedBy sessionKey
  rw [Bool.eq_iff_iff, List.isPrefixOf_iff_prefix, decide_eq_true_eq]
  constructor
  · rintro ⟨tail, htail⟩
    rw [List.append_assoc, List.singleton_append,
      append_separator_inj t.zero_notMem t'.zero_notMem] at htail
    exact Identity.ext_text (congrArg JsString.mk htail.1.symm)
  · rintro rfl
    exact ⟨a.text.units ++ 0 :: se.text.units, by simp⟩

def MemoryStore.restrict (t : Identity) (s : MemoryStore) : MemoryStore where
  events := s.events.filter fun _ e => e.tenantId = t
  revoked := s.revoked.filter fun k _ => ownedBy t k
  modules := s.modules.filter fun k _ => ownedBy t k
  restoredAt := s.restoredAt.filter fun k _ => ownedBy t k

/-- No id of the batch is held by another tenant. -/
def NoCollision (t : Identity) (store : MemoryEvents) (events : List MonolithEvent) : Prop :=
  ∀ e ∈ events, ∀ existing, store.get? e.eventId = some existing → existing.tenantId = t

section
variable {t t' : Identity} {received : ℕ → ℕ} {events : List MonolithEvent} {store : MemoryEvents}
  {event : MonolithEvent} {i : ℕ}

theorem NoCollision.tail (h : NoCollision t store (event :: events)) : NoCollision t store events :=
  fun e he => h e (List.mem_cons_of_mem event he)

theorem NoCollision.set (h : NoCollision t store (event :: events)) {stored : MonolithEvent}
    (ht : stored.tenantId = t) : NoCollision t (store.set stored.eventId stored) events := by
  intro e he existing hexisting
  rw [InsertionMap.get?_set] at hexisting
  split at hexisting
  · cases hexisting
    exact ht
  · exact h e (List.mem_cons_of_mem event he) existing hexisting

/-- Storing a batch of the tenant, seen from the tenant's part. -/
theorem persistInMemory_restrict (htenant : ∀ e ∈ events, e.tenantId = t)
    (h : NoCollision t store events) :
    persistInMemory received i events (store.filter fun _ e => e.tenantId = t) =
      ((persistInMemory received i events store).1,
        (persistInMemory received i events store).2.filter fun _ e => e.tenantId = t) := by
  induction events generalizing i store with
  | nil => rfl
  | cons event events ih =>
      have hevent := htenant event List.mem_cons_self
      have htenant' : ∀ e ∈ events, e.tenantId = t :=
        fun e he => htenant e (List.mem_cons_of_mem event he)
      simp only [persistInMemory, InsertionMap.get?_filter]
      cases hget : store.get? event.eventId with
      | some existing =>
          have hown := h event List.mem_cons_self existing hget
          simp only [Option.filter, hown, decide_true, if_true, ih htenant' h.tail]
      | none =>
          have hstamp : (event.stamp (received i)).tenantId = t := hevent
          have hset := @InsertionMap.filter_set_of_pos _ _ _ store
            (event.stamp (received i)).eventId (event.stamp (received i))
            (fun _ e => decide (e.tenantId = t)) (decide_eq_true hstamp)
            (fun v hv => by rw [MonolithEvent.stamp_eventId, hget] at hv; cases hv)
          simp only [Option.filter, ← hset, ih htenant' (h.set hstamp)]

/-- A batch of another tenant does not touch the tenant's part. -/
theorem persistInMemory_restrict_other (hne : t' ≠ t) (htenant : ∀ e ∈ events, e.tenantId = t')
    (h : NoCollision t' store events) :
    ((persistInMemory received i events store).2.filter fun _ e => e.tenantId = t) =
      store.filter fun _ e => e.tenantId = t := by
  induction events generalizing i store with
  | nil => rfl
  | cons event events ih =>
      have hevent := htenant event List.mem_cons_self
      have htenant' : ∀ e ∈ events, e.tenantId = t' :=
        fun e he => htenant e (List.mem_cons_of_mem event he)
      simp only [persistInMemory]
      cases hget : store.get? event.eventId with
      | some existing => exact ih htenant' h.tail
      | none =>
          have hstamp : (event.stamp (received i)).tenantId = t' := hevent
          have hset := @InsertionMap.filter_set_of_neg _ _ _ store
            (event.stamp (received i)).eventId (event.stamp (received i))
            (fun _ e => decide (e.tenantId = t))
            (decide_eq_false fun heq => hne (hstamp.symm.trans heq))
            (fun v hv => by rw [MonolithEvent.stamp_eventId, hget] at hv; cases hv)
          exact (ih htenant' (h.set hstamp)).trans hset

end

section
variable {breaker : CircuitBreaker} {t t' a se : Identity} {s : MemoryStore}
  {K : Finset JsString} {revokedAt : ℕ → ℕ} {i : ℕ}

theorem get?_owned {ν : Type} (m : InsertionMap JsString ν) (a se : Identity) :
    (m.filter fun k _ => ownedBy t k).get? (sessionKey t a se) = m.get? (sessionKey t a se) := by
  rw [InsertionMap.get?_filter]
  cases m.get? (sessionKey t a se) with
  | none => rfl
  | some v => simp only [Option.filter, ownedBy_sessionKey, decide_true, if_true]

theorem set_owned {ν : Type} (m : InsertionMap JsString ν) (a se : Identity) (v : ν) :
    (m.set (sessionKey t a se) v).filter (fun k _ => ownedBy t k) =
      (m.filter fun k _ => ownedBy t k).set (sessionKey t a se) v := by
  have howned : ownedBy t (sessionKey t a se) = true := by
    rw [ownedBy_sessionKey]
    exact decide_eq_true rfl
  exact InsertionMap.filter_set_of_pos howned fun _ _ => howned

theorem set_other {ν : Type} (hne : t' ≠ t) (m : InsertionMap JsString ν) (a se : Identity) (v : ν) :
    (m.set (sessionKey t' a se) v).filter (fun k _ => ownedBy t k) =
      m.filter fun k _ => ownedBy t k := by
  have hother : ownedBy t (sessionKey t' a se) = false := by
    rw [ownedBy_sessionKey, decide_eq_false hne]
  exact InsertionMap.filter_set_of_neg hother fun _ _ => hother

theorem MemoryStore.addModules_restrict (events : List MonolithEvent) (s : MemoryStore) :
    (s.addModules breaker t events).restrict t = (s.restrict t).addModules breaker t events := by
  induction events generalizing s with
  | nil => rfl
  | cons e events ih =>
      simp only [MemoryStore.addModules]
      split
      · split
        · rw [ih]
          simp only [MemoryStore.restrict, set_owned, get?_owned]
        · exact ih s
      · exact ih s

theorem MemoryStore.addModules_restrict_other (hne : t' ≠ t) (events : List MonolithEvent)
    (s : MemoryStore) : (s.addModules breaker t' events).restrict t = s.restrict t := by
  induction events generalizing s with
  | nil => rfl
  | cons e events ih =>
      simp only [MemoryStore.addModules]
      split
      · split
        · rw [ih]
          simp only [MemoryStore.restrict, set_other hne]
        · exact ih s
      · exact ih s

theorem MemoryStore.put_restrict (reason trigger : JsString) (layers : List ModuleName) (now : ℕ) :
    (s.put t a se reason trigger layers now).restrict t =
      (s.restrict t).put t a se reason trigger layers now := by
  simp only [MemoryStore.put, MemoryStore.restrict, set_owned, get?_owned,
    InsertionMap.filter_erase]

theorem MemoryStore.put_restrict_other (hne : t' ≠ t) (reason trigger : JsString)
    (layers : List ModuleName) (now : ℕ) :
    (s.put t' a se reason trigger layers now).restrict t = s.restrict t := by
  have hother : ownedBy t (sessionKey t' a se) = false := by
    rw [ownedBy_sessionKey, decide_eq_false hne]
  have herase : (s.restoredAt.erase (sessionKey t' a se)).filter (fun k _ => ownedBy t k) =
      s.restoredAt.filter fun k _ => ownedBy t k :=
    InsertionMap.filter_erase_of_neg fun _ => hother
  simp only [MemoryStore.put, MemoryStore.restrict, set_other hne, herase]

theorem MemoryStore.ledger_restrict : (s.restrict t).ledger t = s.ledger t := by
  have hvalues : (s.restrict t).events.values = s.events.values.filter (·.tenantId = t) :=
    InsertionMap.values_filter _
  unfold MemoryStore.ledger
  rw [hvalues, List.filter_filter]
  simp only [Bool.and_self]

theorem MemoryStore.sessionModules_restrict :
    (s.restrict t).sessionModules breaker t a se = s.sessionModules breaker t a se := by
  unfold MemoryStore.sessionModules
  rw [MemoryStore.ledger_restrict]
  simp only [MemoryStore.restrict, get?_owned]

theorem MemoryStore.has_restrict :
    (s.restrict t).revoked.has (sessionKey t a se) = s.revoked.has (sessionKey t a se) :=
  congrArg Option.isSome (get?_owned s.revoked a se)

theorem MemoryStore.trips_restrict {c : Identity × Identity} :
    (s.restrict t).Trips breaker t c ↔ s.Trips breaker t c := by
  unfold MemoryStore.Trips
  rw [MemoryStore.sessionModules_restrict]

theorem MemoryStore.Roomy.restrict {sessions : List (Identity × Identity)}
    (h : s.Roomy breaker t K sessions) : (s.restrict t).Roomy breaker t K sessions where
  modules := InsertionMap.size_filter_le.trans h.modules
  card := h.card
  revoked := fun k hk => h.revoked k (InsertionMap.mem_keys_of_filter hk)
  tripping := fun c hc htrip => h.tripping c hc (MemoryStore.trips_restrict.mp htrip)

theorem MemoryStore.evaluateSessions_restrict {rest : List (Identity × Identity)}
    (h : s.Roomy breaker t K rest) :
    (s.restrict t).evaluateSessions breaker t revokedAt i rest =
      ((s.evaluateSessions breaker t revokedAt i rest).1.restrict t,
        (s.evaluateSessions breaker t revokedAt i rest).2) := by
  induction rest generalizing i s with
  | nil => rfl
  | cons c rest ih =>
      obtain ⟨⟨reason, trigger⟩, htexts⟩ :=
        revocationTexts_breaker (s.sessionModules breaker t c.1 c.2)
      simp only [MemoryStore.evaluateSessions, MemoryStore.sessionModules_restrict,
        MemoryStore.has_restrict, htexts]
      split
      · next htrip =>
          have hkey := h.tripping c List.mem_cons_self htrip.1
          have hroom := h.restrict
          rw [MemoryStore.revoke_eq_put h.modules h.card h.revoked hkey,
            MemoryStore.revoke_eq_put hroom.modules hroom.card hroom.revoked hkey,
            ← MemoryStore.put_restrict]
          exact ih (h.revokedOnly htrip.1 MemoryStore.put_spec)
      · exact ih h.tail

theorem MemoryStore.evaluateSessions_restrict_other (hne : t' ≠ t)
    {rest : List (Identity × Identity)} (h : s.Roomy breaker t' K rest) :
    (s.evaluateSessions breaker t' revokedAt i rest).1.restrict t = s.restrict t := by
  induction rest generalizing i s with
  | nil => rfl
  | cons c rest ih =>
      obtain ⟨reason, trigger, hcons⟩ := @MemoryStore.evaluateSessions_cons _ _ revokedAt _ _ _ _ i h
      rw [hcons]
      split
      · next htrip =>
          rw [ih (h.revokedOnly htrip.1 MemoryStore.put_spec), MemoryStore.put_restrict_other hne]
      · exact ih h.tail

/-- A revocation is kept under the key of its session. -/
def MemoryStore.RevokedKeyed (s : MemoryStore) : Prop :=
  ∀ k r, s.revoked.get? k = some r → k = sessionKey r.tenantId r.agentId r.sessionId

theorem MemoryStore.RevokedKeyed.put (h : s.RevokedKeyed) (reason trigger : JsString)
    (layers : List ModuleName) (now : ℕ) :
    (s.put t a se reason trigger layers now).RevokedKeyed := by
  intro k r hr
  simp only [MemoryStore.put, InsertionMap.get?_set] at hr
  split at hr
  · next heq =>
      cases hr
      exact heq.symm
  · exact h k r hr

theorem MemoryStore.RevokedKeyed.evaluateSessions (h : s.RevokedKeyed)
    {rest : List (Identity × Identity)} (hroom : s.Roomy breaker t K rest) :
    (s.evaluateSessions breaker t revokedAt i rest).1.RevokedKeyed := by
  induction rest generalizing i s with
  | nil => exact h
  | cons c rest ih =>
      obtain ⟨reason, trigger, hcons⟩ :=
        @MemoryStore.evaluateSessions_cons _ _ revokedAt _ _ _ _ i hroom
      rw [hcons]
      split
      · next htrip =>
          exact ih (h.put _ _ _ _) (hroom.revokedOnly htrip.1 MemoryStore.put_spec)
      · exact ih h hroom.tail

theorem MemoryStore.RevokedKeyed.listRevokedSessions (h : s.RevokedKeyed) :
    (s.restrict t).listRevokedSessions t = s.listRevokedSessions t := by
  have hsame : (s.revoked.filter fun k _ => ownedBy t k) =
      s.revoked.filter fun _ r => decide (r.tenantId = t) := by
    refine InsertionMap.filter_congr fun k r hr => ?_
    rw [h k r hr, ownedBy_sessionKey]
  have hvalues : (s.restrict t).revoked.values = s.revoked.values.filter (·.tenantId = t) := by
    have hfilter := @InsertionMap.values_filter _ _ s.revoked fun r => decide (r.tenantId = t)
    rw [← hsame] at hfilter
    exact hfilter
  unfold MemoryStore.listRevokedSessions
  rw [hvalues, List.filter_filter]
  simp only [Bool.and_self]

/-- The bound leaves room for a batch: for the sessions it has evidence on, and
for the revocations it leads to. -/
structure MemoryStore.WithinBound (breaker : CircuitBreaker) (t : Identity) (s : MemoryStore)
    (events : List MonolithEvent) : Prop where
  modules : (s.modules.keys ++ evidenceKeys breaker t events).toFinset.card ≤ maxMemorySessions
  revoked : (s.revoked.keys ++ ((sessionsOf events).filter fun c =>
    (s.addModules breaker t events).Trips breaker t c).map fun c =>
      sessionKey t c.1 c.2).toFinset.card ≤ maxMemorySessions

theorem MemoryStore.WithinBound.roomy {events : List MonolithEvent}
    (h : s.WithinBound breaker t events) :
    ∃ K, (s.addModules breaker t events).Roomy breaker t K (sessionsOf events) := by
  obtain ⟨-, hrevoked, -, hkeys, -⟩ := MemoryStore.addModules_spec breaker t events s
  refine ⟨_, ?_, h.revoked, ?_, ?_⟩
  · exact (InsertionMap.size_le_card fun k hk => List.mem_toFinset.mpr (hkeys k hk)).trans h.modules
  · rw [hrevoked]
    exact fun k hk => List.mem_toFinset.mpr (List.mem_append_left _ hk)
  · intro c hc htrip
    refine List.mem_toFinset.mpr (List.mem_append_right _ (List.mem_map.mpr ⟨c, ?_, rfl⟩))
    exact List.mem_filter.mpr ⟨hc, decide_eq_true htrip⟩

theorem MemoryStore.Roomy.enforce {sessions : List (Identity × Identity)}
    (h : s.Roomy breaker t K sessions) : s.enforceSessionBound = s :=
  MemoryStore.enforceSessionBound_of_le ((InsertionMap.size_le_card h.revoked).trans h.card)
    h.modules

/-- Within the bound, an evaluation is the loop over the sessions of the batch. -/
theorem MemoryStore.evaluate_eq {events : List MonolithEvent}
    (hroom : (s.addModules breaker t events).Roomy breaker t K (sessionsOf events))
    (hne : events ≠ []) (htenant : ∀ e ∈ events, e.tenantId = t) :
    s.evaluateSessionCircuitBreaker breaker revokedAt events =
      let r := (s.addModules breaker t events).evaluateSessions breaker t revokedAt 0
        (sessionsOf events)
      (r.1, r.2.map fun _ => revokedSessionIds (r.1.listRevokedSessions t)) := by
  cases events with
  | nil => exact absurd rfl hne
  | cons first rest =>
      simp only [MemoryStore.evaluateSessionCircuitBreaker, htenant first List.mem_cons_self,
        hroom.enforce]

/-- Evaluating a batch of the tenant, seen from the tenant's part. -/
theorem MemoryStore.evaluate_restrict {events : List MonolithEvent} (hkeyed : s.RevokedKeyed)
    (hbound : s.WithinBound breaker t events) (hne : events ≠ [])
    (htenant : ∀ e ∈ events, e.tenantId = t) :
    (s.restrict t).evaluateSessionCircuitBreaker breaker revokedAt events =
      ((s.evaluateSessionCircuitBreaker breaker revokedAt events).1.restrict t,
        (s.evaluateSessionCircuitBreaker breaker revokedAt events).2) := by
  obtain ⟨K, hroom⟩ := hbound.roomy
  have hadd : (s.addModules breaker t events).RevokedKeyed := by
    unfold MemoryStore.RevokedKeyed
    rw [(MemoryStore.addModules_spec breaker t events s).2.1]
    exact hkeyed
  have hroom' : ((s.restrict t).addModules breaker t events).Roomy breaker t K
      (sessionsOf events) := by
    rw [← MemoryStore.addModules_restrict]
    exact hroom.restrict
  rw [MemoryStore.evaluate_eq hroom hne htenant, MemoryStore.evaluate_eq hroom' hne htenant,
    ← MemoryStore.addModules_restrict]
  simp only [MemoryStore.evaluateSessions_restrict hroom,
    (hadd.evaluateSessions hroom).listRevokedSessions]

theorem MemoryStore.evaluate_restrict_other (hne : t' ≠ t) {events : List MonolithEvent}
    (hbound : s.WithinBound breaker t' events) (hne' : events ≠ [])
    (htenant : ∀ e ∈ events, e.tenantId = t') :
    (s.evaluateSessionCircuitBreaker breaker revokedAt events).1.restrict t = s.restrict t := by
  obtain ⟨K, hroom⟩ := hbound.roomy
  rw [MemoryStore.evaluate_eq hroom hne' htenant]
  exact (MemoryStore.evaluateSessions_restrict_other hne hroom).trans
    (MemoryStore.addModules_restrict_other hne events s)

theorem MemoryStore.evaluate_events {events : List MonolithEvent}
    (hbound : s.WithinBound breaker t events) (hne : events ≠ [])
    (htenant : ∀ e ∈ events, e.tenantId = t) :
    (s.evaluateSessionCircuitBreaker breaker revokedAt events).1.events = s.events := by
  obtain ⟨K, hroom⟩ := hbound.roomy
  obtain ⟨s', heval, hs'⟩ := @MemoryStore.evaluateSessions_spec _ _ revokedAt _ _ 0 _ hroom
  rw [MemoryStore.evaluate_eq hroom hne htenant, heval]
  exact hs'.events.trans (MemoryStore.addModules_spec breaker t events s).1

theorem MemoryStore.RevokedKeyed.evaluate {events : List MonolithEvent} (hkeyed : s.RevokedKeyed)
    (hbound : s.WithinBound breaker t events) (hne : events ≠ [])
    (htenant : ∀ e ∈ events, e.tenantId = t) :
    (s.evaluateSessionCircuitBreaker breaker revokedAt events).1.RevokedKeyed := by
  obtain ⟨K, hroom⟩ := hbound.roomy
  have hadd : (s.addModules breaker t events).RevokedKeyed := by
    unfold MemoryStore.RevokedKeyed
    rw [(MemoryStore.addModules_spec breaker t events s).2.1]
    exact hkeyed
  rw [MemoryStore.evaluate_eq hroom hne htenant]
  exact hadd.evaluateSessions hroom

end

/-! ## The database -/

def Database.restrict (t : Identity) (db : Database) : Database where
  events := db.events.filter fun _ row => row.event.tenantId = t.toWellFormed
  revokedSessions := db.revokedSessions.filter fun key _ => key.1 = t.toWellFormed

/-- No id of the batch is held by another tenant. -/
def NoRowCollision (t : Identity) (table : EventTable) (events : List MonolithEvent) : Prop :=
  ∀ e ∈ events, ∀ row, table.get? e.eventId.asciiLowercase = some row →
    row.event.tenantId = t.toWellFormed

section
variable {checks : TableChecks} {t t' : Identity} {now : ℕ} {event : MonolithEvent}
  {events : List MonolithEvent} {table table' : EventTable} {result : PersistResult}
  {results : List PersistResult}

/-- A row is inserted, or its id is there already. -/
theorem insertEventWithClient_cases
    (h : insertEventWithClient checks t now event table = some (result, table')) :
    (eventRow now event).event.tenantId = t.toWellFormed ∧
      ((∃ row, table.get? event.eventId.asciiLowercase = some row) ∧ result = ⟨false, event⟩ ∧
          table' = table ∨
        table.get? event.eventId.asciiLowercase = none ∧
          result = ⟨true, fromRow (eventRow now event)⟩ ∧
          table' = table.set event.eventId.asciiLowercase (eventRow now event)) := by
  unfold insertEventWithClient at h
  dsimp only at h
  split_ifs at h with hrefused hhas hindex
  · cases h
    simp only [Bool.or_eq_true, decide_eq_true_eq, Bool.not_eq_true', not_or, not_not] at hrefused
    exact ⟨hrefused.1, Or.inl ⟨Option.isSome_iff_exists.mp hhas, rfl, rfl⟩⟩
  · cases h
    simp only [Bool.or_eq_true, decide_eq_true_eq, Bool.not_eq_true', not_or, not_not] at hrefused
    have hnone := InsertionMap.get?_of_not_has (Bool.eq_false_iff.mpr hhas)
    exact ⟨hrefused.1, Or.inr ⟨hnone, rfl, rfl⟩⟩

/-- The table forgets nothing. -/
theorem insertEvents_get? {id : JsString} {row : EventRow} (hrow : table.get? id = some row)
    (h : insertEvents checks t now events table = some (results, table')) :
    table'.get? id = some row := by
  induction events generalizing table results with
  | nil =>
      cases h
      exact hrow
  | cons event events ih =>
      simp only [insertEvents] at h
      split at h
      · cases h
      · next result₁ table₁ hone =>
          split at h
          · cases h
          · next results₂ table₂ hrest =>
              cases h
              refine ih ?_ hrest
              obtain ⟨-, ⟨-, -, rfl⟩ | ⟨hnone, -, rfl⟩⟩ := insertEventWithClient_cases hone
              · exact hrow
              · rw [InsertionMap.get?_set_of_ne]
                · exact hrow
                · intro heq
                  rw [heq, hrow] at hnone
                  cases hnone

/-- Every event of a committed batch is held by its tenant. -/
theorem insertEvents_held
    (hids : ∀ e ∈ events, ∀ row, table.get? e.eventId.asciiLowercase = some row →
      row.event.tenantId = t.toWellFormed)
    (h : insertEvents checks t now events table = some (results, table')) :
    ∀ e ∈ events, ∃ row, table'.get? e.eventId.asciiLowercase = some row ∧
      row.event.tenantId = t.toWellFormed := by
  induction events generalizing table results with
  | nil => simp
  | cons event events ih =>
      simp only [insertEvents] at h
      split at h
      · cases h
      · next result₁ table₁ hone =>
          split at h
          · cases h
          · next results₂ table₂ hrest =>
              cases h
              obtain ⟨htenant, hcases⟩ := insertEventWithClient_cases hone
              have hfirst : ∃ row, table₁.get? event.eventId.asciiLowercase = some row ∧
                  row.event.tenantId = t.toWellFormed := by
                obtain ⟨⟨row, hrow⟩, -, rfl⟩ | ⟨-, -, rfl⟩ := hcases
                · exact ⟨row, hrow, hids event List.mem_cons_self row hrow⟩
                · exact ⟨_, InsertionMap.get?_set_self, htenant⟩
              have hids' : ∀ e ∈ events, ∀ row, table₁.get? e.eventId.asciiLowercase = some row →
                  row.event.tenantId = t.toWellFormed := by
                intro e he row hrow
                obtain ⟨-, -, rfl⟩ | ⟨-, -, rfl⟩ := hcases
                · exact hids e (List.mem_cons_of_mem event he) row hrow
                · rw [InsertionMap.get?_set] at hrow
                  split at hrow
                  · cases hrow
                    exact htenant
                  · exact hids e (List.mem_cons_of_mem event he) row hrow
              intro e he
              rcases List.mem_cons.mp he with rfl | he
              · obtain ⟨row, hrow, hown⟩ := hfirst
                exact ⟨row, insertEvents_get? hrow hrest, hown⟩
              · exact ih hids' hrest e he

theorem insertEvents_keyed
    (hkeyed : ∀ id row, table.get? id = some row → row.event.eventId = id)
    (h : insertEvents checks t now events table = some (results, table')) :
    ∀ id row, table'.get? id = some row → row.event.eventId = id := by
  induction events generalizing table results with
  | nil =>
      cases h
      exact hkeyed
  | cons event events ih =>
      simp only [insertEvents] at h
      split at h
      · cases h
      · next result₁ table₁ hone =>
          split at h
          · cases h
          · next results₂ table₂ hrest =>
              cases h
              refine ih ?_ hrest
              obtain ⟨-, ⟨-, -, rfl⟩ | ⟨-, -, rfl⟩⟩ := insertEventWithClient_cases hone
              · exact hkeyed
              · intro id row hrow
                rw [InsertionMap.get?_set] at hrow
                split at hrow
                · next heq =>
                    cases hrow
                    exact heq
                · exact hkeyed id row hrow

/-- A batch whose ids are all held already changes nothing. -/
theorem insertEvents_of_held
    (hheld : ∀ e ∈ events, ∃ row, table.get? e.eventId.asciiLowercase = some row)
    (h : insertEvents checks t now events table = some (results, table')) : table' = table := by
  induction events generalizing results with
  | nil =>
      cases h
      rfl
  | cons event events ih =>
      simp only [insertEvents] at h
      split at h
      · cases h
      · next result₁ table₁ hone =>
          split at h
          · cases h
          · next results₂ table₂ hrest =>
              cases h
              obtain ⟨-, ⟨-, -, rfl⟩ | ⟨hnone, -, -⟩⟩ := insertEventWithClient_cases hone
              · exact ih (fun e he => hheld e (List.mem_cons_of_mem event he)) hrest
              · obtain ⟨row, hrow⟩ := hheld event List.mem_cons_self
                rw [hnone] at hrow
                cases hrow

theorem NoRowCollision.tail (h : NoRowCollision t table (event :: events)) :
    NoRowCollision t table events :=
  fun e he => h e (List.mem_cons_of_mem event he)

theorem NoRowCollision.insert (h : NoRowCollision t table (event :: events))
    (hone : insertEventWithClient checks t now event table = some (result, table')) :
    NoRowCollision t table' events := by
  obtain ⟨htenant, ⟨-, -, rfl⟩ | ⟨-, -, rfl⟩⟩ := insertEventWithClient_cases hone
  · exact h.tail
  · intro e he row hrow
    rw [InsertionMap.get?_set] at hrow
    split at hrow
    · cases hrow
      exact htenant
    · exact h e (List.mem_cons_of_mem event he) row hrow

/-- Inserting an event of the tenant, seen from the tenant's part. -/
theorem insertEventWithClient_restrict
    (h : ∀ row, table.get? event.eventId.asciiLowercase = some row →
      row.event.tenantId = t.toWellFormed) :
    insertEventWithClient checks t now event
        (table.filter fun _ row => row.event.tenantId = t.toWellFormed) =
      (insertEventWithClient checks t now event table).map fun p =>
        (p.1, p.2.filter fun _ row => row.event.tenantId = t.toWellFormed) := by
  have hhas : (table.filter fun _ row => decide (row.event.tenantId = t.toWellFormed)).has
      event.eventId.asciiLowercase = table.has event.eventId.asciiLowercase := by
    unfold InsertionMap.has
    rw [InsertionMap.get?_filter]
    cases hget : table.get? event.eventId.asciiLowercase with
    | none => rfl
    | some row => simp only [Option.filter, h row hget, decide_true, if_true]
  unfold insertEventWithClient
  dsimp only
  rw [show (eventRow now event).event.eventId = event.eventId.asciiLowercase from rfl, hhas]
  by_cases hrefused : ((eventRow now event).event.tenantId ≠ t.toWellFormed ||
      !checks.accepts (eventRow now event)) = true
  · rw [if_pos hrefused, if_pos hrefused]
    rfl
  · rw [if_neg hrefused, if_neg hrefused]
    simp only [Bool.or_eq_true, decide_eq_true_eq, Bool.not_eq_true', not_or, not_not] at hrefused
    split
    · rfl
    · have hset := @InsertionMap.filter_set_of_pos _ _ _ table event.eventId.asciiLowercase
        (eventRow now event) (fun _ row => decide (row.event.tenantId = t.toWellFormed))
        (decide_eq_true hrefused.1) (fun row hrow => decide_eq_true (h row hrow))
      rw [← hset]
      split
      · rfl
      · rfl

theorem insertEvents_restrict (h : NoRowCollision t table events) :
    insertEvents checks t now events
        (table.filter fun _ row => row.event.tenantId = t.toWellFormed) =
      (insertEvents checks t now events table).map fun p =>
        (p.1, p.2.filter fun _ row => row.event.tenantId = t.toWellFormed) := by
  induction events generalizing table with
  | nil => rfl
  | cons event events ih =>
      simp only [insertEvents]
      rw [insertEventWithClient_restrict (h event List.mem_cons_self)]
      cases hone : insertEventWithClient checks t now event table with
      | none => rfl
      | some p =>
          simp only [Option.map_some]
          rw [ih (h.insert hone)]
          cases insertEvents checks t now events p.2 with
          | none => rfl
          | some q => rfl

/-- A batch of another tenant does not touch the tenant's part. -/
theorem insertEvents_restrict_other (hne : t'.toWellFormed ≠ t.toWellFormed)
    (h : NoRowCollision t' table events)
    (hinsert : insertEvents checks t' now events table = some (results, table')) :
    (table'.filter fun _ row => row.event.tenantId = t.toWellFormed) =
      table.filter fun _ row => row.event.tenantId = t.toWellFormed := by
  induction events generalizing table results with
  | nil =>
      cases hinsert
      rfl
  | cons event events ih =>
      simp only [insertEvents] at hinsert
      split at hinsert
      · cases hinsert
      · next result₁ table₁ hone =>
          split at hinsert
          · cases hinsert
          · next results₂ table₂ hrest =>
              cases hinsert
              refine (ih (h.insert hone) hrest).trans ?_
              obtain ⟨htenant, ⟨-, -, rfl⟩ | ⟨hnone, -, rfl⟩⟩ := insertEventWithClient_cases hone
              · rfl
              · refine InsertionMap.filter_set_of_neg ?_ fun row hrow => ?_
                · exact decide_eq_false fun heq => hne (htenant.symm.trans heq)
                · rw [hnone] at hrow
                  cases hrow

end

section
variable {breaker : CircuitBreaker} {groups : GroupOrder} {t t' a se : Identity} {db : Database}
  {revokedAt : ℕ → ℕ} {i : ℕ}

theorem get?_rowKey (m : InsertionMap (Identity × Identity × Identity) RevokedSessionRow)
    (x : Identity × Identity) :
    (m.filter fun key _ => key.1 = t.toWellFormed).get? (t.toWellFormed, x) =
      m.get? (t.toWellFormed, x) := by
  rw [InsertionMap.get?_filter]
  cases m.get? (t.toWellFormed, x) with
  | none => rfl
  | some row => simp only [Option.filter, decide_true, if_true]

theorem Database.revoke_restrict (reason trigger : JsString) (layers : List ModuleName)
    (now : ℕ) :
    (db.revoke t a se reason trigger layers now).restrict t =
      (db.restrict t).revoke t a se reason trigger layers now := by
  unfold Database.revoke Database.restrict
  dsimp only
  rw [get?_rowKey]
  congr 1
  exact InsertionMap.filter_set_of_pos (decide_eq_true rfl) fun _ _ => decide_eq_true rfl

theorem Database.revoke_restrict_other (hne : t'.toWellFormed ≠ t.toWellFormed)
    (reason trigger : JsString) (layers : List ModuleName) (now : ℕ) :
    (db.revoke t' a se reason trigger layers now).restrict t = db.restrict t := by
  unfold Database.revoke Database.restrict
  dsimp only
  congr 1
  exact InsertionMap.filter_set_of_neg (decide_eq_false hne) fun _ _ => decide_eq_false hne

theorem Database.sessionModules_restrict :
    (db.restrict t).sessionModules breaker t.toWellFormed a se =
      db.sessionModules breaker t.toWellFormed a se := by
  have hvalues : (db.restrict t).events.values =
      db.events.values.filter (·.event.tenantId = t.toWellFormed) :=
    InsertionMap.values_filter _
  unfold Database.sessionModules
  dsimp only
  rw [hvalues, List.filter_filter]
  simp only [Database.restrict, get?_rowKey]
  congr 1
  refine List.filter_congr fun row _ => ?_
  cases decide (row.event.tenantId = t.toWellFormed) with
  | true => simp only [Bool.and_true]
  | false => simp only [Bool.and_false, Bool.false_and]

theorem Database.layerRows_restrict (candidates : List (Identity × Identity)) :
    (db.restrict t).layerRows breaker groups t candidates =
      db.layerRows breaker groups t candidates := by
  simp only [Database.layerRows, Database.sessionModules_restrict]

theorem Database.revokeRows_restrict (rows : List ((Identity × Identity) × List ModuleName)) :
    (db.restrict t).revokeRows breaker t revokedAt i rows =
      ((db.revokeRows breaker t revokedAt i rows).1.restrict t,
        (db.revokeRows breaker t revokedAt i rows).2) := by
  induction rows generalizing i db with
  | nil => rfl
  | cons row rows ih =>
      simp only [Database.revokeRows]
      split
      · split
        · rfl
        · rw [← Database.revoke_restrict]
          exact ih
      · exact ih

theorem Database.revokeRows_restrict_other (hne : t'.toWellFormed ≠ t.toWellFormed)
    (rows : List ((Identity × Identity) × List ModuleName)) :
    (db.revokeRows breaker t' revokedAt i rows).1.restrict t = db.restrict t := by
  induction rows generalizing i db with
  | nil => rfl
  | cons row rows ih =>
      simp only [Database.revokeRows]
      split
      · split
        · rfl
        · exact ih.trans (Database.revoke_restrict_other hne _ _ _ _)
      · exact ih

/-- A row carries the tenant of its key. -/
def Database.RevokedKeyed (db : Database) : Prop :=
  ∀ k row, db.revokedSessions.get? k = some row → k.1 = row.revocation.tenantId

theorem Database.RevokedKeyed.revoke (h : db.RevokedKeyed) (reason trigger : JsString)
    (layers : List ModuleName) (now : ℕ) :
    (db.revoke t a se reason trigger layers now).RevokedKeyed := by
  intro k row hrow
  simp only [Database.revoke, InsertionMap.get?_set] at hrow
  split at hrow
  · next heq =>
      cases hrow
      rw [← heq]
      split
      · rfl
      · next existing hexisting =>
          split
          · exact h _ existing hexisting
          · rfl
  · exact h k row hrow

theorem Database.RevokedKeyed.revokeRows (h : db.RevokedKeyed)
    (rows : List ((Identity × Identity) × List ModuleName)) :
    (db.revokeRows breaker t revokedAt i rows).1.RevokedKeyed := by
  induction rows generalizing i db with
  | nil => exact h
  | cons row rows ih =>
      simp only [Database.revokeRows]
      split
      · split
        · exact h
        · exact ih (h.revoke _ _ _ _)
      · exact ih h

theorem Database.RevokedKeyed.listRevokedSessions (h : db.RevokedKeyed) :
    (db.restrict t).listRevokedSessions t = db.listRevokedSessions t := by
  have hsame : (db.revokedSessions.filter fun key _ => decide (key.1 = t.toWellFormed)) =
      db.revokedSessions.filter fun _ row =>
        decide (row.revocation.tenantId = t.toWellFormed) := by
    refine InsertionMap.filter_congr fun k row hrow => ?_
    rw [h k row hrow]
  have hvalues : (db.restrict t).revokedSessions.values =
      db.revokedSessions.values.filter (·.revocation.tenantId = t.toWellFormed) := by
    have hfilter := @InsertionMap.values_filter _ _ db.revokedSessions fun row =>
      decide (row.revocation.tenantId = t.toWellFormed)
    rw [← hsame] at hfilter
    exact hfilter
  unfold Database.listRevokedSessions
  rw [hvalues, List.filter_filter]
  congr 2
  refine List.filter_congr fun row _ => ?_
  by_cases htenant : row.revocation.tenantId = t.toWellFormed
  · simp only [htenant, true_and, decide_true, Bool.and_true]
  · simp only [htenant, false_and, decide_false, Bool.and_false]

/-- Evaluating a batch of the tenant, seen from the tenant's part. -/
theorem Database.evaluate_restrict {events : List MonolithEvent} (hkeyed : db.RevokedKeyed)
    (htenant : ∀ e ∈ events, e.tenantId = t) :
    (db.restrict t).evaluateSessionCircuitBreaker breaker groups revokedAt events =
      ((db.evaluateSessionCircuitBreaker breaker groups revokedAt events).1.restrict t,
        (db.evaluateSessionCircuitBreaker breaker groups revokedAt events).2) := by
  cases events with
  | nil => rfl
  | cons first rest =>
      simp only [Database.evaluateSessionCircuitBreaker, htenant first List.mem_cons_self,
        Database.layerRows_restrict, Database.revokeRows_restrict,
        (hkeyed.revokeRows _).listRevokedSessions]

theorem Database.evaluate_restrict_other (hne : t'.toWellFormed ≠ t.toWellFormed)
    {events : List MonolithEvent} (htenant : ∀ e ∈ events, e.tenantId = t') :
    (db.evaluateSessionCircuitBreaker breaker groups revokedAt events).1.restrict t =
      db.restrict t := by
  cases events with
  | nil => rfl
  | cons first rest =>
      simp only [Database.evaluateSessionCircuitBreaker, htenant first List.mem_cons_self]
      exact Database.revokeRows_restrict_other hne _

theorem Database.revokeRows_events (rows : List ((Identity × Identity) × List ModuleName)) :
    (db.revokeRows breaker t revokedAt i rows).1.events = db.events := by
  induction rows generalizing i db with
  | nil => rfl
  | cons row rows ih =>
      simp only [Database.revokeRows]
      split
      · split
        · rfl
        · exact ih
      · exact ih

theorem Database.evaluate_events (events : List MonolithEvent) :
    (db.evaluateSessionCircuitBreaker breaker groups revokedAt events).1.events = db.events := by
  cases events with
  | nil => rfl
  | cons first rest => exact Database.revokeRows_events _

theorem Database.RevokedKeyed.evaluate (h : db.RevokedKeyed) (events : List MonolithEvent) :
    (db.evaluateSessionCircuitBreaker breaker groups revokedAt events).1.RevokedKeyed := by
  cases events with
  | nil => exact h
  | cons first rest => exact h.revokeRows _

end

end BlackMonolith.Dashboard
