import BlackMonolith.Library.Unwinding
import BlackMonolith.Dashboard.CircuitBreaker
import BlackMonolith.Dashboard.TenantView

/-!
# Ingest and other tenants

The event id is the key of the ledger across all tenants. While no batch brings
an id that another tenant's ledger holds, an accepted event is in its tenant's
ledger exactly once, a redelivery changes no ledger, and what a tenant sees does
not depend on the batches of others. A second tenant's id collides with the
first one's and is lost.
-/
namespace BlackMonolith.Dashboard
open Library

/-- A request together with the readings it is handled with. -/
abbrev Delivery := Readings × IngestRequest

def ingestStep (d : Deployment) (store : Store) (delivery : Delivery) : Store × Response :=
  post d delivery.1 delivery.2 store

def Store.init (useDatabase : Bool) : Store :=
  if useDatabase then .postgres .init else .memory .init

/-- The delivery brings no event id that another tenant holds; the in-memory
maps have room for it, and the database can tell its tenant from others. -/
def Isolated (d : Deployment) (store : Store) (delivery : Delivery) : Prop :=
  ∀ events, readBatch d delivery.1 delivery.2 = .ok events →
    ∀ t, (∀ e ∈ events, e.tenantId = t) →
      match store with
      | .memory s => NoCollision t s.events events ∧
          (s.store delivery.1 events).2.WithinBound d.breaker t (s.store delivery.1 events).1
      | .postgres db => t.toWellFormed = t ∧ NoRowCollision t db.events events

/-- The delivery is an authenticated batch of the tenant. -/
def batchOfTenant (d : Deployment) (t : Identity) (delivery : Delivery) : Bool :=
  match readBatch d delivery.1 delivery.2 with
  | .ok events => events.all (·.tenantId = t)
  | .error _ => false

/-- The id under which a store keeps an event. -/
def Store.storedId (id : JsString) : Store → JsString
  | .memory _ => id
  | .postgres _ => id.asciiLowercase

def Store.holds (t : Identity) (id : JsString) : Store → Prop
  | .memory s => ∃ e, s.events.get? id = some e ∧ e.tenantId = t
  | .postgres db => ∃ row, db.events.get? id.asciiLowercase = some row ∧
      row.event.tenantId = t.toWellFormed

/-- The keys of the maps and tables are those of their values. -/
def Store.Keyed : Store → Prop
  | .memory s => s.RevokedKeyed ∧ ∀ id e, s.events.get? id = some e → e.eventId = id
  | .postgres db => db.RevokedKeyed ∧ ∀ id row, db.events.get? id = some row → row.event.eventId = id

/-- The observing tenant is one the database can tell from others. -/
def Store.Observes (t : Identity) : Store → Prop
  | .memory _ => True
  | .postgres _ => t.toWellFormed = t

/-- The part of the store that belongs to the tenant. -/
def Store.view (t : Identity) : Store → Store
  | .memory s => .memory (s.restrict t)
  | .postgres db => .postgres (db.restrict t)

theorem Store.record_view (t : Identity) (store : Store) :
    (store.view t).record t = store.record t := by
  cases store with
  | memory s =>
      have hledger : (s.restrict t).ledger t = s.ledger t := MemoryStore.ledger_restrict
      simp only [Store.view, Store.record, MemoryStore.record, hledger]
  | postgres db =>
      have hvalues : (db.restrict t).events.values =
          db.events.values.filter (·.event.tenantId = t.toWellFormed) :=
        InsertionMap.values_filter _
      simp only [Store.view, Store.record, Database.record, hvalues, List.filter_filter,
        Bool.and_self]

/-! ## One delivery -/

section
variable {d : Deployment} {r : Readings} {req : IngestRequest} {events : List MonolithEvent}
  {t t' : Identity}

theorem MemoryStore.store_facts (s : MemoryStore) (hread : readBatch d r req = .ok events)
    (htenant : ∀ e ∈ events, e.tenantId = t) (h : NoCollision t s.events events) :
    (s.store r events).1 ≠ [] ∧ ∀ e ∈ (s.store r events).1, e.tenantId = t := by
  obtain ⟨-, first, rest, hevents, -⟩ := readBatch_ok hread
  have hstored := @persistInMemory_stored r.received events s.events 0
  constructor
  · intro hnil
    have hlen := hstored.length_eq
    rw [show (persistInMemory r.received 0 events s.events).1 = [] from
      List.map_eq_nil_iff.mp hnil, hevents] at hlen
    cases hlen
  · intro e he
    obtain ⟨p, hp, rfl⟩ := List.mem_map.mp he
    obtain ⟨event, hmem, hid⟩ := exists_left_of_forall₂ hstored hp
    rcases persistInMemory_origin hid with hold | ⟨event', hmem', j, -, heq⟩
    · exact h event hmem p.event hold
    · rw [heq]
      exact htenant event' hmem'

theorem MemoryStore.ingest_eq (s : MemoryStore) :
    (Store.memory s).ingest d r events t =
      let e := (s.store r events).2.evaluateSessionCircuitBreaker d.breaker r.revokedAt
        (s.store r events).1
      (.memory e.1, .created (ingestResult (persistInMemory r.received 0 events s.events).1 e.2)) :=
  rfl

theorem MemoryStore.store_restrict (s : MemoryStore) (htenant : ∀ e ∈ events, e.tenantId = t)
    (h : NoCollision t s.events events) :
    (s.restrict t).store r events =
      ((s.store r events).1, (s.store r events).2.restrict t) := by
  unfold MemoryStore.store
  dsimp only [MemoryStore.restrict]
  rw [persistInMemory_restrict htenant h]

/-- Ingesting a batch of the tenant, seen from the tenant's part. -/
theorem ingest_view {store : Store} (hkeyed : store.Keyed)
    (hread : readBatch d r req = .ok events) (htenant : ∀ e ∈ events, e.tenantId = t)
    (hg : Isolated d store (r, req)) :
    (store.view t).ingest d r events t =
      ((store.ingest d r events t).1.view t, (store.ingest d r events t).2) := by
  cases store with
  | memory s =>
      obtain ⟨hids, hbound⟩ := hg events hread t htenant
      obtain ⟨hne, htenants⟩ := s.store_facts hread htenant hids
      have hrevoked : (s.store r events).2.RevokedKeyed := hkeyed.1
      have heval := @MemoryStore.evaluate_restrict d.breaker t _ r.revokedAt _ hrevoked hbound hne
        htenants
      have hpersist := @persistInMemory_restrict t r.received events s.events 0 htenant hids
      simp only [Store.view, MemoryStore.ingest_eq, s.store_restrict htenant hids, heval]
      simp only [MemoryStore.restrict, hpersist]
  | postgres db =>
      obtain ⟨hwf, hids⟩ := hg events hread t htenant
      have hinsert := @insertEvents_restrict d.checks t r.transaction events db.events hids
      have hview : (db.restrict t).events =
        db.events.filter fun _ row => row.event.tenantId = t.toWellFormed := rfl
      simp only [Store.view, Store.ingest, Store.persistEvents, hview, hinsert]
      cases hcase : insertEvents d.checks t r.transaction events db.events with
      | none => rfl
      | some p =>
          have htenants : ∀ e ∈ p.1.map (·.event), e.tenantId = t := by
            intro e he
            obtain ⟨result, hresult, rfl⟩ := List.mem_map.mp he
            rcases (insertEvents_tenant htenant hcase).2 result hresult with heq | heq
            · exact heq
            · exact heq.trans hwf
          have hkeyed' : { db with events := p.2 }.RevokedKeyed := hkeyed.1
          have heval := @Database.evaluate_restrict d.breaker r.groups t _ r.revokedAt _ hkeyed'
            htenants
          have hpart : { db.restrict t with
              events := p.2.filter fun _ row => row.event.tenantId = t.toWellFormed } =
              { db with events := p.2 }.restrict t := rfl
          simp only [Option.map_some, hpart, Store.evaluateSessionCircuitBreaker, heval]

/-- A batch of another tenant does not touch the tenant's part. -/
theorem ingest_view_other {store : Store} (hobs : store.Observes t)
    (hread : readBatch d r req = .ok events) (htenant : ∀ e ∈ events, e.tenantId = t')
    (hne : t' ≠ t) (hg : Isolated d store (r, req)) :
    (store.ingest d r events t').1.view t = store.view t := by
  cases store with
  | memory s =>
      obtain ⟨hids, hbound⟩ := hg events hread t' htenant
      obtain ⟨hne', htenants⟩ := s.store_facts hread htenant hids
      have heval := @MemoryStore.evaluate_restrict_other d.breaker t t' _ r.revokedAt hne _ hbound
        hne' htenants
      have hpersist := @persistInMemory_restrict_other t t' r.received events s.events 0 hne htenant
        hids
      simp only [Store.view, MemoryStore.ingest_eq, heval]
      simp only [MemoryStore.restrict, MemoryStore.store, hpersist]
  | postgres db =>
      obtain ⟨hwf, hids⟩ := hg events hread t' htenant
      have hwf' : t.toWellFormed = t := hobs
      have hne' : t'.toWellFormed ≠ t.toWellFormed := by
        rw [hwf, hwf']
        exact hne
      simp only [Store.view, Store.ingest, Store.persistEvents]
      cases hcase : insertEvents d.checks t' r.transaction events db.events with
      | none => rfl
      | some p =>
          have htenants : ∀ e ∈ p.1.map (·.event), e.tenantId = t' := by
            intro e he
            obtain ⟨result, hresult, rfl⟩ := List.mem_map.mp he
            rcases (insertEvents_tenant htenant hcase).2 result hresult with heq | heq
            · exact heq
            · exact heq.trans hwf
          have heval := @Database.evaluate_restrict_other d.breaker r.groups t t'
            { db with events := p.2 } r.revokedAt hne' _ htenants
          have hinsert := insertEvents_restrict_other hne' hids hcase
          simp only [Option.map_some, Store.evaluateSessionCircuitBreaker, heval]
          simp only [Database.restrict, hinsert]

/-- What a delivery does to the ledger: it forgets nothing, keeps the keys, and an
accepted batch is held by its tenant. -/
theorem ingest_ledger {store : Store} (hkeyed : store.Keyed)
    (hread : readBatch d r req = .ok events) (htenant : ∀ e ∈ events, e.tenantId = t)
    (hg : Isolated d store (r, req)) :
    (store.ingest d r events t).1.Keyed ∧
      (∀ t' id, store.holds t' id → (store.ingest d r events t).1.holds t' id) ∧
      ((store.ingest d r events t).2.isCreated →
        ∀ e ∈ events, (store.ingest d r events t).1.holds t e.eventId) := by
  cases store with
  | memory s =>
      obtain ⟨hids, hbound⟩ := hg events hread t htenant
      obtain ⟨hne, htenants⟩ := s.store_facts hread htenant hids
      have hevents := @MemoryStore.evaluate_events d.breaker t _ r.revokedAt _ hbound hne htenants
      have hrevoked : (s.store r events).2.RevokedKeyed := hkeyed.1
      rw [MemoryStore.ingest_eq]
      refine ⟨⟨hrevoked.evaluate hbound hne htenants, ?_⟩, ?_, fun _ => ?_⟩
      · intro id e he
        rw [hevents] at he
        rcases persistInMemory_origin he with hold | ⟨event, -, j, hid, rfl⟩
        · exact hkeyed.2 id e hold
        · exact hid
      · rintro t' id ⟨e, he, hown⟩
        refine ⟨e, ?_, hown⟩
        rw [hevents]
        exact persistInMemory_get? he
      · intro e he
        have hstored := @persistInMemory_stored r.received events s.events 0
        obtain ⟨result, hresult, hid⟩ := exists_right_of_forall₂ hstored he
        refine ⟨result.event, ?_, htenants _ (List.mem_map.mpr ⟨result, hresult, rfl⟩)⟩
        rw [hevents]
        exact hid
  | postgres db =>
      obtain ⟨-, hids⟩ := hg events hread t htenant
      simp only [Store.ingest, Store.persistEvents]
      cases hcase : insertEvents d.checks t r.transaction events db.events with
      | none =>
          refine ⟨hkeyed, fun _ _ h => h, ?_⟩
          simp only [Option.map_none, Response.isCreated, Bool.false_eq_true, false_implies]
      | some p =>
          have hevents := @Database.evaluate_events d.breaker r.groups { db with events := p.2 }
            r.revokedAt (p.1.map (·.event))
          have hrevoked : { db with events := p.2 }.RevokedKeyed := hkeyed.1
          simp only [Option.map_some, Store.evaluateSessionCircuitBreaker]
          refine ⟨⟨hrevoked.evaluate _, ?_⟩, ?_, fun _ => ?_⟩
          · rw [hevents]
            exact insertEvents_keyed hkeyed.2 hcase
          · rintro t' id ⟨row, hrow, hown⟩
            refine ⟨row, ?_, hown⟩
            rw [hevents]
            exact insertEvents_get? hrow hcase
          · intro e he
            obtain ⟨row, hrow, hown⟩ := insertEvents_held hids hcase e he
            refine ⟨row, ?_, hown⟩
            rw [hevents]
            exact hrow

/-- A batch whose ids are all held changes no ledger. -/
theorem ingest_of_held {store : Store} (hread : readBatch d r req = .ok events)
    (htenant : ∀ e ∈ events, e.tenantId = t) (hg : Isolated d store (r, req))
    (hheld : ∀ e ∈ events, ∃ t', store.holds t' e.eventId) (t' : Identity) :
    (store.ingest d r events t).1.record t' = store.record t' := by
  cases store with
  | memory s =>
      obtain ⟨hids, hbound⟩ := hg events hread t htenant
      obtain ⟨hne, htenants⟩ := s.store_facts hread htenant hids
      have hevents := @MemoryStore.evaluate_events d.breaker t _ r.revokedAt _ hbound hne htenants
      have hsame : (persistInMemory r.received 0 events s.events).2 = s.events := by
        refine persistInMemory_of_held (fun e he => ?_) 0
        obtain ⟨-, existing, hexisting, -⟩ := hheld e he
        exact ⟨existing, hexisting⟩
      rw [MemoryStore.ingest_eq]
      exact record_congr (hevents.trans hsame)
  | postgres db =>
      simp only [Store.ingest, Store.persistEvents]
      cases hcase : insertEvents d.checks t r.transaction events db.events with
      | none => rfl
      | some p =>
          have hsame : p.2 = db.events := by
            refine insertEvents_of_held (fun e he => ?_) hcase
            obtain ⟨-, row, hrow, -⟩ := hheld e he
            exact ⟨row, hrow⟩
          have hevents := @Database.evaluate_events d.breaker r.groups { db with events := p.2 }
            r.revokedAt (p.1.map (·.event))
          simp only [Option.map_some, Store.evaluateSessionCircuitBreaker, Store.record,
            Database.record]
          rw [hevents]
          simp only [hsame]

/-- A held event is in the ledger once. -/
theorem record_once {store : Store} (hkeyed : store.Keyed) {id : JsString}
    (h : store.holds t id) :
    (store.record t).countP (fun p => p.1.eventId = store.storedId id) = 1 := by
  cases store with
  | memory s =>
      obtain ⟨e, he, hown⟩ := h
      simp only [Store.record, MemoryStore.record, MemoryStore.ledger, Store.storedId,
        List.countP_map, List.countP_filter]
      refine InsertionMap.countP_values_eq_one he fun k v hv => ?_
      simp only [Function.comp_apply, Bool.and_eq_true, decide_eq_true_eq]
      constructor
      · exact fun hboth => (hkeyed.2 k v hv).symm.trans (of_decide_eq_true hboth.1)
      · rintro rfl
        rw [he] at hv
        cases hv
        exact ⟨decide_eq_true (hkeyed.2 k e he), hown⟩
  | postgres db =>
      obtain ⟨row, hrow, hown⟩ := h
      simp only [Store.record, Database.record, Store.storedId, List.countP_map, List.countP_filter]
      refine InsertionMap.countP_values_eq_one hrow fun k v hv => ?_
      simp only [Function.comp_apply, Bool.and_eq_true, decide_eq_true_eq]
      constructor
      · exact fun hboth => (hkeyed.2 k v hv).symm.trans (of_decide_eq_true hboth.1)
      · rintro rfl
        rw [hrow] at hv
        cases hv
        exact ⟨decide_eq_true (hkeyed.2 _ row hrow), hown⟩

/-! ## Runs -/

/-- A request is refused and changes nothing, or is a batch of some tenant. -/
theorem ingestStep_cases (d : Deployment) (r : Readings) (req : IngestRequest) :
    ((∀ store, (post d r req store).1 = store ∧ ¬(post d r req store).2.isCreated) ∧
        ∀ events, readBatch d r req ≠ .ok events) ∨
      ∃ events t, readBatch d r req = .ok events ∧ (∀ e ∈ events, e.tenantId = t) ∧
        ∀ store : Store, post d r req store = store.ingest d r events t := by
  cases hread : readBatch d r req with
  | error e =>
      refine Or.inl ⟨fun store => ?_, fun events h => by cases h⟩
      unfold post
      rw [hread]
      exact ⟨rfl, Bool.false_ne_true⟩
  | ok events =>
      obtain ⟨-, first, rest, rfl, htenant⟩ := readBatch_ok hread
      exact Or.inr ⟨first :: rest, first.tenantId, rfl, htenant, post_of_read hread htenant⟩

theorem batchOfTenant_iff (hread : readBatch d r req = .ok events)
    (htenant : ∀ e ∈ events, e.tenantId = t') : batchOfTenant d t (r, req) ↔ t' = t := by
  obtain ⟨-, first, rest, rfl, -⟩ := readBatch_ok hread
  unfold batchOfTenant
  rw [hread]
  simp only [List.all_eq_true, decide_eq_true_eq]
  constructor
  · intro h
    exact (htenant first List.mem_cons_self).symm.trans (h first List.mem_cons_self)
  · intro h e he
    exact (htenant e he).trans h

theorem init_keyed (useDatabase : Bool) : (Store.init useDatabase).Keyed := by
  cases useDatabase with
  | false =>
      constructor
      · intro k v h
        cases h
      · intro id e h
        cases h
  | true =>
      constructor
      · intro k row h
        cases h
      · intro id row h
        cases h

theorem ingest_observes {store : Store} (h : store.Observes t) :
    (store.ingest d r events t').1.Observes t := by
  cases store with
  | memory s => exact trivial
  | postgres db =>
      simp only [Store.ingest, Store.persistEvents]
      cases insertEvents d.checks t' r.transaction events db.events with
      | none => exact h
      | some p => exact h

theorem ingestStep_keyed (d : Deployment) (store : Store) (delivery : Delivery) (h : store.Keyed)
    (hg : Isolated d store delivery) : (ingestStep d store delivery).1.Keyed := by
  obtain ⟨r, req⟩ := delivery
  unfold ingestStep
  rcases ingestStep_cases d r req with ⟨hrefused, -⟩ | ⟨events, t, hread, htenant, hpost⟩
  · rw [(hrefused store).1]
    exact h
  · rw [hpost]
    exact (ingest_ledger h hread htenant hg).1

/-- A tenant and the batches of others. -/
theorem ingest_unwinding (d : Deployment) (t : Identity) :
    Unwinding (ingestStep d) (Isolated d) (fun store => store.Keyed ∧ store.Observes t)
      (batchOfTenant d t) (Store.view t) := by
  constructor
  · intro store delivery hinv hg
    refine ⟨ingestStep_keyed d store delivery hinv.1 hg, ?_⟩
    obtain ⟨r, req⟩ := delivery
    unfold ingestStep
    rcases ingestStep_cases d r req with ⟨hrefused, -⟩ | ⟨events, t', hread, htenant, hpost⟩
    · rw [(hrefused store).1]
      exact hinv.2
    · rw [hpost]
      exact ingest_observes hinv.2
  · intro store delivery hinv hg hother
    obtain ⟨r, req⟩ := delivery
    unfold ingestStep
    rcases ingestStep_cases d r req with ⟨hrefused, -⟩ | ⟨events, t', hread, htenant, hpost⟩
    · rw [(hrefused store).1]
    · have hne : t' ≠ t := by
        intro heq
        rw [(batchOfTenant_iff hread htenant).mpr heq] at hother
        cases hother
      rw [hpost]
      exact ingest_view_other hinv.2 hread htenant hne hg
  · intro store store' delivery hinv hinv' hg hg' hmine hview
    obtain ⟨r, req⟩ := delivery
    unfold ingestStep
    rcases ingestStep_cases d r req with ⟨-, hnone⟩ | ⟨events, t', hread, htenant, hpost⟩
    · dsimp only [batchOfTenant] at hmine
      split at hmine
      · next events hread => exact absurd hread (hnone events)
      · cases hmine
    · have heq : t' = t := (batchOfTenant_iff hread htenant).mp hmine
      subst heq
      have h := ingest_view hinv.1 hread htenant hg
      have h' := ingest_view hinv'.1 hread htenant hg'
      rw [hview, h'] at h
      obtain ⟨hstore, hresponse⟩ := Prod.mk.inj h
      rw [hpost, hpost]
      exact ⟨hstore.symm, hresponse.symm⟩

/-- What is held stays held. -/
theorem ingestStep_holds {id : JsString} (store : Store) (delivery : Delivery) (store' : Store)
    (h : store.Keyed ∧ store.holds t id) (hg : Isolated d store delivery)
    (hstep : advance (ingestStep d) store delivery = some store') :
    store'.Keyed ∧ store'.holds t id := by
  cases hstep
  refine ⟨ingestStep_keyed d store delivery h.1 hg, ?_⟩
  obtain ⟨r, req⟩ := delivery
  unfold ingestStep
  rcases ingestStep_cases d r req with ⟨hrefused, -⟩ | ⟨events, t', hread, htenant, hpost⟩
  · rw [(hrefused store).1]
    exact h.2
  · rw [hpost]
    exact (ingest_ledger h.1 hread htenant hg).2.1 t id h.2

end

/-- Every item of the body names its event. -/
def CarriesIds (req : IngestRequest) : Prop :=
  ∀ body, req.body = .ok body → ∀ item ∈ itemsOf body, (suppliedId item).isSome

/-- The ids of such a batch do not depend on when it is delivered. -/
theorem readBatch_eventIds {d : Deployment} {r r' : Readings} {req : IngestRequest}
    {events events' : List MonolithEvent} (hids : CarriesIds req)
    (h : readBatch d r req = .ok events) (h' : readBatch d r' req = .ok events') :
    events'.map (·.eventId) = events.map (·.eventId) := by
  obtain ⟨⟨body, hbody, hitems⟩, -⟩ := readBatch_ok h
  obtain ⟨⟨body', hbody', hitems'⟩, -⟩ := readBatch_ok h'
  have hsame : body' = body := by
    rw [hbody] at hbody'
    cases hbody'
    rfl
  subst hsame
  have hall := hids body' hbody
  have heq := (normalizeAll_eventIds hall hitems').trans (normalizeAll_eventIds hall hitems).symm
  have hmap : ∀ es : List MonolithEvent,
      es.map (fun e => some e.eventId) = (es.map (·.eventId)).map some := fun es => by
    rw [List.map_map]
    rfl
  rw [hmap, hmap] at heq
  exact List.map_injective_iff.mpr (Option.some_injective _) heq

/-- The ledger of the event's tenant has it exactly once. -/
def Store.HasOnce (e : MonolithEvent) (store : Store) : Prop :=
  (store.record e.tenantId).countP (fun p => p.1.eventId = store.storedId e.eventId) = 1

instance (e : MonolithEvent) (store : Store) : Decidable (store.HasOnce e) :=
  inferInstanceAs (Decidable (_ = 1))

/-- In every run without collisions, an accepted batch is and stays in the ledger
once, delivering it again changes no ledger, and a tenant's ledger and answers
are those of any run with the same batches of the tenant. -/
theorem ingest_isolated (d : Deployment) (useDatabase : Bool) :
    (∀ deliveries store r req events later store',
      Path (advance (ingestStep d)) (Isolated d) (Store.init useDatabase) deliveries store →
      Isolated d store (r, req) → readBatch d r req = .ok events →
      (post d r req store).2.isCreated →
      Path (advance (ingestStep d)) (Isolated d) (post d r req store).1 later store' →
      (∀ e ∈ events, store'.HasOnce e) ∧
        (CarriesIds req → ∀ r', Isolated d store' (r', req) →
          ∀ t, (post d r' req store').1.record t = store'.record t)) ∧
    (∀ t, (useDatabase → t.toWellFormed = t) → ∀ deliveries deliveries' store store',
      Path (advance (ingestStep d)) (Isolated d) (Store.init useDatabase) deliveries store →
      Path (advance (ingestStep d)) (Isolated d) (Store.init useDatabase) deliveries' store' →
      deliveries.filter (batchOfTenant d t) = deliveries'.filter (batchOfTenant d t) →
      store.record t = store'.record t ∧
        outputs (ingestStep d) (batchOfTenant d t) (Store.init useDatabase) deliveries =
          outputs (ingestStep d) (batchOfTenant d t) (Store.init useDatabase) deliveries') := by
  constructor
  · intro deliveries store r req events later store' hpath hg hread hcreated hlater
    have hkeyed : store.Keyed := by
      refine hpath.invariant (fun s a s' hs hg hstep => ?_) (init_keyed useDatabase)
      cases hstep
      exact ingestStep_keyed d s a hs hg
    obtain ⟨-, first, rest, hevents, htenant⟩ := readBatch_ok hread
    have hpost := post_of_read hread htenant store
    rw [hpost] at hcreated hlater
    obtain ⟨hkeyed', -, hheld⟩ := ingest_ledger hkeyed hread htenant hg
    have hstays : ∀ e ∈ events, store'.Keyed ∧ store'.holds first.tenantId e.eventId := by
      intro e he
      exact @Path.invariant _ _ _ _ _ _ _
        (fun s => s.Keyed ∧ s.holds first.tenantId e.eventId)
        ingestStep_holds hlater ⟨hkeyed', hheld hcreated e he⟩
    constructor
    · intro e he
      obtain ⟨hkeyed'', hholds⟩ := hstays e he
      rw [← htenant e he] at hholds
      exact record_once hkeyed'' hholds
    · intro hids r' hg' t
      rcases ingestStep_cases d r' req with ⟨hrefused, -⟩ | ⟨events', t', hread', htenant', hpost'⟩
      · rw [(hrefused store').1]
      · rw [hpost']
        refine ingest_of_held hread' htenant' hg' (fun e he => ?_) t
        have hmem : e.eventId ∈ events.map (·.eventId) := by
          rw [← readBatch_eventIds hids hread hread']
          exact List.mem_map_of_mem he
        obtain ⟨e₀, he₀, hid⟩ := List.mem_map.mp hmem
        exact ⟨first.tenantId, hid ▸ (hstays e₀ he₀).2⟩
  · intro t ht deliveries deliveries' store store' hpath hpath' hmine
    have hobs : (Store.init useDatabase).Observes t := by
      cases useDatabase with
      | false => exact trivial
      | true => exact ht rfl
    have hinit := And.intro (init_keyed useDatabase) hobs
    obtain ⟨hview, houts⟩ :=
      (ingest_unwinding d t).noninterference hinit hinit rfl hpath hpath' hmine
    refine ⟨?_, houts⟩
    rw [← store.record_view, ← store'.record_view, hview]

/-! ## Two tenants, one id -/

def otherTenant : Identity := ⟨.ofString "b", by decide, by decide, by decide, by decide⟩

/-- One event of the other tenant. -/
def otherDetection (eventId : String) : IngestRequest where
  body := .ok (.object
    [(.ofString "module", .string (.ofString "mcp-shield")),
      (.ofString "event_type", .string (.ofString "breach")),
      (.ofString "severity", .string (.ofString "info")),
      (.ofString "event_id", .string (.ofString eventId)),
      (.ofString "tenant_id", .string otherTenant.text)])
  authorization := some ⟨bearerPrefix.units ++ (sampleToken otherTenant .mcpShield).units⟩

/-- The id of `shieldDetection`. -/
def collision : Delivery :=
  (sampleReadings 9, otherDetection "00000000-0000-4000-8000-000000000001")

def ownDelivery : Delivery := (sampleReadings 19, shieldDetection)

/-- The event that comes second is answered with 201 and lost, and the answer
is not that of a run without the other tenant. -/
theorem collision_loses_event :
    ∃ e, readBatch sampleDeployment ownDelivery.1 ownDelivery.2 = .ok [e] ∧
      ∀ store ∈ [Store.init false, Store.init true],
        let run := (ingestStep sampleDeployment store collision).1
        (ingestStep sampleDeployment run ownDelivery).2.isCreated ∧
          ¬(ingestStep sampleDeployment run ownDelivery).1.HasOnce e ∧
          outputs (ingestStep sampleDeployment) (batchOfTenant sampleDeployment defaultTenant) store
              [collision, ownDelivery] ≠
            outputs (ingestStep sampleDeployment) (batchOfTenant sampleDeployment defaultTenant)
              store [ownDelivery] := by
  refine ⟨_, rfl, ?_⟩
  intro store hstore
  cases hstore with
  | head => exact ⟨rfl, by decide +kernel, by decide +kernel⟩
  | tail _ hstore =>
      cases hstore with
      | head => exact ⟨rfl, by decide +kernel, by decide +kernel⟩
      | tail _ hstore => cases hstore

def distinct : Delivery :=
  (sampleReadings 9, otherDetection "00000000-0000-4000-8000-000000000002")

theorem isolated_distinct : Isolated sampleDeployment (Store.init true) distinct := by
  intro events h t ht
  cases h
  have htenant : otherTenant = t := ht _ List.mem_cons_self
  subst htenant
  refine ⟨rfl, ?_⟩
  intro e _ row hrow
  cases hrow

theorem isolated_own {store : Store} (h : store = Store.init true ∨
    store = (ingestStep sampleDeployment (Store.init true) distinct).1) :
    Isolated sampleDeployment store ownDelivery := by
  intro events hread t ht
  cases hread
  have htenant : defaultTenant = t := ht _ List.mem_cons_self
  subst htenant
  rcases h with rfl | rfl
  · refine ⟨rfl, ?_⟩
    intro e _ row hrow
    cases hrow
  · refine ⟨rfl, ?_⟩
    intro e he row hrow
    cases he with
    | head => cases hrow
    | tail _ he => cases he

theorem ingest_isolated_two_tenants :
    (∀ e ∈ batchOf ownDelivery.1 ownDelivery.2,
      (ingestStep sampleDeployment (ingestStep sampleDeployment (Store.init true) distinct).1
        ownDelivery).1.HasOnce e) ∧
      outputs (ingestStep sampleDeployment) (batchOfTenant sampleDeployment defaultTenant)
          (Store.init true) [distinct, ownDelivery] =
        outputs (ingestStep sampleDeployment) (batchOfTenant sampleDeployment defaultTenant)
          (Store.init true) [ownDelivery] := by
  obtain ⟨hledger, hanswers⟩ := ingest_isolated sampleDeployment true
  have hown := isolated_own (Or.inr rfl)
  constructor
  · exact (hledger [distinct] _ ownDelivery.1 ownDelivery.2 _ [] _
      (.step rfl isolated_distinct (.done _)) hown rfl rfl (.done _)).1
  · exact (hanswers defaultTenant (fun _ => rfl) _ _ _ _
      (.step rfl isolated_distinct (.step rfl hown (.done _)))
      (.step rfl (isolated_own (Or.inl rfl)) (.done _)) rfl).2

end BlackMonolith.Dashboard
