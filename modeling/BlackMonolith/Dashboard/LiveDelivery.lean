import Mathlib
import BlackMonolith.Library.RecentKeys
import BlackMonolith.Dashboard.EventStream
import BlackMonolith.Dashboard.Storability
import BlackMonolith.Dashboard.TenantView

/-!
# Live delivery

An insert notifies every dashboard that listens. A notification waits until the lookups under
way are done; what waits then is looked up tenant by tenant, and what is found goes to the
broker, as do the events that the ingest route of the same process has accepted. Between what
a lookup reads and the broker, anything else may happen. The broker forgets an id after 4096
others.
-/
namespace BlackMonolith.Dashboard
open Library

/-! ## Notifications -/

structure EventNotification where
  eventId : JsString
  tenantId : JsString
  uuid : isUuid eventId = true

/-- `parseEventNotification`, on what `JSON.parse` gives, if it gives anything. -/
def parseEventNotification : Option JsValue → Option EventNotification
  | some (.object members) =>
      match JsValue.get members "event_id", JsValue.get members "tenant_id" with
      | some (.string eventId), some (.string tenantId) =>
          if h : isUuid eventId = true ∧ tenantId.trim.units ≠ [] ∧ tenantId.length ≤ 128 then
            some ⟨eventId, tenantId.trim, h.1⟩
          else none
      | _, _ => none
  | _ => none

/-- What `notify_security_event` sends for a row, as its dashboard parses it. -/
def notificationPayload (event : MonolithEvent) : JsValue :=
  .object [(JsString.ofString "event_id", .string event.eventId),
    (JsString.ofString "tenant_id", .string event.tenantId.text)]

namespace EventNotification

/-- The key in `pending`, with a slash in the middle. -/
def key (n : EventNotification) : JsString := ⟨n.tenantId.units ++ 0x2F :: n.eventId.units⟩

/-- The tenant and the event that a notification names. -/
def subject (n : EventNotification) : JsString × JsString := (n.tenantId, n.eventId)

end EventNotification

/-! ## Lookups -/

def findEventById (table : EventTable) (tenantId eventId : JsString) : Option MonolithEvent :=
  if isUuid eventId then
    ((table.get? eventId.asciiLowercase).filter (·.event.tenantId.text = tenantId)).map fromRow
  else none

def findEventsByIds (table : EventTable) (tenantId : JsString) (eventIds : List JsString) :
    List MonolithEvent :=
  match (eventIds.filter isUuid).eraseDups with
  | [] => []
  | [id] => (findEventById table tenantId id).toList
  | validIds =>
      ((table.values.filter fun row => row.event.tenantId.text = tenantId ∧
          row.event.eventId ∈ validIds.map JsString.asciiLowercase).insertionSort fun a b =>
        receipt a.receivedAt a.event.eventId ≤ receipt b.receivedAt b.event.eventId).map fromRow

/-! ## The broker and the listener -/

namespace EventBroker

def hasSeen (broker : EventBroker) (eventId : JsString) : Bool := eventId ∈ broker.seenOrder

/-- The events that were handed to the subscribers, once another one came. -/
def ingest (broker : EventBroker) (handed : List MonolithEvent) (event : MonolithEvent) :
    EventBroker × List MonolithEvent :=
  let (seen, broker) := broker.markSeen event.eventId
  (broker, if seen then handed else handed ++ [event])

def publish (broker : EventBroker) (handed events : List MonolithEvent) :
    EventBroker × List MonolithEvent :=
  events.foldl (fun s event => s.1.ingest s.2 event) (broker, handed)

end EventBroker

/-- The first of the batches is being looked up, unless the answer to one is on its way. -/
structure LiveEventListener where
  pending : InsertionMap JsString EventNotification := .empty
  batches : List (JsString × List JsString) := []
  answer : Option (List MonolithEvent) := none

namespace LiveEventListener

def draining (listener : LiveEventListener) : Bool :=
  !listener.batches.isEmpty || listener.answer.isSome

def batchByTenant (broker : EventBroker) (pending : List EventNotification) :
    InsertionMap JsString (List JsString) :=
  pending.foldl (fun batches n =>
    if broker.hasSeen n.eventId then batches
    else batches.set n.tenantId ((batches.get? n.tenantId).getD [] ++ [n.eventId])) .empty

/-- `drain` up to its next `await`: the batches that are left, or what has come meanwhile. -/
def drain (listener : LiveEventListener) (broker : EventBroker)
    (batches : List (JsString × List JsString)) : LiveEventListener :=
  if batches = [] then
    { pending := .empty, batches := (batchByTenant broker listener.pending.values).entries }
  else { listener with batches, answer := none }

def wait (listener : LiveEventListener) (n : EventNotification) : LiveEventListener :=
  { listener with pending := listener.pending.set n.key n }

def enqueue (listener : LiveEventListener) (broker : EventBroker) (n : EventNotification) :
    LiveEventListener :=
  if broker.hasSeen n.eventId then listener
  else if listener.draining then listener.wait n else (listener.wait n).drain broker []

end LiveEventListener

/-! ## Interleavings -/

/-- What has happened; no step reads it. -/
structure DeliveryJournal where
  committed : List MonolithEvent := []
  notified : List (JsString × JsString) := []
  failed : List (JsString × JsString) := []
  dropped : List (JsString × JsString) := []
  deleted : List JsString := []

/-- The database and one process of the dashboard: what its ingest route has yet to publish,
the notifications on their way to it, its listener, and what its broker has handed over. -/
structure LiveDelivery where
  table : EventTable
  accepted : List (List MonolithEvent) := []
  listening : Bool := false
  channel : List JsValue := []
  broker : EventBroker := {}
  listener : LiveEventListener := {}
  handed : List MonolithEvent := []
  journal : DeliveryJournal := {}

inductive DeliveryAction
  | persist (now : ℕ) (context : Identity) (events : List MonolithEvent) (here : Bool)
  | publish (i : ℕ)
  | prune (keeps : EventRow → Bool)
  | connect
  | disconnect
  | receive
  | lookup
  | answer
  | lookupFails

def subjectOf (event : MonolithEvent) : JsString × JsString := (event.tenantId.text, event.eventId)

namespace LiveDelivery

/-- The rows that a transaction has inserted, each with its notification. -/
def commit (s : LiveDelivery) (table : EventTable) (inserted : List MonolithEvent) (here : Bool) :
    LiveDelivery :=
  { s with
    table
    accepted := if here && !inserted.isEmpty then s.accepted ++ [inserted] else s.accepted
    channel := if s.listening then s.channel ++ inserted.map notificationPayload else s.channel
    journal.committed := s.journal.committed ++ inserted
    journal.notified :=
      if s.listening then s.journal.notified ++ inserted.map subjectOf else s.journal.notified }

def ingestAll (s : LiveDelivery) (events : List MonolithEvent) : LiveDelivery :=
  let (broker, handed) := s.broker.publish s.handed events
  { s with broker, handed }

/-- `checks` says what the table takes. -/
def step (checks : TableChecks) (s : LiveDelivery) : DeliveryAction → Option LiveDelivery
  | .persist now context events here =>
      -- `normalizeEvent` lets no other id through.
      if events.all fun e => isUuid e.eventId then
        match insertEvents checks context now events s.table with
        | some (results, table) =>
            some (s.commit table ((results.filter (·.inserted)).map (·.event)) here)
        | none => some s
      else none
  | .publish i =>
      match s.accepted[i]? with
      | some events => some { s.ingestAll events with accepted := s.accepted.eraseIdx i }
      | none => none
  | .prune keeps => some
      { s with
        table := s.table.filter fun _ row => keeps row
        journal.deleted := s.journal.deleted ++
          (s.table.values.filter fun row => !keeps row).map (·.event.eventId) }
  | .connect => some { s with listening := true }
  | .disconnect => some
      { s with
        listening := false
        channel := []
        journal.dropped := s.journal.dropped ++
          (s.channel.filterMap fun p => (parseEventNotification (some p)).map (·.subject)) }
  | .receive =>
      match s.channel with
      | payload :: channel => some
          { s with
            channel
            listener := match parseEventNotification (some payload) with
              | some n => s.listener.enqueue s.broker n
              | none => s.listener }
      | [] => none
  | .lookup =>
      match s.listener.batches with
      | batch :: batches =>
          if s.listener.answer = none then
            some { s with
              listener.batches := batches
              listener.answer := some (findEventsByIds s.table batch.1 batch.2) }
          else none
      | [] => none
  | .answer =>
      match s.listener.answer with
      | some events =>
          let s := s.ingestAll events
          some { s with listener := s.listener.drain s.broker s.listener.batches }
      | none => none
  | .lookupFails =>
      match s.listener.batches with
      | batch :: batches =>
          if s.listener.answer = none then
            some { s with
              listener := s.listener.drain s.broker batches
              journal.failed := s.journal.failed ++ batch.2.map fun id => (batch.1, id) }
          else none
      | [] => none

end LiveDelivery

/-! ## What is broadcast -/

def handedIds (handed : List MonolithEvent) : List JsString := handed.map (·.eventId)

/-- The broker remembers the last ids that it handed over, and hands none of them over again. -/
structure Broadcasts (broker : EventBroker) (handed : List MonolithEvent) : Prop where
  recent : broker.seenOrder = (handedIds handed).rtake maxRecentEventIds
  spaced : Spaced maxRecentEventIds (handedIds handed)

section
variable {broker broker' : EventBroker} {handed handed' events : List MonolithEvent}
  {event : MonolithEvent} {id : JsString}

theorem Broadcasts.mem_of_hasSeen (h : Broadcasts broker handed)
    (hseen : broker.hasSeen id = true) : id ∈ handedIds handed := by
  have hmem : id ∈ broker.seenOrder := of_decide_eq_true hseen
  rw [h.recent] at hmem
  exact List.mem_of_mem_drop hmem

theorem Broadcasts.ingest (h : Broadcasts broker handed) (hid : event.eventId.units ≠ [])
    (heq : broker.ingest handed event = (broker', handed')) :
    Broadcasts broker' handed' ∧ event.eventId ∈ handedIds handed' ∧
      (∀ e ∈ handed', e ∈ handed ∨ e = event) ∧ handed <+: handed' := by
  unfold EventBroker.ingest EventBroker.markSeen at heq
  rw [if_neg hid] at heq
  split_ifs at heq with hseen
  · cases heq
    refine ⟨h, ?_, fun e he => Or.inl he, List.prefix_rfl⟩
    rw [h.recent] at hseen
    exact List.mem_of_mem_drop hseen
  · obtain ⟨rfl, rfl⟩ := Prod.mk.inj heq
    rw [if_neg Bool.false_ne_true]
    have hids : handedIds (handed ++ [event]) = handedIds handed ++ [event.eventId] := by
      rw [handedIds, List.map_append]
      rfl
    refine ⟨⟨?_, ?_⟩, ?_, ?_, List.prefix_append _ _⟩
    · rw [hids, rtake_concat, ← h.recent]
    · rw [hids]
      exact h.spaced.concat (h.recent ▸ hseen)
    · rw [hids]
      exact List.mem_append_right _ (List.mem_singleton_self _)
    · intro e he
      exact (List.mem_append.mp he).imp id List.mem_singleton.mp

theorem Broadcasts.publish (h : Broadcasts broker handed)
    (hids : ∀ e ∈ events, e.eventId.units ≠ [])
    (heq : broker.publish handed events = (broker', handed')) :
    Broadcasts broker' handed' ∧ (∀ e ∈ events, e.eventId ∈ handedIds handed') ∧
      (∀ e ∈ handed', e ∈ handed ∨ e ∈ events) ∧ handed <+: handed' := by
  induction events generalizing broker handed with
  | nil =>
      cases heq
      exact ⟨h, List.forall_mem_nil _, fun e he => Or.inl he, List.prefix_rfl⟩
  | cons event events ih =>
      obtain ⟨hid, hids⟩ := List.forall_mem_cons.mp hids
      rw [EventBroker.publish, List.foldl_cons] at heq
      obtain ⟨hnext, hmem, honly, hgrows⟩ := h.ingest hid rfl
      obtain ⟨hlast, hall, hfrom, hmore⟩ := ih hnext hids heq
      refine ⟨hlast, List.forall_mem_cons.mpr ⟨?_, hall⟩, fun e he => ?_, hgrows.trans hmore⟩
      · exact (hmore.map _).subset hmem
      · rcases hfrom e he with hbefore | hlater
        · rcases honly e hbefore with hold | rfl
          · exact Or.inl hold
          · exact Or.inr List.mem_cons_self
        · exact Or.inr (List.mem_cons_of_mem _ hlater)

end

/-! ## What waits -/

namespace EventNotification

theorem length_eventId (n : EventNotification) : n.eventId.units.length = 36 := by
  have huuid := n.uuid
  rw [isUuid, Bool.and_eq_true, beq_iff_eq] at huuid
  exact huuid.1

/-- An event id has one length, so the key tells it from the tenant. -/
theorem key_inj {n n' : EventNotification} (h : n.key = n'.key) : n.subject = n'.subject := by
  have hunits := congrArg JsString.units h
  have hlength : (0x2F :: n.eventId.units).length = (0x2F :: n'.eventId.units).length := by
    rw [List.length_cons, List.length_cons, length_eventId, length_eventId]
  obtain ⟨htenant, hevent⟩ := List.append_inj' hunits hlength
  unfold subject
  exact Prod.ext (congrArg JsString.mk htenant) (congrArg JsString.mk (List.cons.inj hevent).2)

theorem parse_payload {event : MonolithEvent} (h : isUuid event.eventId = true) :
    ∃ n, parseEventNotification (some (notificationPayload event)) = some n ∧
      n.subject = subjectOf event := by
  have hparts : isUuid event.eventId = true ∧ event.tenantId.text.trim.units ≠ [] ∧
      event.tenantId.text.length ≤ 128 := by
    refine ⟨h, ?_, event.tenantId.bounded⟩
    rw [event.tenantId.trimmed]
    exact event.tenantId.nonempty
  refine ⟨⟨event.eventId, event.tenantId.text.trim, h⟩, dif_pos hparts, ?_⟩
  unfold subject subjectOf
  rw [event.tenantId.trimmed]

end EventNotification

namespace LiveEventListener
variable {listener : LiveEventListener} {broker : EventBroker} {n : EventNotification}
  {r : JsString × JsString} {batches : List (JsString × List JsString)}

/-- A batch holds the event. -/
def InBatches (batches : List (JsString × List JsString)) (r : JsString × JsString) : Prop :=
  ∃ batch ∈ batches, batch.1 = r.1 ∧ r.2 ∈ batch.2

/-- An answer on its way has the event. -/
def Answered (listener : LiveEventListener) (r : JsString × JsString) : Prop :=
  ∃ events, listener.answer = some events ∧ r.2 ∈ handedIds events

def Waits (listener : LiveEventListener) (r : JsString × JsString) : Prop :=
  (∃ n ∈ listener.pending.values, n.subject = r) ∨ InBatches listener.batches r ∨
    listener.Answered r

theorem draining_eq_false :
    listener.draining = false ↔ listener.batches = [] ∧ listener.answer = none := by
  simp [draining]

/-- What is pending gets into the batch of its tenant, unless the broker has seen it. -/
theorem inBatches_batchByTenant (pending : List EventNotification) :
    ∀ n ∈ pending, broker.hasSeen n.eventId = true ∨
      InBatches (batchByTenant broker pending).entries n.subject := by
  have hfold : ∀ batches : InsertionMap JsString (List JsString),
      (∀ r, (∃ ids, batches.get? r.1 = some ids ∧ r.2 ∈ ids) ∨
        (∃ n ∈ pending, n.subject = r ∧ broker.hasSeen n.eventId = false) →
        ∃ ids, (pending.foldl (fun batches n =>
          if broker.hasSeen n.eventId then batches
          else batches.set n.tenantId ((batches.get? n.tenantId).getD [] ++ [n.eventId]))
            batches).get? r.1 = some ids ∧ r.2 ∈ ids) := by
    induction pending with
    | nil =>
        intro batches r h
        rcases h with hheld | ⟨n, hn, -⟩
        · exact hheld
        · cases hn
    | cons n pending ih =>
        intro batches r h
        rw [List.foldl_cons]
        apply ih
        by_cases hseen : broker.hasSeen n.eventId = true
        · rw [if_pos hseen]
          refine h.imp id ?_
          rintro ⟨m, hm, hsubject, hunseen⟩
          rcases List.mem_cons.mp hm with rfl | hlater
          · rw [hseen] at hunseen
            cases hunseen
          · exact ⟨m, hlater, hsubject, hunseen⟩
        · rw [if_neg hseen, InsertionMap.get?_set]
          rcases h with ⟨ids, hids, hmem⟩ | ⟨m, hm, rfl, hunseen⟩
          · left
            by_cases htenant : n.tenantId = r.1
            · rw [if_pos htenant, htenant, hids]
              exact ⟨_, rfl, List.mem_append_left _ hmem⟩
            · rw [if_neg htenant]
              exact ⟨ids, hids, hmem⟩
          · rcases List.mem_cons.mp hm with rfl | hlater
            · left
              rw [EventNotification.subject, if_pos rfl]
              exact ⟨_, rfl, List.mem_append_right _ (List.mem_singleton_self _)⟩
            · exact Or.inr ⟨m, hlater, rfl, hunseen⟩
  intro n hn
  by_cases hseen : broker.hasSeen n.eventId = true
  · exact Or.inl hseen
  · right
    obtain ⟨ids, hids, hmem⟩ := hfold .empty n.subject
      (Or.inr ⟨n, hn, rfl, Bool.not_eq_true _ ▸ hseen⟩)
    exact ⟨_, InsertionMap.get?_eq_some_iff.mp hids, rfl, hmem⟩

/-- What waited, or is left of the batches, waits on, unless the broker has seen it. -/
theorem waits_drain (h : (∃ n ∈ listener.pending.values, n.subject = r) ∨ InBatches batches r) :
    (listener.drain broker batches).Waits r ∨ broker.hasSeen r.2 = true := by
  unfold drain
  split_ifs with hnone
  · subst hnone
    rcases h with ⟨n, hn, rfl⟩ | ⟨batch, hbatch, -⟩
    · exact (inBatches_batchByTenant listener.pending.values n hn).symm.imp
        (fun hbatch => Or.inr (Or.inl hbatch)) id
    · cases hbatch
  · exact Or.inl (h.imp id Or.inl)

theorem waits_enqueue (hkeys : ∀ k n, listener.pending.get? k = some n → n.key = k)
    (h : listener.Waits r ∨ n.subject = r) :
    (listener.enqueue broker n).Waits r ∨ broker.hasSeen r.2 = true := by
  have hadded : (listener.wait n).Waits r := by
    rcases h with (⟨m, hm, rfl⟩ | hlater) | rfl
    · left
      obtain ⟨k, hk⟩ := InsertionMap.mem_values_iff.mp hm
      by_cases hsame : n.key = k
      · refine ⟨n, InsertionMap.mem_values_iff.mpr ⟨n.key, InsertionMap.get?_set_self⟩, ?_⟩
        exact EventNotification.key_inj (hsame.trans (hkeys k m hk).symm)
      · refine ⟨m, InsertionMap.mem_values_iff.mpr ⟨k, ?_⟩, rfl⟩
        exact (InsertionMap.get?_set_of_ne hsame).trans hk
    · exact Or.inr hlater
    · exact Or.inl ⟨n, InsertionMap.mem_values_iff.mpr ⟨n.key, InsertionMap.get?_set_self⟩, rfl⟩
  unfold enqueue
  split_ifs with hseen hdraining
  · rcases h with hwaits | rfl
    · exact Or.inl hwaits
    · exact Or.inr hseen
  · exact Or.inl hadded
  · obtain ⟨hbatches, hanswer⟩ := draining_eq_false.mp (Bool.not_eq_true _ ▸ hdraining)
    rcases hadded with hpending | ⟨batch, hbatch, -⟩ | ⟨events, hevents, -⟩
    · exact waits_drain (Or.inl hpending)
    · rw [wait, hbatches] at hbatch
      cases hbatch
    · rw [wait, hanswer] at hevents
      cases hevents

theorem answer_drain : (listener.drain broker batches).answer = none := by
  unfold drain
  split_ifs
  · rfl
  · rfl

/-- A notification brings no answer. -/
theorem answer_enqueue {events : List MonolithEvent}
    (h : (listener.enqueue broker n).answer = some events) : listener.answer = some events := by
  unfold enqueue at h
  split_ifs at h
  · exact h
  · exact h
  · rw [answer_drain] at h
    cases h

/-- Nothing is pending while nothing is looked up, and each key is that of its notification. -/
structure Orderly (listener : LiveEventListener) : Prop where
  keys : ∀ k n, listener.pending.get? k = some n → n.key = k
  idle : listener.draining = false → listener.pending = .empty

theorem Orderly.drain (h : listener.Orderly) : (listener.drain broker batches).Orderly := by
  unfold LiveEventListener.drain
  split_ifs with hnone
  · refine ⟨fun k n hn => ?_, fun _ => rfl⟩
    cases hn
  · exact ⟨h.keys, fun hidle => absurd (draining_eq_false.mp hidle).1 hnone⟩

theorem Orderly.enqueue (h : listener.Orderly) : (listener.enqueue broker n).Orderly := by
  have hset : ∀ k m, (listener.wait n).pending.get? k = some m → m.key = k := by
    intro k m hm
    rw [wait, InsertionMap.get?_set] at hm
    split_ifs at hm with hkey
    · cases hm
      exact hkey
    · exact h.keys k m hm
  unfold LiveEventListener.enqueue
  split_ifs with hseen hdraining
  · exact h
  · refine ⟨hset, fun hidle => absurd hdraining ?_⟩
    exact Bool.not_eq_true _ ▸ hidle
  · unfold LiveEventListener.drain
    rw [if_pos rfl]
    refine ⟨fun k m hm => ?_, fun _ => rfl⟩
    cases hm

end LiveEventListener

/-! ## What a lookup finds -/

/-- The rows have their ids as `uuid` columns print them. -/
def UuidKeyed (table : EventTable) : Prop :=
  ∀ id row, table.get? id = some row →
    row.event.eventId = id ∧ isUuid id = true ∧ id.asciiLowercase = id

section
variable {table table' : EventTable} {tenantId id : JsString} {ids : List JsString} {row : EventRow}
  {event : MonolithEvent} {checks : TableChecks} {context : Identity} {now : ℕ}
  {events : List MonolithEvent} {results : List PersistResult}

theorem mem_findEventsByIds (htable : UuidKeyed table) (hrow : table.get? id = some row)
    (htenant : row.event.tenantId.text = tenantId) (hid : id ∈ ids) :
    fromRow row ∈ findEventsByIds table tenantId ids := by
  obtain ⟨hkey, huuid, hlower⟩ := htable id row hrow
  have hvalid : id ∈ (ids.filter isUuid).eraseDups :=
    List.mem_eraseDups.mpr (List.mem_filter.mpr ⟨hid, huuid⟩)
  unfold findEventsByIds
  split
  · next hnone =>
      rw [hnone] at hvalid
      cases hvalid
  · next single hsingle =>
      rw [hsingle] at hvalid
      rw [← List.mem_singleton.mp hvalid, findEventById, if_pos huuid, hlower, hrow,
        Option.filter_some, if_pos (decide_eq_true htenant)]
      exact List.mem_singleton_self _
  · apply List.mem_map_of_mem
    rw [List.mem_insertionSort, List.mem_filter]
    refine ⟨InsertionMap.mem_values_iff.mpr ⟨id, hrow⟩, decide_eq_true ⟨htenant, ?_⟩⟩
    rw [hkey]
    exact List.mem_map.mpr ⟨id, hvalid, hlower⟩

theorem exists_of_mem_findEventsByIds (h : event ∈ findEventsByIds table tenantId ids) :
    ∃ id row, table.get? id = some row ∧ event = fromRow row := by
  unfold findEventsByIds at h
  split at h
  · cases h
  · unfold findEventById at h
    split_ifs at h
    · obtain ⟨row, hrow, rfl⟩ := Option.map_eq_some_iff.mp (Option.mem_toList.mp h)
      exact ⟨_, row, (Option.filter_eq_some_iff.mp hrow).1, rfl⟩
    · cases h
  · obtain ⟨row, hrow, rfl⟩ := List.mem_map.mp h
    rw [List.mem_insertionSort, List.mem_filter] at hrow
    obtain ⟨id, hid⟩ := InsertionMap.mem_values_iff.mp hrow.1
    exact ⟨id, row, hid, rfl⟩

/-! ## What an insert adds -/

/-- The events of the rows that were inserted, as they are read back. -/
def insertedEvents (results : List PersistResult) : List MonolithEvent :=
  (results.filter (·.inserted)).map (·.event)

theorem asciiLowercase_asciiLowercase (s : JsString) :
    s.asciiLowercase.asciiLowercase = s.asciiLowercase := by
  unfold JsString.asciiLowercase
  rw [List.map_map]
  congr 1
  apply List.map_congr_left
  intro u _
  dsimp only [Function.comp_apply]
  split_ifs with hupper hagain
  · simp only [Bool.and_eq_true, decide_eq_true_eq, UInt16.le_iff_toNat_le, UInt16.toNat_add,
      UInt16.reduceToNat] at hupper hagain
    omega
  · rfl
  · rfl

theorem insertEvents_adds (hids : ∀ e ∈ events, isUuid e.eventId = true)
    (htable : UuidKeyed table)
    (h : insertEvents checks context now events table = some (results, table')) :
    UuidKeyed table' ∧
      (∀ e ∈ insertedEvents results, ∃ row, table'.get? e.eventId = some row ∧ e = fromRow row) ∧
        ∀ id row, table'.get? id = some row →
          table.get? id = some row ∨ fromRow row ∈ insertedEvents results := by
  induction events generalizing table results with
  | nil =>
      cases h
      exact ⟨htable, List.forall_mem_nil _, fun _ _ hrow => Or.inl hrow⟩
  | cons event events ih =>
      obtain ⟨huuid, hids⟩ := List.forall_mem_cons.mp hids
      rw [insertEvents] at h
      split at h
      · cases h
      · next result middle hfirst =>
          split at h
          · cases h
          · next rest last hrest =>
              cases h
              obtain ⟨-, ⟨-, rfl, rfl⟩ | ⟨hnone, rfl, rfl⟩⟩ := insertEventWithClient_cases hfirst
              · have hall := ih hids htable hrest
                exact hall
              · have hset : UuidKeyed
                    (table.set event.eventId.asciiLowercase (eventRow now event)) := by
                  intro id row hrow
                  rw [InsertionMap.get?_set] at hrow
                  split_ifs at hrow with hkey
                  · cases hrow
                    subst hkey
                    exact ⟨rfl, isUuid_asciiLowercase huuid, asciiLowercase_asciiLowercase _⟩
                  · exact htable id row hrow
                obtain ⟨hkeyed, hadded, hfrom⟩ := ih hids hset hrest
                refine ⟨hkeyed, List.forall_mem_cons.mpr ⟨⟨eventRow now event, ?_, rfl⟩, hadded⟩,
                  fun id row hrow => ?_⟩
                · exact insertEvents_get? InsertionMap.get?_set_self hrest
                · rcases hfrom id row hrow with hold | hnew
                  · rw [InsertionMap.get?_set] at hold
                    split_ifs at hold with hkey
                    · cases hold
                      exact Or.inr List.mem_cons_self
                    · exact Or.inl hold
                  · exact Or.inr (List.mem_cons_of_mem _ hnew)

end

/-! ## Every interleaving -/

namespace LiveDelivery

/-- Where an event is of which the process was notified. -/
def Fate (s : LiveDelivery) (r : JsString × JsString) : Prop :=
  (∃ p ∈ s.channel, (parseEventNotification (some p)).map (·.subject) = some r) ∨
    s.listener.Waits r ∨ r.2 ∈ handedIds s.handed ∨
      r ∈ s.journal.failed ∨ r ∈ s.journal.dropped ∨ r.2 ∈ s.journal.deleted

structure Accounted (s : LiveDelivery) : Prop where
  table : UuidKeyed s.table
  rows : ∀ id row, s.table.get? id = some row → fromRow row ∈ s.journal.committed
  held : ∀ e ∈ s.journal.committed, isUuid e.eventId = true ∧
    ((∃ row, s.table.get? e.eventId = some row ∧ e = fromRow row) ∨
      e.eventId ∈ s.journal.deleted)
  accepted : ∀ batch ∈ s.accepted, ∀ e ∈ batch, e ∈ s.journal.committed
  named : ∀ r ∈ s.journal.notified, ∃ e ∈ s.journal.committed, subjectOf e = r
  fates : ∀ r ∈ s.journal.notified, s.Fate r
  answer : ∀ events, s.listener.answer = some events → ∀ e ∈ events, e ∈ s.journal.committed
  listener : s.listener.Orderly
  broadcasts : Broadcasts s.broker s.handed
  handed : ∀ e ∈ s.handed, e ∈ s.journal.committed

/-- A process that has just been started. -/
def start (table : EventTable) : LiveDelivery where
  table
  journal.committed := table.values.map fromRow

variable {checks : TableChecks} {s t : LiveDelivery} {events : List MonolithEvent}
  {r : JsString × JsString}

theorem accounted_start {table : EventTable} (h : UuidKeyed table) : (start table).Accounted where
  table := h
  rows id row hrow := List.mem_map_of_mem (InsertionMap.mem_values_iff.mpr ⟨id, hrow⟩)
  held e he := by
    obtain ⟨row, hrow, rfl⟩ := List.mem_map.mp he
    obtain ⟨id, hid⟩ := InsertionMap.mem_values_iff.mp hrow
    obtain ⟨hkey, huuid, -⟩ := h id row hid
    have heq : (fromRow row).eventId = id := hkey
    rw [heq]
    exact ⟨huuid, Or.inl ⟨row, hid, rfl⟩⟩
  accepted _ hbatch := absurd hbatch List.not_mem_nil
  named _ hr := absurd hr List.not_mem_nil
  fates _ hr := absurd hr List.not_mem_nil
  answer _ hanswer := by cases hanswer
  listener := ⟨fun _ _ h => (by cases h), fun _ => rfl⟩
  broadcasts := ⟨by rw [handedIds, start, List.map_nil, List.rtake_nil], spaced_nil⟩
  handed _ he := absurd he List.not_mem_nil

theorem Accounted.id_ne_nil (h : s.Accounted) {e : MonolithEvent} (he : e ∈ s.journal.committed) :
    e.eventId.units ≠ [] := by
  have huuid := (h.held e he).1
  rw [isUuid, Bool.and_eq_true, beq_iff_eq] at huuid
  exact List.ne_nil_of_length_pos (by rw [show e.eventId.units.length = 36 from huuid.1]; decide)

/-- What a broadcast of committed events changes. -/
theorem ingestAll_spec (h : s.Accounted) (hevents : ∀ e ∈ events, e ∈ s.journal.committed) :
    (∃ broker handed, s.ingestAll events = { s with broker, handed }) ∧
      Broadcasts (s.ingestAll events).broker (s.ingestAll events).handed ∧
        (∀ e ∈ (s.ingestAll events).handed, e ∈ s.journal.committed) ∧
          (∀ e ∈ events, e.eventId ∈ handedIds (s.ingestAll events).handed) ∧
            s.handed <+: (s.ingestAll events).handed := by
  unfold ingestAll
  obtain ⟨hbroadcasts, hall, hfrom, hgrows⟩ :=
    h.broadcasts.publish (fun e he => h.id_ne_nil (hevents e he)) rfl
  refine ⟨⟨_, _, rfl⟩, hbroadcasts, fun e he => ?_, hall, hgrows⟩
  exact (hfrom e he).elim (h.handed e) (hevents e)

theorem accounted_commit (h : s.Accounted) {context : Identity} {now : ℕ} {table : EventTable}
    {results : List PersistResult} (here : Bool) (hids : ∀ e ∈ events, isUuid e.eventId = true)
    (hinsert : insertEvents checks context now events s.table = some (results, table)) :
    (s.commit table (insertedEvents results) here).Accounted := by
  obtain ⟨hkeyed, hadded, hfrom⟩ := insertEvents_adds hids h.table hinsert
  have hnew : ∀ e ∈ insertedEvents results, isUuid e.eventId = true := by
    intro e he
    obtain ⟨row, hrow, -⟩ := hadded e he
    exact (hkeyed _ row hrow).2.1
  refine ⟨hkeyed, fun id row hrow => ?_, fun e he => ?_, fun batch hbatch e he => ?_,
    fun r hr => ?_, fun r hr => ?_,
    fun events hanswer e he => List.mem_append_left _ (h.answer events hanswer e he),
    h.listener, h.broadcasts, fun e he => List.mem_append_left _ (h.handed e he)⟩
  · rcases hfrom id row hrow with hold | hinserted
    · exact List.mem_append_left _ (h.rows id row hold)
    · exact List.mem_append_right _ hinserted
  · rcases List.mem_append.mp he with hold | hinserted
    · obtain ⟨huuid, ⟨row, hrow, heq⟩ | hdeleted⟩ := h.held e hold
      · exact ⟨huuid, Or.inl ⟨row, insertEvents_get? hrow hinsert, heq⟩⟩
      · exact ⟨huuid, Or.inr hdeleted⟩
    · exact ⟨hnew e hinserted, Or.inl (hadded e hinserted)⟩
  · unfold commit at hbatch ⊢
    dsimp only at hbatch ⊢
    split_ifs at hbatch
    · rcases List.mem_append.mp hbatch with hold | hlast
      · exact List.mem_append_left _ (h.accepted batch hold e he)
      · rw [List.mem_singleton.mp hlast] at he
        exact List.mem_append_right _ he
    · exact List.mem_append_left _ (h.accepted batch hbatch e he)
  · unfold commit at hr ⊢
    dsimp only at hr ⊢
    have hold : r ∈ s.journal.notified →
        ∃ e ∈ s.journal.committed ++ insertedEvents results, subjectOf e = r := by
      intro hnotified
      obtain ⟨e, he, hsubject⟩ := h.named r hnotified
      exact ⟨e, List.mem_append_left _ he, hsubject⟩
    split_ifs at hr
    · rcases List.mem_append.mp hr with hbefore | hnow
      · exact hold hbefore
      · obtain ⟨e, he, hsubject⟩ := List.mem_map.mp hnow
        exact ⟨e, List.mem_append_right _ he, hsubject⟩
    · exact hold hr
  · unfold commit at hr ⊢
    unfold Fate
    dsimp only at hr ⊢
    split_ifs at hr ⊢
    · rcases List.mem_append.mp hr with hbefore | hnow
      · refine (h.fates r hbefore).imp ?_ id
        rintro ⟨p, hp, hparsed⟩
        exact ⟨p, List.mem_append_left _ hp, hparsed⟩
      · left
        obtain ⟨e, he, rfl⟩ := List.mem_map.mp hnow
        obtain ⟨n, hn, hsubject⟩ := EventNotification.parse_payload (hnew e he)
        refine ⟨_, List.mem_append_right _ (List.mem_map_of_mem he), ?_⟩
        rw [hn, ← hsubject]
        rfl
    · exact h.fates r hr

theorem accounted_publish (h : s.Accounted) {i : ℕ} (hi : s.accepted[i]? = some events) :
    ({ s.ingestAll events with accepted := s.accepted.eraseIdx i } : LiveDelivery).Accounted := by
  obtain ⟨⟨broker, handed, heq⟩, hbroadcasts, hcommitted, -, hgrows⟩ :=
    ingestAll_spec h (h.accepted events (List.mem_of_getElem? hi))
  rw [heq] at hbroadcasts hcommitted hgrows ⊢
  refine ⟨h.table, h.rows, h.held, fun batch hbatch => ?_, h.named, fun r hr => ?_, h.answer,
    h.listener, hbroadcasts, hcommitted⟩
  · exact h.accepted batch (List.mem_of_mem_eraseIdx hbatch)
  · refine (h.fates r hr).imp id (Or.imp id (Or.imp (fun hmem => ?_) id))
    exact (hgrows.map _).subset hmem

theorem accounted_prune (h : s.Accounted) (keeps : EventRow → Bool) :
    ({ s with
      table := s.table.filter fun _ row => keeps row
      journal.deleted := s.journal.deleted ++
        (s.table.values.filter fun row => !keeps row).map (·.event.eventId) } :
      LiveDelivery).Accounted := by
  have hkept : ∀ id row, (s.table.filter fun _ row => keeps row).get? id = some row →
      s.table.get? id = some row := by
    intro id row hrow
    rw [InsertionMap.get?_filter] at hrow
    exact (Option.filter_eq_some_iff.mp hrow).1
  refine ⟨fun id row hrow => h.table id row (hkept id row hrow),
    fun id row hrow => h.rows id row (hkept id row hrow), fun e he => ?_, h.accepted, h.named,
    fun r hr => ?_, h.answer, h.listener, h.broadcasts, h.handed⟩
  · obtain ⟨huuid, ⟨row, hrow, heq⟩ | hdeleted⟩ := h.held e he
    · refine ⟨huuid, ?_⟩
      cases hkeeps : keeps row with
      | true =>
          refine Or.inl ⟨row, ?_, heq⟩
          dsimp only
          rw [InsertionMap.get?_filter, hrow, Option.filter_some, if_pos hkeeps]
      | false =>
          refine Or.inr (List.mem_append_right _ (List.mem_map.mpr ⟨row, ?_, ?_⟩))
          · rw [List.mem_filter, hkeeps]
            exact ⟨InsertionMap.mem_values_iff.mpr ⟨_, hrow⟩, rfl⟩
          · exact (h.table _ row hrow).1
    · exact ⟨huuid, Or.inr (List.mem_append_left _ hdeleted)⟩
  · exact (h.fates r hr).imp id (Or.imp id (Or.imp id (Or.imp id (Or.imp id
      (List.mem_append_left _)))))

theorem accounted_disconnect (h : s.Accounted) :
    ({ s with
      listening := false
      channel := []
      journal.dropped := s.journal.dropped ++
        (s.channel.filterMap fun p => (parseEventNotification (some p)).map (·.subject)) } :
      LiveDelivery).Accounted := by
  refine ⟨h.table, h.rows, h.held, h.accepted, h.named, fun r hr => ?_, h.answer, h.listener,
    h.broadcasts, h.handed⟩
  rcases h.fates r hr with ⟨p, hp, hparsed⟩ | hwaits | hhanded | hfailed | hdropped | hdeleted
  · refine Or.inr (Or.inr (Or.inr (Or.inr (Or.inl ?_))))
    exact List.mem_append_right _ (List.mem_filterMap.mpr ⟨p, hp, hparsed⟩)
  · exact Or.inr (Or.inl hwaits)
  · exact Or.inr (Or.inr (Or.inl hhanded))
  · exact Or.inr (Or.inr (Or.inr (Or.inl hfailed)))
  · exact Or.inr (Or.inr (Or.inr (Or.inr (Or.inl (List.mem_append_left _ hdropped)))))
  · exact Or.inr (Or.inr (Or.inr (Or.inr (Or.inr hdeleted))))

/-- What the listener has seen or keeps waiting is accounted for. -/
theorem fate_of_waits (h : Broadcasts s.broker s.handed)
    (hwaits : s.listener.Waits r ∨ s.broker.hasSeen r.2 = true) : s.Fate r :=
  hwaits.elim (fun hwaits => Or.inr (Or.inl hwaits))
    fun hseen => Or.inr (Or.inr (Or.inl (h.mem_of_hasSeen hseen)))

theorem accounted_receive (h : s.Accounted) {payload : JsValue} {channel : List JsValue}
    (hchannel : s.channel = payload :: channel) :
    ({ s with
      channel
      listener := match parseEventNotification (some payload) with
        | some n => s.listener.enqueue s.broker n
        | none => s.listener } : LiveDelivery).Accounted := by
  cases hparse : parseEventNotification (some payload) with
  | none =>
      refine ⟨h.table, h.rows, h.held, h.accepted, h.named, fun r hr => ?_, h.answer, h.listener,
        h.broadcasts, h.handed⟩
      refine (h.fates r hr).imp ?_ id
      rintro ⟨p, hp, hparsed⟩
      rw [hchannel] at hp
      rcases List.mem_cons.mp hp with rfl | hlater
      · rw [hparse] at hparsed
        cases hparsed
      · exact ⟨p, hlater, hparsed⟩
  | some n =>
      refine ⟨h.table, h.rows, h.held, h.accepted, h.named, fun r hr => ?_,
        fun events hanswer => h.answer events (LiveEventListener.answer_enqueue hanswer),
        h.listener.enqueue, h.broadcasts, h.handed⟩
      have henqueued : ∀ r, s.listener.Waits r ∨ n.subject = r →
          Fate { s with channel, listener := s.listener.enqueue s.broker n } r :=
        fun r hr => fate_of_waits h.broadcasts
          (LiveEventListener.waits_enqueue h.listener.keys hr)
      rcases h.fates r hr with ⟨p, hp, hparsed⟩ | hwaits | hrest
      · rw [hchannel] at hp
        rcases List.mem_cons.mp hp with rfl | hlater
        · rw [hparse] at hparsed
          exact henqueued r (Or.inr (Option.some.inj hparsed))
        · exact Or.inl ⟨p, hlater, hparsed⟩
      · exact henqueued r (Or.inl hwaits)
      · exact Or.inr (Or.inr hrest)

theorem accounted_lookup (h : s.Accounted) {batch : JsString × List JsString}
    {batches : List (JsString × List JsString)} (hbatches : s.listener.batches = batch :: batches)
    (hnone : s.listener.answer = none) :
    ({ s with
      listener.batches := batches
      listener.answer := some (findEventsByIds s.table batch.1 batch.2) } :
      LiveDelivery).Accounted := by
  refine ⟨h.table, h.rows, h.held, h.accepted, h.named, fun r hr => ?_, fun events hanswer => ?_,
    ⟨h.listener.keys, fun hidle => ?_⟩, h.broadcasts, h.handed⟩
  · rcases h.fates r hr with hchannel | (hpending | hbatch | ⟨events, hanswer, -⟩) | hrest
    · exact Or.inl hchannel
    · exact Or.inr (Or.inl (Or.inl hpending))
    · obtain ⟨b, hb, htenant, hid⟩ := hbatch
      rw [hbatches] at hb
      rcases List.mem_cons.mp hb with rfl | hlater
      · -- The row is there, and so it is found, or it was deleted.
        obtain ⟨e, he, rfl⟩ := h.named r hr
        obtain ⟨-, ⟨row, hrow, rfl⟩ | hdeleted⟩ := h.held e he
        · have hmem := mem_findEventsByIds h.table hrow htenant.symm hid
          exact Or.inr (Or.inl (Or.inr (Or.inr ⟨_, rfl, List.mem_map_of_mem hmem⟩)))
        · exact Or.inr (Or.inr (Or.inr (Or.inr (Or.inr hdeleted))))
      · exact Or.inr (Or.inl (Or.inr (Or.inl ⟨b, hlater, htenant, hid⟩)))
    · rw [hnone] at hanswer
      cases hanswer
    · exact Or.inr (Or.inr hrest)
  · cases hanswer
    intro e he
    obtain ⟨id, row, hrow, rfl⟩ := exists_of_mem_findEventsByIds he
    exact h.rows id row hrow
  · cases (LiveEventListener.draining_eq_false.mp hidle).2

theorem accounted_answer (h : s.Accounted) (hanswer : s.listener.answer = some events) :
    let told := s.ingestAll events
    ({ told with listener := told.listener.drain told.broker told.listener.batches } :
      LiveDelivery).Accounted := by
  obtain ⟨⟨broker, handed, heq⟩, hbroadcasts, hcommitted, hall, hgrows⟩ :=
    ingestAll_spec h (h.answer events hanswer)
  rw [heq] at hbroadcasts hcommitted hall hgrows ⊢
  refine ⟨h.table, h.rows, h.held, h.accepted, h.named, fun r hr => ?_,
    fun events hafter => (by cases LiveEventListener.answer_drain.symm.trans hafter),
    h.listener.drain, hbroadcasts, hcommitted⟩
  have hdrained : ∀ r, (∃ n ∈ s.listener.pending.values, n.subject = r) ∨
      LiveEventListener.InBatches s.listener.batches r →
        Fate { s with broker, handed, listener := s.listener.drain broker s.listener.batches } r :=
    fun r hr => fate_of_waits hbroadcasts (LiveEventListener.waits_drain hr)
  rcases h.fates r hr with hchannel | (hpending | hbatch | ⟨told, htold, hid⟩) | hhanded | hrest
  · exact Or.inl hchannel
  · exact hdrained r (Or.inl hpending)
  · exact hdrained r (Or.inr hbatch)
  · rw [hanswer] at htold
    cases htold
    obtain ⟨e, he, hsame⟩ := List.mem_map.mp hid
    exact Or.inr (Or.inr (Or.inl (hsame ▸ hall e he)))
  · exact Or.inr (Or.inr (Or.inl ((hgrows.map _).subset hhanded)))
  · exact Or.inr (Or.inr (Or.inr hrest))

theorem accounted_lookupFails (h : s.Accounted) {batch : JsString × List JsString}
    {batches : List (JsString × List JsString)} (hbatches : s.listener.batches = batch :: batches)
    (hnone : s.listener.answer = none) :
    ({ s with
      listener := s.listener.drain s.broker batches
      journal.failed := s.journal.failed ++ batch.2.map fun id => (batch.1, id) } :
      LiveDelivery).Accounted := by
  refine ⟨h.table, h.rows, h.held, h.accepted, h.named, fun r hr => ?_,
    fun events hafter => (by cases LiveEventListener.answer_drain.symm.trans hafter),
    h.listener.drain, h.broadcasts, h.handed⟩
  have hdrained : ∀ r, (∃ n ∈ s.listener.pending.values, n.subject = r) ∨
      LiveEventListener.InBatches batches r →
        Fate { s with
          listener := s.listener.drain s.broker batches
          journal.failed := s.journal.failed ++ batch.2.map fun id => (batch.1, id) } r :=
    fun r hr => fate_of_waits h.broadcasts (LiveEventListener.waits_drain hr)
  rcases h.fates r hr with
    hchannel | (hpending | hbatch | ⟨events, hanswer, -⟩) | hhanded | hfailed | hrest
  · exact Or.inl hchannel
  · exact hdrained r (Or.inl hpending)
  · obtain ⟨b, hb, htenant, hid⟩ := hbatch
    rw [hbatches] at hb
    rcases List.mem_cons.mp hb with rfl | hlater
    · refine Or.inr (Or.inr (Or.inr (Or.inl (List.mem_append_right _ ?_))))
      exact List.mem_map.mpr ⟨r.2, hid, Prod.ext htenant rfl⟩
    · exact hdrained r (Or.inr ⟨b, hlater, htenant, hid⟩)
  · rw [hnone] at hanswer
    cases hanswer
  · exact Or.inr (Or.inr (Or.inl hhanded))
  · exact Or.inr (Or.inr (Or.inr (Or.inl (List.mem_append_left _ hfailed))))
  · exact Or.inr (Or.inr (Or.inr (Or.inr hrest)))

theorem accounted_step (h : s.Accounted) {action : DeliveryAction}
    (hstep : s.step checks action = some t) : t.Accounted := by
  cases action with
  | persist now context events here =>
      rw [step] at hstep
      split_ifs at hstep with hids
      split at hstep
      · next results table hinsert =>
          cases hstep
          exact accounted_commit h here (List.all_eq_true.mp hids) hinsert
      · cases hstep
        exact h
  | publish i =>
      rw [step] at hstep
      split at hstep
      · next events hi =>
          cases hstep
          exact accounted_publish h hi
      · cases hstep
  | prune keeps =>
      cases hstep
      exact accounted_prune h keeps
  | connect =>
      cases hstep
      exact ⟨h.table, h.rows, h.held, h.accepted, h.named, h.fates, h.answer, h.listener,
        h.broadcasts, h.handed⟩
  | disconnect =>
      cases hstep
      exact accounted_disconnect h
  | receive =>
      rw [step] at hstep
      split at hstep
      · next payload channel hchannel =>
          cases hstep
          exact accounted_receive h hchannel
      · cases hstep
  | lookup =>
      rw [step] at hstep
      split at hstep
      · next batch batches hbatches =>
          split_ifs at hstep with hnone
          cases hstep
          exact accounted_lookup h hbatches hnone
      · cases hstep
  | answer =>
      rw [step] at hstep
      split at hstep
      · next events hanswer =>
          cases hstep
          exact accounted_answer h hanswer
      · cases hstep
  | lookupFails =>
      rw [step] at hstep
      split at hstep
      · next batch batches hbatches =>
          split_ifs at hstep with hnone
          cases hstep
          exact accounted_lookupFails h hbatches hnone
      · cases hstep

/-- What holds of the broadcasts of a process. -/
structure DeliversLive (s : LiveDelivery) : Prop where
  committed : ∀ e ∈ s.handed, e ∈ s.journal.committed
  spaced : Spaced maxRecentEventIds (handedIds s.handed)
  idle : s.listener.draining = false → s.listener.pending = .empty
  delivered : s.channel = [] → s.listener.draining = false → ∀ r ∈ s.journal.notified,
    (∃ e ∈ s.handed, subjectOf e = r) ∨ r ∈ s.journal.failed ∨ r ∈ s.journal.dropped ∨
      r.2 ∈ s.journal.deleted

/-- An id names one row, unless it was deleted. -/
theorem Accounted.subject_of_id (h : s.Accounted) {e e' : MonolithEvent}
    (he : e ∈ s.journal.committed) (he' : e' ∈ s.journal.committed) (hid : e.eventId = e'.eventId) :
    subjectOf e = subjectOf e' ∨ e'.eventId ∈ s.journal.deleted := by
  obtain ⟨-, ⟨row, hrow, heq⟩ | hdeleted⟩ := h.held e he
  · obtain ⟨-, ⟨row', hrow', heq'⟩ | hdeleted'⟩ := h.held e' he'
    · rw [hid, hrow'] at hrow
      cases hrow
      rw [heq, heq']
      exact Or.inl rfl
    · exact Or.inr hdeleted'
  · exact Or.inr (hid ▸ hdeleted)

/-- In every interleaving of transactions, publications, deletions, notifications, lookups, their
answers and losses of the connection: only committed events are handed over, none twice within
4096, and once the listener is idle every event that was notified has been handed over, unless
its lookup failed, the connection was lost first, or its row was deleted. -/
theorem live_delivery {table : EventTable} (htable : UuidKeyed table)
    {actions : List DeliveryAction}
    (h : Path (step checks) unguarded (start table) actions s) : s.DeliversLive := by
  have haccounted : s.Accounted :=
    h.invariant (fun _ _ _ hs _ hstep => accounted_step hs hstep) (accounted_start htable)
  refine ⟨haccounted.handed, haccounted.broadcasts.spaced, haccounted.listener.idle,
    fun hchannel hidle r hr => ?_⟩
  obtain ⟨hbatches, hanswer⟩ := LiveEventListener.draining_eq_false.mp hidle
  rcases haccounted.fates r hr with
    ⟨p, hp, -⟩ | (⟨n, hn, -⟩ | ⟨b, hb, -⟩ | ⟨events, hevents, -⟩) | hhanded | hrest
  · rw [hchannel] at hp
    cases hp
  · rw [haccounted.listener.idle hidle] at hn
    cases hn
  · rw [hbatches] at hb
    cases hb
  · rw [hanswer] at hevents
    cases hevents
  · obtain ⟨e, he, hid⟩ := List.mem_map.mp hhanded
    obtain ⟨e', he', rfl⟩ := haccounted.named r hr
    rcases haccounted.subject_of_id (haccounted.handed e he) he' hid with hsame | hdeleted
    · exact Or.inl ⟨e, he, hsame⟩
    · exact Or.inr (Or.inr (Or.inr hdeleted))
  · exact Or.inr hrest

/-- Two events of other processes; the second one comes while the answer to the lookup of the
first one is on its way. -/
def overlappingLookups : List DeliveryAction :=
  [.connect, .persist 1 defaultTenant [(numberedRow 1).event] false, .receive, .lookup,
    .persist 2 defaultTenant [(numberedRow 2).event] false, .receive, .answer, .lookup, .answer]

theorem live_delivery_overlapping :
    ∃ s, execute (step ⟨fun _ => true, fun _ => true⟩) (start .empty) overlappingLookups = some s ∧
      s.DeliversLive ∧ handedIds s.handed = [numberedId 1, numberedId 2] := by
  have hrun : ((execute (step ⟨fun _ => true, fun _ => true⟩) (start .empty)
      overlappingLookups).any fun s =>
        handedIds s.handed = [numberedId 1, numberedId 2]) = true := by decide +kernel
  obtain ⟨s, hs, hhanded⟩ := (Option.any_eq_true _ _).mp hrun
  exact ⟨s, hs, live_delivery (fun _ _ h => (by cases h)) (Path.of_execute hs),
    of_decide_eq_true hhanded⟩

end LiveDelivery

end BlackMonolith.Dashboard
