import Mathlib
import BlackMonolith.Library.Paths
import BlackMonolith.Dashboard.Pagination

/-!
# The live event stream

A connection subscribes to the broker and then reads the ledger after the event that its
client has seen last; what the broker hands over meanwhile waits until the history is sent.
The query takes the newest rows up to its limit, and the stream tells events apart by the
ids it sent last: a longer backlog loses its oldest events, and an event that comes again
after that many others is sent twice.
-/
namespace BlackMonolith.Dashboard
open Library

/-! ## The ledger -/

/-- The map in memory, or the table `security_events`, each keyed by the event id. -/
inductive EventLedger
  | memory (events : MemoryEvents) (keyed : ∀ id e, events.get? id = some e → e.eventId = id)
  | database (table : EventTable)
      (keyed : ∀ id row, table.get? id = some row → row.event.eventId = id)

namespace EventLedger

/-- An event as it was received, with the place of its row in the order of receipt. -/
structure Entry where
  place : Receipt
  event : MonolithEvent

/-- An event that is there already stays as it is. -/
def commit (now : ℕ) (event : MonolithEvent) : EventLedger → EventLedger
  | .memory events keyed =>
      if events.has event.eventId then .memory events keyed
      else .memory (events.set event.eventId (event.stamp now)) (by
        intro id e h
        rw [InsertionMap.get?_set] at h
        split_ifs at h with heq
        · cases h
          exact heq
        · exact keyed id e h)
  | .database table keyed =>
      let row := eventRow now event
      if table.has row.event.eventId then .database table keyed
      else .database (table.set row.event.eventId row) (by
        intro id r h
        rw [InsertionMap.get?_set] at h
        split_ifs at h with heq
        · cases h
          exact heq
        · exact keyed id r h)

/-- The events of a tenant. -/
def entries (tenantId : Identity) : EventLedger → List Entry
  | .memory events _ =>
      (events.values.filter fun e => e.tenantId = tenantId).map fun e =>
        ⟨receipt (e.receivedMs.getD e.timestampMs) e.eventId, e⟩
  | .database table _ =>
      (table.values.filter fun row => row.event.tenantId = tenantId.toWellFormed).map fun row =>
        ⟨receipt row.receivedAt row.event.eventId, fromRow row⟩

/-- The place of the event that a cursor names; the database compares ids as `uuid`. -/
def cursor (ledger : EventLedger) (tenantId : Identity) (after : Option JsString) :
    Option Receipt :=
  let id : Option JsString := match ledger with
    | .memory _ _ => after
    | .database _ _ => (after.filter isUuid).map (·.asciiLowercase)
  (id.bind fun id => (ledger.entries tenantId).find? (·.event.eventId = id)).map (·.place)

/-- What a tenant received after the event of a cursor, or all of it. -/
def beyond (ledger : EventLedger) (tenantId : Identity) (after : Option JsString) : List Entry :=
  (ledger.entries tenantId).filter fun e => (ledger.cursor tenantId after).all (· < e.place)

/-- `listRecentEvents`: the newest events first. Without a database there is no cursor, and
the order is that of the milliseconds. -/
def listRecentEvents (ledger : EventLedger) (tenantId : Identity) (limit : ℕ)
    (after : Option JsString) : List MonolithEvent :=
  let safeLimit := max 1 (min limit 1000)
  match ledger with
  | .memory _ _ =>
      (((ledger.entries tenantId).insertionSort fun a b =>
        (ofLex b.place).1 ≤ (ofLex a.place).1).take safeLimit).map (·.event)
  | .database _ _ =>
      (((ledger.beyond tenantId after).insertionSort fun a b =>
        b.place ≤ a.place).take safeLimit).map (·.event)

/-- What follows a cursor, oldest first. -/
def following (ledger : EventLedger) (tenantId : Identity) (after : Option JsString) :
    List MonolithEvent :=
  ((ledger.beyond tenantId after).insertionSort fun a b => a.place ≤ b.place).map (·.event)

end EventLedger

/-! ## The broker -/

def maxRecentEventIds : ℕ := 4096

/-- `seenIds` has the ids of `seenOrder`. -/
structure EventBroker where
  seenOrder : List JsString := []

/-- Whether the id was seen; it has been from now on. -/
def EventBroker.markSeen (broker : EventBroker) (eventId : JsString) : Bool × EventBroker :=
  if eventId.units = [] then (false, broker)
  else if eventId ∈ broker.seenOrder then (true, broker)
  else
    let order := broker.seenOrder ++ [eventId]
    (false, ⟨if maxRecentEventIds < order.length then order.tail else order⟩)

/-! ## The stream -/

def maxReplayBufferedEvents : ℕ := 2048
def historyLimit : ℕ := 500

inductive Frame
  | event (event : MonolithEvent)
  | system (error : String)
  | keepAlive

/-- `answer` is what the history query has answered, if it has, `none` in it an exception;
`sentIds` has the ids of `sentOrder`. -/
structure EventStream where
  tenantId : Identity
  lastEventId : Option JsString
  closed : Bool := false
  replaying : Bool := true
  bufferedLive : List MonolithEvent := []
  answer : Option (Option (List MonolithEvent)) := none
  sentOrder : List JsString := []
  output : List Frame := []

namespace EventStream

/-- The stream that has subscribed, with the header `last-event-id` of its request. -/
def start (tenantId : Identity) (lastEventId : Option JsString) (aborted : Bool) : EventStream where
  tenantId
  lastEventId := (lastEventId.map (·.trim)).filter (·.units ≠ [])
  closed := aborted

def safeEnqueue (stream : EventStream) (frame : Frame) : EventStream :=
  if stream.closed then stream else { stream with output := stream.output ++ [frame] }

def cleanup (stream : EventStream) : EventStream := { stream with closed := true }

/-- `sentIds.add` and `sentOrder.push`, and `sentOrder.shift` beyond the bound. -/
def remember (stream : EventStream) (id : JsString) : EventStream :=
  let order := stream.sentOrder ++ [id]
  { stream with sentOrder := if 2048 < order.length then order.tail else order }

def send (stream : EventStream) (event : MonolithEvent) : EventStream :=
  if event.eventId ∈ stream.sentOrder then stream
  else (stream.remember event.eventId).safeEnqueue (.event event)

def sendLive (stream : EventStream) (event : MonolithEvent) : EventStream :=
  if stream.replaying then
    if maxReplayBufferedEvents ≤ stream.bufferedLive.length then
      (stream.safeEnqueue (.system "live replay buffer exceeded; reconnect")).cleanup
    else { stream with bufferedLive := stream.bufferedLive ++ [event] }
  else stream.send event

def goLive (stream : EventStream) : EventStream := { stream with replaying := false }

/-- What is done once the history query has answered. -/
def resolve (stream : EventStream) (answer : Option (List MonolithEvent)) : EventStream :=
  let replayed := match answer with
    | some history => history.reverse.foldl send stream
    | none => stream.safeEnqueue (.system "history unavailable")
  { replayed.bufferedLive.foldl send replayed.goLive with bufferedLive := [] }

/-- The events that were sent. -/
def events (stream : EventStream) : List MonolithEvent :=
  stream.output.filterMap fun frame => match frame with
    | .event event => some event
    | _ => none

def sentIds (stream : EventStream) : List JsString := stream.events.map (·.eventId)

end EventStream

/-! ## Interleavings -/

/-- The broker, the ledger and one of the connections. -/
structure Feed where
  ledger : EventLedger
  broker : EventBroker
  stream : EventStream

inductive FeedAction
  | commit (now : ℕ) (event : MonolithEvent)
  | publish (event : MonolithEvent)
  | query
  | queryFails
  | resolve
  | keepAlive
  | close

/-- The broker hands an event to the subscribers of its tenant unless it has seen it. -/
def Feed.handsOver (feed : Feed) (event : MonolithEvent) : Bool :=
  !(feed.broker.markSeen event.eventId).1 && event.tenantId = feed.stream.tenantId

def feedStep (feed : Feed) : FeedAction → Option Feed
  | .commit now event => some { feed with ledger := feed.ledger.commit now event }
  | .publish event => some
      { feed with
        broker := (feed.broker.markSeen event.eventId).2
        stream :=
          if feed.handsOver event && !feed.stream.closed then feed.stream.sendLive event
          else feed.stream }
  | .query =>
      if feed.stream.answer.isNone then some
        { feed with stream.answer := some (some (feed.ledger.listRecentEvents
            feed.stream.tenantId historyLimit feed.stream.lastEventId)) }
      else none
  | .queryFails =>
      if feed.stream.answer.isNone then some { feed with stream.answer := some none } else none
  | .resolve =>
      match feed.stream.answer with
      | some answer =>
          if feed.stream.replaying then some { feed with stream := feed.stream.resolve answer }
          else none
      | none => none
  | .keepAlive => some { feed with stream := feed.stream.safeEnqueue .keepAlive }
  | .close => some { feed with stream := feed.stream.cleanup }

/-- What followed the cursor when the ledger was read, and what the broker has handed over
since the subscription. -/
structure Observation where
  history : Option (List MonolithEvent) := none
  live : List MonolithEvent := []

def observe (feed : Feed) (seen : Observation) : FeedAction → Observation
  | .publish event =>
      if feed.handsOver event then { seen with live := seen.live ++ [event] } else seen
  | .query =>
      { seen with
        history := some (feed.ledger.following feed.stream.tenantId feed.stream.lastEventId) }
  | _ => seen

def observedStep (s : Feed × Observation) (action : FeedAction) : Option (Feed × Observation) :=
  (feedStep s.1 action).map fun feed => (feed, observe s.1 s.2 action)

/-! ## The condition -/

/-- No more follows the cursor than the query takes. In the database the tenant has no lone
surrogates; in memory the cursor names nothing, and no two events came in one millisecond. -/
def EventLedger.Resumable (ledger : EventLedger) (tenantId : Identity)
    (after : Option JsString) : Prop :=
  (ledger.following tenantId after).length ≤ historyLimit ∧
    match ledger with
    | .memory _ _ => ledger.cursor tenantId after = none ∧
        ((ledger.entries tenantId).map fun e => (ofLex e.place).1).Nodup
    | .database _ _ => tenantId.toWellFormed = tenantId

/-- No event comes whose id was sent and is forgotten. -/
def EventStream.Recalls : EventStream → List MonolithEvent → Prop
  | _, [] => True
  | stream, event :: events =>
      (event.eventId ∈ stream.sentIds → event.eventId ∈ stream.sentOrder) ∧
        (stream.send event).Recalls events

instance EventStream.decidableRecalls : ∀ (stream : EventStream) (events : List MonolithEvent),
    Decidable (stream.Recalls events)
  | _, [] => .isTrue trivial
  | stream, event :: events =>
      have := decidableRecalls (stream.send event) events
      inferInstanceAs (Decidable (_ ∧ _))

/-- The history is read when it can be resumed from, and what is sent is recalled. -/
def resumeGuard (s : Feed × Observation) (action : FeedAction) : Prop :=
  let stream := s.1.stream
  match action with
  | .query => s.1.ledger.Resumable stream.tenantId stream.lastEventId
  | .queryFails => False
  | .publish event => s.1.handsOver event = true → stream.replaying = false →
      stream.Recalls [event]
  | .resolve => ∀ history ∈ stream.answer.join,
      stream.Recalls (history.reverse ++ stream.bufferedLive)
  | _ => True

instance : ∀ (ledger : EventLedger) (tenantId : Identity) (after : Option JsString),
    Decidable (ledger.Resumable tenantId after)
  | .memory _ _, _, _ => inferInstanceAs (Decidable (_ ∧ _ ∧ _))
  | .database _ _, _, _ => inferInstanceAs (Decidable (_ ∧ _))

instance : ∀ (s : Feed × Observation) (action : FeedAction), Decidable (resumeGuard s action)
  | s, .query => inferInstanceAs (Decidable (s.1.ledger.Resumable _ _))
  | _, .queryFails => .isFalse id
  | _, .publish _ => inferInstanceAs (Decidable (_ → _ → _))
  | s, .resolve => inferInstanceAs (Decidable (∀ history ∈ s.1.stream.answer.join, _))
  | _, .commit _ _ | _, .keepAlive | _, .close => .isTrue trivial

/-! ## What the query answers -/

theorem nodup_ids {ν : Type} {m : InsertionMap JsString ν} {id : ν → JsString}
    (keyed : ∀ k v, m.get? k = some v → id v = k) : (m.values.map id).Nodup := by
  have hkeys : m.values.map id = m.keys := by
    unfold InsertionMap.values InsertionMap.keys
    rw [List.map_map]
    apply List.map_congr_left
    intro entry hentry
    exact keyed entry.1 entry.2 (InsertionMap.get?_eq_some_iff.mpr hentry)
  rw [hkeys]
  exact m.nodup

section
variable {α κ κ' : Type} [LinearOrder κ] [LinearOrder κ'] {f : α → κ} {g : α → κ'} {xs : List α}

/-- A list sorted downwards is the list sorted upwards, backwards, where no two elements
have one place. -/
theorem insertionSort_reverse (hmono : ∀ a b, g a ≤ g b → f a ≤ f b) (hnodup : (xs.map f).Nodup) :
    xs.insertionSort (fun a b => f b ≤ f a) = (xs.insertionSort fun a b => g a ≤ g b).reverse := by
  have : Std.Total fun a b : α => f b ≤ f a := ⟨fun a b => le_total (f b) (f a)⟩
  have : IsTrans α fun a b : α => f b ≤ f a := ⟨fun a b c hab hbc => hbc.trans hab⟩
  have : Std.Total fun a b : α => g a ≤ g b := ⟨fun a b => le_total (g a) (g b)⟩
  have : IsTrans α fun a b : α => g a ≤ g b := ⟨fun a b c hab hbc => hab.trans hbc⟩
  apply List.Perm.eq_of_pairwise _ (List.pairwise_insertionSort _ _)
  · rw [List.pairwise_reverse]
    exact (List.pairwise_insertionSort (fun a b => g a ≤ g b) xs).imp fun hab => hmono _ _ hab
  · exact (List.perm_insertionSort _ _).trans
      ((List.perm_insertionSort _ _).symm.trans (List.reverse_perm _).symm)
  · intro a b ha hb hab hba
    have hxa := (List.mem_insertionSort _).mp ha
    have hxb := (List.mem_insertionSort _).mp (List.mem_reverse.mp hb)
    exact List.inj_on_of_nodup_map hnodup hxa hxb (le_antisymm hba hab)

end

namespace EventLedger
variable {ledger : EventLedger} {tenantId : Identity} {after : Option JsString}

theorem entries_nodup : ((ledger.entries tenantId).map (·.event.eventId)).Nodup := by
  cases ledger with
  | memory events keyed =>
      rw [entries, List.map_map]
      exact (nodup_ids keyed).sublist (List.filter_sublist.map _)
  | database table keyed =>
      rw [entries, List.map_map]
      exact (nodup_ids keyed).sublist (List.filter_sublist.map _)

theorem places_nodup : ((ledger.entries tenantId).map (·.place)).Nodup := by
  have hplace : ∀ e ∈ ledger.entries tenantId, (ofLex e.place).2 = uuidKey e.event.eventId := by
    intro e he
    cases ledger with
    | memory events keyed =>
        obtain ⟨event, -, rfl⟩ := List.mem_map.mp he
        rfl
    | database table keyed =>
        obtain ⟨row, -, rfl⟩ := List.mem_map.mp he
        rfl
  apply List.Nodup.map_on _ (List.Nodup.of_map _ entries_nodup)
  intro a ha b hb heq
  apply List.inj_on_of_nodup_map entries_nodup ha hb
  rw [← uuidKey_inj, ← hplace a ha, ← hplace b hb, heq]

theorem following_perm : (ledger.following tenantId after).Perm
    ((ledger.beyond tenantId after).map (·.event)) :=
  (List.perm_insertionSort _ _).map _

theorem following_nodup : ((ledger.following tenantId after).map (·.eventId)).Nodup := by
  refine ((following_perm.map _).nodup_iff).mpr ?_
  rw [List.map_map]
  exact entries_nodup.sublist (List.filter_sublist.map _)

/-- The query answers the events that follow the cursor, the newest first. -/
theorem listRecentEvents_eq (h : ledger.Resumable tenantId after) :
    ledger.listRecentEvents tenantId historyLimit after =
      (ledger.following tenantId after).reverse := by
  obtain ⟨hlength, hledger⟩ := h
  have hlimit : max 1 (min historyLimit 1000) = historyLimit := by decide
  rw [following, List.length_map, List.length_insertionSort] at hlength
  unfold listRecentEvents following
  dsimp only
  rw [hlimit, ← List.map_reverse]
  cases ledger with
  | memory events keyed =>
      have hall : (memory events keyed).beyond tenantId after =
          (memory events keyed).entries tenantId := by
        rw [beyond, hledger.1]
        exact List.filter_eq_self.mpr fun _ _ => rfl
      dsimp only
      rw [hall] at hlength ⊢
      have hsorted : ((memory events keyed).entries tenantId).insertionSort (fun a b =>
          (ofLex b.place).1 ≤ (ofLex a.place).1) =
            (((memory events keyed).entries tenantId).insertionSort
              fun a b => a.place ≤ b.place).reverse :=
        insertionSort_reverse (fun a b hab => Prod.Lex.monotone_fst _ _ hab) hledger.2
      rw [List.take_of_length_le (by rwa [List.length_insertionSort]), hsorted]
  | database table keyed =>
      dsimp only
      have hsorted : ((database table keyed).beyond tenantId after).insertionSort (fun a b =>
          b.place ≤ a.place) = (((database table keyed).beyond tenantId after).insertionSort
            fun a b => a.place ≤ b.place).reverse :=
        insertionSort_reverse (fun a b hab => hab)
          (places_nodup.sublist (List.filter_sublist.map _))
      rw [List.take_of_length_le (by rwa [List.length_insertionSort]), hsorted]

theorem tenant_of_following (h : ledger.Resumable tenantId after) :
    ∀ e ∈ ledger.following tenantId after, e.tenantId = tenantId := by
  intro e he
  obtain ⟨entry, hentry, rfl⟩ := List.mem_map.mp (following_perm.mem_iff.mp he)
  have hmem := List.mem_of_mem_filter hentry
  cases ledger with
  | memory events keyed =>
      obtain ⟨event, hevent, rfl⟩ := List.mem_map.mp hmem
      exact of_decide_eq_true (List.mem_filter.mp hevent).2
  | database table keyed =>
      obtain ⟨row, hrow, rfl⟩ := List.mem_map.mp hmem
      exact (of_decide_eq_true (List.mem_filter.mp hrow).2).trans h.2

end EventLedger

/-! ## What is sent -/

/-- The events whose ids were not sent yet, each the first of its id. -/
def unsent (sent : List JsString) : List MonolithEvent → List MonolithEvent
  | [] => []
  | event :: events =>
      if event.eventId ∈ sent then unsent sent events
      else event :: unsent (sent ++ [event.eventId]) events

section
variable {sent : List JsString} {events : List MonolithEvent}

theorem unsent_append (sent : List JsString) (events later : List MonolithEvent) :
    unsent sent (events ++ later) = unsent sent events ++
      unsent (sent ++ (unsent sent events).map (·.eventId)) later := by
  induction events generalizing sent with
  | nil => rw [unsent, List.map_nil, List.append_nil, List.nil_append, List.nil_append]
  | cons event events ih =>
      rw [List.cons_append, unsent, unsent]
      split_ifs with hsent
      · exact ih sent
      · rw [ih, List.map_cons, List.cons_append, List.append_assoc, List.singleton_append]

theorem mem_of_mem_unsent {event : MonolithEvent} (h : event ∈ unsent sent events) :
    event ∈ events := by
  induction events generalizing sent with
  | nil => cases h
  | cons first events ih =>
      rw [unsent] at h
      split_ifs at h with hsent
      · exact List.mem_cons_of_mem first (ih h)
      · rcases List.mem_cons.mp h with rfl | h
        · exact List.mem_cons_self
        · exact List.mem_cons_of_mem first (ih h)

theorem unsent_nodup (hsent : sent.Nodup) :
    (sent ++ (unsent sent events).map (·.eventId)).Nodup := by
  induction events generalizing sent with
  | nil =>
      rw [unsent, List.map_nil, List.append_nil]
      exact hsent
  | cons event events ih =>
      rw [unsent]
      split_ifs with hmem
      · exact ih hsent
      · rw [List.map_cons, ← List.singleton_append, ← List.append_assoc]
        apply ih
        rw [← List.concat_eq_append]
        exact hsent.concat hmem

/-- Of events with ids of their own, none is left out. -/
theorem unsent_of_nodup (h : (sent ++ events.map (·.eventId)).Nodup) :
    unsent sent events = events := by
  induction events generalizing sent with
  | nil => rfl
  | cons event events ih =>
      rw [List.map_cons] at h
      have hfresh : event.eventId ∉ sent :=
        fun hmem => (List.nodup_append.mp h).2.2 _ hmem _ List.mem_cons_self rfl
      rw [unsent, if_neg hfresh]
      rw [← List.singleton_append, ← List.append_assoc] at h
      rw [ih h]

end

namespace EventStream
variable {stream : EventStream} {event : MonolithEvent} {history : List MonolithEvent}

/-- What sending leaves as it is. -/
structure Framed (stream stream' : EventStream) : Prop where
  tenantId : stream'.tenantId = stream.tenantId
  closed : stream'.closed = stream.closed
  replaying : stream'.replaying = stream.replaying
  bufferedLive : stream'.bufferedLive = stream.bufferedLive
  answer : stream'.answer = stream.answer

theorem Framed.trans {stream' stream'' : EventStream} (h : Framed stream stream')
    (h' : Framed stream' stream'') : Framed stream stream'' :=
  ⟨h'.tenantId.trans h.tenantId, h'.closed.trans h.closed, h'.replaying.trans h.replaying,
    h'.bufferedLive.trans h.bufferedLive, h'.answer.trans h.answer⟩

theorem safeEnqueue_framed (stream : EventStream) (frame : Frame) :
    Framed stream (stream.safeEnqueue frame) ∧
      (stream.safeEnqueue frame).sentOrder = stream.sentOrder := by
  rw [safeEnqueue]
  split_ifs
  · exact ⟨⟨rfl, rfl, rfl, rfl, rfl⟩, rfl⟩
  · exact ⟨⟨rfl, rfl, rfl, rfl, rfl⟩, rfl⟩

theorem output_safeEnqueue (stream : EventStream) (frame : Frame) :
    (stream.safeEnqueue frame).output =
      if stream.closed then stream.output else stream.output ++ [frame] := by
  rw [safeEnqueue]
  split_ifs
  · rfl
  · rfl

theorem send_framed (stream : EventStream) (event : MonolithEvent) :
    Framed stream (stream.send event) := by
  rw [send]
  split_ifs
  · exact ⟨rfl, rfl, rfl, rfl, rfl⟩
  · have hremembered : Framed stream (stream.remember event.eventId) := ⟨rfl, rfl, rfl, rfl, rfl⟩
    exact hremembered.trans (safeEnqueue_framed _ _).1

theorem foldl_send_framed (events : List MonolithEvent) :
    Framed stream (events.foldl send stream) := by
  induction events generalizing stream with
  | nil => exact ⟨rfl, rfl, rfl, rfl, rfl⟩
  | cons event events ih => exact (send_framed stream event).trans ih

/-- These are the events that were sent, and what the stream remembers it has sent. -/
structure Sends (stream stream' : EventStream) (events : List MonolithEvent) : Prop where
  sent : stream'.events = stream.events ++ unsent stream.sentIds events
  remembered : ∀ id ∈ stream'.sentOrder, id ∈ stream'.sentIds

theorem events_safeEnqueue (hopen : stream.closed = false) (event : MonolithEvent) :
    (stream.safeEnqueue (.event event)).events = stream.events ++ [event] := by
  rw [safeEnqueue, hopen, if_neg Bool.false_ne_true, EventStream.events, List.filterMap_append]
  rfl

theorem events_keepAlive (stream : EventStream) :
    (stream.safeEnqueue .keepAlive).events = stream.events := by
  rw [safeEnqueue]
  split_ifs with hclosed
  · rfl
  · rw [EventStream.events, List.filterMap_append]
    exact List.append_nil _

theorem send_sends (hopen : stream.closed = false)
    (hremembered : ∀ id ∈ stream.sentOrder, id ∈ stream.sentIds)
    (hrecalls : event.eventId ∈ stream.sentIds → event.eventId ∈ stream.sentOrder) :
    Sends stream (stream.send event) [event] := by
  by_cases hmem : event.eventId ∈ stream.sentOrder
  · have hsame : stream.send event = stream := if_pos hmem
    rw [hsame]
    refine ⟨?_, hremembered⟩
    rw [unsent, if_pos (hremembered _ hmem), unsent, List.append_nil]
  · have hfresh : event.eventId ∉ stream.sentIds := fun h => hmem (hrecalls h)
    have hevents : (stream.send event).events = stream.events ++ [event] := by
      rw [send, if_neg hmem]
      exact @events_safeEnqueue (stream.remember event.eventId) hopen event
    refine ⟨?_, fun id hid => ?_⟩
    · rw [hevents, unsent, if_neg hfresh, unsent]
    · have horder : id ∈ stream.sentOrder ++ [event.eventId] := by
        rw [send, if_neg hmem, (safeEnqueue_framed _ _).2, remember] at hid
        dsimp only at hid
        split_ifs at hid
        · exact List.mem_of_mem_tail hid
        · exact hid
      rw [sentIds, hevents, List.map_append, List.mem_append]
      rcases List.mem_append.mp horder with hold | hnew
      · exact Or.inl (hremembered id hold)
      · exact Or.inr hnew

theorem Sends.trans {stream' stream'' : EventStream} {events later : List MonolithEvent}
    (h : Sends stream stream' events) (h' : Sends stream' stream'' later) :
    Sends stream stream'' (events ++ later) := by
  refine ⟨?_, h'.remembered⟩
  have hids : stream'.sentIds =
      stream.sentIds ++ (unsent stream.sentIds events).map (·.eventId) := by
    rw [sentIds, h.sent, List.map_append]
    rfl
  rw [h'.sent, h.sent, hids, unsent_append, List.append_assoc]

theorem foldl_send_sends {events : List MonolithEvent} (hopen : stream.closed = false)
    (hremembered : ∀ id ∈ stream.sentOrder, id ∈ stream.sentIds) (h : stream.Recalls events) :
    Sends stream (events.foldl send stream) events := by
  induction events generalizing stream with
  | nil =>
      refine ⟨?_, hremembered⟩
      rw [unsent, List.append_nil]
      rfl
  | cons event events ih =>
      have hfirst := send_sends hopen hremembered h.1
      exact hfirst.trans (ih ((send_framed stream event).closed.trans hopen) hfirst.remembered h.2)

section
variable {stream' : EventStream} (houtput : stream'.output = stream.output)
  (horder : stream'.sentOrder = stream.sentOrder) (hclosed : stream'.closed = stream.closed)
include houtput horder hclosed

theorem send_congr (event : MonolithEvent) :
    (stream'.send event).output = (stream.send event).output ∧
      (stream'.send event).sentOrder = (stream.send event).sentOrder ∧
        (stream'.send event).closed = (stream.send event).closed := by
  rw [send, send, horder]
  split_ifs with hmem
  · exact ⟨houtput, horder, hclosed⟩
  · refine ⟨?_, ?_, ?_⟩
    · rw [output_safeEnqueue, output_safeEnqueue]
      change (if stream'.closed then stream'.output else stream'.output ++ [.event event]) =
        if stream.closed then stream.output else stream.output ++ [.event event]
      rw [hclosed, houtput]
    · rw [(safeEnqueue_framed _ _).2, (safeEnqueue_framed _ _).2, remember, remember, horder]
    · rw [(safeEnqueue_framed _ _).1.closed, (safeEnqueue_framed _ _).1.closed]
      exact hclosed

theorem recalls_congr {events : List MonolithEvent} (h : stream.Recalls events) :
    stream'.Recalls events := by
  induction events generalizing stream stream' with
  | nil => trivial
  | cons event events ih =>
      obtain ⟨hfirst, hrest⟩ := h
      have hids : stream'.sentIds = stream.sentIds := by
        rw [sentIds, sentIds, EventStream.events, EventStream.events, houtput]
      obtain ⟨houtput', horder', hclosed'⟩ := send_congr houtput horder hclosed event
      refine ⟨?_, ih houtput' horder' hclosed' hrest⟩
      rw [hids, horder]
      exact hfirst

end

theorem recalls_append {events later : List MonolithEvent} :
    stream.Recalls (events ++ later) →
      stream.Recalls events ∧ (events.foldl send stream).Recalls later := by
  induction events generalizing stream with
  | nil => exact fun h => ⟨trivial, h⟩
  | cons event events ih =>
      rintro ⟨hfirst, hrest⟩
      obtain ⟨hevents, hlater⟩ := ih hrest
      exact ⟨⟨hfirst, hevents⟩, hlater⟩

theorem resolve_framed (history : List MonolithEvent) :
    (stream.resolve (some history)).tenantId = stream.tenantId ∧
      (stream.resolve (some history)).closed = stream.closed ∧
        (stream.resolve (some history)).replaying = false ∧
          (stream.resolve (some history)).answer = stream.answer := by
  have hreplayed := @foldl_send_framed stream history.reverse
  have hlast := @foldl_send_framed (history.reverse.foldl send stream).goLive
    (history.reverse.foldl send stream).bufferedLive
  exact ⟨hlast.tenantId.trans hreplayed.tenantId, hlast.closed.trans hreplayed.closed,
    hlast.replaying, hlast.answer.trans hreplayed.answer⟩

/-- After the history, what has waited is sent. -/
theorem resolve_sends (hopen : stream.closed = false)
    (hremembered : ∀ id ∈ stream.sentOrder, id ∈ stream.sentIds)
    (hrecalls : stream.Recalls (history.reverse ++ stream.bufferedLive)) :
    Sends stream (stream.resolve (some history)) (history.reverse ++ stream.bufferedLive) := by
  obtain ⟨hhistory, hlive⟩ := recalls_append hrecalls
  have hframed := @foldl_send_framed stream history.reverse
  have hreplayed := foldl_send_sends hopen hremembered hhistory
  have hwaiting : (history.reverse.foldl send stream).goLive.Recalls stream.bufferedLive :=
    @recalls_congr (history.reverse.foldl send stream)
      (history.reverse.foldl send stream).goLive rfl rfl rfl _ hlive
  have hlast := @foldl_send_sends (history.reverse.foldl send stream).goLive _
    (hframed.closed.trans hopen) hreplayed.remembered hwaiting
  have hall := hreplayed.trans ⟨hlast.sent, hlast.remembered⟩
  rw [resolve]
  rw [hframed.bufferedLive]
  exact ⟨hall.sent, hall.remembered⟩

end EventStream

/-! ## Along a run -/

section
variable {tenantId : Identity}

/-- While the history is read, everything waits; then what was sent is the history and the
events after it. -/
structure Streams (tenantId : Identity) (s : Feed × Observation) : Prop where
  tenant : s.1.stream.tenantId = tenantId
  live : ∀ event ∈ s.2.live, event.tenantId = tenantId
  answer : ∀ answer, s.1.stream.answer = some answer → ∃ history, s.2.history = some history ∧
    answer = some history.reverse ∧ (history.map (·.eventId)).Nodup ∧
      ∀ event ∈ history, event.tenantId = tenantId
  waiting : s.1.stream.closed = false → s.1.stream.replaying = true →
    s.1.stream.events = [] ∧ s.1.stream.sentOrder = [] ∧ s.1.stream.bufferedLive = s.2.live
  sent : s.1.stream.closed = false → s.1.stream.replaying = false →
    (∀ id ∈ s.1.stream.sentOrder, id ∈ s.1.stream.sentIds) ∧
      ∃ history, s.1.stream.answer = some (some history.reverse) ∧
        s.1.stream.events = unsent [] (history ++ s.2.live)

theorem start_streams (ledger : EventLedger) (broker : EventBroker) (header : Option JsString)
    (aborted : Bool) :
    Streams tenantId (⟨ledger, broker, .start tenantId header aborted⟩, {}) where
  tenant := rfl
  live := List.forall_mem_nil _
  answer := by
    intro answer h
    cases h
  waiting := fun _ _ => ⟨rfl, rfl, rfl⟩
  sent := by
    intro _ h
    cases h

theorem handsOver_iff {feed : Feed} {event : MonolithEvent} : feed.handsOver event = true ↔
    (feed.broker.markSeen event.eventId).1 = false ∧ event.tenantId = feed.stream.tenantId := by
  rw [Feed.handsOver, Bool.and_eq_true, Bool.not_eq_true', decide_eq_true_iff]

/-- Nothing is asked of a stream that is closed. -/
theorem streams_of_closed {feed : Feed} {seen : Observation} (hclosed : feed.stream.closed = true)
    (htenant : feed.stream.tenantId = tenantId)
    (hlive : ∀ event ∈ seen.live, event.tenantId = tenantId)
    (hanswer : ∀ answer, feed.stream.answer = some answer → ∃ history,
      seen.history = some history ∧ answer = some history.reverse ∧
        (history.map (·.eventId)).Nodup ∧ ∀ event ∈ history, event.tenantId = tenantId) :
    Streams tenantId (feed, seen) := by
  refine ⟨htenant, hlive, hanswer, fun hopen => ?_, fun hopen => ?_⟩
  · rw [hclosed] at hopen
    cases hopen
  · rw [hclosed] at hopen
    cases hopen

/-- What one step keeps. -/
theorem step_streams (s : Feed × Observation) (action : FeedAction) (s' : Feed × Observation)
    (h : Streams tenantId s) (hguard : resumeGuard s action)
    (hstep : observedStep s action = some s') : Streams tenantId s' := by
  obtain ⟨feed, seen⟩ := s
  obtain ⟨feed', hfeed, rfl⟩ := Option.map_eq_some_iff.mp hstep
  obtain ⟨htenant, hlive, hanswer, hwaiting, hsent⟩ := h
  cases action with
  | commit now event =>
      cases hfeed
      exact ⟨htenant, hlive, hanswer, hwaiting, hsent⟩
  | publish event =>
      cases hfeed
      by_cases hhands : feed.handsOver event = true
      · have hobserved : observe feed seen (.publish event) =
            { seen with live := seen.live ++ [event] } := if_pos hhands
        have hevent : event.tenantId = tenantId := (handsOver_iff.mp hhands).2.trans htenant
        have hlive' : ∀ e ∈ seen.live ++ [event], e.tenantId = tenantId := by
          intro e he
          rcases List.mem_append.mp he with hold | hnew
          · exact hlive e hold
          · rw [List.mem_singleton.mp hnew]
            exact hevent
        rw [hobserved, hhands, Bool.true_and]
        cases hclosed : feed.stream.closed with
        | true => exact streams_of_closed hclosed htenant hlive' hanswer
        | false =>
            rw [if_pos (by rfl)]
            cases hreplaying : feed.stream.replaying with
            | true =>
                obtain ⟨hevents, horder, hbuffered⟩ := hwaiting hclosed hreplaying
                rw [EventStream.sendLive, if_pos hreplaying]
                split_ifs with hfull
                · obtain ⟨hframed, -⟩ := EventStream.safeEnqueue_framed feed.stream
                    (.system "live replay buffer exceeded; reconnect")
                  apply streams_of_closed rfl (hframed.tenantId.trans htenant) hlive'
                  intro answer heq
                  exact hanswer answer (hframed.answer.symm.trans heq)
                · refine ⟨htenant, hlive', hanswer, fun _ _ => ⟨hevents, horder, ?_⟩, ?_⟩
                  · exact congrArg (· ++ [event]) hbuffered
                  · intro _ hlater
                    rw [hreplaying] at hlater
                    cases hlater
            | false =>
                obtain ⟨hremembered, history, hanswered, hevents⟩ := hsent hclosed hreplaying
                have hframed := EventStream.send_framed feed.stream event
                have hsends := EventStream.send_sends hclosed hremembered
                  (hguard hhands hreplaying).1
                rw [EventStream.sendLive, if_neg (by rw [hreplaying]; exact Bool.false_ne_true)]
                refine ⟨hframed.tenantId.trans htenant, hlive', ?_, ?_, ?_⟩
                · intro answer heq
                  exact hanswer answer (hframed.answer.symm.trans heq)
                · intro _ hlater
                  rw [hframed.replaying, hreplaying] at hlater
                  cases hlater
                · intro _ _
                  refine ⟨hsends.remembered, history, hframed.answer.trans hanswered, ?_⟩
                  have hids : feed.stream.sentIds =
                      [] ++ (unsent [] (history ++ seen.live)).map (·.eventId) := by
                    rw [EventStream.sentIds, hevents]
                    rfl
                  rw [hsends.sent, hids, hevents, ← unsent_append, List.append_assoc]
      · have hobserved : observe feed seen (.publish event) = seen := if_neg hhands
        rw [hobserved, Bool.eq_false_iff.mpr hhands]
        exact ⟨htenant, hlive, hanswer, hwaiting, hsent⟩
  | query =>
      rw [feedStep] at hfeed
      split_ifs at hfeed with hnone
      cases hfeed
      have hstart : feed.stream.answer = none := Option.isNone_iff_eq_none.mp hnone
      refine ⟨htenant, hlive, ?_, hwaiting, ?_⟩
      · intro answer heq
        cases heq
        refine ⟨_, rfl, congrArg some (EventLedger.listRecentEvents_eq hguard),
          EventLedger.following_nodup, ?_⟩
        have hsame := EventLedger.tenant_of_following hguard
        rw [htenant] at hsame
        exact fun event hmem => hsame event (htenant ▸ hmem)
      · intro hopen hreplaying
        obtain ⟨-, history, hanswered, -⟩ := hsent hopen hreplaying
        rw [hstart] at hanswered
        cases hanswered
  | queryFails => exact hguard.elim
  | resolve =>
      rw [feedStep] at hfeed
      cases hanswered : feed.stream.answer with
      | none =>
          rw [hanswered] at hfeed
          cases hfeed
      | some answer =>
          rw [hanswered] at hfeed
          dsimp only at hfeed
          split_ifs at hfeed with hreplaying
          cases hfeed
          obtain ⟨history, hhistory, rfl, hnodup, htenants⟩ := hanswer _ hanswered
          obtain ⟨htenant', hclosed', hreplaying', hanswer'⟩ :=
            @EventStream.resolve_framed feed.stream history.reverse
          cases hclosed : feed.stream.closed with
          | true =>
              apply streams_of_closed (hclosed'.trans hclosed) (htenant'.trans htenant) hlive
              intro answer heq
              exact hanswer answer (hanswer'.symm.trans heq)
          | false =>
              obtain ⟨hevents, horder, hbuffered⟩ := hwaiting hclosed hreplaying
              have hremembered : ∀ id ∈ feed.stream.sentOrder, id ∈ feed.stream.sentIds := by
                rw [horder]
                exact List.forall_mem_nil _
              have hjoin : history.reverse ∈ feed.stream.answer.join := by
                rw [hanswered]
                rfl
              have hsends := EventStream.resolve_sends hclosed hremembered (hguard _ hjoin)
              refine ⟨htenant'.trans htenant, hlive, ?_, ?_, ?_⟩
              · intro answer heq
                exact hanswer answer (hanswer'.symm.trans heq)
              · intro _ hlater
                rw [hreplaying'] at hlater
                cases hlater
              · intro _ _
                refine ⟨hsends.remembered, history, hanswer'.trans hanswered, ?_⟩
                have hids : feed.stream.sentIds = [] := by
                  rw [EventStream.sentIds, hevents]
                  rfl
                rw [hsends.sent, hids, hevents, hbuffered, List.reverse_reverse]
                rfl
  | keepAlive =>
      cases hfeed
      obtain ⟨hframed, horder⟩ := EventStream.safeEnqueue_framed feed.stream .keepAlive
      have hevents := EventStream.events_keepAlive feed.stream
      refine ⟨hframed.tenantId.trans htenant, hlive, ?_, ?_, ?_⟩
      · intro answer heq
        exact hanswer answer (hframed.answer.symm.trans heq)
      · intro hopen hreplaying
        rw [hevents, horder, hframed.bufferedLive]
        exact hwaiting (hframed.closed.symm.trans hopen) (hframed.replaying.symm.trans hreplaying)
      · intro hopen hreplaying
        rw [EventStream.sentIds, hevents, horder, hframed.answer]
        exact hsent (hframed.closed.symm.trans hopen) (hframed.replaying.symm.trans hreplaying)
  | close =>
      cases hfeed
      refine ⟨htenant, hlive, hanswer, ?_, ?_⟩
      · intro hclosed
        cases hclosed
      · intro hclosed
        cases hclosed

/-- What holds of a stream that is open: until the history is read nothing is sent, then the
history and what came after it. -/
structure Exact (s : Feed × Observation) : Prop where
  waiting : s.1.stream.replaying = true → s.1.stream.events = []
  sent : s.1.stream.replaying = false → ∃ history, s.2.history = some history ∧
    s.1.stream.events = history ++ unsent (history.map (·.eventId)) s.2.live
  once : s.1.stream.sentIds.Nodup
  own : ∀ event ∈ s.1.stream.events, event.tenantId = s.1.stream.tenantId

theorem exact_of_streams {s : Feed × Observation} (h : Streams tenantId s)
    (hopen : s.1.stream.closed = false) : Exact s := by
  cases hreplaying : s.1.stream.replaying with
  | true =>
      obtain ⟨hevents, -, -⟩ := h.waiting hopen hreplaying
      refine ⟨fun _ => hevents, fun hlater => ?_, ?_, ?_⟩
      · rw [hreplaying] at hlater
        cases hlater
      · rw [EventStream.sentIds, hevents]
        exact List.nodup_nil
      · rw [hevents]
        exact List.forall_mem_nil _
  | false =>
      obtain ⟨-, history, hanswered, hevents⟩ := h.sent hopen hreplaying
      obtain ⟨history', hhistory, heq, hnodup, htenants⟩ := h.answer _ hanswered
      rw [List.reverse_injective (Option.some.inj heq)] at hevents
      have hsent : s.1.stream.events =
          history' ++ unsent (history'.map (·.eventId)) s.2.live := by
        have hfirst : unsent [] history' = history' := unsent_of_nodup hnodup
        rw [hevents, unsent_append, hfirst, List.nil_append]
      refine ⟨fun hearlier => ?_, fun _ => ⟨history', hhistory, hsent⟩, ?_, ?_⟩
      · rw [hreplaying] at hearlier
        cases hearlier
      · rw [EventStream.sentIds, hsent, List.map_append]
        exact unsent_nodup hnodup
      · rw [hsent, h.tenant]
        intro event hmem
        rcases List.mem_append.mp hmem with hold | hnew
        · exact htenants event hold
        · exact h.live event (mem_of_mem_unsent hnew)

/-- In every run in which the history can be resumed from and what is sent is recalled, an
open stream has sent what followed the cursor, oldest first, and then what the broker handed
over, each event once and none of another tenant. -/
theorem resumed_stream_exact {ledger : EventLedger} {broker : EventBroker}
    {header : Option JsString} {aborted : Bool} {actions : List FeedAction}
    {s : Feed × Observation}
    (hrun : Path observedStep resumeGuard
      (⟨ledger, broker, .start tenantId header aborted⟩, {}) actions s)
    (hopen : s.1.stream.closed = false) : Exact s :=
  exact_of_streams (hrun.invariant step_streams (start_streams ledger broker header aborted)) hopen

end

/-! ## A backlog beyond the limit -/

/-- Ids that differ in the last three digits. -/
def numberedId (n : ℕ) : JsString :=
  ⟨(JsString.ofString "00000000-0000-4000-8000-000000000").units ++
    [UInt16.ofNat (48 + n / 100), UInt16.ofNat (48 + n / 10 % 10), UInt16.ofNat (48 + n % 10)]⟩

def numberedRow (n : ℕ) : EventRow where
  event := { (batchRow firstId).event with eventId := numberedId n }
  receivedAt := n

theorem numberedId_inj {n m : ℕ} (hn : n < 1000) (hm : m < 1000)
    (h : numberedId n = numberedId m) : n = m := by
  have hdigits := List.append_cancel_left (congrArg JsString.units h)
  simp only [List.cons.injEq, and_true] at hdigits
  obtain ⟨hhundreds, htens, hones⟩ := hdigits
  have hhundreds' := congrArg UInt16.toNat hhundreds
  have htens' := congrArg UInt16.toNat htens
  have hones' := congrArg UInt16.toNat hones
  simp only [UInt16.toNat_ofNat'] at hhundreds' htens' hones'
  omega

/-- The first rows, in the order in which they were received. -/
def numberedTable (count : ℕ) (h : count ≤ 1000) : EventTable where
  entries := (List.range count).map fun n => (numberedId n, numberedRow n)
  nodup := by
    rw [List.map_map]
    apply List.Nodup.map_on _ List.nodup_range
    intro n hn m hm heq
    exact numberedId_inj ((List.mem_range.mp hn).trans_le h) ((List.mem_range.mp hm).trans_le h) heq

def numberedLedger (count : ℕ) (h : count ≤ 1000) : EventLedger :=
  .database (numberedTable count h) (by
    intro id row hget
    obtain ⟨n, -, heq⟩ := List.mem_map.mp (InsertionMap.get?_eq_some_iff.mp hget)
    cases heq
    rfl)

/-- The connection of a client that has seen the first event. -/
def resumedFeed (count : ℕ) (h : count ≤ 1000) : Feed :=
  ⟨numberedLedger count h, {}, .start defaultTenant (some (numberedId 0)) false⟩

theorem entries_numberedLedger (count : ℕ) (h : count ≤ 1000) :
    (numberedLedger count h).entries defaultTenant = (List.range count).map fun n =>
      ⟨receipt n (numberedId n), fromRow (numberedRow n)⟩ := by
  have htenant : defaultTenant.toWellFormed = defaultTenant := by decide
  have hall : (numberedTable count h).values.filter (fun row =>
      row.event.tenantId = defaultTenant.toWellFormed) = (List.range count).map numberedRow := by
    rw [InsertionMap.values, numberedTable, List.map_map]
    apply List.filter_eq_self.mpr
    intro row hrow
    obtain ⟨n, -, rfl⟩ := List.mem_map.mp hrow
    rw [htenant]
    exact decide_eq_true rfl
  rw [numberedLedger, EventLedger.entries, hall, List.map_map]
  rfl

/-- All rows but the first follow the cursor. -/
theorem length_following_numberedLedger (count : ℕ) (h : count + 1 ≤ 1000) :
    ((numberedLedger (count + 1) h).following defaultTenant (some (numberedId 0))).length =
      count := by
  have hentries := entries_numberedLedger (count + 1) h
  rw [List.range_succ_eq_map, List.map_cons, List.map_map] at hentries
  have hcursor : (numberedLedger (count + 1) h).cursor defaultTenant (some (numberedId 0)) =
      some (receipt 0 (numberedId 0)) := by
    have hid : ((some (numberedId 0)).filter isUuid).map (·.asciiLowercase) =
        some (numberedId 0) := by
      decide
    change ((((some (numberedId 0)).filter isUuid).map (·.asciiLowercase)).bind fun id =>
      ((numberedLedger (count + 1) h).entries defaultTenant).find? fun e =>
        e.event.eventId = id).map EventLedger.Entry.place = _
    rw [hid, Option.bind_some, hentries, List.find?_cons_of_pos]
    · rfl
    · exact decide_eq_true rfl
  have hbeyond : ((numberedLedger (count + 1) h).beyond defaultTenant
      (some (numberedId 0))).length = count := by
    rw [EventLedger.beyond, hcursor, hentries]
    simp only [Option.all_some]
    rw [List.filter_cons_of_neg (by rw [decide_eq_true_eq]; exact lt_irrefl _),
      List.filter_eq_self.mpr, List.length_map, List.length_range]
    intro e he
    obtain ⟨n, -, rfl⟩ := List.mem_map.mp he
    exact decide_eq_true (Prod.Lex.toLex_lt_toLex.mpr (Or.inl n.succ_pos))
  rw [EventLedger.following, List.length_map, List.length_insertionSort, hbeyond]

/-- What is sent comes from the answer. -/
theorem EventStream.mem_events_foldl {stream : EventStream} {events : List MonolithEvent}
    {event : MonolithEvent} (h : event ∈ (events.foldl EventStream.send stream).events) :
    event ∈ stream.events ∨ event ∈ events := by
  induction events generalizing stream with
  | nil => exact Or.inl h
  | cons first events ih =>
      rcases ih h with hsent | hmem
      · rw [EventStream.send] at hsent
        split_ifs at hsent with hknown
        · exact Or.inl hsent
        · rw [EventStream.events, EventStream.output_safeEnqueue] at hsent
          split_ifs at hsent with hclosed
          · exact Or.inl hsent
          · rw [List.filterMap_append, List.mem_append] at hsent
            rcases hsent with hold | hnew
            · exact Or.inl hold
            · rw [List.mem_singleton.mp hnew]
              exact Or.inr List.mem_cons_self
      · exact Or.inr (List.mem_cons_of_mem first hmem)

theorem length_listRecentEvents_le (ledger : EventLedger) (tenantId : Identity)
    (after : Option JsString) :
    (ledger.listRecentEvents tenantId historyLimit after).length ≤ historyLimit := by
  unfold EventLedger.listRecentEvents
  cases ledger with
  | memory events keyed =>
      rw [List.length_map]
      exact List.length_take_le _ _
  | database table keyed =>
      rw [List.length_map]
      exact List.length_take_le _ _

/-- When nothing comes meanwhile, what is sent is what the query answers. -/
theorem execute_resume {feed : Feed} (hunread : feed.stream.answer = none)
    (hreplaying : feed.stream.replaying = true) (hwaiting : feed.stream.bufferedLive = []) :
    ∃ s, execute observedStep (feed, {}) [.query, .resolve] = some s ∧
      s.2.history =
        some (feed.ledger.following feed.stream.tenantId feed.stream.lastEventId) ∧
      s.1.stream.closed = feed.stream.closed ∧ s.1.stream.replaying = false ∧
      ∀ event ∈ s.1.stream.events, event ∈ feed.stream.events ∨
        event ∈ feed.ledger.listRecentEvents feed.stream.tenantId historyLimit
          feed.stream.lastEventId := by
  let answer := feed.ledger.listRecentEvents feed.stream.tenantId historyLimit
    feed.stream.lastEventId
  let asked : Feed := { feed with stream.answer := some (some answer) }
  have hquery : feedStep feed .query = some asked := if_pos (by rw [hunread]; rfl)
  have hresolve : feedStep asked .resolve =
      some { asked with stream := asked.stream.resolve (some answer) } := if_pos hreplaying
  obtain ⟨-, hclosed, hlive, -⟩ := @EventStream.resolve_framed asked.stream answer
  refine ⟨({ asked with stream := asked.stream.resolve (some answer) },
    ⟨some (feed.ledger.following feed.stream.tenantId feed.stream.lastEventId), []⟩),
    ?_, rfl, hclosed, hlive, ?_⟩
  · rw [execute, observedStep, hquery, Option.map_some, Option.bind_some, execute, observedStep,
      hresolve, Option.map_some, Option.bind_some, execute]
    rfl
  · intro event hevent
    rcases EventStream.mem_events_foldl hevent with hreplayed | hbuffered
    · rcases EventStream.mem_events_foldl hreplayed with hbefore | hanswer
      · exact Or.inl hbefore
      · exact Or.inr (List.mem_reverse.mp hanswer)
    · rw [(@EventStream.foldl_send_framed asked.stream answer.reverse).bufferedLive] at hbuffered
      change event ∈ feed.stream.bufferedLive at hbuffered
      rw [hwaiting] at hbuffered
      cases hbuffered

theorem lastEventId_numbered (count : ℕ) (h : count ≤ 1000) :
    (resumedFeed count h).stream.lastEventId = some (numberedId 0) := by
  have htrimmed : ((some (numberedId 0)).map (·.trim)).filter (·.units ≠ []) =
      some (numberedId 0) := by
    decide
  exact htrimmed

/-- Of 501 events after the cursor, one is never sent. -/
theorem long_backlog_cut : ∃ s history,
    execute observedStep (resumedFeed 502 (by decide), {}) [.query, .resolve] = some s ∧
    s.1.stream.closed = false ∧ s.1.stream.replaying = false ∧ s.2.history = some history ∧
    ∃ event ∈ history, event ∉ s.1.stream.events := by
  have hcount : 501 + 1 ≤ 1000 := by decide
  obtain ⟨s, hrun, hhistory, hclosed, hlive, hanswered⟩ :=
    @execute_resume (resumedFeed (501 + 1) hcount) rfl rfl rfl
  refine ⟨s, _, hrun, hclosed, hlive, hhistory, ?_⟩
  by_contra hall
  push Not at hall
  have hids : (((numberedLedger (501 + 1) hcount).following defaultTenant
      (resumedFeed (501 + 1) hcount).stream.lastEventId).map (·.eventId)) ⊆
      ((numberedLedger (501 + 1) hcount).listRecentEvents defaultTenant historyLimit
        (resumedFeed (501 + 1) hcount).stream.lastEventId).map (·.eventId) := by
    intro id hid
    obtain ⟨event, hevent, rfl⟩ := List.mem_map.mp hid
    rcases hanswered event (hall event hevent) with hbefore | hanswer
    · cases hbefore
    · exact List.mem_map_of_mem hanswer
  have hle := (List.subperm_of_subset EventLedger.following_nodup hids).length_le
  rw [List.length_map, List.length_map, lastEventId_numbered,
    length_following_numberedLedger] at hle
  have hfew := length_listRecentEvents_le (numberedLedger (501 + 1) hcount) defaultTenant
    (some (numberedId 0))
  exact absurd (hle.trans hfew) (by decide)

/-- Two events came while the history was read; one of them is in the history. -/
theorem resumed_stream_exact_two : ∃ s,
    Path observedStep resumeGuard (resumedFeed 2 (by decide), {})
      [.query, .publish (numberedRow 1).event, .publish (numberedRow 2).event, .resolve] s ∧
    Exact s ∧ s.1.stream.sentIds = [numberedId 1, numberedId 2] := by
  have hrun : (executeGuarded observedStep (fun s action => decide (resumeGuard s action))
      (resumedFeed 2 (by decide), {})
      [.query, .publish (numberedRow 1).event, .publish (numberedRow 2).event,
        .resolve]).map (fun s => (s.1.stream.closed, s.1.stream.sentIds)) =
        some (false, [numberedId 1, numberedId 2]) := by
    decide
  obtain ⟨s, hs, hsent⟩ := Option.map_eq_some_iff.mp hrun
  have hpath := (Path.of_executeGuarded hs).mono fun _ _ => of_decide_eq_true
  exact ⟨s, hpath, resumed_stream_exact hpath (congrArg Prod.fst hsent), congrArg Prod.snd hsent⟩

end BlackMonolith.Dashboard
