import BlackMonolith.Library.Paths
import BlackMonolith.Dashboard.AlertOutbox

/-!
# Runs of alert dispatchers

Any number of dispatchers claim, post and write outcomes, each transaction one
step, while operators replay dead letters, deliveries are pruned and events are
deleted. A dispatcher may stay between two steps for as long as it likes, or
crash. A transaction may fail, or commit without the dispatcher learning of it;
`deliver` catches the error of the first outcome it writes and writes a failure.

The history of a row counts its claims since it was last queued and says whether
some post of it was rejected for good, before or after a replay, and whether it was
marked delivered.
-/
namespace BlackMonolith.Dashboard
open Library

/-- How far `deliver` is with a claim. -/
inductive DeliverStage
  | posting
  | answered (answer : WebhookAnswer)
  | caught (error : JsString)
deriving Repr, DecidableEq

structure Holding where
  alert : ClaimedAlert
  stage : DeliverStage

/-- The outcome to write next. -/
def Holding.outcome (holding : Holding) : Option AlertOutcome :=
  match holding.stage with
  | .posting => none
  | .answered answer => some answer.outcome
  | .caught error => some (.failed error false)

/-- Whether an error of the next write is caught by `deliver`. -/
def Holding.inTry (holding : Holding) : Bool :=
  match holding.stage with
  | .answered (.status _) => true
  | _ => false

/-- How the transaction of an outcome ends. -/
inductive CommitResult
  | done
  | rolledBack (error : JsString)
  | unreported (error : JsString)
deriving Repr, DecidableEq

def CommitResult.applied : CommitResult → Bool
  | .done | .unreported _ => true
  | .rolledBack _ => false

/-- What the dispatcher still holds after a write. -/
def Holding.afterWrite (holding : Holding) : CommitResult → Option Holding
  | .done => none
  | .rolledBack error | .unreported error =>
      if holding.inTry then some { holding with stage := .caught error } else none

structure AlertHistory where
  claims : ℕ := 0
  rejected : Bool := false
  delivered : Bool := false
deriving Repr, DecidableEq

structure AlertSystem where
  alerts : AlertTable
  dispatchers : ℕ → Option Holding
  history : JsString → AlertHistory
  queued : List JsString
  deleted : List (JsString × DeliveryStatus)

def AlertSystem.start : AlertSystem :=
  { alerts := .empty
    dispatchers := fun _ => none
    history := fun _ => {}
    queued := []
    deleted := [] }

inductive AlertStep
  | enqueue (event : MonolithEvent) (now : ℕ)
  | claim (d : ℕ) (locked : List JsString) (tenant : JsString) (now : ℕ)
  | post (d : ℕ) (answer : WebhookAnswer)
  | write (d : ℕ) (now : ℕ) (commit : CommitResult)
  | crash (d : ℕ)
  | replay (tenant : JsString) (now : ℕ)
  | prune (tenant : JsString) (cutoff : ℤ)
  | retention (eventIds : List JsString)

def AlertSystem.setDispatcher (s : AlertSystem) (d : ℕ) (holding : Option Holding) : AlertSystem :=
  { s with dispatchers := Function.update s.dispatchers d holding }

def AlertSystem.note (s : AlertSystem) (id : JsString) (h : AlertHistory) : AlertSystem :=
  { s with history := Function.update s.history id h }

/-- The system after `outcome` was written for a claim. -/
def AlertSystem.written (s : AlertSystem) (alert : ClaimedAlert) (now : ℕ)
    (outcome : AlertOutcome) : AlertSystem :=
  let hit := (s.alerts.get? alert.eventId).any (·.tenantId.text = alert.tenant)
  let history := s.history alert.eventId
  { s.note alert.eventId
      { history with delivered := history.delivered || (hit && outcome = .delivered) } with
    alerts := writeOutcome alert now outcome s.alerts }

/-- The rows a deletion takes, with the states they were in. -/
def statuses (p : JsString → AlertRow → Bool) (alerts : AlertTable) :
    List (JsString × DeliveryStatus) :=
  (alerts.filter p).entries.map fun e => (e.1, e.2.status)

def alertStep (s : AlertSystem) : AlertStep → Option AlertSystem
  | .enqueue event now =>
      if s.alerts.has event.eventId then some s
      else
        some
          { s.note event.eventId {} with
            alerts := enqueueAlertJob now event s.alerts
            queued := event.eventId :: s.queued }
  | .claim d locked tenant now =>
      match s.dispatchers d with
      | some _ => none
      | none =>
          (claim locked tenant now s.alerts).map fun claimed =>
            let history := s.history claimed.1.eventId
            { (s.setDispatcher d (some ⟨claimed.1, .posting⟩)).note claimed.1.eventId
                { history with claims := history.claims + 1 } with
              alerts := claimed.2 }
  | .post d answer =>
      match s.dispatchers d with
      | some ⟨alert, .posting⟩ =>
          let history := s.history alert.eventId
          some ((s.setDispatcher d (some ⟨alert, .answered answer⟩)).note alert.eventId
            { history with rejected := history.rejected || answer.isPermanent })
      | _ => none
  | .write d now commit =>
      match s.dispatchers d with
      | some holding =>
          holding.outcome.map fun outcome =>
            let after := s.setDispatcher d (holding.afterWrite commit)
            if commit.applied then after.written holding.alert now outcome else after
      | none => none
  | .crash d => some (s.setDispatcher d none)
  | .replay tenant now =>
      some
        { s with
          alerts := replayDeadAlerts tenant now s.alerts
          history := fun id =>
            if (s.alerts.get? id).any (·.deadOf tenant) then { s.history id with claims := 0 }
            else s.history id }
  | .prune tenant cutoff =>
      some
        { s with
          alerts := pruneAlertDeliveries tenant cutoff s.alerts
          deleted := statuses (fun _ row => row.prunable tenant cutoff) s.alerts ++ s.deleted }
  | .retention eventIds =>
      some
        { s with
          alerts := deleteAlertsOf eventIds s.alerts
          deleted := statuses (fun id _ => eventIds.contains id) s.alerts ++ s.deleted }

/-! ## Safety -/

/-- A delivered row stays delivered, a dead one was rejected for good or claimed
often enough, and none is deleted while it is pending. -/
structure AlertSystem.Safe (s : AlertSystem) : Prop where
  delivered : ∀ id row, s.alerts.get? id = some row → (s.history id).delivered = true →
    row.status = .delivered
  dead : ∀ id row, s.alerts.get? id = some row → row.status = .dead →
    (s.history id).rejected = true ∨ maxDeliveryAttempts ≤ (s.history id).claims
  present : ∀ id ∈ s.queued, s.alerts.has id = true ∨ ∃ status, (id, status) ∈ s.deleted
  deleted : ∀ entry ∈ s.deleted, entry.2 ≠ .pending

/-- A failure may be written over a row that is not delivered; one that gives up
needs a rejection, or the attempts of the row as it is now. -/
def FailureTimely (alert : ClaimedAlert) (permanent : Bool) (history : AlertHistory)
    (row : AlertRow) : Prop :=
  row.status ≠ .delivered ∧
    (alert.exhausted permanent = true →
      history.rejected = true ∨ maxDeliveryAttempts ≤ row.attempts)

/-- Failures are written in time, and no event is deleted whose alert is pending. -/
def Timely (s : AlertSystem) : AlertStep → Prop
  | .write d _ commit =>
      ∀ holding message permanent row, s.dispatchers d = some holding → commit.applied = true →
        holding.outcome = some (.failed message permanent) →
        s.alerts.get? holding.alert.eventId = some row →
        row.tenantId.text = holding.alert.tenant →
        FailureTimely holding.alert permanent (s.history holding.alert.eventId) row
  | .retention eventIds =>
      ∀ id ∈ eventIds, ∀ row, s.alerts.get? id = some row → row.status ≠ .pending
  | _ => True

/-! ## Rows and their history -/

/-- What a row says agrees with its history. -/
structure AlertRow.Agrees (row : AlertRow) (h : AlertHistory) : Prop where
  attempts : row.attempts = h.claims
  delivered : row.status = .delivered ↔ h.delivered = true
  dead : row.status = .dead → h.rejected = true ∨ maxDeliveryAttempts ≤ h.claims

namespace AlertRow
variable {row : AlertRow} {h : AlertHistory} {alert : ClaimedAlert} {message : JsString}
  {permanent : Bool} {now : ℕ}

theorem Agrees.claimed (hr : row.Agrees h) :
    (row.claimed now).Agrees { h with claims := h.claims + 1 } := by
  refine ⟨congrArg (· + 1) hr.attempts, hr.delivered, ?_⟩
  intro hdead
  exact (hr.dead hdead).imp_right fun hmax => by
    show maxDeliveryAttempts ≤ h.claims + 1
    omega

theorem Agrees.rejected (hr : row.Agrees h) (permanent : Bool) :
    row.Agrees { h with rejected := h.rejected || permanent } :=
  ⟨hr.attempts, hr.delivered, fun hdead =>
    (hr.dead hdead).imp_left fun hrejected => by rw [hrejected]; rfl⟩

theorem Agrees.markDelivered (hr : row.Agrees h) :
    (row.markDelivered now).Agrees { h with delivered := true } :=
  ⟨hr.attempts, ⟨fun _ => rfl, fun _ => rfl⟩, fun hdead => nomatch hdead⟩

theorem Agrees.markFailed (hr : row.Agrees h) (ht : FailureTimely alert permanent h row) :
    (row.markFailed alert message permanent now).Agrees h := by
  have hnot : h.delivered ≠ true := fun hdelivered => ht.1 (hr.delivered.mpr hdelivered)
  cases hexhausted : alert.exhausted permanent with
  | true =>
      refine ⟨hr.attempts, ?_, ?_⟩
      · simp only [AlertRow.markFailed, hexhausted, if_true, reduceCtorEq, false_iff]
        exact hnot
      · intro _
        have hdead := ht.2 hexhausted
        rwa [hr.attempts] at hdead
  | false =>
      refine ⟨hr.attempts, ?_, ?_⟩
      · simp only [AlertRow.markFailed, hexhausted, Bool.false_eq_true, if_false, reduceCtorEq,
          false_iff]
        exact hnot
      · intro hdead
        simp only [AlertRow.markFailed, hexhausted, Bool.false_eq_true, if_false,
          reduceCtorEq] at hdead

/-- A failure that is not timely leaves a row no history allows. -/
theorem timely_of_markFailed (hr : row.Agrees h)
    (hdelivered : h.delivered = true →
      (row.markFailed alert message permanent now).status = .delivered)
    (hdead : (row.markFailed alert message permanent now).status = .dead →
      h.rejected = true ∨ maxDeliveryAttempts ≤ h.claims) :
    FailureTimely alert permanent h row := by
  constructor
  · intro hstatus
    have hmarked := hdelivered (hr.delivered.mp hstatus)
    simp only [AlertRow.markFailed] at hmarked
    split at hmarked
    · cases hmarked
    · cases hmarked
  · intro hexhausted
    rw [hr.attempts]
    apply hdead
    simp only [AlertRow.markFailed, hexhausted, if_true]

theorem Agrees.replayed (hr : row.Agrees h) (hdead : row.status = .dead) :
    (row.replayed now).Agrees { h with claims := 0 } := by
  refine ⟨rfl, ?_, fun hstatus => nomatch hstatus⟩
  have hnot : h.delivered ≠ true := by
    intro hdelivered
    have hstatus := hr.delivered.mpr hdelivered
    rw [hdead] at hstatus
    cases hstatus
  simp only [AlertRow.replayed, reduceCtorEq, false_iff]
  exact hnot

end AlertRow

/-- What every run of timely steps keeps. -/
structure AlertSystem.Tracked (s : AlertSystem) : Prop where
  rows : ∀ id row, s.alerts.get? id = some row → row.Agrees (s.history id)
  present : ∀ id ∈ s.queued, s.alerts.has id = true ∨ ∃ status, (id, status) ∈ s.deleted
  deleted : ∀ entry ∈ s.deleted, entry.2 ≠ .pending

theorem AlertSystem.Tracked.safe {s : AlertSystem} (hs : s.Tracked) : s.Safe :=
  ⟨fun id row hrow => (hs.rows id row hrow).delivered.mpr,
    fun id row hrow => (hs.rows id row hrow).dead, hs.present, hs.deleted⟩

theorem start_tracked : AlertSystem.start.Tracked :=
  ⟨fun _ _ h => (nomatch h), fun _ h => absurd h List.not_mem_nil,
    fun _ h => absurd h List.not_mem_nil⟩

/-! ## Steps -/

theorem has_updateWhere {p : JsString → AlertRow → Bool} {f : AlertRow → AlertRow}
    {alerts : AlertTable} {id : JsString} : (alerts.updateWhere p f).has id = alerts.has id := by
  simp only [InsertionMap.has, InsertionMap.get?_updateWhere, Option.isSome_map]

theorem claimable_spec {locked : List JsString} {tenant id : JsString} {now : ℕ}
    {alerts : AlertTable} {row : AlertRow}
    (h : claimable locked tenant now alerts = some (id, row)) :
    alerts.get? id = some row ∧ row.due tenant now = true := by
  have hmem := List.mem_of_mem_head? (Option.mem_def.mpr h)
  rw [List.mem_insertionSort, List.mem_filter] at hmem
  exact ⟨InsertionMap.get?_eq_some_iff.mpr hmem.1, (Bool.and_eq_true _ _ ▸ hmem.2).1⟩

section
variable {s t : AlertSystem}

/-- A step that leaves the alerts and their history alone. -/
theorem AlertSystem.Tracked.setDispatcher (hs : s.Tracked) (d : ℕ) (holding : Option Holding) :
    (s.setDispatcher d holding).Tracked :=
  ⟨hs.rows, hs.present, hs.deleted⟩

/-- A step that updates rows in place: it is enough to look at each row. -/
theorem AlertSystem.Tracked.update (hs : s.Tracked) {p : JsString → AlertRow → Bool}
    {f : AlertRow → AlertRow} {history : JsString → AlertHistory}
    (hrows : ∀ id row, s.alerts.get? id = some row → row.Agrees (s.history id) →
      (if p id row then f row else row).Agrees (history id)) :
    ({ s with alerts := s.alerts.updateWhere p f, history } : AlertSystem).Tracked := by
  refine ⟨?_, ?_, hs.deleted⟩
  · intro id row hrow
    rw [InsertionMap.get?_updateWhere] at hrow
    obtain ⟨old, hold, rfl⟩ := Option.map_eq_some_iff.mp hrow
    exact hrows id old hold (hs.rows id old hold)
  · intro id hid
    rw [has_updateWhere]
    exact hs.present id hid

/-- A deletion that takes no pending row. -/
theorem AlertSystem.Tracked.delete (hs : s.Tracked) {p : JsString → AlertRow → Bool}
    (hp : ∀ id row, s.alerts.get? id = some row → p id row = true → row.status ≠ .pending) :
    ({ s with
        alerts := s.alerts.filter fun id row => !p id row
        deleted := statuses p s.alerts ++ s.deleted } : AlertSystem).Tracked := by
  refine ⟨?_, ?_, ?_⟩
  · intro id row hrow
    rw [InsertionMap.get?_filter] at hrow
    exact hs.rows id row (Option.filter_eq_some_iff.mp hrow).1
  · intro id hid
    rcases hs.present id hid with hhas | ⟨status, hgone⟩
    · obtain ⟨row, hrow⟩ := Option.isSome_iff_exists.mp hhas
      cases hpos : p id row with
      | false =>
          left
          simp only [InsertionMap.has, InsertionMap.get?_filter, hrow, Option.filter, hpos,
            Bool.not_false, if_true, Option.isSome_some]
      | true =>
          right
          have hentry : (id, row) ∈ (s.alerts.filter p).entries :=
            List.mem_filter.mpr ⟨InsertionMap.get?_eq_some_iff.mp hrow, hpos⟩
          exact ⟨row.status, List.mem_append_left _ (List.mem_map.mpr ⟨_, hentry, rfl⟩)⟩
    · exact Or.inr ⟨status, List.mem_append_right _ hgone⟩
  · intro entry hentry
    rcases List.mem_append.mp hentry with hnew | hold
    · obtain ⟨e, he, rfl⟩ := List.mem_map.mp hnew
      obtain ⟨hmem, hpos⟩ := List.mem_filter.mp he
      exact hp e.1 e.2 (InsertionMap.get?_eq_some_iff.mpr hmem) hpos
    · exact hs.deleted entry hold

theorem newAlert_agrees (now : ℕ) (event : MonolithEvent) : (newAlert now event).Agrees {} := by
  refine ⟨rfl, ?_, ?_⟩
  · simp only [newAlert, reduceCtorEq, Bool.false_eq_true]
  · simp only [newAlert, reduceCtorEq, IsEmpty.forall_iff]

theorem tracked_enqueue (hs : s.Tracked) {event : MonolithEvent} {now : ℕ}
    (h : alertStep s (.enqueue event now) = some t) : t.Tracked := by
  simp only [alertStep] at h
  split_ifs at h with hhas
  · cases h
    exact hs
  · cases h
    have halerts : enqueueAlertJob now event s.alerts = 
        s.alerts.set event.eventId (newAlert now event) := by
      unfold enqueueAlertJob
      rw [if_neg hhas]
    refine ⟨?_, ?_, hs.deleted⟩
    · intro id row hrow
      simp only [halerts] at hrow
      by_cases hid : event.eventId = id
      · subst hid
        rw [InsertionMap.get?_set_self] at hrow
        cases hrow
        simp only [AlertSystem.note, Function.update_self]
        exact newAlert_agrees now event
      · rw [InsertionMap.get?_set_of_ne hid] at hrow
        simp only [AlertSystem.note, Function.update_of_ne (Ne.symm hid)]
        exact hs.rows id row hrow
    · intro id hid
      simp only [halerts, InsertionMap.has]
      by_cases heq : event.eventId = id
      · subst heq
        left
        rw [InsertionMap.get?_set_self]
        rfl
      · rw [InsertionMap.get?_set_of_ne heq]
        exact hs.present id ((List.mem_cons.mp hid).resolve_left (Ne.symm heq))

theorem tracked_claim (hs : s.Tracked) {d : ℕ} {locked : List JsString} {tenant : JsString}
    {now : ℕ} (h : alertStep s (.claim d locked tenant now) = some t) : t.Tracked := by
  simp only [alertStep] at h
  split at h
  · cases h
  · obtain ⟨claimed, hclaim, rfl⟩ := Option.map_eq_some_iff.mp h
    obtain ⟨⟨id, row⟩, hselected, rfl⟩ := Option.map_eq_some_iff.mp hclaim
    obtain ⟨hrow, hdue⟩ := claimable_spec hselected
    apply AlertSystem.Tracked.update (hs.setDispatcher d _)
    intro other found hfound hagrees
    by_cases hid : other = id
    · subst hid
      obtain rfl : row = found := Option.some.inj (hrow.symm.trans hfound)
      have htenant : row.tenantId.text = tenant := by
        simp only [AlertRow.due, Bool.and_eq_true, decide_eq_true_eq] at hdue
        exact hdue.1.1
      simp only [ofEvent, htenant, decide_true, Bool.and_self, if_true, AlertSystem.note,
        Function.update_self]
      exact hagrees.claimed
    · simp only [ofEvent, hid, decide_false, Bool.and_false, Bool.false_eq_true, if_false,
        AlertSystem.note, ne_eq, not_false_eq_true, Function.update_of_ne]
      exact hagrees

theorem tracked_post (hs : s.Tracked) {d : ℕ} {answer : WebhookAnswer}
    (h : alertStep s (.post d answer) = some t) : t.Tracked := by
  simp only [alertStep] at h
  split at h
  · next alert hd =>
      cases h
      refine ⟨?_, hs.present, hs.deleted⟩
      intro id row hrow
      have hagrees := hs.rows id row hrow
      by_cases hid : id = alert.eventId
      · subst hid
        simp only [AlertSystem.note, Function.update_self]
        exact hagrees.rejected _
      · simp only [AlertSystem.note, AlertSystem.setDispatcher, ne_eq, hid, not_false_eq_true,
          Function.update_of_ne]
        exact hagrees
  · cases h

/-- Writing an outcome keeps what is tracked when the outcome is a delivery, or a
failure that is timely. -/
theorem tracked_written (hs : s.Tracked) {alert : ClaimedAlert} {now : ℕ} {outcome : AlertOutcome}
    (htimely : ∀ message permanent row, outcome = .failed message permanent →
      s.alerts.get? alert.eventId = some row → row.tenantId.text = alert.tenant →
        FailureTimely alert permanent (s.history alert.eventId) row) :
    (s.written alert now outcome).Tracked := by
  apply AlertSystem.Tracked.update hs
  intro id row hrow hagrees
  by_cases hid : id = alert.eventId
  · subst hid
    simp only [AlertSystem.note, Function.update_self, hrow, Option.any_some, ofEvent,
      decide_true, Bool.and_true]
    by_cases htenant : row.tenantId.text = alert.tenant
    · cases outcome with
      | delivered =>
          simp only [htenant, decide_true, Bool.and_self, Bool.or_true, if_true]
          exact hagrees.markDelivered
      | failed message permanent =>
          simp only [htenant, decide_true, if_true, reduceCtorEq, decide_false, Bool.and_false,
            Bool.or_false]
          exact hagrees.markFailed (htimely message permanent row rfl hrow htenant)
    · simp only [htenant, decide_false, Bool.false_and, Bool.or_false, Bool.false_eq_true,
        if_false]
      exact hagrees
  · simp only [ofEvent, hid, decide_false, Bool.and_false, Bool.false_eq_true, if_false,
      AlertSystem.note, ne_eq, not_false_eq_true, Function.update_of_ne]
    exact hagrees

theorem tracked_write (hs : s.Tracked) {d now : ℕ} {commit : CommitResult}
    (htimely : Timely s (.write d now commit))
    (h : alertStep s (.write d now commit) = some t) : t.Tracked := by
  simp only [alertStep] at h
  split at h
  · next holding hd =>
      obtain ⟨outcome, houtcome, rfl⟩ := Option.map_eq_some_iff.mp h
      have hafter := hs.setDispatcher d (holding.afterWrite commit)
      split_ifs with happlied
      · apply tracked_written hafter
        intro message permanent row hfailed
        exact htimely holding message permanent row hd happlied (hfailed ▸ houtcome)
      · exact hafter
  · cases h

theorem tracked_replay (hs : s.Tracked) (tenant : JsString) (now : ℕ) :
    ({ s with
        alerts := replayDeadAlerts tenant now s.alerts
        history := fun id =>
          if (s.alerts.get? id).any (·.deadOf tenant) then { s.history id with claims := 0 }
          else s.history id } : AlertSystem).Tracked := by
  apply AlertSystem.Tracked.update hs
  intro id row hrow hagrees
  simp only [hrow, Option.any_some]
  cases hdead : row.deadOf tenant with
  | false => exact hagrees
  | true =>
      simp only [AlertRow.deadOf, Bool.and_eq_true, decide_eq_true_eq] at hdead
      exact hagrees.replayed hdead.2

theorem prunable_not_pending {row : AlertRow} {tenant : JsString} {cutoff : ℤ}
    (h : row.prunable tenant cutoff = true) : row.status ≠ .pending := by
  intro hpending
  simp [AlertRow.prunable, hpending] at h

theorem tracked_step {step : AlertStep} (hs : s.Tracked) (htimely : Timely s step)
    (h : alertStep s step = some t) : t.Tracked := by
  cases step with
  | enqueue event now => exact tracked_enqueue hs h
  | claim d locked tenant now => exact tracked_claim hs h
  | post d answer => exact tracked_post hs h
  | write d now commit => exact tracked_write hs htimely h
  | crash d =>
      cases h
      exact hs.setDispatcher d none
  | replay tenant now =>
      cases h
      exact tracked_replay hs tenant now
  | prune tenant cutoff =>
      cases h
      apply hs.delete
      intro id row _ hprunable
      exact prunable_not_pending hprunable
  | retention eventIds =>
      cases h
      apply hs.delete
      intro id row hrow hid
      exact htimely id (List.contains_iff_mem.mp hid) row hrow

/-! ## Late failures -/

/-- A step that is not timely breaks safety. -/
theorem timely_of_safe {step : AlertStep} (hs : s.Tracked) (h : alertStep s step = some t)
    (ht : t.Safe) : Timely s step := by
  cases step with
  | write d now commit =>
      intro holding message permanent row hd happlied houtcome hrow htenant
      simp only [alertStep, hd, houtcome, Option.map_some, happlied, if_true,
        Option.some.injEq] at h
      subst h
      have hwritten : (writeOutcome holding.alert now (.failed message permanent) s.alerts).get?
          holding.alert.eventId =
            some (row.markFailed holding.alert message permanent now) := by
        simp only [writeOutcome, InsertionMap.get?_updateWhere, hrow, Option.map_some, ofEvent,
          htenant, decide_true, Bool.and_self, if_true]
        rfl
      have hhistory : ∀ after : AlertSystem, after = (s.setDispatcher d
          (holding.afterWrite commit)).written holding.alert now (.failed message permanent) →
            after.history holding.alert.eventId = s.history holding.alert.eventId := by
        rintro after rfl
        simp only [AlertSystem.written, AlertSystem.note, AlertSystem.setDispatcher,
          Function.update_self, reduceCtorEq, decide_false, Bool.and_false, Bool.or_false]
      have hdelivered := ht.delivered _ _ hwritten
      have hdead := ht.dead _ _ hwritten
      rw [hhistory _ rfl] at hdelivered hdead
      exact AlertRow.timely_of_markFailed (hs.rows _ _ hrow) hdelivered hdead
  | retention eventIds =>
      cases h
      intro id hid row hrow hpending
      have hentry : (id, row) ∈ (s.alerts.filter fun id _ => eventIds.contains id).entries :=
        List.mem_filter.mpr
          ⟨InsertionMap.get?_eq_some_iff.mp hrow, List.contains_iff_mem.mpr hid⟩
      exact ht.deleted _ (List.mem_append_left _ (List.mem_map.mpr ⟨_, hentry, rfl⟩)) hpending
  | enqueue event now => trivial
  | claim d locked tenant now => trivial
  | post d answer => trivial
  | crash d => trivial
  | replay tenant now => trivial
  | prune tenant cutoff => trivial

/-- Delivery is safe in every run of timely steps, and the next step keeps it safe
exactly when it is timely too. -/
theorem delivery_safe {steps : List AlertStep}
    (h : Path alertStep Timely AlertSystem.start steps s) :
    s.Safe ∧ ∀ step t, alertStep s step = some t → (t.Safe ↔ Timely s step) := by
  have hs : s.Tracked := h.invariant (fun _ _ _ hs ht hstep => tracked_step hs ht hstep)
    start_tracked
  refine ⟨hs.safe, ?_⟩
  intro step t hstep
  constructor
  · exact timely_of_safe hs hstep
  · intro htimely
    exact (tracked_step hs htimely hstep).safe

/-- A critical event of the default tenant. -/
def criticalEvent : MonolithEvent where
  eventId := .ofString "e"
  schemaVersion := 2
  timestampMs := 1
  receivedMs := some 1
  moduleName := .mcpShield
  eventType := .ofString "tool_blocked"
  severity := .critical
  details := []
  tenantId := defaultTenant
  agentId := none
  sessionId := none
  traceId := none
  correlationId := none
  resourceType := none
  resourceId := none
  outcome := none
  policyVersion := none
  source := .ofString "module"

def claimBy (d now : ℕ) : AlertStep := .claim d [] defaultTenant.text now

/-- A first attempt that fails. -/
def retriedAlert : List AlertStep :=
  [.enqueue criticalEvent 1, claimBy 0 2, .post 0 (.status 503), .write 0 3 .done]

/-- Steps without deletions of events, whose failures do not give up and find the
row pending. -/
def retries (s : AlertSystem) : AlertStep → Bool
  | .write d _ _ =>
      match s.dispatchers d with
      | some holding =>
          match holding.outcome, s.alerts.get? holding.alert.eventId with
          | some (.failed _ permanent), some row =>
              !holding.alert.exhausted permanent && row.status = .pending
          | _, _ => true
      | none => true
  | .retention _ => false
  | _ => true

theorem timely_of_retries {step : AlertStep} (h : retries s step = true) : Timely s step := by
  cases step with
  | write d now commit =>
      intro holding message permanent row hd _ houtcome hrow _
      simp only [retries, hd, houtcome, hrow, Bool.and_eq_true, Bool.not_eq_true',
        decide_eq_true_eq] at h
      constructor
      · rw [h.2]
        decide
      · intro hexhausted
        rw [h.1] at hexhausted
        cases hexhausted
  | retention eventIds => cases h
  | enqueue event now => trivial
  | claim d locked tenant now => trivial
  | post d answer => trivial
  | crash d => trivial
  | replay tenant now => trivial
  | prune tenant cutoff => trivial

theorem delivery_safe_retried :
    ∃ s t, execute alertStep AlertSystem.start retriedAlert = some s ∧
      alertStep s (claimBy 1 (400 * second)) = some t ∧ s.Safe ∧ t.Safe := by
  have hguarded : executeGuarded alertStep retries AlertSystem.start retriedAlert = some _ := rfl
  have hpath := (Path.of_executeGuarded hguarded).mono fun _ _ h => timely_of_retries h
  have hsafe := delivery_safe hpath
  exact ⟨_, _, rfl, rfl, hsafe.1, (hsafe.2 (claimBy 1 (400 * second)) _ rfl).mpr trivial⟩

/-- The claim of a stalled dispatcher expires; another one delivers the alert,
and then the first writes the failure of its own post. -/
def stalledDispatcher : List AlertStep :=
  [.enqueue criticalEvent 1, claimBy 0 2, claimBy 1 (400 * second), .post 1 (.status 200),
    .write 1 (401 * second) .done, .post 0 (.status 503), .write 0 (402 * second) .done]

theorem delivered_alert_pending_again :
    ∃ s row, execute alertStep AlertSystem.start stalledDispatcher = some s ∧
      s.alerts.get? criticalEvent.eventId = some row ∧ row.status = .pending ∧
        (s.history criticalEvent.eventId).delivered = true ∧ ¬s.Safe := by
  have hrun : execute alertStep AlertSystem.start stalledDispatcher = some _ := rfl
  refine ⟨_, _, hrun, rfl, rfl, rfl, ?_⟩
  intro hsafe
  have hdelivered := hsafe.delivered criticalEvent.eventId _ rfl rfl
  cases hdelivered

end

end BlackMonolith.Dashboard
