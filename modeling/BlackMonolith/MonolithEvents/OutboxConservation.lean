import BlackMonolith.Library.Paths
import BlackMonolith.MonolithEvents.OutboxBounds

/-!
# Nothing is lost from the event outbox

Processes share one outbox: each enqueues, replays and flushes, and between the
steps of a flush the others do what they like with its rows. Whatever the
interleaving and the answers, an enqueued event is a single row, was deleted on
an answer that accepted it, or was deleted by a rule for dead letters.
-/
namespace BlackMonolith.MonolithEvents
open Library

/-! ## What trimming deletes -/

namespace Table
variable {table : Table} {p : Row → Bool} {f : Row → Row} {hf : ∀ r, (f r).eventId = r.eventId}
  {row row' : Row} {id : PyString}

theorem mem_ids : id ∈ table.ids ↔ ∃ row ∈ table.rows, row.eventId = id := List.mem_map

/-- Two rows of one id are one row. -/
theorem row_unique (h : row ∈ table.rows) (h' : row' ∈ table.rows)
    (heq : row.eventId = row'.eventId) : row = row' :=
  List.inj_on_of_nodup_map table.unique h h' heq

theorem ids_update : (table.update p f hf).ids = table.ids := by
  unfold ids update
  rw [List.map_map]
  refine List.map_congr_left fun r _ => ?_
  dsimp only [Function.comp_apply]
  split
  · exact hf r
  · rfl

theorem ids_insertOrIgnore : row.eventId ∈ (table.insertOrIgnore row).ids ∧
    ∀ id ∈ table.ids, id ∈ (table.insertOrIgnore row).ids := by
  unfold insertOrIgnore
  split
  · next hmem => exact ⟨hmem, fun _ h => h⟩
  · unfold ids
    rw [List.map_append]
    exact ⟨List.mem_append_right _ List.mem_cons_self, fun _ h => List.mem_append_left _ h⟩

/-- A row that is not deleted keeps its id in the table. -/
theorem ids_delete (h : row ∈ table.rows) :
    row.eventId ∈ (table.delete p).ids ∨ p row = true := by
  cases hp : p row with
  | true => exact Or.inr rfl
  | false => exact Or.inl (List.mem_map_of_mem (mem_delete.mpr ⟨h, hp⟩))

end Table

/-- A row deleted by the rules for dead letters, with the table they left. -/
structure Discard where
  row : Row
  limits : Limits
  timestamp : ℕ
  kept : Table

/-- The row was dead, and for longer than the retention, or too many were and none
that is left is older. -/
def Discard.Lawful (d : Discard) : Prop :=
  d.row.status = .dead ∧
    (expired d.limits d.timestamp d.row = true ∨
      (d.kept.withStatus .dead).length = d.limits.maxDead ∧
        ∀ other ∈ d.kept.rows, other.status = .dead → d.row.updatedMs ≤ other.updatedMs)

section
variable {limits : Limits} {scan : Scan Row} {timestamp : ℕ} {table : Table} {row : Row}

theorem ids_evictPending : (evictPending limits scan timestamp table).ids = table.ids := by
  unfold evictPending
  exact Table.ids_update

/-- Trimming keeps an id or deletes its row. -/
theorem ids_enforceLimits {id : PyString} (h : id ∈ table.ids) :
    id ∈ (enforceLimits limits scan timestamp table).table.ids ∨
      ∃ row ∈ (enforceLimits limits scan timestamp table).deleted, row.eventId = id := by
  obtain ⟨row, hrow, rfl⟩ := Table.mem_ids.mp h
  rcases @Table.ids_delete table (expired limits timestamp) row hrow with hretained | hexpired
  · rw [← @ids_evictPending limits scan timestamp] at hretained
    obtain ⟨row', hrow', heq⟩ := Table.mem_ids.mp hretained
    rw [← heq]
    rcases Table.ids_delete (p := (·.eventId ∈ surplusDead limits scan
      (evictPending limits scan timestamp (table.delete (expired limits timestamp))))) hrow' with
      hkept | hsurplus
    · exact Or.inl hkept
    · refine Or.inr ⟨row', List.mem_append_right _ ?_, rfl⟩
      exact List.mem_filter.mpr ⟨hrow', hsurplus⟩
  · refine Or.inr ⟨row, List.mem_append_left _ ?_, rfl⟩
    exact List.mem_filter.mpr ⟨hrow, hexpired⟩

theorem surplusDead_length (h : surplusDead limits scan table ≠ []) :
    ((table.delete (·.eventId ∈ surplusDead limits scan table)).withStatus .dead).length =
      limits.maxDead := by
  have hover : limits.maxDead < (table.withStatus .dead).length := by
    by_contra hfits
    have hzero : (table.withStatus .dead).length - limits.maxDead = 0 := by omega
    refine h ?_
    unfold surplusDead Scan.oldest
    simp only [hzero, List.take_zero, List.map_nil]
  rw [Table.withStatus_delete]
  have hleft := @Scan.length_left _ _ scan Row.updatedMs
    ((table.withStatus .dead).length - limits.maxDead) (table.withStatus .dead) _ _
    (table.nodup_withStatus .dead)
  unfold surplusDead
  simp only [decide_not] at hleft
  rw [hleft]
  omega

/-- What trimming deletes, it deletes by the rules. -/
theorem enforceLimits_lawful (h : row ∈ (enforceLimits limits scan timestamp table).deleted) :
    Discard.Lawful ⟨row, limits, timestamp, (enforceLimits limits scan timestamp table).table⟩ := by
  rcases List.mem_append.mp h with hexpired | hsurplus
  · have hrow := (List.mem_filter.mp hexpired).2
    have hdead := hrow
    unfold expired at hdead
    simp only [Bool.and_eq_true, decide_eq_true_eq] at hdead
    exact ⟨hdead.1, Or.inl hrow⟩
  · obtain ⟨hrow, hmem⟩ := List.mem_filter.mp hsurplus
    rw [decide_eq_true_iff] at hmem
    unfold enforceLimits
    dsimp only
    generalize evictPending limits scan timestamp (table.delete (expired limits timestamp)) =
      evicted at hrow hmem ⊢
    have hne : surplusDead limits scan evicted ≠ [] := List.ne_nil_of_mem hmem
    unfold surplusDead at hmem
    obtain ⟨old, hold, heq⟩ := List.mem_map.mp hmem
    have hdead := Scan.mem_of_mem_oldest hold
    obtain ⟨holdrow, hstatus⟩ := List.mem_filter.mp hdead
    have hsame : old = row := Table.row_unique holdrow hrow heq
    rw [hsame] at hold hstatus
    refine ⟨of_decide_eq_true hstatus, Or.inr ⟨surplusDead_length hne, ?_⟩⟩
    intro other hother hotherdead
    obtain ⟨hin, hnot⟩ := Table.mem_delete.mp hother
    refine Scan.rank_le_of_oldest hold ?_ ?_
    · exact List.mem_filter.mpr ⟨hin, decide_eq_true hotherdead⟩
    · intro hoth
      rw [decide_eq_false_iff_not] at hnot
      exact hnot (List.mem_map_of_mem hoth)

/-- An answer that does not accept the row keeps it, and every answer keeps the others. -/
theorem ids_recordAnswer {jitter : ℕ} {item : Batched} {answer : Answer} {id : PyString}
    (h : id ∈ table.ids) :
    id ∈ (recordAnswer limits timestamp jitter item answer table).ids ∨
      answer.accepted = true ∧ item.eventId = id := by
  unfold recordAnswer
  dsimp only
  split
  · next haccepted =>
      obtain ⟨row, hrow, rfl⟩ := Table.mem_ids.mp h
      rcases @Table.ids_delete table (·.eventId = item.eventId) row hrow with hkept | heq
      · exact Or.inl hkept
      · exact Or.inr ⟨haccepted, (of_decide_eq_true heq).symm⟩
  · split
    · rw [Table.ids_update]
      exact Or.inl h
    · rw [Table.ids_update]
      exact Or.inl h

end

/-! ## Processes -/

/-- A post a flush has made, and its answer. -/
structure Post where
  flush : ℕ
  eventId : PyString
  answer : Answer
deriving Repr, DecidableEq

/-- A flush under way: what is left of its batch, and the answer to the first of it
once that is posted. -/
structure Flush where
  timestamp : ℕ
  batch : List Batched
  answer : Option Answer := none

/-- The shared table and the flushes, with what has been enqueued, posted, deleted
as delivered and discarded so far. -/
structure System where
  table : Table := {}
  flushes : ℕ → Option Flush := fun _ => none
  enqueued : List PyString := []
  posts : List Post := []
  delivered : List Post := []
  discarded : List Discard := []

/-- What a process does next; each has the limits it was opened with. A flush stops
where its process does, or where it raises. -/
inductive Action
  | enqueue (limits : Limits) (eventId : PyString) (payload : Payload) (tenantId : Option PyString)
      (now : ℕ) (scan : Scan Row)
  | select (flush : ℕ) (timestamp : ℕ) (scan : Scan Row)
  | post (flush : ℕ) (answer : Answer)
  | record (flush : ℕ) (limits : Limits) (jitter : ℕ) (scan : Scan Row)
  | stop (flush : ℕ)
  | replayDeadLetters (tenantId : Option PyString) (now : ℕ)

section
variable (py : Runtime)

/-- The transaction that ends with `trimmed`. -/
def System.trim (sys : System) (limits : Limits) (timestamp : ℕ) (trimmed : Trimmed) : System :=
  { sys with
    table := trimmed.table
    discarded := sys.discarded ++ trimmed.deleted.map (⟨·, limits, timestamp, trimmed.table⟩) }

/-- An operation that raises leaves the table as it was. -/
def outboxStep (sys : System) : Action → Option System
  | .enqueue limits eventId payload tenantId now scan =>
      match enqueue py limits scan eventId payload tenantId now sys.table with
      | .error _ => some sys
      | .ok trimmed =>
          some { sys.trim limits now trimmed with enqueued := sys.enqueued ++ [eventId] }
  | .select flush timestamp scan =>
      if (sys.flushes flush).all (·.batch.isEmpty) then
        some
          { sys with
            flushes := Function.update sys.flushes flush
              (some { timestamp, batch := selectBatch scan timestamp sys.table }) }
      else none
  | .post flush answer =>
      match sys.flushes flush with
      | some ⟨timestamp, item :: rest, none⟩ =>
          some
            { sys with
              flushes := Function.update sys.flushes flush
                (some ⟨timestamp, item :: rest, some answer⟩)
              posts := sys.posts ++ [⟨flush, item.eventId, answer⟩] }
      | _ => none
  | .record flush limits jitter scan =>
      match sys.flushes flush with
      | some ⟨timestamp, item :: rest, some answer⟩ =>
          let trimmed := settle limits scan timestamp jitter item answer sys.table
          some
            { sys.trim limits timestamp trimmed with
              flushes := Function.update sys.flushes flush (some { timestamp, batch := rest })
              delivered := sys.delivered ++
                if answer.accepted then [⟨flush, item.eventId, answer⟩] else [] }
      | _ => none
  | .stop flush => some { sys with flushes := Function.update sys.flushes flush none }
  | .replayDeadLetters tenantId now =>
      match replayDeadLetters py tenantId now sys.table with
      | .error _ => some sys
      | .ok r => some { sys with table := r.1 }

end

/-! ## Conservation -/

/-- Where an enqueued event can be. -/
def System.Accounts (sys : System) (id : PyString) : Prop :=
  id ∈ sys.table.ids ∨ (∃ post ∈ sys.delivered, post.eventId = id) ∨
    ∃ d ∈ sys.discarded, d.row.eventId = id

/-- An answer that a flush is about to record is that of a post it has made. -/
def Answered (flushes : ℕ → Option Flush) (posts : List Post) : Prop :=
  ∀ flush timestamp item rest answer,
    flushes flush = some ⟨timestamp, item :: rest, some answer⟩ →
      ⟨flush, item.eventId, answer⟩ ∈ posts

/-- The invariant of runs. -/
structure System.Conserved (sys : System) : Prop where
  accounted : ∀ id ∈ sys.enqueued, sys.Accounts id
  delivered : ∀ post ∈ sys.delivered, post ∈ sys.posts ∧ post.answer.accepted
  discarded : ∀ d ∈ sys.discarded, d.Lawful
  answered : Answered sys.flushes sys.posts

theorem Answered.update {flushes : ℕ → Option Flush} {posts posts' : List Post} {flush : ℕ}
    {value : Option Flush} (h : Answered flushes posts) (hposts : ∀ post ∈ posts, post ∈ posts')
    (hnew : ∀ timestamp item rest answer, value = some ⟨timestamp, item :: rest, some answer⟩ →
      ⟨flush, item.eventId, answer⟩ ∈ posts') :
    Answered (Function.update flushes flush value) posts' := by
  intro flush' timestamp item rest answer hflush
  by_cases heq : flush' = flush
  · rw [heq, Function.update_self] at hflush
    rw [heq]
    exact hnew timestamp item rest answer hflush
  · rw [Function.update_of_ne heq] at hflush
    exact hposts _ (h flush' timestamp item rest answer hflush)

section
variable {py : Runtime} {sys sys' : System} {limits : Limits} {scan : Scan Row} {timestamp : ℕ}
  {table : Table} {id : PyString}

theorem newRow_eventId {eventId : PyString} {payload : Payload} {tenantId : Option PyString}
    {now : ℕ} {row : Row} (h : newRow py eventId payload tenantId now = .ok row) :
    row.eventId = eventId := by
  unfold newRow at h
  split at h
  · cases h
  · split at h
    · cases h
    · split_ifs at h
      split at h
      · cases h
      · cases h
        rfl

theorem ids_replay {tenantId : Option PyString} {now : ℕ} {r : Table × ℕ}
    (h : replayDeadLetters py tenantId now table = .ok r) : r.1.ids = table.ids := by
  unfold replayDeadLetters at h
  cases hscope : replayScope py tenantId with
  | error error =>
      rw [hscope] at h
      cases h
  | ok scope =>
      rw [hscope] at h
      cases h
      exact @Table.ids_update _ _ _ (revived_eventId now)

/-- A table that is trimmed for the one of the system keeps its ids accounted for. -/
theorem trim_accounts (h : id ∈ table.ids) :
    (sys.trim limits timestamp (enforceLimits limits scan timestamp table)).Accounts id := by
  rcases @ids_enforceLimits limits scan timestamp table id h with hkept | ⟨row, hrow, heq⟩
  · exact Or.inl hkept
  · refine Or.inr (Or.inr ⟨⟨row, limits, timestamp,
      (enforceLimits limits scan timestamp table).table⟩, ?_, heq⟩)
    exact List.mem_append_right _ (List.mem_map_of_mem hrow)

theorem trim_discarded (h : ∀ d ∈ sys.discarded, d.Lawful) :
    ∀ d ∈ (sys.trim limits timestamp (enforceLimits limits scan timestamp table)).discarded,
      d.Lawful := by
  intro d hd
  rcases List.mem_append.mp hd with hold | hnew
  · exact h d hold
  · obtain ⟨row, hrow, rfl⟩ := List.mem_map.mp hnew
    exact enforceLimits_lawful hrow

/-- What was deleted stays so, and what the trimmed table had is accounted for. -/
theorem trim_keeps (hids : ∀ id ∈ sys.table.ids, id ∈ table.ids) (h : sys.Accounts id) :
    (sys.trim limits timestamp (enforceLimits limits scan timestamp table)).Accounts id := by
  rcases h with hrow | hdelivered | ⟨d, hd, heq⟩
  · exact trim_accounts (hids id hrow)
  · exact Or.inr (Or.inl hdelivered)
  · exact Or.inr (Or.inr ⟨d, List.mem_append_left _ hd, heq⟩)

/-- What only delivers more accounts for as much. -/
theorem System.Accounts.extend (h : sys.Accounts id) (htable : sys'.table = sys.table)
    (hdelivered : ∀ post ∈ sys.delivered, post ∈ sys'.delivered)
    (hdiscarded : sys'.discarded = sys.discarded) : sys'.Accounts id := by
  rcases h with hrow | ⟨post, hpost, heq⟩ | hdiscard
  · exact Or.inl (htable ▸ hrow)
  · exact Or.inr (Or.inl ⟨post, hdelivered post hpost, heq⟩)
  · exact Or.inr (Or.inr (hdiscarded ▸ hdiscard))

/-- One step keeps the invariant. -/
theorem step_conserved (sys : System) (action : Action) (sys' : System) (h : sys.Conserved)
    (_ : unguarded sys action) (hstep : outboxStep py sys action = some sys') : sys'.Conserved := by
  cases action with
  | enqueue limits eventId payload tenantId now scan =>
      simp only [outboxStep, enqueue] at hstep
      cases hrow : newRow py eventId payload tenantId now with
      | error error =>
          rw [hrow] at hstep
          cases hstep
          exact h
      | ok row =>
          rw [hrow] at hstep
          cases hstep
          have hid : row.eventId = eventId := newRow_eventId hrow
          obtain ⟨hnew, hold⟩ := @Table.ids_insertOrIgnore sys.table row
          constructor
          · intro id hid'
            rcases List.mem_append.mp hid' with henqueued | hlast
            · exact trim_keeps hold (h.accounted id henqueued)
            · rw [List.mem_singleton.mp hlast, ← hid]
              exact (@trim_accounts sys limits scan now _ _ hnew).extend rfl (fun _ hp => hp) rfl
          · exact h.delivered
          · exact trim_discarded h.discarded
          · exact h.answered
  | select flush timestamp scan =>
      simp only [outboxStep] at hstep
      split at hstep
      · cases hstep
        refine ⟨fun id hid => (h.accounted id hid).extend rfl (fun _ hp => hp) rfl, h.delivered,
          h.discarded, h.answered.update (fun _ hp => hp) ?_⟩
        intro timestamp' item rest answer hflush
        have hanswer := congrArg Flush.answer (Option.some.inj hflush)
        cases hanswer
      · cases hstep
  | post flush answer =>
      simp only [outboxStep] at hstep
      split at hstep
      · next timestamp item rest hflush =>
          cases hstep
          refine ⟨fun id hid => (h.accounted id hid).extend rfl (fun _ hp => hp) rfl, ?_,
            h.discarded, ?_⟩
          · intro post hpost
            obtain ⟨hmem, haccepted⟩ := h.delivered post hpost
            exact ⟨List.mem_append_left _ hmem, haccepted⟩
          · refine h.answered.update (fun _ hp => List.mem_append_left _ hp) ?_
            intro timestamp' item' rest' answer' hflush'
            cases hflush'
            exact List.mem_append_right _ List.mem_cons_self
      · cases hstep
  | record flush limits jitter scan =>
      simp only [outboxStep] at hstep
      split at hstep
      · next timestamp item rest answer hflush =>
          cases hstep
          constructor
          · intro id hid
            have hmore : ∀ post ∈ sys.delivered, post ∈ sys.delivered ++
                if answer.accepted then [⟨flush, item.eventId, answer⟩] else [] :=
              fun post hpost => List.mem_append_left _ hpost
            rcases h.accounted id hid with hrow | hdelivered | hdiscard
            · rcases @ids_recordAnswer limits timestamp sys.table jitter item answer id hrow with
                hkept | ⟨haccepted, heq⟩
              · have htrimmed := @trim_accounts sys limits scan timestamp _ id hkept
                exact htrimmed.extend rfl hmore rfl
              · refine Or.inr (Or.inl ⟨⟨flush, item.eventId, answer⟩, ?_, heq⟩)
                rw [haccepted]
                exact List.mem_append_right _ List.mem_cons_self
            · obtain ⟨post, hpost, heq⟩ := hdelivered
              exact Or.inr (Or.inl ⟨post, hmore post hpost, heq⟩)
            · obtain ⟨d, hd, heq⟩ := hdiscard
              exact Or.inr (Or.inr ⟨d, List.mem_append_left _ hd, heq⟩)
          · intro post hpost
            rcases List.mem_append.mp hpost with hold | hnew
            · exact h.delivered post hold
            · cases haccepted : answer.accepted with
              | false =>
                  rw [haccepted] at hnew
                  cases hnew
              | true =>
                  rw [haccepted] at hnew
                  rw [List.mem_singleton.mp hnew]
                  exact ⟨h.answered flush timestamp item rest answer hflush, haccepted⟩
          · exact trim_discarded h.discarded
          · refine h.answered.update (fun _ hp => hp) ?_
            intro timestamp' item' rest' answer' hflush'
            cases hflush'
      · cases hstep
  | stop flush =>
      cases hstep
      refine ⟨fun id hid => (h.accounted id hid).extend rfl (fun _ hp => hp) rfl, h.delivered,
        h.discarded, h.answered.update (fun _ hp => hp) ?_⟩
      intro timestamp item rest answer hflush
      cases hflush
  | replayDeadLetters tenantId now =>
      simp only [outboxStep] at hstep
      cases hreplay : replayDeadLetters py tenantId now sys.table with
      | error error =>
          rw [hreplay] at hstep
          cases hstep
          exact h
      | ok r =>
          rw [hreplay] at hstep
          cases hstep
          refine ⟨fun id hid => ?_, h.delivered, h.discarded, h.answered⟩
          rcases h.accounted id hid with hrow | hrest
          · rw [← ids_replay hreplay] at hrow
            exact Or.inl hrow
          · exact Or.inr hrest

/-- What the step that ends a row's stay in the table is: an accepted answer to the
post of the flush that records it, or a trim. -/
theorem step_deletes {action : Action} (hstep : outboxStep py sys action = some sys')
    (hin : id ∈ sys.table.ids) (hout : id ∉ sys'.table.ids) :
    (∃ flush limits jitter scan timestamp item rest answer,
        action = .record flush limits jitter scan ∧
          sys.flushes flush = some ⟨timestamp, item :: rest, some answer⟩ ∧
            answer.accepted = true ∧ item.eventId = id) ∨
      ∃ d ∈ sys'.discarded, d.row.eventId = id := by
  have hends : ∀ {limits : Limits} {timestamp : ℕ} {scan : Scan Row} {table : Table},
      id ∈ table.ids → id ∉ (enforceLimits limits scan timestamp table).table.ids →
        ∃ d ∈ (sys.trim limits timestamp (enforceLimits limits scan timestamp table)).discarded,
          d.row.eventId = id := by
    intro limits timestamp scan table hmem hnot
    rcases ids_enforceLimits hmem with hkept | ⟨row, hrow, heq⟩
    · exact absurd hkept hnot
    · exact ⟨_, List.mem_append_right _ (List.mem_map_of_mem hrow), heq⟩
  cases action with
  | enqueue limits eventId payload tenantId now scan =>
      simp only [outboxStep, enqueue] at hstep
      cases hrow : newRow py eventId payload tenantId now with
      | error error =>
          rw [hrow] at hstep
          cases hstep
          exact absurd hin hout
      | ok row =>
          rw [hrow] at hstep
          cases hstep
          exact Or.inr (hends (Table.ids_insertOrIgnore.2 id hin) hout)
  | select flush timestamp scan =>
      simp only [outboxStep] at hstep
      split at hstep
      · cases hstep
        exact absurd hin hout
      · cases hstep
  | post flush answer =>
      simp only [outboxStep] at hstep
      split at hstep
      · cases hstep
        exact absurd hin hout
      · cases hstep
  | record flush limits jitter scan =>
      simp only [outboxStep] at hstep
      split at hstep
      · next timestamp item rest answer hflush =>
          cases hstep
          rcases @ids_recordAnswer limits timestamp sys.table jitter item answer id hin with
            hkept | ⟨haccepted, heq⟩
          · exact Or.inr (hends hkept hout)
          · exact Or.inl ⟨flush, limits, jitter, scan, timestamp, item, rest, answer, rfl, hflush,
              haccepted, heq⟩
      · cases hstep
  | stop flush =>
      cases hstep
      exact absurd hin hout
  | replayDeadLetters tenantId now =>
      simp only [outboxStep] at hstep
      cases hreplay : replayDeadLetters py tenantId now sys.table with
      | error error =>
          rw [hreplay] at hstep
          cases hstep
          exact absurd hin hout
      | ok r =>
          rw [hreplay] at hstep
          cases hstep
          rw [← ids_replay hreplay] at hin
          exact absurd hin hout

/-- In every interleaving an enqueued event is a single row, or was deleted on the
accepting answer to a post of it, or by a rule for dead letters; and the next step
deletes a row only when the flush that records it was answered so, or by a rule. -/
theorem outbox_conserved {actions : List Action}
    (h : Path (outboxStep py) unguarded {} actions sys) :
    (∀ id ∈ sys.enqueued,
      (∃! row, row ∈ sys.table.rows ∧ row.eventId = id) ∨
        (∃ post ∈ sys.delivered, post.eventId = id ∧ post ∈ sys.posts ∧ post.answer.accepted) ∨
          ∃ d ∈ sys.discarded, d.row.eventId = id ∧ d.Lawful) ∧
    ∀ action sys' id, outboxStep py sys action = some sys' →
      id ∈ sys.table.ids → id ∉ sys'.table.ids →
        (∃ flush limits jitter scan timestamp item rest answer,
          action = .record flush limits jitter scan ∧
            sys.flushes flush = some ⟨timestamp, item :: rest, some answer⟩ ∧
              answer.accepted = true ∧ item.eventId = id) ∨
          ∃ d ∈ sys'.discarded, d.row.eventId = id ∧ d.Lawful := by
  have hempty : ({} : System).Conserved := by
    constructor
    · intro id hid
      cases hid
    · intro post hpost
      cases hpost
    · intro d hd
      cases hd
    · intro flush timestamp item rest answer hflush
      cases hflush
  have hinv := h.invariant step_conserved hempty
  constructor
  · intro id hid
    rcases hinv.accounted id hid with hrow | ⟨post, hpost, heq⟩ | ⟨d, hd, heq⟩
    · obtain ⟨row, hrow, heq⟩ := Table.mem_ids.mp hrow
      refine Or.inl ⟨row, ⟨hrow, heq⟩, fun other hother => ?_⟩
      exact Table.row_unique hother.1 hrow (hother.2.trans heq.symm)
    · exact Or.inr (Or.inl ⟨post, hpost, heq, hinv.delivered post hpost⟩)
    · exact Or.inr (Or.inr ⟨d, hd, heq, hinv.discarded d hd⟩)
  · intro action sys' id hstep hin hout
    have hafter := step_conserved sys action sys' hinv trivial hstep
    rcases step_deletes hstep hin hout with hrecord | ⟨d, hd, heq⟩
    · exact Or.inl hrecord
    · exact Or.inr ⟨d, hd, heq, hafter.discarded d hd⟩

end

/-- One flush reads an event that dies and is replayed while it is posted; the other
process has posted it by then. -/
def replayedWhilePosted : List Action :=
  [.enqueue narrow (.ofString "a") [1] none 0 .inOrder, .select 0 1 .inOrder,
    .select 1 1 .inOrder, .post 1 ⟨401, "http 401"⟩, .record 1 narrow 0 .inOrder,
    .replayDeadLetters none 2, .post 0 ⟨0, "URLError"⟩, .record 0 narrow 0 .inOrder]

theorem outbox_conserved_replayed :
    ∃ sys, execute (outboxStep plainRuntime) {} replayedWhilePosted = some sys ∧
      ∃! row, row ∈ sys.table.rows ∧ row.eventId = .ofString "a" := by
  have hrun : ∃ sys, execute (outboxStep plainRuntime) {} replayedWhilePosted = some sys ∧
      .ofString "a" ∈ sys.enqueued ∧ sys.delivered = [] ∧ sys.discarded = [] :=
    ⟨_, rfl, List.mem_cons_self, rfl, rfl⟩
  obtain ⟨sys, hsys, henqueued, hdelivered, hdiscarded⟩ := hrun
  refine ⟨sys, hsys, ?_⟩
  rcases (outbox_conserved (Path.of_execute hsys)).1 _ henqueued with hrow | ⟨post, hpost, -⟩ |
    ⟨d, hd, -⟩
  · exact hrow
  · rw [hdelivered] at hpost
    cases hpost
  · rw [hdiscarded] at hd
    cases hd

end BlackMonolith.MonolithEvents
