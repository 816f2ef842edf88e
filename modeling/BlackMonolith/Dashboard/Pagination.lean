import BlackMonolith.Dashboard.IncidentQueue

/-!
# Following the cursor through the queue

The cursor of a page stands for its last row, with the time of receipt rounded
to whole milliseconds. The pages are the queue exactly when that rounding passes
over none of the rows of the same severity, at the end of every page.
-/
namespace BlackMonolith.Dashboard
open Library

/-- Following `next_cursor` from the first page ends, and gives every row the
filters select once, in the order of the queue. -/
def Ledger.Lossless (search : TextSearch) (ledger : Ledger) (query : IncidentQuery) : Prop :=
  ∃ pages, ledger.Pages search query none pages ∧
    pages.flatMap (·.incidents) = (ledger.queue search query).map ledger.toIncident

/-- The time of the row in whole milliseconds is one a cursor may carry. -/
def EventRow.CursorAccepted (row : EventRow) : Prop :=
  1 ≤ toMs row.receivedAt ∧ toMs row.receivedAt ≤ maxSafeInteger

instance (row : EventRow) : Decidable row.CursorAccepted := inferInstanceAs (Decidable (_ ∧ _))

/-- The rounded time of a row separates the same rows of its severity as the
time itself. -/
def RoundsWithin (rows : List EventRow) (row : EventRow) : Prop :=
  ∀ other ∈ rows, other.event.severity.rank = row.event.severity.rank →
    (receipt other.receivedAt other.event.eventId <
        receipt (toMs row.receivedAt * 1000) row.event.eventId ↔
      receipt other.receivedAt other.event.eventId <
        receipt row.receivedAt row.event.eventId)

/-! ## The queue -/

theorem uuidKey_inj {a b : JsString} : uuidKey a = uuidKey b ↔ a = b := by
  constructor
  · intro h
    have hinj : Function.Injective UInt16.toNat := fun x y hxy => UInt16.toNat_inj.mp hxy
    cases a
    cases b
    exact congrArg JsString.mk (hinj.list_map h)
  · exact fun h => congrArg uuidKey h

theorem queueKey_inj {a b : EventRow} (h : queueKey a = queueKey b) :
    a.event.eventId = b.event.eventId := by
  have hreceipt := congrArg (fun k => (ofLex k).2) h
  have hid := congrArg (fun r : Receiptᵒᵈ => (ofLex (OrderDual.ofDual r)).2) hreceipt
  exact uuidKey_inj.mp hid

section
variable (search : TextSearch) (ledger : Ledger) (query : IncidentQuery)

theorem Ledger.nodup_ids : (ledger.events.values.map (·.event.eventId)).Nodup := by
  have hkeys : ledger.events.values.map (·.event.eventId) = ledger.events.keys := by
    unfold InsertionMap.values InsertionMap.keys
    rw [List.map_map]
    apply List.map_congr_left
    intro entry hentry
    exact ledger.keyed entry.1 entry.2 (InsertionMap.get?_eq_some_iff.mpr hentry)
  rw [hkeys]
  exact ledger.events.nodup

/-- The rows of the table that a condition selects, sorted by their keys. -/
theorem Ledger.sorted (p : EventRow → Bool) :
    ((ledger.events.values.filter p).insertionSort inQueueOrder).Pairwise
      fun a b => queueKey a < queueKey b := by
  have hle : ((ledger.events.values.filter p).insertionSort inQueueOrder).Pairwise inQueueOrder :=
    List.pairwise_insertionSort _ _
  have hids : ((ledger.events.values.filter p).insertionSort inQueueOrder).Pairwise
      fun a b => a.event.eventId ≠ b.event.eventId := by
    have hfilter := (List.pairwise_map.mp ledger.nodup_ids).filter p
    exact hfilter.perm (List.perm_insertionSort _ _).symm fun h => h.symm
  exact hle.imp₂ (fun a b hab hne => lt_of_le_of_ne hab fun heq => hne (queueKey_inj heq)) hids

theorem Ledger.queue_sorted :
    (ledger.queue search query).Pairwise fun a b => queueKey a < queueKey b :=
  ledger.sorted _

/-- Selecting by a cursor keeps the rows of the queue that follow it. -/
theorem Ledger.selectRows_some (cursor : IncidentCursor) :
    ledger.selectRows search query (some cursor) =
      (ledger.queue search query).filter cursor.precedes := by
  have hkeys : ∀ {a b : EventRow}, inQueueOrder a b → inQueueOrder b a →
      a ∈ ledger.events.values → b ∈ ledger.events.values → a = b := by
    intro a b hab hba ha hb
    exact List.inj_on_of_nodup_map ledger.nodup_ids ha hb (queueKey_inj (le_antisymm hab hba))
  have hmem : ∀ (p : EventRow → Bool) (row : EventRow),
      row ∈ (ledger.events.values.filter p).insertionSort inQueueOrder →
        row ∈ ledger.events.values := by
    intro p row hrow
    rw [List.mem_insertionSort] at hrow
    exact List.mem_of_mem_filter hrow
  apply @List.Perm.eq_of_pairwise _ inQueueOrder
  · intro a b ha hb hab hba
    exact hkeys hab hba (hmem _ a ha) (hmem _ b (List.mem_of_mem_filter hb))
  · exact List.pairwise_insertionSort _ _
  · exact (List.pairwise_insertionSort _ _).filter _
  · refine (List.perm_insertionSort _ _).trans ?_
    have hsplit : ledger.events.values.filter (fun row =>
        selects search query row (ledger.triage.get? row.event.eventId) &&
          (some cursor).all (·.precedes row)) =
        (ledger.events.values.filter fun row =>
          selects search query row (ledger.triage.get? row.event.eventId)).filter
            cursor.precedes := by
      rw [List.filter_filter]
      apply List.filter_congr
      intro row _
      rw [Option.all_some, Bool.and_comm]
    rw [hsplit]
    exact ((List.perm_insertionSort _ _).filter _).symm

theorem Ledger.selectRows_none :
    ledger.selectRows search query none = ledger.queue search query := by
  unfold Ledger.selectRows Ledger.queue
  simp only [Option.all_none, Bool.and_true]

end

/-! ## Cursors -/

/-- The place of a cursor in the queue. -/
def IncidentCursor.key (cursor : IncidentCursor) : QueueKey :=
  toLex (cursor.severityRank,
    OrderDual.toDual (receipt (cursor.receivedMs * 1000) cursor.eventId))

theorem IncidentCursor.precedes_eq (cursor : IncidentCursor) (row : EventRow) :
    cursor.precedes row = decide (cursor.key < queueKey row) := by
  unfold IncidentCursor.precedes IncidentCursor.key queueKey
  rw [Bool.eq_iff_iff, decide_eq_true_eq, Prod.Lex.toLex_lt_toLex, OrderDual.toDual_lt_toDual,
    Bool.or_eq_true, Bool.and_eq_true, decide_eq_true_eq, decide_eq_true_eq, decide_eq_true_eq,
    @eq_comm _ row.event.severity.rank]

theorem Ledger.selectRows_cursor (search : TextSearch) (ledger : Ledger) (query : IncidentQuery)
    (cursor : IncidentCursor) :
    ledger.selectRows search query (some cursor) =
      (ledger.queue search query).filter fun row => cursor.key < queueKey row := by
  rw [Ledger.selectRows_some]
  exact congrArg (List.filter · _) (funext cursor.precedes_eq)

/-- The cursor of a row. -/
def Ledger.cursorOf (ledger : Ledger) (row : EventRow) : IncidentCursor :=
  encodeIncidentCursor (ledger.toIncident row)

theorem Ledger.key_cursorOf (ledger : Ledger) (row : EventRow) :
    (ledger.cursorOf row).key =
      toLex (row.event.severity.rank,
        OrderDual.toDual (receipt (toMs row.receivedAt * 1000) row.event.eventId)) := rfl

theorem Ledger.decode_cursorOf (ledger : Ledger) {row : EventRow}
    (hrow : isUuid row.event.eventId) :
    decodeIncidentCursor (ledger.cursorOf row) =
      if row.CursorAccepted then .ok (ledger.cursorOf row)
      else .error "cursor is invalid or expired" := by
  have hrank : ¬ 2 < (ledger.cursorOf row).severityRank := by
    change ¬ 2 < row.event.severity.rank
    cases row.event.severity <;> decide
  have huuid : ¬ isUuid (ledger.cursorOf row).eventId = false := by
    change ¬ isUuid row.event.eventId = false
    rw [hrow]
    decide
  unfold decodeIncidentCursor
  by_cases h : row.CursorAccepted
  · have hlow : 1 ≤ (ledger.cursorOf row).receivedMs := h.1
    have hhigh : (ledger.cursorOf row).receivedMs ≤ maxSafeInteger := h.2
    rw [if_pos h, if_neg]
    rintro (hbad | hbad | hbad | hbad)
    · exact hrank hbad
    · omega
    · omega
    · exact huuid hbad
  · have hbad : ¬ (1 ≤ (ledger.cursorOf row).receivedMs ∧
      (ledger.cursorOf row).receivedMs ≤ maxSafeInteger) := h
    rw [if_neg h, if_pos]
    omega

/-! ## Pages -/

section
variable {search : TextSearch} {ledger : Ledger} {query : IncidentQuery}

theorem IncidentQuery.pageLimit_pos : 0 < query.pageLimit := by
  unfold IncidentQuery.pageLimit
  omega

theorem Ledger.isUuid_of_mem {row : EventRow} (h : row ∈ ledger.queue search query) :
    isUuid row.event.eventId := by
  unfold Ledger.queue at h
  rw [List.mem_insertionSort] at h
  obtain ⟨id, hid⟩ := InsertionMap.mem_values_iff.mp (List.mem_of_mem_filter h)
  rw [ledger.keyed id row hid]
  exact ledger.uuids id row hid

variable (search ledger query)

/-- The rows from which the page of a row's cursor is taken. -/
def Ledger.resume (row : EventRow) : Option (List EventRow) :=
  if row.CursorAccepted then
    some ((ledger.queue search query).filter fun other =>
      (ledger.cursorOf row).key < queueKey other)
  else none

/-- A page without a cursor, or with the cursor of a row that is accepted. -/
theorem Ledger.listIncidents_ok {cursor : Option IncidentCursor}
    (hcursor : cursor.mapM decodeIncidentCursor = .ok cursor) :
    ledger.listIncidents search query cursor =
      .ok
        { incidents :=
            ((ledger.selectRows search query cursor).take query.pageLimit).map ledger.toIncident
          nextCursor :=
            if query.pageLimit < (ledger.selectRows search query cursor).length then
              (ledger.selectRows search query cursor)[query.pageLimit - 1]?.map ledger.cursorOf
            else none } := by
  have hpos := @IncidentQuery.pageLimit_pos query
  unfold Ledger.listIncidents
  rw [hcursor]
  simp only [bind, Except.bind, List.length_take, List.take_take, List.getLast?_map,
    Nat.min_eq_left (Nat.le_succ query.pageLimit)]
  congr 2
  by_cases hmore : query.pageLimit < (ledger.selectRows search query cursor).length
  · have hlast : (List.take query.pageLimit (ledger.selectRows search query cursor)).getLast? =
        (ledger.selectRows search query cursor)[query.pageLimit - 1]? := by
      rw [List.getLast?_eq_getElem?, List.length_take, Nat.min_eq_left hmore.le,
        List.getElem?_take_of_lt (by omega)]
    rw [if_pos hmore, if_pos (by omega), hlast, Option.map_map]
    rfl
  · rw [if_neg hmore, if_neg (by omega)]

/-- The pages from a cursor that selects some rows are those of a visit to them. -/
theorem Ledger.pages_of_visit {rows : List EventRow} {visited : List (List EventRow)}
    (hvisit : Keyset.Visit query.pageLimit (ledger.resume search query) rows visited)
    {cursor : Option IncidentCursor} (hcursor : cursor.mapM decodeIncidentCursor = .ok cursor)
    (hrows : ledger.selectRows search query cursor = rows)
    (hmem : ∀ row ∈ rows, row ∈ ledger.queue search query) :
    ∃ pages, ledger.Pages search query cursor pages ∧
      pages.flatMap (·.incidents) = visited.flatten.map ledger.toIncident := by
  have hpage := ledger.listIncidents_ok search query hcursor
  rw [hrows] at hpage
  induction hvisit generalizing cursor with
  | @last rows hle =>
      rw [if_neg (Nat.not_lt.mpr hle), List.take_of_length_le hle] at hpage
      refine ⟨_, .last hpage rfl, ?_⟩
      rw [List.flatMap_singleton, List.flatten_singleton]
  | @more rows rest row visited hlt hrow hresume _ ih =>
      rw [if_pos hlt, hrow, Option.map_some] at hpage
      have hqueue := hmem row (List.mem_of_getElem? hrow)
      unfold Ledger.resume at hresume
      split_ifs at hresume with haccepted
      cases hresume
      have hdecode := ledger.decode_cursorOf (ledger.isUuid_of_mem hqueue)
      rw [if_pos haccepted] at hdecode
      have hnext : (some (ledger.cursorOf row)).mapM decodeIncidentCursor =
          .ok (some (ledger.cursorOf row)) := by
        rw [Option.mapM_some, hdecode]
        rfl
      have hselect := ledger.selectRows_cursor search query (ledger.cursorOf row)
      have hlater := ledger.listIncidents_ok search query hnext
      rw [hselect] at hlater
      obtain ⟨pages, hpages, hincidents⟩ := ih hnext hselect
        (fun other hother => List.mem_of_mem_filter hother) hlater
      refine ⟨_, .more hpage rfl hpages, ?_⟩
      rw [List.flatMap_cons, hincidents, List.flatten_cons, List.map_append]

/-- Following the cursor visits the rows page by page. -/
theorem Ledger.visit_of_pages {cursor : Option IncidentCursor} {pages : List IncidentPage}
    (hpages : ledger.Pages search query cursor pages)
    (hcursor : cursor.mapM decodeIncidentCursor = .ok cursor)
    (hmem : ∀ row ∈ ledger.selectRows search query cursor, row ∈ ledger.queue search query) :
    ∃ visited, Keyset.Visit query.pageLimit (ledger.resume search query)
        (ledger.selectRows search query cursor) visited ∧
      visited.flatten.map ledger.toIncident = pages.flatMap (·.incidents) := by
  induction hpages with
  | @last cursor page hpage hnone =>
      rw [ledger.listIncidents_ok search query hcursor] at hpage
      cases hpage
      by_cases hlt : query.pageLimit < (ledger.selectRows search query cursor).length
      · dsimp only at hnone
        rw [if_pos hlt, Option.map_eq_none_iff, List.getElem?_eq_none_iff] at hnone
        have hpos := @IncidentQuery.pageLimit_pos query
        omega
      · have hle := Nat.le_of_not_lt hlt
        refine ⟨_, .last hle, ?_⟩
        rw [List.flatMap_singleton, List.flatten_singleton, List.take_of_length_le hle]
  | @more cursor page next pages hpage hsome hlater ih =>
      rw [ledger.listIncidents_ok search query hcursor] at hpage
      cases hpage
      dsimp only at hsome
      split_ifs at hsome with hlt
      obtain ⟨row, hrow, hnext⟩ := Option.map_eq_some_iff.mp hsome
      subst hnext
      have hqueue := hmem row (List.mem_of_getElem? hrow)
      have hdecode := ledger.decode_cursorOf (ledger.isUuid_of_mem hqueue)
      by_cases haccepted : row.CursorAccepted
      · rw [if_pos haccepted] at hdecode
        have hselect := ledger.selectRows_cursor search query (ledger.cursorOf row)
        have hok : (some (ledger.cursorOf row)).mapM decodeIncidentCursor =
            .ok (some (ledger.cursorOf row)) := by
          rw [Option.mapM_some, hdecode]
          rfl
        obtain ⟨visited, hvisit, hincidents⟩ := ih hok (by
          rw [hselect]
          exact fun other hother => List.mem_of_mem_filter hother)
        have hresume : ledger.resume search query row =
            some (ledger.selectRows search query (some (ledger.cursorOf row))) := by
          rw [Ledger.resume, if_pos haccepted, hselect]
        refine ⟨_, .more hlt hrow hresume hvisit, ?_⟩
        rw [List.flatMap_cons, List.flatten_cons, List.map_append, hincidents]
      · -- The next page is refused, so there are no further pages.
        rw [if_neg haccepted] at hdecode
        have hrefused : ledger.listIncidents search query (some (ledger.cursorOf row)) =
            .error "cursor is invalid or expired" := by
          unfold Ledger.listIncidents
          rw [Option.mapM_some, hdecode]
          rfl
        cases hlater with
        | last hpage _ =>
            rw [hrefused] at hpage
            cases hpage
        | more hpage _ _ =>
            rw [hrefused] at hpage
            cases hpage

/-- A cursor selects the rows after its own when it is accepted and its rounded
time passes over none of them. -/
theorem Ledger.resume_eq_some_iff {i : ℕ} {row : EventRow}
    (hrow : (ledger.queue search query)[i]? = some row) :
    ledger.resume search query row = some ((ledger.queue search query).drop (i + 1)) ↔
      row.CursorAccepted ∧ RoundsWithin (ledger.queue search query) row := by
  unfold Ledger.resume
  by_cases haccepted : row.CursorAccepted
  · rw [if_pos haccepted, Option.some.injEq,
      Keyset.filter_eq_drop_iff (ledger.queue_sorted search query) hrow, and_iff_right haccepted]
    unfold RoundsWithin
    apply forall₂_congr
    intro other _
    rw [Ledger.key_cursorOf, queueKey, queueKey, Prod.Lex.toLex_lt_toLex, Prod.Lex.toLex_lt_toLex,
      OrderDual.toDual_lt_toDual, OrderDual.toDual_lt_toDual]
    dsimp only
    constructor
    · intro h hrank
      simpa only [hrank, lt_irrefl, false_or, true_and] using h
    · intro h
      by_cases hrank : other.event.severity.rank = row.event.severity.rank
      · rw [h hrank]
      · rw [@eq_comm _ row.event.severity.rank]
        simp only [hrank, false_and]
  · rw [if_neg haccepted]
    constructor
    · intro h
      cases h
    · exact fun h => absurd h.1 haccepted

theorem Ledger.nodup_incidents : ((ledger.queue search query).map ledger.toIncident).Nodup := by
  apply List.Nodup.of_map (fun incident : Incident => incident.event.eventId)
  rw [List.map_map]
  have hids : (ledger.queue search query).Pairwise
      fun a b => a.event.eventId ≠ b.event.eventId := by
    have hfilter := (List.pairwise_map.mp ledger.nodup_ids).filter fun row =>
      selects search query row (ledger.triage.get? row.event.eventId)
    exact hfilter.perm (List.perm_insertionSort _ _).symm fun h => h.symm
  exact List.pairwise_map.mpr hids

theorem Ledger.lossless_iff_visit :
    ledger.Lossless search query ↔
      ∃ visited, Keyset.Visit query.pageLimit (ledger.resume search query)
          (ledger.queue search query) visited ∧
        visited.flatten.map ledger.toIncident =
          (ledger.queue search query).map ledger.toIncident := by
  have hall := ledger.selectRows_none search query
  have hmem : ∀ row ∈ ledger.selectRows search query none, row ∈ ledger.queue search query := by
    rw [hall]
    exact fun row hrow => hrow
  constructor
  · intro h
    obtain ⟨pages, hpages, hincidents⟩ := h
    obtain ⟨visited, hvisit, hvisited⟩ := ledger.visit_of_pages search query hpages rfl hmem
    rw [hall] at hvisit
    exact ⟨visited, hvisit, hvisited.trans hincidents⟩
  · intro h
    obtain ⟨visited, hvisit, hvisited⟩ := h
    obtain ⟨pages, hpages, hincidents⟩ :=
      ledger.pages_of_visit search query hvisit rfl hall fun row hrow => hrow
    exact ⟨pages, hpages, hincidents.trans hvisited⟩

/-- Pagination is lossless exactly when no page but the last ends with a row whose
time, rounded to milliseconds, passes over rows of its severity. -/
theorem lossless_iff :
    ledger.Lossless search query ↔
      ∀ n row, 0 < n → n * query.pageLimit < (ledger.queue search query).length →
        (ledger.queue search query)[n * query.pageLimit - 1]? = some row →
        row.CursorAccepted ∧ RoundsWithin (ledger.queue search query) row := by
  have hpos := @IncidentQuery.pageLimit_pos query
  have hsuffix : ∀ row rest, ledger.resume search query row = some rest →
      rest <:+ ledger.queue search query := by
    intro row rest h
    unfold Ledger.resume at h
    split_ifs at h
    cases h
    exact Keyset.filter_suffix (ledger.queue_sorted search query) _
  rw [Ledger.lossless_iff_visit,
    Keyset.visit_lossless_iff hpos (ledger.nodup_incidents search query) hsuffix]
  apply forall₅_congr
  intro n row hn _ hrow
  have hat : 0 < n * query.pageLimit := Nat.mul_pos hn hpos
  rw [← ledger.resume_eq_some_iff search query hrow, Nat.sub_add_cancel hat]

end

/-! ## Two events of one transaction -/

/-- An event of the default tenant, received 300 microseconds past a millisecond. -/
def batchRow (id : String) : EventRow where
  receivedAt := 1754000000000300
  event :=
    { eventId := .ofString id, schemaVersion := 2, timestampMs := 1754000000000
      receivedMs := none, moduleName := .mcpShield, eventType := .ofString "tool_poisoning"
      severity := .critical, details := [], tenantId := defaultTenant, agentId := none
      sessionId := none, traceId := none, correlationId := none, resourceType := none
      resourceId := none, outcome := none, policyVersion := none, source := .ofString "module" }

def firstId : String := "00000000-0000-4000-8000-000000000001"
def secondId : String := "00000000-0000-4000-8000-000000000002"

def batchTable : EventTable :=
  (InsertionMap.empty.set (.ofString firstId) (batchRow firstId)).set (.ofString secondId)
    (batchRow secondId)

theorem batchTable_get? {id : JsString} {row : EventRow} (h : batchTable.get? id = some row) :
    (id = .ofString firstId ∧ row = batchRow firstId) ∨
      (id = .ofString secondId ∧ row = batchRow secondId) := by
  unfold batchTable at h
  rw [InsertionMap.get?_set, InsertionMap.get?_set, InsertionMap.get?_empty] at h
  split_ifs at h with hsecond hfirst
  · exact Or.inr ⟨hsecond.symm, (Option.some.inj h).symm⟩
  · exact Or.inl ⟨hfirst.symm, (Option.some.inj h).symm⟩

def batchLedger : Ledger where
  events := batchTable
  triage := .empty
  keyed := by
    intro id row h
    obtain ⟨rfl, rfl⟩ | ⟨rfl, rfl⟩ := batchTable_get? h <;> rfl
  uuids := by
    intro id row h
    obtain ⟨rfl, rfl⟩ | ⟨rfl, rfl⟩ := batchTable_get? h <;> decide +kernel

def noSearch : TextSearch := ⟨fun _ _ => false, fun _ _ => false⟩
def onePerPage : IncidentQuery := { tenantId := defaultTenant, limit := some 1 }

/-- What follows a page is decided by its cursor. -/
theorem Ledger.Pages.after {search : TextSearch} {ledger : Ledger} {query : IncidentQuery}
    {cursor : Option IncidentCursor} {page : IncidentPage} {pages : List IncidentPage}
    (h : ledger.Pages search query cursor pages)
    (hpage : ledger.listIncidents search query cursor = .ok page) :
    match page.nextCursor with
    | none => pages = [page]
    | some next => ∃ rest, pages = page :: rest ∧ ledger.Pages search query (some next) rest := by
  cases h with
  | last hlast hnone =>
      rw [hpage] at hlast
      cases hlast
      rw [hnone]
  | more hmore hsome hrest =>
      rw [hpage] at hmore
      cases hmore
      rw [hsome]
      exact ⟨_, rfl, hrest⟩

/-- The cursor of the first page is earlier than both events, so the second is
on no page. -/
theorem second_event_lost : ¬ batchLedger.Lossless noSearch onePerPage := by
  intro h
  obtain ⟨pages, hpages, hall⟩ := h
  obtain ⟨page, hpage, hone, hnext⟩ : ∃ page,
      batchLedger.listIncidents noSearch onePerPage none = .ok page ∧ page.incidents.length = 1 ∧
        page.nextCursor = some ⟨0, 1754000000000, .ofString secondId⟩ := ⟨_, rfl, rfl, rfl⟩
  obtain ⟨last, hlast, hempty, hnone⟩ : ∃ page,
      batchLedger.listIncidents noSearch onePerPage
          (some ⟨0, 1754000000000, .ofString secondId⟩) = .ok page ∧
        page.incidents.length = 0 ∧ page.nextCursor = none := ⟨_, rfl, rfl, rfl⟩
  have hqueue : (batchLedger.queue noSearch onePerPage).length = 2 := rfl
  have hafter := hpages.after hpage
  rw [hnext] at hafter
  obtain ⟨rest, rfl, hrest⟩ := hafter
  have hend := hrest.after hlast
  rw [hnone] at hend
  subst hend
  have hlength := congrArg List.length hall
  rw [List.flatMap_cons, List.flatMap_singleton, List.length_append, List.length_map, hone, hempty,
    hqueue] at hlength
  omega

end BlackMonolith.Dashboard
