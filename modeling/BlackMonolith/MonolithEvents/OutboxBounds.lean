import BlackMonolith.MonolithEvents.EventOutbox

/-!
# The bounds of the event outbox

Every transaction that adds or settles rows ends by trimming the table, and so
leaves it within its bounds. A replay does not trim: the bounds hold after every
operation of a run just when each replay finds room for the rows it moves.
-/
namespace BlackMonolith.MonolithEvents
open Library

/-! ## Transactions of the table -/

namespace Table
variable {table : Table} {p : Row → Bool} {f : Row → Row} {hf : ∀ r, (f r).eventId = r.eventId}
  {status : Status} {row : Row}

theorem mem_delete : row ∈ (table.delete p).rows ↔ row ∈ table.rows ∧ p row = false := by
  unfold delete
  rw [List.mem_filter, Bool.not_eq_true']

theorem withStatus_delete :
    (table.delete p).withStatus status = (table.withStatus status).filter (!p ·) := by
  unfold withStatus delete
  rw [List.filter_filter, List.filter_filter]
  refine List.filter_congr fun r _ => ?_
  rw [Bool.and_comm]

theorem withStatus_delete_le :
    ((table.delete p).withStatus status).length ≤ (table.withStatus status).length := by
  rw [withStatus_delete]
  exact List.length_filter_le _ _

theorem length_withStatus_update : ((table.update p f hf).withStatus status).length =
    table.rows.countP fun r => (if p r then f r else r).status = status := by
  unfold withStatus update
  rw [← List.countP_eq_length_filter, List.countP_map]
  rfl

theorem nodup_withStatus (table : Table) (status : Status) :
    ((table.withStatus status).map Row.eventId).Nodup :=
  List.Nodup.sublist (List.filter_sublist.map _) table.unique

end Table

/-! ## Trimming -/

structure Bounded (limits : Limits) (table : Table) : Prop where
  pending : (table.withStatus .pending).length ≤ limits.maxPending
  dead : (table.withStatus .dead).length ≤ limits.maxDead

section
variable {limits : Limits} {scan : Scan Row} {timestamp : ℕ} {table : Table}

theorem evictPending_pending :
    ((evictPending limits scan timestamp table).withStatus .pending).length ≤
      limits.maxPending := by
  unfold evictPending
  dsimp only
  rw [Table.length_withStatus_update]
  set evicted := (scan.oldest Row.createdMs
    ((table.withStatus .pending).length - limits.maxPending) (table.withStatus .pending)).map
      Row.eventId with hevicted
  have hcount : (table.rows.countP fun r =>
      (if r.eventId ∈ evicted then displaced timestamp r else r).status = .pending) =
      ((table.withStatus .pending).filter fun r => r.eventId ∉ evicted).length := by
    unfold Table.withStatus
    rw [List.filter_filter, ← List.countP_eq_length_filter]
    refine List.countP_congr fun r _ => ?_
    by_cases hmem : r.eventId ∈ evicted
    · simp [hmem, displaced]
    · simp [hmem]
  have hleft := @Scan.length_left _ _ scan Row.createdMs
    ((table.withStatus .pending).length - limits.maxPending) (table.withStatus .pending) _ _
    (table.nodup_withStatus .pending)
  simp only [decide_eq_true_eq] at hcount ⊢
  rw [hcount, hevicted, hleft]
  omega

theorem surplusDead_dead :
    ((table.delete (·.eventId ∈ surplusDead limits scan table)).withStatus .dead).length ≤
      limits.maxDead := by
  rw [Table.withStatus_delete]
  have hleft := @Scan.length_left _ _ scan Row.updatedMs
    ((table.withStatus .dead).length - limits.maxDead) (table.withStatus .dead) _ _
    (table.nodup_withStatus .dead)
  unfold surplusDead
  simp only [decide_not] at hleft
  rw [hleft]
  omega

/-- Whatever the table was. -/
theorem enforceLimits_bounded : Bounded limits (enforceLimits limits scan timestamp table).table := by
  constructor
  · exact Nat.le_trans Table.withStatus_delete_le evictPending_pending
  · exact surplusDead_dead

end

/-! ## Operations -/

inductive Operation
  | enqueue (eventId : PyString) (payload : Payload) (tenantId : Option PyString) (now : ℕ)
      (scan : Scan Row)
  | flushOnce (timestamp : ℕ) (scan : Scan Row) (post : ℕ → Answer × ℕ)
  | replayDeadLetters (tenantId : Option PyString) (now : ℕ)

section
variable (py : Runtime) (limits : Limits)

/-- The table after an operation; one that raises leaves it as it was. -/
def operate (table : Table) : Operation → Table
  | .enqueue eventId payload tenantId now scan =>
      match enqueue py limits scan eventId payload tenantId now table with
      | .error _ => table
      | .ok trimmed => trimmed.table
  | .flushOnce timestamp scan post => flushOnce limits scan timestamp post table
  | .replayDeadLetters tenantId now =>
      match replayDeadLetters py tenantId now table with
      | .error _ => table
      | .ok r => r.1

/-- A replay has room for the rows it moves. -/
def Fits (table : Table) : Operation → Prop
  | .replayDeadLetters tenantId _ => ∀ scope, replayScope py tenantId = .ok scope →
      (table.withStatus .pending).length + (table.rows.filter (replayed scope)).length ≤
        limits.maxPending
  | .enqueue _ _ _ _ _ | .flushOnce _ _ _ => True

/-- The table of a new outbox after some operations. -/
def tableAfter (operations : List Operation) : Table := operations.foldl (operate py limits) {}

end

section
variable {py : Runtime} {limits : Limits} {table : Table}

theorem settle_bounded {scan : Scan Row} {timestamp jitter : ℕ} {item : Batched} {answer : Answer} :
    Bounded limits (settle limits scan timestamp jitter item answer table).table :=
  enforceLimits_bounded

theorem flushOnce_bounded {scan : Scan Row} {timestamp : ℕ} {post : ℕ → Answer × ℕ}
    (h : Bounded limits table) : Bounded limits (flushOnce limits scan timestamp post table) := by
  unfold flushOnce
  generalize (selectBatch scan timestamp table).zipIdx = batch
  induction batch generalizing table with
  | nil => exact h
  | cons item batch ih => exact ih settle_bounded

/-- What a replay does to the two counts. -/
theorem replay_counts {scope : Option PyString} {f : Row → Row}
    {hf : ∀ r, (f r).eventId = r.eventId} (hstatus : ∀ r, (f r).status = .pending) :
    ((table.update (replayed scope) f hf).withStatus .pending).length =
        (table.withStatus .pending).length + (table.rows.filter (replayed scope)).length ∧
      ((table.update (replayed scope) f hf).withStatus .dead).length ≤
        (table.withStatus .dead).length := by
  rw [Table.length_withStatus_update, Table.length_withStatus_update]
  unfold Table.withStatus
  simp only [← List.countP_eq_length_filter]
  constructor
  · induction table.rows with
    | nil => rfl
    | cons r rows ih =>
        simp only [List.countP_cons, ih]
        cases hreplayed : replayed scope r with
        | true =>
            have hdead : r.status = .dead := by
              unfold replayed at hreplayed
              simp only [Bool.and_eq_true, decide_eq_true_eq] at hreplayed
              exact hreplayed.1
            simp only [if_true, hstatus, hdead]
            simp
            omega
        | false =>
            simp only [Bool.false_eq_true, if_false]
            omega
  · refine List.countP_mono_left fun r _ h => ?_
    cases hreplayed : replayed scope r with
    | true =>
        simp only [hreplayed, if_true, hstatus] at h
        cases h
    | false =>
        simpa only [hreplayed, Bool.false_eq_true, if_false] using h

/-- From a table within its bounds, an operation leaves it within them just when it fits. -/
theorem operate_bounded_iff (h : Bounded limits table) (operation : Operation) :
    Bounded limits (operate py limits table operation) ↔ Fits py limits table operation := by
  cases operation with
  | enqueue eventId payload tenantId now scan =>
      simp only [Fits, iff_true, operate, enqueue]
      cases newRow py eventId payload tenantId now with
      | error error => exact h
      | ok row => exact enforceLimits_bounded
  | flushOnce timestamp scan post =>
      simp only [Fits, iff_true]
      exact flushOnce_bounded h
  | replayDeadLetters tenantId now =>
      simp only [Fits, operate, replayDeadLetters]
      cases hscope : replayScope py tenantId with
      | error error => simpa [Except.map] using h
      | ok scope =>
          simp only [Except.map, Except.ok.injEq, forall_eq']
          obtain ⟨hpending, hdead⟩ := @replay_counts table scope (revived now) (fun _ => rfl)
            fun _ => rfl
          constructor
          · intro hafter
            rw [← hpending]
            exact hafter.pending
          · intro hroom
            exact ⟨hpending.symm ▸ hroom, Nat.le_trans hdead h.dead⟩

/-- The bounds hold after each operation of a run just when each of them fits. -/
theorem bounds_iff (operations : List Operation) :
    (∀ before operation, before ++ [operation] <+: operations →
        Bounded limits (tableAfter py limits (before ++ [operation]))) ↔
      ∀ before operation, before ++ [operation] <+: operations →
        Fits py limits (tableAfter py limits before) operation := by
  have hstep : ∀ before operation, tableAfter py limits (before ++ [operation]) =
      operate py limits (tableAfter py limits before) operation := by
    intro before operation
    unfold tableAfter
    rw [List.foldl_append, List.foldl_cons, List.foldl_nil]
  have hempty : Bounded limits (tableAfter py limits []) := ⟨Nat.zero_le _, Nat.zero_le _⟩
  have hfront : ∀ (before : List Operation) (operation : Operation),
      before ++ [operation] <+: operations → before <+: operations :=
    fun before operation h => (List.prefix_append before [operation]).trans h
  constructor
  · intro h before operation hbefore
    have hbounded : Bounded limits (tableAfter py limits before) := by
      cases before using List.reverseRecOn with
      | nil => exact hempty
      | append_singleton earlier last => exact h earlier last (hfront _ _ hbefore)
    rw [← operate_bounded_iff hbounded, ← hstep]
    exact h before operation hbefore
  · intro h
    have hall : ∀ before, before <+: operations → Bounded limits (tableAfter py limits before) := by
      intro before
      induction before using List.reverseRecOn with
      | nil => exact fun _ => hempty
      | append_singleton earlier last ih =>
          intro hbefore
          rw [hstep]
          exact (operate_bounded_iff (ih (hfront _ _ hbefore)) last).mpr (h earlier last hbefore)
    exact fun before operation hbefore => hall _ hbefore

end

/-! ## A replay into a full table -/

def plainRuntime : Runtime := ⟨fun _ => true, fun _ => none⟩

def narrow : Limits := { maxPending := 1, maxDead := 1 }

/-- The second event evicts the first, which is then replayed. -/
def replayIntoFull : List Operation :=
  [.enqueue (.ofString "a") [1] none 0 .inOrder, .enqueue (.ofString "b") [1] none 1 .inOrder,
    .replayDeadLetters none 2]

theorem replay_exceeds_bound : ¬Bounded narrow (tableAfter plainRuntime narrow replayIntoFull) := by
  intro h
  have hpending := h.pending
  revert hpending
  decide +kernel

end BlackMonolith.MonolithEvents
