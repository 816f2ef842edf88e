import BlackMonolith.OutboxRuns

/-!
# A reconcile whose files fail

Each access to a file may fail. The dead letters are written before the pending file,
and a failure to write them is a warning only: the pending file is still rewritten
without them.
-/
namespace BlackMonolith.Outbox
open Library

/-- The errors of the accesses that fail, in the order they are made. -/
structure Failures where
  lock : Option String := none
  readPending : Option String := none
  readDead : Option String := none
  writeDead : Option String := none
  writePending : Option String := none

section
variable (serde : Serde)

/-- `append_dead_records_bounded`. -/
def appendDeadRecords (failures : Failures) (file newDead : List SpoolRecord) :
    Except String (List SpoolRecord) :=
  if newDead.isEmpty then .ok file
  else
    match failures.readDead <|> failures.writeDead with
    | some error => .error error
    | none => .ok (appendDeadRecordsBounded serde file newDead).file

/-- `Outbox::reconcile`; a rewrite that fails leaves the file as it was. -/
def reconcileFailing (d : Drain) (failures : Failures) (spool : Spool) :
    Spool × Except String Unit :=
  match failures.lock <|> failures.readPending with
  | some error => (spool, .error error)
  | none =>
      let keep := (enforced serde (d.keep spool.pending)).file
      let dead :=
        match appendDeadRecords serde failures spool.dead d.dead with
        | .ok dead => dead
        | .error _ => spool.dead
      match failures.writePending with
      | some error => (⟨spool.pending, dead⟩, .error error)
      | none => (⟨keep, dead⟩, .ok ())

/-- Without failures it is the reconcile of a drain that has something to reconcile. -/
theorem reconcileFailing_none {d : Drain} (h : d.idle = false) (spool : Spool) :
    reconcileFailing serde d {} spool =
      (⟨(reconcile serde d spool).pending.file, (reconcile serde d spool).dead.file⟩, .ok ()) := by
  unfold reconcileFailing appendDeadRecords reconcile
  rw [h]
  cases hdead : d.dead with
  | nil => rfl
  | cons r rs => rfl

end

/-! ## What is kept -/

/-- The pending file stays as it is. -/
def Failures.keepPending (failures : Failures) : Prop :=
  failures.lock ≠ none ∨ failures.readPending ≠ none ∨ failures.writePending ≠ none

/-- The dead letters of the drain are not written. -/
def Failures.loseDead (failures : Failures) (d : Drain) : Prop :=
  d.dead ≠ [] ∧ (failures.readDead ≠ none ∨ failures.writeDead ≠ none)

/-- Every pending event the drain saw no acknowledgement for is in one of the files. -/
def Kept (d : Drain) (spool after : Spool) : Prop :=
  ∀ r ∈ spool.pending, r.eventId ∉ d.delivered →
    r.eventId ∈ ids after.pending ∨ r.eventId ∈ ids after.dead

section
variable {serde : Serde} {d : Drain} {failures : Failures} {spool : Spool}

theorem pending_of_keepPending (h : failures.keepPending) :
    (reconcileFailing serde d failures spool).1.pending = spool.pending := by
  unfold reconcileFailing
  cases hlock : failures.lock with
  | some error => rfl
  | none =>
      cases hread : failures.readPending with
      | some error => rfl
      | none =>
          cases hwrite : failures.writePending with
          | some error => rfl
          | none =>
              rcases h with h | h | h
              · exact absurd hlock h
              · exact absurd hread h
              · exact absurd hwrite h

theorem reconcileFailing_of_loseDead (h : ¬failures.keepPending) (hdead : failures.loseDead d) :
    reconcileFailing serde d failures spool =
      (⟨(enforced serde (d.keep spool.pending)).file, spool.dead⟩, .ok ()) := by
  simp only [Failures.keepPending, not_or, not_not] at h
  obtain ⟨hlock, hread, hwrite⟩ := h
  obtain ⟨hne, hfails⟩ := hdead
  have herror : ∃ error, appendDeadRecords serde failures spool.dead d.dead = .error error := by
    unfold appendDeadRecords
    rw [if_neg fun hempty => hne (List.isEmpty_iff.mp hempty)]
    cases hreadDead : failures.readDead with
    | some error => exact ⟨error, rfl⟩
    | none =>
        cases hwriteDead : failures.writeDead with
        | some error => exact ⟨error, rfl⟩
        | none => simp [hreadDead, hwriteDead] at hfails
  obtain ⟨error, herror⟩ := herror
  simp only [reconcileFailing, hlock, hread, hwrite, herror]
  rfl

/-- No event of this drain's dead letters stays pending. -/
theorem notMem_dead_of_keep (hkeyed : ∀ p ∈ d.updated, p.2.eventId = p.1) {file : List SpoolRecord}
    {id : String} (h : id ∈ ids (d.keep file)) : id ∉ ids d.dead := by
  obtain ⟨r, hr, rfl⟩ := mem_ids.mp h
  obtain ⟨q, hq, rfl⟩ := List.mem_map.mp hr
  have hfilter := (List.mem_filter.mp hq).2
  rw [Drain.lookup_eventId hkeyed]
  simp only [Bool.and_eq_true, Bool.not_eq_true', List.contains_eq_mem, decide_eq_false_iff_not]
    at hfilter
  exact hfilter.2

/-- After a failure every event without an acknowledgement is kept exactly when the pending
file is left as it was, or no access to the dead letters failed, or each such event is
dead-lettered already, or is not by this drain and is among those the bounds keep. -/
theorem failed_reconcile_keeps_iff (hkeyed : ∀ p ∈ d.updated, p.2.eventId = p.1) :
    (failures.keepPending ∨ failures.loseDead d →
      Kept d spool (reconcileFailing serde d failures spool).1) ↔
    (failures.keepPending ∨ ¬failures.loseDead d ∨
      ∀ r ∈ spool.pending, r.eventId ∉ d.delivered →
        r.eventId ∈ ids spool.dead ∨
          r.eventId ∉ ids d.dead ∧
            r.eventId ∈ ids (longestSuffix (withinBounds serde maxSpoolRecords maxSpoolBytes)
              (d.keep spool.pending))) := by
  by_cases hpending : failures.keepPending
  · refine iff_of_true (fun _ r hr _ => Or.inl ?_) (Or.inl hpending)
    rw [pending_of_keepPending hpending]
    exact mem_ids.mpr ⟨r, hr, rfl⟩
  · by_cases hdead : failures.loseDead d
    · have hafter := @reconcileFailing_of_loseDead serde _ _ spool hpending hdead
      simp only [hpending, hdead, false_or, not_true_eq_false, true_imp_iff]
      rw [hafter, enforced_file]
      refine forall_congr' fun r => forall_congr' fun hr => forall_congr' fun hdelivered => ?_
      constructor
      · rintro (hkept | hold)
        · have hkeep : r.eventId ∈ ids (d.keep spool.pending) :=
            ((longestSuffix_suffix _ _).sublist.map SpoolRecord.eventId).mem hkept
          exact Or.inr ⟨notMem_dead_of_keep hkeyed hkeep, hkept⟩
        · exact Or.inl hold
      · rintro (hold | ⟨-, hkept⟩)
        · exact Or.inr hold
        · exact Or.inl hkept
    · refine iff_of_true (fun hfailed => ?_) (Or.inr (Or.inl hdead))
      rcases hfailed with hfailed | hfailed
      · exact absurd hfailed hpending
      · exact absurd hfailed hdead

end

/-! ## A refused record whose dead letter cannot be written -/

def refusedRecord : SpoolRecord := ⟨"a", "\x7b\x7d", 0, 0, none, 0⟩

/-- The drain of one record that the endpoint refused for good. -/
def refusedDrain : Drain where
  snapshot := [refusedRecord]
  remaining := []
  force := false
  now := 0
  delivered := []
  updated := []
  dead := [{ refusedRecord with lastError := some "http 400" }]

def fullDisk : Failures := { writeDead := some "No space left on device" }

/-- The record is in neither file afterwards, and the reconcile reports success. -/
theorem failed_dead_letter_lost :
    refusedDrain = ((loadPending ⟨[refusedRecord], []⟩ false 0).record refusedRecord
      (.status 400) 0 |> fun d => { d with remaining := [] }) ∧
    reconcileFailing plainSerde refusedDrain fullDisk ⟨[refusedRecord], []⟩ = (⟨[], []⟩, .ok ()) ∧
    ¬Kept refusedDrain ⟨[refusedRecord], []⟩
      (reconcileFailing plainSerde refusedDrain fullDisk ⟨[refusedRecord], []⟩).1 := by
  have hafter : reconcileFailing plainSerde refusedDrain fullDisk ⟨[refusedRecord], []⟩ =
      (⟨[], []⟩, .ok ()) := rfl
  refine ⟨rfl, hafter, ?_⟩
  rw [hafter]
  intro hkept
  rcases hkept refusedRecord (List.mem_singleton_self _) List.not_mem_nil with h | h
  · cases h
  · cases h

/-- With a pending file that cannot be rewritten the record stays pending. -/
theorem failed_reconcile_keeps_refused :
    Kept refusedDrain ⟨[refusedRecord], []⟩
      (reconcileFailing plainSerde refusedDrain
        { fullDisk with writePending := some "No space left on device" } ⟨[refusedRecord], []⟩).1 := by
  refine (failed_reconcile_keeps_iff fun _ hp => absurd hp List.not_mem_nil).mpr (Or.inl ?_) (Or.inl ?_)
  · exact Or.inr (Or.inr (Option.some_ne_none _))
  · exact Or.inr (Or.inr (Option.some_ne_none _))

end BlackMonolith.Outbox
