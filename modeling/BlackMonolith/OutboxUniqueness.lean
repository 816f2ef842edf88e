import BlackMonolith.OutboxRuns

/-!
# Uniqueness of spooled events

A reconcile applies the verdicts of a snapshot to the files as they are by
then. Its deliveries and deferrals only touch records still pending, but its
dead letters are appended whether or not another drain has meanwhile moved or
delivered them. Events stay unique along the runs in which no reconcile brings
such a contested verdict.
-/
namespace BlackMonolith.Outbox
open Library

/-- No id twice in the two files together, and no settled event in either. -/
structure State.Unique (s : State) : Prop where
  files : (ids s.spool.pending ++ ids s.spool.dead).Nodup
  settled : ∀ id ∈ s.settled, id ∉ ids s.spool.pending ∧ id ∉ ids s.spool.dead

/-- Each `enqueue` brings a fresh event id. -/
def fresh (s : State) : Action → Bool
  | .enqueue eventId _ _ => !s.enqueued.contains eventId
  | _ => true

/-- No verdict of the drain concerns an event that the dead-letter file already
holds, and no dead letter one that another drain has settled. -/
def Drain.uncontested (d : Drain) (s : State) : Bool :=
  ((ids d.dead).all fun id => !(ids s.spool.dead).contains id && !s.settled.contains id) &&
    d.delivered.all fun id => !(ids s.spool.dead).contains id

def uncontested (s : State) : Action → Bool
  | .reconcile i =>
      match s.drains i with
      | some d => d.uncontested s
      | none => true
  | _ => true

/-- Both drains load the event before either reconciles, and the endpoint
refuses its credential to both: the second reconcile appends it again. -/
def refusedTwice : List Action :=
  [.enqueue "a" "t" 1, .load 0 false 2, .load 1 false 2, .post 0 (.status 401) 3,
    .post 1 (.status 401) 3, .reconcile 0, .reconcile 1]

/-- The event one drain delivered is dead-lettered by the other. -/
def deliveredThenRefused : List Action :=
  [.enqueue "a" "t" 1, .load 0 false 2, .load 1 false 2, .post 0 (.status 201) 3,
    .post 1 (.status 401) 3, .reconcile 0, .reconcile 1]

theorem contested_verdicts_repeat_events :
    (∃ s, executeGuarded (step plainSerde) fresh (State.init ⟨[], []⟩) refusedTwice = some s ∧
      ids s.spool.dead = ["a", "a"] ∧ ¬ s.Unique) ∧
    ∃ s, executeGuarded (step plainSerde) fresh (State.init ⟨[], []⟩) deliveredThenRefused = some s ∧
      s.settled = ["a"] ∧ ids s.spool.dead = ["a"] ∧ ¬ s.Unique := by
  constructor
  · refine ⟨_, rfl, rfl, fun h => ?_⟩
    have hfiles : ["a", "a"].Nodup := h.files
    exact absurd hfiles (by decide)
  · refine ⟨_, rfl, rfl, rfl, fun h => ?_⟩
    exact (h.settled "a" List.mem_cons_self).2 List.mem_cons_self

section
variable {serde : Serde} {s t : State}

/-- The invariant of the runs below: besides uniqueness, every id in play was
enqueued, and what a drain loaded had no id twice. -/
structure State.Tracked (s : State) : Prop where
  drains : ∀ i d, s.drains i = some d → d.WellFormed s.acked
  snapshots : ∀ i d, s.drains i = some d →
    (ids d.snapshot).Nodup ∧ ∀ id ∈ ids d.snapshot, id ∈ s.enqueued
  files : ∀ id ∈ ids s.spool.pending ++ ids s.spool.dead, id ∈ s.enqueued
  settled : ∀ id ∈ s.settled, id ∈ s.enqueued
  unique : s.Unique

theorem Bounded.file_sublist {b : Bounded} {records : List SpoolRecord}
    (h : b.removed ++ b.file = records) : (ids b.file).Sublist (ids records) := by
  rw [← h, ids_append]
  exact List.sublist_append_right _ _

theorem State.Tracked.pending_nodup (hs : s.Tracked) : (ids s.spool.pending).Nodup :=
  (List.nodup_append.mp hs.unique.files).1

theorem update_snapshots {i : ℕ} {d? : Option Drain} (hs : s.Tracked)
    (hd : ∀ d, d? = some d → (ids d.snapshot).Nodup ∧ ∀ id ∈ ids d.snapshot, id ∈ s.enqueued) :
    ∀ j d, Function.update s.drains i d? j = some d →
      (ids d.snapshot).Nodup ∧ ∀ id ∈ ids d.snapshot, id ∈ s.enqueued := by
  intro j d h
  by_cases hj : j = i
  · subst hj
    rw [Function.update_self] at h
    exact hd d h
  · rw [Function.update_of_ne hj] at h
    exact hs.snapshots j d h

theorem accepted_tracked {eventId payload : String} {now : ℕ} (hs : s.Tracked)
    (hfresh : eventId ∉ s.enqueued) :
    (s.accepted eventId (enqueue serde eventId payload now s.spool)).Tracked := by
  have hfile : (ids (enqueue serde eventId payload now s.spool).file).Sublist
      (ids s.spool.pending ++ [eventId]) := by
    have h := Bounded.file_sublist (enqueue_split serde eventId payload now s.spool)
    rwa [ids_append] at h
  have hmem : ∀ id, id ∈ ids (enqueue serde eventId payload now s.spool).file →
      id ∈ ids s.spool.pending ∨ id = eventId := by
    intro id hid
    exact (List.mem_append.mp (hfile.subset hid)).imp_right List.mem_singleton.mp
  have hdead : eventId ∉ ids s.spool.dead :=
    fun h => hfresh (hs.files _ (List.mem_append_right _ h))
  have hpending : eventId ∉ ids s.spool.pending :=
    fun h => hfresh (hs.files _ (List.mem_append_left _ h))
  refine ⟨hs.drains, ?_, ?_, fun id hid => List.mem_cons_of_mem _ (hs.settled id hid), ?_, ?_⟩
  · intro i d hd
    exact ⟨(hs.snapshots i d hd).1,
      fun id hid => List.mem_cons_of_mem _ ((hs.snapshots i d hd).2 id hid)⟩
  · intro id hid
    rcases List.mem_append.mp hid with hid | hid
    · rcases hmem id hid with hid | rfl
      · exact List.mem_cons_of_mem _ (hs.files id (List.mem_append_left _ hid))
      · exact List.mem_cons_self
    · exact List.mem_cons_of_mem _ (hs.files id (List.mem_append_right _ hid))
  · have hall : (eventId :: (ids s.spool.pending ++ ids s.spool.dead)).Nodup := by
      refine List.nodup_cons.mpr ⟨fun h => ?_, hs.unique.files⟩
      exact (List.mem_append.mp h).elim hpending hdead
    have hmiddle : ((ids s.spool.pending ++ [eventId]) ++ ids s.spool.dead).Nodup := by
      rw [List.append_assoc]
      exact List.perm_middle.nodup_iff.mpr hall
    exact (hfile.append_right _).nodup hmiddle
  · intro id hid
    have hne : id ≠ eventId := fun e => hfresh (e ▸ hs.settled id hid)
    refine ⟨fun h => ?_, (hs.unique.settled id hid).2⟩
    exact (hmem id h).elim (hs.unique.settled id hid).1 hne

/-- The two files after an uncontested reconcile, before the bounds: the kept
records and the extended dead letters share no id. -/
theorem reconciled_nodup {i : ℕ} {d : Drain} (hs : s.Tracked) (hd : s.drains i = some d)
    (hdead : ∀ id ∈ ids d.dead, id ∉ ids s.spool.dead) :
    (ids (d.keep s.spool.pending) ++ ids (s.spool.dead ++ d.dead)).Nodup := by
  have hw := hs.drains i d hd
  have hverdicts := hw.verdicts_nodup (hs.snapshots i d hd).1
  obtain ⟨hpending, hdeads, hdisjoint⟩ := List.nodup_append.mp hs.unique.files
  have hkeep : (ids (d.keep s.spool.pending)).Nodup := by
    rw [hw.ids_keep]
    exact hpending.filter _
  rw [ids_append]
  refine List.nodup_append.mpr ⟨hkeep, List.nodup_append.mpr
    ⟨hdeads, (List.nodup_append.mp hverdicts).2.1, ?_⟩, ?_⟩
  · rintro id hid _ hid' rfl
    exact hdead id hid' hid
  · rintro id hid _ hid' rfl
    obtain ⟨hp, -, hnot⟩ := hw.mem_keep.mp hid
    rcases List.mem_append.mp hid' with h | h
    · exact hdisjoint id hp id h rfl
    · exact hnot h

theorem reconciled_tracked {i : ℕ} {d : Drain} (hs : s.Tracked) (hd : s.drains i = some d)
    (hun : d.uncontested s) : (s.reconciled i d (reconcile serde d s.spool)).Tracked := by
  have hw := hs.drains i d hd
  have hsnap := (hs.snapshots i d hd).2
  unfold Drain.uncontested at hun
  simp only [Bool.and_eq_true, List.all_eq_true, Bool.not_eq_true', List.contains_eq_mem,
    decide_eq_false_iff_not] at hun
  obtain ⟨hdead, hdelivered⟩ := hun
  have hpfile := Bounded.file_sublist (reconcile_pending_split serde d s.spool)
  have hdfile := Bounded.file_sublist (reconcile_dead_split serde d s.spool)
  have hverdicts := hw.verdicts_nodup (hs.snapshots i d hd).1
  have hafter : ∀ id, id ∉ ids (d.keep s.spool.pending) → id ∉ ids (s.spool.dead ++ d.dead) →
      id ∉ ids (reconcile serde d s.spool).pending.file ∧
        id ∉ ids (reconcile serde d s.spool).dead.file :=
    fun id h₁ h₂ => ⟨fun h => h₁ (hpfile.subset h), fun h => h₂ (hdfile.subset h)⟩
  refine ⟨update_wellFormed [] hs.drains (fun _ h => by cases h),
    update_snapshots hs (fun _ h => by cases h), ?_, ?_, ?_, ?_⟩
  · intro id hid
    rcases List.mem_append.mp hid with hid | hid
    · exact hs.files id (List.mem_append_left _ (hw.mem_keep.mp (hpfile.subset hid)).1)
    · rcases List.mem_append.mp (ids_append _ _ ▸ hdfile.subset hid) with hid | hid
      · exact hs.files id (List.mem_append_right _ hid)
      · exact hsnap id (hw.snapshot_of_dead hid)
  · intro id hid
    rcases List.mem_append.mp hid with hid | hid
    · exact hsnap id (hw.snapshot_of_delivered hid)
    · exact hs.settled id hid
  · exact (hpfile.append hdfile).nodup (reconciled_nodup hs hd fun id hid => (hdead id hid).1)
  · intro id hid
    apply hafter
    · intro h
      obtain ⟨hp, hnot, -⟩ := hw.mem_keep.mp h
      rcases List.mem_append.mp hid with hid | hid
      · exact hnot hid
      · exact (hs.unique.settled id hid).1 hp
    · intro h
      rcases List.mem_append.mp hid with hid | hid
      · rcases List.mem_append.mp (ids_append _ _ ▸ h) with h | h
        · exact hdelivered id hid h
        · exact (List.nodup_append.mp hverdicts).2.2 id hid id h rfl
      · rcases List.mem_append.mp (ids_append _ _ ▸ h) with h | h
        · exact (hs.unique.settled id hid).2 h
        · exact (hdead id h).2 hid

theorem reconcile_dead_file {d : Drain} {spool : Spool}
    (hfit : withinBounds serde maxSpoolRecords maxSpoolBytes (spool.dead ++ d.dead)) :
    (reconcile serde d spool).dead.file = spool.dead ++ d.dead := by
  have hsplit := reconcile_dead_split serde d spool
  have hjust := (reconcile_justified serde d spool).2
  rcases hjust with hnil | ⟨hover, -⟩
  · rw [hnil, List.nil_append] at hsplit
    exact hsplit
  · rw [hsplit, hfit] at hover
    cases hover

/-- While the dead-letter file has room, the condition on a reconcile is exact. -/
theorem reconciled_unique_iff {i : ℕ} {d : Drain} (hs : s.Tracked) (hd : s.drains i = some d)
    (hfit : withinBounds serde maxSpoolRecords maxSpoolBytes (s.spool.dead ++ d.dead)) :
    (s.reconciled i d (reconcile serde d s.spool)).Unique ↔ d.uncontested s := by
  constructor
  · intro hu
    have hfile : ids (reconcile serde d s.spool).dead.file = ids s.spool.dead ++ ids d.dead := by
      rw [reconcile_dead_file hfit, ids_append]
    have hdeads : (ids s.spool.dead ++ ids d.dead).Nodup :=
      hfile ▸ (List.nodup_append.mp hu.files).2.1
    have hsettled : ∀ id ∈ d.delivered ++ s.settled, id ∉ ids s.spool.dead ++ ids d.dead :=
      fun id hid => hfile ▸ (hu.settled id hid).2
    unfold Drain.uncontested
    simp only [Bool.and_eq_true, List.all_eq_true, Bool.not_eq_true', List.contains_eq_mem,
      decide_eq_false_iff_not]
    refine ⟨fun id hid => ⟨fun h => ?_, fun h => ?_⟩, fun id hid h => ?_⟩
    · exact (List.nodup_append.mp hdeads).2.2 id h id hid rfl
    · exact hsettled id (List.mem_append_right _ h) (List.mem_append_right _ hid)
    · exact hsettled id (List.mem_append_left _ hid) (List.mem_append_left _ h)
  · intro hun
    exact (reconciled_tracked hs hd hun).unique

theorem replayed_tracked {r : Replayed} {tenant : Option String} {now : ℕ} (hs : s.Tracked)
    (h : replayDeadLetters serde tenant now s.spool = .ok r) : (s.replayed r).Tracked := by
  have hperm := (replay_spec h).2
  have hsub : ∀ id ∈ ids r.pending.file ++ ids r.dead,
      id ∈ ids s.spool.pending ++ ids s.spool.dead :=
    fun id hid => hperm.mem_iff.mp (List.mem_append_right _ hid)
  refine ⟨hs.drains, hs.snapshots, fun id hid => hs.files id (hsub id hid), hs.settled, ?_, ?_⟩
  · have hall := hperm.nodup_iff.mpr hs.unique.files
    exact (List.nodup_append.mp hall).2.1
  · intro id hid
    have hnot : id ∉ ids s.spool.pending ++ ids s.spool.dead := fun h =>
      (List.mem_append.mp h).elim (hs.unique.settled id hid).1 (hs.unique.settled id hid).2
    exact ⟨fun h => hnot (hsub id (List.mem_append_left _ h)),
      fun h => hnot (hsub id (List.mem_append_right _ h))⟩

theorem step_tracked {a : Action} (hs : s.Tracked) (hf : fresh s a) (hun : uncontested s a)
    (h : step serde s a = some t) : t.Tracked := by
  have hdrain : a.readsOnly → t.Tracked := by
    intro ha
    obtain ⟨i, d, new, rfl, hw, hsnap⟩ := step_drain h ha
    refine ⟨update_wellFormed new hs.drains fun _ hd => Option.some.inj hd ▸ hw hs.drains,
      update_snapshots hs ?_, hs.files, hs.settled, hs.unique.files,
      hs.unique.settled⟩
    rintro _ hd
    obtain rfl := Option.some.inj hd
    rcases hsnap with hsnap | ⟨d', hd', hsnap⟩
    · rw [hsnap]
      exact ⟨hs.pending_nodup, fun id hid => hs.files id (List.mem_append_left _ hid)⟩
    · rw [hsnap]
      exact hs.snapshots i d' hd'
  cases a with
  | enqueue eventId payload now =>
      cases h
      exact accepted_tracked hs (by simpa [fresh] using hf)
  | load i force now => exact hdrain rfl
  | skip i => exact hdrain rfl
  | post i outcome now => exact hdrain rfl
  | reconcile i =>
      obtain ⟨d, hd, rfl⟩ := step_reconcile h
      simp only [uncontested, hd] at hun
      exact reconciled_tracked hs hd hun
  | replay tenant now =>
      rcases step_replay h with rfl | ⟨r, hr, rfl⟩
      · exact hs
      · exact replayed_tracked hs hr
  | crash i =>
      cases h
      exact ⟨update_wellFormed [] hs.drains (fun _ h => by cases h),
        update_snapshots hs (fun _ h => by cases h), hs.files, hs.settled,
        hs.unique.files, hs.unique.settled⟩

theorem init_tracked : (State.init ⟨[], []⟩).Tracked :=
  ⟨fun _ _ h => (by cases h), fun _ _ h => (by cases h), fun _ h => absurd h List.not_mem_nil,
    fun _ h => absurd h List.not_mem_nil, List.nodup_nil, fun _ h => absurd h List.not_mem_nil⟩

/-- Along every run that enqueues fresh ids and reconciles uncontested verdicts,
no event is in the files twice, and none that was settled is in either. -/
theorem uniqueness {as : List Action}
    (h : Path (step serde) (fun s a => fresh s a && uncontested s a) (State.init ⟨[], []⟩) as s) :
    s.Unique := by
  have hs : s.Tracked := h.invariant
    (fun s a t ht hg hstep => by
      obtain ⟨hf, hun⟩ := (Bool.and_eq_true _ _).mp hg
      exact step_tracked ht hf hun hstep)
    init_tracked
  exact hs.unique

/-- A drain of each kind of verdict, and a replay of the dead letter. -/
def drainAndReplay : List Action :=
  [.enqueue "a" "t" 1, .enqueue "b" "t" 1, .load 0 false 2, .post 0 (.status 201) 3,
    .post 0 (.status 422) 3, .reconcile 0, .enqueue "c" "t" 4, .replay none 5]

theorem uniqueness_drainAndReplay :
    ∃ s, executeGuarded (step plainSerde) (fun s a => fresh s a && uncontested s a)
        (State.init ⟨[], []⟩) drainAndReplay = some s ∧
      ids s.spool.pending = ["c", "b"] ∧ s.settled = ["a"] ∧ s.Unique := by
  have h : executeGuarded (step plainSerde) (fun s a => fresh s a && uncontested s a)
      (State.init ⟨[], []⟩) drainAndReplay = some _ := rfl
  exact ⟨_, h, rfl, rfl, uniqueness (Path.of_executeGuarded h)⟩

end

end BlackMonolith.Outbox
