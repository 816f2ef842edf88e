import BlackMonolith.OutboxRuns

/-!
# The work directory of a launch

The shields of a launch spool into a directory of its own. When the agent is
gone the launcher looks at the pending file until it is empty or the budget is
spent, and removes the directory in the first case. The dead letters lie in the
same directory, in a file it does not look at.

A shield may outlive the agent, so its sections interleave with the launcher's
steps, and the removal is a step of its own after the look that decided it. Once
the directory is gone the lock file cannot be created: every section that needs
it fails, and only the posts of a drain under way go on.
-/
namespace BlackMonolith.Launcher
open Library Outbox

/-! ## Waiting for the spool -/

/-- What one turn of the loop learns about the pending file. -/
inductive Look
  | missing
  | size (bytes : ℕ)
  | osError
deriving Repr, DecidableEq

def spoolLook (serde : Serde) (pending : List SpoolRecord) : Look :=
  if pending.isEmpty then .missing else .size (fileSize serde pending)

/-- The turn of `wait_for_spool_drain` that returns `True`. -/
def Look.drained : Look → Bool
  | .missing => true
  | .size bytes => bytes == 0
  | .osError => true

theorem fileSize_pos {serde : Serde} {pending : List SpoolRecord} (h : pending ≠ []) :
    0 < fileSize serde pending := by
  cases pending with
  | nil => exact absurd rfl h
  | cons r rs =>
      simp only [fileSize, lineSize, List.map_cons, List.sum_cons]
      omega

/-- A look that succeeds sees exactly whether records are pending. -/
theorem spoolLook_drained_iff (serde : Serde) (pending : List SpoolRecord) :
    (spoolLook serde pending).drained = true ↔ pending = [] := by
  by_cases h : pending = []
  · subst h
    exact ⟨fun _ => rfl, fun _ => rfl⟩
  · have hpos := @fileSize_pos serde pending h
    have hne : pending.isEmpty = false := by simpa using h
    simp only [spoolLook, hne, Bool.false_eq_true, if_false, Look.drained, beq_iff_eq, h, iff_false]
    omega

/-! ## Sessions -/

inductive Phase
  | running
  | waiting
  | drained
  | left
  | removed
deriving Repr, DecidableEq

/-- A launch: the spool of its work directory with its history, how far the
launcher is, and the records the removal of the directory deleted. -/
structure Session where
  outbox : State
  phase : Phase
  discarded : List SpoolRecord

/-- The directory is made for the launch, so the spool is empty. -/
def Session.start : Session := ⟨State.init ⟨[], []⟩, .running, []⟩

inductive SessionStep
  | shield (action : Action)
  | agentExits
  | poll (failed : Bool)
  | deadline
  | removeWorkdir
deriving Repr, DecidableEq

/-- What a shield can still do without its directory. -/
def unlinkedStep (serde : Serde) (s : State) : Action → Option State
  | .skip i => step serde s (.skip i)
  | .post i outcome now => step serde s (.post i outcome now)
  | .crash i => step serde s (.crash i)
  | .reconcile i => (s.drains i).map fun _ => s.setDrain i none
  | .enqueue _ _ _ | .load _ _ _ | .replay _ _ => some s

def sessionStep (serde : Serde) (s : Session) : SessionStep → Option Session
  | .shield action =>
      if s.phase = .removed then
        (unlinkedStep serde s.outbox action).map fun outbox => { s with outbox }
      else (step serde s.outbox action).map fun outbox => { s with outbox }
  | .agentExits => if s.phase = .running then some { s with phase := .waiting } else none
  | .poll failed =>
      if s.phase = .waiting then
        let look := if failed then .osError else spoolLook serde s.outbox.spool.pending
        some { s with phase := if look.drained then .drained else .waiting }
      else none
  | .deadline => if s.phase = .waiting then some { s with phase := .left } else none
  | .removeWorkdir =>
      if s.phase = .drained then
        some
          { outbox := { s.outbox with spool := ⟨[], []⟩ }
            phase := .removed
            discarded := s.outbox.spool.pending ++ s.outbox.spool.dead }
      else none

/-- Nothing is discarded: the directory goes only once every spooled event was
acknowledged, and no pending or dead-lettered record goes with it. -/
structure Session.KeepsEvidence (s : Session) : Prop where
  acknowledged : s.phase = .removed → ∀ id ∈ s.outbox.enqueued, id ∈ s.outbox.acked
  discarded : s.discarded = []

/-! ## What the sections of the shields keep -/

/-- The ids the bounds would remove in the section of an action. -/
def dropped (serde : Serde) (s : State) : Action → List String
  | .enqueue eventId payload now => ids (enqueue serde eventId payload now s.spool).removed
  | .reconcile i =>
      match s.drains i with
      | some d =>
          ids (reconcile serde d s.spool).pending.removed ++
            ids (reconcile serde d s.spool).dead.removed
      | none => []
  | .replay tenant now =>
      match replayDeadLetters serde tenant now s.spool with
      | .ok r => ids r.pending.removed
      | .error _ => []
  | .load _ _ _ | .skip _ | .post _ _ _ | .crash _ => []

section
variable {serde : Serde} {s t : State} {a : Action}

theorem removed_step (h : step serde s a = some t) :
    t.removed = dropped serde s a ++ s.removed := by
  have hreads : a.readsOnly → t.removed = s.removed := by
    intro ha
    obtain ⟨i, d, new, rfl, -, -⟩ := step_drain h ha
    rfl
  cases a with
  | enqueue eventId payload now =>
      cases h
      rfl
  | load i force now => exact hreads rfl
  | skip i => exact hreads rfl
  | post i outcome now => exact hreads rfl
  | reconcile i =>
      obtain ⟨d, hd, rfl⟩ := step_reconcile h
      simp only [dropped, hd]
      exact (List.append_assoc _ _ _).symm
  | replay tenant now =>
      cases hr : replayDeadLetters serde tenant now s.spool with
      | ok r =>
          simp only [step, hr, Option.some.injEq] at h
          simp only [dropped, hr, ← h]
          rfl
      | error message =>
          simp only [step, hr, Option.some.injEq] at h
          simp only [dropped, hr, ← h, List.nil_append]
  | crash i =>
      cases h
      rfl

theorem acked_step (h : step serde s a = some t) : ∀ id ∈ s.acked, id ∈ t.acked := by
  have hreads : a.readsOnly → ∀ id ∈ s.acked, id ∈ t.acked := by
    intro ha id hid
    obtain ⟨i, d, new, rfl, -, -⟩ := step_drain h ha
    exact List.mem_append_right new hid
  cases a with
  | load i force now => exact hreads rfl
  | skip i => exact hreads rfl
  | post i outcome now => exact hreads rfl
  | enqueue eventId payload now =>
      cases h
      exact fun _ hid => hid
  | reconcile i =>
      obtain ⟨d, hd, rfl⟩ := step_reconcile h
      exact fun _ hid => hid
  | replay tenant now =>
      rcases step_replay h with rfl | ⟨r, -, rfl⟩
      · exact fun _ hid => hid
      · exact fun _ hid => hid
  | crash i =>
      cases h
      exact fun _ hid => hid

/-- Without the directory nothing is accepted, written or dropped. -/
theorem unlinkedStep_frame (h : unlinkedStep serde s a = some t) :
    t.spool = s.spool ∧ t.enqueued = s.enqueued ∧ (∀ id ∈ s.acked, id ∈ t.acked) := by
  have hreads : a.readsOnly → step serde s a = some t →
      t.spool = s.spool ∧ t.enqueued = s.enqueued ∧ (∀ id ∈ s.acked, id ∈ t.acked) := by
    intro ha hs
    have hacked := acked_step hs
    obtain ⟨i, d, new, rfl, -, -⟩ := step_drain hs ha
    exact ⟨rfl, rfl, hacked⟩
  cases a with
  | skip i => exact hreads rfl h
  | post i outcome now => exact hreads rfl h
  | reconcile i =>
      obtain ⟨d, -, rfl⟩ := Option.map_eq_some_iff.mp h
      exact ⟨rfl, rfl, fun _ hid => hid⟩
  | enqueue eventId payload now =>
      cases h
      exact ⟨rfl, rfl, fun _ hid => hid⟩
  | load i force now =>
      cases h
      exact ⟨rfl, rfl, fun _ hid => hid⟩
  | replay tenant now =>
      cases h
      exact ⟨rfl, rfl, fun _ hid => hid⟩
  | crash i =>
      cases h
      exact ⟨rfl, rfl, fun _ hid => hid⟩

/-- When the bounds dropped acknowledged events only, an event that lies in
neither file was acknowledged. -/
theorem acked_of_empty (hs : s.Conserved serde) (hdropped : ∀ id ∈ s.removed, id ∈ s.acked)
    (hpending : s.spool.pending = []) (hdead : s.spool.dead = []) :
    ∀ id ∈ s.enqueued, id ∈ s.acked := by
  intro id hid
  rcases hs.enqueued id hid with h | h | h | h
  · rw [hpending] at h
    cases h
  · rw [hdead] at h
    cases h
  · exact h
  · exact hdropped id h

end

/-! ## Evidence -/

/-- The bounds of the spool drop no event before it was acknowledged, and the
directory is removed when both files are empty. -/
def Careful (serde : Serde) (s : Session) : SessionStep → Prop
  | .shield action =>
      s.phase = .removed ∨ ∀ id ∈ dropped serde s.outbox action, id ∈ s.outbox.acked
  | .removeWorkdir => s.outbox.spool.pending = [] ∧ s.outbox.spool.dead = []
  | .agentExits | .poll _ | .deadline => True

/-- What careful steps keep. -/
structure Session.Kept (serde : Serde) (s : Session) : Prop where
  conserved : s.phase ≠ .removed → s.outbox.Conserved serde
  dropped : s.phase ≠ .removed → ∀ id ∈ s.outbox.removed, id ∈ s.outbox.acked
  evidence : s.KeepsEvidence

instance (serde : Serde) (s : Session) : DecidablePred (Careful serde s)
  | .shield action => inferInstanceAs (Decidable (s.phase = .removed ∨
      ∀ id ∈ dropped serde s.outbox action, id ∈ s.outbox.acked))
  | .removeWorkdir => inferInstanceAs (Decidable (_ ∧ _))
  | .agentExits | .poll _ | .deadline => .isTrue trivial

section
variable {serde : Serde} {s t : Session} {step : SessionStep}

theorem start_kept : Session.start.Kept serde :=
  ⟨fun _ => init_conserved _, fun _ _ h => absurd h List.not_mem_nil, ⟨(nomatch ·), rfl⟩⟩

/-- A step of the launcher that leaves the files alone. -/
theorem Session.Kept.phase (hs : s.Kept serde) (hphase : s.phase ≠ .removed) {phase : Phase}
    (hnext : phase ≠ .removed) : ({ s with phase } : Session).Kept serde :=
  ⟨fun _ => hs.conserved hphase, fun _ => hs.dropped hphase,
    ⟨fun h => absurd h hnext, hs.evidence.discarded⟩⟩

theorem kept_shield {action : Action} (hs : s.Kept serde)
    (hcareful : Careful serde s (.shield action))
    (h : sessionStep serde s (.shield action) = some t) : t.Kept serde := by
  simp only [sessionStep] at h
  split_ifs at h with hphase
  · obtain ⟨outbox, hstep, rfl⟩ := Option.map_eq_some_iff.mp h
    obtain ⟨-, henqueued, hacked⟩ := unlinkedStep_frame hstep
    refine ⟨fun hne => absurd hphase hne, fun hne => absurd hphase hne, ?_,
      hs.evidence.discarded⟩
    intro _ id hid
    exact hacked id (hs.evidence.acknowledged hphase id (henqueued ▸ hid))
  · obtain ⟨outbox, hstep, rfl⟩ := Option.map_eq_some_iff.mp h
    have hfew := hcareful.resolve_left hphase
    refine ⟨fun _ => step_conserved (hs.conserved hphase) hstep, ?_,
      ⟨fun hremoved => absurd hremoved hphase, hs.evidence.discarded⟩⟩
    intro _ id hid
    apply acked_step hstep
    rw [removed_step hstep] at hid
    exact (List.mem_append.mp hid).elim (hfew id) (hs.dropped hphase id)

theorem kept_step (hs : s.Kept serde) (hcareful : Careful serde s step)
    (h : sessionStep serde s step = some t) : t.Kept serde := by
  cases step with
  | shield action => exact kept_shield hs hcareful h
  | agentExits =>
      simp only [sessionStep] at h
      split_ifs at h with hphase
      cases h
      exact hs.phase (by rw [hphase]; decide) (by decide)
  | poll failed =>
      simp only [sessionStep] at h
      split at h
      · next hphase =>
          cases h
          apply hs.phase
          · rw [hphase]
            decide
          · cases (if failed then Look.osError
              else spoolLook serde s.outbox.spool.pending).drained with
            | false => decide
            | true => decide
      · cases h
  | deadline =>
      simp only [sessionStep] at h
      split_ifs at h with hphase
      cases h
      exact hs.phase (by rw [hphase]; decide) (by decide)
  | removeWorkdir =>
      simp only [sessionStep] at h
      split_ifs at h with hphase
      cases h
      have hremaining : s.phase ≠ .removed := by rw [hphase]; decide
      obtain ⟨hpending, hdead⟩ := hcareful
      have hacked := acked_of_empty (hs.conserved hremaining) (hs.dropped hremaining) hpending hdead
      refine ⟨fun hne => absurd rfl hne, fun hne => absurd rfl hne, fun _ => hacked, ?_⟩
      simp only [hpending, hdead, List.append_nil]

/-- The launcher discards nothing in a run whose steps are careful. After such a
run, removing the directory keeps the evidence exactly when no record is pending
and none is a dead letter. -/
theorem evidence_kept {steps : List SessionStep}
    (h : Path (sessionStep serde) (Careful serde) Session.start steps s) :
    s.KeepsEvidence ∧
      ∀ t, sessionStep serde s .removeWorkdir = some t →
        (t.KeepsEvidence ↔ s.outbox.spool.pending = [] ∧ s.outbox.spool.dead = []) := by
  have hs : s.Kept serde := h.invariant (fun _ _ _ hs hc ht => kept_step hs hc ht) start_kept
  refine ⟨hs.evidence, ?_⟩
  intro t ht
  constructor
  · intro hkeeps
    simp only [sessionStep] at ht
    split_ifs at ht
    cases ht
    exact List.append_eq_nil_iff.mp hkeeps.discarded
  · intro hempty
    have hcareful : Careful serde s .removeWorkdir := hempty
    exact (kept_step hs hcareful ht).evidence

/-- One event, answered while the launcher waits. -/
def answered (code : ℕ) : List SessionStep :=
  [.shield (.enqueue "a" "t" 1), .agentExits, .poll false, .shield (.load 0 true 2),
    .shield (.post 0 (.status code) 3), .shield (.reconcile 0), .poll false]

theorem evidence_kept_answered :
    ∃ s t, execute (sessionStep plainSerde) Session.start (answered 201) = some s ∧
      sessionStep plainSerde s .removeWorkdir = some t ∧ t.outbox.enqueued = ["a"] ∧
        s.KeepsEvidence ∧ t.KeepsEvidence := by
  have hguarded : executeGuarded (sessionStep plainSerde)
      (fun s step => decide (Careful plainSerde s step)) Session.start (answered 201) =
        some _ := rfl
  have hpath := (Path.of_executeGuarded hguarded).mono fun _ _ h => of_decide_eq_true h
  have hkept := evidence_kept hpath
  exact ⟨_, _, rfl, rfl, rfl, hkept.1, (hkept.2 _ rfl).mpr ⟨rfl, rfl⟩⟩

/-- A rejected event becomes a dead letter, which leaves the pending file empty:
the launcher removes the directory with the only record of the event. -/
theorem rejected_event_discarded :
    ∃ s, execute (sessionStep plainSerde) Session.start (answered 401 ++ [.removeWorkdir]) =
        some s ∧
      s.phase = .removed ∧ s.outbox.enqueued = ["a"] ∧ s.outbox.acked = [] ∧
        ids s.discarded = ["a"] ∧ ¬s.KeepsEvidence := by
  have hrun : execute (sessionStep plainSerde) Session.start
      (answered 401 ++ [.removeWorkdir]) = some _ := rfl
  refine ⟨_, hrun, rfl, rfl, rfl, rfl, ?_⟩
  intro hkeeps
  have hdiscarded := hkeeps.discarded
  cases hdiscarded

end

end BlackMonolith.Launcher
