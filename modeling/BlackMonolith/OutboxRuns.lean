import Mathlib.Data.List.Perm.Subperm
import Mathlib.Logic.Function.Basic
import BlackMonolith.Library.Paths
import BlackMonolith.Outbox

/-!
# Runs of processes sharing one spool

Every critical section is one step, and so is every post, which needs no lock.
Drains are numbered; any number of them, of one process or of many, may be
between their load and their reconcile. A crash forgets a drain. A section that
fails before its writes is not a step, since it leaves the spool as it was.

Four ghost components record the history: the ids `enqueue` accepted, those
some post saw acknowledged, those acknowledged and reconciled, and every
compaction of a file.
-/
namespace BlackMonolith.Outbox
open Library

structure State where
  spool : Spool
  drains : ℕ → Option Drain
  enqueued : List String
  acked : List String
  settled : List String
  compactions : List Bounded

/-- A spool left by earlier runs, with no drain under way. -/
def State.init (spool : Spool) : State :=
  { spool, drains := fun _ => none, enqueued := [], acked := [], settled := []
    compactions := [] }

inductive Action
  | enqueue (eventId payload : String) (now : ℕ)
  | load (i : ℕ) (force : Bool) (now : ℕ)
  | skip (i : ℕ)
  | post (i : ℕ) (outcome : Outcome) (now : ℕ)
  | reconcile (i : ℕ)
  | replay (tenant : Option String) (now : ℕ)
  | crash (i : ℕ)
deriving Repr, DecidableEq

/-- The actions of a drain that write no file. -/
def Action.readsOnly : Action → Bool
  | .load _ _ _ | .skip _ | .post _ _ _ => true
  | _ => false

def ids (records : List SpoolRecord) : List String := records.map SpoolRecord.eventId

@[simp] theorem ids_nil : ids [] = [] := rfl
@[simp] theorem ids_cons (r : SpoolRecord) (rs : List SpoolRecord) :
    ids (r :: rs) = r.eventId :: ids rs := rfl
@[simp] theorem ids_append (rs ss : List SpoolRecord) : ids (rs ++ ss) = ids rs ++ ids ss :=
  List.map_append
theorem mem_ids {rs : List SpoolRecord} {id : String} :
    id ∈ ids rs ↔ ∃ r ∈ rs, r.eventId = id := List.mem_map

def State.setDrain (s : State) (i : ℕ) (d : Option Drain) : State :=
  { s with drains := Function.update s.drains i d }

/-! The files as one section leaves them, with the history brought up to date. -/

def State.accepted (s : State) (eventId : String) (file : Bounded) : State :=
  { s with
    spool := { s.spool with pending := file.file }
    enqueued := eventId :: s.enqueued
    compactions := file :: s.compactions }

def State.reconciled (s : State) (i : ℕ) (d : Drain) (r : Reconciled) : State :=
  { s with
    spool := ⟨r.pending.file, r.dead.file⟩
    drains := Function.update s.drains i none
    settled := d.delivered ++ s.settled
    compactions := r.pending :: r.dead :: s.compactions }

def State.replayed (s : State) (r : Replayed) : State :=
  { s with
    spool := ⟨r.pending.file, r.dead⟩
    compactions := r.pending :: s.compactions }

/-- The acknowledgements a post adds. -/
def ackedBy (r : SpoolRecord) : Outcome → List String
  | .status code => if isSuccess code then [r.eventId] else []
  | .failure _ => []

def step (serde : Serde) (s : State) : Action → Option State
  | .enqueue eventId payload now =>
      some (s.accepted eventId (enqueue serde eventId payload now s.spool))
  | .load i force now =>
      match s.drains i with
      | some _ => none
      | none => some (s.setDrain i (some (loadPending s.spool force now)))
  | .skip i =>
      match s.drains i with
      | some d =>
          match d.remaining with
          | r :: rest =>
              if d.due r then none else some (s.setDrain i (some { d with remaining := rest }))
          | [] => none
      | none => none
  | .post i outcome now =>
      match s.drains i with
      | some d =>
          match d.remaining with
          | r :: rest =>
              if d.due r then
                some { s.setDrain i (some ({ d with remaining := rest }.record r outcome now)) with
                  acked := ackedBy r outcome ++ s.acked }
              else none
          | [] => none
      | none => none
  | .reconcile i =>
      -- The budget may expire after any record, so some may remain unvisited.
      match s.drains i with
      | some d => some (s.reconciled i d (reconcile serde d s.spool))
      | none => none
  | .replay tenant now =>
      match replayDeadLetters serde tenant now s.spool with
      | .ok r => some (s.replayed r)
      | .error _ => some s
  | .crash i => some (s.setDrain i none)

/-! ## Drains -/

/-- The ids a drain has settled one way or the other, and those it has yet to
visit. A deferred record leaves this list: it keeps its place in the file. -/
def Drain.verdicts (d : Drain) : List String := d.delivered ++ (ids d.dead ++ ids d.remaining)

/-- What holds of a drain under way when the ids in `acked` were acknowledged. -/
structure Drain.WellFormed (acked : List String) (d : Drain) : Prop where
  delivered : ∀ id ∈ d.delivered, id ∈ acked
  verdicts : d.verdicts.Subperm (ids d.snapshot)
  updated : ∀ p ∈ d.updated, p.2.eventId = p.1 ∧ p.1 ∈ ids d.snapshot

namespace Drain
variable {d : Drain} {acked : List String} {r : SpoolRecord} {rest : List SpoolRecord}

theorem loadPending_wellFormed (spool : Spool) (force : Bool) (now : ℕ) :
    (loadPending spool force now).WellFormed acked :=
  ⟨fun _ h => absurd h List.not_mem_nil, List.Subperm.refl _,
    fun _ h => absurd h List.not_mem_nil⟩

theorem WellFormed.mono (h : d.WellFormed acked) (more : List String) :
    d.WellFormed (more ++ acked) :=
  ⟨fun id hid => List.mem_append_right _ (h.delivered id hid), h.verdicts, h.updated⟩

/-- Only the visit of `r` has to be shown to fit the snapshot. -/
theorem verdicts_cons (hr : d.remaining = r :: rest) :
    d.verdicts.Perm (r.eventId :: ({ d with remaining := rest } : Drain).verdicts) := by
  simp only [verdicts, hr, ids_cons]
  rw [← List.append_assoc, ← List.append_assoc]
  exact List.perm_middle

theorem WellFormed.advance (h : d.WellFormed acked) (hr : d.remaining = r :: rest) :
    ({ d with remaining := rest } : Drain).WellFormed acked :=
  ⟨h.delivered, (List.Subperm.cons_self.trans (verdicts_cons hr).symm.subperm).trans h.verdicts,
    h.updated⟩

theorem WellFormed.head_mem (h : d.WellFormed acked) (hr : d.remaining = r :: rest) :
    r.eventId ∈ ids d.snapshot :=
  h.verdicts.subset ((verdicts_cons hr).mem_iff.mpr List.mem_cons_self)

/-- The record visited becomes dead under its own id. -/
theorem WellFormed.bury (h : d.WellFormed acked) (hr : d.remaining = r :: rest)
    {q : SpoolRecord} (hq : q.eventId = r.eventId) :
    ({ d with remaining := rest, dead := d.dead ++ [q] } : Drain).WellFormed acked := by
  refine ⟨h.delivered, ?_, h.updated⟩
  have hverdicts : ({ d with remaining := rest, dead := d.dead ++ [q] } : Drain).verdicts =
      d.verdicts := by
    simp only [Drain.verdicts, hr, ids_append, ids_cons, ids_nil, hq, List.append_assoc,
      List.singleton_append]
  exact hverdicts ▸ h.verdicts

theorem WellFormed.retry (h : d.WellFormed acked) (hr : d.remaining = r :: rest)
    (q : SpoolRecord) (hq : q.eventId = r.eventId) :
    (({ d with remaining := rest } : Drain).retry q).WellFormed acked := by
  unfold Drain.retry
  split_ifs
  · exact h.bury hr hq
  · refine ⟨h.delivered, (h.advance hr).verdicts, ?_⟩
    intro p hp
    rcases List.mem_cons.mp hp with rfl | hp
    · exact ⟨rfl, hq ▸ h.head_mem hr⟩
    · exact h.updated p hp

/-- One verdict of the drain loop: an acknowledged id is recorded as delivered,
and every id is given at most one verdict. -/
theorem WellFormed.record (h : d.WellFormed acked) (hr : d.remaining = r :: rest)
    (outcome : Outcome) (now : ℕ) :
    (({ d with remaining := rest } : Drain).record r outcome now).WellFormed
      (ackedBy r outcome ++ acked) := by
  cases outcome with
  | failure error => exact h.retry hr (r.defer error now) rfl
  | status code =>
      simp only [Drain.record, ackedBy]
      split_ifs with hs hp
      · refine ⟨?_, (verdicts_cons hr).symm.subperm.trans h.verdicts, h.updated⟩
        intro id hid
        rcases List.mem_cons.mp hid with rfl | hid
        · exact List.mem_append_left _ (List.mem_singleton_self _)
        · exact List.mem_append_right _ (h.delivered id hid)
      · exact h.bury hr rfl
      · exact h.retry hr (r.defer _ now) rfl

@[simp] theorem record_snapshot (d : Drain) (r : SpoolRecord) (outcome : Outcome) (now : ℕ) :
    (d.record r outcome now).snapshot = d.snapshot := by
  have hretry : ∀ q, (d.retry q).snapshot = d.snapshot := by
    intro q
    unfold Drain.retry
    split_ifs <;> rfl
  unfold Drain.record
  cases outcome with
  | failure error => exact hretry _
  | status code =>
      simp only []
      split_ifs
      · rfl
      · rfl
      · exact hretry _

theorem WellFormed.snapshot_of_delivered (h : d.WellFormed acked) {id : String}
    (hid : id ∈ d.delivered) : id ∈ ids d.snapshot :=
  h.verdicts.subset (List.mem_append_left _ hid)

theorem WellFormed.snapshot_of_dead (h : d.WellFormed acked) {id : String}
    (hid : id ∈ ids d.dead) : id ∈ ids d.snapshot :=
  h.verdicts.subset (List.mem_append_right _ (List.mem_append_left _ hid))

theorem WellFormed.verdicts_nodup (h : d.WellFormed acked) (hn : (ids d.snapshot).Nodup) :
    (d.delivered ++ ids d.dead).Nodup := by
  obtain ⟨l, hperm, hsub⟩ := h.verdicts
  have hv : d.verdicts.Nodup := hperm.nodup_iff.mp (hsub.nodup hn)
  rw [Drain.verdicts, ← List.append_assoc] at hv
  exact (List.nodup_append.mp hv).1

theorem lookup_eventId {updated : List (String × SpoolRecord)}
    (h : ∀ p ∈ updated, p.2.eventId = p.1) (r : SpoolRecord) :
    ((updated.lookup r.eventId).getD r).eventId = r.eventId := by
  cases hl : updated.lookup r.eventId with
  | none => rfl
  | some q =>
      obtain ⟨before, after, hsplit, -⟩ := List.lookup_eq_some_iff.mp hl
      have hmem : (r.eventId, q) ∈ updated := by
        rw [hsplit]
        exact List.mem_append_right _ List.mem_cons_self
      exact h _ hmem

theorem WellFormed.ids_keep (h : d.WellFormed acked) (file : List SpoolRecord) :
    ids (d.keep file) = (ids file).filter fun id =>
      !d.delivered.contains id && !(ids d.dead).contains id := by
  unfold Drain.keep ids
  rw [List.map_map, List.filter_map]
  exact List.map_congr_left fun q _ => lookup_eventId (fun p hp => (h.updated p hp).1) q

/-- Reconciling keeps exactly the ids this drain gave no final verdict. -/
theorem WellFormed.mem_keep (h : d.WellFormed acked) {file : List SpoolRecord} {id : String} :
    id ∈ ids (d.keep file) ↔ id ∈ ids file ∧ id ∉ d.delivered ∧ id ∉ ids d.dead := by
  rw [h.ids_keep, List.mem_filter]
  simp

/-- A record outside the snapshot is kept as it is. -/
theorem WellFormed.mem_keep_of_not_snapshot (h : d.WellFormed acked) {file : List SpoolRecord}
    (hr : r ∈ file) (hs : r.eventId ∉ ids d.snapshot) : r ∈ d.keep file := by
  have hlookup : d.updated.lookup r.eventId = none := by
    refine List.lookup_eq_none_iff.mpr ?_
    intro p hp
    have hne : r.eventId ≠ p.1 := fun e => hs (e ▸ (h.updated p hp).2)
    exact bne_iff_ne.mpr hne
  refine List.mem_map.mpr ⟨r, List.mem_filter.mpr ⟨hr, ?_⟩, by rw [hlookup]; rfl⟩
  have hdel : r.eventId ∉ d.delivered := fun e => hs (h.snapshot_of_delivered e)
  have hdead : r.eventId ∉ d.dead.map SpoolRecord.eventId := fun e => hs (h.snapshot_of_dead e)
  simp [hdel, hdead]

end Drain

/-! ## Conservation -/

/-- The ids the bounds removed so far. -/
def State.removed (s : State) : List String := s.compactions.flatMap fun b => ids b.removed

/-- Where the event of an id may be. -/
def State.Accounts (s : State) (id : String) : Prop :=
  id ∈ ids s.spool.pending ∨ id ∈ ids s.spool.dead ∨ id ∈ s.acked ∨ id ∈ s.removed

/-- What every run keeps. -/
structure State.Conserved (serde : Serde) (s : State) : Prop where
  drains : ∀ i d, s.drains i = some d → d.WellFormed s.acked
  enqueued : ∀ id ∈ s.enqueued, s.Accounts id
  justified : ∀ b ∈ s.compactions, b.Justified serde

section
variable (serde : Serde) {s t : State}

theorem mem_removed {b : Bounded} {id : String} (hb : b ∈ s.compactions)
    (h : id ∈ ids b.removed) : id ∈ s.removed :=
  List.mem_flatMap.mpr ⟨b, hb, h⟩

/-! Each section removes by a bound, or not at all, and otherwise only
rearranges: what it removed and what it left is what it was given. -/

theorem Bounded.mem_of_split {b : Bounded} {records : List SpoolRecord} {id : String}
    (hsplit : b.removed ++ b.file = records) (h : id ∈ ids records) :
    id ∈ ids b.removed ∨ id ∈ ids b.file := by
  rw [← hsplit, ids_append] at h
  exact List.mem_append.mp h

theorem enqueue_split (eventId payload : String) (now : ℕ) (spool : Spool) :
    (enqueue serde eventId payload now spool).removed ++
        (enqueue serde eventId payload now spool).file =
      spool.pending ++ [newRecord eventId payload now] := by
  unfold enqueue appendRecordBounded
  split_ifs
  · exact enforced_split serde _
  · rfl

theorem enqueue_justified (eventId payload : String) (now : ℕ) (spool : Spool) :
    (enqueue serde eventId payload now spool).Justified serde := by
  unfold enqueue appendRecordBounded
  split_ifs
  · exact enforced_justified serde _
  · exact Or.inl rfl

theorem selectDead_perm (tenant : Option String) (dead : List SpoolRecord) :
    ((selectDead serde tenant dead).1 ++ (selectDead serde tenant dead).2).Perm dead := by
  cases tenant with
  | none => simp only [selectDead, List.append_nil, List.Perm.refl]
  | some scope =>
      simp only [selectDead, List.partition_eq_filter_filter]
      exact List.filter_append_perm _ dead

@[simp] theorem ids_replayed (now : ℕ) (records : List SpoolRecord) :
    ids (records.map (·.replayed now)) = ids records := by
  unfold ids
  rw [List.map_map]
  rfl

variable {serde} in
theorem replay_spec {tenant : Option String} {now : ℕ} {spool : Spool} {r : Replayed}
    (h : replayDeadLetters serde tenant now spool = .ok r) :
    r.pending.Justified serde ∧
      (ids r.pending.removed ++ (ids r.pending.file ++ ids r.dead)).Perm
        (ids spool.pending ++ ids spool.dead) := by
  unfold replayDeadLetters at h
  simp only [] at h
  split_ifs at h
  · cases h
    exact ⟨Or.inl rfl, List.Perm.refl _⟩
  · cases h
    refine ⟨enforced_justified serde _, ?_⟩
    rw [← List.append_assoc, ← ids_append, enforced_split, ids_append, ids_replayed,
      List.append_assoc, ← ids_append]
    exact ((selectDead_perm serde tenant spool.dead).map SpoolRecord.eventId).append_left _

theorem Drain.keep_idle {d : Drain} (h : d.idle) (file : List SpoolRecord) :
    d.keep file = file := by
  unfold Drain.idle at h
  simp only [Bool.and_eq_true, List.isEmpty_iff] at h
  obtain ⟨⟨hdel, hup⟩, hdead⟩ := h
  unfold Drain.keep
  simp [hdel, hup, hdead]

theorem reconcile_pending_split (d : Drain) (spool : Spool) :
    (reconcile serde d spool).pending.removed ++ (reconcile serde d spool).pending.file =
      d.keep spool.pending := by
  unfold reconcile
  split_ifs with h
  · exact (Drain.keep_idle h _).symm
  · exact enforced_split serde _

theorem reconcile_dead_split (d : Drain) (spool : Spool) :
    (reconcile serde d spool).dead.removed ++ (reconcile serde d spool).dead.file =
      spool.dead ++ d.dead := by
  unfold reconcile appendDeadRecordsBounded
  split_ifs with h hd
  · unfold Drain.idle at h
    simp only [Bool.and_eq_true, List.isEmpty_iff] at h
    rw [h.2, List.append_nil]
    rfl
  · rw [List.isEmpty_iff.mp hd, List.append_nil]
    rfl
  · exact enforced_split serde _

theorem reconcile_justified (d : Drain) (spool : Spool) :
    (reconcile serde d spool).pending.Justified serde ∧
      (reconcile serde d spool).dead.Justified serde := by
  unfold reconcile appendDeadRecordsBounded
  split_ifs
  · exact ⟨Or.inl rfl, Or.inl rfl⟩
  · exact ⟨enforced_justified serde _, Or.inl rfl⟩
  · exact ⟨enforced_justified serde _, enforced_justified serde _⟩

variable {serde}

/-! What each action of a run does, for every invariant below. Loading, skipping
and posting leave the spool and the history of reconciles alone. -/

theorem step_drain {a : Action} (h : step serde s a = some t) (ha : a.readsOnly) :
    ∃ i d new, t = { s.setDrain i (some d) with acked := new ++ s.acked } ∧
      ((∀ i d, s.drains i = some d → d.WellFormed s.acked) → d.WellFormed (new ++ s.acked)) ∧
      (d.snapshot = s.spool.pending ∨ ∃ d', s.drains i = some d' ∧ d.snapshot = d'.snapshot) := by
  cases a with
  | load i force now =>
      simp only [step] at h
      split at h
      · cases h
      · cases h
        exact ⟨i, _, [], rfl, fun _ => Drain.loadPending_wellFormed _ _ _, Or.inl rfl⟩
  | skip i =>
      simp only [step] at h
      split at h
      · next d hd =>
          split at h
          · next r rest hr =>
              split_ifs at h
              cases h
              exact ⟨i, _, [], rfl, fun hw => (hw i d hd).advance hr, Or.inr ⟨d, hd, rfl⟩⟩
          · cases h
      · cases h
  | post i outcome now =>
      simp only [step] at h
      split at h
      · next d hd =>
          split at h
          · next r rest hr =>
              split_ifs at h
              cases h
              exact ⟨i, _, ackedBy r outcome, rfl, fun hw => (hw i d hd).record hr outcome now,
                Or.inr ⟨d, hd, Drain.record_snapshot _ _ _ _⟩⟩
          · cases h
      · cases h
  | enqueue _ _ _ => cases ha
  | reconcile _ => cases ha
  | replay _ _ => cases ha
  | crash _ => cases ha

theorem step_reconcile {i : ℕ} (h : step serde s (.reconcile i) = some t) :
    ∃ d, s.drains i = some d ∧ t = s.reconciled i d (reconcile serde d s.spool) := by
  simp only [step] at h
  split at h
  · next d hd =>
      cases h
      exact ⟨d, hd, rfl⟩
  · cases h

theorem step_replay {tenant : Option String} {now : ℕ}
    (h : step serde s (.replay tenant now) = some t) :
    t = s ∨ ∃ r, replayDeadLetters serde tenant now s.spool = .ok r ∧ t = s.replayed r := by
  simp only [step] at h
  split at h
  · next r hr =>
      cases h
      exact Or.inr ⟨r, hr, rfl⟩
  · cases h
    exact Or.inl rfl

theorem update_wellFormed {i : ℕ} {d? : Option Drain} (more : List String)
    (hs : ∀ i d, s.drains i = some d → d.WellFormed s.acked)
    (hd : ∀ d, d? = some d → d.WellFormed (more ++ s.acked)) :
    ∀ j d, Function.update s.drains i d? j = some d → d.WellFormed (more ++ s.acked) := by
  intro j d h
  by_cases hj : j = i
  · subst hj
    rw [Function.update_self] at h
    exact hd d h
  · rw [Function.update_of_ne hj] at h
    exact (hs j d h).mono more

/-- An id that is accounted for stays so when the files only pass records on,
to each other or to the bounds, and drop what a drain saw acknowledged. -/
theorem State.Accounts.mono {id : String} (h : s.Accounts id)
    (hpending : id ∈ ids s.spool.pending → t.Accounts id)
    (hdead : id ∈ ids s.spool.dead → t.Accounts id)
    (hacked : ∀ id ∈ s.acked, id ∈ t.acked)
    (hcompactions : ∀ b ∈ s.compactions, b ∈ t.compactions) : t.Accounts id := by
  rcases h with h | h | h | h
  · exact hpending h
  · exact hdead h
  · exact Or.inr (Or.inr (Or.inl (hacked id h)))
  · obtain ⟨b, hb, hid⟩ := List.mem_flatMap.mp h
    exact Or.inr (Or.inr (Or.inr (mem_removed (hcompactions b hb) hid)))

theorem accepted_accounts {eventId payload : String} {now : ℕ} {id : String}
    (hid : id = eventId ∨ s.Accounts id) :
    (s.accepted eventId (enqueue serde eventId payload now s.spool)).Accounts id := by
  have hsplit := enqueue_split serde eventId payload now s.spool
  have placed : id ∈ ids (s.spool.pending ++ [newRecord eventId payload now]) →
      (s.accepted eventId (enqueue serde eventId payload now s.spool)).Accounts id := by
    intro h
    rcases Bounded.mem_of_split hsplit h with h | h
    · exact Or.inr (Or.inr (Or.inr (mem_removed List.mem_cons_self h)))
    · exact Or.inl h
  rcases hid with rfl | hid
  · exact placed (ids_append _ _ ▸ List.mem_append_right _ (List.mem_singleton_self _))
  · exact hid.mono (fun h => placed (ids_append _ _ ▸ List.mem_append_left _ h))
      (fun h => Or.inr (Or.inl h)) (fun _ h => h) (fun b hb => List.mem_cons_of_mem _ hb)

theorem reconciled_accounts {i : ℕ} {d : Drain} (hw : d.WellFormed s.acked) {id : String}
    (hid : s.Accounts id) : (s.reconciled i d (reconcile serde d s.spool)).Accounts id := by
  have hpending := reconcile_pending_split serde d s.spool
  have hdead := reconcile_dead_split serde d s.spool
  have placed : id ∈ ids (s.spool.dead ++ d.dead) →
      (s.reconciled i d (reconcile serde d s.spool)).Accounts id := by
    intro h
    rcases Bounded.mem_of_split hdead h with h | h
    · exact Or.inr (Or.inr (Or.inr (mem_removed (List.mem_cons_of_mem _ List.mem_cons_self) h)))
    · exact Or.inr (Or.inl h)
  refine hid.mono ?_ (fun h => placed (ids_append _ _ ▸ List.mem_append_left _ h))
    (fun _ h => h) (fun b hb => List.mem_cons_of_mem _ (List.mem_cons_of_mem _ hb))
  intro hp
  by_cases hdel : id ∈ d.delivered
  · exact Or.inr (Or.inr (Or.inl (hw.delivered id hdel)))
  by_cases hdd : id ∈ ids d.dead
  · exact placed (ids_append _ _ ▸ List.mem_append_right _ hdd)
  rcases Bounded.mem_of_split hpending (hw.mem_keep.mpr ⟨hp, hdel, hdd⟩) with h | h
  · exact Or.inr (Or.inr (Or.inr (mem_removed List.mem_cons_self h)))
  · exact Or.inl h

theorem replayed_accounts {r : Replayed} {tenant : Option String} {now : ℕ} {id : String}
    (h : replayDeadLetters serde tenant now s.spool = .ok r) (hid : s.Accounts id) :
    (s.replayed r).Accounts id := by
  have hperm := (replay_spec h).2
  have placed : id ∈ ids s.spool.pending ++ ids s.spool.dead → (s.replayed r).Accounts id := by
    intro hmem
    rcases List.mem_append.mp (hperm.mem_iff.mpr hmem) with h | h
    · exact Or.inr (Or.inr (Or.inr (mem_removed List.mem_cons_self h)))
    rcases List.mem_append.mp h with h | h
    · exact Or.inl h
    · exact Or.inr (Or.inl h)
  exact hid.mono (fun h => placed (List.mem_append_left _ h))
    (fun h => placed (List.mem_append_right _ h)) (fun _ h => h)
    (fun b hb => List.mem_cons_of_mem _ hb)

theorem State.Conserved.drain {i : ℕ} {d? : Option Drain} (new : List String)
    (hs : s.Conserved serde) (hd : ∀ d, d? = some d → d.WellFormed (new ++ s.acked)) :
    ({ s.setDrain i d? with acked := new ++ s.acked } : State).Conserved serde := by
  refine ⟨update_wellFormed new hs.drains hd, ?_, hs.justified⟩
  intro id hid
  exact (hs.enqueued id hid).mono Or.inl (fun h => Or.inr (Or.inl h))
    (fun _ h => List.mem_append_right _ h) (fun _ h => h)

theorem step_conserved {a : Action} (hs : s.Conserved serde) (h : step serde s a = some t) :
    t.Conserved serde := by
  have hdrain : a.readsOnly → t.Conserved serde := by
    intro ha
    obtain ⟨i, d, new, rfl, hw, -⟩ := step_drain h ha
    exact hs.drain new fun _ hd => Option.some.inj hd ▸ hw hs.drains
  cases a with
  | enqueue eventId payload now =>
      cases h
      refine ⟨hs.drains, ?_, ?_⟩
      · intro id hid
        apply accepted_accounts
        exact (List.mem_cons.mp hid).imp_right (hs.enqueued id)
      · intro b hb
        rcases List.mem_cons.mp hb with rfl | hb
        · exact enqueue_justified _ _ _ _ _
        · exact hs.justified b hb
  | load i force now => exact hdrain rfl
  | skip i => exact hdrain rfl
  | post i outcome now => exact hdrain rfl
  | reconcile i =>
      obtain ⟨d, hd, rfl⟩ := step_reconcile h
      have hw := hs.drains i d hd
      refine ⟨update_wellFormed [] hs.drains (fun _ h => by cases h), ?_, ?_⟩
      · intro id hid
        exact reconciled_accounts hw (hs.enqueued id hid)
      · intro b hb
        have hj := reconcile_justified serde d s.spool
        rcases List.mem_cons.mp hb with rfl | hb
        · exact hj.1
        rcases List.mem_cons.mp hb with rfl | hb
        · exact hj.2
        · exact hs.justified b hb
  | replay tenant now =>
      rcases step_replay h with rfl | ⟨r, hr, rfl⟩
      · exact hs
      · refine ⟨hs.drains, fun id hid => replayed_accounts hr (hs.enqueued id hid), ?_⟩
        intro b hb
        rcases List.mem_cons.mp hb with rfl | hb
        · exact (replay_spec hr).1
        · exact hs.justified b hb
  | crash i =>
      cases h
      exact hs.drain [] fun _ h => by cases h

theorem init_conserved (spool : Spool) : (State.init spool).Conserved serde :=
  ⟨fun _ _ h => (by cases h), fun _ h => absurd h List.not_mem_nil,
    fun _ h => absurd h List.not_mem_nil⟩

/-- No event is lost: what `enqueue` accepted is pending, dead-lettered,
acknowledged, or removed by a bound that was exceeded, oldest first. A reconcile
passes on every record its drain did not load. -/
theorem conservation {spool : Spool} {as : List Action}
    (h : Path (step serde) unguarded (State.init spool) as s) :
    (∀ id ∈ s.enqueued, s.Accounts id) ∧
    (∀ b ∈ s.compactions, b.Justified serde) ∧
    ∀ i d t, s.drains i = some d → step serde s (.reconcile i) = some t →
      ∀ r ∈ s.spool.pending, r.eventId ∉ ids d.snapshot →
        r ∈ t.spool.pending ∨ r ∈ (reconcile serde d s.spool).pending.removed := by
  have hs : s.Conserved serde := h.invariant
    (fun _ _ _ hc _ ht => step_conserved hc ht) (init_conserved spool)
  refine ⟨hs.enqueued, hs.justified, ?_⟩
  intro i d t hd ht r hr hnew
  obtain ⟨d', hd', rfl⟩ := step_reconcile ht
  obtain rfl : d = d' := Option.some.inj (hd.symm.trans hd')
  have hkeep := (hs.drains i d hd).mem_keep_of_not_snapshot hr hnew
  rw [← reconcile_pending_split serde] at hkeep
  exact (List.mem_append.mp hkeep).symm

/-- A serializer to run the model with: every field of a line that may vary in
length stands in the text. -/
def plainSerde : Serde :=
  { toString := fun r => r.eventId ++ r.payload ++ toString r.attempts
    fromStr := fun payload => some (.object [("tenant_id", .string payload)]) }

/-- An event enqueued while the drain of an earlier one is posting. -/
def enqueueDuringDrain : List Action :=
  [.enqueue "a" "t" 1, .load 0 false 2, .enqueue "b" "t" 3, .post 0 (.status 201) 4,
    .reconcile 0]

theorem conservation_enqueueDuringDrain :
    ∃ s, execute (step plainSerde) (State.init ⟨[], []⟩) enqueueDuringDrain = some s ∧
      ids s.spool.pending = ["b"] ∧ s.acked = ["a"] ∧ ∀ id ∈ s.enqueued, s.Accounts id := by
  have h : execute (step plainSerde) (State.init ⟨[], []⟩) enqueueDuringDrain = some _ := rfl
  exact ⟨_, h, rfl, rfl, (conservation (Path.of_execute h)).1⟩

end

end BlackMonolith.Outbox
