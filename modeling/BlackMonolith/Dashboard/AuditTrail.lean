import BlackMonolith.Dashboard.Triage

/-!
# The trail ends in the current state

The lock makes each entry continue the one committed before it. The trail is
displayed by the times at which the transactions began, so it is a chain as long
as no transaction commits that began before one committed already.
-/
namespace BlackMonolith.Dashboard
open Library

/-- Each entry, newest first, starts from the status the next one left. -/
def Linked : List AuditEntry → Prop
  | [] => True
  | [oldest] => oldest.fromStatus = none
  | entry :: earlier :: rest =>
      entry.fromStatus = some earlier.toStatus ∧ Linked (earlier :: rest)

/-- What an entry and a triage row both say of an incident. -/
abbrev Standing := IncidentStatus × Option JsString × Option Resolution

def AuditEntry.standing (e : AuditEntry) : Standing := (e.toStatus, e.assignee, e.resolution)
def TriageRow.standing (row : TriageRow) : Standing := (row.status, row.assignee, row.resolution)
def Triage.standing (t : Triage) : Standing := (t.status, t.assignee, t.resolution)

/-- The newest entry is the current state; without entries there is none. -/
def EndsIn (current : Option Standing) (trail : List AuditEntry) : Prop :=
  trail.head?.map AuditEntry.standing = current

instance (current : Option Standing) (trail : List AuditEntry) : Decidable (EndsIn current trail) :=
  inferInstanceAs (Decidable (_ = _))

/-- What `getAuditTrail` returns accounts for the triage row. -/
def Desk.Accounted (s : Desk) : Prop :=
  Linked s.getAuditTrail ∧ EndsIn (s.triage.map TriageRow.standing) s.getAuditTrail

instance decidableLinked : (trail : List AuditEntry) → Decidable (Linked trail)
  | [] => isTrue trivial
  | [oldest] => inferInstanceAs (Decidable (oldest.fromStatus = none))
  | entry :: earlier :: rest =>
      have := decidableLinked (earlier :: rest)
      inferInstanceAs (Decidable (entry.fromStatus = some earlier.toStatus ∧ _))

instance (s : Desk) : Decidable s.Accounted := inferInstanceAs (Decidable (_ ∧ _))

/-- No transaction commits that began before one committed already. -/
def InOrder (s : Desk) : Action → Prop
  | .commit id => ∀ tx ∈ s.transactions id, ∀ row ∈ s.audit, row.atTime ≤ tx.start
  | _ => True

instance (s : Desk) : (action : Action) → Decidable (InOrder s action)
  | .commit id => inferInstanceAs
      (Decidable (∀ tx ∈ s.transactions id, ∀ row ∈ s.audit, row.atTime ≤ tx.start))
  | .start _ _ _ | .lock _ | .select _ | .upsert _ | .append _ | .rollback _ | .elsewhere =>
      inferInstanceAs (Decidable True)

/-- Every step of the run is in order. -/
def RunsInOrder : Desk → List Action → Prop
  | _, [] => True
  | s, action :: actions =>
      InOrder s action ∧
        match s.step action with
        | some s' => RunsInOrder s' actions
        | none => True

instance decidableRunsInOrder :
    (s : Desk) → (actions : List Action) → Decidable (RunsInOrder s actions)
  | _, [] => isTrue trivial
  | s, action :: actions =>
      match h : s.step action with
      | some s' =>
          have := decidableRunsInOrder s' actions
          decidable_of_iff (InOrder s action ∧ RunsInOrder s' actions) (by rw [RunsInOrder, h])
      | none => decidable_of_iff (InOrder s action) (by rw [RunsInOrder, h, and_true])

/-! ## The invariant -/

/-- What an open transaction knows of the committed rows, once it has the lock. -/
def Phase.Follows (s : Desk) (tx : Transaction) : Phase → Prop
  | .begun => True
  | .locked => True
  | .read fromStatus => fromStatus = s.triage.map (·.status)
  | .upserted fromStatus row =>
      fromStatus = s.triage.map (·.status) ∧ row = upsertTriage s.triage tx.transition tx.start
  | .audited row entry =>
      row = upsertTriage s.triage tx.transition tx.start ∧
        entry = auditRow entry.auditId tx.start (s.triage.map (·.status)) tx.transition row ∧
        entry.auditId < s.sequence ∧ ∀ older ∈ s.audit, older.auditId < entry.auditId

/-- The rows written under the lock, in the order of the commits. -/
structure Desk.Consistent (s : Desk) : Prop where
  linked : Linked (s.audit.map toEntry)
  endsIn : EndsIn (s.triage.map TriageRow.standing) (s.audit.map toEntry)
  ids : ∀ row ∈ s.audit, row.auditId < s.sequence
  holds : ∀ id tx, s.transactions id = some tx → tx.phase ≠ .begun → s.holder = some id
  follows : ∀ id tx, s.transactions id = some tx → tx.phase.Follows s tx

/-- The entries are displayed in the order of their commits. -/
def Desk.Sorted (s : Desk) : Prop := s.audit.Pairwise displayed

theorem Desk.consistent_init : Desk.init.Consistent where
  linked := trivial
  endsIn := rfl
  ids := by
    intro row h
    cases h
  holds := by
    intro id tx h
    cases h
  follows := by
    intro id tx h
    cases h

section
variable {s s' : Desk} {id : ℕ} {tx : Transaction}

theorem Phase.Follows.mono {phase : Phase} (h : phase.Follows s tx)
    (htriage : s'.triage = s.triage) (haudit : s'.audit = s.audit)
    (hsequence : s.sequence ≤ s'.sequence) : phase.Follows s' tx := by
  cases phase with
  | begun => trivial
  | locked => trivial
  | read fromStatus => exact h.trans (by rw [htriage])
  | upserted fromStatus row => exact ⟨h.1.trans (by rw [htriage]), h.2.trans (by rw [htriage])⟩
  | audited row entry =>
      obtain ⟨hrow, hentry, hid, hold⟩ := h
      refine ⟨by rw [htriage]; exact hrow, by rw [htriage]; exact hentry, by omega, ?_⟩
      rw [haudit]
      exact hold

/-- A statement that writes nothing visible. The lock stays where it was, or was
free and goes to the transaction. -/
theorem Desk.Consistent.enter (h : s.Consistent) {phase : Phase} {holder : Option ℕ}
    {sequence : ℕ} (hsequence : s.sequence ≤ sequence)
    (hholder : holder = s.holder ∨ s.holder = none)
    (hphase : phase = .begun ∨ holder = some id)
    (hfollows : phase.Follows { s with sequence } { tx with phase }) :
    { s.enter id tx phase with holder, sequence }.Consistent where
  linked := h.linked
  endsIn := h.endsIn
  ids := by
    intro row hrow
    have := h.ids row hrow
    dsimp only
    omega
  holds := by
    intro other tx' htx hbegun
    dsimp only [Desk.enter] at htx ⊢
    by_cases hid : other = id
    · subst hid
      rw [Function.update_self, Option.some.injEq] at htx
      subst htx
      exact hphase.resolve_left hbegun
    · rw [Function.update_of_ne hid] at htx
      have hother := h.holds other tx' htx hbegun
      cases hholder with
      | inl hsame => rw [hsame, hother]
      | inr hfree =>
          rw [hfree] at hother
          cases hother
  follows := by
    intro other tx' htx
    dsimp only [Desk.enter] at htx
    by_cases hid : other = id
    · subst hid
      rw [Function.update_self, Option.some.injEq] at htx
      subst htx
      exact hfollows.mono rfl rfl le_rfl
    · rw [Function.update_of_ne hid] at htx
      exact (h.follows other tx' htx).mono rfl rfl hsequence

theorem Desk.Consistent.close (h : s.Consistent) : (s.close id).Consistent where
  linked := h.linked
  endsIn := h.endsIn
  ids := h.ids
  holds := by
    intro other tx' htx hbegun
    dsimp only [Desk.close] at htx ⊢
    have hid : other ≠ id := by
      intro heq
      rw [heq, Function.update_self] at htx
      cases htx
    rw [Function.update_of_ne hid] at htx
    have hother := h.holds other tx' htx hbegun
    rw [hother, if_neg fun heq => hid (Option.some.inj heq)]
  follows := by
    intro other tx' htx
    dsimp only [Desk.close] at htx
    have hid : other ≠ id := by
      intro heq
      rw [heq, Function.update_self] at htx
      cases htx
    rw [Function.update_of_ne hid] at htx
    exact (h.follows other tx' htx).mono rfl rfl le_rfl

/-- An entry that starts from the current status continues the trail. -/
theorem Linked.cons {trail : List AuditEntry} {current : Option Standing} (h : Linked trail)
    (hends : EndsIn current trail) {entry : AuditEntry}
    (hentry : entry.fromStatus = current.map (·.1)) : Linked (entry :: trail) := by
  subst hends
  cases trail with
  | nil => exact hentry
  | cons newest trail => exact ⟨hentry, h⟩

/-- A commit by the holder of the lock: nobody else has read what it replaces. -/
theorem Desk.Consistent.commit (h : s.Consistent) (htx : s.transactions id = some tx)
    {row : TriageRow} {entry : AuditRow} (hphase : tx.phase = .audited row entry) :
    { s.close id with triage := some row, audit := entry :: s.audit }.Consistent := by
  have hfollows := h.follows id tx htx
  rw [hphase] at hfollows
  obtain ⟨hrow, hentry, hid, hold⟩ := hfollows
  have hholder : s.holder = some id := h.holds id tx htx (by rw [hphase]; exact Phase.noConfusion)
  have hothers : ∀ other tx', (s.close id).transactions other = some tx' → tx'.phase = .begun := by
    intro other tx' htx'
    by_contra hbegun
    have hclosed : (s.close id).Consistent := h.close
    have hother := hclosed.holds other tx' htx' hbegun
    dsimp only [Desk.close] at hother
    rw [if_pos hholder] at hother
    cases hother
  constructor
  · apply h.linked.cons h.endsIn
    rw [Option.map_map, hentry]
    rfl
  · have hstanding : (toEntry entry).standing = row.standing := by
      rw [hentry, hrow]
      rfl
    exact congrArg some hstanding
  · intro other hother
    cases List.mem_cons.mp hother with
    | inl heq => exact heq ▸ hid
    | inr hmem => exact h.ids other hmem
  · intro other tx' htx' hbegun
    exact absurd (hothers other tx' htx') hbegun
  · intro other tx' htx'
    rw [hothers other tx' htx']
    trivial

theorem Desk.Consistent.step (h : s.Consistent) {action : Action} (hstep : s.step action = some s') :
    s'.Consistent := by
  cases action with
  | start id t now =>
      simp only [Desk.step] at hstep
      split at hstep
      · cases hstep
        exact h.enter le_rfl (Or.inl rfl) (Or.inl rfl) trivial
      · cases hstep
  | lock id =>
      simp only [Desk.step] at hstep
      split at hstep
      · next tx htx hfree =>
          split_ifs at hstep
          cases hstep
          exact h.enter le_rfl (Or.inr hfree) (Or.inr rfl) trivial
      · cases hstep
  | select id =>
      simp only [Desk.step] at hstep
      split at hstep
      · next tx htx =>
          split_ifs at hstep with hphase
          cases hstep
          have hholder := h.holds id tx htx (by rw [hphase]; exact Phase.noConfusion)
          exact h.enter le_rfl (Or.inl rfl) (Or.inr hholder) rfl
      · cases hstep
  | upsert id =>
      simp only [Desk.step] at hstep
      split at hstep
      · next tx htx =>
          split at hstep
          · next fromStatus hphase =>
              cases hstep
              have hholder := h.holds id tx htx (by rw [hphase]; exact Phase.noConfusion)
              have hfollows := h.follows id tx htx
              rw [hphase] at hfollows
              exact h.enter le_rfl (Or.inl rfl) (Or.inr hholder) ⟨hfollows, rfl⟩
          · cases hstep
      · cases hstep
  | append id =>
      simp only [Desk.step] at hstep
      split at hstep
      · next tx htx =>
          split at hstep
          · next fromStatus row hphase =>
              cases hstep
              have hholder := h.holds id tx htx (by rw [hphase]; exact Phase.noConfusion)
              have hfollows := h.follows id tx htx
              rw [hphase] at hfollows
              obtain ⟨hfrom, hrow⟩ := hfollows
              apply h.enter (Nat.le_succ _) (Or.inl rfl) (Or.inr hholder)
              exact ⟨hrow, by rw [← hfrom]; rfl, Nat.lt_succ_self _, h.ids⟩
          · cases hstep
      · cases hstep
  | commit id =>
      simp only [Desk.step] at hstep
      split at hstep
      · next tx htx =>
          split at hstep
          · next row entry hphase =>
              cases hstep
              exact h.commit htx hphase
          · cases hstep
      · cases hstep
  | rollback id =>
      simp only [Desk.step] at hstep
      split at hstep
      · cases hstep
        exact h.close
      · cases hstep
  | elsewhere =>
      cases hstep
      constructor
      · exact h.linked
      · exact h.endsIn
      · exact fun row hrow => (h.ids row hrow).trans (Nat.lt_succ_self _)
      · exact h.holds
      · exact fun id tx htx => (h.follows id tx htx).mono rfl rfl (Nat.le_succ _)

/-- A step adds no entry, or the one of a transaction that commits. -/
theorem Desk.step_audit {action : Action} (hstep : s.step action = some s') :
    s'.audit = s.audit ∨ ∃ id tx row entry, action = .commit id ∧ s.transactions id = some tx ∧
      tx.phase = .audited row entry ∧ s'.audit = entry :: s.audit := by
  cases action with
  | commit id =>
      simp only [Desk.step] at hstep
      split at hstep
      · next tx htx =>
          split at hstep
          · next row entry hphase =>
              cases hstep
              exact Or.inr ⟨id, tx, row, entry, rfl, htx, hphase, rfl⟩
          · cases hstep
      · cases hstep
  | elsewhere =>
      cases hstep
      exact Or.inl rfl
  | start id t now =>
      simp only [Desk.step] at hstep
      split at hstep <;> cases hstep
      exact Or.inl rfl
  | lock id =>
      simp only [Desk.step] at hstep
      split at hstep
      · split_ifs at hstep
        cases hstep
        exact Or.inl rfl
      · cases hstep
  | select id =>
      simp only [Desk.step] at hstep
      split at hstep
      · split_ifs at hstep
        cases hstep
        exact Or.inl rfl
      · cases hstep
  | upsert id =>
      simp only [Desk.step] at hstep
      split at hstep
      · split at hstep <;> cases hstep
        exact Or.inl rfl
      · cases hstep
  | append id =>
      simp only [Desk.step] at hstep
      split at hstep
      · split at hstep <;> cases hstep
        exact Or.inl rfl
      · cases hstep
  | rollback id =>
      simp only [Desk.step] at hstep
      split at hstep <;> cases hstep
      exact Or.inl rfl

theorem Desk.Sorted.step (h : s.Consistent) (hsorted : s.Sorted) {action : Action}
    (horder : InOrder s action) (hstep : s.step action = some s') : s'.Sorted := by
  unfold Desk.Sorted
  cases Desk.step_audit hstep with
  | inl hsame =>
      rw [hsame]
      exact hsorted
  | inr hcommit =>
      obtain ⟨id, tx, row, entry, rfl, htx, hphase, haudit⟩ := hcommit
      have hfollows := h.follows id tx htx
      rw [hphase] at hfollows
      obtain ⟨-, hentry, -, hold⟩ := hfollows
      have htime : entry.atTime = tx.start := by rw [hentry]; rfl
      rw [haudit, List.pairwise_cons]
      refine ⟨fun older holder => ?_, hsorted⟩
      have hle := horder tx htx older holder
      have hid := hold older holder
      unfold displayed
      rw [Prod.Lex.toLex_le_toLex, htime]
      cases Nat.lt_or_eq_of_le hle with
      | inl hlt => exact Or.inl hlt
      | inr heq => exact Or.inr ⟨heq, hid.le⟩

/-- Entries in the order of their commits are displayed as they were written. -/
theorem Desk.getAuditTrail_of_sorted (h : s.Sorted) :
    s.getAuditTrail = s.audit.map toEntry := by
  unfold Desk.getAuditTrail
  rw [List.Pairwise.insertionSort_eq h]

end

theorem run_accounted {s s' : Desk} {actions : List Action} (h : s.Consistent) (hsorted : s.Sorted)
    (hrun : s.run actions = some s') (horder : RunsInOrder s actions) : s'.Accounted := by
  induction actions generalizing s with
  | nil =>
      cases hrun
      unfold Desk.Accounted
      rw [Desk.getAuditTrail_of_sorted hsorted]
      exact ⟨h.linked, h.endsIn⟩
  | cons action actions ih =>
      unfold Desk.run at hrun
      rw [List.foldlM_cons] at hrun
      obtain ⟨s₁, hstep, hrest⟩ := Option.bind_eq_some_iff.mp hrun
      obtain ⟨hfirst, hlater⟩ := horder
      rw [hstep] at hlater
      exact ih (h.step hstep) (hsorted.step h hfirst hstep) hrest hlater

/-- Whatever the interleaving, the trail is a chain that ends in the triage row
as long as no transaction commits that began before one committed already. -/
theorem trail_ends_in_state {actions : List Action} {s : Desk}
    (hrun : Desk.init.run actions = some s) (horder : RunsInOrder .init actions) :
    s.Accounted :=
  run_accounted Desk.consistent_init List.Pairwise.nil hrun horder

/-- In memory, where one call ends before the next begins, the trail is always
a chain that ends in the triage. -/
theorem memory_trail_ends_in_state (calls : List (Transition × ℕ)) :
    let s := calls.foldl (fun s call => s.applyTransition call.1 call.2) MemoryDesk.init
    Linked s.trail ∧ EndsIn (s.triage.map Triage.standing) s.trail := by
  have hstep : ∀ (s : MemoryDesk) (t : Transition) (now : ℕ),
      Linked s.trail ∧ EndsIn (s.triage.map Triage.standing) s.trail →
        Linked (s.applyTransition t now).trail ∧
          EndsIn ((s.applyTransition t now).triage.map Triage.standing)
            (s.applyTransition t now).trail := by
    intro s t now h
    refine ⟨h.1.cons h.2 ?_, rfl⟩
    rw [Option.map_map]
    rfl
  induction calls using List.reverseRec with
  | nil => exact ⟨trivial, rfl⟩
  | append_singleton calls call ih =>
      rw [List.foldl_append]
      exact hstep _ call.1 call.2 ih

/-! ## Two writers -/

def acknowledge : Transition := ⟨.acknowledged, .ofString "ana", none, none, none⟩
def resolve : Transition := ⟨.resolved, .ofString "ben", none, none, some .benign⟩

/-- The statements of one transaction after its start. -/
def writes (id : ℕ) : List Action := [.lock id, .select id, .upsert id, .append id, .commit id]

def inTurn : List Action :=
  [.start 1 acknowledge 5, .start 2 resolve 9] ++ writes 1 ++ writes 2

/-- The first writer to begin is the first to get the lock. -/
theorem ends_in_state_in_turn : ∃ s, Desk.init.run inTurn = some s ∧ s.Accounted := by
  obtain ⟨s, hrun⟩ : ∃ s, Desk.init.run inTurn = some s :=
    Option.isSome_iff_exists.mp (by decide)
  exact ⟨s, hrun, trail_ends_in_state hrun (by decide)⟩

def outOfTurn : List Action :=
  [.start 1 resolve 5, .start 2 acknowledge 9] ++ writes 2 ++ writes 1

/-- The second writer to begin gets the lock first: the trail then ends in the
status that was replaced. -/
theorem ends_elsewhere_out_of_turn : ∃ s, Desk.init.run outOfTurn = some s ∧ ¬ s.Accounted := by
  obtain ⟨s, hrun⟩ : ∃ s, Desk.init.run outOfTurn = some s :=
    Option.isSome_iff_exists.mp (by decide)
  have hbroken : ∀ s ∈ Desk.init.run outOfTurn, ¬ s.Accounted := by decide
  exact ⟨s, hrun, hbroken s hrun⟩

end BlackMonolith.Dashboard
