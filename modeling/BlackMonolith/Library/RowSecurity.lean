import Mathlib.Data.List.Nodup
import Mathlib.Logic.Function.Basic

/-!
# Row security

A database whose tables carry policies, as Postgres has them: a policy says of a row, in the
context of a statement, whether the statement may read, change or delete it, and of a new row
whether it may be written. A statement that reads columns is under the policy for reading as
well. What no policy allows a context to write stays as it is, whatever statements run in that
context.
-/
namespace BlackMonolith.Library.RowSecurity

/-- What the tables hold. -/
abbrev Tables {ι : Type} (Row : ι → Type) := (i : ι) → List (Row i)

/-- What a policy says of a row, with the tables as they are before a statement. -/
abbrev Permit {ι : Type} (κ : Type) (Row : ι → Type) (i : ι) := κ → Tables Row → Row i → Bool

/-- What a role may do with the rows of a table; what it has no grant for is `none`. A policy for
updates is about the old row and about the new one. -/
structure RowPolicy {ι : Type} (κ : Type) (Row : ι → Type) (i : ι) where
  select : Option (Permit κ Row i) := none
  insert : Option (Permit κ Row i) := none
  update : Option (Permit κ Row i × Permit κ Row i) := none
  delete : Option (Permit κ Row i) := none

structure Schema {ι : Type} (κ : Type) (Row : ι → Type) (Key : Type) where
  key : (i : ι) → Row i → Key
  constraint : (i : ι) → Tables Row → Row i → Bool
  policy : (i : ι) → RowPolicy κ Row i

inductive OnConflict {ι : Type} (Row : ι → Type) (i : ι)
  | refuse
  | doNothing
  | doUpdate (set : Tables Row → Row i → Row i → Option (Row i))

/-- Conditions and new values may ask for whatever the context may read. A statement `reads` if
it has a condition on columns or returns rows. -/
inductive Statement {ι : Type} (Row : ι → Type)
  | select (i : ι) (condition : Tables Row → Row i → Bool)
  | insert (i : ι) (rows : Tables Row → List (Row i)) (conflict : OnConflict Row i)
      (returning : Bool)
  | update (i : ι) (condition : Tables Row → Row i → Bool) (set : Tables Row → Row i → Row i)
      (reads : Bool)
  | delete (i : ι) (condition : Tables Row → Row i → Bool) (reads : Bool)

inductive StatementError
  | permission
  | rowSecurity
  | constraint
  | uniqueness
deriving DecidableEq

structure Reply {ι : Type} (Row : ι → Type) where
  rows : List (Σ i, Row i)
  count : ℕ

variable {ι κ Key α : Type} {Row : ι → Type}

def OnConflict.reads {i : ι} : OnConflict Row i → Bool
  | .doUpdate _ => true
  | _ => false

def Reply.ofRows {i : ι} (returned : Bool) (rows : List (Row i)) : Reply Row where
  rows := if returned then rows.map (⟨i, ·⟩) else []
  count := rows.length

namespace Schema
variable (S : Schema κ Row Key) (c : κ) (db : Tables Row)

def permits {i : ι} (permit : Option (Permit κ Row i)) (row : Row i) : Bool :=
  match permit with
  | some permit => permit c db row
  | none => false

def mayRead {i : ι} (row : Row i) : Bool := permits c db (S.policy i).select row

def mayInsert {i : ι} (row : Row i) : Bool := permits c db (S.policy i).insert row

def mayUpdate {i : ι} (row : Row i) : Bool :=
  permits c db ((S.policy i).update.map Prod.fst) row

def mayWrite {i : ι} (row : Row i) : Bool :=
  permits c db ((S.policy i).update.map Prod.snd) row

def mayDelete {i : ι} (row : Row i) : Bool := permits c db (S.policy i).delete row

/-- What a context can read. -/
def visible : Tables Row := fun i => (db i).filter (S.mayRead c db)

/-! ## Statements -/

section
variable [DecidableEq Key] {i : ι}

/-- A row that is inserted; the second list holds the rows that are returned. -/
def insertRow (conflict : OnConflict Row i) (returning : Bool)
    (done : List (Row i) × List (Row i)) (row : Row i) :
    Except StatementError (List (Row i) × List (Row i)) :=
  if ¬ (S.mayInsert c db row &&
      (!(returning || conflict.reads) || S.mayRead c db row)) then .error .rowSecurity
  else if ¬ S.constraint i db row then .error .constraint
  else
    match done.1.findIdx? (fun old => S.key i old = S.key i row) with
    | none => .ok (done.1 ++ [row], done.2 ++ [row])
    | some j =>
        match conflict, done.1[j]? with
        | .doNothing, _ => .ok done
        | .doUpdate set, some old =>
            match set (S.visible c db) old row with
            | none => .ok done
            | some new =>
                if ¬ (S.mayUpdate c db old && S.mayRead c db old && S.mayWrite c db new &&
                    S.mayRead c db new) then .error .rowSecurity
                else if ¬ S.constraint i db new then .error .constraint
                else .ok (done.1.set j new, done.2 ++ [new])
        | _, _ => .error .uniqueness

def insertRows (conflict : OnConflict Row i) (returning : Bool) :
    List (Row i) → List (Row i) × List (Row i) →
      Except StatementError (List (Row i) × List (Row i))
  | [], done => .ok done
  | row :: rows, done =>
      match S.insertRow c db conflict returning done row with
      | .error error => .error error
      | .ok done => insertRows conflict returning rows done

end

def updates {i : ι} (condition : Tables Row → Row i → Bool) (reads : Bool) (row : Row i) : Bool :=
  S.mayUpdate c db row && (!reads || S.mayRead c db row) && condition (S.visible c db) row

def deletes {i : ι} (condition : Tables Row → Row i → Bool) (reads : Bool) (row : Row i) : Bool :=
  S.mayDelete c db row && (!reads || S.mayRead c db row) && condition (S.visible c db) row

section
variable [DecidableEq ι] [DecidableEq Key]

/-- The end of a statement that has changed a table. -/
def keep (i : ι) (rows : List (Row i)) (reply : Reply Row) :
    Except StatementError (Tables Row × Reply Row) :=
  if (rows.map (S.key i)).Nodup then .ok (Function.update db i rows, reply)
  else .error .uniqueness

def run : Statement Row → Except StatementError (Tables Row × Reply Row)
  | .select i condition =>
      if (S.policy i).select.isNone then .error .permission
      else .ok (db, .ofRows true ((S.visible c db i).filter (condition (S.visible c db))))
  | .insert i rows conflict returning =>
      if (S.policy i).insert.isNone ||
          (conflict.reads && (S.policy i).update.isNone) ||
          ((returning || conflict.reads) && (S.policy i).select.isNone) then .error .permission
      else
        match S.insertRows c db conflict returning (rows (S.visible c db)) (db i, []) with
        | .error error => .error error
        | .ok (table, written) => S.keep db i table (.ofRows returning written)
  | .update i condition set reads =>
      if (S.policy i).update.isNone || (reads && (S.policy i).select.isNone) then
        .error .permission
      else
        let touched := (db i).filter (S.updates c db condition reads)
        let written := touched.map (set (S.visible c db))
        if ¬ written.all (fun row => S.mayWrite c db row && (!reads || S.mayRead c db row)) then
          .error .rowSecurity
        else if ¬ written.all (S.constraint i db) then .error .constraint
        else
          S.keep db i ((db i).map fun row =>
            if S.updates c db condition reads row then set (S.visible c db) row else row)
            (.ofRows reads written)
  | .delete i condition reads =>
      if (S.policy i).delete.isNone || (reads && (S.policy i).select.isNone) then
        .error .permission
      else
        S.keep db i ((db i).filter fun row => !S.deletes c db condition reads row)
          (.ofRows reads ((db i).filter (S.deletes c db condition reads)))

end

/-! ## What a statement leaves alone -/

/-- No policy allows the context to write a row of the class. -/
structure Shields (P : (i : ι) → Row i → Bool) : Prop where
  insert : ∀ {i} {row : Row i}, S.mayInsert c db row = true → P i row = false
  update : ∀ {i} {row : Row i}, S.mayUpdate c db row = true → P i row = false
  write : ∀ {i} {row : Row i}, S.mayWrite c db row = true → P i row = false
  delete : ∀ {i} {row : Row i}, S.mayDelete c db row = true → P i row = false

section
variable {S c db}
variable {P : (i : ι) → Row i → Bool} {i : ι} {table : List (Row i)}

theorem filter_concat {row : Row i} (h : P i row = false) :
    (table ++ [row]).filter (P i) = table.filter (P i) := by
  rw [List.filter_append, List.filter_cons_of_neg (h ▸ Bool.false_ne_true), List.filter_nil,
    List.append_nil]

/-- A row of no interest is replaced by another one. -/
theorem filter_set {j : ℕ} {old new : Row i} (hold : table[j]? = some old)
    (h : P i old = false) (h' : P i new = false) :
    (table.set j new).filter (P i) = table.filter (P i) := by
  obtain ⟨hj, rfl⟩ := List.getElem?_eq_some_iff.mp hold
  have hsplit : table = table.take j ++ table[j] :: table.drop (j + 1) := by
    rw [List.getElem_cons_drop, List.take_append_drop]
  rw [List.set_eq_take_append_cons_drop, if_pos hj, List.filter_append,
    List.filter_cons_of_neg (h' ▸ Bool.false_ne_true)]
  conv_rhs => rw [hsplit, List.filter_append, List.filter_cons_of_neg (h ▸ Bool.false_ne_true)]

theorem filter_map_if {changes : Row i → Bool} {f : Row i → Row i}
    (h : ∀ row ∈ table, changes row = true → P i row = false ∧ P i (f row) = false) :
    (table.map fun row => if changes row then f row else row).filter (P i) =
      table.filter (P i) := by
  induction table with
  | nil => rfl
  | cons row table ih =>
      have hrest := ih fun row' hrow' => h row' (List.mem_cons_of_mem _ hrow')
      rw [List.map_cons]
      by_cases hchanges : changes row = true
      · obtain ⟨hold, hnew⟩ := h row List.mem_cons_self hchanges
        rw [if_pos hchanges, List.filter_cons_of_neg (hnew ▸ Bool.false_ne_true),
          List.filter_cons_of_neg (hold ▸ Bool.false_ne_true), hrest]
      · rw [if_neg hchanges, List.filter_cons, List.filter_cons, hrest]

theorem filter_filter_not {removes : Row i → Bool}
    (h : ∀ row ∈ table, removes row = true → P i row = false) :
    (table.filter fun row => !removes row).filter (P i) = table.filter (P i) := by
  rw [List.filter_filter]
  apply List.filter_congr
  intro row hrow
  cases hremoves : removes row with
  | false => exact Bool.and_true _
  | true => rw [h row hrow hremoves]; rfl

section
variable [DecidableEq Key] {conflict : OnConflict Row i} {returning : Bool}
  {done done' : List (Row i) × List (Row i)} {row : Row i} {rows : List (Row i)}

/-- What becomes of a row that is inserted: it is written, another one is written in place of the
one it meets, or nothing is. -/
theorem insertRow_cases (h : S.insertRow c db conflict returning done row = .ok done') :
    (S.mayInsert c db row = true ∧ ((returning || conflict.reads) = true →
        S.mayRead c db row = true) ∧ done' = (done.1 ++ [row], done.2 ++ [row])) ∨
      done' = done ∨
        ∃ j old new, done.1[j]? = some old ∧ S.mayUpdate c db old = true ∧
          S.mayWrite c db new = true ∧ S.mayRead c db new = true ∧
            done' = (done.1.set j new, done.2 ++ [new]) := by
  unfold insertRow at h
  split_ifs at h with hallowed hconstraint
  rw [Bool.and_eq_true] at hallowed
  split at h
  · left
    refine ⟨hallowed.1, fun hreads => ?_, (Except.ok.inj h).symm⟩
    have hread := hallowed.2
    rw [hreads] at hread
    exact hread
  · split at h
    · exact Or.inr (Or.inl (Except.ok.inj h).symm)
    · next j _ _ _ set old hold =>
        split at h
        · exact Or.inr (Or.inl (Except.ok.inj h).symm)
        · next new _ =>
            split_ifs at h with hrights hnew
            rw [Bool.and_eq_true, Bool.and_eq_true, Bool.and_eq_true] at hrights
            obtain ⟨⟨⟨hupdate, -⟩, hwrite⟩, hread⟩ := hrights
            exact Or.inr (Or.inr ⟨j, old, new, hold, hupdate, hwrite, hread,
              (Except.ok.inj h).symm⟩)
    · cases h

theorem insertRows_invariant (Inv : List (Row i) × List (Row i) → Prop)
    (hrow : ∀ {done done' row}, Inv done →
      S.insertRow c db conflict returning done row = .ok done' → Inv done')
    (hdone : Inv done) (h : S.insertRows c db conflict returning rows done = .ok done') :
    Inv done' := by
  induction rows generalizing done with
  | nil =>
      cases h
      exact hdone
  | cons row rows ih =>
      unfold insertRows at h
      split at h
      · cases h
      · next next hnext => exact ih (hrow hdone hnext) h

theorem insertRows_shielded (hshields : S.Shields c db P)
    (h : S.insertRows c db conflict returning rows done = .ok done') :
    done'.1.filter (P i) = done.1.filter (P i) := by
  refine insertRows_invariant (fun d => d.1.filter (P i) = done.1.filter (P i)) ?_ rfl h
  intro d d' row hd hrow
  rw [← hd]
  rcases insertRow_cases hrow with ⟨hinsert, -, rfl⟩ | rfl |
    ⟨j, old, new, hold, hupdate, hwrite, -, rfl⟩
  · exact filter_concat (hshields.insert hinsert)
  · rfl
  · exact filter_set hold (hshields.update hupdate) (hshields.write hwrite)

theorem insertRows_readable {table : List (Row i)} (hreads : (returning || conflict.reads) = true)
    (h : S.insertRows c db conflict returning rows (table, []) = .ok done') :
    ∀ row ∈ done'.2, S.mayRead c db row = true := by
  refine insertRows_invariant (fun d => ∀ row ∈ d.2, S.mayRead c db row = true) ?_
    (fun _ hrow => absurd hrow List.not_mem_nil) h
  intro d d' row hd hrow
  rcases insertRow_cases hrow with ⟨-, hread, rfl⟩ | rfl | ⟨j, old, new, -, -, -, hread, rfl⟩
  · exact List.forall_mem_append.mpr ⟨hd, List.forall_mem_singleton.mpr (hread hreads)⟩
  · exact hd
  · exact List.forall_mem_append.mpr ⟨hd, List.forall_mem_singleton.mpr hread⟩

end

theorem ofRows_mem {returned : Bool} {rows : List (Row i)} {x : Σ i, Row i}
    (hx : x ∈ (Reply.ofRows returned rows).rows) :
    returned = true ∧ ∃ row ∈ rows, x = ⟨i, row⟩ := by
  unfold Reply.ofRows at hx
  dsimp only at hx
  split_ifs at hx with hreturned
  · obtain ⟨row, hrow, rfl⟩ := List.mem_map.mp hx
    exact ⟨hreturned, row, hrow, rfl⟩
  · cases hx

theorem mayUpdate_of_updates {condition : Tables Row → Row i → Bool} {reads : Bool} {row : Row i}
    (h : S.updates c db condition reads row = true) : S.mayUpdate c db row = true := by
  unfold updates at h
  rw [Bool.and_eq_true, Bool.and_eq_true] at h
  exact h.1.1

theorem mayDelete_of_deletes {condition : Tables Row → Row i → Bool} {reads : Bool} {row : Row i}
    (h : S.deletes c db condition reads row = true) :
    S.mayDelete c db row = true ∧ (reads = true → S.mayRead c db row = true) := by
  unfold deletes at h
  rw [Bool.and_eq_true, Bool.and_eq_true] at h
  refine ⟨h.1.1, fun hreads => ?_⟩
  have hread := h.1.2
  rw [hreads] at hread
  exact hread

variable [DecidableEq ι] [DecidableEq Key] {db' : Tables Row} {reply : Reply Row}
  {s : Statement Row}

theorem keep_eq {rows : List (Row i)} {answer : Reply Row}
    (h : S.keep db i rows answer = .ok (db', reply)) :
    (rows.map (S.key i)).Nodup ∧ db' = Function.update db i rows ∧ reply = answer := by
  unfold keep at h
  split_ifs at h with hnodup
  obtain ⟨hdb, hreply⟩ := Prod.mk.inj (Except.ok.inj h)
  exact ⟨hnodup, hdb.symm, hreply.symm⟩

theorem run_select {condition : Tables Row → Row i → Bool}
    (h : S.run c db (.select i condition) = .ok (db', reply)) :
    db' = db ∧ reply = .ofRows true ((S.visible c db i).filter (condition (S.visible c db))) := by
  rw [run] at h
  split_ifs at h
  obtain ⟨hdb, hreply⟩ := Prod.mk.inj (Except.ok.inj h)
  exact ⟨hdb.symm, hreply.symm⟩

theorem run_insert {rows : Tables Row → List (Row i)} {conflict : OnConflict Row i}
    {returning : Bool} (h : S.run c db (.insert i rows conflict returning) = .ok (db', reply)) :
    ∃ table written,
      S.insertRows c db conflict returning (rows (S.visible c db)) (db i, []) =
        .ok (table, written) ∧
      S.keep db i table (.ofRows returning written) = .ok (db', reply) := by
  rw [run] at h
  split_ifs at h
  split at h
  · cases h
  · next table written hinsert => exact ⟨table, written, hinsert, h⟩

theorem run_update {condition : Tables Row → Row i → Bool} {set : Tables Row → Row i → Row i}
    {reads : Bool} (h : S.run c db (.update i condition set reads) = .ok (db', reply)) :
    (∀ row ∈ db i, S.updates c db condition reads row = true →
      S.mayWrite c db (set (S.visible c db) row) = true ∧
        (reads = true → S.mayRead c db (set (S.visible c db) row) = true)) ∧
      S.keep db i ((db i).map fun row =>
          if S.updates c db condition reads row then set (S.visible c db) row else row)
        (.ofRows reads (((db i).filter (S.updates c db condition reads)).map
          (set (S.visible c db)))) = .ok (db', reply) := by
  rw [run] at h
  dsimp only at h
  split_ifs at h with hgrants hwritten hconstraint
  refine ⟨fun row hrow hupdates => ?_, h⟩
  have hrights := List.all_eq_true.mp hwritten _
    (List.mem_map_of_mem (List.mem_filter.mpr ⟨hrow, hupdates⟩))
  rw [Bool.and_eq_true] at hrights
  refine ⟨hrights.1, fun hreads => ?_⟩
  have hread := hrights.2
  rw [hreads] at hread
  exact hread

theorem run_delete {condition : Tables Row → Row i → Bool} {reads : Bool}
    (h : S.run c db (.delete i condition reads) = .ok (db', reply)) :
    S.keep db i ((db i).filter fun row => !S.deletes c db condition reads row)
      (.ofRows reads ((db i).filter (S.deletes c db condition reads))) = .ok (db', reply) := by
  rw [run] at h
  split_ifs at h
  exact h

theorem update_filter {rows : List (Row i)} (h : rows.filter (P i) = (db i).filter (P i)) (j : ι) :
    (Function.update db i rows j).filter (P j) = (db j).filter (P j) := by
  by_cases hj : j = i
  · subst hj
    rw [Function.update_self]
    exact h
  · rw [Function.update_of_ne hj]

/-- Rows that no policy allows the context to write are left alone. -/
theorem run_shielded (hshields : S.Shields c db P) (h : S.run c db s = .ok (db', reply)) (j : ι) :
    (db' j).filter (P j) = (db j).filter (P j) := by
  cases s with
  | select i condition => rw [(run_select h).1]
  | insert i rows conflict returning =>
      obtain ⟨table, written, hinsert, hkeep⟩ := run_insert h
      obtain ⟨-, rfl, -⟩ := keep_eq hkeep
      exact update_filter (insertRows_shielded hshields hinsert) j
  | update i condition set reads =>
      obtain ⟨hwritten, hkeep⟩ := run_update h
      obtain ⟨-, rfl, -⟩ := keep_eq hkeep
      apply update_filter
      apply filter_map_if
      exact fun row hrow hupdates => ⟨hshields.update (mayUpdate_of_updates hupdates),
        hshields.write (hwritten row hrow hupdates).1⟩
  | delete i condition reads =>
      obtain ⟨-, rfl, -⟩ := keep_eq (run_delete h)
      apply update_filter
      apply filter_filter_not
      exact fun row _ hdeletes => hshields.delete (mayDelete_of_deletes hdeletes).1

/-- What is returned is what the context may read. -/
theorem run_readable (h : S.run c db s = .ok (db', reply)) :
    ∀ x ∈ reply.rows, S.mayRead c db x.2 = true := by
  intro x hx
  cases s with
  | select i condition =>
      rw [(run_select h).2] at hx
      obtain ⟨-, row, hrow, rfl⟩ := ofRows_mem hx
      exact (List.mem_filter.mp (List.mem_filter.mp hrow).1).2
  | insert i rows conflict returning =>
      obtain ⟨table, written, hinsert, hkeep⟩ := run_insert h
      rw [(keep_eq hkeep).2.2] at hx
      obtain ⟨hreturning, row, hrow, rfl⟩ := ofRows_mem hx
      have hreads : (returning || conflict.reads) = true := by rw [hreturning, Bool.true_or]
      exact insertRows_readable hreads hinsert row hrow
  | update i condition set reads =>
      obtain ⟨hwritten, hkeep⟩ := run_update h
      rw [(keep_eq hkeep).2.2] at hx
      obtain ⟨hreads, row, hrow, rfl⟩ := ofRows_mem hx
      obtain ⟨old, hold, rfl⟩ := List.mem_map.mp hrow
      obtain ⟨hmem, hupdates⟩ := List.mem_filter.mp hold
      exact (hwritten old hmem hupdates).2 hreads
  | delete i condition reads =>
      rw [(keep_eq (run_delete h)).2.2] at hx
      obtain ⟨hreads, row, hrow, rfl⟩ := ofRows_mem hx
      exact (mayDelete_of_deletes (List.mem_filter.mp hrow).2).2 hreads

/-- Keys stay unique. -/
theorem run_keyed {j : ι} (hkeyed : ((db j).map (S.key j)).Nodup)
    (h : S.run c db s = .ok (db', reply)) : ((db' j).map (S.key j)).Nodup := by
  have hkept : ∀ {i : ι} {rows : List (Row i)} {answer : Reply Row},
      S.keep db i rows answer = .ok (db', reply) → ((db' j).map (S.key j)).Nodup := by
    intro i rows answer hkeep
    obtain ⟨hnodup, rfl, -⟩ := keep_eq hkeep
    by_cases hj : j = i
    · subst hj
      rw [Function.update_self]
      exact hnodup
    · rw [Function.update_of_ne hj]
      exact hkeyed
  cases s with
  | select i condition =>
      rw [(run_select h).1]
      exact hkeyed
  | insert i rows conflict returning =>
      obtain ⟨table, written, -, hkeep⟩ := run_insert h
      exact hkept hkeep
  | update i condition set reads => exact hkept (run_update h).2
  | delete i condition reads => exact hkept (run_delete h)

end
end Schema

/-! ## Units of work -/

/-- What code does in one transaction: each statement may depend on the replies before it, and
code that throws rolls all of them back. A statement that fails ends the transaction, unless it
is attempted under a savepoint. -/
inductive Work {ι : Type} (Row : ι → Type) (α : Type)
  | done (value : α)
  | throw
  | statement (s : Statement Row) (next : Reply Row → Work Row α)
  | attempt (s : Statement Row) (next : Option (Reply Row) → Work Row α)

namespace Schema
variable [DecidableEq ι] [DecidableEq Key] (S : Schema κ Row Key) (c : κ)

/-- The tables at the end and the result; `none` if it is rolled back. -/
def perform : Tables Row → Work Row α → Option (Tables Row × α)
  | db, .done value => some (db, value)
  | _, .throw => none
  | db, .statement s next =>
      match S.run c db s with
      | .error _ => none
      | .ok (db, reply) => perform db (next reply)
  | db, .attempt s next =>
      match S.run c db s with
      | .error _ => perform db (next none)
      | .ok (db, reply) => perform db (next (some reply))

/-- The replies, each with the tables it was read from. -/
def replies : Tables Row → Work Row α → List (Tables Row × Reply Row)
  | _, .done _ => []
  | _, .throw => []
  | db, .statement s next =>
      match S.run c db s with
      | .error _ => []
      | .ok (db', reply) => (db, reply) :: replies db' (next reply)
  | db, .attempt s next =>
      match S.run c db s with
      | .error _ => replies db (next none)
      | .ok (db', reply) => (db, reply) :: replies db' (next (some reply))

def transact (db : Tables Row) (work : Work Row α) : Tables Row :=
  match S.perform c db work with
  | some (db, _) => db
  | none => db

variable {S c} {Inv : Tables Row → Prop} {db db' : Tables Row} {work : Work Row α} {value : α}

/-- What every statement of a context preserves, a unit of work preserves. -/
theorem perform_invariant
    (hrun : ∀ db db' s reply, Inv db → S.run c db s = .ok (db', reply) → Inv db')
    (hdb : Inv db) (h : S.perform c db work = some (db', value)) : Inv db' := by
  induction work generalizing db with
  | done value' =>
      cases h
      exact hdb
  | throw => cases h
  | statement s next ih =>
      unfold perform at h
      split at h
      · cases h
      · next db₁ reply hs => exact ih reply (hrun _ _ _ _ hdb hs) h
  | attempt s next ih =>
      unfold perform at h
      split at h
      · exact ih none hdb h
      · next db₁ reply hs => exact ih (some reply) (hrun _ _ _ _ hdb hs) h

theorem transact_invariant
    (hrun : ∀ db db' s reply, Inv db → S.run c db s = .ok (db', reply) → Inv db')
    (hdb : Inv db) : Inv (S.transact c db work) := by
  unfold transact
  split
  · next db' value hperform => exact perform_invariant hrun hdb hperform
  · exact hdb

/-- Whatever a unit of work is told, its context may read, in tables that keep the invariant. -/
theorem replies_readable
    (hrun : ∀ db db' s reply, Inv db → S.run c db s = .ok (db', reply) → Inv db')
    (hdb : Inv db) : ∀ entry ∈ S.replies c db work, Inv entry.1 ∧
      ∀ x ∈ entry.2.rows, S.mayRead c entry.1 x.2 = true := by
  induction work generalizing db with
  | done value' => exact fun _ hentry => absurd hentry List.not_mem_nil
  | throw => exact fun _ hentry => absurd hentry List.not_mem_nil
  | statement s next ih =>
      unfold replies
      split
      · exact fun _ hentry => absurd hentry List.not_mem_nil
      · next db₁ reply hs =>
          exact List.forall_mem_cons.mpr
            ⟨⟨hdb, run_readable hs⟩, ih reply (hrun _ _ _ _ hdb hs)⟩
  | attempt s next ih =>
      unfold replies
      split
      · exact ih none hdb
      · next db₁ reply hs =>
          exact List.forall_mem_cons.mpr
            ⟨⟨hdb, run_readable hs⟩, ih (some reply) (hrun _ _ _ _ hdb hs)⟩

end Schema
end BlackMonolith.Library.RowSecurity
