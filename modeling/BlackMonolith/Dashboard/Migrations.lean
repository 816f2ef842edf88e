import Mathlib
import BlackMonolith.Library.JavaScript
import BlackMonolith.Library.SessionLock

/-!
# Database migrations

Any number of migrators start, and each may end at any point. The advisory lock belongs to a
database session, which ends with its process. What a transaction has done is seen from its
commit on. The digest of a file is a parameter; its SQL has effects of which only the fact
that they were committed is kept. Files and tables may fail at any step.
-/
namespace BlackMonolith.Dashboard.Migrations
open Library

/-- A row of `monolith.schema_migrations`. -/
structure Row where
  version : JsString
  checksum : Option String
deriving DecidableEq

/-- A migration whose transaction was committed, and the files of the run that applied it. -/
structure Applied where
  version : JsString
  sql : String
  listing : List JsString

structure Ledger where
  rows : List Row
  applied : List Applied

/-- Where a migrator stands, with the files that follow in its loop. -/
inductive Phase
  | connected
  | locked
  | looping (files : List JsString)
  | selected (file : JsString) (recorded : Option (Option String)) (files : List JsString)
  | filling (file : JsString) (sql : String) (files : List JsString)
  | unapplied (file : JsString) (sql : String) (files : List JsString)
  | opened (file : JsString) (sql : String) (files : List JsString)
  | executed (file : JsString) (sql : String) (files : List JsString)
  | inserted (file : JsString) (sql : String) (files : List JsString)
  | closing (ok : Bool)
  | ended (ok : Bool)

structure Migrator where
  phase : Phase := .connected
  listing : List JsString := []
  /-- The files that were found applied or have been applied, as they were read. -/
  checked : List (JsString × String) := []

inductive Event
  | lock
  | list (entries : List JsString)
  | next
  | read (sql : String)
  | fill
  | begin
  | execute
  | insert
  | commit
  | fail
  | close
  | crash

def Phase.inside : Phase → Bool
  | .connected | .ended _ => false
  | _ => true

/-- The SQL files of the directory, in the order of their names. -/
def migrationFiles (entries : List JsString) : List JsString :=
  (entries.filter fun file => (JsString.ofString ".sql").units.isSuffixOf file.units).mergeSort
    fun a b => decide (a.units ≤ b.units)

namespace Ledger

def versions (s : Ledger) : List JsString := s.rows.map Row.version

/-- `select checksum ... where version = $1`. -/
def select (s : Ledger) (file : JsString) : Option (Option String) :=
  (s.rows.find? fun row => row.version = file).map Row.checksum

/-- `update ... where version = $1 and checksum is null`. -/
def fill (s : Ledger) (file : JsString) (checksum : String) : Ledger :=
  { s with rows := s.rows.map fun row =>
      if row.version = file ∧ row.checksum = none then ⟨row.version, some checksum⟩ else row }

/-- The commit of a transaction with the SQL of a file and the row for it. -/
def commit (s : Ledger) (file : JsString) (checksum : String) (migration : Applied) : Ledger :=
  ⟨s.rows ++ [⟨file, some checksum⟩], s.applied ++ [migration]⟩

end Ledger

section
variable (digest : String → String)

/-- The end of a turn of the loop. -/
def Migrator.check (m : Migrator) (file : JsString) (sql : String) (files : List JsString) :
    Migrator :=
  { m with phase := .looping files, checked := m.checked ++ [(file, sql)] }

/-- What the row of a file means for the file as it was read. An empty checksum counts as none
here, though the update looks for null only. -/
def Migrator.compare (m : Migrator) (file : JsString) (recorded : Option (Option String))
    (files : List JsString) (sql : String) : Migrator :=
  match recorded with
  | none => { m with phase := .unapplied file sql files }
  | some none => { m with phase := .filling file sql files }
  | some (some checksum) =>
      if checksum = "" then { m with phase := .filling file sql files }
      else if checksum ≠ digest sql then { m with phase := .closing false }
      else m.check file sql files

/-- One step of a migrator. Any call may fail; the transaction is then rolled back, and the lock
is kept until the migrator unlocks it or its session ends. -/
def act (free : Bool) (event : Event) (m : Migrator) (s : Ledger) : Option (Migrator × Ledger) :=
  match event, m.phase with
  | .lock, .connected =>
      some (if free then { m with phase := .locked } else { m with phase := .ended false }, s)
  | .list entries, .locked =>
      some ({ phase := .looping (migrationFiles entries), listing := migrationFiles entries }, s)
  | .next, .looping [] => some ({ m with phase := .closing true }, s)
  | .next, .looping (file :: files) =>
      some ({ m with phase := .selected file (s.select file) files }, s)
  | .read sql, .selected file recorded files => some (m.compare digest file recorded files sql, s)
  | .fill, .filling file sql files => some (m.check file sql files, s.fill file (digest sql))
  | .begin, .unapplied file sql files => some ({ m with phase := .opened file sql files }, s)
  | .execute, .opened file sql files => some ({ m with phase := .executed file sql files }, s)
  | .insert, .executed file sql files =>
      -- The version is the primary key.
      if file ∈ s.versions then some ({ m with phase := .closing false }, s)
      else some ({ m with phase := .inserted file sql files }, s)
  | .commit, .inserted file sql files =>
      some (m.check file sql files, s.commit file (digest sql) ⟨file, sql, m.listing⟩)
  | .close, .closing ok => some ({ m with phase := .ended ok }, s)
  | .fail, .closing _ => some ({ m with phase := .ended false }, s)
  | .fail, phase => if phase.inside then some ({ m with phase := .closing false }, s) else none
  | .crash, .ended _ => none
  | .crash, _ => some ({ m with phase := .ended false }, s)
  | _, _ => none

/-! ## One step -/

/-- The migration a migrator has found to be new. -/
def Phase.applying : Phase → Option (JsString × String × List JsString)
  | .unapplied file sql files | .opened file sql files | .executed file sql files
  | .inserted file sql files => some (file, sql, files)
  | _ => none

/-- What a step can come to. -/
inductive Turn (free : Bool) (m : Migrator) (s : Ledger) : Migrator → Ledger → Prop
  | stop (phase : Phase) (hphase : phase = .ended false ∨ phase = .closing false)
      (hinside : m.phase.inside = false → phase.inside = false) :
      Turn free m s { m with phase } s
  | enter (hphase : m.phase = .connected) (hfree : free = true) :
      Turn free m s { m with phase := .locked } s
  | list (entries : List JsString) (hphase : m.phase = .locked) :
      Turn free m s
        { phase := .looping (migrationFiles entries), listing := migrationFiles entries } s
  | finish (hphase : m.phase = .looping []) : Turn free m s { m with phase := .closing true } s
  | select (file : JsString) (files : List JsString) (hphase : m.phase = .looping (file :: files)) :
      Turn free m s { m with phase := .selected file (s.select file) files } s
  | new (file : JsString) (sql : String) (files : List JsString)
      (hphase : m.phase = .selected file none files) :
      Turn free m s { m with phase := .unapplied file sql files } s
  | blank (file : JsString) (sql : String) (files : List JsString) (recorded : Option String)
      (hphase : m.phase = .selected file (some recorded) files)
      (hblank : recorded = none ∨ recorded = some "") :
      Turn free m s { m with phase := .filling file sql files } s
  | same (file : JsString) (sql : String) (files : List JsString)
      (hphase : m.phase = .selected file (some (some (digest sql))) files) :
      Turn free m s (m.check file sql files) s
  | fill (file : JsString) (sql : String) (files : List JsString)
      (hphase : m.phase = .filling file sql files) :
      Turn free m s (m.check file sql files) (s.fill file (digest sql))
  | advance (phase : Phase) (hinside : m.phase.applying.isSome)
      (hphase : phase.applying = m.phase.applying) :
      Turn free m s { m with phase } s
  | commit (file : JsString) (sql : String) (files : List JsString)
      (hphase : m.phase = .inserted file sql files) :
      Turn free m s (m.check file sql files)
        (s.commit file (digest sql) ⟨file, sql, m.listing⟩)
  | close (ok : Bool) (hphase : m.phase = .closing ok) :
      Turn free m s { m with phase := .ended ok } s

variable {digest} {free : Bool} {event : Event} {m m' : Migrator} {s s' : Ledger}

theorem turn_of_act (h : act digest free event m s = some (m', s')) :
    Turn digest free m s m' s' := by
  unfold act at h
  split at h
  case h_1 hphase =>
    cases h
    cases free with
    | true => exact .enter hphase rfl
    | false => exact .stop _ (.inl rfl) fun _ => rfl
  case h_2 entries hphase => cases h; exact .list entries hphase
  case h_3 hphase => cases h; exact .finish hphase
  case h_4 file files hphase => cases h; exact .select file files hphase
  case h_5 sql file recorded files hphase =>
    cases h
    unfold Migrator.compare
    split
    · exact .new file sql files hphase
    · exact .blank file sql files none hphase (.inl rfl)
    · split_ifs with hempty hchecksum
      · exact .blank file sql files _ hphase (.inr (congrArg some hempty))
      · exact .stop _ (.inr rfl) fun hout => by rw [hphase] at hout; cases hout
      · rw [not_not] at hchecksum
        subst hchecksum
        exact .same file sql files hphase
  case h_6 file sql files hphase => cases h; exact .fill file sql files hphase
  case h_7 file sql files hphase =>
    cases h
    exact .advance _ (by rw [hphase]; rfl) (by rw [hphase]; rfl)
  case h_8 file sql files hphase =>
    cases h
    exact .advance _ (by rw [hphase]; rfl) (by rw [hphase]; rfl)
  case h_9 file sql files hphase =>
    split_ifs at h with hknown
    · cases h
      exact .stop _ (.inr rfl) fun hout => by rw [hphase] at hout; cases hout
    · cases h
      exact .advance _ (by rw [hphase]; rfl) (by rw [hphase]; rfl)
  case h_10 file sql files hphase => cases h; exact .commit file sql files hphase
  case h_11 ok hphase => cases h; exact .close ok hphase
  case h_12 => cases h; exact .stop _ (.inl rfl) fun _ => rfl
  case h_13 =>
    split_ifs at h with hinside
    cases h
    exact .stop _ (.inr rfl) fun hout => by rw [hout] at hinside; cases hinside
  case h_14 => cases h
  case h_15 => cases h; exact .stop _ (.inl rfl) fun _ => rfl
  case h_16 => cases h

/-- Outside the lock a migrator can only take it, when it is free, or end. -/
theorem Turn.outside (h : Turn digest free m s m' s') (hout : m.phase.inside = false) :
    s' = s ∧ (free = false → m'.phase.inside = false) := by
  cases h with
  | stop phase hphase hinside => exact ⟨rfl, fun _ => hinside hout⟩
  | enter hphase hfree => exact ⟨rfl, fun h => by rw [hfree] at h; cases h⟩
  | advance phase happlying hphase =>
      cases hm : m.phase with
      | connected => rw [hm] at happlying; cases happlying
      | ended ok => rw [hm] at happlying; cases happlying
      | _ => rw [hm] at hout; cases hout
  | list entries hphase => rw [hphase] at hout; cases hout
  | finish hphase => rw [hphase] at hout; cases hout
  | select file files hphase => rw [hphase] at hout; cases hout
  | new file sql files hphase => rw [hphase] at hout; cases hout
  | blank file sql files recorded hphase => rw [hphase] at hout; cases hout
  | same file sql files hphase => rw [hphase] at hout; cases hout
  | fill file sql files hphase => rw [hphase] at hout; cases hout
  | commit file sql files hphase => rw [hphase] at hout; cases hout
  | close ok hphase => rw [hphase] at hout; cases hout

variable (digest) in
def migrators : LockedWork Ledger Migrator Event where
  inside m := m.phase.inside
  act := act digest
  barred h hout := ((turn_of_act h).outside hout).2 rfl
  apart h hout := ((turn_of_act h).outside hout).1

/-! ## The ledger -/

/-- A file is recorded with the digest of what was read, or with an empty text. -/
def Recorded (digest : String → String) (s : Ledger) (file : JsString) (sql : String) : Prop :=
  ∃ row ∈ s.rows, row.version = file ∧
    (row.checksum = some (digest sql) ∨ row.checksum = some "")

/-- Rows stay, and a checksum that is there does not change. -/
structure Ledger.Le (s t : Ledger) : Prop where
  rows : ∀ row ∈ s.rows, ∃ row' ∈ t.rows, row'.version = row.version ∧
    (row.checksum ≠ none → row' = row)
  applied : s.applied <+: t.applied

/-- The ledger beside the rows it began with. Every version is there once, and a migration comes
after those that stand before it in the listing of its run. -/
structure Ledger.Sound (digest : String → String) (legacy : List Row) (s : Ledger) : Prop where
  versions : s.versions = legacy.map Row.version ++ s.applied.map Applied.version
  unique : s.versions.Nodup
  recorded : ∀ migration ∈ s.applied,
    (⟨migration.version, some (digest migration.sql)⟩ : Row) ∈ s.rows
  ordered : ∀ i migration, s.applied[i]? = some migration → ∀ file ∈ migration.listing,
    file.units < migration.version.units →
      file ∈ legacy.map Row.version ++ (s.applied.take i).map Applied.version

namespace Ledger

theorem Le.refl (s : Ledger) : s.Le s :=
  ⟨fun row hrow => ⟨row, hrow, rfl, fun _ => rfl⟩, List.prefix_rfl⟩

theorem Le.trans {s t u : Ledger} (h : s.Le t) (h' : t.Le u) : s.Le u where
  rows row hrow := by
    obtain ⟨mid, hmid, hversion, hkept⟩ := h.rows row hrow
    obtain ⟨last, hlast, hversion', hkept'⟩ := h'.rows mid hmid
    refine ⟨last, hlast, hversion'.trans hversion, fun hchecksum => ?_⟩
    have heq := hkept hchecksum
    rw [hkept' (by rw [heq]; exact hchecksum), heq]
  applied := h.applied.trans h'.applied

theorem Le.recorded {s t : Ledger} (h : s.Le t) {file : JsString} {sql : String}
    (hs : Recorded digest s file sql) : Recorded digest t file sql := by
  obtain ⟨row, hrow, hversion, hchecksum⟩ := hs
  obtain ⟨row', hrow', -, hkept⟩ := h.rows row hrow
  have hne : row.checksum ≠ none := by
    cases hchecksum with
    | inl h => rw [h]; exact Option.some_ne_none _
    | inr h => rw [h]; exact Option.some_ne_none _
  exact ⟨row, hkept hne ▸ hrow', hversion, hchecksum⟩

theorem mem_versions_of_recorded {file : JsString} {sql : String}
    (h : Recorded digest s file sql) : file ∈ s.versions := by
  obtain ⟨row, hrow, hversion, -⟩ := h
  exact hversion ▸ List.mem_map_of_mem hrow

theorem select_eq_none {file : JsString} : s.select file = none ↔ file ∉ s.versions := by
  simp [select, versions, List.find?_eq_none]

theorem exists_of_select {file : JsString} {checksum : Option String}
    (h : s.select file = some checksum) : ⟨file, checksum⟩ ∈ s.rows := by
  obtain ⟨row, hfind, rfl⟩ := Option.map_eq_some_iff.mp h
  have hversion : row.version = file := by
    have hrow := List.find?_some hfind
    exact of_decide_eq_true hrow
  exact hversion ▸ List.mem_of_find?_eq_some hfind

/-! ### Filling in -/

theorem versions_fill (s : Ledger) (file : JsString) (checksum : String) :
    (s.fill file checksum).versions = s.versions := by
  rw [versions, versions, fill, List.map_map]
  refine List.map_congr_left fun row _ => ?_
  simp only [Function.comp_apply]
  split_ifs
  · rfl
  · rfl

theorem le_fill (s : Ledger) (file : JsString) (checksum : String) :
    s.Le (s.fill file checksum) where
  rows row hrow := by
    refine ⟨_, List.mem_map_of_mem hrow, ?_, fun hne => if_neg fun h => hne h.2⟩
    split_ifs
    · rfl
    · rfl
  applied := List.prefix_rfl

theorem recorded_fill {file : JsString} {recorded : Option String} (sql : String)
    (hrow : ⟨file, recorded⟩ ∈ s.rows) (h : recorded = none ∨ recorded = some "") :
    Recorded digest (s.fill file (digest sql)) file sql := by
  refine ⟨_, List.mem_map_of_mem hrow, ?_⟩
  cases h with
  | inl h =>
      subst h
      simp
  | inr h =>
      subst h
      simp

theorem Sound.fill {legacy : List Row} (h : s.Sound digest legacy) (file : JsString)
    (checksum : String) : (s.fill file checksum).Sound digest legacy where
  versions := (versions_fill s file checksum).trans h.versions
  unique := versions_fill s file checksum ▸ h.unique
  recorded migration hmem := by
    obtain ⟨row, hrow, -, hkept⟩ := (le_fill s file checksum).rows _ (h.recorded migration hmem)
    exact hkept (Option.some_ne_none _) ▸ hrow
  ordered := h.ordered

/-! ### Committing -/

theorem le_commit (s : Ledger) (file : JsString) (checksum : String) (migration : Applied) :
    s.Le (s.commit file checksum migration) where
  rows row hrow := ⟨row, List.mem_append_left _ hrow, rfl, fun _ => rfl⟩
  applied := List.prefix_append _ _

theorem recorded_commit (s : Ledger) (file : JsString) (sql : String) (migration : Applied) :
    Recorded digest (s.commit file (digest sql) migration) file sql :=
  ⟨⟨file, some (digest sql)⟩, List.mem_append_right _ (List.mem_singleton_self _), rfl, .inl rfl⟩

theorem Sound.commit {legacy : List Row} (h : s.Sound digest legacy) {migration : Applied}
    (hnew : migration.version ∉ s.versions)
    (hbefore : ∀ file ∈ migration.listing, file.units < migration.version.units →
      file ∈ s.versions) :
    (s.commit migration.version (digest migration.sql) migration).Sound digest legacy where
  versions := by
    rw [Ledger.commit, Ledger.versions, List.map_append, List.map_append, ← List.append_assoc,
      ← h.versions]
    rfl
  unique := by
    rw [Ledger.commit, Ledger.versions, List.map_append, List.nodup_append_comm]
    exact List.nodup_cons.mpr ⟨hnew, h.unique⟩
  recorded other hother := by
    cases List.mem_append.mp hother with
    | inl hold => exact List.mem_append_left _ (h.recorded other hold)
    | inr hnew =>
        rw [List.mem_singleton.mp hnew]
        exact List.mem_append_right _ (List.mem_singleton_self _)
  ordered i other hother file hfile hlt := by
    change (s.applied ++ [migration])[i]? = some other at hother
    change file ∈ legacy.map Row.version ++ ((s.applied ++ [migration]).take i).map Applied.version
    obtain ⟨hi, hget⟩ := List.getElem?_eq_some_iff.mp hother
    rw [List.length_append, List.length_singleton] at hi
    cases Nat.lt_succ_iff_lt_or_eq.mp hi with
    | inl hlast =>
        rw [List.getElem?_append_left hlast] at hother
        rw [List.take_append_of_le_length hlast.le]
        exact h.ordered i other hother file hfile hlt
    | inr hlast =>
        subst hlast
        rw [List.getElem?_append_right le_rfl, Nat.sub_self] at hother
        cases hother
        rw [List.take_left, ← h.versions]
        exact hbefore file hfile hlt

end Ledger

/-! ## What a migrator relies on -/

/-- The files of the listing that are still to be checked, unless the run has failed. -/
def Phase.pending : Phase → Option (List JsString)
  | .looping files => some files
  | .selected file _ files | .filling file _ files | .unapplied file _ files
  | .opened file _ files | .executed file _ files | .inserted file _ files => some (file :: files)
  | .closing true | .ended true => some []
  | _ => none

/-- What is known of the file in turn. -/
def Phase.Knows (s : Ledger) : Phase → Prop
  | .selected file recorded _ => s.select file = recorded
  | .filling file _ _ => ∃ recorded, (⟨file, recorded⟩ : Row) ∈ s.rows ∧
      (recorded = none ∨ recorded = some "")
  | .unapplied file _ _ | .opened file _ _ | .executed file _ _ | .inserted file _ _ =>
      file ∉ s.versions
  | _ => True

structure Stands (digest : String → String) (m : Migrator) (s : Ledger) : Prop where
  listed : ∀ files ∈ m.phase.pending, m.listing = m.checked.map Prod.fst ++ files
  sorted : m.listing.Pairwise fun a b => a.units ≤ b.units
  recorded : ∀ file ∈ m.checked, Recorded digest s file.1 file.2
  knows : m.phase.Knows s

theorem sorted_migrationFiles (entries : List JsString) :
    (migrationFiles entries).Pairwise fun a b => a.units ≤ b.units := by
  refine (List.pairwise_mergeSort ?_ ?_ _).imp fun h => of_decide_eq_true h
  · intro a b c hab hbc
    exact decide_eq_true (List.le_trans (of_decide_eq_true hab) (of_decide_eq_true hbc))
  · intro a b
    rw [Bool.or_eq_true, decide_eq_true_iff, decide_eq_true_iff]
    exact List.le_total _ _

section
variable {phase : Phase} {file : JsString} {sql : String} {files : List JsString}

theorem knows_of_applying {x : JsString × String × List JsString} (h : phase.applying = some x) :
    (phase.Knows s ↔ x.1 ∉ s.versions) ∧ phase.pending = some (x.1 :: x.2.2) := by
  cases phase with
  | unapplied _ _ _ | opened _ _ _ | executed _ _ _ | inserted _ _ _ =>
      cases h
      exact ⟨Iff.rfl, rfl⟩
  | _ => cases h

/-- Moving to another phase needs what is known there. -/
theorem Stands.at (h : Stands digest m s)
    (hpending : ∀ files ∈ phase.pending, files ∈ m.phase.pending) (hknows : phase.Knows s) :
    Stands digest { m with phase } s :=
  ⟨fun files hfiles => h.listed files (hpending files hfiles), h.sorted, h.recorded, hknows⟩

/-- A turn of the loop ends with its file recorded. -/
theorem Stands.check (h : Stands digest m s) (hpending : m.phase.pending = some (file :: files))
    (hle : s.Le s') (hrecorded : Recorded digest s' file sql) :
    Stands digest (m.check file sql files) s' where
  listed rest hrest := by
    cases hrest
    have hlisted := h.listed _ hpending
    simpa [Migrator.check] using hlisted
  sorted := h.sorted
  recorded := by
    refine List.forall_mem_append.mpr ⟨fun file hfile => hle.recorded (h.recorded file hfile), ?_⟩
    rw [List.forall_mem_singleton]
    exact hrecorded
  knows := trivial

/-- What stands before the file in turn has been checked. -/
theorem Stands.before (h : Stands digest m s) (hpending : m.phase.pending = some (file :: files)) :
    ∀ other ∈ m.listing, other.units < file.units → other ∈ s.versions := by
  intro other hother hlt
  have hsorted := h.sorted
  rw [h.listed _ hpending] at hother hsorted
  cases List.mem_append.mp hother with
  | inl hchecked =>
      obtain ⟨checked, hmem, rfl⟩ := List.mem_map.mp hchecked
      exact Ledger.mem_versions_of_recorded (h.recorded checked hmem)
  | inr hpending =>
      have hrest := (List.pairwise_append.mp hsorted).2.1
      cases List.mem_cons.mp hpending with
      | inl heq => rw [heq] at hlt; exact absurd hlt (List.lt_irrefl _)
      | inr hmem => exact absurd hlt (List.not_lt.mpr (List.rel_of_pairwise_cons hrest hmem))

end

theorem Turn.keeps {legacy : List Row} (hturn : Turn digest free m s m' s')
    (hs : s.Sound digest legacy) (hm : Stands digest m s) :
    s'.Sound digest legacy ∧ s.Le s' ∧ Stands digest m' s' := by
  cases hturn with
  | stop phase hphase hinside =>
      refine ⟨hs, .refl s, ?_⟩
      cases hphase with
      | inl h => subst h; exact hm.at (fun _ h => by cases h) trivial
      | inr h => subst h; exact hm.at (fun _ h => by cases h) trivial
  | enter hphase hfree => exact ⟨hs, .refl s, hm.at (fun _ h => by cases h) trivial⟩
  | list entries hphase =>
      refine ⟨hs, .refl s, ?_, sorted_migrationFiles entries, List.forall_mem_nil _, trivial⟩
      intro files hfiles
      cases hfiles
      rfl
  | finish hphase =>
      exact ⟨hs, .refl s, hm.at (fun files hfiles => by rw [hphase]; exact hfiles) trivial⟩
  | select file files hphase =>
      exact ⟨hs, .refl s, hm.at (fun files hfiles => by rw [hphase]; exact hfiles) rfl⟩
  | new file sql files hphase =>
      have hknows := hm.knows
      rw [hphase] at hknows
      exact ⟨hs, .refl s, hm.at (fun files hfiles => by rw [hphase]; exact hfiles)
        (Ledger.select_eq_none.mp hknows)⟩
  | blank file sql files recorded hphase hblank =>
      have hknows := hm.knows
      rw [hphase] at hknows
      exact ⟨hs, .refl s, hm.at (fun files hfiles => by rw [hphase]; exact hfiles)
        ⟨recorded, Ledger.exists_of_select hknows, hblank⟩⟩
  | same file sql files hphase =>
      have hknows := hm.knows
      rw [hphase] at hknows
      have hrow := Ledger.exists_of_select hknows
      exact ⟨hs, .refl s, hm.check (by rw [hphase]; rfl) (.refl s) ⟨_, hrow, rfl, .inl rfl⟩⟩
  | fill file sql files hphase =>
      have hknows := hm.knows
      rw [hphase] at hknows
      obtain ⟨recorded, hrow, hblank⟩ := hknows
      have hle := Ledger.le_fill s file (digest sql)
      exact ⟨hs.fill file (digest sql), hle,
        hm.check (by rw [hphase]; rfl) hle (Ledger.recorded_fill sql hrow hblank)⟩
  | advance phase hinside hphase =>
      obtain ⟨x, hx⟩ := Option.isSome_iff_exists.mp hinside
      have hnow := @knows_of_applying s _ _ hx
      have hthen := @knows_of_applying s _ _ (hphase.trans hx)
      exact ⟨hs, .refl s, hm.at (fun files hfiles => by rwa [hnow.2, ← hthen.2])
        (hthen.1.mpr (hnow.1.mp hm.knows))⟩
  | commit file sql files hphase =>
      have hknows := hm.knows
      rw [hphase] at hknows
      have hpending : m.phase.pending = some (file :: files) := by rw [hphase]; rfl
      have hle := Ledger.le_commit s file (digest sql) ⟨file, sql, m.listing⟩
      exact ⟨@Ledger.Sound.commit digest s legacy hs ⟨file, sql, m.listing⟩ hknows
        (hm.before hpending), hle, hm.check hpending hle (Ledger.recorded_commit s file sql _)⟩
  | close ok hphase =>
      refine ⟨hs, .refl s, hm.at (fun files hfiles => ?_) trivial⟩
      rw [hphase]
      cases ok with
      | true => exact hfiles
      | false => cases hfiles

theorem migrators_keep (legacy : List Row) :
    (migrators digest).Keeps (Ledger.Sound digest legacy) Ledger.Le (Stands digest) where
  refl := .refl
  trans := .trans
  step hs hm hact := (turn_of_act hact).keeps hs hm
  mono := by
    intro m s s' hout hm hle
    refine ⟨hm.listed, hm.sorted, fun file hfile => hle.recorded (hm.recorded file hfile), ?_⟩
    change m.phase.inside = false at hout
    cases hphase : m.phase with
    | connected => trivial
    | ended ok => trivial
    | _ => rw [hphase] at hout; cases hout

/-! ## Runs -/

/-- Migrators that have not begun, and a ledger with rows of an earlier time. -/
def start (ι : Type) (legacy : List Row) : LockedWorld ι Ledger Migrator :=
  ⟨none, ⟨legacy, []⟩, fun _ => {}⟩

/-- At most one migrator is at work, the ledger is sound, and a migrator that has ended well has
checked all its files: each is recorded with the digest of what was read. -/
structure MigrationsSound {ι : Type} (digest : String → String) (legacy : List Row)
    (w : LockedWorld ι Ledger Migrator) : Prop where
  exclusive : ∀ i j, (w.own i).phase.inside = true → (w.own j).phase.inside = true → i = j
  ledger : w.shared.Sound digest legacy
  finished : ∀ i, (w.own i).phase = .ended true → ∀ file ∈ (w.own i).listing,
    ∃ sql, (file, sql) ∈ (w.own i).checked ∧ Recorded digest w.shared file sql

theorem migrations_of_run {ι : Type} [DecidableEq ι] {legacy : List Row}
    {earlier later : List (ι × Event)} {v w : LockedWorld ι Ledger Migrator}
    (hlegacy : (legacy.map Row.version).Nodup)
    (hearlier : (migrators digest).run (start ι legacy) earlier = some v)
    (hlater : (migrators digest).run v later = some w) :
    MigrationsSound digest legacy w ∧ v.shared.Le w.shared := by
  have hstart : (migrators digest).Sound (Ledger.Sound digest legacy) (Stands digest)
      (start ι legacy) := by
    refine ⟨fun i => iff_of_false Bool.false_ne_true (Option.some_ne_none i).symm, ?_, fun i => ?_⟩
    · exact ⟨(List.append_nil _).symm, hlegacy, List.forall_mem_nil _,
        fun i migration h => by cases h⟩
    · refine ⟨?_, List.Pairwise.nil, List.forall_mem_nil _, trivial⟩
      intro files hfiles
      cases hfiles
  have hkeeps := @migrators_keep digest legacy
  obtain ⟨hv, -⟩ := hkeeps.sound_run hstart hearlier
  obtain ⟨hw, hle⟩ := hkeeps.sound_run hv hlater
  refine ⟨⟨fun i j => hw.exclusive, hw.inv, ?_⟩, hle⟩
  intro i hended file hfile
  have hstands := hw.stands i
  have hlisted := hstands.listed [] (by rw [hended]; rfl)
  rw [hlisted, List.append_nil] at hfile
  obtain ⟨checked, hmem, rfl⟩ := List.mem_map.mp hfile
  exact ⟨checked.2, hmem, hstands.recorded checked hmem⟩

/-- The first migrator dies in its transaction while the second waits for the lock, and the third
finishes. -/
theorem migrations_after_crash :
    let file := JsString.ofString "1.sql"
    let dying : List (ℕ × Event) := [(0, .lock), (1, .lock), (0, .list [file]), (0, .next),
      (0, .read "create"), (0, .begin), (0, .execute), (0, .insert), (0, .crash)]
    let finishing : List (ℕ × Event) := [(2, .lock), (2, .list [file]), (2, .next),
      (2, .read "create"), (2, .begin), (2, .execute), (2, .insert), (2, .commit), (2, .next),
      (2, .close)]
    ∃ v w, (migrators id).run (start ℕ []) dying = some v ∧
      (migrators id).run v finishing = some w ∧ v.shared.rows = [] ∧
      w.shared.rows = [⟨file, some "create"⟩] ∧ MigrationsSound id [] w ∧ v.shared.Le w.shared := by
  intro file dying finishing
  have hdying : (((migrators id).run (start ℕ []) dying).map fun v => v.shared.rows) = some [] := by
    decide +kernel
  have hfinishing : ((((migrators id).run (start ℕ []) dying).bind fun v =>
      (migrators id).run v finishing).map fun w => w.shared.rows) =
        some [⟨file, some "create"⟩] := by
    decide +kernel
  obtain ⟨v, hv, hrows⟩ := Option.map_eq_some_iff.mp hdying
  rw [hv, Option.bind_some] at hfinishing
  obtain ⟨w, hw, hrows'⟩ := Option.map_eq_some_iff.mp hfinishing
  exact ⟨v, w, hv, hw, hrows, hrows', migrations_of_run List.nodup_nil hv hw⟩

end

end BlackMonolith.Dashboard.Migrations
