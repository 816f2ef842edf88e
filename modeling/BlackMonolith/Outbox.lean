import Mathlib
import BlackMonolith.Json
import BlackMonolith.Text
import BlackMonolith.Library.Suffix

/-!
# The event outbox of MCP-Shield

The spool is two files of records, pending and dead-lettered. Each operation
below is one critical section of the source: it reads the files under the
process lock and rewrites them before the lock is released. A drain is split at
the lock: it loads a snapshot, posts the records of the snapshot without the
lock, and reconciles the outcomes with the file as it is by then.

A file is the list of the records its lines hold. `serde_json` is a parameter;
only the length of a line and the reading of an event payload depend on it.
-/
namespace BlackMonolith.Outbox
open Json Library

def maxAttempts : ℕ := 10
def maxSpoolRecords : ℕ := 10000
def maxSpoolBytes : ℕ := 16 * 1024 * 1024

structure SpoolRecord where
  eventId : String
  payload : String
  attempts : ℕ
  nextAttemptMs : ℕ
  lastError : Option String
  createdMs : ℕ
deriving Repr, DecidableEq

/-- What the outbox uses of `serde_json`. -/
structure Serde where
  toString : SpoolRecord → String
  fromStr : String → Option Value

/-- Statuses the ingest endpoint returns for input it will never accept. -/
def isPermanent (status : ℕ) : Bool :=
  status == 400 || status == 401 || status == 403 || status == 413 || status == 422

def isSuccess (status : ℕ) : Bool := 200 ≤ status && status < 300

/-- Exponential backoff; the jitter is a `u32` sum of the bytes of the id. -/
def SpoolRecord.defer (r : SpoolRecord) (error : String) (now : ℕ) : SpoolRecord :=
  let attempts := r.attempts + 1
  let baseMs := 1000 <<< min attempts 8
  let jitterMs := ((r.eventId.toUTF8.toList.map UInt8.toNat).sum % 2 ^ 32) % 1000
  { r with
    attempts
    nextAttemptMs := now + min baseMs 300000 + jitterMs
    lastError := some error }

/-- The tenant of a record, read from its payload; a record that cannot be read
belongs to nobody. -/
def recordTenant (serde : Serde) (r : SpoolRecord) : Option String := do
  let value ← serde.fromStr r.payload
  let field ← value.get "tenant_id"
  let text ← field.asStr
  let tenant := Text.trim text
  if tenant.isEmpty || 128 < Text.len tenant then none
  else if tenant.toList.any Text.isControl then none
  else some tenant

/-! ## Bounds -/

section
variable (serde : Serde)

/-- The bytes of one line of a spool file. -/
def lineSize (r : SpoolRecord) : ℕ := Text.len (serde.toString r) + 1

def fileSize (records : List SpoolRecord) : ℕ := (records.map (lineSize serde)).sum

/-- The loop of `enforce_spool_bounds`: how many records go before the total fits. -/
def byteDrops (maxBytes : ℕ) : ℕ → List ℕ → ℕ
  | _, [] => 0
  | total, size :: sizes =>
      if maxBytes < total then byteDrops maxBytes (total - size) sizes + 1 else 0

/-- The kept records and how many were dropped. -/
def enforceSpoolBounds (records : List SpoolRecord) (maxRecords maxBytes : ℕ) :
    List SpoolRecord × ℕ :=
  let counted :=
    if maxRecords < records.length then records.drop (records.length - maxRecords) else records
  let sizes := counted.map (lineSize serde)
  let kept := counted.drop (byteDrops maxBytes sizes.sum sizes)
  (kept, records.length - kept.length)

def withinBounds (maxRecords maxBytes : ℕ) (records : List SpoolRecord) : Bool :=
  decide (records.length ≤ maxRecords) && decide (fileSize serde records ≤ maxBytes)

theorem byteDrops_drop (maxBytes : ℕ) (records : List SpoolRecord) :
    records.drop (byteDrops maxBytes (fileSize serde records) (records.map (lineSize serde))) =
      longestSuffix (fun rs => decide (fileSize serde rs ≤ maxBytes)) records := by
  induction records with
  | nil => rfl
  | cons r rs ih =>
      simp only [List.map_cons, byteDrops, longestSuffix, decide_eq_true_eq]
      split_ifs with h₁ h₂ h₂
      · omega
      · have hsub : fileSize serde (r :: rs) - lineSize serde r = fileSize serde rs := by
          simp only [fileSize, List.map_cons, List.sum_cons, Nat.add_sub_cancel_left]
        rw [hsub, List.drop_succ_cons, ih]
      · rfl
      · omega

theorem count_suffixClosed (n : ℕ) :
    SuffixClosed fun rs : List SpoolRecord => decide (rs.length ≤ n) := by
  intro xs ys hs h
  have hlen := hs.length_le
  simp only [decide_eq_true_eq] at h ⊢
  omega

/-- What a bound leaves is the longest suffix within it: the oldest records go
first, and none goes needlessly. -/
theorem enforceSpoolBounds_kept (records : List SpoolRecord) (maxRecords maxBytes : ℕ) :
    (enforceSpoolBounds serde records maxRecords maxBytes).1 =
      longestSuffix (withinBounds serde maxRecords maxBytes) records := by
  have hcount : (if maxRecords < records.length
      then records.drop (records.length - maxRecords) else records) =
        longestSuffix (fun rs => decide (rs.length ≤ maxRecords)) records := by
    rw [longestSuffix_length]
    split_ifs with h
    · rfl
    · rw [Nat.sub_eq_zero_of_le (Nat.le_of_not_lt h), List.drop_zero]
  have hcomp := longestSuffix_comp (count_suffixClosed maxRecords)
    (fun rs => decide (fileSize serde rs ≤ maxBytes)) records
  unfold enforceSpoolBounds
  simp only [hcount]
  exact (byteDrops_drop serde maxBytes _).trans hcomp

/-- A bounded file together with the records the bound removed from it. The
source logs the number of them. -/
structure Bounded where
  file : List SpoolRecord
  removed : List SpoolRecord
deriving Repr, DecidableEq

def enforced (records : List SpoolRecord) : Bounded :=
  let r := enforceSpoolBounds serde records maxSpoolRecords maxSpoolBytes
  ⟨r.1, records.take r.2⟩

theorem enforced_split (records : List SpoolRecord) :
    (enforced serde records).removed ++ (enforced serde records).file = records := by
  have hs := longestSuffix_suffix (withinBounds serde maxSpoolRecords maxSpoolBytes) records
  rw [← enforceSpoolBounds_kept] at hs
  have hdrop := List.suffix_iff_eq_drop.mp hs
  simp only [enforced]
  conv_lhs => rw [hdrop]
  exact List.take_append_drop _ _

theorem enforced_file (records : List SpoolRecord) :
    (enforced serde records).file =
      longestSuffix (withinBounds serde maxSpoolRecords maxSpoolBytes) records :=
  enforceSpoolBounds_kept serde records _ _

theorem enforced_sublist (records : List SpoolRecord) :
    ((enforced serde records).file).Sublist records := by
  rw [enforced_file]
  exact (longestSuffix_suffix _ _).sublist

/-- A bound is entitled to its removals: it was exceeded, and what it left is
the longest run of newest records within it. -/
def Bounded.Justified (b : Bounded) : Prop :=
  b.removed = [] ∨
    (withinBounds serde maxSpoolRecords maxSpoolBytes (b.removed ++ b.file) = false ∧
      b.file = longestSuffix (withinBounds serde maxSpoolRecords maxSpoolBytes)
        (b.removed ++ b.file))

theorem enforced_justified (records : List SpoolRecord) :
    (enforced serde records).Justified serde := by
  have hsplit := enforced_split serde records
  have hfile := enforced_file serde records
  by_cases h : withinBounds serde maxSpoolRecords maxSpoolBytes records
  · left
    rw [longestSuffix_of_holds h] at hfile
    rw [hfile] at hsplit
    exact List.append_left_eq_self.mp hsplit
  · right
    rw [hsplit]
    exact ⟨Bool.eq_false_iff.mpr h, hfile⟩

/-! ## Critical sections -/

/-- The spool on disk: `outbox.jsonl` and its sibling `outbox.dead`. -/
structure Spool where
  pending : List SpoolRecord
  dead : List SpoolRecord
deriving Repr, DecidableEq

def appendRecordBounded (file : List SpoolRecord) (record : SpoolRecord) : Bounded :=
  if maxSpoolBytes < fileSize serde file + lineSize serde record then
    enforced serde (file ++ [record])
  else ⟨file ++ [record], []⟩

def appendDeadRecordsBounded (file newDead : List SpoolRecord) : Bounded :=
  if newDead.isEmpty then ⟨file, []⟩ else enforced serde (file ++ newDead)

/-- The record `enqueue` writes. -/
def newRecord (eventId payload : String) (now : ℕ) : SpoolRecord :=
  { eventId, payload, attempts := 0, nextAttemptMs := now, lastError := none, createdMs := now }

def enqueue (eventId payload : String) (now : ℕ) (spool : Spool) : Bounded :=
  appendRecordBounded serde spool.pending (newRecord eventId payload now)

/-- A replayed record starts over. -/
def SpoolRecord.replayed (now : ℕ) (r : SpoolRecord) : SpoolRecord :=
  { r with
    attempts := 0
    nextAttemptMs := 0
    lastError := none
    createdMs := if r.createdMs = 0 then now else r.createdMs }

/-- The records a replay selects, and those it leaves behind. -/
def selectDead (tenant : Option String) (dead : List SpoolRecord) :
    List SpoolRecord × List SpoolRecord :=
  match tenant with
  | some scope => dead.partition fun r => recordTenant serde r == some scope
  | none => (dead, [])

structure Replayed where
  count : ℕ
  pending : Bounded
  dead : List SpoolRecord
deriving Repr, DecidableEq

def replayDeadLetters (tenant : Option String) (now : ℕ) (spool : Spool) :
    Except String Replayed :=
  let selected := (selectDead serde tenant spool.dead).1
  let leftBehind := (selectDead serde tenant spool.dead).2
  if spool.dead.isEmpty || selected.isEmpty then .ok ⟨0, ⟨spool.pending, []⟩, spool.dead⟩
  else
    let projectedRecords := spool.pending.length + selected.length
    let projectedBytes := fileSize serde (spool.pending ++ selected)
    if maxSpoolRecords < projectedRecords || maxSpoolBytes < projectedBytes then
      .error s!"the outbox spool is at its bound ({projectedRecords} records, {projectedBytes} bytes); the dead letters were not replayed and no pending event was discarded"
    else
      .ok ⟨selected.length,
        enforced serde (spool.pending ++ selected.map (·.replayed now)), leftBehind⟩

/-- A drain between its load and its reconcile. `snapshot` is what it loaded and
is never read again; the loop of the source consumes `remaining`. -/
structure Drain where
  snapshot : List SpoolRecord
  remaining : List SpoolRecord
  force : Bool
  now : ℕ
  delivered : List String
  updated : List (String × SpoolRecord)
  dead : List SpoolRecord
deriving Repr, DecidableEq

def loadPending (spool : Spool) (force : Bool) (now : ℕ) : Drain :=
  { snapshot := spool.pending, remaining := spool.pending, force, now
    delivered := [], updated := [], dead := [] }

/-- The answer to a post: a status, or the error of a request that got none. -/
inductive Outcome
  | status (code : ℕ)
  | failure (error : String)
deriving Repr, DecidableEq

/-- A deferred record is dead once it has used its attempts. -/
def Drain.retry (d : Drain) (r : SpoolRecord) : Drain :=
  if maxAttempts ≤ r.attempts then { d with dead := d.dead ++ [r] }
  else { d with updated := (r.eventId, r) :: d.updated }

def Drain.record (d : Drain) (r : SpoolRecord) (outcome : Outcome) (now : ℕ) : Drain :=
  match outcome with
  | .status code =>
      if isSuccess code then { d with delivered := r.eventId :: d.delivered }
      else if isPermanent code then
        { d with dead := d.dead ++ [{ r with lastError := some s!"http {code}" }] }
      else d.retry (r.defer s!"http {code}" now)
  | .failure error => d.retry (r.defer error now)

def Drain.due (d : Drain) (r : SpoolRecord) : Bool := d.force || r.nextAttemptMs ≤ d.now

def Drain.idle (d : Drain) : Bool :=
  d.delivered.isEmpty && d.updated.isEmpty && d.dead.isEmpty

structure Reconciled where
  pending : Bounded
  dead : Bounded
deriving Repr, DecidableEq

/-- The records a reconcile keeps before the bound: those of the current file
that this drain neither delivered nor dead-letters, with its updates. -/
def Drain.keep (d : Drain) (file : List SpoolRecord) : List SpoolRecord :=
  (file.filter fun r =>
    !d.delivered.contains r.eventId && !(d.dead.map SpoolRecord.eventId).contains r.eventId).map
      fun r => (d.updated.lookup r.eventId).getD r

def reconcile (d : Drain) (spool : Spool) : Reconciled :=
  if d.idle then ⟨⟨spool.pending, []⟩, ⟨spool.dead, []⟩⟩
  else ⟨enforced serde (d.keep spool.pending), appendDeadRecordsBounded serde spool.dead d.dead⟩

end

end BlackMonolith.Outbox
