import BlackMonolith.Library.Eviction
import BlackMonolith.Library.InsertionMap
import Mathlib.Data.String.Basic

/-!
# The limit on operator sign-ins

Failed sign-ins are counted for each key in windows of fifteen minutes, in a map
of the process and, where there is a database, also in a table. Keys are the
digests that `operatorRateLimitKey` computes. The two compare times differently:
after exactly fifteen minutes the map starts over and the table does not yet.
-/
namespace BlackMonolith.Dashboard
open Library

def windowMs : ℕ := 15 * 60 * 1000
def maxFailedAttempts : ℕ := 8
def maxMemoryEntries : ℕ := 10000

structure LimitEntry where
  windowStarted : ℕ
  attempts : ℕ
deriving Repr, DecidableEq

abbrev LimitTable := InsertionMap String LimitEntry

/-! ## The map of the process -/

def memoryExpired (now : ℕ) (entry : LimitEntry) : Bool := windowMs ≤ now - entry.windowStarted

/-- The count, and the map without a counter that has expired. -/
def getMemoryCount (key : String) (now : ℕ) (limits : LimitTable) : LimitTable × ℕ :=
  match limits.get? key with
  | none => (limits, 0)
  | some entry =>
      if memoryExpired now entry then (limits.erase key, 0) else (limits, entry.attempts)

/-- Deletes keys in turn until the map is within its bound. -/
def dropUntilBounded : List String → LimitTable → LimitTable
  | [], limits => limits
  | key :: keys, limits =>
      let rest := limits.erase key
      if rest.size ≤ maxMemoryEntries then rest else dropUntilBounded keys rest

/-- Over the bound, expired counters go first and then the oldest. -/
def enforceMemoryLimitBound (now : ℕ) (limits : LimitTable) : LimitTable :=
  if limits.size ≤ maxMemoryEntries then limits
  else
    let expired := (limits.entries.filter fun e => memoryExpired now e.2).map Prod.fst
    let cleared := dropUntilBounded expired limits
    if cleared.size ≤ maxMemoryEntries then cleared
    else
      dropUntilBounded ((cleared.entries.insertionSort fun a b =>
        a.2.windowStarted ≤ b.2.windowStarted).map Prod.fst) cleared

/-- The running counters that the bound has no room for, the oldest first. -/
def surplusCounters (now : ℕ) (limits : LimitTable) : List String :=
  let running := limits.filter fun _ entry => !memoryExpired now entry
  ((running.entries.insertionSort fun a b =>
    a.2.windowStarted ≤ b.2.windowStarted).map Prod.fst).take (running.size - maxMemoryEntries)

/-- The counter after another failure. -/
def countedInMemory (key : String) (now : ℕ) (limits : LimitTable) : LimitEntry :=
  match limits.get? key with
  | none => ⟨now, 1⟩
  | some existing =>
      if memoryExpired now existing then ⟨now, 1⟩
      else ⟨existing.windowStarted, min 1000 (existing.attempts + 1)⟩

/-! ## The table of the database -/

def rowExpired (now : ℕ) (row : LimitEntry) : Bool := row.windowStarted + windowMs < now

/-- `check_operator_login_allowed`. -/
def checkOperatorLoginAllowed (key : String) (now : ℕ) (rows : LimitTable) : Bool :=
  (((rows.get? key).filter (!rowExpired now ·)).elim 0 (·.attempts)) < maxFailedAttempts

def countedInTable (key : String) (now : ℕ) (rows : LimitTable) : LimitEntry :=
  match rows.get? key with
  | none => ⟨now, 1⟩
  | some row =>
      if rowExpired now row then ⟨now, 1⟩ else ⟨row.windowStarted, min 1000 (row.attempts + 1)⟩

def sweepMs : ℕ := 24 * 60 * 60 * 1000
def sweepBatch : ℕ := 512

/-- Some rows of more than a day ago are deleted. -/
def sweepRows (scan : Scan (String × LimitEntry)) (now : ℕ) (rows : LimitTable) : LimitTable :=
  let old := rows.entries.filter fun e => e.2.windowStarted + sweepMs < now
  let swept := ((scan.read old).take sweepBatch).map Prod.fst
  rows.filter fun key _ => key ∉ swept

/-- `record_operator_login_attempt`. -/
def recordRow (scan : Scan (String × LimitEntry)) (key : String) (now : ℕ) (rows : LimitTable) :
    LimitTable × Bool :=
  let row := countedInTable key now rows
  (sweepRows scan now (rows.set key row), row.attempts ≤ 8)

/-! ## The limiter -/

/-- Whether there is a database. -/
inductive Backend
  | memory
  | database
deriving Repr, DecidableEq

structure LoginLimits where
  memory : LimitTable := .empty
  rows : LimitTable := .empty

def checkOperatorLoginRateLimit (backend : Backend) (key : String) (now : ℕ)
    (limits : LoginLimits) : LoginLimits × Bool :=
  let r := getMemoryCount key now limits.memory
  ({ limits with memory := r.1 },
    match backend with
    | .memory => r.2 < maxFailedAttempts
    | .database => checkOperatorLoginAllowed key now limits.rows && r.2 < maxFailedAttempts)

def recordOperatorLoginAttempt (backend : Backend) (scan : Scan (String × LimitEntry))
    (key : String) (now : ℕ) (limits : LoginLimits) : LoginLimits × Bool :=
  let entry := countedInMemory key now limits.memory
  let memory := enforceMemoryLimitBound now (limits.memory.set key entry)
  match backend with
  | .memory => ({ limits with memory }, entry.attempts ≤ maxFailedAttempts)
  | .database =>
      let recorded := recordRow scan key now limits.rows
      (⟨memory, recorded.1⟩, recorded.2)

def clearOperatorLoginAttempts (backend : Backend) (key : String) (limits : LoginLimits) :
    LoginLimits :=
  match backend with
  | .memory => { limits with memory := limits.memory.erase key }
  | .database => ⟨limits.memory.erase key, limits.rows.erase key⟩

/-! ## The counter that decides -/

def Backend.expired : Backend → ℕ → LimitEntry → Bool
  | .memory => memoryExpired
  | .database => rowExpired

def Backend.table (backend : Backend) (limits : LoginLimits) : LimitTable :=
  match backend with
  | .memory => limits.memory
  | .database => limits.rows

/-- The counter of a key, while its window lasts. -/
def Backend.live (backend : Backend) (now : ℕ) (entry : Option LimitEntry) : Option LimitEntry :=
  entry.filter (!backend.expired now ·)

def Backend.counter (backend : Backend) (now : ℕ) (key : String) (limits : LoginLimits) :
    Option LimitEntry :=
  backend.live now ((backend.table limits).get? key)

/-- The failures a check counts. -/
def Backend.attempts (backend : Backend) (now : ℕ) (key : String) (limits : LoginLimits) : ℕ :=
  (backend.counter now key limits).elim 0 (·.attempts)

section
variable {backend : Backend} {now : ℕ} {key other : String} {limits : LoginLimits}
  {table : LimitTable}

theorem live_of_expired {entry : LimitEntry} (h : backend.expired now entry = true) :
    backend.live now (some entry) = none := by
  unfold Backend.live
  rw [Option.filter_some, h]
  rfl

theorem live_of_unexpired {entry : LimitEntry} (h : backend.expired now entry = false) :
    backend.live now (some entry) = some entry := by
  unfold Backend.live
  rw [Option.filter_some, h]
  rfl

/-- An expired window stays so. -/
theorem expired_mono {later : ℕ} (hle : now ≤ later) {entry : LimitEntry}
    (h : backend.expired now entry = true) : backend.expired later entry = true := by
  cases backend with
  | memory =>
      simp only [Backend.expired, memoryExpired, decide_eq_true_eq] at h ⊢
      omega
  | database =>
      simp only [Backend.expired, rowExpired, decide_eq_true_eq] at h ⊢
      omega

/-- A live counter at a later time is the one that was live before. -/
theorem live_mono {later : ℕ} (hle : now ≤ later) (entry : Option LimitEntry) :
    backend.live later entry = backend.live later (backend.live now entry) := by
  cases entry with
  | none => rfl
  | some entry =>
      cases hexpired : backend.expired now entry with
      | true => rw [live_of_expired hexpired, live_of_expired (expired_mono hle hexpired)]; rfl
      | false => rw [live_of_unexpired hexpired]

theorem get?_dropUntilBounded (keys : List String) (table : LimitTable) :
    (dropUntilBounded keys table).get? key = table.get? key ∨
      (dropUntilBounded keys table).get? key = none := by
  induction keys generalizing table with
  | nil => exact Or.inl rfl
  | cons first keys ih =>
      have herase : (table.erase first).get? key = table.get? key ∨
          (table.erase first).get? key = none := by
        rw [InsertionMap.get?_erase]
        split
        · exact Or.inr rfl
        · exact Or.inl rfl
      unfold dropUntilBounded
      dsimp only
      split
      · exact herase
      · rcases ih (table.erase first) with hsame | hnone
        · rw [hsame]
          exact herase
        · exact Or.inr hnone

/-- The bound only deletes counters. -/
theorem get?_enforceMemoryLimitBound :
    (enforceMemoryLimitBound now table).get? key = table.get? key ∨
      (enforceMemoryLimitBound now table).get? key = none := by
  unfold enforceMemoryLimitBound
  split
  · exact Or.inl rfl
  · have hexpired := @get?_dropUntilBounded key
      ((table.entries.filter fun e => memoryExpired now e.2).map Prod.fst) table
    dsimp only
    split
    · exact hexpired
    · generalize dropUntilBounded ((table.entries.filter fun e =>
        memoryExpired now e.2).map Prod.fst) table = cleared at hexpired ⊢
      rcases @get?_dropUntilBounded key ((cleared.entries.insertionSort fun a b =>
        a.2.windowStarted ≤ b.2.windowStarted).map Prod.fst) cleared with hsame | hnone
      · rw [hsame]
        exact hexpired
      · exact Or.inr hnone

/-- A key stands when it is not among the first keys that are over the bound. -/
theorem dropUntilBounded_keeps (keys : List String) (table : LimitTable)
    (hnodup : keys.Nodup) (hkeys : ∀ k ∈ keys, k ∈ table.keys)
    (hover : maxMemoryEntries < table.size)
    (hkey : key ∉ keys.take (table.size - maxMemoryEntries)) :
    (dropUntilBounded keys table).get? key = table.get? key := by
  induction keys generalizing table with
  | nil => rfl
  | cons first keys ih =>
      have hsize := InsertionMap.size_erase_of_mem (hkeys first List.mem_cons_self)
      obtain ⟨hfirst, hrest⟩ := List.nodup_cons.mp hnodup
      obtain ⟨n, hn⟩ : ∃ n, table.size - maxMemoryEntries = n + 1 :=
        ⟨table.size - maxMemoryEntries - 1, by omega⟩
      rw [hn, List.take_succ_cons, List.mem_cons, not_or] at hkey
      have herase : (table.erase first).get? key = table.get? key := by
        rw [InsertionMap.get?_erase, if_neg hkey.1]
      unfold dropUntilBounded
      dsimp only
      split
      · exact herase
      · next hstill =>
          rw [← herase]
          refine ih (table.erase first) hrest (fun k hk => ?_) (by omega) ?_
          · have hne : k ≠ first := fun heq => hfirst (heq ▸ hk)
            have hhas := InsertionMap.has_iff.mpr (hkeys k (List.mem_cons_of_mem _ hk))
            exact InsertionMap.has_iff.mp (by simp [hne, hhas])
          · have hpast : (table.erase first).size - maxMemoryEntries = n := by omega
            rw [hpast]
            exact hkey.2

/-- A map still over its bound has lost every key of the list. -/
theorem dropUntilBounded_of_over (keys : List String) (table : LimitTable)
    (hover : maxMemoryEntries < (dropUntilBounded keys table).size) :
    dropUntilBounded keys table = table.filter fun k _ => k ∉ keys := by
  induction keys generalizing table with
  | nil =>
      apply InsertionMap.ext
      exact (List.filter_eq_self.mpr fun _ _ => by simp).symm
  | cons first keys ih =>
      unfold dropUntilBounded at hover ⊢
      dsimp only at hover ⊢
      split at hover
      · omega
      · next hstill =>
          rw [if_neg hstill, ih (table.erase first) hover]
          apply InsertionMap.ext
          refine List.filter_filter.trans (List.filter_congr fun e _ => Bool.eq_iff_iff.mpr ?_)
          simp [and_comm]

/-- The bound keeps a running counter that is not among the surplus. -/
theorem enforceMemoryLimitBound_keeps {entry : LimitEntry} (hentry : table.get? key = some entry)
    (hrunning : memoryExpired now entry = false) (hkey : key ∉ surplusCounters now table) :
    (enforceMemoryLimitBound now table).get? key = table.get? key := by
  unfold enforceMemoryLimitBound
  split
  · rfl
  · next hover =>
      dsimp only
      set expired := (table.entries.filter fun e => memoryExpired now e.2).map Prod.fst with hexp
      have hmem : ∀ k v, table.get? k = some v → (k ∈ expired ↔ memoryExpired now v = true) := by
        intro k v hv
        constructor
        · intro hk
          obtain ⟨e, he, rfl⟩ := List.mem_map.mp hk
          obtain ⟨htable, hold⟩ := List.mem_filter.mp he
          have hsame := InsertionMap.get?_eq_some_iff.mpr htable
          rw [hv] at hsame
          cases hsame
          exact hold
        · exact fun hold =>
            List.mem_map_of_mem (List.mem_filter.mpr ⟨InsertionMap.get?_eq_some_iff.mp hv, hold⟩)
      have hstands : key ∉ expired := by
        rw [hmem key entry hentry, hrunning]
        exact Bool.false_ne_true
      have hfirst : (dropUntilBounded expired table).get? key = table.get? key := by
        refine dropUntilBounded_keeps expired table ?_ ?_ (Nat.lt_of_not_le hover)
          fun htake => hstands (List.mem_of_mem_take htake)
        · exact table.nodup.sublist (List.filter_sublist.map _)
        · exact fun k hk => (List.filter_sublist.map _).subset hk
      split
      · exact hfirst
      · next hstill =>
          -- Every expired counter is gone, so the second pass sorts the running ones.
          have hcleared : dropUntilBounded expired table =
              table.filter fun _ entry => !memoryExpired now entry := by
            rw [dropUntilBounded_of_over expired table (Nat.lt_of_not_le hstill)]
            refine InsertionMap.filter_congr fun k v hv => Bool.eq_iff_iff.mpr ?_
            simp [hmem k v hv]
          rw [← hfirst]
          rw [hcleared] at hstill ⊢
          have hperm := List.perm_insertionSort
            (fun a b : String × LimitEntry => a.2.windowStarted ≤ b.2.windowStarted)
            (table.filter fun _ entry => !memoryExpired now entry).entries
          refine dropUntilBounded_keeps _ _ ?_ ?_ (Nat.lt_of_not_le hstill) hkey
          · exact (hperm.map _).nodup_iff.mpr (InsertionMap.nodup _)
          · exact fun k hk => (hperm.map _).mem_iff.mp hk

/-- A row that the sweep deletes had expired long ago. -/
theorem live_sweepRows {scan : Scan (String × LimitEntry)} :
    Backend.database.live now ((sweepRows scan now table).get? key) =
      Backend.database.live now (table.get? key) := by
  unfold sweepRows
  dsimp only
  rw [InsertionMap.get?_filter]
  cases hrow : table.get? key with
  | none => rfl
  | some row =>
      rw [Option.filter_some]
      by_cases hswept : key ∈ ((scan.read (table.entries.filter fun e =>
          e.2.windowStarted + sweepMs < now)).take sweepBatch).map Prod.fst
      · rw [if_neg (by rw [decide_eq_true_iff]; exact not_not.mpr hswept)]
        obtain ⟨e, he, rfl⟩ := List.mem_map.mp hswept
        have hold := (scan.perm _).mem_iff.mp (List.mem_of_mem_take he)
        obtain ⟨hmem, hsweep⟩ := List.mem_filter.mp hold
        have hsame : row = e.2 :=
          Option.some.inj (hrow.symm.trans (InsertionMap.get?_eq_some_iff.mpr hmem))
        rw [decide_eq_true_iff] at hsweep
        have hexpired : Backend.database.expired now row = true := by
          rw [hsame]
          unfold Backend.expired rowExpired
          rw [decide_eq_true_iff]
          unfold sweepMs at hsweep
          unfold windowMs
          omega
        rw [live_of_expired hexpired]
        rfl
      · rw [if_pos (by rw [decide_eq_true_iff]; exact hswept)]

/-- The count of a check is that of the live counter, which the check leaves. -/
theorem getMemoryCount_live :
    (getMemoryCount key now table).2 =
        (Backend.memory.live now (table.get? key)).elim 0 (·.attempts) ∧
      Backend.memory.live now ((getMemoryCount key now table).1.get? other) =
        Backend.memory.live now (table.get? other) := by
  unfold getMemoryCount
  cases hentry : table.get? key with
  | none => exact ⟨rfl, rfl⟩
  | some entry =>
      cases hexpired : Backend.memory.expired now entry with
      | true =>
          have hexpired' : memoryExpired now entry = true := hexpired
          simp only [hexpired', if_true]
          rw [live_of_expired hexpired, InsertionMap.get?_erase]
          refine ⟨rfl, ?_⟩
          split
          · next heq =>
              rw [heq, hentry, live_of_expired hexpired]
              rfl
          · rfl
      | false =>
          have hexpired' : memoryExpired now entry = false := hexpired
          simp only [hexpired', Bool.false_eq_true, if_false]
          rw [live_of_unexpired hexpired]
          exact ⟨rfl, trivial⟩

/-- The counter of another failure continues a live one, or starts a window. -/
def Backend.counted (backend : Backend) (now : ℕ) (entry : Option LimitEntry) : LimitEntry :=
  match backend.live now entry with
  | none => ⟨now, 1⟩
  | some live => ⟨live.windowStarted, min 1000 (live.attempts + 1)⟩

theorem countedInMemory_eq :
    countedInMemory key now table = Backend.memory.counted now (table.get? key) := by
  unfold countedInMemory Backend.counted
  cases table.get? key with
  | none => rfl
  | some entry =>
      cases hexpired : Backend.memory.expired now entry with
      | true =>
          have hexpired' : memoryExpired now entry = true := hexpired
          simp only [live_of_expired hexpired, hexpired', if_true]
      | false =>
          have hexpired' : memoryExpired now entry = false := hexpired
          simp only [live_of_unexpired hexpired, hexpired', Bool.false_eq_true, if_false]

theorem countedInTable_eq :
    countedInTable key now table = Backend.database.counted now (table.get? key) := by
  unfold countedInTable Backend.counted
  cases table.get? key with
  | none => rfl
  | some row =>
      cases hexpired : Backend.database.expired now row with
      | true =>
          have hexpired' : rowExpired now row = true := hexpired
          simp only [live_of_expired hexpired, hexpired', if_true]
      | false =>
          have hexpired' : rowExpired now row = false := hexpired
          simp only [live_of_unexpired hexpired, hexpired', Bool.false_eq_true, if_false]

/-- A counter that starts or goes on is live. -/
theorem live_counted (entry : Option LimitEntry) :
    backend.live now (some (backend.counted now entry)) = some (backend.counted now entry) := by
  have hfresh : backend.expired now ⟨now, 1⟩ = false := by
    cases backend with
    | memory => simp [Backend.expired, memoryExpired, windowMs]
    | database => simp [Backend.expired, rowExpired]
  unfold Backend.counted
  cases hlive : backend.live now entry with
  | none => exact live_of_unexpired hfresh
  | some live =>
      have hunexpired : backend.expired now live = false := by
        simpa using (Option.filter_eq_some_iff.mp hlive).2
      have hsame : backend.expired now ⟨live.windowStarted, min 1000 (live.attempts + 1)⟩ =
          backend.expired now live := by
        cases backend with
        | memory => rfl
        | database => rfl
      exact live_of_unexpired (hsame.trans hunexpired)

end

end BlackMonolith.Dashboard
