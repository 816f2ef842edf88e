import BlackMonolith.Dashboard.LoginRateLimit
import BlackMonolith.Library.Paths

/-!
# Concurrent sign-ins

A request checks the limit, verifies the credential and records a failure in
three steps, and the check reserves nothing. Wrong guesses stay within the limit
in every run in which a request is let in only while the failures counted and
the requests under way are fewer than the limit together, and in which the map of
the process never holds so many younger counters that its bound reaches the one of
the key. There is one process and one clock, and the database answers.
-/
namespace BlackMonolith.Dashboard
open Library

/-! ## Requests -/

/-- The requests of one key by how far they have come: let in, found wrong, found right. -/
structure InFlight where
  admitted : ℕ := 0
  failed : ℕ := 0
  verified : ℕ := 0
deriving Repr, DecidableEq

def InFlight.total (requests : InFlight) : ℕ :=
  requests.admitted + requests.failed + requests.verified

/-- The limiter and the requests of each key; `window` is the window of a key and
the failures recorded in it, whatever the limiter remembers of them. -/
structure SignIns where
  now : ℕ := 0
  limits : LoginLimits := {}
  requests : String → InFlight := fun _ => {}
  window : String → Option LimitEntry := fun _ => none

/-- A request that is refused, or ends without a verdict, leaves nothing behind. -/
inductive SignInStep
  | tick (ms : ℕ)
  | check (key : String)
  | verify (key : String) (correct : Bool)
  | abandon (key : String)
  | record (key : String) (scan : Scan (String × LimitEntry))
  | clear (key : String)

/-- The window after another failure. -/
def Backend.charge (backend : Backend) (now : ℕ) (window : Option LimitEntry) : LimitEntry :=
  match backend.live now window with
  | none => ⟨now, 1⟩
  | some live => ⟨live.windowStarted, live.attempts + 1⟩

section
variable (backend : Backend)

def SignIns.setRequests (sys : SignIns) (key : String) (requests : InFlight) : SignIns :=
  { sys with requests := Function.update sys.requests key requests }

def signInStep (sys : SignIns) : SignInStep → Option SignIns
  | .tick ms => some { sys with now := sys.now + ms }
  | .check key =>
      let r := checkOperatorLoginRateLimit backend key sys.now sys.limits
      let requests := sys.requests key
      let checked := { sys with limits := r.1 }
      if r.2 then
        some (checked.setRequests key { requests with admitted := requests.admitted + 1 })
      else some checked
  | .verify key correct =>
      let requests := sys.requests key
      if requests.admitted = 0 then none
      else
        let left := { requests with admitted := requests.admitted - 1 }
        some (sys.setRequests key
          (if correct then { left with verified := left.verified + 1 }
            else { left with failed := left.failed + 1 }))
  | .abandon key =>
      let requests := sys.requests key
      if requests.admitted = 0 then none
      else some (sys.setRequests key { requests with admitted := requests.admitted - 1 })
  | .record key scan =>
      let requests := sys.requests key
      if requests.failed = 0 then none
      else
        some
          { sys.setRequests key { requests with failed := requests.failed - 1 } with
            limits := (recordOperatorLoginAttempt backend scan key sys.now sys.limits).1
            window := Function.update sys.window key
              (some (backend.charge sys.now (sys.window key))) }
  | .clear key =>
      let requests := sys.requests key
      if requests.verified = 0 then none
      else
        some
          { sys.setRequests key { requests with verified := requests.verified - 1 } with
            limits := clearOperatorLoginAttempts backend key sys.limits
            window := Function.update sys.window key none }

/-- The wrong credentials verified for a key in its window, recorded or about to be. -/
def SignIns.guesses (sys : SignIns) (key : String) : ℕ :=
  (backend.live sys.now (sys.window key)).elim 0 (·.attempts) + (sys.requests key).failed

/-- A check that may let a request in leaves room for those under way, and a running
counter of the key is not among the oldest that the map has no room for. -/
def reserved (key : String) (sys : SignIns) : SignInStep → Prop
  | .check key' => key' = key →
      backend.attempts sys.now key sys.limits < maxFailedAttempts →
        backend.attempts sys.now key sys.limits + (sys.requests key).total < maxFailedAttempts
  | .record key' _ => backend = .memory →
      let counted := sys.limits.memory.set key' (countedInMemory key' sys.now sys.limits.memory)
      ∀ entry, backend.live sys.now (counted.get? key) = some entry →
        key ∉ surplusCounters sys.now counted
  | .tick _ | .verify _ _ | .abandon _ | .clear _ => True

end

/-! ## The invariant -/

/-- The limiter knows the window of the key, and has room for the requests under way. -/
structure Reserving (backend : Backend) (key : String) (sys : SignIns) : Prop where
  live : backend.counter sys.now key sys.limits = backend.live sys.now (sys.window key)
  room : backend.attempts sys.now key sys.limits + (sys.requests key).total ≤ maxFailedAttempts

section
variable {backend : Backend} {key other : String} {sys : SignIns} {limits : LoginLimits} {now : ℕ}

/-! ### The limiter -/

theorem counter_check :
    backend.counter now key (checkOperatorLoginRateLimit backend other now limits).1 =
      backend.counter now key limits := by
  cases backend with
  | memory => exact getMemoryCount_live.2
  | database => rfl

/-- What lets a request in. -/
theorem attempts_lt_of_allowed
    (h : (checkOperatorLoginRateLimit backend key now limits).2 = true) :
    backend.attempts now key limits < maxFailedAttempts := by
  cases backend with
  | memory =>
      have hallowed := of_decide_eq_true h
      rw [(@getMemoryCount_live now key key limits.memory).1] at hallowed
      exact hallowed
  | database =>
      have hboth := (Bool.and_eq_true _ _).mp h
      exact of_decide_eq_true hboth.1

theorem counter_clear_self :
    backend.counter now key (clearOperatorLoginAttempts backend key limits) = none := by
  unfold Backend.counter clearOperatorLoginAttempts Backend.table
  cases backend with
  | memory =>
      dsimp only
      rw [InsertionMap.get?_erase, if_pos rfl]
      rfl
  | database =>
      dsimp only
      rw [InsertionMap.get?_erase, if_pos rfl]
      rfl

theorem counter_clear_ne (h : key ≠ other) :
    backend.counter now key (clearOperatorLoginAttempts backend other limits) =
      backend.counter now key limits := by
  unfold Backend.counter clearOperatorLoginAttempts Backend.table
  cases backend with
  | memory =>
      dsimp only
      rw [InsertionMap.get?_erase, if_neg h]
  | database =>
      dsimp only
      rw [InsertionMap.get?_erase, if_neg h]

/-- A running counter outside the surplus is kept, and one that has expired counts as none. -/
theorem live_enforce {table : LimitTable}
    (hkept : ∀ entry, Backend.memory.live now (table.get? key) = some entry →
      key ∉ surplusCounters now table) :
    Backend.memory.live now ((enforceMemoryLimitBound now table).get? key) =
      Backend.memory.live now (table.get? key) := by
  rcases @get?_enforceMemoryLimitBound now key table with hsame | hnone
  · rw [hsame]
  · cases hlive : Backend.memory.live now (table.get? key) with
    | none =>
        rw [hnone]
        rfl
    | some entry =>
        obtain ⟨hentry, hrunning⟩ := Option.filter_eq_some_iff.mp hlive
        rw [enforceMemoryLimitBound_keeps hentry ((Bool.not_eq_true' _).mp hrunning)
          (hkept entry hlive), hlive]

/-- The counter of the key after a failure of some key is recorded. -/
theorem counter_record {scan : Scan (String × LimitEntry)}
    (hreserved : reserved backend key sys (.record other scan)) :
    backend.counter sys.now key
        (recordOperatorLoginAttempt backend scan other sys.now sys.limits).1 =
      if other = key then some (backend.counted sys.now ((backend.table sys.limits).get? key))
      else backend.counter sys.now key sys.limits := by
  have hset : ∀ table : LimitTable, backend.live sys.now
      ((table.set other (backend.counted sys.now (table.get? other))).get? key) =
        if other = key then some (backend.counted sys.now (table.get? key))
        else backend.live sys.now (table.get? key) := by
    intro table
    rw [InsertionMap.get?_set]
    split
    · next heq => rw [heq, live_counted]
    · rfl
  cases backend with
  | memory =>
      have hkept := hreserved rfl
      rw [countedInMemory_eq] at hkept
      unfold Backend.counter recordOperatorLoginAttempt
      dsimp only
      rw [countedInMemory_eq]
      exact (live_enforce hkept).trans (hset sys.limits.memory)
  | database =>
      unfold Backend.counter recordOperatorLoginAttempt recordRow
      dsimp only
      rw [countedInTable_eq]
      exact live_sweepRows.trans (hset sys.limits.rows)

/-! ### The steps -/

theorem Reserving.attempts_le (h : Reserving backend key sys) :
    backend.attempts sys.now key sys.limits ≤ maxFailedAttempts := by
  have hroom := h.room
  omega

/-- A step that leaves the window and the counter of the key alone, and adds no
request to it. -/
theorem Reserving.frame {sys' : SignIns} (h : Reserving backend key sys) (hnow : sys'.now = sys.now)
    (hcounter : backend.counter sys.now key sys'.limits = backend.counter sys.now key sys.limits)
    (hwindow : sys'.window key = sys.window key)
    (hrequests : (sys'.requests key).total ≤ (sys.requests key).total) :
    Reserving backend key sys' := by
  constructor
  · rw [hnow, hcounter, hwindow]
    exact h.live
  · have hroom := h.room
    unfold Backend.attempts at hroom ⊢
    rw [hnow, hcounter]
    omega

theorem total_setRequests {requests : InFlight} :
    ((sys.setRequests other requests).requests key).total =
      if key = other then requests.total else (sys.requests key).total := by
  unfold SignIns.setRequests
  dsimp only
  by_cases heq : key = other
  · rw [if_pos heq, heq, Function.update_self]
  · rw [if_neg heq, Function.update_of_ne heq]

theorem step_reserving (sys : SignIns) (step : SignInStep) (sys' : SignIns)
    (h : Reserving backend key sys) (hreserved : reserved backend key sys step)
    (hstep : signInStep backend sys step = some sys') : Reserving backend key sys' := by
  cases step with
  | tick ms =>
      cases hstep
      have hle : sys.now ≤ sys.now + ms := Nat.le_add_right _ _
      have hlater : backend.counter (sys.now + ms) key sys.limits =
          backend.live (sys.now + ms) (backend.counter sys.now key sys.limits) :=
        live_mono hle _
      constructor
      · dsimp only
        rw [hlater, h.live, ← live_mono hle]
      · have hroom := h.room
        have hfewer : (backend.counter (sys.now + ms) key sys.limits).elim 0 (·.attempts) ≤
            (backend.counter sys.now key sys.limits).elim 0 (·.attempts) := by
          rw [hlater]
          cases backend.counter sys.now key sys.limits with
          | none => exact Nat.le_refl _
          | some entry =>
              cases hexpired : backend.expired (sys.now + ms) entry with
              | true =>
                  rw [live_of_expired hexpired]
                  exact Nat.zero_le _
              | false =>
                  rw [live_of_unexpired hexpired]
        unfold Backend.attempts at hroom ⊢
        dsimp only
        omega
  | check other =>
      simp only [signInStep] at hstep
      cases hallowed : (checkOperatorLoginRateLimit backend other sys.now sys.limits).2 with
      | false =>
          rw [hallowed] at hstep
          cases hstep
          exact h.frame rfl counter_check rfl (Nat.le_refl _)
      | true =>
          rw [hallowed] at hstep
          cases hstep
          by_cases heq : key = other
          · have hattempts := attempts_lt_of_allowed hallowed
            rw [← heq] at hattempts ⊢
            have hspare := hreserved heq.symm hattempts
            constructor
            · exact counter_check.trans h.live
            · have hcounter := @counter_check backend key key sys.limits sys.now
              unfold Backend.attempts at hspare ⊢
              rw [total_setRequests, if_pos rfl]
              dsimp only [SignIns.setRequests]
              rw [hcounter]
              simp only [InFlight.total] at hspare ⊢
              omega
          · refine h.frame rfl counter_check rfl ?_
            rw [total_setRequests, if_neg heq]
  | verify other correct =>
      simp only [signInStep] at hstep
      split at hstep
      · cases hstep
      · next hadmitted =>
          cases hstep
          refine h.frame rfl rfl rfl ?_
          rw [total_setRequests]
          split
          · next heq =>
              rw [heq]
              cases correct with
              | true =>
                  simp only [if_true, InFlight.total]
                  omega
              | false =>
                  simp only [Bool.false_eq_true, if_false, InFlight.total]
                  omega
          · exact Nat.le_refl _
  | abandon other =>
      simp only [signInStep] at hstep
      split at hstep
      · cases hstep
      · cases hstep
        refine h.frame rfl rfl rfl ?_
        rw [total_setRequests]
        split
        · next heq =>
            rw [heq]
            simp only [InFlight.total]
            omega
        · exact Nat.le_refl _
  | record other scan =>
      simp only [signInStep] at hstep
      split at hstep
      · cases hstep
      · next hfailed =>
          cases hstep
          have hrecord := counter_record hreserved
          by_cases heq : other = key
          · rw [if_pos heq] at hrecord
            have hroom := h.room
            have hlive := h.live
            rw [heq] at hfailed
            have hcounted : backend.counted sys.now ((backend.table sys.limits).get? key) =
                  backend.charge sys.now (sys.window key) ∧
                (backend.counted sys.now ((backend.table sys.limits).get? key)).attempts ≤
                  backend.attempts sys.now key sys.limits + 1 := by
              have hle := h.attempts_le
              unfold Backend.counter at hlive
              unfold Backend.attempts Backend.counter at hle ⊢
              unfold Backend.counted Backend.charge
              rw [← hlive]
              cases hentry : backend.live sys.now ((backend.table sys.limits).get? key) with
              | none => exact ⟨rfl, Nat.le_refl _⟩
              | some entry =>
                  rw [hentry] at hle
                  have hsmall : min 1000 (entry.attempts + 1) = entry.attempts + 1 := by
                    have hattempts : entry.attempts ≤ 8 := hle
                    omega
                  simp only [hsmall]
                  exact ⟨trivial, Nat.le_refl _⟩
            constructor
            · dsimp only [SignIns.setRequests]
              rw [hrecord, hcounted.1, heq, Function.update_self, ← hcounted.1, live_counted]
            · have htotal := @total_setRequests key other sys
                { sys.requests other with failed := (sys.requests other).failed - 1 }
              rw [if_pos heq.symm, heq] at htotal
              unfold Backend.attempts
              dsimp only [SignIns.setRequests] at htotal ⊢
              rw [hrecord, heq, htotal]
              have hmore := hcounted.2
              simp only [InFlight.total, Option.elim_some] at hroom ⊢
              omega
          · rw [if_neg heq] at hrecord
            have hne : key ≠ other := fun hsame => heq hsame.symm
            refine h.frame rfl hrecord (Function.update_of_ne hne _ _) ?_
            have htotal := @total_setRequests key other sys
              { sys.requests other with failed := (sys.requests other).failed - 1 }
            rw [if_neg hne] at htotal
            exact Nat.le_of_eq htotal
  | clear other =>
      simp only [signInStep] at hstep
      split at hstep
      · cases hstep
      · next hverified =>
          cases hstep
          have htotal := @total_setRequests key other sys
            { sys.requests other with verified := (sys.requests other).verified - 1 }
          by_cases heq : key = other
          · rw [← heq] at hverified ⊢
            rw [if_pos heq, ← heq] at htotal
            constructor
            · dsimp only
              rw [counter_clear_self, Function.update_self]
              rfl
            · have hroom := h.room
              unfold Backend.attempts
              dsimp only at htotal ⊢
              rw [counter_clear_self, htotal]
              simp only [InFlight.total, Option.elim_none] at hroom ⊢
              omega
          · refine h.frame rfl (counter_clear_ne heq) (Function.update_of_ne heq _ _) ?_
            rw [if_neg heq] at htotal
            exact Nat.le_of_eq htotal

/-- In every run whose checks reserve, with either backend and whatever happens under
other keys, the wrong guesses in a window are at most the limit. -/
theorem guesses_bounded {steps : List SignInStep}
    (h : Path (signInStep backend) (reserved backend key) {} steps sys) :
    sys.guesses backend key ≤ maxFailedAttempts := by
  have hempty : Reserving backend key {} := by
    cases backend with
    | memory => exact ⟨rfl, Nat.zero_le _⟩
    | database => exact ⟨rfl, Nat.zero_le _⟩
  have hinv := h.invariant step_reserving hempty
  have hroom := hinv.room
  unfold SignIns.guesses
  unfold Backend.attempts at hroom
  rw [← hinv.live]
  simp only [InFlight.total] at hroom
  omega

end

/-! ## Guesses at the same time -/

/-- Nine requests are let in before the first of them is found wrong. -/
def nineAtOnce : List SignInStep :=
  List.replicate 9 (.check "k") ++ List.replicate 9 (.verify "k" false)

theorem nine_guesses :
    (∃ sys, execute (signInStep .memory) {} nineAtOnce = some sys ∧
      sys.guesses .memory "k" = 9) ∧
    ∃ sys, execute (signInStep .database) {} nineAtOnce = some sys ∧
      sys.guesses .database "k" = 9 :=
  ⟨⟨_, rfl, rfl⟩, ⟨_, rfl, rfl⟩⟩

/-- No request of the key is under way when another is checked. -/
def alone (key : String) (sys : SignIns) : SignInStep → Bool
  | .check _ => (sys.requests key).total = 0
  | _ => true

theorem reserved_of_alone {key : String} {sys : SignIns} {step : SignInStep}
    (h : alone key sys step = true) : reserved .database key sys step := by
  cases step with
  | check key' =>
      intro _ hattempts
      have htotal : (sys.requests key).total = 0 := of_decide_eq_true h
      omega
  | record key' scan =>
      intro hmemory
      cases hmemory
  | tick ms => trivial
  | verify key' correct => trivial
  | abandon key' => trivial
  | clear key' => trivial

/-- One request after the other. -/
def oneByOne : List SignInStep :=
  [.check "k", .verify "k" false, .record "k" .inOrder, .check "k", .verify "k" false]

theorem guesses_bounded_in_turn :
    ∃ sys, execute (signInStep .database) {} oneByOne = some sys ∧
      sys.guesses .database "k" ≤ maxFailedAttempts := by
  have hguarded : executeGuarded (signInStep .database) (alone "k") {} oneByOne = some _ := rfl
  have hpath := (Path.of_executeGuarded hguarded).mono fun sys step h => reserved_of_alone h
  exact ⟨_, rfl, guesses_bounded hpath⟩

end BlackMonolith.Dashboard
