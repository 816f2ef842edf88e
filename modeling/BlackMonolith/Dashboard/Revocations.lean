import BlackMonolith.Library.Substring
import BlackMonolith.Dashboard.IncidentStore

/-!
# What an evaluation changes

An evaluation revokes the sessions that trip and changes nothing else, as long
as the maps of the in-memory store stay within their bound. Revoking a session
does not change whether another one trips, so all verdicts of a batch are those
of the state before the first revocation.
-/
namespace BlackMonolith.Dashboard
open Library

/-! ## Keys and layers -/

theorem Identity.zero_notMem (id : Identity) : 0 ∉ id.text.units := by
  intro h
  have hprintable := List.all_eq_true.mp id.printable 0 h
  exact absurd hprintable (by decide)

theorem sessionKey_inj {t a s t' a' s' : Identity} :
    sessionKey t a s = sessionKey t' a' s' ↔ t = t' ∧ a = a' ∧ s = s' := by
  constructor
  · intro h
    have hunits := congrArg JsString.units h
    obtain ⟨ht, hrest⟩ := (append_separator_inj t.zero_notMem t'.zero_notMem).mp hunits
    obtain ⟨ha, hs⟩ := (append_separator_inj a.zero_notMem a'.zero_notMem).mp hrest
    have htext : ∀ {x y : Identity}, x.text.units = y.text.units → x = y :=
      fun hxy => Identity.ext_text (congrArg JsString.mk hxy)
    exact ⟨htext ht, htext ha, htext hs⟩
  · rintro ⟨rfl, rfl, rfl⟩
    rfl

@[simp] theorem Identity.toWellFormed_toWellFormed (id : Identity) :
    id.toWellFormed.toWellFormed = id.toWellFormed :=
  Identity.ext_text (JsString.toWellFormed_toWellFormed id.text)

theorem mem_sortedLayers {m : ModuleName} {modules : List ModuleName} :
    m ∈ sortedLayers modules ↔ m ∈ modules := by
  have hknown : m ∈ knownModules := by cases m <;> decide
  simp only [sortedLayers, List.mem_filter, hknown, true_and, List.contains_iff_mem]

/-- As many layers as distinct modules. -/
theorem sortedLayers_length (modules : List ModuleName) :
    (sortedLayers modules).length = modules.toFinset.card := by
  have hnodup : (sortedLayers modules).Nodup := List.Nodup.filter _ (by decide)
  rw [← List.toFinset_card_of_nodup hnodup]
  congr 1
  ext m
  rw [List.mem_toFinset, List.mem_toFinset, mem_sortedLayers]

/-- The breaker's own reason and trigger pass the checks of `revokeSession`. -/
theorem revocationTexts_breaker (modules : List ModuleName) :
    ∃ texts, revocationTexts (breakerReason (sortedLayers modules)) autoCircuitBreaker =
      .ok texts := by
  unfold sortedLayers
  generalize (fun m => modules.contains m) = f
  cases h₁ : f .mcpShield <;> cases h₂ : f .traceAudit <;> cases h₃ : f .vectorAnchor <;>
    simp only [knownModules, List.filter, h₁, h₂, h₃] <;> exact ⟨_, rfl⟩

/-! ## The sessions of a batch -/

theorem mem_sessionsOf {events : List MonolithEvent} {c : Identity × Identity} :
    c ∈ sessionsOf events ↔ ∃ e ∈ events, e.session = some c := by
  have hfold : ∀ (cs seen : List (Identity × Identity)),
      c ∈ cs.foldl (fun seen c => if seen.contains c then seen else seen ++ [c]) seen ↔
        c ∈ seen ∨ c ∈ cs := by
    intro cs
    induction cs with
    | nil => simp
    | cons c' cs ih =>
        intro seen
        rw [List.foldl_cons, ih]
        split
        · next hseen =>
            have hmem := List.contains_iff_mem.mp hseen
            constructor
            · exact Or.imp_right (List.mem_cons_of_mem c')
            · rintro (hc | hc)
              · exact Or.inl hc
              · rcases List.mem_cons.mp hc with rfl | hc
                · exact Or.inl hmem
                · exact Or.inr hc
        · rw [List.mem_append, List.mem_singleton, List.mem_cons, or_assoc]
  unfold sessionsOf
  rw [hfold, List.mem_filterMap]
  simp only [List.not_mem_nil, false_or]

/-- The sessions a batch adds evidence for. -/
def evidenceKeys (breaker : CircuitBreaker) (t : Identity) (events : List MonolithEvent) :
    List JsString :=
  (events.filter breaker.qualifies).filterMap fun e =>
    e.session.map fun c => sessionKey t c.1 c.2

/-- Adding the modules of a batch touches the module sets of its sessions only. -/
theorem MemoryStore.addModules_spec (breaker : CircuitBreaker) (t : Identity)
    (events : List MonolithEvent) (s : MemoryStore) :
    (s.addModules breaker t events).events = s.events ∧
    (s.addModules breaker t events).revoked = s.revoked ∧
    (s.addModules breaker t events).restoredAt = s.restoredAt ∧
    (∀ k ∈ (s.addModules breaker t events).modules.keys,
      k ∈ s.modules.keys ++ evidenceKeys breaker t events) ∧
    ∀ k, ∀ m ∈ ((s.addModules breaker t events).modules.get? k).getD [],
      m ∈ (s.modules.get? k).getD [] ∨
        ∃ e ∈ events, breaker.qualifies e ∧ e.moduleName = m ∧
          ∃ c, e.session = some c ∧ k = sessionKey t c.1 c.2 := by
  induction events generalizing s with
  | nil => exact ⟨rfl, rfl, rfl, fun k hk => List.mem_append_left _ hk, fun _ _ hm => Or.inl hm⟩
  | cons e events ih =>
      have hskip : ∀ s : MemoryStore, (∀ k ∈ (s.addModules breaker t events).modules.keys,
          k ∈ s.modules.keys ++ evidenceKeys breaker t events) →
            ∀ k ∈ (s.addModules breaker t events).modules.keys,
              k ∈ s.modules.keys ++ evidenceKeys breaker t (e :: events) := by
        intro s hkeys k hk
        rcases List.mem_append.mp (hkeys k hk) with hold | hnew
        · exact List.mem_append_left _ hold
        · refine List.mem_append_right _ ?_
          unfold evidenceKeys at hnew ⊢
          rw [List.filter_cons]
          split
          · rw [List.filterMap_cons]
            split
            · exact hnew
            · exact List.mem_cons_of_mem _ hnew
          · exact hnew
      simp only [MemoryStore.addModules]
      split
      · next agentId sessionId hsession =>
          split
          · next hq =>
              obtain ⟨hevents, hrevoked, hrestored, hkeys, hmodules⟩ := ih
                { s with
                  modules := s.modules.set (sessionKey t agentId sessionId)
                    (if ((s.modules.get? (sessionKey t agentId sessionId)).getD []).contains
                        e.moduleName
                      then (s.modules.get? (sessionKey t agentId sessionId)).getD []
                      else (s.modules.get? (sessionKey t agentId sessionId)).getD [] ++
                        [e.moduleName]) }
              have hkey : sessionKey t agentId sessionId ∈ evidenceKeys breaker t (e :: events) := by
                unfold evidenceKeys
                rw [List.filter_cons_of_pos hq, List.filterMap_cons, hsession]
                exact List.mem_cons_self
              refine ⟨hevents, hrevoked, hrestored, ?_, ?_⟩
              · intro k hk
                rcases List.mem_append.mp (hskip _ hkeys k hk) with hold | hnew
                · rw [← InsertionMap.has_iff, InsertionMap.has_set, Bool.or_eq_true,
                    decide_eq_true_eq, InsertionMap.has_iff] at hold
                  rcases hold with rfl | hold
                  · exact List.mem_append_right _ hkey
                  · exact List.mem_append_left _ hold
                · exact List.mem_append_right _ hnew
              · intro k m hm
                rcases hmodules k m hm with hold | ⟨e', he', hrest⟩
                · rw [InsertionMap.get?_set] at hold
                  split at hold
                  · next heq =>
                      rw [Option.getD_some] at hold
                      split at hold
                      · exact Or.inl (heq ▸ hold)
                      · rcases List.mem_append.mp hold with hold | hnew
                        · exact Or.inl (heq ▸ hold)
                        · exact Or.inr ⟨e, List.mem_cons_self, hq,
                            (List.mem_singleton.mp hnew).symm, _, hsession, heq.symm⟩
                  · exact Or.inl hold
                · exact Or.inr ⟨e', List.mem_cons_of_mem e he', hrest⟩
          · obtain ⟨hevents, hrevoked, hrestored, hkeys, hmodules⟩ := ih s
            refine ⟨hevents, hrevoked, hrestored, hskip s hkeys, fun k m hm => ?_⟩
            exact (hmodules k m hm).imp_right fun ⟨e', he', hrest⟩ =>
              ⟨e', List.mem_cons_of_mem e he', hrest⟩
      · obtain ⟨hevents, hrevoked, hrestored, hkeys, hmodules⟩ := ih s
        refine ⟨hevents, hrevoked, hrestored, hskip s hkeys, fun k m hm => ?_⟩
        exact (hmodules k m hm).imp_right fun ⟨e', he', hrest⟩ =>
          ⟨e', List.mem_cons_of_mem e he', hrest⟩

/-! ## The in-memory store -/

theorem MemoryStore.enforceSessionBound_of_le {s : MemoryStore}
    (hrevoked : s.revoked.size ≤ maxMemorySessions)
    (hmodules : s.modules.size ≤ maxMemorySessions) : s.enforceSessionBound = s := by
  unfold MemoryStore.enforceSessionBound
  rw [if_pos (by simp [hrevoked, hmodules])]

/-- Only revocations changed, and restore watermarks of revoked sessions. -/
structure MemoryStore.RevokedOnly (s s' : MemoryStore) (hit : JsString → Prop) : Prop where
  events : s'.events = s.events
  modules : s'.modules = s.modules
  revoked : ∀ k, s'.revoked.has k ↔ s.revoked.has k ∨ hit k
  restoredAt : ∀ k, s'.revoked.has k = false → s'.restoredAt.get? k = s.restoredAt.get? k

section
variable {s : MemoryStore} {t a se : Identity} {reason trigger : JsString}
  {layers : List ModuleName} {now : ℕ} {K : Finset JsString}

theorem MemoryStore.revoke_eq_put (hmodules : s.modules.size ≤ maxMemorySessions)
    (hcard : K.card ≤ maxMemorySessions) (hkeys : ∀ k ∈ s.revoked.keys, k ∈ K)
    (hkey : sessionKey t a se ∈ K) :
    s.revoke t a se reason trigger layers now = s.put t a se reason trigger layers now := by
  unfold MemoryStore.revoke
  refine MemoryStore.enforceSessionBound_of_le ?_ hmodules
  refine (InsertionMap.size_le_card ?_).trans hcard
  intro k hk
  have hhas := InsertionMap.has_iff.mpr hk
  simp only [MemoryStore.put, InsertionMap.has_set, Bool.or_eq_true, decide_eq_true_eq] at hhas
  rcases hhas with rfl | hold
  · exact hkey
  · exact hkeys k (InsertionMap.has_iff.mp hold)

theorem MemoryStore.put_spec :
    s.RevokedOnly (s.put t a se reason trigger layers now) (· = sessionKey t a se) := by
  unfold MemoryStore.put
  refine ⟨rfl, rfl, ?_, ?_⟩
  · intro k
    simp only [InsertionMap.has_set, Bool.or_eq_true, decide_eq_true_eq]
    rw [or_comm, @eq_comm _ (sessionKey t a se) k]
  · intro k hk
    simp only [InsertionMap.has_set, Bool.or_eq_false_iff, decide_eq_false_iff_not] at hk
    simp only [InsertionMap.get?_erase]
    rw [if_neg fun heq => hk.1 heq.symm]

end

/-- The layers of a session suffice to revoke it. -/
def MemoryStore.Trips (breaker : CircuitBreaker) (t : Identity) (s : MemoryStore)
    (c : Identity × Identity) : Prop :=
  breaker.minLayers ≤ (sortedLayers (s.sessionModules breaker t c.1 c.2)).length

instance (breaker : CircuitBreaker) (t : Identity) (s : MemoryStore) (c : Identity × Identity) :
    Decidable (s.Trips breaker t c) := inferInstanceAs (Decidable (_ ≤ _))

/-- The bound leaves room for revoking what trips among some sessions: all keys
lie in a set within the bound. -/
structure MemoryStore.Roomy (breaker : CircuitBreaker) (t : Identity) (K : Finset JsString)
    (s : MemoryStore) (sessions : List (Identity × Identity)) : Prop where
  modules : s.modules.size ≤ maxMemorySessions
  card : K.card ≤ maxMemorySessions
  revoked : ∀ k ∈ s.revoked.keys, k ∈ K
  tripping : ∀ c ∈ sessions, s.Trips breaker t c → sessionKey t c.1 c.2 ∈ K

section
variable {breaker : CircuitBreaker} {t : Identity} {revokedAt : ℕ → ℕ} {K : Finset JsString}

/-- Revocations elsewhere do not change whether a session trips. -/
theorem MemoryStore.RevokedOnly.trips_iff {s s' : MemoryStore} {hit : JsString → Prop}
    (h : s.RevokedOnly s' hit) {c : Identity × Identity}
    (hc : s'.revoked.has (sessionKey t c.1 c.2) = false) :
    s'.Trips breaker t c ↔ s.Trips breaker t c := by
  unfold MemoryStore.Trips MemoryStore.sessionModules MemoryStore.ledger
  simp only [h.events, h.modules, h.restoredAt _ hc]

section
variable {s s' : MemoryStore} {c : Identity × Identity} {rest : List (Identity × Identity)}

theorem MemoryStore.Roomy.tail (h : s.Roomy breaker t K (c :: rest)) : s.Roomy breaker t K rest :=
  ⟨h.modules, h.card, h.revoked, fun c' hc' => h.tripping c' (List.mem_cons_of_mem c hc')⟩

/-- There is still room after a session that trips is revoked. -/
theorem MemoryStore.Roomy.revokedOnly (h : s.Roomy breaker t K (c :: rest))
    (htrip : s.Trips breaker t c) (hs' : s.RevokedOnly s' (· = sessionKey t c.1 c.2)) :
    s'.Roomy breaker t K rest := by
  have hkeys : ∀ k ∈ s'.revoked.keys, k ∈ K := by
    intro k hk
    rcases (hs'.revoked k).mp (InsertionMap.has_iff.mpr hk) with hold | rfl
    · exact h.revoked k (InsertionMap.has_iff.mp hold)
    · exact h.tripping c List.mem_cons_self htrip
  refine ⟨hs'.modules ▸ h.modules, h.card, hkeys, ?_⟩
  intro c' hc' htrip'
  cases hnew : s'.revoked.has (sessionKey t c'.1 c'.2) with
  | true => exact hkeys _ (InsertionMap.has_iff.mp hnew)
  | false => exact h.tripping c' (List.mem_cons_of_mem c hc') ((hs'.trips_iff hnew).mp htrip')

end

/-- One turn of the loop, while there is room. -/
theorem MemoryStore.evaluateSessions_cons {c : Identity × Identity}
    {rest : List (Identity × Identity)} {s : MemoryStore} (i : ℕ)
    (h : s.Roomy breaker t K (c :: rest)) :
    ∃ reason trigger, s.evaluateSessions breaker t revokedAt i (c :: rest) =
      if s.Trips breaker t c ∧ s.revoked.has (sessionKey t c.1 c.2) = false then
        (s.put t c.1 c.2 reason trigger (sortedLayers (s.sessionModules breaker t c.1 c.2))
          (revokedAt i)).evaluateSessions breaker t revokedAt (i + 1) rest
      else s.evaluateSessions breaker t revokedAt (i + 1) rest := by
  obtain ⟨⟨reason, trigger⟩, htexts⟩ :=
    revocationTexts_breaker (s.sessionModules breaker t c.1 c.2)
  refine ⟨reason, trigger, ?_⟩
  simp only [MemoryStore.evaluateSessions, htexts]
  split
  · next htrip =>
      have hkey := h.tripping c List.mem_cons_self htrip.1
      have htrip' : s.Trips breaker t c ∧ s.revoked.has (sessionKey t c.1 c.2) = false := htrip
      rw [if_pos htrip', MemoryStore.revoke_eq_put h.modules h.card h.revoked hkey]
  · next htrip =>
      have htrip' : ¬ (s.Trips breaker t c ∧ s.revoked.has (sessionKey t c.1 c.2) = false) := htrip
      rw [if_neg htrip']

theorem MemoryStore.evaluateSessions_spec {rest : List (Identity × Identity)} {i : ℕ}
    {s : MemoryStore} (h : s.Roomy breaker t K rest) :
    ∃ s', s.evaluateSessions breaker t revokedAt i rest = (s', .ok ()) ∧
      s.RevokedOnly s' fun k => ∃ c ∈ rest, k = sessionKey t c.1 c.2 ∧ s.Trips breaker t c := by
  induction rest generalizing i s with
  | nil =>
      refine ⟨s, rfl, rfl, rfl, fun k => ?_, fun _ _ => rfl⟩
      simp only [List.not_mem_nil, false_and, exists_false, or_false]
  | cons c rest ih =>
      obtain ⟨reason, trigger, hcons⟩ := MemoryStore.evaluateSessions_cons i h
      rw [hcons]
      split
      · next htrip =>
          have hone : s.RevokedOnly (s.put t c.1 c.2 reason trigger
              (sortedLayers (s.sessionModules breaker t c.1 c.2)) (revokedAt i))
                (· = sessionKey t c.1 c.2) := MemoryStore.put_spec
          generalize s.put t c.1 c.2 reason trigger
            (sortedLayers (s.sessionModules breaker t c.1 c.2)) (revokedAt i) = s₁ at hone ⊢
          obtain ⟨s', heval, hs'⟩ := @ih (i + 1) s₁ (h.revokedOnly htrip.1 hone)
          refine ⟨s', heval, hs'.events.trans hone.events, hs'.modules.trans hone.modules, ?_, ?_⟩
          · intro k
            rw [hs'.revoked, hone.revoked]
            constructor
            · rintro ((hold | rfl) | ⟨c', hc', rfl, htrip'⟩)
              · exact Or.inl hold
              · exact Or.inr ⟨c, List.mem_cons_self, rfl, htrip.1⟩
              · cases hnew : s₁.revoked.has (sessionKey t c'.1 c'.2) with
                | true =>
                    rcases (hone.revoked _).mp hnew with hold | heq
                    · exact Or.inl hold
                    · exact Or.inr ⟨c, List.mem_cons_self, heq, htrip.1⟩
                | false =>
                    exact Or.inr ⟨c', List.mem_cons_of_mem c hc', rfl,
                      (hone.trips_iff hnew).mp htrip'⟩
            · rintro (hold | ⟨c', hc', rfl, htrip'⟩)
              · exact Or.inl (Or.inl hold)
              · rcases List.mem_cons.mp hc' with rfl | hc'
                · exact Or.inl (Or.inr rfl)
                · cases hnew : s₁.revoked.has (sessionKey t c'.1 c'.2) with
                  | true => exact Or.inl ((hone.revoked _).mp hnew)
                  | false => exact Or.inr ⟨c', hc', rfl, (hone.trips_iff hnew).mpr htrip'⟩
          · intro k hk
            have hk₁ : s₁.revoked.has k = false :=
              Bool.eq_false_iff.mpr fun h₁ =>
                Bool.eq_false_iff.mp hk ((hs'.revoked k).mpr (Or.inl h₁))
            rw [hs'.restoredAt k hk, hone.restoredAt k hk₁]
      · next htrip =>
          obtain ⟨s', heval, hs'⟩ := @ih (i + 1) s h.tail
          refine ⟨s', heval, hs'.events, hs'.modules, ?_, hs'.restoredAt⟩
          intro k
          rw [hs'.revoked]
          constructor
          · rintro (hold | ⟨c', hc', hk⟩)
            · exact Or.inl hold
            · exact Or.inr ⟨c', List.mem_cons_of_mem c hc', hk⟩
          · rintro (hold | ⟨c', hc', rfl, htrip'⟩)
            · exact Or.inl hold
            · rcases List.mem_cons.mp hc' with rfl | hc'
              · -- a session that trips and is not revoked again is revoked already
                cases hhas : s.revoked.has (sessionKey t c'.1 c'.2) with
                | true => exact Or.inl rfl
                | false => exact absurd ⟨htrip', hhas⟩ htrip
              · exact Or.inr ⟨c', hc', rfl, htrip'⟩

end

/-! ## The database -/

/-- A session as the columns of the tables hold it. -/
def rowKey (t a se : Identity) : Identity × Identity × Identity :=
  (t.toWellFormed, a.toWellFormed, se.toWellFormed)

/-- The row of the session is an active revocation. -/
def Database.isActive (db : Database) (key : Identity × Identity × Identity) : Bool :=
  match db.revokedSessions.get? key with
  | some row => row.restoredAt = none
  | none => false

/-- Only the rows of revoked sessions changed. -/
structure Database.RevokedOnly (db db' : Database) (hit : Identity × Identity × Identity → Prop) :
    Prop where
  events : db'.events = db.events
  revoked : ∀ k, db'.isActive k ↔ db.isActive k ∨ hit k
  rows : ∀ k, db'.isActive k = false → db'.revokedSessions.get? k = db.revokedSessions.get? k

theorem Database.revoke_spec (db : Database) (t a se : Identity) (reason trigger : JsString)
    (layers : List ModuleName) (now : ℕ) :
    db.RevokedOnly (db.revoke t a se reason trigger layers now) (· = rowKey t a se) := by
  have hrow : ∃ row : RevokedSessionRow, row.restoredAt = none ∧
      db.revoke t a se reason trigger layers now =
        { db with revokedSessions := db.revokedSessions.set (rowKey t a se) row } := by
    unfold Database.revoke rowKey
    dsimp only
    split
    · exact ⟨_, rfl, rfl⟩
    · next existing _ =>
        split
        · next hactive => exact ⟨existing, hactive, rfl⟩
        · exact ⟨_, rfl, rfl⟩
  obtain ⟨row, hnone, hdb⟩ := hrow
  rw [hdb]
  refine ⟨rfl, ?_, ?_⟩
  · intro k
    simp only [Database.isActive, InsertionMap.get?_set]
    split_ifs with h
    · simp [hnone, h]
    · have hne : ¬ k = rowKey t a se := fun heq => h heq.symm
      simp [hne]
  · intro k hk
    simp only [Database.isActive, InsertionMap.get?_set] at hk ⊢
    split_ifs with h
    · rw [if_pos h] at hk
      simp [hnone] at hk
    · rfl

theorem Database.revokeRows_spec {breaker : CircuitBreaker} {t : Identity} {revokedAt : ℕ → ℕ}
    {rows : List ((Identity × Identity) × List ModuleName)}
    (hrows : ∀ row ∈ rows, ∃ modules, row.2 = sortedLayers modules) {i : ℕ} {db : Database} :
    ∃ db', db.revokeRows breaker t revokedAt i rows = (db', .ok ()) ∧
      db.RevokedOnly db' fun k =>
        ∃ row ∈ rows, k = rowKey t row.1.1 row.1.2 ∧ breaker.minLayers ≤ row.2.length := by
  induction rows generalizing i db with
  | nil =>
      refine ⟨db, rfl, rfl, fun k => ?_, fun _ _ => rfl⟩
      simp only [List.not_mem_nil, false_and, exists_false, or_false]
  | cons row rows ih =>
      have hrows' : ∀ row' ∈ rows, ∃ modules, row'.2 = sortedLayers modules :=
        fun row' h => hrows row' (List.mem_cons_of_mem row h)
      simp only [Database.revokeRows]
      split
      · next hlayers =>
          obtain ⟨modules, hmodules⟩ := hrows row List.mem_cons_self
          obtain ⟨⟨reason, trigger⟩, htexts⟩ := revocationTexts_breaker modules
          simp only [hmodules, htexts]
          have hone := Database.revoke_spec db t row.1.1 row.1.2 reason trigger
            (sortedLayers modules) (revokedAt i)
          obtain ⟨db', heval, hdb'⟩ := @ih hrows' (i + 1)
            (db.revoke t row.1.1 row.1.2 reason trigger (sortedLayers modules) (revokedAt i))
          refine ⟨db', heval, hdb'.events.trans hone.events, ?_, ?_⟩
          · intro k
            rw [hdb'.revoked, hone.revoked, or_assoc]
            simp only [List.mem_cons, exists_eq_or_imp, hlayers, and_true]
          · intro k hk
            have hk₁ := Bool.eq_false_iff.mpr fun h₁ =>
              Bool.eq_false_iff.mp hk ((hdb'.revoked k).mpr (Or.inl h₁))
            rw [hdb'.rows k hk, hone.rows k hk₁]
      · next hlayers =>
          obtain ⟨db', heval, hdb'⟩ := @ih hrows' (i + 1) db
          refine ⟨db', heval, hdb'.events, ?_, hdb'.rows⟩
          intro k
          rw [hdb'.revoked]
          simp only [List.mem_cons, exists_eq_or_imp, hlayers, and_false, false_or]

end BlackMonolith.Dashboard
