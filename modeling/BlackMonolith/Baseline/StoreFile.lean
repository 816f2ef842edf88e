import BlackMonolith.Baseline.Runs

/-!
# Reading and writing the baseline file

What a load, a reload, a save and a commit can do, said once.
-/
namespace BlackMonolith.Baseline
open Json JsonRpc Library Sanitizer

section
variable {δ : Type} {cfg : Shield} {fmt : Format δ} {hmac : String → Except String String}
  {store store' : BaselineStore δ} {disk : Option Contents}

/-- The stores differ in what they have reported only. -/
structure SameBaseline (store store' : BaselineStore δ) : Prop where
  file : store'.file = store.file
  unpersisted : store'.unpersisted = store.unpersisted
  dirty : store'.dirty = store.dirty
  diskDigest : store'.diskDigest = store.diskDigest

theorem SameBaseline.trans {store'' : BaselineStore δ} (h : SameBaseline store store')
    (h' : SameBaseline store' store'') : SameBaseline store store'' :=
  ⟨h'.file.trans h.file, h'.unpersisted.trans h.unpersisted, h'.dirty.trans h.dirty,
    h'.diskDigest.trans h.diskDigest⟩

theorem takeReloadFailure_same (store : BaselineStore δ) :
    SameBaseline store store.takeReloadFailure.1 := by
  unfold BaselineStore.takeReloadFailure
  split
  · exact ⟨rfl, rfl, rfl, rfl⟩
  · split
    · exact ⟨rfl, rfl, rfl, rfl⟩
    · exact ⟨rfl, rfl, rfl, rfl⟩

theorem takePersistFailure_same (store : BaselineStore δ) :
    SameBaseline store store.takePersistFailure.1 := by
  unfold BaselineStore.takePersistFailure
  split
  · exact ⟨rfl, rfl, rfl, rfl⟩
  · split
    · exact ⟨rfl, rfl, rfl, rfl⟩
    · exact ⟨rfl, rfl, rfl, rfl⟩

/-- A write that succeeds: the file is the record of the store, and the store knows it. -/
structure Written (fmt : Format δ) (store store' : BaselineStore δ) (disk' : Option Contents)
    (order : ℕ) : Prop where
  file : store'.file = store.file
  unpersisted : store'.unpersisted = ∅
  diskDigest : store'.diskDigest = some (fmt.digest (.json store.file order))
  disk : disk' = some (.json store.file order)

/-- A write that fails changes nothing. -/
theorem save_failed (store : BaselineStore δ) (error : String) (disk : Option Contents) :
    SameBaseline store (store.save fmt (.error error) disk).1 ∧
      (store.save fmt (.error error) disk).2 = (disk, .error error) := by
  unfold BaselineStore.save BaselineStore.writeStore
  dsimp only
  split_ifs
  · exact ⟨⟨rfl, rfl, rfl, rfl⟩, rfl⟩
  · exact ⟨⟨rfl, rfl, rfl, rfl⟩, rfl⟩

/-- A write fails and changes nothing, or succeeds. -/
theorem save_cases (store : BaselineStore δ) (outcome : Except String ℕ)
    (disk : Option Contents) :
    (∃ error, SameBaseline store (store.save fmt outcome disk).1 ∧
      (store.save fmt outcome disk).2 = (disk, .error error)) ∨
    ∃ order, Written fmt store (store.save fmt outcome disk).1 (store.save fmt outcome disk).2.1
        order ∧ (store.save fmt outcome disk).2.2 = .ok () := by
  cases outcome with
  | error error => exact Or.inl ⟨error, save_failed store error disk⟩
  | ok order => exact Or.inr ⟨order, ⟨rfl, rfl, rfl, rfl⟩, rfl⟩

/-- The save that ends an analysis leaves the file alone or writes the store to it. -/
theorem persist_cases (store : BaselineStore δ) (outcome : Except String ℕ)
    (disk : Option Contents) :
    (SameBaseline store (persist fmt outcome disk store).1 ∧
      (persist fmt outcome disk store).2.1 = disk) ∨
    ∃ order, Written fmt store (persist fmt outcome disk store).1
      (persist fmt outcome disk store).2.1 order := by
  unfold persist BaselineStore.saveIfDirty
  cases hdirty : store.dirty with
  | true =>
      rw [if_pos rfl]
      rcases @save_cases _ fmt store outcome disk with ⟨error, hsame, hwritten⟩ |
        ⟨order, hwritten, hok⟩
      · simp only [hwritten]
        exact Or.inl ⟨hsame.trans (takePersistFailure_same _), rfl⟩
      · simp only [hok]
        exact Or.inr ⟨order, hwritten⟩
  | false =>
      rw [if_neg Bool.false_ne_true]
      exact Or.inl ⟨⟨rfl, rfl, rfl, rfl⟩, rfl⟩

theorem persist_failed (store : BaselineStore δ) (error : String) (disk : Option Contents) :
    SameBaseline store (persist fmt (.error error) disk store).1 := by
  unfold persist BaselineStore.saveIfDirty
  cases hdirty : store.dirty with
  | true =>
      obtain ⟨hsame, hwritten⟩ := @save_failed _ fmt store error disk
      rw [if_pos rfl]
      simp only [hwritten]
      exact hsame.trans (takePersistFailure_same _)
  | false =>
      rw [if_neg Bool.false_ne_true]
      exact ⟨rfl, rfl, rfl, rfl⟩

/-- A command that applies leaves something to write. -/
theorem apply_dirty {command : Command} (h : (command.apply store).2 = true) :
    (command.apply store).1.dirty = true := by
  cases command with
  | approve tool =>
      simp only [Command.apply, BaselineStore.approve] at h ⊢
      split at h
      · cases h
      · rfl
  | revoke tool =>
      simp only [Command.apply, BaselineStore.revoke] at h ⊢
      split at h
      · cases h
      · rfl

/-- What `load` accepts is the record in the file. -/
theorem load_ok (h : load fmt hmac disk = .ok store) :
    (disk = none ∧ store = {}) ∨ ∃ order, disk = some (.json store.file order) ∧
      store.dirty = false ∧ store.unpersisted = ∅ ∧
        store.diskDigest = some (fmt.digest (.json store.file order)) := by
  cases disk with
  | none =>
      cases h
      exact Or.inl ⟨rfl, rfl⟩
  | some contents =>
      unfold load at h
      dsimp only at h
      split at h
      · cases h
      · split at h
        · cases h
        · next file order _ =>
            split_ifs at h
            cases h
            exact Or.inr ⟨order, rfl, rfl, rfl, rfl⟩

/-- A commit exits with the file as it was, or writes the changed store. -/
theorem commit_cases (sys : System δ) (id : ℕ) (operator : Operator δ)
    (outcome : Except String ℕ) :
    sys.commit fmt id operator outcome = sys.exitOperator id ∨
      ∃ order, (operator.command.apply operator.store).2 = true ∧
        sys.commit fmt id operator outcome =
          { sys.exitOperator id with
            disk := some (.json (operator.command.apply operator.store).1.file order)
            decisions := Function.update sys.decisions operator.command.tool
              (some operator.command) } := by
  unfold System.commit BaselineStore.saveIfDirty
  dsimp only
  split
  · next happly =>
      rw [if_pos (apply_dirty happly)]
      rcases @save_cases _ fmt (operator.command.apply operator.store).1 outcome sys.disk with
        ⟨error, -, hwritten⟩ | ⟨order, hwritten, hok⟩
      · simp only [hwritten]
        exact Or.inl rfl
      · simp only [hok]
        refine Or.inr ⟨order, happly, ?_⟩
        rw [hwritten.disk]
        rfl
  · exact Or.inl rfl

variable [DecidableEq δ]

/-- The store has nothing to learn from the file: it has read or written it, or
there is none, or it cannot be loaded. -/
inductive Current (fmt : Format δ) (hmac : String → Except String String)
    (disk : Option Contents) (diskDigest : Option δ) : Prop
  | missing : disk = none → diskDigest = none → Current fmt hmac disk diskDigest
  | seen (contents : Contents) :
      disk = some contents → diskDigest = some (fmt.digest contents) →
        Current fmt hmac disk diskDigest
  | broken (error : LoadError) :
      disk ≠ none → load fmt hmac disk = .error error → Current fmt hmac disk diskDigest

/-- What a reload does. -/
inductive Reloaded (fmt : Format δ) (hmac : String → Except String String)
    (disk : Option Contents) (store store' : BaselineStore δ) : Prop
  | current : Current fmt hmac disk store.diskDigest → SameBaseline store store' →
      Reloaded fmt hmac disk store store'
  | cleared : disk = none → store.diskDigest ≠ none → SameBaseline {} store' →
      Reloaded fmt hmac disk store store'
  | read (reloaded : BaselineStore δ) :
      load fmt hmac disk = .ok reloaded → disk ≠ none →
        store.diskDigest ≠ disk.map fmt.digest →
          SameBaseline (if store.dirty then store.merge reloaded else store.replace reloaded) store' →
            Reloaded fmt hmac disk store store'

theorem reload_cases : Reloaded fmt hmac disk store (reload cfg fmt hmac disk store).1 := by
  unfold reload BaselineStore.reloadIfChanged
  cases disk with
  | none =>
      dsimp only
      split
      · next heq =>
          split at heq
          · next hsome =>
              cases heq
              exact .cleared rfl (Option.isSome_iff_ne_none.mp hsome) ⟨rfl, rfl, rfl, rfl⟩
          · next hnone =>
              cases heq
              exact .current (.missing rfl (Option.not_isSome_iff_eq_none.mp hnone))
                ⟨rfl, rfl, rfl, rfl⟩
      · next heq =>
          split at heq
          · cases heq
          · cases heq
  | some contents =>
      dsimp only
      by_cases hseen : store.diskDigest = some (fmt.digest contents)
      · rw [if_pos hseen]
        exact .current (.seen contents rfl hseen) ⟨rfl, rfl, rfl, rfl⟩
      · rw [if_neg hseen]
        cases hload : load fmt hmac (some contents) with
        | error error =>
            refine .current (.broken error (Option.some_ne_none contents) hload) ?_
            dsimp only
            split_ifs
            · exact takeReloadFailure_same store
            · have hfailed : SameBaseline store
                  { store with reloadFailure := some error, reloadFailureReported := false } :=
                ⟨rfl, rfl, rfl, rfl⟩
              exact hfailed.trans (takeReloadFailure_same _)
        | ok reloaded =>
            refine .read reloaded hload (Option.some_ne_none contents) hseen ?_
            exact ⟨rfl, rfl, rfl, rfl⟩

theorem Current.reload (h : Current fmt hmac disk store.diskDigest) :
    SameBaseline store (reload cfg fmt hmac disk store).1 := by
  cases @reload_cases _ cfg fmt hmac store disk _ with
  | current _ hsame => exact hsame
  | cleared hnone hdigest _ =>
      cases h with
      | missing _ hmissing => exact absurd hmissing hdigest
      | seen contents hdisk _ =>
          rw [hnone] at hdisk
          cases hdisk
      | broken error hdisk _ => exact absurd hnone hdisk
  | read reloaded hload hdisk hdigest _ =>
      cases h with
      | missing hnone _ => exact absurd hnone hdisk
      | seen contents hcontents hseen =>
          rw [hcontents] at hdigest
          exact absurd hseen hdigest
      | broken error _ herror =>
          rw [herror] at hload
          cases hload

/-- A reload leaves nothing to learn. -/
theorem current_of_reload :
    Current fmt hmac disk (reload cfg fmt hmac disk store).1.diskDigest := by
  cases @reload_cases _ cfg fmt hmac store disk _ with
  | current hcurrent hsame =>
      rw [hsame.diskDigest]
      exact hcurrent
  | cleared hnone _ hsame =>
      rw [hsame.diskDigest]
      exact .missing hnone rfl
  | read reloaded hload hdisk _ hsame =>
      rcases load_ok hload with ⟨hnone, -⟩ | ⟨order, hcontents, -, -, hdigest⟩
      · exact absurd hnone hdisk
      · refine .seen _ hcontents ?_
        rw [hsame.diskDigest, ← hdigest]
        split
        · rfl
        · rfl

end

/-! ## Steps of a system -/

section
variable {δ : Type} [DecidableEq δ] {fmt : Format δ} {hmac : String → Except String String}

/-- What each action asks of the state, and leaves. -/
inductive Stepped (fmt : Format δ) (hmac : String → Except String String) (sys : System δ) :
    Action → System δ → Prop
  | start (store : BaselineStore δ) (lock : Option Holder) :
      load fmt hmac sys.disk = .ok store → (lock = none ∨ lock = sys.lock) →
        Stepped fmt hmac sys .start { sys with proxy := some store, phase := .idle, lock }
  | acquire : sys.phase = .idle → sys.lock = none →
      Stepped fmt hmac sys .acquire { sys with lock := some .proxy, phase := .locked }
  | reload (cfg : Shield) (store : BaselineStore δ) :
      sys.phase = .locked → sys.proxy = some store →
        Stepped fmt hmac sys (.reload cfg)
          { sys with proxy := some (reload cfg fmt hmac sys.disk store).1, phase := .reloaded }
  | analyse (cfg : Shield) (clock : ℕ → ℕ) (msg : JsonRpcMessage) (store : BaselineStore δ)
      (tools : List Value) (phase : Phase) :
      sys.phase = .reloaded → sys.proxy = some store → listedTools msg = some tools →
        (phase = .analysed ∨ phase = .finished) →
          Stepped fmt hmac sys (.analyse cfg clock msg)
            { sys with proxy := some (judgeListing cfg hmac clock msg tools store).store, phase }
  | save (outcome : Except String ℕ) (store : BaselineStore δ) :
      sys.phase = .analysed → sys.proxy = some store →
        Stepped fmt hmac sys (.save outcome)
          { sys with
            proxy := some (persist fmt outcome sys.disk store).1
            disk := (persist fmt outcome sys.disk store).2.1
            phase := .finished }
  | release : sys.lock = some .proxy →
      Stepped fmt hmac sys .release { sys with lock := none, phase := .idle }
  | operatorLoad (id : ℕ) (command : Command) (store : BaselineStore δ) :
      sys.operators id = none → load fmt hmac sys.disk = .ok store →
        Stepped fmt hmac sys (.operatorLoad id command)
          { sys with operators := Function.update sys.operators id (some ⟨command, store⟩) }
  | operatorLock (id : ℕ) : sys.lock = none →
      Stepped fmt hmac sys (.operatorLock id) { sys with lock := some (.operator id) }
  | operatorCommit (id : ℕ) (outcome : Except String ℕ) (operator : Operator δ) :
      sys.operators id = some operator → sys.lock = some (.operator id) →
        Stepped fmt hmac sys (.operatorCommit id outcome) (sys.commit fmt id operator outcome)

theorem step_cases {sys sys' : System δ} {action : Action}
    (hstep : systemStep fmt hmac sys action = some sys') : Stepped fmt hmac sys action sys' := by
  cases action with
  | start =>
      simp only [systemStep] at hstep
      split at hstep
      · cases hstep
      · next store hload =>
          cases hstep
          refine .start store _ hload ?_
          split
          · exact Or.inl rfl
          · exact Or.inr rfl
  | acquire =>
      simp only [systemStep] at hstep
      split_ifs at hstep with hidle
      cases hstep
      exact .acquire hidle.1 hidle.2.2
  | reload cfg =>
      simp only [systemStep] at hstep
      split at hstep
      · next store hphase hproxy =>
          cases hstep
          exact .reload cfg store hphase hproxy
      · cases hstep
  | analyse cfg clock msg =>
      simp only [systemStep] at hstep
      split at hstep
      · next store tools hphase hproxy htools =>
          cases hstep
          refine .analyse cfg clock msg store tools _ hphase hproxy htools ?_
          split
          · exact Or.inl rfl
          · exact Or.inr rfl
      · cases hstep
  | save outcome =>
      simp only [systemStep] at hstep
      split at hstep
      · next store hphase hproxy =>
          cases hstep
          exact .save outcome store hphase hproxy
      · cases hstep
  | release =>
      simp only [systemStep] at hstep
      split_ifs at hstep with hlock
      cases hstep
      exact .release hlock
  | operatorLoad id command =>
      simp only [systemStep] at hstep
      split at hstep
      · next store hfree hload =>
          cases hstep
          exact .operatorLoad id command store hfree hload
      · cases hstep
  | operatorLock id =>
      simp only [systemStep] at hstep
      split_ifs at hstep with hlock
      cases hstep
      exact .operatorLock id hlock.2
  | operatorCommit id outcome =>
      simp only [systemStep] at hstep
      split at hstep
      · next operator hoperator =>
          split_ifs at hstep with hlock
          cases hstep
          exact .operatorCommit id outcome operator hoperator hlock
      · cases hstep

omit [DecidableEq δ] in
/-- The operators that are left when one exits. -/
theorem exitOperator_some {sys : System δ} {id id' : ℕ} {operator : Operator δ}
    (h : (sys.exitOperator id).operators id' = some operator) :
    sys.operators id' = some operator := by
  dsimp only [System.exitOperator] at h
  by_cases hid : id' = id
  · subst hid
    rw [Function.update_self] at h
    cases h
  · rwa [Function.update_of_ne hid] at h

end

/-! ## Invariants of the file -/

section
variable {δ : Type} [DecidableEq δ] {fmt : Format δ} {hmac : String → Except String String}
  {I : BaselineFile → Prop}

/-- The file and every copy of it satisfy the predicate. -/
structure System.Everywhere (I : BaselineFile → Prop) (sys : System δ) : Prop where
  disk : ∀ file order, sys.disk = some (.json file order) → I file
  proxy : ∀ store, sys.proxy = some store → I store.file
  operators : ∀ id operator, sys.operators id = some operator → I operator.store.file

omit [DecidableEq δ] in
theorem System.init_everywhere : ({} : System δ).Everywhere I := by
  constructor
  · intro file order h
    cases h
  · intro store h
    cases h
  · intro id operator h
    cases h

/-- The steps that make a file of their own: a merge, an analysis and a command. -/
structure KeepsFile (fmt : Format δ) (hmac : String → Except String String)
    (I : BaselineFile → Prop) (sys : System δ) (action : Action) : Prop where
  empty : I ({} : BaselineStore δ).file
  merge : ∀ cfg store reloaded, action = .reload cfg → sys.proxy = some store →
    load fmt hmac sys.disk = .ok reloaded → store.diskDigest ≠ sys.disk.map fmt.digest →
      store.dirty → I store.file → I reloaded.file → I (store.merge reloaded).file
  analyse : ∀ cfg clock msg tools store, action = .analyse cfg clock msg →
    sys.proxy = some store → listedTools msg = some tools → I store.file →
      I (judgeListing cfg hmac clock msg tools store).store.file
  apply : ∀ id outcome operator, action = .operatorCommit id outcome →
    sys.operators id = some operator → I operator.store.file →
      I (operator.command.apply operator.store).1.file

omit [DecidableEq δ] in
theorem System.Everywhere.load {sys : System δ} (h : sys.Everywhere I)
    (hempty : I ({} : BaselineStore δ).file) {store : BaselineStore δ}
    (hload : load fmt hmac sys.disk = .ok store) : I store.file := by
  rcases load_ok hload with ⟨-, rfl⟩ | ⟨order, hdisk, -⟩
  · exact hempty
  · exact h.disk store.file order hdisk

/-- A predicate that these keep is kept by every step. -/
theorem step_everywhere {sys sys' : System δ} {action : Action} (h : sys.Everywhere I)
    (hkeeps : KeepsFile fmt hmac I sys action)
    (hstep : systemStep fmt hmac sys action = some sys') : sys'.Everywhere I := by
  cases step_cases hstep with
  | start store lock hload hlock =>
      refine ⟨h.disk, ?_, h.operators⟩
      intro store' heq
      cases heq
      exact h.load hkeeps.empty hload
  | acquire hidle hlock => exact ⟨h.disk, h.proxy, h.operators⟩
  | reload cfg store hphase hproxy =>
      refine ⟨h.disk, ?_, h.operators⟩
      intro store' heq
      cases heq
      cases @reload_cases _ cfg fmt hmac store sys.disk _ with
      | current _ hsame =>
          rw [hsame.file]
          exact h.proxy store hproxy
      | cleared _ _ hsame =>
          rw [hsame.file]
          exact hkeeps.empty
      | read reloaded hload _ hchanged hsame =>
          rw [hsame.file]
          have hreloaded := h.load hkeeps.empty hload
          split
          · next hdirty =>
              exact hkeeps.merge cfg store reloaded rfl hproxy hload hchanged hdirty
                (h.proxy store hproxy) hreloaded
          · exact hreloaded
  | analyse cfg clock msg store tools phase hphase hproxy htools hnext =>
      refine ⟨h.disk, ?_, h.operators⟩
      intro store' heq
      cases heq
      exact hkeeps.analyse cfg clock msg tools store rfl hproxy htools (h.proxy store hproxy)
  | save outcome store hphase hproxy =>
      have hstore := h.proxy store hproxy
      rcases @persist_cases _ fmt store outcome sys.disk with ⟨hsame, hdisk⟩ | ⟨order, hwritten⟩
      · refine ⟨?_, ?_, h.operators⟩
        · rw [hdisk]
          exact h.disk
        · intro store' heq
          cases heq
          rw [hsame.file]
          exact hstore
      · refine ⟨?_, ?_, h.operators⟩
        · rw [hwritten.disk]
          intro file order' heq
          cases heq
          exact hstore
        · intro store' heq
          cases heq
          rw [hwritten.file]
          exact hstore
  | release hlock => exact ⟨h.disk, h.proxy, h.operators⟩
  | operatorLoad id command store hfree hload =>
      refine ⟨h.disk, h.proxy, ?_⟩
      intro id' operator heq
      dsimp only at heq
      by_cases hid : id' = id
      · subst hid
        rw [Function.update_self] at heq
        cases heq
        exact h.load hkeeps.empty hload
      · rw [Function.update_of_ne hid] at heq
        exact h.operators id' operator heq
  | operatorLock id hlock => exact ⟨h.disk, h.proxy, h.operators⟩
  | operatorCommit id outcome operator hoperator hlock =>
      have hexit : ∀ id' operator', (sys.exitOperator id).operators id' = some operator' →
          I operator'.store.file :=
        fun id' operator' heq => h.operators id' operator' (exitOperator_some heq)
      rcases @commit_cases _ fmt sys id operator outcome with hcommit | ⟨order, -, hcommit⟩
      · rw [hcommit]
        exact ⟨h.disk, h.proxy, hexit⟩
      · rw [hcommit]
        refine ⟨?_, h.proxy, hexit⟩
        intro file order' heq
        cases heq
        exact hkeeps.apply id outcome operator rfl hoperator (h.operators id operator hoperator)

end

end BlackMonolith.Baseline
