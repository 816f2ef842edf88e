import BlackMonolith.Baseline.ListingSafety

/-!
# The decisions of operators

While no operator writes back a file that has changed since it was loaded, and no
reload of the proxy keeps what memory alone holds against the file, every
successful approval and revocation stays in the file until the next one of its
name.
-/
namespace BlackMonolith.Baseline
open Json JsonRpc Library

/-! ## Decisions and files -/

/-- The file says what the command decided. -/
def Honours (command : Command) (file : BaselineFile) : Prop :=
  match command with
  | .approve tool => tool ∈ file.tools ∧ tool ∉ file.revoked
  | .revoke tool => tool ∈ file.revoked ∧ tool ∉ file.tools

/-- Whatever the file decides, the memory decides alike. -/
def Agrees (file memory : BaselineFile) : Prop := ∀ command, Honours command file → Honours command memory

section
variable {δ : Type} {fmt : Format δ} {hmac : String → Except String String}
  {store store' : BaselineStore δ} {cfg : Shield} {disk : Option Contents}

theorem Grows.agrees (h : Grows store store') : Agrees store.file store'.file := by
  intro command hhonours
  cases command with
  | approve tool =>
      obtain ⟨hmem, hnot⟩ := hhonours
      obtain ⟨entry, hentry⟩ := Finmap.mem_iff.mp hmem
      refine ⟨Finmap.mem_of_lookup_eq_some (h.tools tool entry hentry), fun hrevoked => ?_⟩
      have hold : tool ∈ store'.revoked := hrevoked
      rw [h.revoked] at hold
      exact hnot hold
  | revoke tool =>
      obtain ⟨hmem, hnot⟩ := hhonours
      have hkept : tool ∈ store'.revoked := by
        rw [h.revoked]
        exact hmem
      refine ⟨hkept, fun htool => ?_⟩
      rcases h.registered tool htool with hold | hfree
      · exact hnot hold
      · exact hfree hmem

/-- What memory alone holds does not contradict the file. -/
structure MergeAgrees (store reloaded : BaselineStore δ) : Prop where
  tools : ∀ name ∈ store.tools, name ∈ reloaded.revoked → name ∈ reloaded.tools
  revoked : ∀ name ∈ store.revoked, name ∈ reloaded.tools → name ∈ reloaded.revoked

theorem merge_agrees {reloaded : BaselineStore δ} (h : MergeAgrees store reloaded) :
    Agrees reloaded.file (store.merge reloaded).file := by
  intro command hhonours
  cases command with
  | approve tool =>
      obtain ⟨hmem, hnot⟩ := hhonours
      refine ⟨Finmap.mem_union.mpr (Or.inl hmem), fun hrevoked => ?_⟩
      rcases Finset.mem_union.mp hrevoked with hdisk | hmemory
      · exact hnot hdisk
      · exact hnot (h.revoked tool hmemory hmem)
  | revoke tool =>
      obtain ⟨hmem, hnot⟩ := hhonours
      refine ⟨Finset.mem_union.mpr (Or.inl hmem), fun htool => ?_⟩
      rcases Finmap.mem_union.mp htool with hdisk | hmemory
      · exact hnot hdisk
      · exact hnot (h.tools tool hmemory hmem)

/-- A command that applies is honoured, and leaves decisions on other names alone. -/
theorem apply_honours {command : Command} (h : (command.apply store).2 = true) :
    Honours command (command.apply store).1.file ∧
      ∀ other : Command, other.tool ≠ command.tool → Honours other store.file →
        Honours other (command.apply store).1.file := by
  cases command with
  | approve tool =>
      simp only [Command.apply, BaselineStore.approve] at h ⊢
      split at h
      · cases h
      · refine ⟨⟨Finmap.mem_insert.mpr (Or.inl rfl), Finset.notMem_erase tool _⟩, ?_⟩
        intro other hne hhonours
        cases other with
        | approve name =>
            have hne' : name ≠ tool := hne
            refine ⟨Finmap.mem_insert.mpr (Or.inr hhonours.1), fun hmem => ?_⟩
            exact hhonours.2 (Finset.mem_of_mem_erase hmem)
        | revoke name =>
            have hne' : name ≠ tool := hne
            refine ⟨Finset.mem_erase.mpr ⟨hne', hhonours.1⟩, fun hmem => ?_⟩
            rcases Finmap.mem_insert.mp hmem with heq | hold
            · exact hne' heq
            · exact hhonours.2 hold
  | revoke tool =>
      simp only [Command.apply, BaselineStore.revoke] at h ⊢
      split at h
      · cases h
      · refine ⟨⟨Finset.mem_insert_self tool _, Finmap.notMem_erase_self⟩, ?_⟩
        intro other hne hhonours
        cases other with
        | approve name =>
            have hne' : name ≠ tool := hne
            refine ⟨Finmap.mem_erase.mpr ⟨hne', hhonours.1⟩, fun hmem => ?_⟩
            rcases Finset.mem_insert.mp hmem with heq | hold
            · exact hne' heq
            · exact hhonours.2 hold
        | revoke name =>
            refine ⟨Finset.mem_insert_of_mem hhonours.1, fun hmem => ?_⟩
            exact hhonours.2 (Finmap.mem_erase.mp hmem).2

/-! ## The guard -/

/-- An operator writes back the file it loaded, and a reload that finds the file
changed reads it and does not contradict it. -/
def decisionGuard (fmt : Format δ) (hmac : String → Except String String) (sys : System δ)
    (action : Action) : Prop :=
  match action with
  | .operatorCommit id _ => ∀ operator, sys.operators id = some operator →
      operator.store.diskDigest = sys.disk.map fmt.digest
  | .reload _ => ∀ store, sys.proxy = some store → ∀ contents, sys.disk = some contents →
      store.diskDigest ≠ some (fmt.digest contents) →
        ∃ reloaded, load fmt hmac sys.disk = .ok reloaded ∧
          (store.dirty → MergeAgrees store reloaded)
  | _ => True

/-! ## Runs -/

/-- Every standing decision is honoured. -/
def HonoursAll (decisions : String → Option Command) (file : BaselineFile) : Prop :=
  ∀ name command, decisions name = some command → Honours command file

/-- The file honours every standing decision; without a file there is none. -/
def Reflected (sys : System δ) : Prop :=
  ∀ name command, sys.decisions name = some command →
    command.tool = name ∧ ∃ file order, sys.disk = some (.json file order) ∧ Honours command file

/-- A copy agrees with the file it was read from or written to. -/
def Faithful (fmt : Format δ) (store : BaselineStore δ) : Prop :=
  ∀ digest, store.diskDigest = some digest →
    ∃ file order, fmt.digest (.json file order) = digest ∧ Agrees file store.file

/-- An operator's copy is the file it was loaded from. -/
def Exact (fmt : Format δ) (store : BaselineStore δ) : Prop :=
  store = {} ∨ ∃ order, store.diskDigest = some (fmt.digest (.json store.file order))

theorem exact_of_load (h : load fmt hmac disk = .ok store) : Exact fmt store := by
  rcases load_ok h with ⟨-, rfl⟩ | ⟨order, -, -, -, hdigest⟩
  · exact Or.inl rfl
  · exact Or.inr ⟨order, hdigest⟩

theorem Exact.faithful (h : Exact fmt store) : Faithful fmt store := by
  intro digest hdigest
  rcases h with rfl | ⟨order, heq⟩
  · cases hdigest
  · rw [heq] at hdigest
    exact ⟨store.file, order, Option.some.inj hdigest, fun _ h => h⟩

/-- The invariant of guarded runs. -/
structure System.Decided (fmt : Format δ) (sys : System δ) : Prop where
  reflected : Reflected sys
  lock : sys.phase ≠ .idle → sys.lock = some .proxy
  faithful : ∀ store, sys.proxy = some store → Faithful fmt store
  holding : sys.phase = .reloaded ∨ sys.phase = .analysed →
    ∀ store, sys.proxy = some store → HonoursAll sys.decisions store.file
  operators : ∀ id operator, sys.operators id = some operator → Exact fmt operator.store

theorem System.init_decided : ({} : System δ).Decided fmt := by
  constructor
  · intro name command h
    cases h
  · exact fun h => absurd rfl h
  · intro store h
    cases h
  · intro h
    rcases h with h | h <;> cases h
  · intro id operator h
    cases h


/-- The file on disk is the one with the digest, if any has it. -/
theorem Reflected.agrees {sys : System δ} (hdigest : Function.Injective fmt.digest)
    (h : Reflected sys) {contents : Contents} (hdisk : sys.disk = some contents)
    {memory : BaselineFile} {file : BaselineFile} {order : ℕ}
    (heq : fmt.digest (.json file order) = fmt.digest contents) (hagrees : Agrees file memory) :
    HonoursAll sys.decisions memory := by
  intro name command hcommand
  obtain ⟨-, file', order', hdisk', hhonours⟩ := h name command hcommand
  rw [hdisk, ← hdigest heq] at hdisk'
  cases hdisk'
  exact hagrees command hhonours

theorem Reflected.written {sys : System δ} (h : HonoursAll sys.decisions store.file)
    (hnames : Reflected sys) {order : ℕ} {disk' : Option Contents}
    (hwritten : disk' = some (.json store.file order)) :
    Reflected { sys with disk := disk' } :=
  fun name command hcommand =>
    ⟨(hnames name command hcommand).1, store.file, order, hwritten, h name command hcommand⟩

/-- A commit of a copy that is still the file. -/
theorem commit_reflected {sys : System δ} (hdigest : Function.Injective fmt.digest)
    (h : Reflected sys) {operator : Operator δ} (hexact : Exact fmt operator.store)
    (hfresh : operator.store.diskDigest = sys.disk.map fmt.digest)
    (happly : (operator.command.apply operator.store).2 = true) (order : ℕ) :
    Reflected
      { sys with
        disk := some (.json (operator.command.apply operator.store).1.file order)
        decisions := Function.update sys.decisions operator.command.tool
          (some operator.command) } := by
  have hold : HonoursAll sys.decisions operator.store.file := by
    rcases hexact with hempty | ⟨order', heq⟩
    · intro name command hcommand
      obtain ⟨-, file, order', hdisk, -⟩ := h name command hcommand
      rw [hempty, hdisk] at hfresh
      cases hfresh
    · cases hdisk : sys.disk with
      | none =>
          rw [heq, hdisk] at hfresh
          cases hfresh
      | some contents =>
          rw [heq, hdisk] at hfresh
          exact h.agrees hdigest hdisk (Option.some.inj hfresh) fun _ h => h
  obtain ⟨hnew, hothers⟩ := apply_honours happly
  intro name command hcommand
  dsimp only at hcommand ⊢
  by_cases hname : name = operator.command.tool
  · subst hname
    rw [Function.update_self] at hcommand
    cases hcommand
    exact ⟨rfl, _, order, rfl, hnew⟩
  · rw [Function.update_of_ne hname] at hcommand
    have htool := (h name command hcommand).1
    refine ⟨htool, _, order, rfl, hothers command ?_ (hold name command hcommand)⟩
    rw [htool]
    exact hname

variable [DecidableEq δ]

/-- A guarded reload leaves a copy that agrees with the file and honours every
standing decision. -/
theorem reload_decided {sys : System δ} (hdigest : Function.Injective fmt.digest)
    (hreflected : Reflected sys) (hfaithful : Faithful fmt store)
    (hg : ∀ contents, sys.disk = some contents → store.diskDigest ≠ some (fmt.digest contents) →
      ∃ reloaded, load fmt hmac sys.disk = .ok reloaded ∧
        (store.dirty → MergeAgrees store reloaded)) :
    Faithful fmt (reload cfg fmt hmac sys.disk store).1 ∧
      HonoursAll sys.decisions (reload cfg fmt hmac sys.disk store).1.file := by
  cases hdisk : sys.disk with
  | none =>
      have hnone : HonoursAll sys.decisions (reload cfg fmt hmac none store).1.file := by
        intro name command hcommand
        obtain ⟨-, file, order, hsome, -⟩ := hreflected name command hcommand
        rw [hdisk] at hsome
        cases hsome
      refine ⟨?_, hnone⟩
      intro digest hsome
      cases @reload_cases _ cfg fmt hmac store none _ with
      | current hcurrent hsame =>
          rw [hsame.diskDigest] at hsome
          rw [hsame.file]
          exact hfaithful digest hsome
      | cleared _ _ hsame =>
          rw [hsame.diskDigest] at hsome
          cases hsome
      | read _ _ hne _ _ => exact absurd rfl hne
  | some contents =>
      by_cases hseen : store.diskDigest = some (fmt.digest contents)
      · have hsame : SameBaseline store (reload cfg fmt hmac (some contents) store).1 :=
          Current.reload (.seen contents rfl hseen)
        obtain ⟨file, order, heq, hagrees⟩ := hfaithful _ hseen
        rw [hsame.file]
        refine ⟨?_, hreflected.agrees hdigest hdisk heq hagrees⟩
        intro digest hsome
        rw [hsame.diskDigest] at hsome
        rw [hsame.file]
        exact hfaithful digest hsome
      · obtain ⟨reloaded, hload, hmerge⟩ := hg contents hdisk hseen
        rw [hdisk] at hload
        have hagrees : Agrees reloaded.file
            (if store.dirty then store.merge reloaded else store.replace reloaded).file := by
          split
          · next hdirty => exact merge_agrees (hmerge hdirty)
          · exact fun _ h => h
        cases @reload_cases _ cfg fmt hmac store (some contents) _ with
        | current hcurrent _ =>
            cases hcurrent with
            | missing hnone _ => cases hnone
            | seen contents' hcontents hdigest' =>
                cases hcontents
                exact absurd hdigest' hseen
            | broken error _ herror =>
                rw [hload] at herror
                cases herror
        | cleared hnone _ _ => cases hnone
        | read reloaded' hload' _ _ hsame =>
            rw [hload] at hload'
            cases hload'
            rcases load_ok hload with ⟨hnone, -⟩ | ⟨order, hcontents, -, -, hread⟩
            · cases hnone
            · rw [hsame.file]
              refine ⟨?_, ?_⟩
              · intro digest hsome
                refine ⟨reloaded.file, order, ?_, ?_⟩
                · rw [hsame.diskDigest] at hsome
                  have hboth : (if store.dirty then store.merge reloaded
                      else store.replace reloaded).diskDigest = reloaded.diskDigest := by
                    split <;> rfl
                  rw [hboth, hread] at hsome
                  exact Option.some.inj hsome
                · rw [hsame.file]
                  exact hagrees
              · rw [Option.some.inj hcontents] at hdisk
                exact hreflected.agrees hdigest hdisk rfl hagrees

/-- What one guarded step preserves. -/
theorem step_decided (hdigest : Function.Injective fmt.digest) (sys : System δ) (action : Action)
    (sys' : System δ) (h : sys.Decided fmt) (hg : decisionGuard fmt hmac sys action)
    (hstep : systemStep fmt hmac sys action = some sys') : sys'.Decided fmt := by
  cases action with
  | start =>
      simp only [systemStep] at hstep
      split at hstep
      · cases hstep
      · next store hload =>
          cases hstep
          refine ⟨h.reflected, fun hphase => absurd rfl hphase, ?_, ?_, h.operators⟩
          · intro store' heq
            cases heq
            exact (exact_of_load hload).faithful
          · intro hphase
            rcases hphase with hphase | hphase <;> cases hphase
  | acquire =>
      simp only [systemStep] at hstep
      split_ifs at hstep
      cases hstep
      refine ⟨h.reflected, fun _ => rfl, h.faithful, ?_, h.operators⟩
      intro hphase
      rcases hphase with hphase | hphase <;> cases hphase
  | reload cfg =>
      simp only [systemStep] at hstep
      split at hstep
      · next store hphase hproxy =>
          cases hstep
          have hlock : sys.lock = some .proxy := h.lock (by rw [hphase]; exact Phase.noConfusion)
          obtain ⟨hfaithful, hholding⟩ := @reload_decided _ fmt hmac store cfg _ sys hdigest
            h.reflected (h.faithful store hproxy) (hg store hproxy)
          refine ⟨h.reflected, fun _ => hlock, ?_, ?_, h.operators⟩
          · intro store' heq
            cases heq
            exact hfaithful
          · intro _ store' heq
            cases heq
            exact hholding
      · cases hstep
  | analyse cfg clock msg =>
      simp only [systemStep] at hstep
      split at hstep
      · next store tools hphase hproxy _ =>
          cases hstep
          have hlock : sys.lock = some .proxy := h.lock (by rw [hphase]; exact Phase.noConfusion)
          have hgrows : Grows store (judgeListing cfg hmac clock msg tools store).store :=
            judgeListing_grows
          refine ⟨h.reflected, fun _ => hlock, ?_, ?_, h.operators⟩
          · intro store' heq
            cases heq
            intro digest hsome
            rw [hgrows.diskDigest] at hsome
            obtain ⟨file, order, hfile, hagrees⟩ := h.faithful store hproxy digest hsome
            exact ⟨file, order, hfile, fun command hc => hgrows.agrees command (hagrees command hc)⟩
          · intro _ store' heq name command hcommand
            cases heq
            exact hgrows.agrees command (h.holding (Or.inl hphase) store hproxy name command hcommand)
      · cases hstep
  | save outcome =>
      simp only [systemStep] at hstep
      split at hstep
      · next store hphase hproxy =>
          cases hstep
          have hlock : sys.lock = some .proxy := h.lock (by rw [hphase]; exact Phase.noConfusion)
          have hhonours := h.holding (Or.inr hphase) store hproxy
          have hnotHolding : ¬(Phase.finished = .reloaded ∨ Phase.finished = .analysed) := by decide
          rcases @persist_cases _ fmt store outcome sys.disk with ⟨hsame, hdisk⟩ | ⟨order, hwritten⟩
          · refine ⟨?_, fun _ => hlock, ?_, fun hphase => absurd hphase hnotHolding, h.operators⟩
            · rw [hdisk]
              exact h.reflected
            · intro store' heq digest hsome
              cases heq
              rw [hsame.diskDigest] at hsome
              rw [hsame.file]
              exact h.faithful store hproxy digest hsome
          · refine ⟨?_, fun _ => hlock, ?_, fun hphase => absurd hphase hnotHolding, h.operators⟩
            · exact h.reflected.written hhonours hwritten.disk
            · intro store' heq digest hsome
              cases heq
              rw [hwritten.diskDigest] at hsome
              rw [hwritten.file]
              exact ⟨store.file, order, Option.some.inj hsome, fun _ h => h⟩
      · cases hstep
  | release =>
      simp only [systemStep] at hstep
      split_ifs at hstep
      cases hstep
      refine ⟨h.reflected, fun hphase => absurd rfl hphase, h.faithful, ?_, h.operators⟩
      intro hphase
      rcases hphase with hphase | hphase <;> cases hphase
  | operatorLoad id command =>
      simp only [systemStep] at hstep
      split at hstep
      · next store _ hload =>
          cases hstep
          refine ⟨h.reflected, h.lock, h.faithful, h.holding, ?_⟩
          intro id' operator heq
          dsimp only at heq
          by_cases hid : id' = id
          · subst hid
            rw [Function.update_self] at heq
            cases heq
            exact exact_of_load hload
          · rw [Function.update_of_ne hid] at heq
            exact h.operators id' operator heq
      · cases hstep
  | operatorLock id =>
      simp only [systemStep] at hstep
      split_ifs at hstep with hfree
      cases hstep
      refine ⟨h.reflected, ?_, h.faithful, h.holding, h.operators⟩
      intro hphase
      have hlock := h.lock hphase
      rw [hfree.2] at hlock
      cases hlock
  | operatorCommit id outcome =>
      simp only [systemStep] at hstep
      split at hstep
      · next operator hoperator =>
          split_ifs at hstep with hheld
          cases hstep
          have hidle : sys.phase = .idle := by
            by_contra hphase
            rw [h.lock hphase] at hheld
            cases hheld
          have hnotHolding : ¬(sys.phase = .reloaded ∨ sys.phase = .analysed) := by
            rw [hidle]
            decide
          have hexit : ∀ id' operator', (sys.exitOperator id).operators id' = some operator' →
              Exact fmt operator'.store := by
            intro id' operator' heq
            dsimp only [System.exitOperator] at heq
            by_cases hid : id' = id
            · subst hid
              rw [Function.update_self] at heq
              cases heq
            · rw [Function.update_of_ne hid] at heq
              exact h.operators id' operator' heq
          rcases @commit_cases _ fmt sys id operator outcome with hcommit | ⟨order, happly, hcommit⟩
          · rw [hcommit]
            exact ⟨h.reflected, fun hphase => absurd hidle hphase, h.faithful,
              fun hphase => absurd hphase hnotHolding, hexit⟩
          · rw [hcommit]
            refine ⟨?_, fun hphase => absurd hidle hphase, h.faithful,
              fun hphase => absurd hphase hnotHolding, hexit⟩
            exact commit_reflected hdigest h.reflected (h.operators id operator hoperator)
              (hg operator hoperator) happly order
      · cases hstep

/-- In every guarded run, the file honours every standing decision. -/
theorem decisions_stand (hdigest : Function.Injective fmt.digest) {sys : System δ}
    {actions : List Action}
    (h : Path (systemStep fmt hmac) (decisionGuard fmt hmac) {} actions sys) :
    ∀ name command, sys.decisions name = some command →
      command.tool = name ∧
        ∃ file order, sys.disk = some (.json file order) ∧ Honours command file :=
  (h.invariant (step_decided hdigest) System.init_decided).reflected

end

/-! ## Two operators -/

/-- A listing of two tools. -/
def twoTools : JsonRpcMessage where
  jsonrpc := some "2.0"
  id := some (number 1)
  result := some (.object [("tools", .array [
    .object [("name", .string "read")], .object [("name", .string "write")]])])

def approvalShield : Shield := { plainShield .monitor with firstContact := .approve }

/-- Both tools are seen for the first time and wait for an approval. -/
def parkTwo : List Action :=
  [.start, .acquire, .reload approvalShield, .analyse approvalShield (fun _ => 0) twoTools,
    .save (.ok 0), .release]

/-- Two operators load the file, and then approve one tool each. -/
def approveBoth : List Action :=
  [.operatorLoad 0 (.approve "read"), .operatorLoad 1 (.approve "write"),
    .operatorLock 0, .operatorCommit 0 (.ok 0), .operatorLock 1, .operatorCommit 1 (.ok 0)]

/-- Two operators approve one tool after the other. -/
def approveInTurn : List Action :=
  [.operatorLoad 0 (.approve "read"), .operatorLock 0, .operatorCommit 0 (.ok 0),
    .operatorLoad 1 (.approve "write"), .operatorLock 1, .operatorCommit 1 (.ok 0)]

/-- The guard of a run in which no reload finds a changed file. -/
def staysCurrent (sys : System Contents) : Action → Bool
  | .operatorCommit id _ =>
      (sys.operators id).all fun operator => decide (operator.store.diskDigest = sys.disk)
  | .reload _ =>
      sys.proxy.all fun store => sys.disk.all fun contents => decide (store.diskDigest = some contents)
  | _ => true

theorem decisionGuard_of_staysCurrent {sys : System Contents} {action : Action}
    (h : staysCurrent sys action = true) : decisionGuard plainFormat plainHmac sys action := by
  cases action with
  | operatorCommit id outcome =>
      intro operator hoperator
      simp only [staysCurrent, hoperator, Option.all_some, decide_eq_true_iff] at h
      rw [h]
      exact Option.map_id_apply.symm
  | reload cfg =>
      intro store hproxy contents hdisk hne
      simp only [staysCurrent, hproxy, hdisk, Option.all_some, decide_eq_true_iff] at h
      exact absurd h hne
  | start => trivial
  | acquire => trivial
  | analyse cfg clock msg => trivial
  | save outcome => trivial
  | release => trivial
  | operatorLoad id command => trivial
  | operatorLock id => trivial

/-- The second operator writes back the file without the approval of the first. -/
theorem stale_operator_overwrites :
    ∃ sys file order, execute (systemStep plainFormat plainHmac) {} (parkTwo ++ approveBoth) =
        some sys ∧
      sys.decisions "read" = some (.approve "read") ∧ sys.disk = some (.json file order) ∧
      ¬Honours (.approve "read") file := by
  refine ⟨_, _, _, rfl, rfl, rfl, ?_⟩
  rintro ⟨htools, -⟩
  exact absurd htools (by decide +kernel)

/-- An operator that loads the file after the other has written keeps both approvals. -/
theorem decisions_stand_in_turn :
    ∃ sys file order, execute (systemStep plainFormat plainHmac) {} (parkTwo ++ approveInTurn) =
        some sys ∧
      sys.disk = some (.json file order) ∧ Honours (.approve "read") file ∧
      Honours (.approve "write") file := by
  have hguarded : executeGuarded (systemStep plainFormat plainHmac) staysCurrent {}
      (parkTwo ++ approveInTurn) = some _ := rfl
  have hpath := (Path.of_executeGuarded hguarded).mono
    (fun sys action h => decisionGuard_of_staysCurrent h)
  have hstand := @decisions_stand _ plainFormat plainHmac _ Function.injective_id _ _ hpath
  obtain ⟨-, file, order, hdisk, hread⟩ := hstand "read" (.approve "read") rfl
  obtain ⟨-, file', order', hdisk', hwrite⟩ := hstand "write" (.approve "write") rfl
  rw [hdisk] at hdisk'
  cases hdisk'
  exact ⟨_, file, order, rfl, hdisk, hread, hwrite⟩

end BlackMonolith.Baseline
