import BlackMonolith.Baseline.Decisions
import BlackMonolith.Baseline.Persistence

/-!
# Approving what was revoked

A revocation parks the trusted schema for the approval that may follow, unless a
schema is parked under the name already. Then it is that one which the approval
trusts, so a revocation is undone exactly where the two are the same. They
differ once a listing registers another schema than the parked one, under the
other policy, or a reload joins the two from the memory and the file.
-/
namespace BlackMonolith.Baseline
open Json JsonRpc Library

section
variable {δ : Type} {cfg : Shield} {fmt : Format δ} {hmac : String → Except String String}
  {store : BaselineStore δ} {item : Listed} {name hash : String} {entry : BaselineEntry}

/-! ## Revoking and approving -/

/-- A revocation and an approval of the name leave what was trusted. -/
structure Restores (store : BaselineStore δ) (name : String) (entry : BaselineEntry) : Prop where
  revokes : (store.revoke name).2 = true
  approves : ((store.revoke name).1.approve name).2 = true
  trusted : ∃ restored,
    ((store.revoke name).1.approve name).1.tools.lookup name = some restored ∧
      restored.hash = entry.hash ∧ restored.tool = entry.tool
  unrevoked : name ∉ ((store.revoke name).1.approve name).1.revoked
  settled : name ∉ ((store.revoke name).1.approve name).1.pending

/-- What the approval of a revoked name trusts. -/
def BaselineStore.candidate (store : BaselineStore δ) (name : String) (entry : BaselineEntry) :
    BaselineEntry :=
  (store.pending.lookup name).getD entry

theorem revoke_pending (hentry : store.tools.lookup name = some entry) :
    (store.revoke name).2 = true ∧
      (store.revoke name).1.pending.lookup name = some (store.candidate name entry) := by
  unfold BaselineStore.revoke BaselineStore.candidate
  rw [hentry]
  refine ⟨rfl, ?_⟩
  by_cases hmem : name ∈ store.pending
  · obtain ⟨parked, hparked⟩ := Finmap.mem_iff.mp hmem
    rw [hparked, Option.getD_some]
    exact (congrArg (Finmap.lookup name) (if_pos hmem)).trans hparked
  · rw [Finmap.lookup_eq_none.mpr hmem, Option.getD_none]
    exact (congrArg (Finmap.lookup name) (if_neg hmem)).trans (Finmap.lookup_insert _)

/-- An approval trusts what is parked. -/
theorem approve_of_pending (h : store.pending.lookup name = some entry) :
    (store.approve name).2 = true ∧ (store.approve name).1.tools.lookup name = some entry ∧
      name ∉ (store.approve name).1.revoked ∧ name ∉ (store.approve name).1.pending := by
  unfold BaselineStore.approve
  rw [h]
  exact ⟨rfl, Finmap.lookup_insert _, Finset.notMem_erase name _, Finmap.notMem_erase_self⟩

/-- What was trusted is restored if nothing else is parked under the name. -/
theorem restores_iff (hentry : store.tools.lookup name = some entry) :
    Restores store name entry ↔
      ∀ parked, store.pending.lookup name = some parked →
        parked.hash = entry.hash ∧ parked.tool = entry.tool := by
  obtain ⟨hrevokes, hcandidate⟩ := revoke_pending hentry
  obtain ⟨happroves, htrusted, hunrevoked, hsettled⟩ := approve_of_pending hcandidate
  constructor
  · intro h parked hparked
    obtain ⟨restored, hrestored, hsame⟩ := h.trusted
    rw [htrusted, BaselineStore.candidate, hparked, Option.getD_some] at hrestored
    rw [Option.some.inj hrestored]
    exact hsame
  · intro h
    refine ⟨hrevokes, happroves, ⟨_, htrusted, ?_⟩, hunrevoked, hsettled⟩
    unfold BaselineStore.candidate
    cases hparked : store.pending.lookup name with
    | none => exact ⟨rfl, rfl⟩
    | some parked => exact h parked hparked

/-! ## Files that agree with themselves -/

/-- The trusted and the pending schema of a name are the same. -/
def AgreesAt (file : BaselineFile) (name : String) : Prop :=
  ∀ entry parked, file.tools.lookup name = some entry → file.pending.lookup name = some parked →
    parked.tool = entry.tool

def Agreeing (file : BaselineFile) : Prop := ∀ name, AgreesAt file name

theorem SameAt.agreesAt {store' : BaselineStore δ} (h : SameAt name store store')
    (hagrees : AgreesAt store.file name) : AgreesAt store'.file name :=
  fun entry parked hentry hparked =>
    hagrees entry parked (h.tools.symm.trans hentry) (h.pending.symm.trans hparked)

theorem Compared.of_sameAt {store' : BaselineStore δ} (h : SameAt item.name store store')
    (hcompared : Compared cfg hmac store' item hash) : Compared cfg hmac store item hash where
  served := hcompared.served
  unshadowed := hcompared.unshadowed
  unrevoked := h.revoked ▸ hcompared.unrevoked
  hashed := hcompared.hashed
  scanned := h.contains ▸ hcompared.scanned
  approved := h.contains ▸ hcompared.approved

theorem Parked.of_sameAt {store' : BaselineStore δ} (h : SameAt item.name store store')
    (hparked : Parked cfg hmac store' item hash) : Parked cfg hmac store item hash where
  served := hparked.served
  unrevoked := h.revoked ▸ hparked.unrevoked
  hashed := hparked.hashed
  approving := hparked.approving
  unknown := h.contains ▸ hparked.unknown

/-- A tool that is registered while its name is parked is the parked one, and one
that is parked while its name is registered the registered one. -/
structure AddsAlike (cfg : Shield) (hmac : String → Except String String)
    (store : BaselineStore δ) (item : Listed) : Prop where
  registers : ∀ hash, Compared cfg hmac store item hash → item.name ∉ store.tools →
    ∀ parked, store.pending.lookup item.name = some parked → parked.tool = item.tool
  parks : ∀ hash, Parked cfg hmac store item hash → item.name ∉ store.pending →
    ∀ entry, store.tools.lookup item.name = some entry → item.tool = entry.tool

theorem AddsAlike.of_sameAt {store' : BaselineStore δ} (h : SameAt item.name store store')
    (hadds : AddsAlike cfg hmac store item) : AddsAlike cfg hmac store' item := by
  have htools : item.name ∈ store'.tools ↔ item.name ∈ store.tools := by
    rw [← Finmap.lookup_isSome, ← Finmap.lookup_isSome, h.tools]
  have hpending : item.name ∈ store'.pending ↔ item.name ∈ store.pending := by
    rw [← Finmap.lookup_isSome, ← Finmap.lookup_isSome, h.pending]
  constructor
  · intro hash hcompared hnot parked hparked
    exact hadds.registers hash (hcompared.of_sameAt h) (fun hmem => hnot (htools.mpr hmem)) parked
      (h.pending.symm.trans hparked)
  · intro hash hpark hnot entry hentry
    exact hadds.parks hash (hpark.of_sameAt h) (fun hmem => hnot (hpending.mpr hmem)) entry
      (h.tools.symm.trans hentry)

/-- What one tool of a listing preserves. -/
theorem AddsAlike.agreesAt (h : AddsAlike cfg hmac store item)
    (hagrees : AgreesAt store.file item.name) :
    AgreesAt (analyzeTool cfg hmac store item).1.file item.name := by
  rcases analyzeTool_cases cfg hmac store item with ⟨hash, hcompared⟩ |
    ⟨hash, events, hpark, hparked⟩ | ⟨hsame, -⟩
  · rw [analyzeTool_of_compared hcompared]
    intro entry parked hentry hparked
    unfold BaselineStore.compare BaselineStore.check at hentry hparked
    cases hlookup : store.tools.lookup item.name with
    | none =>
        rw [hlookup] at hentry hparked
        have hnew : (store.tools.insert item.name
            ⟨hash, descriptionOf item.tool, item.now, item.tool⟩).lookup item.name = some entry :=
          hentry
        rw [Finmap.lookup_insert] at hnew
        cases hnew
        exact h.registers hash hcompared (Finmap.lookup_eq_none.mp hlookup) parked hparked
    | some known =>
        rw [hlookup] at hentry hparked
        exact hagrees entry parked hentry hparked
  · rw [hparked]
    intro entry parked hentry hparked'
    unfold BaselineStore.registerPending at hentry hparked'
    by_cases hmem : item.name ∈ store.pending
    · rw [if_pos hmem] at hentry hparked'
      exact hagrees entry parked hentry hparked'
    · rw [if_neg hmem] at hentry hparked'
      have hnew : (store.pending.insert item.name
          ⟨hash, descriptionOf item.tool, item.now, item.tool⟩).lookup item.name = some parked :=
        hparked'
      rw [Finmap.lookup_insert] at hnew
      cases hnew
      exact h.parks hash hpark hmem entry hentry
  · rw [hsame]
    exact hagrees

theorem judgeListing_agreeing {clock : ℕ → ℕ} {msg : JsonRpcMessage} {tools : List Value}
    (hadds : ∀ item ∈ listing cfg clock tools, AddsAlike cfg hmac store item)
    (h : Agreeing store.file) :
    Agreeing (judgeListing cfg hmac clock msg tools store).store.file := by
  intro name
  rcases @judgeListing_at _ cfg hmac store clock msg tools name with hsame |
    ⟨item, hitem, -, heq, before, hbefore, hafter⟩
  · exact hsame.agreesAt (h name)
  · subst heq
    exact hafter.agreesAt
      (((hadds item hitem).of_sameAt hbefore).agreesAt (hbefore.agreesAt (h item.name)))

/-- What the memory alone trusts is what the file has parked under the name. -/
def MergesAlike (store reloaded : BaselineStore δ) : Prop :=
  ∀ name, name ∉ reloaded.tools → ∀ entry parked, store.tools.lookup name = some entry →
    reloaded.pending.lookup name = some parked → parked.tool = entry.tool

theorem MergesAlike.agreeing {reloaded : BaselineStore δ} (h : MergesAlike store reloaded)
    (hreloaded : Agreeing reloaded.file) : Agreeing (store.merge reloaded).file := by
  intro name entry parked hentry hparked
  have htools : (reloaded.tools ∪ store.tools).lookup name = some entry := hentry
  have hpending : (reloaded.pending ∪
      (store.pending \ (reloaded.tools ∪ store.tools))).lookup name = some parked := hparked
  -- what the memory has parked is dropped, as the name is trusted
  have hdropped : name ∉ store.pending \ (reloaded.tools ∪ store.tools) := fun hmem =>
    notMem_of_mem_sdiff hmem (Finmap.mem_of_lookup_eq_some htools)
  rw [lookup_union, Finmap.lookup_eq_none.mpr hdropped, Option.or_none] at hpending
  by_cases hmem : name ∈ reloaded.tools
  · rw [Finmap.lookup_union_left hmem] at htools
    exact hreloaded name entry parked htools hpending
  · rw [Finmap.lookup_union_right hmem] at htools
    exact h name hmem entry parked htools hpending

theorem apply_agreeing (command : Command) (h : Agreeing store.file) :
    Agreeing (command.apply store).1.file := by
  intro name entry parked hentry hparked
  cases command with
  | approve tool =>
      simp only [Command.apply, BaselineStore.approve] at hentry hparked
      split at hentry
      · next hnone =>
          rw [hnone] at hparked
          exact h name entry parked hentry hparked
      · next found hfound =>
          rw [hfound] at hparked
          by_cases heq : name = tool
          · subst heq
            exact absurd (Finmap.mem_of_lookup_eq_some hparked) Finmap.notMem_erase_self
          · exact h name entry parked ((Finmap.lookup_insert_of_ne _ heq).symm.trans hentry)
              ((Finmap.lookup_erase_ne heq).symm.trans hparked)
  | revoke tool =>
      simp only [Command.apply, BaselineStore.revoke] at hentry hparked
      split at hentry
      · next hnone =>
          rw [hnone] at hparked
          exact h name entry parked hentry hparked
      · next found hfound =>
          rw [hfound] at hparked
          by_cases heq : name = tool
          · subst heq
            exact absurd (Finmap.mem_of_lookup_eq_some hentry) Finmap.notMem_erase_self
          · have hold : store.tools.lookup name = some entry :=
              (Finmap.lookup_erase_ne heq).symm.trans hentry
            have hnew : (if tool ∈ store.pending then store.pending
                else store.pending.insert tool found).lookup name = some parked := hparked
            split_ifs at hnew
            · exact h name entry parked hold hnew
            · exact h name entry parked hold ((Finmap.lookup_insert_of_ne _ heq).symm.trans hnew)

end

/-! ## Runs -/

section
variable {δ : Type} [DecidableEq δ] {fmt : Format δ} {hmac : String → Except String String}

/-- No listing and no reload makes a schema trusted while another one is parked. -/
def restoreGuard (fmt : Format δ) (hmac : String → Except String String) (sys : System δ)
    (action : Action) : Prop :=
  match action with
  | .analyse cfg clock msg => ∀ store tools, sys.proxy = some store →
      listedTools msg = some tools → ∀ item ∈ listing cfg clock tools, AddsAlike cfg hmac store item
  | .reload _ => ∀ store reloaded, sys.proxy = some store → load fmt hmac sys.disk = .ok reloaded →
      store.diskDigest ≠ sys.disk.map fmt.digest → store.dirty → MergesAlike store reloaded
  | _ => True

omit [DecidableEq δ] in
theorem restoreGuard.keeps {sys : System δ} {action : Action}
    (h : restoreGuard fmt hmac sys action) : KeepsFile fmt hmac Agreeing sys action where
  empty := by
    intro name entry parked hentry
    cases hentry
  merge := by
    rintro cfg store reloaded rfl hproxy hload hchanged hdirty - hreloaded
    exact (h store reloaded hproxy hload hchanged hdirty).agreeing hreloaded
  analyse := by
    rintro cfg clock msg tools store rfl hproxy htools hstore
    exact judgeListing_agreeing (h store tools hproxy htools) hstore
  apply := fun _ _ operator _ _ hoperator => apply_agreeing operator.command hoperator

theorem step_agreeing (sys : System δ) (action : Action) (sys' : System δ)
    (h : sys.Everywhere Agreeing) (hguard : restoreGuard fmt hmac sys action)
    (hstep : systemStep fmt hmac sys action = some sys') : sys'.Everywhere Agreeing :=
  step_everywhere h hguard.keeps hstep

omit [DecidableEq δ] in
theorem System.Everywhere.holds {I : BaselineFile → Prop} {sys : System δ}
    (h : sys.Everywhere I) (happly : ∀ (command : Command) (store : BaselineStore δ),
      I store.file → I (command.apply store).1.file)
    {store : BaselineStore δ} (hstore : sys.Holds store) : I store.file := by
  rcases hstore with hproxy | ⟨id, operator, hoperator, hloaded | happlied⟩
  · exact h.proxy store hproxy
  · rw [hloaded]
    exact h.operators id operator hoperator
  · rw [happlied]
    exact happly operator.command operator.store (h.operators id operator hoperator)

/-- In every guarded run, whatever a store trusts is restored by an approval of
what was revoked. -/
theorem revoke_approve_restores {sys : System δ} {actions : List Action}
    (h : Path (systemStep fmt hmac) (restoreGuard fmt hmac) {} actions sys)
    {store : BaselineStore δ} (hstore : sys.Holds store) {name : String} {entry : BaselineEntry}
    (hentry : store.tools.lookup name = some entry) : Restores store name entry := by
  have hsound : sys.Sound hmac :=
    (h.mono fun _ _ _ => trivial).invariant step_sound System.init_sound
  have hagreeing : sys.Everywhere Agreeing := h.invariant step_agreeing System.init_everywhere
  have hfile : SoundFile hmac store.file := hsound.holds hstore
  refine (restores_iff hentry).mpr fun parked hparked => ?_
  have htool : parked.tool = entry.tool :=
    hagreeing.holds (fun command _ => apply_agreeing command) hstore name entry parked hentry
      hparked
  have hhash := (hfile.pending name parked hparked).hash
  rw [htool, (hfile.tools name entry hentry).hash] at hhash
  exact ⟨(Except.ok.inj hhash).symm, htool⟩

end

/-! ## A change of policy -/

/-- A tool is seen under the approval policy. -/
def park (msg : JsonRpcMessage) : List Action :=
  [.start, .acquire, .reload approvalShield, .analyse approvalShield (fun _ => 0) msg,
    .save (.ok 0), .release]

/-- A schema is parked, another one is registered after a restart under the trust
policy, and the approval of the revoked name trusts the first. -/
theorem approval_trusts_parked :
    ∃ sys store entry, execute (systemStep plainFormat plainHmac) {}
        (park poisoned ++ register benign) = some sys ∧
      sys.proxy = some store ∧ store.tools.lookup "read_file" = some entry ∧
      ¬Restores store "read_file" entry := by
  refine ⟨_, _, _, rfl, rfl, rfl, ?_⟩
  intro h
  obtain ⟨-, htool⟩ := (restores_iff rfl).mp h _ rfl
  exact absurd htool (by decide)

/-- The guard of a run in which no reload finds a changed file, and listings hold
the known schemas of their names. -/
def staysAlike (sys : System Contents) : Action → Bool
  | .analyse cfg clock msg =>
      sys.proxy.all fun store => (((listedTools msg).map (listing cfg clock)).getD []).all fun item =>
        (store.pending.lookup item.name).all (·.tool = item.tool) &&
          (store.tools.lookup item.name).all (item.tool = ·.tool)
  | .reload _ =>
      sys.proxy.all fun store => decide (store.diskDigest = sys.disk)
  | _ => true

theorem restoreGuard_of_staysAlike {sys : System Contents} {action : Action}
    (h : staysAlike sys action = true) : restoreGuard plainFormat plainHmac sys action := by
  cases action with
  | analyse cfg clock msg =>
      intro store tools hproxy htools item hitem
      simp only [staysAlike, hproxy, htools, Option.all_some, Option.map_some, Option.getD_some,
        List.all_eq_true, Bool.and_eq_true] at h
      obtain ⟨hpending, hknown⟩ := h item hitem
      constructor
      · intro _ _ _ parked hparked
        rw [hparked, Option.all_some] at hpending
        exact of_decide_eq_true hpending
      · intro _ _ _ entry hentry
        rw [hentry, Option.all_some] at hknown
        exact of_decide_eq_true hknown
  | reload cfg =>
      intro store reloaded hproxy _ hchanged
      simp only [staysAlike, hproxy, Option.all_some, decide_eq_true_iff] at h
      rw [h] at hchanged
      exact absurd Option.map_id_apply.symm hchanged
  | start => trivial
  | acquire => trivial
  | save outcome => trivial
  | release => trivial
  | operatorLoad id command => trivial
  | operatorLock id => trivial
  | operatorCommit id outcome => trivial

/-- A schema that is parked and then registered is restored. -/
theorem revoke_approve_restores_benign :
    ∃ sys store entry, execute (systemStep plainFormat plainHmac) {}
        (park benign ++ register benign) = some sys ∧
      sys.proxy = some store ∧ store.tools.lookup "read_file" = some entry ∧
      "read_file" ∈ store.pending ∧ Restores store "read_file" entry := by
  have hguarded : executeGuarded (systemStep plainFormat plainHmac) staysAlike {}
      (park benign ++ register benign) = some _ := rfl
  have hpath := (Path.of_executeGuarded hguarded).mono
    (fun sys action h => restoreGuard_of_staysAlike h)
  refine ⟨_, _, _, rfl, rfl, rfl, ?_, ?_⟩
  · exact Finmap.mem_of_lookup_eq_some rfl
  · exact @revoke_approve_restores _ _ plainFormat plainHmac _ _ hpath _ (Or.inl rfl) _ _ rfl

end BlackMonolith.Baseline
