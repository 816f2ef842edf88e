import BlackMonolith.Baseline.Ledger

/-!
# A revoked name

A revocation is written to the file, and from there every copy of the file takes
it. It withholds the tools that are listed under the name as it stands, while two
tools are held to be the same when their trimmed names are: another spelling of
the name is a tool of its own.
-/
namespace BlackMonolith.Baseline
open Json JsonRpc Library Sanitizer

/-! ## One tool -/

section
variable {δ : Type} {cfg : Shield} {hmac : String → Except String String}
  {store : BaselineStore δ} {item : Listed} {hash : String}
  {out : Disposition × List DeferredEvent} {x : Value}

/-- The tool is compared, and neither blocked for its description nor without a
stored schema that replaces it. -/
structure LetThrough (cfg : Shield) (hmac : String → Except String String)
    (store : BaselineStore δ) (item : Listed) (hash : String) : Prop where
  compared : Compared cfg hmac store item hash
  clean : cfg.mode = .enforce → scanDescription cfg.unicode (descriptionOf item.tool) = [] ∨
    ∃ entry, store.tools.lookup item.name = some entry ∧ entry.hash ≠ hash ∧ entry.tool ≠ .null

theorem judge_served {findings : List Finding} {verdict : Verdict} :
    (∃ x, served item.tool (judge cfg item findings hash verdict).1 = some x) ↔
      (cfg.mode = .enforce → findings = [] ∨ (replacement cfg verdict).isSome) := by
  unfold judge
  cases hreplaced : replacement cfg verdict with
  | some tool => simp [served]
  | none =>
      cases findings with
      | nil => simp [served]
      | cons finding rest => by_cases hmode : cfg.mode = .enforce <;> simp [served, hmode]

theorem replacement_compare (hmode : cfg.mode = .enforce) :
    (replacement cfg (store.compare item hash).2).isSome ↔
      ∃ entry, store.tools.lookup item.name = some entry ∧ entry.hash ≠ hash ∧
        entry.tool ≠ .null := by
  cases hlookup : store.tools.lookup item.name with
  | none =>
      rw [compare_none hlookup]
      simp [replacement]
  | some entry =>
      rw [compare_some hlookup]
      by_cases hsame : entry.hash = hash
      · simp [replacement, hsame]
      · by_cases hnull : entry.tool = .null <;> simp [replacement, hsame, hmode, hnull]

/-- A tool is served, as it is or replaced, exactly when it is let through. -/
theorem served_iff_letThrough (hout : (analyzeTool cfg hmac store item).2 = .ok out) :
    (∃ x, served item.tool out.1 = some x) ↔ ∃ hash, LetThrough cfg hmac store item hash := by
  have hserved : ∀ hash, Compared cfg hmac store item hash →
      ((∃ x, served item.tool out.1 = some x) ↔ LetThrough cfg hmac store item hash) := by
    intro hash hcompared
    obtain ⟨events, houtcome⟩ := outcome_of_compared hcompared
    rw [hout] at houtcome
    rw [Except.ok.inj houtcome, judge_served]
    constructor
    · intro hclean
      refine ⟨hcompared, fun hmode => ?_⟩
      rw [← replacement_compare hmode]
      exact hclean hmode
    · intro hthrough hmode
      rw [replacement_compare hmode]
      exact hthrough.clean hmode
  constructor
  · intro hx
    rcases analyzeTool_cases cfg hmac store item with ⟨hash, hcompared⟩ |
      ⟨hash, events, -, hparked⟩ | ⟨-, hblocked⟩
    · exact ⟨hash, (hserved hash hcompared).mp hx⟩
    · rw [hparked] at hout
      cases hout
      obtain ⟨x, hx⟩ := hx
      cases hx
    · rw [hblocked out hout] at hx
      obtain ⟨x, hx⟩ := hx
      cases hx
  · rintro ⟨hash, hthrough⟩
    exact (hserved hash hthrough.compared).mpr hthrough

/-- In a sound store, what is served has the identity of the tool it is served for. -/
theorem identity_of_served (hsound : SoundFile hmac store.file)
    (hreadable : item.isWithheld = false → ∃ identity, Readable item.tool identity)
    (hout : (analyzeTool cfg hmac store item).2 = .ok out) (hx : served item.tool out.1 = some x) :
    toolIdentity x = toolIdentity item.tool := by
  obtain ⟨hash, hthrough⟩ := (served_iff_letThrough hout).mp ⟨x, hx⟩
  obtain ⟨events, houtcome⟩ := outcome_of_compared hthrough.compared
  rw [hout] at houtcome
  rw [Except.ok.inj houtcome] at hx
  dsimp only at hx
  cases hfate : (judge cfg item (scanDescription cfg.unicode (descriptionOf item.tool)) hash
      (store.compare item hash).2).1 with
  | kept =>
      rw [hfate] at hx
      cases hx
      rfl
  | blocked =>
      rw [hfate] at hx
      cases hx
  | restored tool =>
      rw [hfate] at hx
      cases hx
      obtain ⟨baseline, hverdict, rfl⟩ := mismatch_of_restored hfate
      cases hlookup : store.tools.lookup item.name with
      | none =>
          rw [compare_none hlookup] at hverdict
          cases hverdict
      | some entry =>
          rw [compare_some hlookup] at hverdict
          dsimp only at hverdict
          split_ifs at hverdict
          rw [← Verdict.mismatch.inj hverdict]
          obtain ⟨identity, hnamed⟩ := hreadable hthrough.compared.served
          exact toolIdentity_congr ((hsound.tools item.name entry hlookup).named.trans
            hnamed.name.symm)

end

/-! ## One listing -/

/-- The message the agent receives for a judged listing. -/
def Judged.delivered {δ : Type} (judged : Judged δ) (msg : JsonRpcMessage) : JsonRpcMessage :=
  match judged.response with
  | .ok (some line, _) => line
  | _ => msg

section
variable {δ : Type} {cfg : Shield} {fmt : Format δ} {hmac : String → Except String String}
  {store : BaselineStore δ} {disk : Option Contents} {clock : ℕ → ℕ} {tools : List Value}
  {msg : JsonRpcMessage}

theorem analysis_delivered [DecidableEq δ] (env : Surroundings)
    (htools : listedTools msg = some tools) :
    (analyzeToolsListWithBoundary cfg fmt hmac env msg store disk).delivered msg =
      (judgeListing cfg hmac env.clock msg tools (reload cfg fmt hmac disk store).1).delivered
        msg := by
  cases hjudged : (judgeListing cfg hmac env.clock msg tools
      (reload cfg fmt hmac disk store).1).response with
  | error error =>
      rw [analysis_of_error htools hjudged]
      unfold Judged.delivered
      rw [hjudged]
      rfl
  | ok response =>
      rw [analysis_of_response htools hjudged]
      unfold Judged.delivered
      rw [hjudged]
      cases response with
      | mk rewritten enforced =>
          cases rewritten with
          | none => rfl
          | some line => rfl

/-- The agent receives what the tools are served as, and the tools of the boundary. -/
theorem judged_delivered (htotal : ∀ text, ∃ hash, hmac text = .ok hash)
    (htools : listedTools msg = some tools) :
    entriesOf ((judgeListing cfg hmac clock msg tools store).delivered msg) =
      deliveredTools cfg hmac store clock tools ++ cfg.descriptors := by
  obtain ⟨hspec, hnone⟩ := @outcomes_spec _ cfg hmac store clock tools htotal
  have hresponse : (judgeListing cfg hmac clock msg tools store).response =
      if ((outcomes cfg hmac store clock tools).map (·.1)).any (· ≠ .kept) ||
          !cfg.descriptors.isEmpty then
        (rebuildResponse msg (deliveredTools cfg hmac store clock tools ++ cfg.descriptors)).map
          fun line => (some line, ((outcomes cfg hmac store clock tools).map (·.1)).any (· ≠ .kept))
      else .ok (none, ((outcomes cfg hmac store clock tools).map (·.1)).any (· ≠ .kept)) := by
    unfold judgeListing deliveredTools outcomes Shield.descriptors
    simp only [hnone]
    split
    · rfl
    · rfl
  unfold Judged.delivered
  rw [hresponse]
  by_cases hrewrites : (((outcomes cfg hmac store clock tools).map (·.1)).any (· ≠ .kept) ||
      !cfg.descriptors.isEmpty) = true
  · obtain ⟨line, hline⟩ :=
      rebuild_ok htools (deliveredTools cfg hmac store clock tools ++ cfg.descriptors)
    rw [if_pos hrewrites, hline]
    exact entriesOf_of_listed (entriesOf_rebuilt hline)
  · rw [if_neg hrewrites]
    rw [Bool.or_eq_true, not_or, Bool.not_eq_true, Bool.not_eq_true', Bool.not_eq_false,
      List.isEmpty_iff] at hrewrites
    obtain ⟨hkept, hdescriptors⟩ := hrewrites
    rw [hdescriptors, List.append_nil, entriesOf_of_listed htools]
    refine (applyDispositions_kept ?_ ?_).symm
    · rw [List.length_map, ← hspec.length_eq, ← List.length_map Listed.tool, listing_tools]
    · simpa using hkept

/-- A delivered entry has the identity of a tool that is let through, or is the
boundary's. -/
theorem delivered_identity_iff (hsound : SoundFile hmac store.file)
    (htotal : ∀ text, ∃ hash, hmac text = .ok hash) (htools : listedTools msg = some tools)
    (identity : String) :
    (∃ entry ∈ entriesOf ((judgeListing cfg hmac clock msg tools store).delivered msg),
        toolIdentity entry = some identity) ↔
      (∃ item ∈ listing cfg clock tools, toolIdentity item.tool = some identity ∧
        ∃ hash, LetThrough cfg hmac store item hash) ∨
      ∃ descriptor ∈ cfg.descriptors, toolIdentity descriptor = some identity := by
  have hspec := (@outcomes_spec _ cfg hmac store clock tools htotal).1
  have hitems : (∃ entry ∈ deliveredTools cfg hmac store clock tools,
      toolIdentity entry = some identity) ↔
        ∃ item ∈ listing cfg clock tools, toolIdentity item.tool = some identity ∧
          ∃ hash, LetThrough cfg hmac store item hash := by
    constructor
    · rintro ⟨entry, hentry, hidentity⟩
      obtain ⟨p, hp, hserved⟩ := mem_deliveredTools.mp hentry
      have houtcome := (List.forall₂_iff_zip.mp hspec).2 hp
      have hitem := (List.of_mem_zip hp).1
      refine ⟨p.1, hitem, ?_, (served_iff_letThrough houtcome).mp ⟨entry, hserved⟩⟩
      rw [← identity_of_served hsound (served_readable hitem) houtcome hserved]
      exact hidentity
    · rintro ⟨item, hitem, hidentity, hthrough⟩
      obtain ⟨i, hi, hget⟩ := List.getElem_of_mem hitem
      have hlen : i < (outcomes cfg hmac store clock tools).length := hspec.length_eq ▸ hi
      have hp : (item, (outcomes cfg hmac store clock tools)[i]) ∈
          (listing cfg clock tools).zip (outcomes cfg hmac store clock tools) := by
        rw [← hget, ← List.getElem_zip (h := by rw [List.length_zip]; omega)]
        exact List.getElem_mem _
      have houtcome := (List.forall₂_iff_zip.mp hspec).2 hp
      obtain ⟨x, hx⟩ := (served_iff_letThrough houtcome).mpr hthrough
      refine ⟨x, mem_deliveredTools.mpr ⟨_, hp, hx⟩, ?_⟩
      rw [identity_of_served hsound (served_readable hitem) houtcome hx]
      exact hidentity
  rw [judged_delivered htotal htools, ← hitems]
  simp only [List.mem_append, or_and_right, exists_or]

end

/-! ## Runs -/

/-- The file says that the name is revoked. -/
def Revoked (name : String) (disk : Option Contents) : Prop :=
  ∃ file order, disk = some (.json file order) ∧ name ∈ file.revoked

section
variable {δ : Type} {cfg : Shield} {fmt : Format δ} {hmac : String → Except String String}
  {store store' : BaselineStore δ} {disk : Option Contents} {name : String}

/-- The copy holds every revocation of the file it has read or written. -/
def Recalls (fmt : Format δ) (store : BaselineStore δ) : Prop :=
  ∀ file order, store.diskDigest = some (fmt.digest (.json file order)) →
    file.revoked ⊆ store.revoked

theorem SameBaseline.revoked (h : SameBaseline store store') : store'.revoked = store.revoked :=
  congrArg BaselineFile.revoked h.file

theorem SameBaseline.recalls (h : SameBaseline store store') (hrecalls : Recalls fmt store) :
    Recalls fmt store' := by
  intro file order hdigest
  rw [h.revoked]
  exact hrecalls file order (h.diskDigest ▸ hdigest)

/-- A copy whose digest is the one of a record with its revocations. -/
theorem recalls_of_digest (hinjective : Function.Injective fmt.digest) {file : BaselineFile}
    {order : ℕ} (hdigest : store.diskDigest = some (fmt.digest (.json file order)))
    (hrevoked : file.revoked ⊆ store.revoked) : Recalls fmt store := by
  intro file' order' heq
  rw [hdigest] at heq
  cases hinjective (Option.some.inj heq)
  exact hrevoked

theorem recalls_of_load (hinjective : Function.Injective fmt.digest)
    (h : load fmt hmac disk = .ok store) : Recalls fmt store := by
  rcases load_ok h with ⟨-, rfl⟩ | ⟨order, -, -, -, hdigest⟩
  · intro file order heq
    cases heq
  · exact recalls_of_digest hinjective hdigest subset_rfl

theorem Written.recalls (hinjective : Function.Injective fmt.digest) {disk' : Option Contents}
    {order : ℕ} (h : Written fmt store store' disk' order) : Recalls fmt store' :=
  recalls_of_digest hinjective h.diskDigest (congrArg BaselineFile.revoked h.file).superset

variable [DecidableEq δ]

theorem reload_recalls (hinjective : Function.Injective fmt.digest) (h : Recalls fmt store) :
    Recalls fmt (reload cfg fmt hmac disk store).1 := by
  cases @reload_cases _ cfg fmt hmac store disk _ with
  | current _ hsame => exact hsame.recalls h
  | cleared _ _ hsame =>
      refine hsame.recalls ?_
      intro file order heq
      cases heq
  | read reloaded hload hdisk _ hsame =>
      refine hsame.recalls ?_
      rcases load_ok hload with ⟨hnone, -⟩ | ⟨order, -, -, -, hdigest⟩
      · exact absurd hnone hdisk
      · split
        · exact recalls_of_digest hinjective hdigest Finset.subset_union_left
        · exact recalls_of_digest hinjective hdigest subset_rfl

/-- The proxy holds every revocation of the file it has seen. -/
def System.Remembers (fmt : Format δ) (sys : System δ) : Prop :=
  ∀ store, sys.proxy = some store → Recalls fmt store

theorem step_remembers (hinjective : Function.Injective fmt.digest) (sys : System δ)
    (action : Action) (sys' : System δ) (h : sys.Remembers fmt) (_ : unguarded sys action)
    (hstep : systemStep fmt hmac sys action = some sys') : sys'.Remembers fmt := by
  intro store' hproxy'
  cases step_cases hstep with
  | start store lock hload hlock =>
      cases hproxy'
      exact recalls_of_load hinjective hload
  | reload cfg store hphase hproxy =>
      cases hproxy'
      exact reload_recalls hinjective (h store hproxy)
  | analyse cfg clock msg store tools phase hphase hproxy htools hnext =>
      cases hproxy'
      have hgrows : Grows store (judgeListing cfg hmac clock msg tools store).store :=
        judgeListing_grows
      intro file order hdigest
      rw [hgrows.revoked]
      exact h store hproxy file order (hgrows.diskDigest ▸ hdigest)
  | save outcome store hphase hproxy =>
      cases hproxy'
      rcases @persist_cases _ fmt store outcome sys.disk with ⟨hsame, -⟩ | ⟨order, hwritten⟩
      · exact hsame.recalls (h store hproxy)
      · exact hwritten.recalls hinjective
  | operatorCommit id outcome operator hoperator hlock =>
      rcases @commit_cases _ fmt sys id operator outcome with hcommit | ⟨order, -, hcommit⟩
      · rw [hcommit] at hproxy'
        exact h store' hproxy'
      · rw [hcommit] at hproxy'
        exact h store' hproxy'
  | acquire hidle hlock => exact h store' hproxy'
  | release hlock => exact h store' hproxy'
  | operatorLoad id command store hfree hload => exact h store' hproxy'
  | operatorLock id hlock => exact h store' hproxy'

/-- No listing lets another spelling of the name through, the boundary has no tool of
the name, a reload that finds the file changed reads it, and what an operator writes
says that the name is revoked. -/
def revocationGuard (fmt : Format δ) (hmac : String → Except String String) (name : String)
    (sys : System δ) (action : Action) : Prop :=
  match action with
  | .analyse cfg clock msg => ∀ store tools, sys.proxy = some store →
      listedTools msg = some tools →
        (∀ item ∈ listing cfg clock tools, toolIdentity item.tool = some (Text.trim name) →
          ∀ hash, ¬LetThrough cfg hmac store item hash) ∧
        ∀ descriptor ∈ cfg.descriptors, toolIdentity descriptor ≠ some (Text.trim name)
  | .reload _ => ∀ store, sys.proxy = some store → store.diskDigest ≠ sys.disk.map fmt.digest →
      ∃ reloaded, load fmt hmac sys.disk = .ok reloaded
  | .operatorCommit id _ => ∀ operator, sys.operators id = some operator →
      (operator.command.apply operator.store).2 = true →
        name ∈ (operator.command.apply operator.store).1.revoked
  | _ => True

/-- The file says that the name is revoked, and so does the store a listing is
judged with. -/
structure System.Withholds (name : String) (sys : System δ) : Prop where
  disk : Revoked name sys.disk
  holding : sys.phase = .reloaded ∨ sys.phase = .analysed →
    ∀ store, sys.proxy = some store → name ∈ store.revoked

/-- A reload of a file that can be read takes its revocations. -/
theorem reload_revoked (hrecalls : Recalls fmt store) (hrevoked : Revoked name disk)
    (hload : store.diskDigest ≠ disk.map fmt.digest →
      ∃ reloaded, load fmt hmac disk = .ok reloaded) :
    name ∈ (reload cfg fmt hmac disk store).1.revoked := by
  obtain ⟨file, order, rfl, hmem⟩ := hrevoked
  by_cases hseen : store.diskDigest = some (fmt.digest (.json file order))
  · have hsame : SameBaseline store (reload cfg fmt hmac (some (.json file order)) store).1 :=
      Current.reload (.seen _ rfl hseen)
    rw [hsame.revoked]
    exact hrecalls file order hseen hmem
  · obtain ⟨reloaded, hreloaded⟩ := hload hseen
    cases @reload_cases _ cfg fmt hmac store (some (.json file order)) _ with
    | current hcurrent _ =>
        cases hcurrent with
        | missing hnone _ => cases hnone
        | seen contents hcontents hdigest =>
            cases hcontents
            exact absurd hdigest hseen
        | broken error _ herror =>
            rw [hreloaded] at herror
            cases herror
    | cleared hnone _ _ => cases hnone
    | read reloaded' hload' _ _ hsame =>
        rw [hsame.revoked]
        rcases load_ok hload' with ⟨hnone, -⟩ | ⟨order', hcontents, -⟩
        · cases hnone
        · have hmem' : name ∈ reloaded'.revoked := by
            cases hcontents
            exact hmem
          split
          · exact Finset.mem_union.mpr (Or.inl hmem')
          · exact hmem'

theorem step_withholds (sys : System δ) (action : Action) (sys' : System δ)
    (h : sys.Remembers fmt ∧ sys.Withholds name) (hguard : revocationGuard fmt hmac name sys action)
    (hstep : systemStep fmt hmac sys action = some sys') : sys'.Withholds name := by
  obtain ⟨hremembers, h⟩ := h
  cases step_cases hstep with
  | start store lock hload hlock =>
      refine ⟨h.disk, fun hphase => ?_⟩
      rcases hphase with hphase | hphase <;> cases hphase
  | acquire hidle hlock =>
      refine ⟨h.disk, fun hphase => ?_⟩
      rcases hphase with hphase | hphase <;> cases hphase
  | reload cfg store hphase hproxy =>
      refine ⟨h.disk, fun _ store' heq => ?_⟩
      cases heq
      exact reload_revoked (hremembers store hproxy) h.disk (hguard store hproxy)
  | analyse cfg clock msg store tools phase hphase hproxy htools hnext =>
      refine ⟨h.disk, fun _ store' heq => ?_⟩
      cases heq
      have hgrows : Grows store (judgeListing cfg hmac clock msg tools store).store :=
        judgeListing_grows
      rw [hgrows.revoked]
      exact h.holding (Or.inl hphase) store hproxy
  | save outcome store hphase hproxy =>
      have hmem := h.holding (Or.inr hphase) store hproxy
      refine ⟨?_, fun hnext => ?_⟩
      · rcases @persist_cases _ fmt store outcome sys.disk with ⟨-, hdisk⟩ | ⟨order, hwritten⟩
        · rw [hdisk]
          exact h.disk
        · exact ⟨store.file, order, hwritten.disk, hmem⟩
      · rcases hnext with hnext | hnext <;> cases hnext
  | release hlock =>
      refine ⟨h.disk, fun hphase => ?_⟩
      rcases hphase with hphase | hphase <;> cases hphase
  | operatorLoad id command store hfree hload => exact ⟨h.disk, h.holding⟩
  | operatorLock id hlock => exact ⟨h.disk, h.holding⟩
  | operatorCommit id outcome operator hoperator hlock =>
      rcases @commit_cases _ fmt sys id operator outcome with hcommit | ⟨order, happly, hcommit⟩
      · rw [hcommit]
        exact ⟨h.disk, h.holding⟩
      · rw [hcommit]
        exact ⟨⟨_, order, rfl, hguard operator hoperator happly⟩, h.holding⟩

/-- What a listing does to a revoked name. -/
structure StaysRevoked (name : String) (store : BaselineStore δ) (judged : Judged δ)
    (msg : JsonRpcMessage) : Prop where
  revoked : name ∈ judged.store.revoked
  untrusted : name ∈ judged.store.tools → name ∈ store.tools
  withheld : ∀ entry ∈ entriesOf (judged.delivered msg), toolIdentity entry ≠ some (Text.trim name)

/-- In every guarded run after a revocation, the file keeps it, no listing makes the
name trusted, and no delivered list has an entry of the name. -/
theorem revocation_sticky (hinjective : Function.Injective fmt.digest)
    (htotal : ∀ text, ∃ hash, hmac text = .ok hash) {sys₀ sys : System δ}
    {before after : List Action} (hbefore : Path (systemStep fmt hmac) unguarded {} before sys₀)
    (hidle : sys₀.phase = .idle) (hrevoked : Revoked name sys₀.disk)
    (hafter : Path (systemStep fmt hmac) (revocationGuard fmt hmac name) sys₀ after sys) :
    Revoked name sys.disk ∧ ∀ cfg clock msg store tools, sys.phase = .reloaded →
      sys.proxy = some store → listedTools msg = some tools →
        revocationGuard fmt hmac name sys (.analyse cfg clock msg) →
          StaysRevoked name store (judgeListing cfg hmac clock msg tools store) msg := by
  have hremembers₀ : sys₀.Remembers fmt :=
    hbefore.invariant (step_remembers hinjective) fun store heq => nomatch heq
  have hwithholds₀ : sys₀.Withholds name := by
    refine ⟨hrevoked, fun hphase => ?_⟩
    rw [hidle] at hphase
    rcases hphase with hphase | hphase <;> cases hphase
  have hstep : ∀ (s : System δ) (action : Action) (t : System δ),
      s.Remembers fmt ∧ s.Withholds name → revocationGuard fmt hmac name s action →
        systemStep fmt hmac s action = some t → t.Remembers fmt ∧ t.Withholds name :=
    fun s action t hs hguard hst => ⟨step_remembers hinjective s action t hs.1 trivial hst,
      step_withholds s action t hs hguard hst⟩
  obtain ⟨hremembers, hwithholds⟩ := hafter.invariant hstep ⟨hremembers₀, hwithholds₀⟩
  have hsound : sys.Sound hmac :=
    (hbefore.append (hafter.mono fun _ _ _ => trivial)).invariant step_sound System.init_sound
  refine ⟨hwithholds.disk, fun cfg clock msg store tools hphase hproxy htools hguard => ?_⟩
  have hmem : name ∈ store.revoked := hwithholds.holding (Or.inl hphase) store hproxy
  have hgrows : Grows store (judgeListing cfg hmac clock msg tools store).store :=
    judgeListing_grows
  obtain ⟨hitems, hdescriptors⟩ := hguard store tools hproxy htools
  refine ⟨hgrows.revoked ▸ hmem, fun htrusted => ?_, fun entry hentry hidentity => ?_⟩
  · rcases hgrows.registered name htrusted with hold | hfree
    · exact hold
    · exact absurd hmem hfree
  · rcases (delivered_identity_iff (hsound.proxy store hproxy) htotal htools (Text.trim name)).mp
      ⟨entry, hentry, hidentity⟩ with ⟨item, hitem, hsame, hash, hthrough⟩ | ⟨d, hd, hsame⟩
    · exact hitems item hitem hsame hash hthrough
    · exact hdescriptors d hd hsame

end

/-! ## Another spelling of the name -/

/-- An operator revokes a tool. -/
def revokeTool (tool : String) : List Action :=
  [.operatorLoad 0 (.revoke tool), .operatorLock 0, .operatorCommit 0 (.ok 0)]

/-- The proxy is about to judge a listing. -/
def beginAnalysis : List Action := [.acquire, .reload (plainShield .enforce)]

/-- A listing of one tool. -/
def oneTool (name : String) : JsonRpcMessage where
  jsonrpc := some "2.0"
  id := some (number 1)
  result := some (.object [("tools", .array [.object
    [("description", .string "Reads a file."), ("inputSchema", .object []),
      ("name", .string name)]])])

theorem not_staysRevoked {δ : Type} {name : String} {store : BaselineStore δ} {judged : Judged δ}
    {msg : JsonRpcMessage} (h : (entriesOf (judged.delivered msg)).any
      (fun entry => toolIdentity entry = some (Text.trim name)) = true) :
    ¬StaysRevoked name store judged msg := by
  intro hstays
  obtain ⟨entry, hentry, hidentity⟩ := List.any_eq_true.mp h
  exact hstays.withheld entry hentry (of_decide_eq_true hidentity)

/-- The tool is listed with a space before its name, and delivered. -/
theorem padded_name_delivered :
    ∃ sys₀ sys store tools, execute (systemStep plainFormat plainHmac) {}
        (register benign ++ revokeTool "read_file") = some sys₀ ∧
      sys₀.phase = .idle ∧ Revoked "read_file" sys₀.disk ∧
      execute (systemStep plainFormat plainHmac) sys₀ beginAnalysis = some sys ∧
      sys.phase = .reloaded ∧ sys.proxy = some store ∧
      listedTools (oneTool " read_file") = some tools ∧
      ¬StaysRevoked "read_file" store (judgeListing (plainShield .enforce) plainHmac (fun _ => 0)
        (oneTool " read_file") tools store) (oneTool " read_file") := by
  refine ⟨_, _, _, _, rfl, rfl, ⟨_, _, rfl, ?_⟩, rfl, rfl, rfl, rfl, ?_⟩
  · decide
  · exact not_staysRevoked (by decide)

/-- The guard of a run that judges no listing, up to its analysis. -/
def readsFile (sys : System Contents) : Action → Bool
  | .analyse _ _ _ => false
  | .operatorCommit _ _ => false
  | .reload _ => (load plainFormat plainHmac sys.disk).isOk
  | _ => true

theorem revocationGuard_of_readsFile {name : String} {sys : System Contents} {action : Action}
    (h : readsFile sys action = true) : revocationGuard plainFormat plainHmac name sys action := by
  cases action with
  | reload cfg =>
      intro store hproxy hchanged
      cases hload : load plainFormat plainHmac sys.disk with
      | ok reloaded => exact ⟨reloaded, rfl⟩
      | error error =>
          simp only [readsFile, hload] at h
          cases h
  | analyse cfg clock msg => cases h
  | operatorCommit id outcome => cases h
  | start => trivial
  | acquire => trivial
  | save outcome => trivial
  | release => trivial
  | operatorLoad id command => trivial
  | operatorLock id => trivial

/-- The system after a registration and its revocation. -/
def revokedSystem : System Contents :=
  (execute (systemStep plainFormat plainHmac) {}
    (register benign ++ revokeTool "read_file")).getD {}

/-- Listed under its name, the revoked tool is withheld. -/
theorem revocation_sticky_benign :
    ∃ sys store tools,
      execute (systemStep plainFormat plainHmac) revokedSystem beginAnalysis = some sys ∧
      sys.proxy = some store ∧ listedTools benign = some tools ∧
      StaysRevoked "read_file" store (judgeListing (plainShield .enforce) plainHmac (fun _ => 0)
        benign tools store) benign := by
  have hbefore : execute (systemStep plainFormat plainHmac) {}
      (register benign ++ revokeTool "read_file") = some revokedSystem := rfl
  have hguarded : executeGuarded (systemStep plainFormat plainHmac) readsFile revokedSystem
      beginAnalysis = some _ := rfl
  have hafter := (Path.of_executeGuarded hguarded).mono
    (fun sys action h => @revocationGuard_of_readsFile "read_file" sys action h)
  refine ⟨_, _, _, rfl, rfl, rfl, ?_⟩
  refine (@revocation_sticky _ plainFormat plainHmac "read_file" _ Function.injective_id
    (fun text => ⟨text, rfl⟩) _ _ _ _ (Path.of_execute hbefore) rfl
      ⟨_, _, rfl, by decide⟩ hafter).2 (plainShield .enforce) (fun _ => 0) benign _ _ rfl rfl
        rfl ?_
  intro store tools hproxy htools
  cases hproxy
  cases htools
  refine ⟨fun item hitem _ hash hthrough => ?_, fun d hd => absurd hd List.not_mem_nil⟩
  obtain rfl := List.mem_singleton.mp hitem
  exact hthrough.compared.unrevoked (by decide)

end BlackMonolith.Baseline
