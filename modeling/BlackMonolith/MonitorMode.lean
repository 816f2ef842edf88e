import BlackMonolith.ResponseSafety

/-!
# Monitor mode

Without a secret boundary, what the server sends in monitor mode is rewritten
just when a tool of a listing is withheld, revoked or waits for its approval, or
when a catalogue has an entry that is not an object. Findings and mismatched
schemas leave it as it is.
-/
namespace BlackMonolith.MonitorMode
open Json JsonRpc Library Sanitizer AgentToServer Baseline ServerToAgent

/-- The configuration in monitor mode, without a boundary. -/
def monitoring (cfg : Shield) : Shield := { cfg with mode := .monitor, boundary := none }

/-! ## One tool -/

/-- The tool is sent on in every mode, if nothing is found in it. -/
structure Admitted {δ : Type} (cfg : Shield) (store : BaselineStore δ) (item : Listed) : Prop where
  readable : item.isWithheld = false
  unrevoked : item.name ∉ store.revoked
  approved : cfg.firstContact = .approve → store.contains item.name

/-- The tool gets to its fingerprint, and there is none. -/
structure Unfingerprintable {δ : Type} (hmac : String → Except String String)
    (store : BaselineStore δ) (item : Listed) : Prop where
  readable : item.isWithheld = false
  unrevoked : item.name ∉ store.revoked
  failed : ∃ error, fingerprintTool hmac item.tool = .error error

section
variable {δ : Type} {cfg : Shield} {hmac : String → Except String String}
  {store : BaselineStore δ} {item : Listed}

theorem judge_monitor {findings : List Finding} {hash : String} {verdict : Verdict} :
    (judge (monitoring cfg) item findings hash verdict).1 = .kept := by
  have hnone : replacement (monitoring cfg) verdict = none := by
    cases verdict with
    | registered => rfl
    | matching => rfl
    | mismatch baseline => rfl
  unfold judge
  simp only [hnone]
  simp [monitoring]

/-- What one tool comes to in monitor mode. -/
theorem analyzeTool_monitor :
    ((∃ error, (analyzeTool (monitoring cfg) hmac store item).2 = .error error) ↔
      Unfingerprintable hmac store item) ∧
    ∀ out, (analyzeTool (monitoring cfg) hmac store item).2 = .ok out →
      (out.1 = .kept ↔ Admitted cfg store item) := by
  cases hwithheld : item.isWithheld with
  | true =>
      have hval : (analyzeTool (monitoring cfg) hmac store item).2 =
          .ok (.blocked, defectEvents item) := by
        unfold analyzeTool
        simp only [hwithheld, if_true]
      rw [hval]
      constructor
      · simp only [reduceCtorEq, exists_false, false_iff]
        intro h
        have hreadable := h.readable
        rw [hwithheld] at hreadable
        cases hreadable
      · intro out hout
        cases hout
        simp only [reduceCtorEq, false_iff]
        intro h
        have hreadable := h.readable
        rw [hwithheld] at hreadable
        cases hreadable
  | false =>
      by_cases hrevoked : item.name ∈ store.revoked
      · have hblocked : ∃ events, (analyzeTool (monitoring cfg) hmac store item).2 =
            .ok (.blocked, events) := by
          have hrevoked' : store.isRevoked item.name = true := decide_eq_true hrevoked
          unfold analyzeTool
          simp only [hwithheld, hrevoked', monitoring, Option.any_none, Bool.false_eq_true, if_false,
            if_true]
          exact ⟨_, rfl⟩
        obtain ⟨events, hval⟩ := hblocked
        rw [hval]
        constructor
        · simp only [reduceCtorEq, exists_false, false_iff]
          exact fun h => h.unrevoked hrevoked
        · intro out hout
          cases hout
          simp only [reduceCtorEq, false_iff]
          exact fun h => h.unrevoked hrevoked
      · have hrevoked' : store.isRevoked item.name = false := decide_eq_false hrevoked
        cases hhash : fingerprintTool hmac item.tool with
        | error error =>
            have hval : (analyzeTool (monitoring cfg) hmac store item).2 =
                .error (error, defectEvents item) := by
              unfold analyzeTool
              simp [hwithheld, hrevoked', monitoring, hhash]
            rw [hval]
            constructor
            · simp only [Except.error.injEq, exists_eq', true_iff]
              exact ⟨hwithheld, hrevoked, error, hhash⟩
            · intro out hout
              cases hout
        | ok hash =>
            have hfingerprinted : ¬Unfingerprintable hmac store item := by
              intro h
              obtain ⟨error, herror⟩ := h.failed
              rw [hhash] at herror
              cases herror
            by_cases happroved : cfg.firstContact = .approve → store.contains item.name
            · have hkept : ∃ events, (analyzeTool (monitoring cfg) hmac store item).2 =
                  .ok (.kept, events) := by
                have hcompared : Compared (monitoring cfg) hmac store item hash := by
                  constructor
                  · exact hwithheld
                  · rfl
                  · exact hrevoked
                  · exact hhash
                  · intro hmode
                    cases hmode
                  · exact happroved
                rw [analyzeTool_of_compared hcompared]
                simp only [judge_monitor]
                exact ⟨_, rfl⟩
              obtain ⟨events, hval⟩ := hkept
              rw [hval]
              constructor
              · simp only [reduceCtorEq, exists_false, false_iff]
                exact hfingerprinted
              · intro out hout
                cases hout
                simp only [true_iff]
                exact ⟨hwithheld, hrevoked, happroved⟩
            · have hblocked : ∃ events, (analyzeTool (monitoring cfg) hmac store item).2 =
                  .ok (.blocked, events) := by
                rw [Classical.not_imp] at happroved
                unfold analyzeTool
                simp only [hwithheld, hrevoked', monitoring, hhash, happroved.1, happroved.2]
                exact ⟨_, rfl⟩
              obtain ⟨events, hval⟩ := hblocked
              rw [hval]
              constructor
              · simp only [reduceCtorEq, exists_false, false_iff]
                exact hfingerprinted
              · intro out hout
                cases hout
                simp only [reduceCtorEq, false_iff]
                exact fun h => happroved h.approved

end

/-! ## A listing -/

/-- The listing ends without an answer, or every tool in it is sent on. -/
def TransparentListing {δ : Type} (cfg : Shield) (hmac : String → Except String String)
    (store : BaselineStore δ) (items : List Listed) : Prop :=
  (∃ item ∈ items, Unfingerprintable hmac store item) ∨ ∀ item ∈ items, Admitted cfg store item

section
variable {δ : Type} {cfg : Shield} {hmac : String → Except String String}
  {store : BaselineStore δ} {clock : ℕ → ℕ} {tools : List Value} {msg : JsonRpcMessage}

/-- The listing as it is looked at does not depend on the mode. -/
theorem listing_monitoring : listing (monitoring cfg) clock tools = listing cfg clock tools := rfl

theorem completes_monitor :
    (sweep (analyzeTool (monitoring cfg) hmac) store (listing cfg clock tools)).2.2 = none ↔
      ¬∃ item ∈ listing cfg clock tools, Unfingerprintable hmac store item := by
  rw [← listing_monitoring, Sweep.completes_iff listing_independent, not_exists]
  refine forall_congr' fun item => ?_
  rw [not_and]
  refine imp_congr_right fun _ => ?_
  rw [← (@analyzeTool_monitor _ cfg hmac store item).1, not_exists]
  cases (analyzeTool (monitoring cfg) hmac store item).2 with
  | error error => simp
  | ok out => simp

/-- When no tool ends it, every tool of a listing is kept just when each is admitted. -/
theorem kept_monitor
    (hall : ¬∃ item ∈ listing cfg clock tools, Unfingerprintable hmac store item) :
    (∀ out ∈ (sweep (analyzeTool (monitoring cfg) hmac) store (listing cfg clock tools)).2.1,
        out.1 = .kept) ↔
      ∀ item ∈ listing cfg clock tools, Admitted cfg store item := by
  have htotal := (Sweep.completes_iff listing_independent).mp (completes_monitor.mpr hall)
  have hspec := (Sweep.outputs htotal
    (@listing_independent _ (monitoring cfg) hmac clock tools) fun _ _ => rfl).1
  have hagree : List.Forall₂ (fun item out => out.1 = .kept ↔ Admitted cfg store item)
      (listing cfg clock tools)
      (sweep (analyzeTool (monitoring cfg) hmac) store (listing cfg clock tools)).2.1 :=
    hspec.imp fun {item out} hout => analyzeTool_monitor.2 out hout
  generalize (sweep (analyzeTool (monitoring cfg) hmac) store (listing cfg clock tools)).2.1 = outs
    at hagree ⊢
  generalize listing cfg clock tools = items at hagree ⊢
  induction hagree with
  | nil => simp
  | cons hhead _ ih =>
      rw [List.forall_mem_cons, List.forall_mem_cons]
      exact and_congr hhead ih

theorem judgeListing_monitor (htools : listedTools msg = some tools) :
    (∀ line enforced, (judgeListing (monitoring cfg) hmac clock msg tools store).response ≠
        .ok (some line, enforced)) ↔
      TransparentListing cfg hmac store (listing cfg clock tools) := by
  unfold TransparentListing
  by_cases hall : ∃ item ∈ listing cfg clock tools, Unfingerprintable hmac store item
  · have hends := mt completes_monitor.mp (not_not.mpr hall)
    obtain ⟨failure, hfailure⟩ := Option.ne_none_iff_exists'.mp hends
    unfold judgeListing
    simp only [listing_monitoring, hfailure, ne_eq, reduceCtorEq, not_false_eq_true, implies_true,
      hall, true_or]
  · have hnone := completes_monitor.mpr hall
    simp only [hall, false_or, ← kept_monitor hall]
    cases hblocked : ((sweep (analyzeTool (monitoring cfg) hmac) store
        (listing cfg clock tools)).2.1.map (·.1)).any (· ≠ .kept) with
    | false =>
        have hresponse : (judgeListing (monitoring cfg) hmac clock msg tools store).response =
            .ok (none, false) := by
          unfold judgeListing
          simp only [listing_monitoring, hnone, hblocked]
          rfl
        rw [hresponse]
        simpa using hblocked
    | true =>
        obtain ⟨line, hline⟩ := rebuild_ok htools (applyDispositions tools ((sweep
          (analyzeTool (monitoring cfg) hmac) store (listing cfg clock tools)).2.1.map (·.1)) ++ [])
        have hresponse : (judgeListing (monitoring cfg) hmac clock msg tools store).response =
            .ok (some line, true) := by
          unfold judgeListing
          simp only [listing_monitoring, hnone, hblocked, Bool.true_or, if_true]
          exact congrArg (Except.map fun line => (some line, true)) hline
        rw [hresponse]
        simpa using hblocked

/-- An analysis in monitor mode rewrites just the listings that are not transparent. -/
theorem analyzeToolsList_monitor [DecidableEq δ] (fmt : Format δ) (env : Surroundings)
    (disk : Option Contents) :
    (∀ line, (analyzeToolsListWithBoundary (monitoring cfg) fmt hmac env msg store disk).outcome ≠
        .ok (.analyzed (some line))) ↔
      ∀ tools, listedTools msg = some tools →
        TransparentListing cfg hmac (reload cfg fmt hmac disk store).1
          (listing cfg env.clock tools) := by
  cases htools : listedTools msg with
  | none =>
      unfold analyzeToolsListWithBoundary
      simp [htools]
  | some tools =>
      simp only [Option.some.injEq, forall_eq']
      rw [← judgeListing_monitor htools]
      have hreload : reload (monitoring cfg) fmt hmac disk store = reload cfg fmt hmac disk store :=
        rfl
      unfold analyzeToolsListWithBoundary
      simp only [htools, hreload]
      cases (judgeListing (monitoring cfg) hmac env.clock msg tools
        (reload cfg fmt hmac disk store).1).response with
      | error error => simp
      | ok response =>
          cases response with
          | mk rewritten enforced => simp

end

/-! ## Errors, results and catalogues -/

section
variable {unicode : Text.Unicode} {msg : JsonRpcMessage}

/-- The entries of a catalogue, in a response without an error, are objects. -/
def TransparentResponse (msg : JsonRpcMessage) (kind : InspectionKind) : Prop :=
  msg.error = none → ∀ listKey fields, catalogShape kind = some (listKey, fields) →
    ∀ entries, resultArray msg listKey = some entries → ∀ entry ∈ entries, entry.asObject.isSome

theorem analyzeCatalog_monitor {listKey : String} {fields : List String} :
    (∀ line, (analyzeCatalog unicode .monitor msg listKey fields).1 ≠ .ok (some line)) ↔
      ∀ entries, resultArray msg listKey = some entries →
        ∀ entry ∈ entries, entry.asObject.isSome := by
  cases hentries : resultArray msg listKey with
  | none =>
      unfold analyzeCatalog
      simp [hentries]
  | some entries =>
      have hany : entries.any (entryBlocked unicode .monitor fields) = false ↔
          ∀ entry ∈ entries, entry.asObject.isSome := by
        simp [entryBlocked, Option.isSome_iff_ne_none]
      simp only [Option.some.injEq, forall_eq', ← hany]
      unfold analyzeCatalog
      simp only [hentries]
      cases hblocked : entries.any (entryBlocked unicode .monitor fields) with
      | false => simp
      | true =>
          obtain ⟨line, hline, -⟩ := ResponseSafety.rebuildResultArray_ok hentries
            (entries.filter (!entryBlocked unicode .monitor fields ·))
          simp [hline, Except.map]

theorem analyzeInspectableResponse_monitor {inspection : PendingInspection} :
    (∀ line, (analyzeInspectableResponse unicode .monitor msg inspection).1 ≠ .ok (some line)) ↔
      TransparentResponse msg inspection.kind := by
  unfold analyzeInspectableResponse TransparentResponse
  cases herror : msg.error with
  | some error =>
      simp only [reduceCtorEq, false_implies, iff_true]
      unfold analyzeErrorResponse
      intro line
      dsimp only
      split
      · simp
      · simp
  | none =>
      cases hshape : catalogShape inspection.kind with
      | none =>
          simp only [reduceCtorEq, false_implies, implies_true, iff_true]
          unfold analyzeToolResult
          intro line
          cases resultArray msg "content" with
          | none => simp
          | some content => simp
      | some shape =>
          cases shape with
          | mk listKey fields =>
              simp only [Option.some.injEq, Prod.mk.injEq, and_imp, forall_true_left]
              rw [analyzeCatalog_monitor]
              constructor
              · intro h key names hkey _
                rw [← hkey]
                exact h
              · exact fun h => h listKey fields rfl rfl

end

/-! ## Every message of the server -/

section
variable {δ : Type} [DecidableEq δ] (cfg : Shield) (fmt : Format δ)
  (hmac : String → Except String String)

/-- What the analysis a message is handed to finds nothing to rewrite in: the
listing is judged by the store as the reload leaves it. -/
def Transparent (env : Surroundings) (store : BaselineStore δ) (disk : Option Contents)
    (msg : JsonRpcMessage) : Route → Prop
  | .passThrough => True
  | .toolsList => ∀ tools, listedTools msg = some tools →
      TransparentListing cfg hmac (reload cfg fmt hmac disk store).1 (listing cfg env.clock tools)
  | .inspection entry => TransparentResponse msg entry.kind

/-- In monitor mode without a boundary, in every state, a message is sent on as
it came just when it is transparent. -/
theorem monitor_transparent_iff (env : Surroundings) (s : Proxy) (store : BaselineStore δ)
    (disk : Option Contents) (msg : JsonRpcMessage) :
    (forwardServerToAgent (monitoring cfg) fmt hmac env s store disk msg).rewritten = none ↔
      Transparent cfg fmt hmac env store disk msg (routeResponse s msg).2 := by
  unfold forwardServerToAgent
  cases hroute : routeResponse s msg with
  | mk s' route =>
      cases route with
      | passThrough => simp [Transparent]
      | toolsList =>
          unfold Transparent
          rw [← analyzeToolsList_monitor fmt env disk]
          dsimp only
          cases (analyzeToolsListWithBoundary (monitoring cfg) fmt hmac env msg store disk).outcome with
          | error error => simp
          | ok outcome =>
              cases outcome with
              | malformed => simp
              | analyzed rewritten =>
                  cases rewritten with
                  | none => simp
                  | some line => simp
      | inspection entry =>
          have hanalysis : analyzeInspectableResponse (monitoring cfg).unicode (monitoring cfg).mode
              msg entry = analyzeInspectableResponse cfg.unicode .monitor msg entry := rfl
          have hresponse := @analyzeInspectableResponse_monitor cfg.unicode msg entry
          change _ ↔ TransparentResponse msg entry.kind
          rw [← hresponse]
          dsimp only
          rw [hanalysis]
          cases analyzeInspectableResponse cfg.unicode .monitor msg entry with
          | mk analysis events =>
              cases analysis with
              | error error => simp
              | ok rewritten =>
                  cases rewritten with
                  | none => simp
                  | some line => simp

end

/-! ## Messages that are rewritten -/

/-- A listing in which one tool has no name. -/
def namelessTool : JsonRpcMessage where
  jsonrpc := some "2.0"
  id := some (number 1)
  result := some (.object [("tools", .array [.object [("inputSchema", .object [])]])])

/-- A catalogue of prompts with an entry that is not an object. -/
def strayPrompt : JsonRpcMessage where
  jsonrpc := some "2.0"
  id := some (number 1)
  result := some (.object [("prompts", .array [.string "summarise"])])

/-- The answer of a proxy in monitor mode that has just started. -/
def monitored (s : Proxy) (msg : JsonRpcMessage) : Relayed Contents :=
  forwardServerToAgent (monitoring (plainShield .monitor)) plainFormat plainHmac plainSurroundings s
    {} none msg

/-- The agent gets an empty listing and an empty catalogue. -/
theorem monitor_rewrites :
    (monitored ⟨["1"], [], [], []⟩ namelessTool).rewritten =
        some { namelessTool with result := some (.object [("tools", .array [])]) } ∧
      (monitored ⟨[], [⟨"1", .prompts, none⟩], [], []⟩ strayPrompt).rewritten =
        some { strayPrompt with result := some (.object [("prompts", .array [])]) } := by
  decide +kernel

end BlackMonolith.MonitorMode
