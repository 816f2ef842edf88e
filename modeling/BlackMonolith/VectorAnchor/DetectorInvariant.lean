import BlackMonolith.Library.Paths
import BlackMonolith.VectorAnchor.DetectorState
import BlackMonolith.VectorAnchor.QuarantineSafety
import BlackMonolith.VectorAnchor.Retention

/-!
# The detector state over runs

Every operation, and every start on a state file, leaves the detector in a
state where the two records of the quarantine agree, each document holds few
enough hits of earlier queries and of one dimension, and few enough documents
outside the quarantine are tracked. No operation drops the record of a document
in quarantine. A start does: the bound on tracked documents is enforced before
the tracker knows what is in quarantine.
-/
namespace BlackMonolith.VectorAnchor
open Library

/-! ## Runs -/

/-- A configuration that passed the checks of `load_config`; `similarity` is
`topic_similarity` as JSON writes it. -/
structure DetectorConfig (F : Type) extends ProxyConfig F where
  similarity : Json.Number
  hits : 1 ≤ tracker.maxQueriesPerDoc
  horizon : 1 ≤ tracker.retentionHorizon

/-- `DetectorStateStore.policy`. -/
def DetectorConfig.policy {F : Type} (cfg : DetectorConfig F) : Json.Value := .object
  [("min_distinct_topics", .number (.int cfg.tracker.minDistinctTopics)),
    ("topic_similarity", .number cfg.similarity),
    ("retention_horizon", .number (.int cfg.tracker.retentionHorizon)),
    ("max_queries_per_doc", .number (.int cfg.tracker.maxQueriesPerDoc))]

def DetectorConfig.store {F : Type} (cfg : DetectorConfig F) : DetectorStateStore F :=
  ⟨cfg.tracker, cfg.policy⟩

inductive DetectorStep (F D : Type)
  | operate (op : Operation (List F) D)
  | load (file : StateFile)

def RetrieverProxy.new {V : Type} : RetrieverProxy V := ⟨.new, .empty, ∅⟩

section
variable {F D : Type} (ops : PythonOps F) (inspectDocument : String → List String)
  (cfg : DetectorConfig F)

def detectorStep (s : RetrieverProxy (List F)) :
    DetectorStep F D → Option (RetrieverProxy (List F))
  | .operate op => some (s.step (embeddingVectors ops) inspectDocument cfg.toProxyConfig op)
  | .load file => buildProxy ops cfg.store file

/-! ## The invariant -/

structure DetectorInvariant (s : RetrieverProxy (List F)) : Prop where
  quarantined : ∀ id, id ∈ s.tracker.quarantined ↔ s.quarantine.has id = true
  capped : ∀ id record, s.tracker.docs.get? id = some record →
    record.size ≤ cfg.tracker.maxQueriesPerDoc
  hits : ∀ id record, s.tracker.docs.get? id = some record → ∀ queryId vec,
    record.get? queryId = some vec →
      queryId < s.tracker.nextQueryId ∧ s.tracker.embeddingDim = some vec.length
  bounded : s.tracker.unquarantined.length ≤ cfg.tracker.maxTrackedDocs

/-- A retrieval ranks the document among its top results. -/
def Ranks (s : RetrieverProxy (List F)) (id : String) : Operation (List F) D → Prop
  | .retrieve call => ∃ answer, call.answer (s.requested cfg.toProxyConfig call.k) = .ok answer ∧
      id ∈ answer.ids.take cfg.topRankThreshold
  | _ => False

/-- A retrieval that records its query leaves no old hit in the records it touches. -/
def TouchesLive (s s' : RetrieverProxy (List F)) : DetectorStep F D → Prop
  | .operate op => s'.tracker.nextQueryId = s.tracker.nextQueryId + 1 → ∀ id, Ranks cfg s id op →
      ∀ record, s'.tracker.docs.get? id = some record → ∀ queryId vec,
        record.get? queryId = some vec → s'.tracker.cutoff cfg.tracker ≤ queryId
  | .load _ => True

/-- What a file holds before the bound on tracked documents. -/
def DetectorStateStore.contents (store : DetectorStateStore F) :
    StateFile → Option (FrequencyTracker (List F) × Quarantine)
  | .json data =>
      match store.payload ops data with
      | .error _ => none
      | .ok (quarantine, trackerData) =>
          match readTracker ops store.cfg.maxQueriesPerDoc trackerData with
          | .error _ => none
          | .ok tracker => some (tracker, quarantine)
  | _ => none

/-- A quarantined document that the operation does not clear stays tracked, and
unless the operation ranks it, with every hit within the horizon. A start keeps
the records of the documents that the file has in quarantine. -/
def KeepsHistory (s s' : RetrieverProxy (List F)) : DetectorStep F D → Prop
  | .operate op => ∀ id, s.quarantine.has id = true → ¬ op.Clears id → ∀ record,
      s.tracker.docs.get? id = some record → ∃ record',
        s'.tracker.docs.get? id = some record' ∧ (¬ Ranks cfg s id op → ∀ queryId vec,
          record.get? queryId = some vec → s'.tracker.cutoff cfg.tracker ≤ queryId →
            record'.get? queryId = some vec)
  | .load file => ∀ tracker quarantine, cfg.store.contents ops file = some (tracker, quarantine) →
      ∀ id, quarantine.has id = true → ∀ record, tracker.docs.get? id = some record →
        s'.tracker.docs.get? id = some record

/-- Of the documents with hits in the file, those beyond the bound, counted from
the latest hit, are not in quarantine. -/
def FileFits (file : StateFile) : Prop :=
  ∀ tracker quarantine, cfg.store.contents ops file = some (tracker, quarantine) →
    ∀ id ∈ tracker.docs.keys.take (tracker.docs.size - cfg.tracker.maxTrackedDocs),
      quarantine.has id = false

end

/-! ## One operation -/

section
variable {F D : Type} {ops : PythonOps F} {inspectDocument : String → List String}
  {cfg : DetectorConfig F} {s s' : RetrieverProxy (List F)}

theorem detectorInvariant_iff : DetectorInvariant cfg s ↔
    s.Aligned ∧ FrequencyTracker.Retained (embeddingVectors ops) cfg.tracker s.tracker := by
  constructor
  · intro h
    exact ⟨h.quarantined, ⟨fun id record hget => ⟨h.capped id record hget, h.hits id record hget⟩,
      h.bounded⟩⟩
  · rintro ⟨haligned, hretained⟩
    exact ⟨haligned, fun id record hget => (hretained.records id record hget).1,
      fun id record hget => (hretained.records id record hget).2, hretained.bounded⟩

/-- The pass over the candidates changes the tracker by quarantining documents. -/
theorem inspectCandidate_tracker (nowMs : ℕ) (p : RetrieverProxy (List F) × Scan D)
    (candidate : Candidate D) :
    let r := RetrieverProxy.inspectCandidate (embeddingVectors ops) inspectDocument
      cfg.toProxyConfig nowMs p candidate
    r.1.tracker.docs = p.1.tracker.docs ∧ r.1.tracker.nextQueryId = p.1.tracker.nextQueryId ∧
      r.1.tracker.embeddingDim = p.1.tracker.embeddingDim ∧
      p.1.tracker.quarantined ⊆ r.1.tracker.quarantined := by
  obtain ⟨proxy, scan⟩ := p
  unfold RetrieverProxy.inspectCandidate
  dsimp only
  split
  · exact ⟨rfl, rfl, rfl, Finset.Subset.refl _⟩
  · split
    · exact ⟨rfl, rfl, rfl, Finset.subset_insert _ _⟩
    · cases hanom : proxy.tracker.anomalous (embeddingVectors ops) cfg.tracker candidate.id with
      | true =>
          simp only [FrequencyTracker.isAnomalous, hanom, if_true]
          exact ⟨rfl, rfl, rfl, (Finset.subset_insert _ _).trans (Finset.subset_insert _ _)⟩
      | false =>
          simp only [FrequencyTracker.isAnomalous, hanom, Bool.false_eq_true, if_false]
          exact ⟨trivial, trivial, trivial, Finset.Subset.refl _⟩

theorem pass_tracker (nowMs : ℕ) (cs : List (Candidate D))
    (p : RetrieverProxy (List F) × Scan D) :
    let r := cs.foldl (RetrieverProxy.inspectCandidate (embeddingVectors ops) inspectDocument
      cfg.toProxyConfig nowMs) p
    r.1.tracker.docs = p.1.tracker.docs ∧ r.1.tracker.nextQueryId = p.1.tracker.nextQueryId ∧
      r.1.tracker.embeddingDim = p.1.tracker.embeddingDim ∧
      p.1.tracker.quarantined ⊆ r.1.tracker.quarantined := by
  induction cs generalizing p with
  | nil => exact ⟨rfl, rfl, rfl, Finset.Subset.refl _⟩
  | cons c cs ih =>
      obtain ⟨h₁, h₂, h₃, h₄⟩ := @inspectCandidate_tracker F D ops inspectDocument cfg nowMs p c
      obtain ⟨k₁, k₂, k₃, k₄⟩ := ih (RetrieverProxy.inspectCandidate (embeddingVectors ops)
        inspectDocument cfg.toProxyConfig nowMs p c)
      exact ⟨k₁.trans h₁, k₂.trans h₂, k₃.trans h₃, h₄.trans k₄⟩

/-- A retrieval leaves the tracker alone, or records its query and quarantines documents. -/
theorem retrieve_tracker (call : Retrieval (List F) D) :
    let s' := (s.retrieve (embeddingVectors ops) inspectDocument cfg.toProxyConfig call).1
    s'.tracker = s.tracker ∨ ∃ answer embedding tracker,
      call.answer (s.requested cfg.toProxyConfig call.k) = .ok answer ∧
      s.tracker.recordQuery (embeddingVectors ops) cfg.tracker
        (answer.ids.take cfg.topRankThreshold) embedding = .ok tracker ∧
      s'.tracker.docs = tracker.docs ∧ s'.tracker.nextQueryId = tracker.nextQueryId ∧
      s'.tracker.embeddingDim = tracker.embeddingDim ∧
      tracker.quarantined ⊆ s'.tracker.quarantined := by
  unfold RetrieverProxy.retrieve RetrieverProxy.refuse
  dsimp only
  split
  · exact Or.inl rfl
  · split_ifs
    · exact Or.inl rfl
    · split
      · exact Or.inl rfl
      · next embedding _ =>
          unfold RetrieverProxy.retrieveLocked
          cases hanswer : call.answer (s.requested cfg.toProxyConfig call.k) with
          | error e => exact Or.inl rfl
          | ok answer =>
              dsimp only
              cases htracker : s.tracker.recordQuery (embeddingVectors ops) cfg.tracker
                  (answer.ids.take cfg.topRankThreshold) embedding with
              | error e => exact Or.inl rfl
              | ok tracker =>
                  have hpass := @pass_tracker F D ops inspectDocument cfg call.nowMs
                    (RetrieverProxy.Answer.candidates answer) ({ s with tracker }, {})
                  refine Or.inr ⟨answer, embedding, tracker, rfl, htracker, ?_⟩
                  dsimp only
                  split_ifs <;> exact hpass

/-- An operation keeps the invariant, touches live and keeps the quarantined history. -/
theorem operate_spec (h : DetectorInvariant cfg s) (op : Operation (List F) D) :
    let s' := s.step (embeddingVectors ops) inspectDocument cfg.toProxyConfig op
    DetectorInvariant cfg s' ∧ TouchesLive cfg s s' (.operate op) ∧
      KeepsHistory ops cfg s s' (.operate op) := by
  have haligned : (s.step (embeddingVectors ops) inspectDocument cfg.toProxyConfig op).Aligned :=
    RetrieverProxy.aligned_step h.quarantined
  have hretained := (@detectorInvariant_iff F ops cfg s).mp h |>.2
  have hsame : ∀ {record : DocRecord (List F)} {id : String} {t : FrequencyTracker (List F)},
      t.docs.get? id = some record → ∃ record', t.docs.get? id = some record' ∧
        (¬ Ranks cfg s id op → ∀ queryId vec, record.get? queryId = some vec →
          t.cutoff cfg.tracker ≤ queryId → record'.get? queryId = some vec) :=
    fun {record _ _} hget => ⟨record, hget, fun _ _ _ hvec _ => hvec⟩
  dsimp only
  rw [@detectorInvariant_iff F ops cfg]
  cases op with
  | retrieve call =>
      rcases @retrieve_tracker F D ops inspectDocument cfg s call with
        htracker | ⟨answer, embedding, tracker, hanswer, hrecord, hdocs, hn, hd, hmore⟩
      · simp only [RetrieverProxy.step] at haligned ⊢
        refine ⟨⟨haligned, htracker ▸ hretained⟩, ?_, ?_⟩
        · intro hnext
          rw [htracker] at hnext
          omega
        · intro id _ _ record hget
          exact hsame (htracker ▸ hget)
      · simp only [RetrieverProxy.step] at haligned ⊢
        obtain ⟨hretained', -, hlive, hkept⟩ := FrequencyTracker.recordQuery_spec cfg.hits
          cfg.horizon (dim_normalize ops) hretained hrecord
        have hcutoff : (s.retrieve (embeddingVectors ops) inspectDocument cfg.toProxyConfig
            call).1.tracker.cutoff cfg.tracker = tracker.cutoff cfg.tracker := by
          unfold FrequencyTracker.cutoff
          rw [hn]
        refine ⟨⟨haligned, hretained'.quarantine hdocs hn hd hmore⟩, ?_, ?_⟩
        · rintro - id ⟨answer', hanswer', hid⟩ record hget queryId vec hvec
          rw [hanswer] at hanswer'
          cases hanswer'
          rw [hcutoff]
          exact hlive id hid record (hdocs ▸ hget) queryId vec hvec
        · intro id hid _ record hget
          obtain ⟨record', hget', hhits⟩ :=
            hkept id ((h.quarantined id).mpr hid) record hget
          refine ⟨record', hdocs ▸ hget', fun hnot queryId vec hvec hcut => ?_⟩
          exact hhits (fun hmem => hnot ⟨answer, hanswer, hmem⟩) queryId vec hvec (hcutoff ▸ hcut)
  | upsertDocuments documents stored saved =>
      cases stored with
      | error e =>
          exact ⟨⟨haligned, hretained⟩, fun _ _ hranks => hranks.elim,
            fun id _ _ record hget => hsame hget⟩
      | ok count =>
          refine ⟨⟨haligned, hretained.forgetDocuments _⟩, fun _ _ hranks => hranks.elim, ?_⟩
          intro id _ hclears record hget
          have hid : id ∉ documents.map Prod.fst := fun hmem => hclears ⟨rfl, hmem⟩
          apply hsame
          exact (FrequencyTracker.get?_forgetDocuments _ id).trans ((if_neg hid).trans hget)
  | releaseQuarantine docId saved =>
      refine ⟨⟨haligned, hretained.resetDoc docId⟩, fun _ _ hranks => hranks.elim, ?_⟩
      intro id _ hclears record hget
      have hid : id ≠ docId := fun heq => hclears heq.symm
      apply hsame
      exact InsertionMap.get?_erase.trans ((if_neg hid).trans hget)
  | resetDetection saved =>
      refine ⟨⟨haligned, ?_, Nat.zero_le _⟩, fun _ _ hranks => hranks.elim, ?_⟩
      · intro id record hget
        cases hget
      · intro id _ hclears
        exact absurd trivial hclears

/-! ## One start on a state file -/

/-- The hits read so far fit, and reading keeps the dimension once it is known. -/
theorem readQueries_spec {nextQueryId : ℕ} {raw : List (String × Json.Value)} {dim dim' : Option ℕ}
    {queries queries' : DocRecord (List F)}
    (h : readQueries ops nextQueryId raw dim queries = .ok (dim', queries'))
    (hqueries : ∀ q vec, queries.get? q = some vec → q < nextQueryId ∧ dim = some vec.length) :
    queries'.size ≤ queries.size + raw.length ∧ (∀ d, dim = some d → dim' = some d) ∧
      ∀ q vec, queries'.get? q = some vec → q < nextQueryId ∧ dim' = some vec.length := by
  induction raw generalizing dim queries with
  | nil =>
      cases h
      exact ⟨Nat.le_add_right _ _, fun _ hd => hd, hqueries⟩
  | cons entry raw ih =>
      obtain ⟨rawQueryId, rawEmbedding⟩ := entry
      simp only [readQueries] at h
      cases hid : ops.int rawQueryId with
      | none =>
          rw [hid] at h
          cases h
      | some queryId =>
          rw [hid] at h
          dsimp only at h
          split_ifs at h with hrange
          cases hembedding : readEmbedding ops rawEmbedding with
          | error e =>
              rw [hembedding] at h
              cases h
          | ok embedding =>
              rw [hembedding] at h
              dsimp only at h
              split_ifs at h with hmismatch
              have hdim : ∀ d, dim = some d → some embedding.length = some d := by
                intro d hd
                by_contra hne
                apply hmismatch
                rw [hd, Option.any_some, decide_eq_true_eq]
                exact fun heq => hne (congrArg some heq.symm)
              have hlength : (normalize ops embedding).length = embedding.length :=
                dim_normalize ops embedding
              have hnext : ∀ q vec, (queries.set queryId.toNat (normalize ops embedding)).get? q =
                  some vec → q < nextQueryId ∧ some embedding.length = some vec.length := by
                intro q vec hvec
                rw [InsertionMap.get?_set] at hvec
                split_ifs at hvec with heq
                · cases hvec
                  refine ⟨?_, by rw [hlength]⟩
                  omega
                · obtain ⟨hlt, hd⟩ := hqueries q vec hvec
                  exact ⟨hlt, hdim _ hd⟩
              obtain ⟨hsize, hd, hall⟩ := ih h hnext
              refine ⟨?_, fun d hold => hd d (hdim d hold), hall⟩
              have hset := @InsertionMap.size_set_le _ _ _ queries queryId.toNat
                (normalize ops embedding)
              simp only [List.length_cons]
              omega

theorem readDocuments_spec {maxQueriesPerDoc nextQueryId : ℕ} {raw : List (String × Json.Value)}
    {dim dim' : Option ℕ} {loaded : List (LoadedDoc F)}
    (h : readDocuments ops maxQueriesPerDoc nextQueryId raw dim = .ok (dim', loaded)) :
    (∀ d, dim = some d → dim' = some d) ∧ ∀ doc ∈ loaded,
      doc.queries.size ≤ maxQueriesPerDoc ∧ ∀ q vec, doc.queries.get? q = some vec →
        q < nextQueryId ∧ dim' = some vec.length := by
  induction raw generalizing dim loaded with
  | nil =>
      cases h
      exact ⟨fun _ hd => hd, by simp⟩
  | cons entry raw ih =>
      obtain ⟨docId, value⟩ := entry
      cases value with
      | object rawQueries =>
          simp only [readDocuments] at h
          split_ifs at h with hbad
          cases hqueries : readQueries ops nextQueryId rawQueries dim .empty with
          | error e =>
              rw [hqueries] at h
              cases h
          | ok read =>
              obtain ⟨dim₁, queries⟩ := read
              rw [hqueries] at h
              dsimp only at h
              cases hrest : readDocuments ops maxQueriesPerDoc nextQueryId raw dim₁ with
              | error e =>
                  rw [hrest] at h
                  cases h
              | ok rest =>
                  obtain ⟨dim₂, loaded₁⟩ := rest
                  rw [hrest] at h
                  cases h
                  obtain ⟨hsize, hd, hall⟩ := readQueries_spec hqueries (by
                    intro q vec hvec
                    cases hvec)
                  obtain ⟨hd', hloaded⟩ := ih hrest
                  refine ⟨fun d hold => hd' d (hd d hold), ?_⟩
                  have hdoc : queries.size ≤ maxQueriesPerDoc := by
                    simp only [InsertionMap.size, InsertionMap.empty, List.length_nil] at hsize
                    simp only [not_or, not_lt] at hbad
                    exact (hsize.trans (by omega : 0 + rawQueries.length ≤ rawQueries.length)).trans
                      hbad.2.2
                  intro doc hmem
                  split_ifs at hmem
                  · exact hloaded doc hmem
                  · rcases List.mem_cons.mp hmem with rfl | hmem
                    · exact ⟨hdoc, fun q vec hvec =>
                        ⟨(hall q vec hvec).1, hd' _ (hall q vec hvec).2⟩⟩
                    · exact hloaded doc hmem
      | null => cases h
      | bool b => cases h
      | number n => cases h
      | string s => cases h
      | array items => cases h

theorem get?_loadedDocs {loaded : List (LoadedDoc F)} {id : String}
    {record : DocRecord (List F)} (h : (loadedDocs loaded).get? id = some record) :
    ∃ doc ∈ loaded, doc.queries = record := by
  have hfold : ∀ (docs : List (LoadedDoc F)) (m : Documents F),
      (docs.foldl (fun docs doc => docs.set doc.docId doc.queries) m).get? id = some record →
        m.get? id = some record ∨ ∃ doc ∈ docs, doc.queries = record := by
    intro docs
    induction docs with
    | nil => exact fun _ hget => Or.inl hget
    | cons doc docs ih =>
        intro m hget
        rcases ih _ hget with hold | ⟨doc', hmem, hrecord⟩
        · rw [InsertionMap.get?_set] at hold
          split_ifs at hold
          · exact Or.inr ⟨doc, List.mem_cons_self, Option.some.inj hold⟩
          · exact Or.inl hold
        · exact Or.inr ⟨doc', List.mem_cons_of_mem _ hmem, hrecord⟩
  rcases hfold _ _ h with hempty | ⟨doc, hmem, hrecord⟩
  · cases hempty
  · exact ⟨doc, (List.mem_insertionSort _).mp hmem, hrecord⟩

/-- What is read of the tracker fits, before the bound on tracked documents. -/
theorem readTracker_spec {data : Json.Value} {tracker : FrequencyTracker (List F)}
    (h : readTracker ops cfg.tracker.maxQueriesPerDoc data = .ok tracker) :
    tracker.quarantined = ∅ ∧ ∀ id record, tracker.docs.get? id = some record →
      FrequencyTracker.RecordFits (embeddingVectors ops) cfg.tracker tracker.nextQueryId
        tracker.embeddingDim record := by
  unfold readTracker at h
  split_ifs at h
  split at h
  · split_ifs at h
    split at h
    · cases h
    · next hread =>
        cases h
        obtain ⟨-, hloaded⟩ := readDocuments_spec hread
        refine ⟨rfl, fun id record hget => ?_⟩
        obtain ⟨doc, hmem, rfl⟩ := get?_loadedDocs hget
        exact hloaded doc hmem
  · cases h

/-- A start either finds a file it can take or none. -/
theorem buildProxy_cases {file : StateFile} (h : buildProxy ops cfg.store file = some s') :
    (cfg.store.contents ops file = none ∧ s' = .new) ∨
      ∃ data tracker quarantine,
        readTracker ops cfg.tracker.maxQueriesPerDoc data = .ok tracker ∧
        cfg.store.contents ops file = some (tracker, quarantine) ∧
        s' = ⟨(tracker.enforceMaxTrackedDocs cfg.tracker).updateQuarantined quarantine.keys,
          quarantine, ∅⟩ := by
  cases file with
  | absent =>
      cases h
      exact Or.inl ⟨rfl, rfl⟩
  | tooLarge =>
      cases h
      exact Or.inl ⟨rfl, rfl⟩
  | undecodable message =>
      cases h
      exact Or.inl ⟨rfl, rfl⟩
  | json data =>
      simp only [buildProxy, DetectorStateStore.load, DetectorStateStore.contents] at h ⊢
      cases hpayload : cfg.store.payload ops data with
      | error e =>
          rw [hpayload] at h
          cases e with
          | valueError message =>
              cases h
              exact Or.inl ⟨rfl, rfl⟩
          | overflowError => cases h
      | ok payload =>
          obtain ⟨quarantine, trackerData⟩ := payload
          rw [hpayload] at h
          simp only [FrequencyTracker.fromSnapshot] at h ⊢
          cases hread : readTracker ops cfg.store.cfg.maxQueriesPerDoc trackerData with
          | error e =>
              rw [hread] at h
              cases e with
              | valueError message =>
                  cases h
                  exact Or.inl ⟨rfl, rfl⟩
              | overflowError => cases h
          | ok tracker =>
              rw [hread] at h
              cases h
              exact Or.inr ⟨trackerData, tracker, quarantine, hread, rfl, rfl⟩

theorem new_invariant : DetectorInvariant cfg (RetrieverProxy.new : RetrieverProxy (List F)) := by
  refine ⟨?_, ?_, ?_, Nat.zero_le _⟩
  · intro id
    simp [RetrieverProxy.new, FrequencyTracker.new, InsertionMap.has]
  · intro id record hget
    cases hget
  · intro id record hget
    cases hget

/-- A start sets up the invariant, and keeps the history of what is in quarantine
exactly if the file fits. -/
theorem load_spec {file : StateFile} (h : buildProxy ops cfg.store file = some s') :
    DetectorInvariant cfg s' ∧
      (KeepsHistory (D := D) ops cfg s s' (.load file) ↔ FileFits ops cfg file) := by
  rcases buildProxy_cases h with ⟨hnone, rfl⟩ | ⟨data, tracker, quarantine, hread, hcontents, rfl⟩
  · refine ⟨new_invariant, ?_⟩
    constructor
    · intro _ tracker quarantine hsome
      rw [hnone] at hsome
      cases hsome
    · intro _ tracker quarantine hsome
      rw [hnone] at hsome
      cases hsome
  · obtain ⟨hempty, hfits⟩ := readTracker_spec hread
    obtain ⟨hq, hn, hd, hsub, -, -⟩ :=
      @FrequencyTracker.enforceOver_spec _ _ cfg.tracker tracker tracker.docs.keys
    rw [← FrequencyTracker.enforce_eq] at hq hn hd hsub
    have hdrop := @FrequencyTracker.enforce_drop _ _ cfg.tracker tracker hempty
    have hretained : FrequencyTracker.Retained (embeddingVectors ops) cfg.tracker
        (tracker.enforceMaxTrackedDocs cfg.tracker) := by
      refine ⟨fun id record hget => ?_, FrequencyTracker.unquarantined_enforce⟩
      rw [hn, hd]
      exact hfits id record (hsub id record hget)
    constructor
    · apply detectorInvariant_iff.mpr
      refine ⟨fun id => ?_, hretained.quarantine rfl rfl rfl Finset.subset_union_left⟩
      simp only [FrequencyTracker.updateQuarantined, hq, hempty, Finset.empty_union,
        List.mem_toFinset, InsertionMap.has_iff]
    · have hkeys : ∀ id record, tracker.docs.get? id = some record →
          ((tracker.enforceMaxTrackedDocs cfg.tracker).docs.get? id = some record ↔
            id ∉ tracker.docs.keys.take (tracker.docs.size - cfg.tracker.maxTrackedDocs)) := by
        intro id record hget
        have hmem := InsertionMap.get?_eq_some_iff.mp hget
        have hnodup : (tracker.docs.entries.map Prod.fst).Nodup := tracker.docs.nodup
        rw [InsertionMap.get?_eq_some_iff, hdrop]
        unfold InsertionMap.keys
        rw [← List.map_take]
        rw [← List.take_append_drop (tracker.docs.size - cfg.tracker.maxTrackedDocs)
          tracker.docs.entries] at hmem hnodup
        rw [List.map_append] at hnodup
        constructor
        · intro hlate hearly
          exact (List.nodup_append.mp hnodup).2.2 id hearly id (List.mem_map_of_mem hlate) rfl
        · intro hnot
          rcases List.mem_append.mp hmem with hearly | hlate
          · exact absurd (List.mem_map_of_mem hearly) hnot
          · exact hlate
      constructor
      · intro hkeeps tracker' quarantine' hsome id hid
        rw [hcontents] at hsome
        cases hsome
        by_contra hhas
        rw [Bool.not_eq_false] at hhas
        obtain ⟨record, hget⟩ := Option.isSome_iff_exists.mp
          (InsertionMap.has_iff.mpr (List.mem_of_mem_take hid))
        exact (hkeys id record hget).mp (hkeeps _ _ hcontents id hhas record hget) hid
      · intro hfile tracker' quarantine' hsome id hid record hget
        have hsome' := hsome
        rw [hcontents] at hsome'
        cases hsome'
        apply (hkeys id record hget).mpr
        intro hearly
        rw [hfile _ _ hsome id hearly] at hid
        cases hid

theorem step_spec (h : DetectorInvariant cfg s) {step : DetectorStep F D}
    (hstep : detectorStep ops inspectDocument cfg s step = some s') :
    DetectorInvariant cfg s' ∧ TouchesLive cfg s s' step ∧
      (KeepsHistory ops cfg s s' step ↔ ∀ file, step = .load file → FileFits ops cfg file) := by
  cases step with
  | operate op =>
      cases hstep
      obtain ⟨hinvariant, htouches, hkeeps⟩ := @operate_spec F D ops inspectDocument cfg s h op
      exact ⟨hinvariant, htouches, iff_of_true hkeeps fun file heq => by cases heq⟩
  | load file =>
      obtain ⟨hinvariant, hkeeps⟩ := @load_spec F D ops cfg s s' file hstep
      refine ⟨hinvariant, trivial, hkeeps.trans ?_⟩
      constructor
      · rintro hfits file' ⟨⟩
        exact hfits
      · exact fun hfits => hfits file rfl

/-- Every run keeps the invariant, and its retrievals leave no old hit in what
they touch. No step drops the history of a quarantined document exactly if all
files the run starts on fit. -/
theorem detector_invariant {steps : List (DetectorStep F D)} {last : RetrieverProxy (List F)}
    (hrun : Path (detectorStep ops inspectDocument cfg) unguarded .new steps last) :
    (∀ before step after s s', steps = before ++ step :: after →
      Path (detectorStep ops inspectDocument cfg) unguarded .new before s →
      detectorStep ops inspectDocument cfg s step = some s' →
        DetectorInvariant cfg s' ∧ TouchesLive cfg s s' step ∧ KeepsHistory ops cfg s s' step) ↔
    ∀ file, .load file ∈ steps → FileFits ops cfg file := by
  have hreached : ∀ {before : List (DetectorStep F D)} {s : RetrieverProxy (List F)},
      Path (detectorStep ops inspectDocument cfg) unguarded .new before s →
        DetectorInvariant cfg s :=
    fun hbefore => hbefore.invariant (fun _ _ _ h _ hstep => (step_spec h hstep).1) new_invariant
  constructor
  · intro hall file hfile
    obtain ⟨before, after, rfl⟩ := List.append_of_mem hfile
    obtain ⟨s, hbefore, hafter⟩ := hrun.split
    cases hafter with
    | step hstep _ _ =>
        obtain ⟨-, -, hkeeps⟩ := hall before (.load file) after s _ rfl hbefore hstep
        exact (step_spec (hreached hbefore) hstep).2.2.mp hkeeps file rfl
  · rintro hfits before step after s s' rfl hbefore hstep
    obtain ⟨hinvariant, htouches, hkeeps⟩ := step_spec (hreached hbefore) hstep
    refine ⟨hinvariant, htouches, hkeeps.mpr ?_⟩
    rintro file rfl
    exact hfits file (List.mem_append_right _ List.mem_cons_self)

end

/-! ## Two documents in quarantine -/

/-- Integers for floats that are all zero or one. -/
def wholeOps : PythonOps ℤ where
  zero := 0
  add := (· + ·)
  mul := (· * ·)
  div := (· / ·)
  sqrt := id
  isZero := (· == 0)
  isFinite := fun _ => true
  lt := fun a b => decide (a < b)
  le := fun a b => decide (a ≤ b)
  ofNumber
    | .int n => some n
    | .float _ => none
  int := fun text => if text = "0" then some 0 else if text = "1" then some 1 else none
  eq := fun a b => decide (a = b)

def boundedConfig (maxTrackedDocs : ℕ) : DetectorConfig ℤ :=
  { demoConfig with
    tracker := { minDistinctTopics := 4, topicSimilarity := 1, maxTrackedDocs }
    similarity := .int 1
    hits := show 1 ≤ 8 by decide
    horizon := show 1 ≤ 500 by decide }

def whole (n : ℤ) : Json.Value := .number (.int n)

def quarantinedEntry (docId : String) : Json.Value := .object
  [("doc_id", .string docId), ("reason", .string "retrieved_instruction_indicators"),
    ("score", whole 1), ("preview", .string ""), ("quarantined_at_ms", whole 5)]

/-- Both documents are in quarantine, and each ranked for one query. -/
def quarantinedFile : StateFile := .json (.object
  [("version", whole 1), ("policy", (boundedConfig 1).policy),
    ("tracker", .object
      [("version", whole 2), ("next_query_id", whole 2),
        ("documents", .object
          [("doc-1", .object [("0", .array [whole 1, whole 0])]),
            ("doc-2", .object [("1", .array [whole 0, whole 1])])])]),
    ("quarantine", .array [quarantinedEntry "doc-1", quarantinedEntry "doc-2"])])

theorem start_drops_quarantined : ∃ s',
    detectorStep (D := ℕ) wholeOps demoInspect (boundedConfig 1) .new (.load quarantinedFile) =
      some s' ∧
    s'.quarantine.has "doc-1" = true ∧ s'.tracker.docs.has "doc-1" = false ∧
    ¬ KeepsHistory (D := ℕ) wholeOps (boundedConfig 1) .new s' (.load quarantinedFile) := by
  refine ⟨_, rfl, by decide, by decide, fun hkeeps => ?_⟩
  have hget := hkeeps _ _ rfl "doc-1" (by decide) _ rfl
  have hgone : (FrequencyTracker.docs (RetrieverProxy.tracker ((buildProxy wholeOps
      (boundedConfig 1).store quarantinedFile).getD .new))).has "doc-1" = false := by decide
  have hhas := Option.isSome_iff_exists.mpr ⟨_, hget⟩
  exact absurd hhas (Bool.eq_false_iff.mp hgone)

theorem quarantinedFile_fits : FileFits wholeOps (boundedConfig 2) quarantinedFile := by
  intro tracker quarantine hsome id hid
  have hall : ∀ p ∈ (boundedConfig 2).store.contents wholeOps quarantinedFile,
      p.1.docs.size - (boundedConfig 2).tracker.maxTrackedDocs = 0 := by decide
  rw [hall (tracker, quarantine) hsome] at hid
  cases hid

/-- A document is released between two starts on the file. -/
def restarts : List (DetectorStep ℤ ℕ) :=
  [.load quarantinedFile, .operate (.releaseQuarantine "doc-2" true), .load quarantinedFile]

theorem detector_invariant_of_restarts : ∃ s s',
    Path (detectorStep wholeOps demoInspect (boundedConfig 2)) unguarded .new (restarts.take 2) s ∧
    detectorStep wholeOps demoInspect (boundedConfig 2) s
      (.load quarantinedFile : DetectorStep ℤ ℕ) = some s' ∧
    s.quarantine.has "doc-2" = false ∧ DetectorInvariant (boundedConfig 2) s' ∧
    KeepsHistory wholeOps (boundedConfig 2) s s' (.load quarantinedFile : DetectorStep ℤ ℕ) := by
  have hbefore : Path (detectorStep wholeOps demoInspect (boundedConfig 2)) unguarded .new
      (restarts.take 2) _ := .step rfl trivial (.step rfl trivial (.done _))
  have hrun : Path (detectorStep wholeOps demoInspect (boundedConfig 2)) unguarded .new
      restarts _ := .step rfl trivial (.step rfl trivial (.step rfl trivial (.done _)))
  have hall := (detector_invariant hrun).mpr (by
    intro file hfile
    simp only [restarts, List.mem_cons, DetectorStep.load.injEq, reduceCtorEq, List.not_mem_nil,
      or_false, false_or, or_self] at hfile
    exact hfile ▸ quarantinedFile_fits)
  obtain ⟨hinvariant, -, hkeeps⟩ := hall _ _ [] _ _ rfl hbefore rfl
  exact ⟨_, _, hbefore, rfl, by decide, hinvariant, hkeeps⟩

end BlackMonolith.VectorAnchor
